import Mathlib.Data.List.TakeWhile

/-!
# Script elements and the strings in them

How a browser takes a script element out of a page, and the string literals in single quotes out of
the script.  The states of a script are those of the HTML tokenizer: a comment in it may hide an end
tag.  Text without `<` stays in the script, and text without a quote, a backslash or a line break
stays in its literal.
-/

namespace NetProg.Script

/-- Where the tokenizer is inside a script. -/
inductive Mode where
  | data
  | escaped
  | doubleEscaped
  deriving DecidableEq, Repr

/-- The tag `mark` follows, in letters of any case, and its name ends there. -/
def tagAhead (mark s : List Char) : Bool :=
  (s.take mark.length).map Char.toLower == mark &&
    (s.drop mark.length).head?.any fun c => "\t\n\x0c\r />".toList.contains c

/-- The script up to its end tag, and what begins there. -/
def scriptData : Mode → List Char → Option (List Char × List Char)
  | _, [] => none
  | .data, c :: s =>
      if tagAhead "</script".toList (c :: s) then some ([], c :: s)
      else
        let mode := if "<!--".toList.isPrefixOf (c :: s) then Mode.escaped else .data
        (scriptData mode s).map fun r => (c :: r.1, r.2)
  | .escaped, c :: s =>
      if tagAhead "</script".toList (c :: s) then some ([], c :: s)
      else
        let mode :=
          if "-->".toList.isPrefixOf (c :: s) then Mode.data
          else if tagAhead "<script".toList (c :: s) then .doubleEscaped
          else .escaped
        (scriptData mode s).map fun r => (c :: r.1, r.2)
  | .doubleEscaped, c :: s =>
      let mode :=
        if "-->".toList.isPrefixOf (c :: s) then Mode.data
        else if tagAhead "</script".toList (c :: s) then .escaped
        else .doubleEscaped
      (scriptData mode s).map fun r => (c :: r.1, r.2)

/-- A page that begins with a script element: the script, and the page behind the end tag. -/
def element (s : List Char) : Option (List Char × List Char) :=
  if "<script>".toList.isPrefixOf s then
    (scriptData .data (s.drop "<script>".length)).map fun r =>
      (r.1, (r.2.dropWhile (· != '>')).drop 1)
  else none

/-- A page that consists of script elements, each with a line break behind it: the scripts. -/
def elements : Nat → List Char → Option (List (List Char))
  | _, [] => some []
  | 0, _ => none
  | fuel + 1, s => do
      let (script, s) ← element s
      match s with
      | '\n' :: s => (elements fuel s).map (script :: ·)
      | _ => none

/-- A piece of a script: code, or a string literal without its quotes. -/
inductive Piece where
  | code (text : List Char)
  | literal (text : List Char)
  deriving DecidableEq, Repr

/-- The rest of a literal in single quotes, as it is written, and the script behind it.  A line break
ends no literal. -/
def literal : List Char → Option (List Char × List Char)
  | [] => none
  | '\'' :: s => some ([], s)
  | '\\' :: c :: s => (literal s).map fun r => ('\\' :: c :: r.1, r.2)
  | c :: s =>
      if c = '\n' ∨ c = '\r' ∨ c = '\\' then none else (literal s).map fun r => (c :: r.1, r.2)

/-- The pieces of a script whose literals are in single quotes. -/
def pieces : Nat → List Char → Option (List Piece)
  | 0, _ => none
  | fuel + 1, s =>
      let code := s.takeWhile (· != '\'')
      match s.dropWhile (· != '\'') with
      | [] => some [.code code]
      | _ :: s => do
          let (text, s) ← literal s
          let rest ← pieces fuel s
          some (.code code :: .literal text :: rest)

/-- Nothing here ends a literal or begins an escape. -/
def Plain (c : Char) : Prop := c ≠ '\'' ∧ c ≠ '\\' ∧ c ≠ '\n' ∧ c ≠ '\r'

/-- The text stays in the script, whatever follows. -/
def Stays (text : List Char) : Prop :=
  ∀ rest, scriptData .data (text ++ rest) =
    (scriptData .data rest).map fun r => (text ++ r.1, r.2)

section Laws

variable {mark code text rest : List Char} {c : Char}

theorem toLower_eq_angle : c.toLower = '<' ↔ c = '<' := by
  constructor
  · intro same
    unfold Char.toLower at same
    split at same
    · rename_i upper
      have value := congrArg (fun c => c.val.toNat) same
      have low : 65 ≤ c.val.toNat := UInt32.le_iff_toNat_le.mp upper.1
      have high : c.val.toNat ≤ 90 := UInt32.le_iff_toNat_le.mp upper.2
      have angle : '<'.val.toNat = 60 := rfl
      have shift : ('a'.val - 'A'.val).toNat = 32 := rfl
      simp only [UInt32.toNat_add, angle, shift] at value
      omega
    · exact same
  · rintro rfl
    rfl

theorem tagAhead_other (other : c ≠ '<') (s : List Char) : tagAhead ('<' :: mark) (c :: s) = false := by
  simp [tagAhead, toLower_eq_angle, other]

/-- A character that begins neither an end tag nor a comment stays in the script. -/
theorem scriptData_cons (ends : tagAhead "</script".toList (c :: text) = false)
    (opens : "<!--".toList.isPrefixOf (c :: text) = false) :
    scriptData .data (c :: text) = (scriptData .data text).map fun r => (c :: r.1, r.2) := by
  rw [scriptData, ends, opens]
  simp only [Bool.false_eq_true, if_false]

theorem Stays.nil : Stays [] := by
  intro rest
  simp

theorem Stays.append {s t : List Char} (first : Stays s) (second : Stays t) : Stays (s ++ t) := by
  intro rest
  rw [List.append_assoc, first, second, Option.map_map]
  simp only [Function.comp_def, List.append_assoc]

theorem Stays.quiet {s : List Char} (more : Stays s)
    (ends : ∀ rest, tagAhead "</script".toList (c :: (s ++ rest)) = false)
    (opens : ∀ rest, "<!--".toList.isPrefixOf (c :: (s ++ rest)) = false) : Stays (c :: s) := by
  intro rest
  rw [List.cons_append, scriptData_cons (ends rest) (opens rest), more, Option.map_map]
  rfl

theorem Stays.cons {s : List Char} (other : c ≠ '<') (more : Stays s) : Stays (c :: s) := by
  apply more.quiet
  · intro rest
    exact tagAhead_other other _
  · intro rest
    simp [List.isPrefixOf, other.symm]

/-- Text without `<` stays in the script. -/
theorem Stays.plain (plain : '<' ∉ text) : Stays text := by
  induction text with
  | nil => exact .nil
  | cons c text ih =>
      apply Stays.cons
      · rintro rfl
        exact plain List.mem_cons_self
      · exact ih fun member => plain (List.mem_cons_of_mem c member)

theorem scriptData_end (rest : List Char) :
    scriptData .data ("</script>".toList ++ rest) = some ([], "</script>".toList ++ rest) := rfl

/-- A script element whose script holds no end tag. -/
theorem element_eq (stays : Stays code) (rest : List Char) :
    element ("<script>".toList ++ (code ++ ("</script>".toList ++ rest))) = some (code, rest) := by
  have begins : "<script>".toList.isPrefixOf
      ("<script>".toList ++ (code ++ ("</script>".toList ++ rest))) = true := by
    rw [List.isPrefixOf_iff_prefix]
    exact List.prefix_append _ _
  rw [element, if_pos begins]
  have behind : ("<script>".toList ++ (code ++ ("</script>".toList ++ rest))).drop
      "<script>".length = code ++ ("</script>".toList ++ rest) := rfl
  rw [behind, stays, scriptData_end, Option.map_some, Option.map_some, List.append_nil]
  rfl

/-- The scripts of a page of elements are read one by one. -/
theorem elements_cons {page : List Char} (first : element page = some (code, '\n' :: rest))
    (fuel : Nat) : elements (fuel + 1) page = (elements fuel rest).map (code :: ·) := by
  cases page with
  | nil => cases first
  | cons c page =>
      rw [elements]
      · rw [first]
        rfl
      · intro never
        cases never

/-- Plain text stays in its literal. -/
theorem literal_eq (plain : ∀ c ∈ text, Plain c) (rest : List Char) :
    literal (text ++ '\'' :: rest) = some (text, rest) := by
  induction text with
  | nil => rfl
  | cons c text ih =>
      obtain ⟨noQuote, noEscape, noLF, noCR⟩ := plain c List.mem_cons_self
      have inner : ∀ c ∈ text, Plain c := fun c member => plain c (List.mem_cons_of_mem _ member)
      rw [List.cons_append, literal, ih inner]
      · simp [noEscape, noLF, noCR]
      · exact noQuote
      · intro d rest' never
        exact absurd never noEscape

theorem pieces_last (code : List Char) (noQuote : '\'' ∉ code) (fuel : Nat) :
    pieces (fuel + 1) code = some [.code code] := by
  have all : ∀ c ∈ code, (c != '\'') = true := fun c member =>
    bne_iff_ne.mpr fun same => noQuote (same ▸ member)
  rw [pieces, List.takeWhile_eq_self_iff.mpr all, List.dropWhile_eq_nil_iff.mpr all]

/-- A script with a literal: the code before it, the literal, and the pieces behind it. -/
theorem pieces_literal (noQuote : '\'' ∉ code) (plain : ∀ c ∈ text, Plain c) (fuel : Nat) :
    pieces (fuel + 1) (code ++ '\'' :: (text ++ '\'' :: rest)) =
      (pieces fuel rest).map fun more => .code code :: .literal text :: more := by
  have all : ∀ c ∈ code, (c != '\'') = true := fun c member =>
    bne_iff_ne.mpr fun same => noQuote (same ▸ member)
  rw [pieces, List.takeWhile_append_of_pos all, List.dropWhile_append_of_pos all]
  simp only [List.takeWhile_cons, List.dropWhile_cons, bne_self_eq_false, Bool.false_eq_true,
    if_false, List.append_nil, literal_eq plain rest, Option.bind_eq_bind, Option.bind_some]
  cases pieces fuel rest with
  | none => rfl
  | some more => rfl

end Laws

end NetProg.Script
