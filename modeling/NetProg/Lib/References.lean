import Mathlib.Data.List.MinMax
import Mathlib.Data.List.Nodup
import Mathlib.Data.List.TakeWhile

/-!
# Character references

How a browser reads the text of an element and the value of an attribute: line breaks are made one
kind, references are replaced by what they stand for, and NULs do not stay.  The table of named
references is a parameter.  Only text without any of this is read as it is written.
-/

namespace NetProg.References

/-- The named references: what stands behind the ampersand, and what it stands for. -/
structure Names where
  table : List (List Char × List Char)
  shorter : ∀ entry ∈ table, entry.2.length ≤ entry.1.length

/-- The references that escaped text needs. -/
def entities : List (List Char × Char) :=
  [("amp;".toList, '&'), ("gt;".toList, '>'), ("lt;".toList, '<'), ("quot;".toList, '"'),
    ("apos;".toList, '\''), ("NewLine;".toList, '\n')]

/-- A table of distinct names, with these references in it. -/
structure StandardNames extends Names where
  standard : ∀ entity ∈ entities, (entity.1, [entity.2]) ∈ table
  distinct : (table.map Prod.fst).Nodup
  semicolon : ∀ entry ∈ table, ';' ∉ entry.1.dropLast
  noAmp : ∀ entry ∈ table, '&' ∉ entry.1

def isHex (c : Char) : Bool := c.isDigit || ('a' ≤ c && c ≤ 'f') || ('A' ≤ c && c ≤ 'F')

def digitValue (c : Char) : Nat :=
  if c.isDigit then c.toNat - 48 else if 'a' ≤ c then c.toNat - 87 else c.toNat - 55

/-- What the numbers of C1 control characters stand for. -/
def windows1252 : List (Nat × Nat) :=
  [(0x80, 0x20AC), (0x82, 0x201A), (0x83, 0x0192), (0x84, 0x201E), (0x85, 0x2026), (0x86, 0x2020),
    (0x87, 0x2021), (0x88, 0x02C6), (0x89, 0x2030), (0x8A, 0x0160), (0x8B, 0x2039), (0x8C, 0x0152),
    (0x8E, 0x017D), (0x91, 0x2018), (0x92, 0x2019), (0x93, 0x201C), (0x94, 0x201D), (0x95, 0x2022),
    (0x96, 0x2013), (0x97, 0x2014), (0x98, 0x02DC), (0x99, 0x2122), (0x9A, 0x0161), (0x9B, 0x203A),
    (0x9C, 0x0153), (0x9E, 0x017E), (0x9F, 0x0178)]

/-- The replacement character. -/
def replacement : Char := Char.ofNat 0xFFFD

/-- The character with a number. -/
def numbered (n : Nat) : Char :=
  if n = 0 ∨ 0x10FFFF < n ∨ (0xD800 ≤ n ∧ n ≤ 0xDFFF) then replacement
  else Char.ofNat ((windows1252.lookup n).getD n)

/-- A numeric reference behind its ampersand: what it stands for, and its length. -/
def numeric (s : List Char) : Option (List Char × Nat) :=
  if s.head? = some '#' then
    let hex := s[1]? = some 'x' ∨ s[1]? = some 'X'
    let mark := if hex then 2 else 1
    let digits := (s.drop mark).takeWhile (if hex then isHex else Char.isDigit)
    if digits = [] then none
    else
      let base := if hex then 16 else 10
      let value := digits.foldl (fun n d => base * n + digitValue d) 0
      let semicolon := if s[mark + digits.length]? = some ';' then 1 else 0
      some ([numbered value], mark + digits.length + semicolon)
  else none

/-- The longest named reference; in an attribute one without a semicolon ends a word. -/
def named (names : Names) (inTag : Bool) (s : List Char) : Option (List Char × Nat) :=
  match (names.table.filter fun entry => entry.1.isPrefixOf s).argmax fun entry => entry.1.length with
  | none => none
  | some entry =>
      if inTag ∧ entry.1.getLast? ≠ some ';' ∧
          s[entry.1.length]?.any (fun c => c == '=' || c.isAlphanum) then none
      else some (entry.2, entry.1.length)

def reference (names : Names) (inTag : Bool) (s : List Char) : Option (List Char × Nat) :=
  match numeric s with
  | some r => some r
  | none => named names inTag s

/-- The text with its references replaced; so many characters belong to one that was. -/
def decode (names : Names) (inTag : Bool) : Nat → List Char → List Char
  | _, [] => []
  | skip + 1, _ :: s => decode names inTag skip s
  | 0, c :: s =>
      if c = '&' then
        match reference names inTag s with
        | some (expansion, length) => expansion ++ decode names inTag length s
        | none => c :: decode names inTag 0 s
      else c :: decode names inTag 0 s

/-- CR LF and CR are LF. -/
def newlines : List Char → List Char
  | [] => []
  | '\r' :: '\n' :: s => '\n' :: newlines s
  | c :: s => (if c = '\r' then '\n' else c) :: newlines s

/-- The text of an element. -/
def text (names : Names) (raw : List Char) : List Char :=
  (decode names false 0 (newlines raw)).filter (· ≠ '\x00')

/-- The value of an attribute. -/
def value (names : Names) (raw : List Char) : List Char :=
  (decode names true 0 (newlines raw)).map fun c => if c = '\x00' then replacement else c

/-- No reference begins anywhere. -/
def Bare (names : Names) (inTag : Bool) (s : List Char) : Prop :=
  ∀ t, '&' :: t <:+ s → reference names inTag t = none

/-- The characters stand for themselves. -/
structure Literal (names : Names) (s : List Char) : Prop where
  bare : Bare names false s
  noCR : '\r' ∉ s
  noNul : '\x00' ∉ s

section Laws

variable {names : Names} {inTag : Bool} {s e : List Char} {n : Nat}

theorem numeric_length (found : numeric s = some (e, n)) : e.length ≤ n ∧ n ≤ s.length := by
  unfold numeric at found
  split at found
  · rename_i begins
    extract_lets hex mark digits base value semicolon at found
    split at found
    · cases found
    · rename_i nonempty
      cases found
      have some : 1 ≤ digits.length := List.length_pos_iff.mpr nonempty
      have inside : digits.length ≤ (s.drop mark).length := (List.takeWhile_prefix _).length_le
      rw [List.length_drop] at inside
      refine ⟨by simp only [List.length_singleton]; omega, ?_⟩
      simp only [semicolon]
      split
      · rename_i more
        have := (List.getElem?_eq_some_iff.mp more).1
        omega
      · omega
  · cases found

theorem noAmp_numeric (found : numeric s = some (e, n)) : '&' ∉ s.take n := by
  unfold numeric at found
  split at found
  · rename_i begins
    extract_lets hex mark digits base value semicolon at found
    split at found
    · cases found
    · cases found
      have inside : digits <+: s.drop mark := List.takeWhile_prefix _
      obtain ⟨rest, whole⟩ := inside
      have start : '&' ∉ s.take mark := by
        intro member
        obtain ⟨i, place, same⟩ := List.mem_take_iff_getElem.mp member
        have low : i = 0 ∨ i = 1 ∧ hex := by
          by_cases letter : hex
          · simp only [mark, if_pos letter] at place
            have two : i = 0 ∨ i = 1 := by omega
            exact two.imp_right fun one => ⟨one, letter⟩
          · simp only [mark, if_neg letter] at place
            left
            omega
        have position : s[i]? = some '&' := List.getElem?_eq_some_iff.mpr ⟨_, same⟩
        rcases low with rfl | ⟨rfl, letter⟩
        · rw [List.head?_eq_getElem?, position] at begins
          cases begins
        · rcases letter with small | large
          · rw [position] at small
            cases small
          · rw [position] at large
            cases large
      have middle : '&' ∉ digits := by
        intro member
        have digit := List.mem_takeWhile_imp member
        split at digit <;> exact absurd digit (by decide)
      have last : '&' ∉ rest.take semicolon := by
        simp only [semicolon]
        split
        · rename_i more
          have next : rest.head? = some ';' := by
            rw [← List.getElem?_drop, ← whole, List.getElem?_append_right (Nat.le_refl _),
              Nat.sub_self] at more
            rw [List.head?_eq_getElem?]
            exact more
          cases rest with
          | nil => cases next
          | cons c rest =>
              obtain rfl : c = ';' := Option.some.inj next
              simp
        · exact List.not_mem_nil
      have taken : s.take (mark + digits.length + semicolon) =
          s.take mark ++ (digits ++ rest.take semicolon) := by
        rw [Nat.add_assoc, List.take_add, ← whole, List.take_length_add_append]
      rw [taken]
      intro member
      rcases List.mem_append.mp member with first | later
      · exact start first
      · rcases List.mem_append.mp later with digit | finish
        · exact middle digit
        · exact last finish
  · cases found

theorem named_length (found : named names inTag s = some (e, n)) :
    e.length ≤ n ∧ n ≤ s.length := by
  unfold named at found
  split at found
  · cases found
  · rename_i entry longest
    split at found
    · cases found
    · cases found
      have member := List.mem_filter.mp (List.argmax_mem longest)
      refine ⟨names.shorter entry member.1, ?_⟩
      exact (List.isPrefixOf_iff_prefix.mp member.2).length_le

theorem reference_length (found : reference names inTag s = some (e, n)) :
    e.length ≤ n ∧ n ≤ s.length := by
  unfold reference at found
  split at found
  · rename_i number
    cases found
    exact numeric_length number
  · exact named_length found

theorem length_decode (names : Names) (inTag : Bool) (within : n ≤ s.length) :
    (decode names inTag n s).length + n ≤ s.length := by
  induction s generalizing n with
  | nil =>
      obtain rfl : n = 0 := Nat.le_zero.mp within
      exact Nat.le_refl _
  | cons c s ih =>
      cases n with
      | succ n =>
          have := ih (Nat.le_of_succ_le_succ within)
          rw [decode, List.length_cons]
          omega
      | zero =>
          have plain := ih (Nat.zero_le _)
          unfold decode
          split
          · split
            · rename_i expansion length found
              obtain ⟨short, inside⟩ := reference_length found
              have := ih inside
              rw [List.length_append, List.length_cons]
              omega
            · exact Nat.succ_le_succ plain
          · exact Nat.succ_le_succ plain

theorem Bare.tail {c : Char} (bare : Bare names inTag (c :: s)) : Bare names inTag s :=
  fun t suffix => bare t (suffix.trans (List.suffix_cons c s))

theorem Bare.cons {c : Char} (bare : Bare names inTag s)
    (here : c = '&' → reference names inTag s = none) : Bare names inTag (c :: s) := by
  intro t suffix
  rcases List.suffix_cons_iff.mp suffix with same | inner
  · obtain ⟨amp, rfl⟩ := List.cons.inj same
    exact here amp.symm
  · exact bare t inner

/-- Without an ampersand there is no reference. -/
theorem Bare.plain (plain : '&' ∉ s) : Bare names inTag s :=
  fun _ suffix => absurd (suffix.subset List.mem_cons_self) plain

theorem decode_bare (bare : Bare names inTag s) : decode names inTag 0 s = s := by
  induction s with
  | nil => rfl
  | cons c s ih =>
      unfold decode
      rw [ih bare.tail]
      split
      · rename_i amp
        subst amp
        rw [bare s (List.suffix_refl _)]
      · rfl

/-- A reference is longer than what it stands for. -/
theorem bare_of_length (same : s.length ≤ (decode names inTag 0 s).length) :
    Bare names inTag s := by
  induction s with
  | nil =>
      intro t suffix
      cases List.suffix_nil.mp suffix
  | cons c s ih =>
      have plain := length_decode names inTag (Nat.zero_le s.length)
      unfold decode at same
      split at same
      · split at same
        · rename_i expansion length found
          obtain ⟨short, inside⟩ := reference_length found
          have := length_decode names inTag inside
          rw [List.length_append, List.length_cons] at same
          omega
        · rename_i missing
          exact (ih (Nat.le_of_succ_le_succ same)).cons fun _ => missing
      · rename_i other
        exact (ih (Nat.le_of_succ_le_succ same)).cons fun amp => absurd amp other

theorem length_newlines (s : List Char) : (newlines s).length ≤ s.length := by
  fun_induction newlines s with
  | case1 => exact Nat.le_refl _
  | case2 s ih => exact Nat.succ_le_succ (ih.trans (Nat.le_succ _))
  | case3 c s other ih => exact Nat.succ_le_succ ih

theorem newlines_eq (noCR : '\r' ∉ s) : newlines s = s := by
  fun_induction newlines s with
  | case1 => rfl
  | case2 s ih => exact absurd List.mem_cons_self noCR
  | case3 c s other ih =>
      have notCR : c ≠ '\r' := fun same => noCR (same ▸ List.mem_cons_self)
      rw [if_neg notCR, ih fun member => noCR (List.mem_cons_of_mem c member)]

theorem noCR_newlines (s : List Char) : '\r' ∉ newlines s := by
  fun_induction newlines s with
  | case1 => exact List.not_mem_nil
  | case2 s ih =>
      intro member
      rcases List.mem_cons.mp member with same | inner
      · exact absurd same (by decide)
      · exact ih inner
  | case3 c s other ih =>
      intro member
      rcases List.mem_cons.mp member with same | inner
      · split at same
        · exact absurd same (by decide)
        · rename_i notCR
          exact notCR same.symm
      · exact ih inner

theorem length_text (names : Names) (s : List Char) : (text names s).length ≤ s.length := by
  have short := length_decode names false (Nat.zero_le (newlines s).length)
  exact (List.length_filter_le _ _).trans (short.trans (length_newlines s))

/-- Literal text is read as it is written. -/
theorem Literal.text_eq (literal : Literal names s) : text names s = s := by
  rw [text, newlines_eq literal.noCR, decode_bare literal.bare]
  apply List.filter_eq_self.mpr
  intro c member
  exact decide_eq_true fun same => literal.noNul (same ▸ member)

/-- Text that loses no character is read as literal text. -/
theorem literal_of_length (long : s.length ≤ (text names s).length) :
    text names s = newlines s ∧ Literal names (newlines s) := by
  have short := length_decode names false (Nat.zero_le (newlines s).length)
  have shorter := length_newlines s
  have shortest := List.length_filter_le (· ≠ '\x00') (decode names false 0 (newlines s))
  unfold text at long ⊢
  have bare : Bare names false (newlines s) := bare_of_length (by omega)
  rw [decode_bare bare] at long shortest ⊢
  have all := List.length_filter_eq_length_iff.mp (Nat.le_antisymm shortest (by omega))
  refine ⟨List.filter_eq_self.mpr all, bare, noCR_newlines s, ?_⟩
  intro member
  exact of_decide_eq_true (all _ member) rfl

theorem value_eq (plain : ∀ c ∈ s, c ≠ '&' ∧ c ≠ '\r' ∧ c ≠ '\x00') : value names s = s := by
  have bare : Bare names true s := .plain fun member => (plain _ member).1 rfl
  rw [value, newlines_eq fun member => (plain _ member).2.1 rfl, decode_bare bare]
  apply (List.map_congr_left _).trans (List.map_id s)
  intro c member
  exact if_neg (plain c member).2.2

theorem decode_skip (n : Nat) (s : List Char) :
    decode names inTag n s = decode names inTag 0 (s.drop n) := by
  induction n generalizing s with
  | zero => rfl
  | succ n ih =>
      cases s with
      | nil => rfl
      | cons c s => exact ih s

end Laws

section Entities

variable {names : StandardNames} {s e : List Char} {n : Nat}

/-- The longest name is the one that ends in the semicolon. -/
theorem named_entity {name : List Char} {c : Char} (entry : (name, [c]) ∈ names.table)
    (ends : ∃ front, name = front ++ [';']) (rest : List Char) :
    named names.toNames false (name ++ rest) = some ([c], name.length) := by
  have here : (name, [c]) ∈ names.table.filter fun entry => entry.1.isPrefixOf (name ++ rest) :=
    List.mem_filter.mpr ⟨entry, List.isPrefixOf_iff_prefix.mpr (List.prefix_append name rest)⟩
  unfold named
  split
  · rename_i none
    rw [List.argmax_eq_none.mp none] at here
    cases here
  · rename_i longest best
    obtain ⟨member, begins⟩ := List.mem_filter.mp (List.argmax_mem best)
    have long : name.length ≤ longest.1.length :=
      List.le_of_mem_argmax (f := fun entry : List Char × List Char => entry.1.length) here best
    have longer : name <+: longest.1 := List.prefix_of_prefix_length_le
      (List.prefix_append name rest) (List.isPrefixOf_iff_prefix.mp begins) long
    obtain ⟨more, whole⟩ := longer
    have same : longest.1 = name := by
      cases more with
      | nil => rw [← whole, List.append_nil]
      | cons d more =>
          obtain ⟨front, rfl⟩ := ends
          apply absurd _ (names.semicolon longest member)
          rw [← whole, List.dropLast_append_of_ne_nil (List.cons_ne_nil d more)]
          exact List.mem_append_left _ (List.mem_append_right _ (List.mem_singleton_self _))
    have unique : longest = (name, [c]) :=
      List.inj_on_of_nodup_map names.distinct member entry same
    rw [unique]
    rfl

theorem numeric_other {c : Char} (other : c ≠ '#') (s : List Char) : numeric (c :: s) = none :=
  if_neg fun same => other (Option.some.inj same)

theorem reference_entity {entity : List Char × Char} (member : entity ∈ entities) (rest : List Char) :
    reference names.toNames false (entity.1 ++ rest) = some ([entity.2], entity.1.length) := by
  have shapes : ∀ entity ∈ entities, (∃ front, entity.1 = front ++ [';']) ∧
      entity.1.head?.any (· != '#') := by
    intro entity member
    have split : entity.1 = entity.1.dropLast ++ [';'] ∧ entity.1.head?.any (· != '#') := by
      revert entity
      decide
    exact ⟨⟨_, split.1⟩, split.2⟩
  obtain ⟨ends, first⟩ := shapes entity member
  have noNumber : numeric (entity.1 ++ rest) = none := by
    cases same : entity.1 with
    | nil =>
        rw [same] at first
        cases first
    | cons c name =>
        rw [same] at first
        exact numeric_other (bne_iff_ne.mp first) _
  rw [reference, noNumber]
  exact named_entity (names.standard entity member) ends rest

/-- A reference is decoded, whatever follows. -/
theorem decode_entity {entity : List Char × Char} (member : entity ∈ entities) (rest : List Char) :
    decode names.toNames false 0 ('&' :: (entity.1 ++ rest)) =
      entity.2 :: decode names.toNames false 0 rest := by
  have found : reference names.toNames false (entity.1 ++ rest) = some ([entity.2], entity.1.length) :=
    reference_entity member rest
  rw [decode, if_pos rfl, found]
  simp only
  rw [decode_skip, List.drop_left]
  rfl

/-- No reference reaches over an ampersand. -/
theorem noAmp_reference (found : reference names.toNames false s = some (e, n)) : '&' ∉ s.take n := by
  unfold reference at found
  split at found
  · rename_i r number
    cases found
    exact noAmp_numeric number
  · unfold named at found
    split at found
    · cases found
    · rename_i entry longest
      split at found
      · cases found
      · cases found
        obtain ⟨member, begins⟩ := List.mem_filter.mp (List.argmax_mem longest)
        rw [← List.prefix_iff_eq_take.mp (List.isPrefixOf_iff_prefix.mp begins)]
        exact names.noAmp entry member

end Entities

end NetProg.References
