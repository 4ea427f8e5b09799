import Mathlib.Algebra.Group.Int.Defs
import Mathlib.Algebra.Group.Nat.Defs

/-!
# Characters, words and numbers

Text as the sequence of its `char`s, with the extractions of a C++ input stream and the number
conversions of the C library.  An extraction gives back the rest of the stream, or `none` when
the stream has failed.
-/

namespace NetProg

/-- `std::string`, as the sequence of its `char`s. -/
abbrev Text := List Char

namespace Text

/-- `std::isspace` in the C locale. -/
def isSpace (c : Char) : Bool := c.toNat == 32 || (9 ≤ c.toNat && c.toNat ≤ 13)

/-- A fact about every character of a closed text is computed. -/
theorem forall_chars {p : Char → Prop} [DecidablePred p] {s : Text}
    (all : s.all (fun c => decide (p c)) = true) : ∀ c ∈ s, p c := by
  simpa using all

/-- The C string that `c_str()` of a text is: it ends at the first NUL. -/
def cString (s : Text) : Text := s.takeWhile (fun c => c.toNat ≠ 0)

/-- `std::to_string`. -/
def decimal (n : Int) : Text := (toString n).toList

/-- The value of a run of decimal digits. -/
def digitsValue (digits : Text) : Nat := digits.foldl (fun n d => 10 * n + (d.toNat - 48)) 0

/-- An optional sign and the decimal digits after it; the rest begins where they end. -/
def signedDigits (s : Text) : Bool × Text × Text :=
  let (negative, s) :=
    match s with
    | [] => (false, [])
    | c :: rest => if c = '-' then (true, rest) else if c = '+' then (false, rest) else (false, s)
  (negative, s.takeWhile Char.isDigit, s.dropWhile Char.isDigit)

/-- A number held between two bounds. -/
def clamp (low high n : Int) : Int := max low (min high n)

/-- The conversion of a `long` to a 32-bit `int`. -/
def toInt32 (n : Int) : Int := Int.bmod n (2 ^ 32)

/-- `std::atoi`: `(int) strtol(s, nullptr, 10)`. -/
def atoi (s : Text) : Int :=
  let (negative, digits, _) := signedDigits (s.dropWhile isSpace)
  let value : Int := digitsValue digits
  toInt32 (clamp (-2 ^ 63) (2 ^ 63 - 1) (if negative then -value else value))

/-- `stream >> word`. -/
def readWord (s : Text) : Option (Text × Text) :=
  let s := s.dropWhile isSpace
  if s.isEmpty then none
  else some (s.takeWhile (fun c => !isSpace c), s.dropWhile (fun c => !isSpace c))

/-- `stream >> c` for a `char`. -/
def readChar (s : Text) : Option (Char × Text) :=
  match s.dropWhile isSpace with
  | [] => none
  | c :: rest => some (c, rest)

/-- `stream >> number` for an `int`: `none` when nothing is left, so that the variable keeps its
value; otherwise the number stored and the stream, failed when there was no number or it does
not fit. -/
def readInt (s : Text) : Option (Int × Option Text) :=
  let s := s.dropWhile isSpace
  if s.isEmpty then none
  else
    let (negative, digits, rest) := signedDigits s
    let value : Int := if negative then -digitsValue digits else digitsValue digits
    let stored := clamp (-2 ^ 31) (2 ^ 31 - 1) value
    some (stored, if digits.isEmpty || stored ≠ value then none else some rest)

/-- `std::getline(stream >> std::ws, line)`: the rest of the stream behind white space, up to a
newline; at the end of the stream it fails and the line stays empty. -/
def readLine (s : Text) : Text × Option Text :=
  let s := s.dropWhile isSpace
  if s.isEmpty then ([], none)
  else (s.takeWhile (fun c => c ≠ '\n'), some ((s.dropWhile (fun c => c ≠ '\n')).drop 1))

theorem cString_of_plain {s : Text} (plain : '\x00' ∉ s) : cString s = s := by
  have other : ∀ c ∈ s, decide (c.toNat ≠ 0) = true := by
    intro c member
    rw [decide_eq_true_eq]
    intro zero
    have nul : c = '\x00' := Char.toNat_inj.mp zero
    exact plain (nul ▸ member)
  have all : (s ++ []).takeWhile (fun c => decide (c.toNat ≠ 0)) = s ++ [].takeWhile _ :=
    List.takeWhile_append_of_pos other
  rw [List.append_nil, List.takeWhile_nil, List.append_nil] at all
  exact all

theorem not_mem_cString (s : Text) : '\x00' ∉ cString s := by
  intro member
  have kept := List.all_eq_true.mp List.all_takeWhile _ member
  exact absurd kept (by decide)

/-- The first separator of a text can be in one place only. -/
theorem split_unique {α : Type} {c : α} {first first' rest rest' : List α} (free : c ∉ first)
    (free' : c ∉ first') (same : first ++ c :: rest = first' ++ c :: rest') :
    first = first' ∧ rest = rest' := by
  induction first generalizing first' with
  | nil =>
      cases first' with
      | nil => simpa using same
      | cons d others =>
          have head : c = d := (List.cons.inj same).1
          exact absurd (head ▸ List.mem_cons_self) free'
  | cons b others ih =>
      cases first' with
      | nil =>
          have head : b = c := (List.cons.inj same).1
          exact absurd (head ▸ List.mem_cons_self) free
      | cons d others' =>
          obtain ⟨rfl, tail⟩ := List.cons.inj same
          obtain ⟨rfl, last⟩ := ih (fun member => free (List.mem_cons_of_mem _ member))
            (fun member => free' (List.mem_cons_of_mem _ member)) tail
          exact ⟨rfl, last⟩

/-- A word is not empty and has no white space. -/
theorem readWord_word {s word rest : Text} (h : readWord s = some (word, rest)) :
    word ≠ [] ∧ ∀ c ∈ word, isSpace c = false := by
  unfold readWord at h
  simp only [Option.ite_none_left_eq_some, Option.some.injEq, Prod.mk.injEq] at h
  obtain ⟨left, rfl, -⟩ := h
  constructor
  · cases begin : s.dropWhile isSpace with
    | nil => simp [begin] at left
    | cons c others =>
        have first := List.head?_dropWhile_not isSpace s
        rw [begin] at first
        simp only [List.head?_cons] at first
        simp [first]
  · intro c member
    have every := List.all_takeWhile (p := fun c => !isSpace c) (l := s.dropWhile isSpace)
    simpa using List.all_eq_true.mp every c member

theorem isSpace_digit {c : Char} (digit : c.isDigit = true) : isSpace c = false := by
  simp only [Char.isDigit, Bool.and_eq_true, decide_eq_true_eq] at digit
  have low : 48 ≤ c.toNat := digit.1
  have high : c.toNat ≤ 57 := digit.2
  simp only [isSpace, Bool.or_eq_false_iff, beq_eq_false_iff_ne, Bool.and_eq_false_iff,
    decide_eq_false_iff_not]
  omega

theorem readWord_space {c : Char} {s : Text} (space : isSpace c = true) :
    readWord (c :: s) = readWord s := by
  rw [readWord, readWord, List.dropWhile_cons_of_pos space]

/-- A word ends at white space or at the end of the stream. -/
theorem readWord_append {word rest : Text} (some : word ≠ []) (solid : ∀ c ∈ word, isSpace c = false)
    (next : rest = [] ∨ ∃ c later, rest = c :: later ∧ isSpace c = true) :
    readWord (word ++ rest) = .some (word, rest) := by
  have stop : ∀ p : Char → Bool, (∀ c, isSpace c = true → p c = false) →
      rest.takeWhile p = [] ∧ rest.dropWhile p = rest := by
    intro p spaces
    rcases next with rfl | ⟨c, later, rfl, space⟩
    · exact ⟨rfl, rfl⟩
    · exact ⟨List.takeWhile_cons_of_neg (by simp [spaces c space]),
        List.dropWhile_cons_of_neg (by simp [spaces c space])⟩
  obtain ⟨first, others, rfl⟩ := List.exists_cons_of_ne_nil some
  have start : ((first :: others) ++ rest).dropWhile isSpace = (first :: others) ++ rest :=
    List.dropWhile_cons_of_neg (by rw [solid first List.mem_cons_self]; decide)
  obtain ⟨taken, dropped⟩ := stop (fun c => !isSpace c) (by simp)
  have inside : ∀ c ∈ first :: others, (!isSpace c) = true := by
    intro c member
    rw [solid c member]
    rfl
  rw [readWord, start, if_neg (by simp), List.takeWhile_append_of_pos inside,
    List.dropWhile_append_of_pos inside, taken, dropped, List.append_nil]

/-- Reading a word consumes something. -/
theorem readWord_length {s word rest : Text} (h : readWord s = some (word, rest)) :
    rest.length < s.length := by
  have nonempty := (readWord_word h).1
  unfold readWord at h
  simp only [Option.ite_none_left_eq_some, Option.some.injEq, Prod.mk.injEq] at h
  obtain ⟨-, rfl, rfl⟩ := h
  have whole := congrArg List.length
    (List.takeWhile_append_dropWhile (p := fun c => !isSpace c) (l := s.dropWhile isSpace))
  have shorter := (List.dropWhile_sublist (p := isSpace) (l := s)).length_le
  have positive := List.length_pos_iff.mpr nonempty
  rw [List.length_append] at whole
  omega

end Text

end NetProg
