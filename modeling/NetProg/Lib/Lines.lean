import NetProg.Lib.Text

/-!
# Lines and occurrences

The lines that `std::getline` takes from a stream, and how often a pattern occurs in a text.
-/

namespace NetProg.Text

/-- `std::getline`: the line and the rest of the stream; it fails when nothing is left. -/
def getline (s : Text) : Option (Text × Text) :=
  if s.isEmpty then none
  else some (s.takeWhile (· ≠ '\n'), (s.dropWhile (· ≠ '\n')).drop 1)

/-- All lines of a text. -/
def lines : Text → List Text
  | [] => []
  | c :: s =>
    if c = '\n' then [] :: lines s
    else
      match lines s with
      | [] => [[c]]
      | line :: rest => (c :: line) :: rest

/-- How often a pattern occurs. -/
def occurrences (pattern : Text) : Text → Nat
  | [] => 0
  | c :: s => (if pattern.isPrefixOf (c :: s) then 1 else 0) + occurrences pattern s

/-- `find(pattern) != npos`. -/
def includes (pattern s : Text) : Bool := decide (0 < occurrences pattern s)

/-- `lines` are what `getline` takes one after the other. -/
theorem lines_getline (s : Text) :
    lines s = match getline s with
      | none => []
      | some (line, rest) => line :: lines rest := by
  induction s with
  | nil => rfl
  | cons c s ih =>
      rw [getline, if_neg (by simp), lines]
      by_cases newline : c = '\n'
      · subst newline
        rw [if_pos rfl]
        rfl
      · rw [if_neg newline, ih, List.takeWhile_cons_of_pos (by simpa using newline),
          List.dropWhile_cons_of_pos (by simpa using newline)]
        cases s with
        | nil => rfl
        | cons d s => rfl

theorem lines_eq_nil {s : Text} : lines s = [] ↔ getline s = none := by
  rw [lines_getline]
  cases getline s with
  | none => simp
  | some taken => simp

theorem lines_eq_cons {s line : Text} {rest : List Text} :
    lines s = line :: rest ↔ ∃ later, getline s = some (line, later) ∧ lines later = rest := by
  rw [lines_getline]
  cases getline s with
  | none => simp
  | some taken => simp [Prod.ext_iff, and_assoc]

/-- A longer text has every occurrence that starts in the front, and those behind it. -/
theorem occurrences_append_append (pattern front middle back : Text) :
    occurrences pattern (front ++ middle) + occurrences pattern (middle ++ back) ≤
      occurrences pattern (front ++ (middle ++ back)) + occurrences pattern middle := by
  induction front with
  | nil => simp only [List.nil_append]; omega
  | cons c front ih =>
      simp only [List.cons_append, occurrences]
      have longer : (pattern.isPrefixOf (c :: (front ++ middle))) = true →
          pattern.isPrefixOf (c :: (front ++ (middle ++ back))) = true := by
        rw [List.isPrefixOf_iff_prefix, List.isPrefixOf_iff_prefix, ← List.append_assoc]
        exact fun starts => starts.trans (List.prefix_append (c :: (front ++ middle)) back)
      have first : (if pattern.isPrefixOf (c :: (front ++ middle)) then 1 else 0) ≤
          if pattern.isPrefixOf (c :: (front ++ (middle ++ back))) then 1 else 0 := by
        by_cases starts : pattern.isPrefixOf (c :: (front ++ middle)) = true
        · simp only [if_pos starts, if_pos (longer starts), Nat.le_refl]
        · simp only [if_neg starts, Nat.zero_le]
      omega

theorem occurrences_le_append (pattern front back : Text) :
    occurrences pattern front ≤ occurrences pattern (front ++ back) := by
  have both := occurrences_append_append pattern front [] back
  simp only [List.append_nil, List.nil_append, occurrences] at both
  omega

end NetProg.Text
