import Mathlib.Data.List.TakeWhile

/-!
# Splitting at delimiters

The tokens of a sequence, with adjacent delimiters taken as one or each for itself.  There is always
a first token, and one more for every delimiter, or every run of them.
-/

namespace NetProg

variable {α : Type}

/-- The tokens.  `inRun` tells that the element before was a delimiter; with `compress` another one
behind it opens no token. -/
def splitFrom (compress : Bool) (p : α → Bool) : Bool → List α → List (List α)
  | _, [] => [[]]
  | inRun, c :: s =>
      if p c then
        if compress && inRun then splitFrom compress p true s
        else [] :: splitFrom compress p true s
      else (splitFrom compress p false s).modifyHead (c :: ·)

/-- `boost::split`. -/
def split (compress : Bool) (p : α → Bool) (s : List α) : List (List α) :=
  splitFrom compress p false s

/-- How many runs of delimiters begin. -/
def runsFrom (p : α → Bool) : Bool → List α → Nat
  | _, [] => 0
  | inRun, c :: s => (if p c && !inRun then 1 else 0) + runsFrom p (p c) s

def runs (p : α → Bool) (s : List α) : Nat := runsFrom p false s

/-- What is in front of the first delimiter. -/
def token (p : α → Bool) (s : List α) : List α := s.takeWhile fun c => !p c

/-- What is behind the first delimiter, or behind the first run of them. -/
def behind (compress : Bool) (p : α → Bool) (s : List α) : List α :=
  let s := s.dropWhile fun c => !p c
  if compress then s.dropWhile p else s.drop 1

variable {compress : Bool} {p : α → Bool}

/-- A run that has begun only takes delimiters away. -/
theorem splitFrom_run (s : List α) :
    splitFrom true p true s = splitFrom true p false (s.dropWhile p) := by
  induction s with
  | nil => rfl
  | cons c s ih =>
      by_cases delimiter : p c = true
      · rw [List.dropWhile_cons_of_pos delimiter, ← ih, splitFrom, if_pos delimiter]
        rfl
      · rw [List.dropWhile_cons_of_neg delimiter, splitFrom, splitFrom, if_neg delimiter,
          if_neg delimiter]

/-- Without compression runs do not matter. -/
theorem splitFrom_flag (inRun : Bool) (s : List α) :
    splitFrom false p inRun s = splitFrom false p false s := by
  cases s with
  | nil => rfl
  | cons c s => rfl

/-- The first token, and the tokens of what is behind it. -/
theorem split_eq (s : List α) :
    split compress p s =
      token p s :: if s.any p then split compress p (behind compress p s) else [] := by
  induction s with
  | nil => rfl
  | cons c s ih =>
      by_cases delimiter : p c = true
      · have stop : ¬ (!p c) = true := by simp [delimiter]
        have first : token p (c :: s) = [] := List.takeWhile_cons_of_neg stop
        have rest : behind compress p (c :: s) = if compress then s.dropWhile p else s := by
          have stays : (c :: s).dropWhile (fun c => !p c) = c :: s := List.dropWhile_cons_of_neg stop
          simp only [behind, stays, List.dropWhile_cons_of_pos delimiter, List.drop_succ_cons,
            List.drop_zero]
        rw [first, rest, List.any_cons, delimiter, Bool.true_or, if_pos rfl, split, splitFrom,
          if_pos delimiter, Bool.and_false, if_neg Bool.false_ne_true]
        cases compress with
        | true => rw [splitFrom_run, split, if_pos rfl]
        | false => rw [splitFrom_flag, split, if_neg Bool.false_ne_true]
      · have on : (!p c) = true := by simpa using delimiter
        have first : token p (c :: s) = c :: token p s := List.takeWhile_cons_of_pos on
        have rest : behind compress p (c :: s) = behind compress p s := by
          have goes : (c :: s).dropWhile (fun c => !p c) = s.dropWhile fun c => !p c :=
            List.dropWhile_cons_of_pos on
          simp only [behind, goes]
        have none : p c = false := eq_false_of_ne_true delimiter
        rw [first, rest, List.any_cons, none, Bool.false_or, split, splitFrom, if_neg delimiter]
        exact congrArg (List.modifyHead (c :: ·)) ih

theorem split_none {s : List α} (none : s.any p = false) :
    split compress p s = [token p s] ∧ behind compress p s = [] := by
  have all : ∀ c ∈ s, (!p c) = true := fun c member => by
    simpa using List.any_eq_false.mp none c member
  constructor
  · rw [split_eq, none]
    rfl
  · simp only [behind, List.dropWhile_eq_nil_iff.mpr all]
    cases compress <;> rfl

@[simp] theorem split_first (s : List α) : (split compress p s)[0]? = some (token p s) := by
  rw [split_eq]
  rfl

/-- There is a second token if there is a delimiter. -/
theorem split_second (s : List α) : (split compress p s)[1]? =
    if s.any p then some (token p (behind compress p s)) else none := by
  rw [split_eq]
  cases s.any p with
  | false => rfl
  | true => exact split_first _

section Single

variable [BEq α] [LawfulBEq α] {c : α}

theorem not_mem_token (s : List α) : c ∉ token (· == c) s := by
  intro member
  have holds := List.mem_takeWhile_imp member
  simp at holds

/-- The first token, the delimiter and the rest. -/
theorem token_behind (s : List α) :
    (c ∉ s ∧ token (· == c) s = s ∧ behind false (· == c) s = []) ∨
      s = token (· == c) s ++ c :: behind false (· == c) s := by
  induction s with
  | nil => exact Or.inl ⟨List.not_mem_nil, rfl, rfl⟩
  | cons d s ih =>
      cases here : d == c with
      | true =>
          obtain rfl := eq_of_beq here
          right
          simp [token, behind]
      | false =>
          have first : token (· == c) (d :: s) = d :: token (· == c) s :=
            List.takeWhile_cons_of_pos (by simp [here])
          have rest : behind false (· == c) (d :: s) = behind false (· == c) s := by
            simp [behind, here]
          rw [first, rest]
          rcases ih with ⟨absent, whole, none⟩ | split
          · refine Or.inl ⟨?_, by rw [whole], none⟩
            intro member
            rcases List.mem_cons.mp member with rfl | later
            · rw [beq_self_eq_true] at here
              cases here
            · exact absent later
          · exact Or.inr (congrArg (d :: ·) split)

/-- Everything behind the first delimiter is one token if no other delimiter is there. -/
theorem token_behind_eq_iff (s : List α) :
    token (· == c) (behind false (· == c) s) = behind false (· == c) s ↔ s.count c ≤ 1 := by
  have whole : token (· == c) (behind false (· == c) s) = behind false (· == c) s ↔
      c ∉ behind false (· == c) s := by
    constructor
    · intro same
      rw [← same]
      exact not_mem_token _
    · intro absent
      rcases token_behind (c := c) (behind false (· == c) s) with ⟨-, same, -⟩ | split
      · exact same
      · refine absurd ?_ absent
        rw [split]
        exact List.mem_append_right _ List.mem_cons_self
  rw [whole, ← List.count_eq_zero]
  rcases token_behind (c := c) s with ⟨absent, -, none⟩ | split
  · rw [none, List.count_eq_zero.mpr absent]
    simp
  · have parts := congrArg (List.count c) split
    rw [List.count_append, List.count_cons_self, List.count_eq_zero.mpr (not_mem_token s)] at parts
    omega

/-- A text without the delimiter in front of one is the first token. -/
theorem token_append {first : List α} (free : c ∉ first) (rest : List α) :
    token (· == c) (first ++ c :: rest) = first ∧ ∀ compress,
      behind compress (· == c) (first ++ c :: rest) =
        if compress then rest.dropWhile (· == c) else rest := by
  have goes : ∀ d ∈ first, (!(d == c)) = true := by
    intro d member
    simp only [Bool.not_eq_true', beq_eq_false_iff_ne]
    exact fun same => free (same ▸ member)
  have takes : (c :: rest).takeWhile (fun d => !(d == c)) = [] := by simp
  have drops : (c :: rest).dropWhile (fun d => !(d == c)) = c :: rest := by simp
  constructor
  · rw [token, List.takeWhile_append_of_pos goes, takes, List.append_nil]
  · intro compress
    rw [behind, List.dropWhile_append_of_pos goes, drops]
    simp

/-- Fields that are neither empty nor contain the delimiter are split where they were joined. -/
theorem split_intercalate {fields : List (List α)} (some : fields ≠ [])
    (whole : ∀ field ∈ fields, field ≠ [] ∧ c ∉ field) :
    split compress (· == c) ([c].intercalate fields) = fields := by
  induction fields with
  | nil => exact absurd rfl some
  | cons field fields ih =>
      obtain ⟨here, later⟩ := List.forall_mem_cons.mp whole
      cases fields with
      | nil =>
          have none : field.any (· == c) = false := by
            rw [List.any_eq_false]
            intro d member same
            exact here.2 (eq_of_beq same ▸ member)
          have all : token (· == c) field = field := by
            rcases token_behind (c := c) field with ⟨-, same, -⟩ | found
            · exact same
            · refine absurd ?_ here.2
              rw [found]
              exact List.mem_append_right _ List.mem_cons_self
          rw [List.intercalate_singleton, (split_none none).1, all]
      | cons next fields =>
          obtain ⟨⟨nonempty, free⟩, -⟩ := List.forall_mem_cons.mp later
          have joined : [c].intercalate (field :: next :: fields) =
              field ++ c :: [c].intercalate (next :: fields) := by
            rw [List.intercalate_cons_cons]
            simp
          have kept : ([c].intercalate (next :: fields)).dropWhile (· == c) =
              [c].intercalate (next :: fields) := by
            obtain ⟨d, next, rfl⟩ := List.exists_cons_of_ne_nil nonempty
            have other : (d == c) = false :=
              beq_eq_false_iff_ne.mpr fun same => free (same ▸ List.mem_cons_self)
            cases fields with
            | nil => simp [other]
            | cons third fields => simp [List.intercalate_cons_cons, other]
          obtain ⟨first, rest⟩ := token_append here.2 ([c].intercalate (next :: fields))
          have found : (field ++ c :: [c].intercalate (next :: fields)).any (· == c) = true := by simp
          rw [joined, split_eq, first, rest, found, if_pos rfl, kept, ite_self,
            ih (List.cons_ne_nil _ _) later]

end Single

theorem length_splitFrom (inRun : Bool) (s : List α) :
    (splitFrom true p inRun s).length = runsFrom p inRun s + 1 := by
  induction s generalizing inRun with
  | nil => rfl
  | cons c s ih =>
      rw [splitFrom, runsFrom]
      cases p c with
      | false =>
          rw [if_neg Bool.false_ne_true, List.length_modifyHead, ih, Bool.false_and,
            if_neg Bool.false_ne_true, Nat.zero_add]
      | true =>
          cases inRun with
          | false =>
              simp only [if_true, Bool.and_false, Bool.false_eq_true, if_false, List.length_cons, ih]
              simp [Nat.add_comm]
          | true => simp [ih]

theorem length_split (s : List α) : (split true p s).length = runs p s + 1 := length_splitFrom false s

end NetProg
