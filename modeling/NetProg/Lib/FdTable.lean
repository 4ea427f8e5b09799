import Mathlib.Data.Multiset.AddSub

/-!
# Descriptor tables

A table of small numbers, each free or referring to an object of an arbitrary type.  A new
entry takes the lowest free number, so a number that was given up is handed out again; this
is the POSIX rule for file descriptors.  `opens` lists the entries as a multiset: the
accounting proofs split it into one part for each holder of descriptors, and the rules below
say how each operation changes that sum.
-/

namespace NetProg

/-- Entry `n` of the list is what number `n` refers to; numbers past the end are free. -/
structure FdTable (δ : Type) where
  entries : List (Option δ)
  deriving DecidableEq, Repr

namespace FdTable

variable {δ : Type}

/-- What a position of the entry list refers to. -/
def entryAt : List (Option δ) → Nat → Option δ
  | [], _ => none
  | entry :: _, 0 => entry
  | _ :: rest, n + 1 => entryAt rest n

/-- The entry list with one position replaced, padded when it is past the end. -/
def setEntry : List (Option δ) → Nat → Option δ → List (Option δ)
  | [], 0, entry => [entry]
  | [], n + 1, entry => none :: setEntry [] n entry
  | _ :: rest, 0, entry => entry :: rest
  | first :: rest, n + 1, entry => first :: setEntry rest n entry

/-- The first free position. -/
def lowestEntry : List (Option δ) → Nat
  | [] => 0
  | none :: _ => 0
  | some _ :: rest => lowestEntry rest + 1

/-- The open entries of a list whose first position has number `base`. -/
def opensFrom (base : Nat) : List (Option δ) → Multiset (Nat × δ)
  | [] => 0
  | none :: rest => opensFrom (base + 1) rest
  | some d :: rest => (base, d) ::ₘ opensFrom (base + 1) rest

def get (t : FdTable δ) (n : Nat) : Option δ := entryAt t.entries n

/-- The number the next descriptor gets. -/
def lowest (t : FdTable δ) : Nat := lowestEntry t.entries

def set (t : FdTable δ) (n : Nat) (entry : Option δ) : FdTable δ := ⟨setEntry t.entries n entry⟩

/-- `close(n)`; closing a free number changes nothing. -/
def close (t : FdTable δ) (n : Nat) : FdTable δ := t.set n none

/-- Opens `d` under the lowest free number. -/
def insert (t : FdTable δ) (d : δ) : FdTable δ := t.set t.lowest (some d)

/-- `dup2(old, new)`: fails and changes nothing when `old` is free. -/
def dup2 (t : FdTable δ) (old new : Nat) : FdTable δ :=
  match t.get old with
  | none => t
  | some d => t.set new (some d)

/-- All open entries with their numbers. -/
def opens (t : FdTable δ) : Multiset (Nat × δ) := opensFrom 0 t.entries

theorem entryAt_setEntry (entries : List (Option δ)) (n m : Nat) (entry : Option δ) :
    entryAt (setEntry entries n entry) m = if m = n then entry else entryAt entries m := by
  induction entries, n, entry using setEntry.induct generalizing m with
  | case1 entry => cases m <;> simp [setEntry, entryAt]
  | case2 entry n ih =>
      cases m with
      | zero => simp [setEntry, entryAt]
      | succ m => simpa [setEntry, entryAt] using ih m
  | case3 first rest entry => cases m <;> simp [setEntry, entryAt]
  | case4 first rest n entry ih =>
      cases m with
      | zero => simp [setEntry, entryAt]
      | succ m => simpa [setEntry, entryAt] using ih m

@[simp] theorem get_set (t : FdTable δ) (n m : Nat) (entry : Option δ) :
    (t.set n entry).get m = if m = n then entry else t.get m :=
  entryAt_setEntry t.entries n m entry

theorem entryAt_lowestEntry (entries : List (Option δ)) :
    entryAt entries (lowestEntry entries) = none := by
  fun_induction lowestEntry entries
  all_goals simp_all [entryAt]

/-- The number handed out next is free. -/
@[simp] theorem get_lowest (t : FdTable δ) : t.get t.lowest = none :=
  entryAt_lowestEntry t.entries

theorem entryAt_lt_lowestEntry {entries : List (Option δ)} {n : Nat} (below : n < lowestEntry entries) :
    entryAt entries n ≠ none := by
  fun_induction lowestEntry entries generalizing n with
  | case1 | case2 => cases below
  | case3 d rest ih =>
      cases n with
      | zero => exact Option.some_ne_none d
      | succ n => exact ih (Nat.lt_of_succ_lt_succ below)

/-- The number handed out next is the first free one. -/
theorem lowest_eq {t : FdTable δ} {n : Nat} (free : t.get n = none) (below : ∀ m < n, t.get m ≠ none) :
    t.lowest = n := by
  apply Nat.le_antisymm
  · exact Nat.le_of_not_lt fun above => entryAt_lt_lowestEntry above free
  · exact Nat.le_of_not_lt fun less => below _ less t.get_lowest

theorem mem_opensFrom (entries : List (Option δ)) (base n : Nat) (d : δ) :
    (n, d) ∈ opensFrom base entries ↔ base ≤ n ∧ entryAt entries (n - base) = some d := by
  induction entries generalizing base with
  | nil => simp [opensFrom, entryAt]
  | cons entry rest ih =>
      have shift : base + 1 ≤ n → n - base = (n - (base + 1)) + 1 := by omega
      by_cases same : n = base
      · subst same
        cases entry with
        | none => simp [opensFrom, entryAt, ih]
        | some d' => simp [opensFrom, entryAt, ih, eq_comm]
      · have later : base ≤ n ↔ base + 1 ≤ n := by omega
        have tail : (n, d) ∈ opensFrom base (entry :: rest) ↔
            (n, d) ∈ opensFrom (base + 1) rest := by
          cases entry <;> simp [opensFrom, same]
        rw [tail, ih, later]
        constructor
        · rintro ⟨le, found⟩
          exact ⟨le, by rw [shift le]; exact found⟩
        · rintro ⟨le, found⟩
          rw [shift le] at found
          exact ⟨le, found⟩

@[simp] theorem mem_opens (t : FdTable δ) (n : Nat) (d : δ) :
    (n, d) ∈ t.opens ↔ t.get n = some d := by
  simp [opens, mem_opensFrom, get]

theorem nodup_opensFrom (entries : List (Option δ)) (base : Nat) :
    (opensFrom base entries).Nodup := by
  induction entries generalizing base with
  | nil => simp [opensFrom]
  | cons entry rest ih =>
      cases entry with
      | none => exact ih (base + 1)
      | some d =>
          refine Multiset.nodup_cons.mpr ⟨?_, ih (base + 1)⟩
          simp [mem_opensFrom]

theorem nodup_opens (t : FdTable δ) : t.opens.Nodup := nodup_opensFrom t.entries 0

/-- A free number that is opened joins the sum. -/
theorem opens_set_some {t : FdTable δ} {n : Nat} (free : t.get n = none) (d : δ) :
    (t.set n (some d)).opens = (n, d) ::ₘ t.opens := by
  have absent : (n, d) ∉ t.opens := by simp [free]
  refine ((nodup_opens _).ext (Multiset.nodup_cons.mpr ⟨absent, nodup_opens t⟩)).mpr ?_
  rintro ⟨m, d'⟩
  by_cases same : m = n
  · subst same
    simp [free, eq_comm]
  · simp [same]

theorem opens_insert (t : FdTable δ) (d : δ) :
    (t.insert d).opens = (t.lowest, d) ::ₘ t.opens :=
  opens_set_some t.get_lowest d

/-- Every number occurs once in the sum. -/
theorem not_mem_of_opens_cons {t : FdTable δ} {n : Nat} {d : δ} {rest : Multiset (Nat × δ)}
    (split : t.opens = (n, d) ::ₘ rest) (d' : δ) : (n, d') ∉ rest := by
  intro member
  have found : t.get n = some d := by rw [← mem_opens, split]; simp
  have found' : t.get n = some d' := by rw [← mem_opens, split]; simp [member]
  have same : d = d' := Option.some.inj (found.symm.trans found')
  subst same
  have unique := nodup_opens t
  rw [split] at unique
  exact (Multiset.nodup_cons.mp unique).1 member

/-- Closing a number takes its entry out of the sum. -/
theorem opens_close {t : FdTable δ} {n : Nat} {d : δ} {rest : Multiset (Nat × δ)}
    (split : t.opens = (n, d) ::ₘ rest) : (t.close n).opens = rest := by
  have unique := nodup_opens t
  rw [split] at unique
  refine ((nodup_opens _).ext (Multiset.nodup_cons.mp unique).2).mpr ?_
  rintro ⟨m, d'⟩
  by_cases same : m = n
  · subst same
    simp [close, not_mem_of_opens_cons split]
  · rw [mem_opens, close, get_set, if_neg same, ← mem_opens, split]
    simp [same]

/-- Closing a free number changes nothing. -/
theorem opens_close_free {t : FdTable δ} {n : Nat} (free : t.get n = none) :
    (t.close n).opens = t.opens := by
  refine ((nodup_opens _).ext (nodup_opens t)).mpr ?_
  rintro ⟨m, d'⟩
  by_cases same : m = n
  · subst same
    simp [close, free]
  · simp [close, same]

/-- `dup2` onto an open number replaces its entry and nothing else. -/
theorem opens_dup2 {t : FdTable δ} {old new : Nat} {d d₀ : δ} {rest : Multiset (Nat × δ)}
    (found : t.get old = some d) (split : t.opens = (new, d₀) ::ₘ rest) :
    (t.dup2 old new).opens = (new, d) ::ₘ rest := by
  have closed := opens_close split
  have free : (t.close new).get new = none := by simp [close]
  have again := opens_set_some free d
  rw [closed] at again
  rw [← again, dup2, found]
  refine ((nodup_opens _).ext (nodup_opens _)).mpr ?_
  rintro ⟨m, d'⟩
  by_cases same : m = new
  · simp [same]
  · simp [close, same]

theorem lowestEntry_le_card (entries : List (Option δ)) (base : Nat) :
    lowestEntry entries ≤ (opensFrom base entries).card := by
  induction entries generalizing base with
  | nil => simp [lowestEntry]
  | cons entry rest ih =>
      cases entry with
      | none => simp [lowestEntry]
      | some d => simpa [lowestEntry, opensFrom] using ih (base + 1)

/-- The number handed out next is at most the count of open descriptors. -/
theorem lowest_le_card (t : FdTable δ) : t.lowest ≤ t.opens.card :=
  lowestEntry_le_card t.entries 0

/-- An entry of one part of the sum is what the table holds under its number. -/
theorem get_of_mem_part {t : FdTable δ} {part rest : Multiset (Nat × δ)} {n : Nat} {d : δ}
    (split : t.opens = part + rest) (member : (n, d) ∈ part) : t.get n = some d := by
  rw [← mem_opens, split]
  exact Multiset.mem_add.mpr (Or.inl member)

/-- Two parts of the sum share no number. -/
theorem parts_disjoint {t : FdTable δ} {part rest : Multiset (Nat × δ)} {n : Nat} {d d' : δ}
    (split : t.opens = part + rest) (member : (n, d) ∈ part) : (n, d') ∉ rest := by
  obtain ⟨others, rfl⟩ := Multiset.exists_cons_of_mem member
  rw [Multiset.cons_add] at split
  intro member'
  exact not_mem_of_opens_cons split d' (Multiset.mem_add.mpr (Or.inr member'))

end FdTable

end NetProg
