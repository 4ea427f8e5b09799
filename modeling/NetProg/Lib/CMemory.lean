import NetProg.Lib.Text

/-!
# C strings in memory

Memory is the `char` at every address.  `strcpy` writes all characters of a string and the NUL, and a
pointer to characters stands for the string up to the next NUL, wherever that is.
-/

namespace NetProg

/-- The `char` at every address. -/
def Memory := Nat → Char

namespace Memory

variable {m m' : Memory} {a b i : Nat} {s s' : Text}

/-- The characters of a list, from an address on. -/
def store (m : Memory) (a : Nat) (s : Text) : Memory := fun b =>
  if a ≤ b then (s[b - a]?).getD (m b) else m b

/-- `strcpy`. -/
def strcpy (m : Memory) (a : Nat) (s : Text) : Memory := m.store a (Text.cString s ++ ['\x00'])

/-- `memset`. -/
def memset (m : Memory) (a : Nat) (c : Char) (n : Nat) : Memory := m.store a (List.replicate n c)

/-- The characters of a range. -/
def slice (m : Memory) (a n : Nat) : Text := (List.range n).map fun i => m (a + i)

/-- The string that starts at an address. -/
def Reads (m : Memory) (a : Nat) (s : Text) : Prop :=
  '\x00' ∉ s ∧ m.slice a (s.length + 1) = s ++ ['\x00']

instance (m : Memory) (a : Nat) (s : Text) : Decidable (m.Reads a s) := by
  unfold Reads
  infer_instance

theorem store_within (inside : i < s.length) : m.store a s (a + i) = s[i] := by
  simp [store, inside]

theorem store_outside (outside : b < a ∨ a + s.length ≤ b) : m.store a s b = m b := by
  rw [store]
  split
  · rw [List.getElem?_eq_none (by omega)]
    rfl
  · rfl

/-- An address is in the range that is written, or it keeps its character. -/
theorem store_cases (m : Memory) (a : Nat) (s : Text) (b : Nat) :
    (∃ i, ∃ inside : i < s.length, b = a + i ∧ m.store a s b = s[i]) ∨
      (b < a ∨ a + s.length ≤ b) ∧ m.store a s b = m b := by
  by_cases outside : b < a ∨ a + s.length ≤ b
  · exact Or.inr ⟨outside, store_outside outside⟩
  · obtain ⟨i, rfl⟩ : ∃ i, b = a + i := ⟨b - a, by omega⟩
    have inside : i < s.length := by omega
    exact Or.inl ⟨i, inside, rfl, store_within inside⟩

theorem memset_within {c : Char} {n : Nat} (inside : a ≤ b ∧ b < a + n) : m.memset a c n b = c := by
  obtain ⟨i, rfl⟩ : ∃ i, b = a + i := ⟨b - a, by omega⟩
  rw [memset, store_within (by rw [List.length_replicate]; omega), List.getElem_replicate]

theorem memset_outside {c : Char} {n : Nat} (outside : b < a ∨ a + n ≤ b) :
    m.memset a c n b = m b := store_outside (by rw [List.length_replicate]; exact outside)

theorem slice_eq_iff : m.slice a s.length = s ↔ ∀ i, ∀ inside : i < s.length, m (a + i) = s[i] := by
  constructor
  · intro same i inside
    have there : (m.slice a s.length)[i]? = s[i]? := by rw [same]
    simpa [slice, inside] using there
  · intro each
    refine List.ext_getElem (by simp [slice]) fun i _ inside => ?_
    simpa [slice] using each i inside

theorem reads_iff : m.Reads a s ↔
    '\x00' ∉ s ∧ ∀ i, ∀ inside : i < (s ++ ['\x00']).length, m (a + i) = (s ++ ['\x00'])[i] := by
  rw [← slice_eq_iff, List.length_append]
  rfl

/-- The string is the one up to the first NUL. -/
theorem Reads.unique (reads : m.Reads a s) (reads' : m.Reads a s') : s = s' := by
  have short : ∀ {s s' : Text}, m.Reads a s → m.Reads a s' → s'.length ≤ s.length := by
    intro s s' reads reads'
    refine Nat.le_of_not_lt fun longer => ?_
    obtain ⟨-, each⟩ := reads_iff.mp reads
    obtain ⟨plain, each'⟩ := reads_iff.mp reads'
    have here := each s.length (by simp)
    have there := each' s.length (by simp; omega)
    rw [List.getElem_append_left (by omega)] at there
    refine plain ?_
    have nul : m (a + s.length) = '\x00' := by simpa using here
    rw [← nul, there]
    exact List.getElem_mem _
  have length : s.length = s'.length := Nat.le_antisymm (short reads' reads) (short reads reads')
  have same := reads.2
  rw [length, reads'.2] at same
  exact (List.append_cancel_right same).symm

theorem Reads.congr (reads : m.Reads a s) (same : ∀ b, a ≤ b → b ≤ a + s.length → m' b = m b) :
    m'.Reads a s := by
  obtain ⟨plain, each⟩ := reads_iff.mp reads
  refine reads_iff.mpr ⟨plain, fun i inside => ?_⟩
  rw [List.length_append, List.length_singleton] at inside
  rw [same (a + i) (by omega) (by omega)]
  exact each i _

theorem reads_strcpy (plain : '\x00' ∉ s) : (m.strcpy a s).Reads a s := by
  refine reads_iff.mpr ⟨plain, fun i inside => ?_⟩
  rw [strcpy, Text.cString_of_plain plain, store_within inside]

end Memory

end NetProg
