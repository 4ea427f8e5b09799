import Mathlib.Order.Lattice
import Mathlib.Algebra.BigOperators.Group.List.Basic

/-!
# Ordered maps

A finite map whose entries are kept in increasing order of their keys, as `std::map` iterates
over them.  The order is a field of the structure, so a map out of order cannot be built.
`total` adds up a quantity over all entries; the rules for it take one key out of the map.
-/

namespace NetProg

/-- The entries of a map, each key once and in increasing order. -/
structure OrdMap (κ ν : Type) [LinearOrder κ] where
  entries : List (κ × ν)
  ordered : entries.Pairwise (fun first later => first.1 < later.1)

namespace OrdMap

variable {κ ν μ : Type} [LinearOrder κ]

/-- The value stored under a key of an entry list. -/
def findEntry (key : κ) : List (κ × ν) → Option ν
  | [] => none
  | (key', value) :: rest => if key = key' then some value else findEntry key rest

/-- Ordered insertion; an entry with the same key is replaced. -/
def insertEntry (key : κ) (value : ν) : List (κ × ν) → List (κ × ν)
  | [] => [(key, value)]
  | (key', value') :: rest =>
      if key < key' then (key, value) :: (key', value') :: rest
      else if key = key' then (key, value) :: rest
      else (key', value') :: insertEntry key value rest

/-- The entries without one key. -/
def eraseEntry (key : κ) : List (κ × ν) → List (κ × ν)
  | [] => []
  | (key', value') :: rest => if key = key' then rest else (key', value') :: eraseEntry key rest

theorem mem_insertEntry {key : κ} {value : ν} {entries : List (κ × ν)} {entry : κ × ν}
    (member : entry ∈ insertEntry key value entries) : entry = (key, value) ∨ entry ∈ entries := by
  induction entries with
  | nil => exact Or.inl (by simpa [insertEntry] using member)
  | cons head rest ih =>
      obtain ⟨key', value'⟩ := head
      simp only [insertEntry] at member
      split at member
      · simpa using member
      · split at member
        · rcases List.mem_cons.mp member with equal | member
          · exact Or.inl equal
          · exact Or.inr (List.mem_cons_of_mem _ member)
        · rcases List.mem_cons.mp member with equal | member
          · exact Or.inr (by simp [equal])
          · exact (ih member).imp id (List.mem_cons_of_mem _)

theorem mem_of_mem_eraseEntry {key : κ} {entries : List (κ × ν)} {entry : κ × ν}
    (member : entry ∈ eraseEntry key entries) : entry ∈ entries := by
  induction entries with
  | nil => simp [eraseEntry] at member
  | cons head rest ih =>
      simp only [eraseEntry] at member
      split at member
      · exact List.mem_cons_of_mem _ member
      · rcases List.mem_cons.mp member with equal | member
        · simp [equal]
        · exact List.mem_cons_of_mem _ (ih member)

theorem ordered_insertEntry (key : κ) (value : ν) {entries : List (κ × ν)}
    (ordered : entries.Pairwise (fun first later => first.1 < later.1)) :
    (insertEntry key value entries).Pairwise (fun first later => first.1 < later.1) := by
  induction entries with
  | nil => simp [insertEntry]
  | cons head rest ih =>
      obtain ⟨key', value'⟩ := head
      obtain ⟨below, tail⟩ := List.pairwise_cons.mp ordered
      simp only [insertEntry]
      split
      · rename_i less
        refine List.pairwise_cons.mpr ⟨?_, ordered⟩
        intro entry member
        rcases List.mem_cons.mp member with rfl | member
        · exact less
        · exact lt_trans less (below entry member)
      · rename_i notLess
        split
        · rename_i equal
          subst equal
          exact List.pairwise_cons.mpr ⟨below, tail⟩
        · rename_i different
          refine List.pairwise_cons.mpr ⟨?_, ih tail⟩
          intro entry member
          rcases mem_insertEntry member with rfl | member
          · exact lt_of_le_of_ne (not_lt.mp notLess) (Ne.symm different)
          · exact below entry member

theorem ordered_eraseEntry (key : κ) {entries : List (κ × ν)}
    (ordered : entries.Pairwise (fun first later => first.1 < later.1)) :
    (eraseEntry key entries).Pairwise (fun first later => first.1 < later.1) := by
  induction entries with
  | nil => simp [eraseEntry]
  | cons head rest ih =>
      obtain ⟨below, tail⟩ := List.pairwise_cons.mp ordered
      simp only [eraseEntry]
      split
      · exact tail
      · exact List.pairwise_cons.mpr
          ⟨fun entry member => below entry (mem_of_mem_eraseEntry member), ih tail⟩

def empty : OrdMap κ ν := ⟨[], List.Pairwise.nil⟩

/-- `find(key)`. -/
def find? (m : OrdMap κ ν) (key : κ) : Option ν := findEntry key m.entries

/-- `m[key] = value`. -/
def insert (m : OrdMap κ ν) (key : κ) (value : ν) : OrdMap κ ν :=
  ⟨insertEntry key value m.entries, ordered_insertEntry key value m.ordered⟩

/-- `erase(key)`. -/
def erase (m : OrdMap κ ν) (key : κ) : OrdMap κ ν :=
  ⟨eraseEntry key m.entries, ordered_eraseEntry key m.ordered⟩

/-- The keys in the order of iteration. -/
def keys (m : OrdMap κ ν) : List κ := m.entries.map Prod.fst

/-- The sum of a quantity over all entries. -/
def total {M : Type} [AddCommMonoid M] (f : κ → ν → M) (m : OrdMap κ ν) : M :=
  (m.entries.map (fun entry => f entry.1 entry.2)).sum

@[simp] theorem find?_empty (key : κ) : (empty : OrdMap κ ν).find? key = none := rfl

@[simp] theorem total_empty {M : Type} [AddCommMonoid M] (f : κ → ν → M) :
    total f (empty : OrdMap κ ν) = 0 := rfl

theorem findEntry_insertEntry (key key' : κ) (value : ν) (entries : List (κ × ν)) :
    findEntry key' (insertEntry key value entries) =
      if key' = key then some value else findEntry key' entries := by
  induction entries with
  | nil => simp [insertEntry, findEntry]
  | cons head rest ih =>
      obtain ⟨key'', value''⟩ := head
      simp only [insertEntry]
      split
      · simp [findEntry]
      · split
        · rename_i equal
          subst equal
          by_cases same : key' = key <;> simp [findEntry, same]
        · rename_i different
          by_cases same : key' = key
          · subst same
            simp [findEntry, different, ih]
          · simp [findEntry, same, ih]

@[simp] theorem find?_insert (m : OrdMap κ ν) (key key' : κ) (value : ν) :
    (m.insert key value).find? key' = if key' = key then some value else m.find? key' :=
  findEntry_insertEntry key key' value m.entries

theorem findEntry_eq_none {key : κ} {entries : List (κ × ν)}
    (absent : ∀ entry ∈ entries, entry.1 ≠ key) : findEntry key entries = none := by
  induction entries with
  | nil => rfl
  | cons head rest ih =>
      have different := absent head List.mem_cons_self
      simp only [findEntry, if_neg (Ne.symm different)]
      exact ih (fun entry member => absent entry (List.mem_cons_of_mem _ member))

theorem findEntry_eraseEntry (key key' : κ) {entries : List (κ × ν)}
    (ordered : entries.Pairwise (fun first later => first.1 < later.1)) :
    findEntry key' (eraseEntry key entries) =
      if key' = key then none else findEntry key' entries := by
  induction entries with
  | nil => simp [eraseEntry, findEntry]
  | cons head rest ih =>
      obtain ⟨key'', value''⟩ := head
      obtain ⟨below, tail⟩ := List.pairwise_cons.mp ordered
      simp only [eraseEntry]
      split
      · rename_i equal
        subst equal
        by_cases same : key' = key
        · subst same
          rw [if_pos rfl]
          exact findEntry_eq_none (fun entry member => ne_of_gt (below entry member))
        · simp [findEntry, same]
      · rename_i different
        by_cases same : key' = key
        · subst same
          simp [findEntry, different, ih tail]
        · simp [findEntry, same, ih tail]

@[simp] theorem find?_erase (m : OrdMap κ ν) (key key' : κ) :
    (m.erase key).find? key' = if key' = key then none else m.find? key' :=
  findEntry_eraseEntry key key' m.ordered

theorem mem_of_findEntry {key : κ} {value : ν} {entries : List (κ × ν)}
    (found : findEntry key entries = some value) : (key, value) ∈ entries := by
  induction entries with
  | nil => simp [findEntry] at found
  | cons head rest ih =>
      obtain ⟨key', value'⟩ := head
      simp only [findEntry] at found
      split at found
      · rename_i equal
        cases found
        simp [equal]
      · exact List.mem_cons_of_mem _ (ih found)

/-- An entry of the map is what its key finds. -/
theorem mem_entries {m : OrdMap κ ν} {key : κ} {value : ν} :
    (key, value) ∈ m.entries ↔ m.find? key = some value := by
  refine ⟨?_, mem_of_findEntry⟩
  obtain ⟨entries, ordered⟩ := m
  simp only [find?]
  induction entries with
  | nil => simp
  | cons head rest ih =>
      obtain ⟨key', value'⟩ := head
      obtain ⟨below, tail⟩ := List.pairwise_cons.mp ordered
      intro member
      rcases List.mem_cons.mp member with equal | member
      · cases equal
        simp [findEntry]
      · have less : key' < key := below (key, value) member
        simp only [findEntry, if_neg (ne_of_gt less)]
        exact ih tail member

theorem mem_keys {m : OrdMap κ ν} {key : κ} : key ∈ m.keys ↔ ∃ value, m.find? key = some value := by
  simp only [keys, List.mem_map, Prod.exists, exists_and_right, exists_eq_right]
  exact exists_congr (fun value => mem_entries)

theorem eraseEntry_insertEntry (key : κ) (value : ν) {entries : List (κ × ν)}
    (ordered : entries.Pairwise (fun first later => first.1 < later.1)) :
    eraseEntry key (insertEntry key value entries) = eraseEntry key entries := by
  induction entries with
  | nil => simp [insertEntry, eraseEntry]
  | cons head rest ih =>
      obtain ⟨key', value'⟩ := head
      obtain ⟨below, tail⟩ := List.pairwise_cons.mp ordered
      simp only [insertEntry]
      split
      · rename_i less
        have clean : eraseEntry key rest = rest := by
          have larger : ∀ entry ∈ rest, key < entry.1 :=
            fun entry member => lt_trans less (below entry member)
          clear ih ordered below tail
          induction rest with
          | nil => rfl
          | cons next rest ih =>
              simp only [eraseEntry, if_neg (ne_of_lt (larger next List.mem_cons_self))]
              rw [ih (fun entry member => larger entry (List.mem_cons_of_mem _ member))]
        simp [eraseEntry, ne_of_lt less, clean]
      · split
        · rename_i equal
          subst equal
          simp [eraseEntry]
        · rename_i different
          simp [eraseEntry, different, ih tail]

@[simp] theorem erase_insert (m : OrdMap κ ν) (key : κ) (value : ν) :
    (m.insert key value).erase key = m.erase key := by
  simp only [erase, insert, mk.injEq]
  exact eraseEntry_insertEntry key value m.ordered

/-- One key can be taken out of the sum. -/
theorem total_split {M : Type} [AddCommMonoid M] (f : κ → ν → M) {m : OrdMap κ ν} {key : κ}
    {value : ν} (found : m.find? key = some value) :
    total f m = f key value + total f (m.erase key) := by
  obtain ⟨entries, ordered⟩ := m
  simp only [total, erase, find?] at found ⊢
  induction entries with
  | nil => simp [findEntry] at found
  | cons head rest ih =>
      obtain ⟨key', value'⟩ := head
      simp only [findEntry] at found
      simp only [eraseEntry]
      split at found
      · rename_i equal
        subst equal
        cases found
        simp
      · rename_i different
        rw [if_neg different, List.map_cons, List.sum_cons, List.map_cons, List.sum_cons,
          ih (List.pairwise_cons.mp ordered).2 found]
        exact add_left_comm _ _ _

/-- Storing a value under a key leaves the rest of the sum alone. -/
theorem total_insert {M : Type} [AddCommMonoid M] (f : κ → ν → M) (m : OrdMap κ ν) (key : κ)
    (value : ν) : total f (m.insert key value) = f key value + total f (m.erase key) := by
  have found : (m.insert key value).find? key = some value := by simp
  rw [total_split f found, erase_insert]

theorem erase_of_find?_none {m : OrdMap κ ν} {key : κ} (absent : m.find? key = none) :
    m.erase key = m := by
  obtain ⟨entries, ordered⟩ := m
  simp only [find?] at absent
  simp only [erase, mk.injEq]
  clear ordered
  induction entries with
  | nil => rfl
  | cons head rest ih =>
      obtain ⟨key', value'⟩ := head
      simp only [findEntry] at absent
      split at absent
      · cases absent
      · rename_i different
        simp [eraseEntry, different, ih absent]

/-- Two maps that find the same under every key agree on every sum of what they find. -/
theorem total_congr {M : Type} [AddCommMonoid M] {f g : κ → ν → M} {m : OrdMap κ ν}
    (h : ∀ key value, m.find? key = some value → f key value = g key value) :
    total f m = total g m := by
  unfold total
  congr 1
  apply List.map_congr_left
  intro entry member
  exact h entry.1 entry.2 (mem_entries.mp member)

/-- A homomorphism passes through the sum. -/
theorem map_total {M N : Type} [AddCommMonoid M] [AddCommMonoid N] (g : M →+ N) (f : κ → ν → M)
    (m : OrdMap κ ν) : g (total f m) = total (fun key value => g (f key value)) m := by
  rw [total, total, map_list_sum, List.map_map]
  rfl

theorem total_add {M : Type} [AddCommMonoid M] (f g : κ → ν → M) (m : OrdMap κ ν) :
    total (fun key value => f key value + g key value) m = total f m + total g m := by
  rw [total, total, total, List.sum_map_add]

/-- Two maps with the same quantity under every key have the same sum. -/
theorem total_ext {M : Type} [AddCommMonoid M] {f : κ → ν → M} {g : κ → μ → M} {m : OrdMap κ ν}
    {m' : OrdMap κ μ} (h : ∀ key, (m.find? key).map (f key) = (m'.find? key).map (g key)) :
    total f m = total g m' := by
  obtain ⟨entries, ordered⟩ := m
  induction entries generalizing m' with
  | nil =>
      have empty : m'.entries = [] := by
        refine List.eq_nil_iff_forall_not_mem.mpr fun entry member => ?_
        have same := h entry.1
        rw [mem_entries.mp member] at same
        cases same
      rw [total, total, empty]
      rfl
  | cons entry rest ih =>
      obtain ⟨key, value⟩ := entry
      obtain ⟨below, tail⟩ := List.pairwise_cons.mp ordered
      have unlisted : findEntry key rest = none :=
        findEntry_eq_none fun entry member => (below entry member).ne'
      have first := h key
      have here : find? ⟨(key, value) :: rest, ordered⟩ key = some value := if_pos rfl
      rw [here, Option.map_some] at first
      obtain ⟨value', found, same⟩ := Option.map_eq_some_iff.mp first.symm
      have others : ∀ key', (findEntry key' rest).map (f key') =
          ((m'.erase key).find? key').map (g key') := by
        intro key'
        rw [find?_erase]
        by_cases equal : key' = key
        · rw [if_pos equal, equal, unlisted]
          rfl
        · rw [if_neg equal, ← h key']
          exact congrArg (Option.map (f key')) (if_neg equal).symm
      rw [total_split g found, ← ih tail others, same]
      rfl

end OrdMap

end NetProg
