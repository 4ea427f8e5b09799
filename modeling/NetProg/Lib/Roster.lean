/-!
# Rosters

A roster gives the name of everybody who is present.  Names are unique but for one, which any
number of people may share.  Somebody who enters under the shared name, takes a name that nobody
has or leaves keeps it so.
-/

namespace NetProg

/-- Whoever is present has a name. -/
def Roster (ι α : Type) := ι → Option α

namespace Roster

variable {ι α : Type} {shared : α} {names : Roster ι α}

/-- Two people of one name have the shared one. -/
def UniqueBut (shared : α) (names : Roster ι α) : Prop :=
  ∀ i j name, i ≠ j → names i = some name → names j = some name → name = shared

theorem uniqueBut_nobody : UniqueBut shared (fun _ => none : Roster ι α) := by
  intro i j name _ here
  cases here

variable [DecidableEq ι]

/-- The name of one person, or that he is away. -/
def put (names : Roster ι α) (i : ι) (entry : Option α) : Roster ι α := fun j =>
  if j = i then entry else names j

theorem put_of_ne {i j : ι} (other : j ≠ i) (entry : Option α) : names.put i entry j = names j :=
  if_neg other

@[simp] theorem put_same (i : ι) (entry : Option α) : names.put i entry i = entry := if_pos rfl

/-- What everybody has may be given again only if it is the shared name. -/
theorem UniqueBut.put {i : ι} {entry : Option α} (unique : names.UniqueBut shared)
    (fresh : ∀ name, entry = some name → name = shared ∨ ∀ j, names j ≠ some name) :
    (names.put i entry).UniqueBut shared := by
  have mixed : ∀ j name, j ≠ i → entry = some name → names j = some name → name = shared := by
    intro j name _ given there
    exact (fresh name given).resolve_right fun nobody => nobody j there
  intro j j' name different here there
  by_cases first : j = i
  · subst first
    rw [put_same] at here
    rw [put_of_ne (Ne.symm different)] at there
    exact mixed j' name (Ne.symm different) here there
  · rw [put_of_ne first] at here
    by_cases second : j' = i
    · subst second
      rw [put_same] at there
      exact mixed j name first there here
    · rw [put_of_ne second] at there
      exact unique j j' name different here there

theorem UniqueBut.enter {i : ι} (unique : names.UniqueBut shared) :
    (names.put i (some shared)).UniqueBut shared := by
  apply unique.put
  intro name given
  exact Or.inl (Option.some.inj given).symm

theorem UniqueBut.rename {i : ι} {name : α} (unique : names.UniqueBut shared)
    (fresh : ∀ j, names j ≠ some name) : (names.put i (some name)).UniqueBut shared := by
  apply unique.put
  intro name' given
  exact Or.inr (Option.some.inj given ▸ fresh)

theorem UniqueBut.leave {i : ι} (unique : names.UniqueBut shared) :
    (names.put i none).UniqueBut shared := by
  apply unique.put
  intro name given
  cases given

end Roster

end NetProg
