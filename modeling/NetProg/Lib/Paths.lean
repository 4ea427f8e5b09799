import Mathlib.Data.List.Basic

/-!
# Resolving paths

A path below a directory, without symbolic links: every component stays, climbs to the parent or goes
down to a name, and the root is its own parent.  What matters of a path is how often it climbs out of
where it began and the names behind the last climb.
-/

namespace NetProg

/-- What a component of a path does. -/
inductive Step (α : Type) where
  | stay
  | up
  | down (name : α)
  deriving DecidableEq, Repr

variable {α : Type}

/-- A directory is the list of the names that lead to it from the root. -/
def Step.move (dir : List α) : Step α → List α
  | .stay => dir
  | .up => dir.dropLast
  | .down name => dir ++ [name]

/-- Where a path leads from a directory. -/
def resolve (dir : List α) (steps : List (Step α)) : List α := steps.foldl Step.move dir

/-- The lookup of a path: every component needs a directory to be looked up in. -/
def walk (isDir : List α → Bool) (dir : List α) : List (Step α) → Option (List α)
  | [] => some dir
  | step :: steps => if isDir dir then walk isDir (step.move dir) steps else none

/-- A path in normal form: first it climbs, then it goes down. -/
structure Climb (α : Type) where
  ups : Nat
  names : List α
  deriving DecidableEq, Repr

namespace Climb

def move (climb : Climb α) : Step α → Climb α
  | .stay => climb
  | .up => if climb.names = [] then ⟨climb.ups + 1, []⟩ else ⟨climb.ups, climb.names.dropLast⟩
  | .down name => ⟨climb.ups, climb.names ++ [name]⟩

/-- Where it leads. -/
def apply (dir : List α) (climb : Climb α) : List α :=
  dir.take (dir.length - climb.ups) ++ climb.names

end Climb

/-- The normal form of a path. -/
def normal (steps : List (Step α)) : Climb α := steps.foldl Climb.move ⟨0, []⟩

/-- The place is properly below the directory. -/
def Below (dir place : List α) : Prop := ∃ rest, rest ≠ [] ∧ place = dir ++ rest

variable {isDir : List α → Bool} {dir place : List α} {steps : List (Step α)}

/-- A lookup that succeeds ends where the path leads. -/
theorem walk_eq (found : walk isDir dir steps = some place) : place = resolve dir steps := by
  induction steps generalizing dir with
  | nil => exact (Option.some.inj found).symm
  | cons step steps ih =>
      rw [walk] at found
      split at found
      · exact ih found
      · cases found

theorem Climb.move_apply (dir : List α) (climb : Climb α) (step : Step α) :
    step.move (climb.apply dir) = (climb.move step).apply dir := by
  cases step with
  | stay => rfl
  | down name => exact List.append_assoc _ _ _
  | up =>
      rw [Climb.move]
      split
      case isTrue none =>
        rw [Step.move, apply, none, List.append_nil, apply, List.append_nil, List.dropLast_eq_take,
          List.take_take, List.length_take]
        congr 1
        dsimp only
        omega
      case isFalse some => exact List.dropLast_append_of_ne_nil some

/-- The normal form leads where the path leads. -/
theorem resolve_normal (dir : List α) (steps : List (Step α)) :
    resolve dir steps = (normal steps).apply dir := by
  have run : ∀ climb : Climb α, steps.foldl Step.move (climb.apply dir) =
      (steps.foldl Climb.move climb).apply dir := by
    induction steps with
    | nil => exact fun _ => rfl
    | cons step steps ih =>
        intro climb
        rw [List.foldl_cons, List.foldl_cons, Climb.move_apply]
        exact ih _
  have start : (⟨0, []⟩ : Climb α).apply dir = dir := by simp [Climb.apply]
  have whole := run ⟨0, []⟩
  rwa [start] at whole

/-- A path stays below a directory exactly if, behind its climb, it names what it has climbed out of,
and something more. -/
theorem below_resolve_iff (dir : List α) (steps : List (Step α)) : Below dir (resolve dir steps) ↔
    Below (dir.drop (dir.length - (normal steps).ups)) (normal steps).names := by
  have parts := List.take_append_drop (dir.length - (normal steps).ups) dir
  rw [resolve_normal, Climb.apply]
  constructor
  · rintro ⟨rest, some, same⟩
    refine ⟨rest, some, ?_⟩
    rw [← parts, List.append_assoc] at same
    rw [parts] at same
    exact List.append_cancel_left same
  · rintro ⟨rest, some, same⟩
    refine ⟨rest, some, ?_⟩
    rw [same, ← List.append_assoc, parts]

end NetProg
