import NetProg.Shell.CircularBuffer

/-!
# Calls of the circular buffer

`next`, `set` and `get` in any order, with any `int`.  The head moves under the slots: a number names
the slot that the same number, less one for every `next` in between, named before.
-/

namespace NetProg

/-- A call of the buffer; the arguments are converted from `int`. -/
inductive RingCall (T : Type) where
  | next
  | set (n : Int) (item : T)
  | get (n : Int)

namespace RingCall

variable {T : Type}

/-- What a call does to the buffer. -/
def perform (b : CircularBuffer T) : RingCall T → CircularBuffer T
  | next => b.next
  | set n item => b.set (sizeT n) item
  | get _ => b

/-- The buffer after the calls. -/
def run (b : CircularBuffer T) (calls : List (RingCall T)) : CircularBuffer T := calls.foldl perform b

/-- How often the head was moved. -/
def nexts : List (RingCall T) → Nat
  | [] => 0
  | next :: calls => nexts calls + 1
  | _ :: calls => nexts calls

/-- The item set last in the slot that `m` names behind the calls. -/
def latest (m : Int) : List (RingCall T) → Option T
  | [] => none
  | set n item :: calls =>
      (latest m calls).or (if n % 1024 = (m + nexts calls) % 1024 then some item else none)
  | _ :: calls => latest m calls

end RingCall

namespace CircularBuffer

variable {T : Type} {b : CircularBuffer T} {n m : Int}

/-- Two numbers name one slot exactly if they are of one residue class. -/
theorem slot_eq_iff : b.slot (sizeT n) = b.slot (sizeT m) ↔ n % 1024 = m % 1024 := by
  have here := b.slot_sizeT n
  have there := b.slot_sizeT m
  rw [Fin.ext_iff]
  omega

theorem get_set_eq (item : T) : (b.set (sizeT n) item).get (sizeT m) =
    if n % 1024 = m % 1024 then item else b.get (sizeT m) := by
  have same : (b.set (sizeT n) item).slot (sizeT m) = b.slot (sizeT m) := rfl
  rw [get, same, set_buffer, Function.update_apply]
  simp only [slot_eq_iff, eq_comm, get]

theorem get_next : b.next.get (sizeT m) = b.get (sizeT (m + 1)) := by
  have here := b.next.slot_sizeT m
  have there := b.slot_sizeT (m + 1)
  have same : b.next.slot (sizeT m) = b.slot (sizeT (m + 1)) := by
    rw [Fin.ext_iff]
    simp only [next_head, circularBufferSize] at here
    omega
  rw [get, get, next_buffer, same]

end CircularBuffer

namespace RingCall

open CircularBuffer

variable {T : Type} {calls before after : List (RingCall T)} {n m : Int} {item : T}

theorem run_head (b : CircularBuffer T) (calls : List (RingCall T)) :
    (run b calls).head = (b.head + nexts calls) % 1024 := by
  induction calls generalizing b with
  | nil => exact (Nat.mod_eq_of_lt b.bounded).symm
  | cons call calls ih =>
      rw [run, List.foldl_cons, ← run, ih]
      cases call with
      | next =>
          simp only [perform, next_head, circularBufferSize, nexts]
          omega
      | set n item => rfl
      | get n => rfl

/-- What a number names behind the calls is what was set there last, or what was there before. -/
theorem get_run (b : CircularBuffer T) (calls : List (RingCall T)) (m : Int) :
    (run b calls).get (sizeT m) = (latest m calls).getD (b.get (sizeT (m + nexts calls))) := by
  induction calls generalizing b with
  | nil => simp [run, latest, nexts]
  | cons call calls ih =>
      rw [run, List.foldl_cons, ← run, ih]
      cases call with
      | next =>
          simp only [perform, get_next, latest, nexts]
          push_cast
          rw [Int.add_assoc]
      | set n item =>
          simp only [perform, get_set_eq, latest, nexts]
          cases latest m calls with
          | some value => rfl
          | none => split <;> rfl
      | get n => rfl

/-- A call that sets the slot which `m` names after `later` more calls. -/
def Hits (n m : Int) (later : List (RingCall T)) : Prop := n % 1024 = (m + nexts later) % 1024

theorem latest_append (found : latest m after = some item) :
    latest m (before ++ after) = some item := by
  induction before with
  | nil => exact found
  | cons call before ih =>
      cases call with
      | next => exact ih
      | get n => exact ih
      | set n other => simp [latest, ih]

theorem latest_none (missed : ∀ before n item after, calls = before ++ .set n item :: after →
    ¬ Hits n m after) : latest m calls = none := by
  induction calls with
  | nil => rfl
  | cons call calls ih =>
      have rest : latest m calls = none := by
        refine ih fun before n item after split => ?_
        exact missed (call :: before) n item after (congrArg (call :: ·) split)
      cases call with
      | next => exact rest
      | get n => exact rest
      | set n item =>
          have first := missed [] n item calls rfl
          simp only [Hits] at first
          simp [latest, rest, first]

/-- How the buffer answers after some calls. -/
structure Modular (init : T) (calls : List (RingCall T)) : Prop where
  /-- the head stays in the array and counts the calls of `next` -/
  head : (run (.fresh init) calls).head < 1024 ∧
    (run (.fresh init) calls).head = nexts calls % 1024
  slot : ∀ n : Int, ((run (.fresh init) calls).slot (sizeT n)).val =
    ((run (.fresh init) calls).head + n) % 1024
  /-- the last item that was set in the slot -/
  recent : ∀ before n item after m, calls = before ++ .set n item :: after → Hits n m after →
    (∀ first n' item' last, after = first ++ .set n' item' :: last → ¬ Hits n' m last) →
      (run (.fresh init) calls).get (sizeT m) = item
  untouched : ∀ m, (∀ before n item after, calls = before ++ .set n item :: after →
    ¬ Hits n m after) → (run (.fresh init) calls).get (sizeT m) = init
  /-- one more `set` -/
  others : ∀ n item m, n % 1024 ≠ m % 1024 →
    (run (.fresh init) (calls ++ [.set n item])).get (sizeT m) =
      (run (.fresh init) calls).get (sizeT m)

/-- Numbers are taken modulo 1024, through any calls. -/
theorem modular (init : T) (calls : List (RingCall T)) : Modular init calls where
  head := by
    have counted := run_head (.fresh init) calls
    rw [CircularBuffer.fresh, Nat.zero_add] at counted
    exact ⟨(run (.fresh init) calls).bounded, counted⟩
  slot := fun n => CircularBuffer.slot_sizeT _ n
  recent := by
    intro before n item after m split hits last
    have final : latest m (.set n item :: after) = some item := by
      rw [latest, latest_none last, Option.none_or]
      exact if_pos hits
    rw [get_run, split, latest_append final]
    rfl
  untouched := by
    intro m missed
    rw [get_run, latest_none missed]
    rfl
  others := by
    intro n item m different
    rw [run, List.foldl_append, List.foldl_cons, List.foldl_nil, ← run, perform, get_set_eq,
      if_neg different]

end RingCall

end NetProg
