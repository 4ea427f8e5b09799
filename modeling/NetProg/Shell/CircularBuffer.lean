import Mathlib.Algebra.Group.Int.Defs
import Mathlib.Algebra.Group.Nat.Defs
import Mathlib.Logic.Function.Basic

/-!
# The circular buffer of numbered pipes

`npshell::circular_buffer<T>` (`shell/util.hpp`): an array of 1024 items and a head that `next`
advances.  Arguments are `size_t`, so an `int` arrives modulo `2^64`; as 1024 divides `2^64`
every slot is the mathematical residue of `head + n`, for negative `n` as well.
-/

namespace NetProg

/-- `CIRCULAR_BUFFER_SIZE`. -/
def circularBufferSize : Nat := 1024

/-- The conversion of an `int` argument to the 64-bit `size_t`. -/
def sizeT (n : Int) : Nat := (n % 2 ^ 64).toNat

/-- `npshell::circular_buffer<T>` (`np_project2/shell/util.hpp:11-26`); the head stays inside the
array. -/
structure CircularBuffer (T : Type) where
  head : Nat
  buffer : Fin circularBufferSize → T
  bounded : head < circularBufferSize

namespace CircularBuffer

variable {T : Type}

/-- The slot that an argument of `get` and `set` addresses. -/
def slot (b : CircularBuffer T) (n : Nat) : Fin circularBufferSize :=
  ⟨(b.head + n) % 2 ^ 64 % circularBufferSize, Nat.mod_lt _ (by decide)⟩

def set (b : CircularBuffer T) (n : Nat) (item : T) : CircularBuffer T :=
  { b with buffer := Function.update b.buffer (b.slot n) item }

def get (b : CircularBuffer T) (n : Nat) : T := b.buffer (b.slot n)

def front (b : CircularBuffer T) : T :=
  b.buffer ⟨b.head % circularBufferSize, Nat.mod_lt _ (by decide)⟩

def next (b : CircularBuffer T) : CircularBuffer T :=
  { b with
    head := (b.head + 1) % circularBufferSize
    bounded := Nat.mod_lt _ (by decide) }

/-- The constructor: every slot holds a default item. -/
def fresh (item : T) : CircularBuffer T := ⟨0, fun _ => item, by decide⟩

/-- The slot at the head. -/
def headSlot (b : CircularBuffer T) : Fin circularBufferSize := ⟨b.head, b.bounded⟩

@[simp] theorem front_eq (b : CircularBuffer T) : b.front = b.buffer b.headSlot := by
  simp only [front, headSlot, Nat.mod_eq_of_lt b.bounded]

@[simp] theorem next_buffer (b : CircularBuffer T) : b.next.buffer = b.buffer := rfl

@[simp] theorem next_head (b : CircularBuffer T) :
    b.next.head = (b.head + 1) % circularBufferSize := rfl

@[simp] theorem set_head (b : CircularBuffer T) (n : Nat) (item : T) :
    (b.set n item).head = b.head := rfl

@[simp] theorem set_buffer (b : CircularBuffer T) (n : Nat) (item : T) :
    (b.set n item).buffer = Function.update b.buffer (b.slot n) item := rfl

@[simp] theorem fresh_buffer (item : T) (i : Fin circularBufferSize) :
    (fresh item).buffer i = item := rfl

/-- The slot addressed by an `int` is its residue, whatever its sign. -/
theorem slot_sizeT (b : CircularBuffer T) (n : Int) :
    ((b.slot (sizeT n)).val : Int) = (b.head + n) % 1024 := by
  simp only [slot, sizeT, circularBufferSize]
  omega

theorem get_set_same (b : CircularBuffer T) (n : Nat) (item : T) :
    (b.set n item).get n = item := by
  simp [get, slot]

end CircularBuffer

end NetProg
