import Mathlib.Logic.Function.Basic
import Mathlib.Logic.Relation

/-!
# One pipeline: the shell, its children and the pipes between them

The commands `c 0 | c 1 | ... | c (count - 1)` run by the `for` loop of `runShell`.  The first one
has `held 0` bytes to write, every other one copies its input, and the last one prints.  A pipe
holds at most `capacity` bytes, and a command reads at most `block` bytes at a time.  The parent
closes its copies of a pipe two turns after it made them, and before it forks another command it
waits for the one it forked two turns ago.
-/

namespace NetProg

/-- Where the parent is: in turn `i` of the loop before `prevPipe.closePipe()`, before `fork` or
before `waitpid`, or in what follows the loop. -/
inductive Parent where
  | close (i : Nat)
  | fork (i : Nat)
  | wait (i : Nat)
  | closeLast
  | waitLast
  | done
  deriving DecidableEq, Repr

/-- Pipe `i` leads from command `i` to command `i + 1`. -/
structure Pipeline where
  parent : Parent
  forked : Nat
  /-- bytes that a command has still to write -/
  held : Nat → Nat
  finished : Nat → Bool
  /-- bytes in a pipe -/
  pipe : Nat → Nat
  /-- whether the parent still has its copies of a pipe -/
  parentHas : Nat → Bool
  printed : Nat

namespace Pipeline

/-- The shell before the first fork; the first command will write `bytes` bytes. -/
def start (bytes : Nat) : Pipeline where
  parent := .close 0
  forked := 0
  held := Function.update (fun _ => 0) 0 bytes
  finished := fun _ => false
  pipe := fun _ => 0
  parentHas := fun _ => false
  printed := 0

/-- The command has been forked and has not exited. -/
def Running (s : Pipeline) (i : Nat) : Prop := i < s.forked ∧ s.finished i = false

/-- The end of the input of command `i + 1`: nobody can write into pipe `i` any more. -/
def AtEnd (s : Pipeline) (i : Nat) : Prop :=
  s.pipe i = 0 ∧ s.finished i = true ∧ s.parentHas i = false

/-- One step of the parent or of a command (`np_project1/shell/cmdHandler.cpp:40-82`). -/
inductive Step (count capacity block : Nat) (s : Pipeline) : Pipeline → Prop
  | close (i : Nat) (place : s.parent = .close i) :
      Step count capacity block s
        { s with
          parent := .fork i
          parentHas := if 2 ≤ i then Function.update s.parentHas (i - 2) false else s.parentHas }
  | fork (i : Nat) (place : s.parent = .fork i) :
      Step count capacity block s
        { s with
          parent := .wait i
          forked := i + 1
          parentHas := if i + 1 < count then Function.update s.parentHas i true else s.parentHas }
  | wait (i : Nat) (place : s.parent = .wait i) (waited : 2 ≤ i → s.finished (i - 2) = true) :
      Step count capacity block s
        { s with parent := if i + 1 < count then .close (i + 1) else .closeLast }
  | closeLast (place : s.parent = .closeLast) :
      Step count capacity block s
        { s with
          parent := .waitLast
          parentHas :=
            if 2 ≤ count then Function.update s.parentHas (count - 2) false else s.parentHas }
  | waitLast (place : s.parent = .waitLast) (waited : s.finished (count - 1) = true) :
      Step count capacity block s { s with parent := .done }
  | write (i bytes : Nat) (running : s.Running i) (inner : i + 1 < count) (some : 1 ≤ bytes)
      (available : bytes ≤ s.held i) (room : s.pipe i + bytes ≤ capacity) :
      Step count capacity block s
        { s with
          held := Function.update s.held i (s.held i - bytes)
          pipe := Function.update s.pipe i (s.pipe i + bytes) }
  | print (i bytes : Nat) (running : s.Running i) (last : i + 1 = count) (some : 1 ≤ bytes)
      (available : bytes ≤ s.held i) :
      Step count capacity block s
        { s with
          held := Function.update s.held i (s.held i - bytes)
          printed := s.printed + bytes }
  | read (i bytes : Nat) (running : s.Running (i + 1)) (idle : s.held (i + 1) = 0)
      (some : 1 ≤ bytes) (few : bytes ≤ block) (available : bytes ≤ s.pipe i) :
      Step count capacity block s
        { s with
          held := Function.update s.held (i + 1) bytes
          pipe := Function.update s.pipe i (s.pipe i - bytes) }
  | exitFirst (running : s.Running 0) (idle : s.held 0 = 0) :
      Step count capacity block s { s with finished := Function.update s.finished 0 true }
  | exit (i : Nat) (running : s.Running (i + 1)) (idle : s.held (i + 1) = 0) (atEnd : s.AtEnd i) :
      Step count capacity block s { s with finished := Function.update s.finished (i + 1) true }

/-- The states of a run in which the first command writes `bytes` bytes. -/
def Reachable (count capacity block bytes : Nat) (s : Pipeline) : Prop :=
  Relation.ReflTransGen (Step count capacity block) (start bytes) s

/-- All commands have been forked and have exited. -/
def AllFinished (count : Nat) (s : Pipeline) : Prop :=
  ∀ i < count, i < s.forked ∧ s.finished i = true

/-- No reachable state is stuck before all commands have exited. -/
def NeverStuck (count capacity block bytes : Nat) : Prop :=
  ∀ s, Reachable count capacity block bytes s → ¬ AllFinished count s →
    ∃ s', Step count capacity block s s'

end Pipeline

end NetProg
