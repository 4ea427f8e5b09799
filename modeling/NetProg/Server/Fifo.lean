import NetProg.Lib.Runs
import NetProg.Lib.Text
import NetProg.Server.Mailbox

/-!
# User pipes of `np_multi_proc`

The command of `... >j` writes into a FIFO while `<i` of the other process empties it without
waiting, copies what it got to a pipe, and removes the FIFO.  The sender's shell keeps the FIFO
open, so an empty one is reported as an error, which ends the copying.
-/

namespace NetProg

/-- How far `readUserPipe` of the receiver has come. -/
inductive Receiver where
  /-- `openFIFO` is still to come. -/
  | absent
  /-- In the loop of `readFIFO_writePipe`. -/
  | reading
  /-- `strlen` has run over the end of the array. -/
  | overrun
  /-- The write waits for room in a pipe that nobody reads yet. -/
  | blocked
  /-- The copy is the standard input of the receiver's command, and the FIFO is unlinked. -/
  | done
  deriving DecidableEq, Repr

/-- One user pipe after `writeUserPipe` has created it. -/
structure UserFifo where
  /-- What the sender's command still has to write. -/
  unwritten : Text
  fifo : Text
  /-- The temporary pipe. -/
  temp : Text
  receiver : Receiver
  deriving DecidableEq, Repr

namespace UserFifo

inductive Event where
  /-- The sender's command writes some bytes. -/
  | write (count : Nat)
  /-- `openFIFO` of the receiver. -/
  | openFIFO
  /-- `read` returns some bytes, and they are written to the temporary pipe. -/
  | read (count : Nat)
  /-- `read` returns -1: the FIFO is empty. -/
  | again
  deriving DecidableEq, Repr

def init (output : Text) : UserFifo := ⟨output, [], [], .absent⟩

/-- A step (`np_project2/shell/pipe.cpp:41-66`); a pipe without a reader takes `capacity` bytes. -/
def step (capacity : Nat) (s : UserFifo) : Event → Option UserFifo
  | .write count =>
    if count ≤ s.unwritten.length ∧ s.fifo.length + count ≤ capacity then
      some { s with
        unwritten := s.unwritten.drop count
        fifo := s.fifo ++ s.unwritten.take count }
    else none
  | .openFIFO =>
    if s.receiver = .absent then some { s with receiver := .reading } else none
  | .read count =>
    if s.receiver = .reading ∧ 0 < count ∧ count ≤ userMsgLen ∧ count ≤ s.fifo.length then
      let buffer := s.fifo.take count
      let s := { s with fifo := s.fifo.drop count }
      -- the array is zeroed before each read, so a NUL follows unless the read fills it
      if count = userMsgLen ∧ '\x00' ∉ buffer then some { s with receiver := .overrun }
      else
        let given := Text.cString buffer
        if s.temp.length + given.length ≤ capacity then some { s with temp := s.temp ++ given }
        else some { s with
          temp := s.temp ++ given.take (capacity - s.temp.length), receiver := .blocked }
    else none
  | .again =>
    if s.receiver = .reading ∧ s.fifo = [] then some { s with receiver := .done } else none

/-- The receiver does not stop in the middle, and its command gets the whole output. -/
def Delivered (output : Text) (s : UserFifo) : Prop :=
  s.receiver ≠ .overrun ∧ s.receiver ≠ .blocked ∧ (s.receiver = .done → s.temp = output)

/-- The FIFO is found empty only after the command has written everything; what a read returns is
shorter than the array, has no NUL, and fits the temporary pipe. -/
def InTime (capacity : Nat) (s : UserFifo) : Event → Prop
  | .read count => count < userMsgLen ∧ '\x00' ∉ s.fifo.take count ∧
      s.temp.length + count ≤ capacity
  | .again => s.unwritten = []
  | _ => True

/-- Nothing is lost on the way: the output is what was copied, what is in the FIFO and what is
still to be written. -/
structure Conserved (output : Text) (s : UserFifo) : Prop where
  whole : s.temp ++ s.fifo ++ s.unwritten = output
  alive : s.receiver ≠ .overrun ∧ s.receiver ≠ .blocked
  finished : s.receiver = .done → s.temp = output

theorem Conserved.step {capacity : Nat} {output : Text} {s s' : UserFifo} {e : Event}
    (conserved : s.Conserved output) (inTime : s.InTime capacity e)
    (stepped : s.step capacity e = some s') : s'.Conserved output := by
  obtain ⟨whole, alive, finished⟩ := conserved
  cases e with
  | write count =>
      simp only [UserFifo.step, Option.ite_none_right_eq_some, Option.some.injEq] at stepped
      obtain ⟨-, rfl⟩ := stepped
      refine ⟨?_, alive, finished⟩
      rw [← whole, List.append_assoc, List.append_assoc, List.take_append_drop, List.append_assoc]
  | openFIFO =>
      simp only [UserFifo.step, Option.ite_none_right_eq_some, Option.some.injEq] at stepped
      obtain ⟨-, rfl⟩ := stepped
      exact ⟨whole, ⟨by simp, by simp⟩, by simp⟩
  | read count =>
      obtain ⟨short, noNul, room⟩ := inTime
      simp only [UserFifo.step, Option.ite_none_right_eq_some] at stepped
      obtain ⟨⟨reading, -, -, there⟩, stepped⟩ := stepped
      have full : ¬ (count = userMsgLen ∧ '\x00' ∉ s.fifo.take count) := by omega
      have fits : s.temp.length + (s.fifo.take count).length ≤ capacity := by
        rw [List.length_take_of_le there]
        exact room
      rw [if_neg full, Text.cString_of_plain noNul, if_pos fits, Option.some.injEq] at stepped
      rw [← stepped]
      refine ⟨?_, alive, ?_⟩
      · rw [← whole, List.append_assoc s.temp, List.take_append_drop]
      · intro done
        rw [reading] at done
        cases done
  | again =>
      simp only [UserFifo.step, Option.ite_none_right_eq_some, Option.some.injEq] at stepped
      obtain ⟨⟨-, empty⟩, rfl⟩ := stepped
      refine ⟨whole, ⟨by simp, by simp⟩, fun _ => ?_⟩
      have nothing : s.unwritten = [] := inTime
      rw [empty, nothing, List.append_nil, List.append_nil] at whole
      exact whole

end UserFifo

/-- The receiver's command gets all the sender's command writes, in a run where no read comes too
early and no byte is lost in the copying. -/
theorem delivered_of_inTime (capacity : Nat) (output : Text) {s : UserFifo}
    (run : Reached (UserFifo.step capacity) (UserFifo.InTime capacity) (UserFifo.init output) s) :
    s.Delivered output := by
  have conserved : s.Conserved output :=
    run.invariant (p := UserFifo.Conserved output)
      ⟨rfl, ⟨by simp [UserFifo.init], by simp [UserFifo.init]⟩, by simp [UserFifo.init]⟩
      (fun conserved inTime stepped => conserved.step inTime stepped)
  exact ⟨conserved.alive.1, conserved.alive.2, conserved.finished⟩

theorem delivered_of_inTime_hi : ∃ s : UserFifo,
    s.receiver = .done ∧ s.Delivered "hi\n".toList := by
  refine ⟨_, ?_, delivered_of_inTime 65536 "hi\n".toList ((((Reached.start.step (e := .write 3)
    trivial rfl).step (e := .openFIFO) trivial rfl).step (e := .read 3) ⟨by decide, by decide,
      by decide⟩ rfl).step (e := .again) (by rfl) rfl)⟩
  rfl

/-- The receiver reads between two writes of the sender's command. -/
theorem second_write_lost : ∃ s : UserFifo,
    Reached (UserFifo.step 65536) (fun _ _ => True) (UserFifo.init "hi\n".toList) s ∧
      s.receiver = .done ∧ ¬ s.Delivered "hi\n".toList := by
  refine ⟨_, ((((Reached.start.step (e := .write 1) trivial rfl).step (e := .openFIFO) trivial
    rfl).step (e := .read 1) trivial rfl).step (e := .again) trivial rfl).step (e := .write 2)
      trivial rfl, rfl, ?_⟩
  intro delivered
  exact absurd (delivered.2.2 rfl) (by decide)

end NetProg
