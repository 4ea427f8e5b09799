import NetProg.Server.Fifo

/-!
# The loop of `readFIFO_writePipe`

The loop ends when `read` returns -1, which it does for an empty FIFO that somebody still holds for
writing.  How much it copies of a read is what `strlen` finds in the array, not what `read` returned.
-/

namespace NetProg

/-- What a non-blocking `read` of the FIFO gives. -/
inductive FifoRead where
  | data (chunk : Text)
  /-- The FIFO is empty, and nobody holds it for writing. -/
  | eof
  /-- The FIFO is empty. -/
  | again
  deriving DecidableEq, Repr

namespace FifoRead

/-- `read_len`. -/
def readLen : FifoRead → Int
  | data chunk => chunk.length
  | eof => 0
  | again => -1

/-- `buffer` after `memset` and `read`. -/
def buffer : FifoRead → Text
  | data chunk => chunk ++ List.replicate (userMsgLen - chunk.length) '\x00'
  | _ => List.replicate userMsgLen '\x00'

end FifoRead

/-- The reads of a FIFO: its content in pieces, and whether a writer still holds it. -/
structure FifoReads where
  chunks : List Text
  held : Bool
  sizes : ∀ chunk ∈ chunks, 0 < chunk.length ∧ chunk.length ≤ userMsgLen

namespace FifoReads

/-- The content of the FIFO. -/
def content (reads : FifoReads) : Text := reads.chunks.flatten

/-- The result of the read number `i`. -/
def read (reads : FifoReads) (i : Nat) : FifoRead :=
  match reads.chunks[i]? with
  | some chunk => .data chunk
  | none => if reads.held then .again else .eof

end FifoReads

/-- `strlen`; `none` when it runs over the end of the array. -/
def strlen (buffer : Text) : Option Nat :=
  if '\x00' ∈ buffer then some (Text.cString buffer).length else none

/-- How far `readFIFO_writePipe` has come. -/
inductive FifoCopy where
  /-- In the loop, with so much in the temporary pipe. -/
  | looping (temp : Text)
  /-- The descriptor is the temporary pipe. -/
  | replaced (temp : Text)
  /-- `strlen` has run over the end of the array. -/
  | overrun
  /-- The write waits for room in a pipe that nobody reads. -/
  | blocked
  deriving DecidableEq, Repr

namespace FifoCopy

/-- One turn of the loop (`np_project2/server/chatServer.cpp:383-392`); a pipe without a reader
takes `capacity` bytes. -/
def turn (capacity : Nat) : FifoCopy → FifoRead → FifoCopy
  | looping temp, r =>
      if r.readLen = -1 then replaced temp
      else
        match strlen r.buffer with
        | none => overrun
        | some len =>
            if temp.length + len ≤ capacity then looping (temp ++ r.buffer.take len) else blocked
  | s, _ => s

/-- After so many turns. -/
def after (capacity : Nat) (reads : FifoReads) : Nat → FifoCopy
  | 0 => looping []
  | i + 1 => (after capacity reads i).turn capacity (reads.read i)

end FifoCopy

/-- The loop ends with exactly the content of the FIFO in the pipe, and stays in its array. -/
structure FifoReads.Copied (reads : FifoReads) (capacity : Nat) : Prop where
  ends : ∃ n, FifoCopy.after capacity reads n = .replaced reads.content
  inside : ∀ n, FifoCopy.after capacity reads n ≠ .overrun

theorem cString_nul (s t : Text) : Text.cString (s ++ '\x00' :: t) = Text.cString s := by
  induction s with
  | nil => rfl
  | cons c s ih =>
      rw [Text.cString, Text.cString, List.cons_append, List.takeWhile_cons, List.takeWhile_cons]
      split
      · exact congrArg (c :: ·) ih
      · rfl

namespace FifoRead

variable {chunk : Text}

/-- The zeros behind a read do not move the end of its string. -/
theorem cString_buffer (chunk : Text) : Text.cString (data chunk).buffer = Text.cString chunk := by
  rw [buffer]
  cases userMsgLen - chunk.length with
  | zero => rw [List.replicate_zero, List.append_nil]
  | succ k => exact cString_nul chunk _

/-- Without a NUL a read that fills the array leaves no end. -/
theorem nul_mem_buffer (size : chunk.length ≤ userMsgLen) :
    '\x00' ∈ (data chunk).buffer ↔ chunk.length < userMsgLen ∨ '\x00' ∈ chunk := by
  rw [buffer, List.mem_append, List.mem_replicate, or_comm]
  have room : userMsgLen - chunk.length ≠ 0 ↔ chunk.length < userMsgLen := by omega
  simp [room]

theorem take_buffer (chunk : Text) :
    (data chunk).buffer.take (Text.cString chunk).length = Text.cString chunk := by
  have front : Text.cString chunk <+: chunk := List.takeWhile_prefix _
  exact (List.prefix_iff_eq_take.mp (front.trans (List.prefix_append _ _))).symm

theorem readLen_again {r : FifoRead} : r.readLen = -1 ↔ r = again := by
  cases r with
  | data chunk =>
      rw [readLen]
      exact iff_of_false (by omega) FifoRead.noConfusion
  | eof => decide
  | again => decide

end FifoRead

namespace FifoCopy

variable {capacity : Nat} {reads : FifoReads} {temp chunk : Text} {s : FifoCopy} {i n : Nat}

/-- What a turn does with a read. -/
theorem turn_data (size : chunk.length ≤ userMsgLen) :
    (looping temp).turn capacity (.data chunk) =
      if chunk.length < userMsgLen ∨ '\x00' ∈ chunk then
        if temp.length + (Text.cString chunk).length ≤ capacity then
          looping (temp ++ Text.cString chunk)
        else blocked
      else overrun := by
  have some : (FifoRead.data chunk).readLen ≠ -1 := by
    rw [FifoRead.readLen]
    omega
  rw [turn, if_neg some, strlen, FifoRead.cString_buffer]
  by_cases ended : '\x00' ∈ (FifoRead.data chunk).buffer
  · rw [if_pos ended, if_pos ((FifoRead.nul_mem_buffer size).mp ended)]
    simp only [FifoRead.take_buffer]
  · rw [if_neg ended, if_neg fun more => ended ((FifoRead.nul_mem_buffer size).mpr more)]

/-- A loop that is still running at some turn was running at every turn before. -/
theorem looping_before (le : i ≤ n) (running : after capacity reads n = looping temp) :
    ∃ temp', after capacity reads i = looping temp' := by
  induction n generalizing temp with
  | zero =>
      obtain rfl : i = 0 := Nat.le_zero.mp le
      exact ⟨temp, running⟩
  | succ n ih =>
      rcases Nat.le_or_eq_of_le_succ le with earlier | rfl
      · rw [after] at running
        cases before : after capacity reads n with
        | looping temp' => exact ih earlier before
        | replaced temp' =>
            rw [before] at running
            cases running
        | overrun =>
            rw [before] at running
            cases running
        | blocked =>
            rw [before] at running
            cases running
      · exact ⟨temp, running⟩

/-- The loop has ended in a turn whose `read` returned -1. -/
theorem replaced_turn (ended : after capacity reads n = replaced temp) :
    ∃ m, after capacity reads m = looping temp ∧ reads.read m = .again := by
  induction n with
  | zero => cases ended
  | succ n ih =>
      rw [after] at ended
      cases before : after capacity reads n with
      | replaced temp' =>
          rw [before] at ended
          exact ih (before.trans ended)
      | overrun =>
          rw [before] at ended
          cases ended
      | blocked =>
          rw [before] at ended
          cases ended
      | looping temp' =>
          rw [before, turn] at ended
          split at ended
          · rename_i stops
            exact ⟨n, before.trans (by rw [FifoCopy.replaced.inj ended]), FifoRead.readLen_again.mp stops⟩
          · split at ended
            · cases ended
            · split at ended <;> cases ended

/-- The turns over the content: what was copied is no longer than what was read, and as long only if
every read was copied whole. -/
theorem looping_within (running : after capacity reads i = looping temp) (le : i ≤ reads.chunks.length) :
    temp.length ≤ capacity ∧ temp.length ≤ (reads.chunks.take i).flatten.length ∧
      (temp.length = (reads.chunks.take i).flatten.length →
        ∀ chunk ∈ reads.chunks.take i, chunk.length < userMsgLen ∧ '\x00' ∉ chunk) := by
  induction i generalizing temp with
  | zero =>
      cases running
      simp
  | succ i ih =>
      obtain ⟨temp', before⟩ := looping_before (Nat.le_succ i) running
      obtain ⟨room, short, whole⟩ := ih before (Nat.le_of_succ_le le)
      have inside : i < reads.chunks.length := le
      have read : reads.read i = .data reads.chunks[i] := by
        rw [FifoReads.read, List.getElem?_eq_getElem inside]
      have size := (reads.sizes _ (List.getElem_mem inside)).2
      rw [after, before, read, turn_data size] at running
      split at running
      · rename_i ended
        split at running
        · rename_i fits
          cases running
          have front : Text.cString reads.chunks[i] <+: reads.chunks[i] := List.takeWhile_prefix _
          have shorter := front.length_le
          rw [List.take_succ_eq_append_getElem inside, List.flatten_append, List.length_append,
            List.flatten_singleton, List.length_append]
          refine ⟨fits, by omega, ?_⟩
          intro same chunk member
          rcases List.mem_append.mp member with earlier | here
          · exact whole (by omega) chunk earlier
          · rw [List.mem_singleton.mp here]
            have all := front.eq_of_length (by omega)
            have noNul : '\x00' ∉ reads.chunks[i] := all ▸ Text.not_mem_cString _
            exact ⟨ended.resolve_right noNul, noNul⟩
        · cases running
      · cases running

/-- Whole reads are copied whole. -/
theorem after_whole (good : ∀ chunk ∈ reads.chunks, chunk.length < userMsgLen ∧ '\x00' ∉ chunk)
    (room : reads.content.length ≤ capacity) (le : i ≤ reads.chunks.length) :
    after capacity reads i = looping (reads.chunks.take i).flatten := by
  induction i with
  | zero => rfl
  | succ i ih =>
      have inside : i < reads.chunks.length := le
      have read : reads.read i = .data reads.chunks[i] := by
        rw [FifoReads.read, List.getElem?_eq_getElem inside]
      obtain ⟨short, noNul⟩ := good _ (List.getElem_mem inside)
      have fits : (reads.chunks.take i).flatten.length + reads.chunks[i].length ≤ capacity := by
        have parts : reads.content =
            (reads.chunks.take (i + 1)).flatten ++ (reads.chunks.drop (i + 1)).flatten := by
          rw [← List.flatten_append, List.take_append_drop, FifoReads.content]
        rw [parts, List.take_succ_eq_append_getElem inside, List.flatten_append,
          List.flatten_singleton, List.length_append, List.length_append] at room
        omega
      rw [after, ih (Nat.le_of_succ_le le), read, turn_data (Nat.le_of_lt short), if_pos (Or.inl short),
        Text.cString_of_plain noNul, if_pos fits, List.take_succ_eq_append_getElem inside,
        List.flatten_append, List.flatten_singleton]

theorem read_behind (le : reads.chunks.length ≤ n) :
    reads.read n = if reads.held then .again else .eof := by
  rw [FifoReads.read, List.getElem?_eq_none le]

/-- A loop that has ended stays ended. -/
theorem replaced_stays (ended : after capacity reads n = replaced temp) (le : n ≤ i) :
    after capacity reads i = replaced temp := by
  induction le with
  | refl => exact ended
  | step _ ih =>
      rw [after, ih]
      rfl

end FifoCopy

/-- The copy is right exactly if a writer still holds the FIFO, no read fills the array or brings a
NUL, and the temporary pipe takes the content. -/
theorem FifoReads.copied_iff (capacity : Nat) (reads : FifoReads) : reads.Copied capacity ↔
    reads.held = true ∧ (∀ chunk ∈ reads.chunks, chunk.length < userMsgLen ∧ '\x00' ∉ chunk) ∧
      reads.content.length ≤ capacity := by
  have every : reads.chunks.take reads.chunks.length = reads.chunks := List.take_length
  constructor
  · intro copied
    obtain ⟨n, ended⟩ := copied.ends
    obtain ⟨m, running, again⟩ := FifoCopy.replaced_turn ended
    have behind : reads.chunks.length ≤ m := by
      apply Nat.le_of_not_lt
      intro inside
      rw [FifoReads.read, List.getElem?_eq_getElem inside] at again
      cases again
    rw [FifoCopy.read_behind behind] at again
    have held : reads.held = true := by
      cases held : reads.held with
      | true => rfl
      | false => simp [held] at again
    have last : m = reads.chunks.length := by
      apply Nat.le_antisymm _ behind
      apply Nat.le_of_not_lt
      intro later
      obtain ⟨temp, before⟩ := FifoCopy.looping_before behind running
      obtain ⟨temp', next⟩ := FifoCopy.looping_before later running
      rw [FifoCopy.after, before, FifoCopy.read_behind (Nat.le_refl _), if_pos held] at next
      cases next
    obtain ⟨room, -, whole⟩ := FifoCopy.looping_within (last ▸ running) (Nat.le_refl _)
    rw [every] at whole
    exact ⟨held, whole rfl, room⟩
  · intro conditions
    obtain ⟨held, good, room⟩ := conditions
    have whole := FifoCopy.after_whole good room (Nat.le_refl _)
    have ended : FifoCopy.after capacity reads (reads.chunks.length + 1) = .replaced reads.content := by
      rw [FifoCopy.after, whole, FifoCopy.read_behind (Nat.le_refl _), if_pos held, every]
      rfl
    refine ⟨⟨_, ended⟩, ?_⟩
    intro n
    rcases Nat.lt_or_ge reads.chunks.length n with later | earlier
    · rw [FifoCopy.replaced_stays ended later]
      exact FifoCopy.noConfusion
    · rw [FifoCopy.after_whole good room earlier]
      exact FifoCopy.noConfusion

/-- Without a writer `read` returns 0, and the loop does not end. -/
theorem FifoReads.abandoned_loops : ¬ FifoReads.Copied ⟨["hi".toList], false, by decide⟩ 65536 := by
  intro copied
  obtain ⟨n, ended⟩ := copied.ends
  obtain ⟨m, -, again⟩ := FifoCopy.replaced_turn ended
  rcases m with _ | m
  · cases again
  · cases again

end NetProg
