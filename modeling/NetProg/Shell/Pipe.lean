import Mathlib.Algebra.Order.Group.Multiset
import Mathlib.Tactic.Abel
import NetProg.Lib.Outcome
import NetProg.Shell.Process

/-!
# The class `Pipe`

`shell/pipe.cpp`: two descriptor numbers, -1 when absent, that are copied freely.  After the
operations come their rules over the descriptor sum of the process: `Holds` says which part
of the sum a `Pipe` value stands for, and closing a held pipe takes exactly that part away.
-/

namespace NetProg

/-- `Pipe`: the read end `fd[in]` and the write end `fd[out]`. -/
structure Pipe where
  inFd : Fd
  outFd : Fd
  deriving DecidableEq, Repr

namespace Pipe

/-- `Pipe()` and `Pipe::clear` (`np_project2/shell/pipe.cpp:67`). -/
def cleared : Pipe := ⟨none, none⟩

/-- `Pipe::empty` (`np_project2/shell/pipe.cpp:86-88`). -/
def empty (p : Pipe) : Bool := p.inFd == none && p.outFd == none

/-- `Pipe::create` (`np_project2/shell/pipe.cpp:14-19`); the caller keeps the returned value. -/
def create (k : Proc) (owner : Owner) : Outcome (Pipe × Proc) :=
  match k.pipe2 owner with
  | none => .error (.exitFailure, k)
  | some (first, second, k') => .ok (⟨some first, some second⟩, k')

/-- `Pipe::openFile` (`np_project2/shell/pipe.cpp:21-39`) in mode `WRITE`. -/
def openFile (k : Proc) (name : Text) : Pipe × Proc :=
  let (fd, k') := k.openFile name
  (⟨none, fd⟩, k')

/-- `Pipe::closePipe` (`np_project2/shell/pipe.cpp:69-73`) up to its `clear()`, which the caller
stores. -/
def closePipe (p : Pipe) (k : Proc) : Proc := (k.close p.inFd).close p.outFd

/-- `Pipe::readEOF` (`np_project2/shell/pipe.cpp:95-100`): the reads in between leave the table
alone, and the numbers stay. -/
def readEOF (p : Pipe) (k : Proc) : Proc := (k.close p.outFd).close p.inFd

/-- `Pipe::closePipe` in a child, on its own table. -/
def closeIn (p : Pipe) (t : FdTable Desc) : FdTable Desc :=
  let t := p.inFd.elim t t.close
  p.outFd.elim t t.close

/-- `dup2` in a child; a descriptor that is not open leaves `new` as it was. -/
def dupIn (fd : Fd) (new : Nat) (t : FdTable Desc) : FdTable Desc :=
  fd.elim t (fun old => t.dup2 old new)

/-- `Pipe::read` (`np_project2/shell/pipe.cpp:75-78`), run by a child on the pipe before its
command. -/
def read (p : Pipe) (t : FdTable Desc) : FdTable Desc := p.closeIn (dupIn p.inFd 0 t)

/-- `Pipe::write` (`np_project2/shell/pipe.cpp:80-84`), run by a child on the pipe after its
command. -/
def write (p : Pipe) (writeErr : Bool) (t : FdTable Desc) : FdTable Desc :=
  let t := dupIn p.outFd 1 t
  let t := if writeErr then dupIn p.outFd 2 t else t
  p.closeIn t

/-- The pipe names a descriptor number. -/
def Uses (p : Pipe) (n : Nat) : Prop := p.inFd = some n ∨ p.outFd = some n

/-- The pipe uses none of the standard numbers. -/
def High (p : Pipe) : Prop := ∀ n < 3, ¬ p.Uses n

@[simp] theorem not_uses_cleared (n : Nat) : ¬ cleared.Uses n := by simp [cleared, Uses]

@[simp] theorem high_cleared : cleared.High := fun n _ => not_uses_cleared n

@[simp] theorem empty_iff (p : Pipe) : p.empty = true ↔ p = cleared := by
  obtain ⟨a, b⟩ := p
  simp [empty, cleared]

@[simp] theorem closePipe_cleared (k : Proc) : cleared.closePipe k = k := rfl

theorem get_closeIn (p : Pipe) (t : FdTable Desc) (n : Nat) (h : ¬ p.Uses n) :
    (p.closeIn t).get n = t.get n := by
  obtain ⟨a, b⟩ := p
  simp only [Uses, not_or] at h
  obtain ⟨ha, hb⟩ := h
  cases a <;> cases b <;> simp_all [closeIn, FdTable.close] <;> grind

theorem get_dupIn_ne (fd : Fd) {new n : Nat} (h : n ≠ new) (t : FdTable Desc) :
    (dupIn fd new t).get n = t.get n := by
  cases fd with
  | none => rfl
  | some old =>
      simp only [dupIn, Option.elim_some, FdTable.dup2]
      split <;> simp [h]

theorem get_dupIn_same {old new : Nat} {t : FdTable Desc} {d : Desc} (found : t.get old = some d) :
    (dupIn (some old) new t).get new = some d := by
  simp [dupIn, FdTable.dup2, found]

/-- A child whose previous pipe is open reads it on descriptor 0. -/
theorem child_stdin {prev curr : Pipe} {err : Bool} {t : FdTable Desc} {first : Nat} {d : Desc}
    (input : prev.inFd = some first) (found : t.get first = some d)
    (prevLow : ¬ prev.Uses 0) (currLow : ¬ curr.Uses 0) :
    (curr.write err (prev.read t)).get 0 = some d := by
  rw [write, get_closeIn _ _ _ currLow]
  have kept : (dupIn curr.outFd 1 (prev.read t)).get 0 = some d := by
    rw [get_dupIn_ne _ (by decide), read, get_closeIn _ _ _ prevLow, input]
    exact get_dupIn_same found
  cases err with
  | false => exact kept
  | true => rw [if_pos rfl, get_dupIn_ne _ (by decide), kept]

/-- A child without a previous pipe keeps descriptor 0. -/
theorem child_stdin_none {prev curr : Pipe} {err : Bool} {t : FdTable Desc}
    (input : prev.inFd = none) (prevLow : ¬ prev.Uses 0) (currLow : ¬ curr.Uses 0) :
    (curr.write err (prev.read t)).get 0 = t.get 0 := by
  rw [write, get_closeIn _ _ _ currLow]
  have kept : (dupIn curr.outFd 1 (prev.read t)).get 0 = t.get 0 := by
    rw [get_dupIn_ne _ (by decide), read, get_closeIn _ _ _ prevLow, input]
    rfl
  cases err with
  | false => exact kept
  | true => rw [if_pos rfl, get_dupIn_ne _ (by decide), kept]

/-- A child whose current pipe is open, under numbers of its own, writes it on descriptor 1. -/
theorem child_stdout {prev curr : Pipe} {err : Bool} {t : FdTable Desc} {second : Nat} {d : Desc}
    (output : curr.outFd = some second) (found : t.get second = some d)
    (apart : ¬ prev.Uses second) (high : second ≠ 0) (currLow : ¬ curr.Uses 1) :
    (curr.write err (prev.read t)).get 1 = some d := by
  rw [write, get_closeIn _ _ _ currLow]
  have kept : (dupIn curr.outFd 1 (prev.read t)).get 1 = some d := by
    rw [output]
    apply get_dupIn_same
    rw [read, get_closeIn _ _ _ apart, get_dupIn_ne _ high, found]
  cases err with
  | false => exact kept
  | true => rw [if_pos rfl, get_dupIn_ne _ (by decide), kept]

end Pipe

/-- A part of the descriptor sum of the process. -/
abbrev Held := Multiset (Nat × Desc)

/-- A descriptor variable stands for a part of the sum. -/
def HoldsFd : Fd → Held → Prop
  | none, part => part = 0
  | some fd, part => ∃ d, part = {(fd, d)}

/-- All descriptors of a part were opened for one user. -/
def Own (session : Nat) (part : Held) : Prop := ∀ entry ∈ part, entry.2.owner.IsFor session

theorem Own.zero (session : Nat) : Own session 0 := by simp [Own]

theorem Own.left {session : Nat} {first second : Held} (h : Own session (first + second)) :
    Own session first := fun entry member => h entry (Multiset.mem_add.mpr (Or.inl member))

theorem Own.right {session : Nat} {first second : Held} (h : Own session (first + second)) :
    Own session second := fun entry member => h entry (Multiset.mem_add.mpr (Or.inr member))

/-- The two ends of one pipe, opened for one owner. -/
def pipePart (first second pipe : Nat) (owner : Owner) : Held :=
  {(first, ⟨.pipeIn pipe, owner⟩)} + {(second, ⟨.pipeOut pipe, owner⟩)}

namespace Proc

/-- Closing a held descriptor takes its part out of the sum. -/
theorem close_held {k : Proc} {fd : Fd} {part rest : Held}
    (split : k.fds.opens = part + rest) (holds : HoldsFd fd part) (own : Own k.serving part) :
    (k.close fd).fds.opens = rest ∧ Proc.Steps k (k.close fd) [] := by
  cases fd with
  | none =>
      change part = 0 at holds
      subst holds
      exact ⟨by simpa [close] using split, Steps.refl k⟩
  | some n =>
      obtain ⟨d, rfl⟩ := holds
      rw [Multiset.singleton_add] at split
      refine ⟨FdTable.opens_close split, ?_⟩
      have found : k.fds.get n = some d := by
        rw [← FdTable.mem_opens, split]
        exact Multiset.mem_cons_self _ _
      refine Steps.single (.close k.serving n (k.fds.get n)) rfl rfl rfl
        (Nat.le_refl _) rfl ?_
      simp only [found, Event.Proper]
      exact own (n, d) (Multiset.mem_singleton_self _)

/-- Closing a number that is free changes nothing. -/
theorem close_free {k : Proc} {fd : Fd} (free : ∀ n, fd = some n → k.fds.get n = none) :
    (k.close fd).fds.opens = k.fds.opens ∧ Proc.Steps k (k.close fd) [] := by
  cases fd with
  | none => exact ⟨rfl, Steps.refl k⟩
  | some n =>
      refine ⟨FdTable.opens_close_free (free n rfl), ?_⟩
      refine Steps.single (.close k.serving n (k.fds.get n)) rfl rfl rfl
        (Nat.le_refl _) rfl ?_
      simp [free n rfl, Event.Proper]

@[simp] theorem close_nextPid (k : Proc) (fd : Fd) : (k.close fd).nextPid = k.nextPid := by
  cases fd <;> rfl

@[simp] theorem close_nextPipe (k : Proc) (fd : Fd) : (k.close fd).nextPipe = k.nextPipe := by
  cases fd <;> rfl

/-- Opening a descriptor adds it to the sum; -1 stands for nothing. -/
theorem openObject_held (k : Proc) (object : Object) :
    ∃ part, HoldsFd (k.openObject object).1 part ∧ Own k.serving part ∧
      (k.openObject object).2.fds.opens = part + k.fds.opens ∧
      Proc.Steps k (k.openObject object).2 [] := by
  unfold openObject
  split
  · refine ⟨{(k.fds.lowest, ⟨object, .user k.serving⟩)}, ⟨_, rfl⟩, ?_, ?_, ?_⟩
    · intro entry member
      rw [Multiset.mem_singleton.mp member]
      rfl
    · simpa using FdTable.opens_insert k.fds ⟨object, .user k.serving⟩
    · exact Steps.quiet rfl rfl rfl (Nat.le_refl _) rfl
  · exact ⟨0, rfl, Own.zero _, by simp, Steps.refl k⟩

theorem openFile_held (k : Proc) (name : Text) :
    ∃ part, HoldsFd (k.openFile name).1 part ∧ Own k.serving part ∧
      (k.openFile name).2.fds.opens = part + k.fds.opens ∧
      Proc.Steps k (k.openFile name).2 [] := by
  unfold openFile
  split
  · exact openObject_held k _
  · exact ⟨0, rfl, Own.zero _, by simp, Steps.refl k⟩

theorem dup_held (k : Proc) (fd : Fd) :
    ∃ part, HoldsFd (k.dup fd).1 part ∧ Own k.serving part ∧
      (k.dup fd).2.fds.opens = part + k.fds.opens ∧ Proc.Steps k (k.dup fd).2 [] := by
  unfold dup
  split
  · exact ⟨0, rfl, Own.zero _, by simp, Steps.refl k⟩
  · exact openObject_held k _

end Proc

namespace Pipe

/-- A `Pipe` value stands for a part of the descriptor sum: one entry for each number in it. -/
def Holds (p : Pipe) (part : Held) : Prop :=
  ∃ a b, HoldsFd p.inFd a ∧ HoldsFd p.outFd b ∧ part = a + b

/-- None of the numbers in the pipe is open. -/
def Gone (p : Pipe) (t : FdTable Desc) : Prop := ∀ n, p.Uses n → t.get n = none

theorem holds_cleared : cleared.Holds 0 := ⟨0, 0, rfl, rfl, rfl⟩

theorem holds_pipePart (first second pipe : Nat) (owner : Owner) :
    (⟨some first, some second⟩ : Pipe).Holds (pipePart first second pipe owner) :=
  ⟨_, _, ⟨_, rfl⟩, ⟨_, rfl⟩, rfl⟩

theorem holds_out {fd : Fd} {part : Held} (h : HoldsFd fd part) :
    (⟨none, fd⟩ : Pipe).Holds part := ⟨0, part, rfl, h, by simp⟩

theorem holds_in {fd : Fd} {part : Held} (h : HoldsFd fd part) :
    (⟨fd, none⟩ : Pipe).Holds part := ⟨part, 0, h, rfl, by simp⟩

theorem HoldsFd.mem_iff {fd : Fd} {part : Held} (h : HoldsFd fd part) (n : Nat) :
    (∃ d, (n, d) ∈ part) ↔ fd = some n := by
  cases fd with
  | none =>
      change part = 0 at h
      simp [h]
  | some m =>
      obtain ⟨d, rfl⟩ := h
      simp [eq_comm]

/-- The numbers in a pipe are those of the part it stands for. -/
theorem Holds.uses_iff {p : Pipe} {part : Held} (h : p.Holds part) (n : Nat) :
    p.Uses n ↔ ∃ d, (n, d) ∈ part := by
  obtain ⟨a, b, ha, hb, rfl⟩ := h
  simp only [Uses, Multiset.mem_add, exists_or, HoldsFd.mem_iff ha, HoldsFd.mem_iff hb]

theorem HoldsFd.card_le {fd : Fd} {part : Held} (h : HoldsFd fd part) : part.card ≤ 1 := by
  cases fd with
  | none =>
      change part = 0 at h
      simp [h]
  | some n =>
      obtain ⟨d, rfl⟩ := h
      simp

theorem Holds.card_le {p : Pipe} {part : Held} (h : p.Holds part) : part.card ≤ 2 := by
  obtain ⟨a, b, ha, hb, rfl⟩ := h
  have left := HoldsFd.card_le ha
  have right := HoldsFd.card_le hb
  rw [Multiset.card_add]
  omega

/-- Closing a held pipe takes its part out of the sum. -/
theorem closePipe_held {p : Pipe} {k : Proc} {part rest : Held}
    (split : k.fds.opens = part + rest) (holds : p.Holds part) (own : Own k.serving part) :
    (p.closePipe k).fds.opens = rest ∧ Proc.Steps k (p.closePipe k) [] := by
  obtain ⟨a, b, ha, hb, rfl⟩ := holds
  rw [add_assoc] at split
  obtain ⟨split', steps⟩ := Proc.close_held split ha own.left
  obtain ⟨split'', steps'⟩ := Proc.close_held split' hb (steps.serving ▸ own.right)
  exact ⟨split'', steps.trans steps'⟩

/-- After that its numbers are free. -/
theorem gone_of_closed {p : Pipe} {part rest : Held} {t t' : FdTable Desc}
    (split : t.opens = part + rest) (holds : p.Holds part) (closed : t'.opens = rest) :
    p.Gone t' := by
  intro n uses
  obtain ⟨d, member⟩ := (holds.uses_iff n).mp uses
  cases found : t'.get n with
  | none => rfl
  | some d' =>
      rw [← FdTable.mem_opens, closed] at found
      exact absurd found (FdTable.parts_disjoint split member)

/-- Closing a stale copy whose numbers are free changes nothing. -/
theorem closePipe_gone {p : Pipe} {k : Proc} (gone : p.Gone k.fds) :
    (p.closePipe k).fds.opens = k.fds.opens ∧ Proc.Steps k (p.closePipe k) [] := by
  have first : ∀ n, p.inFd = some n → k.fds.get n = none := fun n used => gone n (Or.inl used)
  obtain ⟨same, steps⟩ := Proc.close_free first
  have still : ∀ n, p.outFd = some n → (k.close p.inFd).fds.get n = none := by
    intro n used
    cases found : (k.close p.inFd).fds.get n with
    | none => rfl
    | some d =>
        rw [← FdTable.mem_opens, same, FdTable.mem_opens, gone n (Or.inr used)] at found
        cases found
  obtain ⟨same', steps'⟩ := Proc.close_free still
  exact ⟨same'.trans same, steps.trans steps'⟩

/-- `readEOF` closes both ends as `closePipe` does. -/
theorem readEOF_held {p : Pipe} {k : Proc} {part rest : Held}
    (split : k.fds.opens = part + rest) (holds : p.Holds part) (own : Own k.serving part) :
    (p.readEOF k).fds.opens = rest ∧ Proc.Steps k (p.readEOF k) [] := by
  obtain ⟨a, b, ha, hb, rfl⟩ := holds
  rw [add_assoc, add_left_comm] at split
  obtain ⟨split', steps⟩ := Proc.close_held split hb own.right
  obtain ⟨split'', steps'⟩ := Proc.close_held split' ha (steps.serving ▸ own.left)
  exact ⟨split'', steps.trans steps'⟩

/-- `create` adds the two ends of a new pipe, or finds no number left. -/
theorem create_held (k : Proc) (owner : Owner) :
    Sat (create k owner)
      (fun made => ∃ first second,
        made.1 = ⟨some first, some second⟩ ∧
        made.2.fds.opens = pipePart first second k.nextPipe owner + k.fds.opens ∧
        made.2.nextPipe = k.nextPipe + 1 ∧ Proc.Steps k made.2 [])
      (fun stopped => stopped = (.exitFailure, k) ∧ k.limit ≤ k.fds.opens.card + 1) := by
  unfold create Proc.pipe2
  split
  · rename_i failed
    simp only [ite_eq_right_iff, reduceCtorEq, imp_false] at failed
    refine ⟨rfl, ?_⟩
    have first := FdTable.lowest_le_card k.fds
    have second := FdTable.lowest_le_card (k.fds.insert ⟨.pipeIn k.nextPipe, owner⟩)
    rw [FdTable.opens_insert, Multiset.card_cons] at second
    omega
  · rename_i first second k' made
    simp only [Option.ite_none_right_eq_some, Option.some.injEq, Prod.mk.injEq] at made
    obtain ⟨-, rfl, rfl, rfl⟩ := made
    refine ⟨_, _, rfl, ?_, rfl, ?_⟩
    · rw [FdTable.opens_insert, FdTable.opens_insert]
      simp only [pipePart, ← Multiset.singleton_add]
      abel
    · exact Proc.Steps.quiet rfl rfl rfl (Nat.le_succ _) rfl

/-- `create` changes the table and the count of pipes only. -/
theorem create_rest (k : Proc) (owner : Owner) :
    Sat (create k owner)
      (fun made => made.2 = { k with fds := made.2.fds, nextPipe := k.nextPipe + 1 })
      (fun _ => True) := by
  unfold create Proc.pipe2
  split
  · trivial
  · rename_i first second k' made
    simp only [Option.ite_none_right_eq_some, Option.some.injEq, Prod.mk.injEq] at made
    obtain ⟨-, rfl, rfl, rfl⟩ := made
    rfl

/-- `openFile` adds at most the write end. -/
theorem openFile_held (k : Proc) (name : Text) :
    ∃ part, (openFile k name).1.Holds part ∧ Own k.serving part ∧
      (openFile k name).2.fds.opens = part + k.fds.opens ∧
      Proc.Steps k (openFile k name).2 [] := by
  obtain ⟨part, holds, own, opens, steps⟩ := Proc.openFile_held k name
  exact ⟨part, holds_out holds, own, opens, steps⟩

end Pipe

end NetProg
