import NetProg.Lib.FinSum
import NetProg.Shell.RunShellSpec

/-!
# The life of a slot

`numberPipeList` never gives a slot back: `runShell` copies the front pipe out and closes the
copy, so a slot that was used once keeps numbers that are no longer its own.  `Slots` follows
each slot from fresh over pending to spent, driven by the command lines alone, and refuses a
line that touches a spent slot.  As long as no line is refused, `RingAgrees` ties every slot of
the ring to the part of the descriptor sum that it stands for.
-/

namespace NetProg

/-- `fresh`: never written.  `pending line`: holds the pipe that command line number `line`
created.  `spent`: that pipe was closed, its numbers are still there. -/
inductive Life where
  | fresh
  | pending (line : Nat)
  | spent
  deriving DecidableEq, Repr

/-- A life for each slot, with the head of the ring. -/
abbrev Slots := CircularBuffer Life

namespace Slots

def init : Slots := .fresh .fresh

/-- A line takes the front slot; with `<i` the slot stays as it is. -/
def take (cl : NpCommandLine) (b : Slots) : Option Slots :=
  if 0 < cl.readUid then some b
  else
    match b.front with
    | .fresh => some b
    | .pending _ => some (b.set 0 .spent)
    | .spent => none

/-- Line `number` writes into the slot it aims at. -/
def aim (number : Nat) (b : Slots) : Option Int → Option Slots
  | none => some b
  | some n =>
      match b.get (sizeT n) with
      | .fresh => some (b.set (sizeT n) (.pending number))
      | .pending _ => some b
      | .spent => none

/-- Command line `number` of a shell. -/
def line (number : Nat) (cl : NpCommandLine) (b : Slots) : Option Slots :=
  (take cl b.next).bind (fun taken => aim number taken cl.target)

@[simp] theorem take_head {cl : NpCommandLine} {b taken : Slots} (h : take cl b = some taken) :
    taken.head = b.head := by
  unfold take at h
  grind [CircularBuffer.set_head]

/-- No operation makes a slot fresh again. -/
theorem set_used {b : Slots} {i : Fin circularBufferSize} (n : Nat) {life : Life}
    (used : life ≠ .fresh) (h : b.buffer i ≠ .fresh) : (b.set n life).buffer i ≠ .fresh := by
  rw [CircularBuffer.set_buffer, Function.update_apply]
  split
  · exact used
  · exact h

theorem take_used {cl : NpCommandLine} {b taken : Slots} (fits : take cl b = some taken)
    {i : Fin circularBufferSize} (h : b.buffer i ≠ .fresh) : taken.buffer i ≠ .fresh := by
  unfold take at fits
  split at fits
  · cases fits
    exact h
  · split at fits
    · cases fits
      exact h
    · cases fits
      exact set_used 0 (by simp) h
    · cases fits

theorem aim_used {number : Nat} {b after : Slots} {target : Option Int}
    (fits : aim number b target = some after) {i : Fin circularBufferSize}
    (h : b.buffer i ≠ .fresh) : after.buffer i ≠ .fresh := by
  cases target with
  | none =>
      cases fits
      exact h
  | some n =>
      simp only [aim] at fits
      split at fits
      · cases fits
        exact set_used _ (by simp) h
      · cases fits
        exact h
      · cases fits

/-- The front slot of a line that fits is not spent. -/
theorem take_usable {cl : NpCommandLine} {b taken : Slots} (h : take cl b = some taken)
    (off : ¬ 0 < cl.readUid) : b.front ≠ .spent := by
  intro spent
  rw [take, if_neg off, spent] at h
  cases h

/-- The slot that a line aims at is pending after it. -/
theorem aim_pending {number : Nat} {b after : Slots} {n : Int}
    (h : aim number b (some n) = some after) :
    ∃ line, after.get (sizeT n) = .pending line := by
  simp only [aim] at h
  cases life : b.get (sizeT n) with
  | fresh =>
      rw [life] at h
      cases h
      exact ⟨number, CircularBuffer.get_set_same b _ _⟩
  | pending line =>
      rw [life] at h
      cases h
      exact ⟨line, life⟩
  | spent =>
      rw [life] at h
      cases h

end Slots

namespace CircularBuffer

variable {T : Type}

theorem slot_zero (b : CircularBuffer T) : b.slot 0 = b.headSlot := by
  have bound := b.bounded
  apply Fin.ext
  simp only [slot, headSlot, circularBufferSize] at bound ⊢
  omega

/-- Two rings with one head address the same slots. -/
theorem slot_congr {U : Type} {b : CircularBuffer T} {b' : CircularBuffer U}
    (same : b.head = b'.head) (n : Nat) : b.slot n = b'.slot n := by
  simp only [slot, same]

theorem headSlot_congr {U : Type} {b : CircularBuffer T} {b' : CircularBuffer U}
    (same : b.head = b'.head) : b.headSlot = b'.headSlot := by
  simp only [headSlot, same]

end CircularBuffer

/-- A slot's pipe, its life and its part of the descriptor sum. -/
inductive SlotAgrees (session : Nat) (made : Nat → Nat → Prop) : Pipe → Life → Held → Prop
  | fresh : SlotAgrees session made .cleared .fresh 0
  | pending (line first second pipe : Nat) (maker : made line pipe) :
      SlotAgrees session made ⟨some first, some second⟩ (.pending line)
        (pipePart first second pipe (.user session))
  | spent (p : Pipe) (full : p ≠ .cleared) (high : p.High) : SlotAgrees session made p .spent 0

/-- The pipe whose read end a `Pipe` value names. -/
def Pipe.leadsTo (p : Pipe) (fds : FdTable Desc) : Option Nat :=
  match (p.inFd.bind fds.get).map Desc.object with
  | some (.pipeIn pipe) => some pipe
  | _ => none

theorem Pipe.leadsTo_pipePart {fds : FdTable Desc} {first second pipe : Nat} {owner : Owner}
    {rest : Held} (split : fds.opens = pipePart first second pipe owner + rest) :
    Pipe.leadsTo ⟨some first, some second⟩ fds = some pipe := by
  have found : fds.get first = some ⟨.pipeIn pipe, owner⟩ :=
    FdTable.get_of_mem_part split (by simp [pipePart])
  rw [Pipe.leadsTo, Option.bind_some, found]
  rfl

/-- The pipes made so far and `new`, which command line `number` made by a `pipe2` whose count lies
between `lo` and `hi`. -/
def madeBy (made : Nat → Nat → Prop) (number lo hi : Nat) (new : Option Nat) : Nat → Nat → Prop :=
  fun line pipe => made line pipe ∨ line = number ∧ new = some pipe ∧ lo ≤ pipe ∧ pipe < hi

/-- Every slot agrees with its life; `made line pipe` says that command line `line` created that
pipe. -/
structure RingAgrees (session : Nat) (made : Nat → Nat → Prop) (ring : CircularBuffer Pipe)
    (slots : Slots) (parts : Fin circularBufferSize → Held) : Prop where
  head : ring.head = slots.head
  slot : ∀ i, SlotAgrees session made (ring.buffer i) (slots.buffer i) (parts i)

namespace SlotAgrees

variable {session : Nat} {made made' : Nat → Nat → Prop} {p : Pipe} {life : Life} {part : Held}

theorem mono (h : SlotAgrees session made p life part)
    (more : ∀ line pipe, made line pipe → made' line pipe) :
    SlotAgrees session made' p life part := by
  cases h with
  | fresh => exact .fresh
  | pending line first second pipe maker => exact .pending line first second pipe (more _ _ maker)
  | spent p full high => exact .spent p full high

theorem own (h : SlotAgrees session made p life part) : Own session part := by
  cases h with
  | pending line first second pipe maker => exact own_pipePart first second pipe session
  | _ => exact Own.zero session

theorem card_le (h : SlotAgrees session made p life part) : part.card ≤ 2 := by
  cases h with
  | pending line first second pipe maker => simp [pipePart]
  | _ => simp

/-- Only a spent slot does not hold its part. -/
theorem holds (h : SlotAgrees session made p life part) (usable : life ≠ .spent) :
    p.Holds part := by
  cases h with
  | fresh => exact Pipe.holds_cleared
  | pending line first second pipe maker => exact Pipe.holds_pipePart first second pipe _
  | spent p full high => exact absurd rfl usable

theorem high {t : FdTable Desc} {rest : Held} (h : SlotAgrees session made p life part)
    (split : t.opens = part + rest) (low : LowOpen rest) : p.High := by
  cases h with
  | fresh => exact Pipe.high_cleared
  | pending line first second pipe maker =>
      exact (Pipe.holds_pipePart first second pipe _).high split low
  | spent p full high => exact high

theorem part_zero (h : SlotAgrees session made p .fresh part) : part = 0 := by
  cases h
  rfl

theorem cleared_iff (h : SlotAgrees session made p life part) : p = .cleared ↔ life = .fresh := by
  cases h with
  | fresh => simp
  | pending line first second pipe maker => simp [Pipe.cleared]
  | spent p full high => simp [full]

end SlotAgrees

namespace RingAgrees

variable {session : Nat} {made made' : Nat → Nat → Prop} {ring : CircularBuffer Pipe}
  {slots taken : Slots} {parts : Fin circularBufferSize → Held}

theorem mono (h : RingAgrees session made ring slots parts)
    (more : ∀ line pipe, made line pipe → made' line pipe) :
    RingAgrees session made' ring slots parts :=
  ⟨h.head, fun i => (h.slot i).mono more⟩

theorem init (session : Nat) (made : Nat → Nat → Prop) :
    RingAgrees session made (.fresh .cleared) Slots.init (fun _ => 0) :=
  ⟨rfl, fun _ => .fresh⟩

theorem next (h : RingAgrees session made ring slots parts) :
    RingAgrees session made ring.next slots.next parts :=
  ⟨by simp only [CircularBuffer.next_head, h.head], h.slot⟩

/-- Each slot has at most one pending pipe. -/
theorem card_le (h : RingAgrees session made ring slots parts) :
    (∑ i, parts i).card ≤ 2 * 1024 := by
  have all := card_sum_le parts 2 (fun i => (h.slot i).card_le)
  have size : Fintype.card (Fin circularBufferSize) = 1024 := Fintype.card_fin _
  omega

theorem high {t : FdTable Desc} {rest : Held} (h : RingAgrees session made ring slots parts)
    (split : t.opens = (∑ i, parts i) + rest) (low : LowOpen rest) : ring.High := by
  intro i
  rw [sum_split parts i, add_assoc] at split
  exact (h.slot i).high split low.mono

/-- One slot replaced. -/
theorem update (h : RingAgrees session made ring slots parts) (n : Nat) {p : Pipe} {life : Life}
    {part : Held} (new : SlotAgrees session made p life part) :
    RingAgrees session made (ring.set n p) (slots.set n life)
      (Function.update parts (ring.slot n) part) := by
  refine ⟨h.head, fun i => ?_⟩
  simp only [CircularBuffer.set_buffer, ← CircularBuffer.slot_congr h.head]
  by_cases same : i = ring.slot n
  · subst same
    simpa using new
  · simpa [same] using h.slot i

/-- A new life for a slot whose pipe stays. -/
theorem relabel (h : RingAgrees session made ring slots parts) (n : Nat) {life : Life}
    {part : Held} (new : SlotAgrees session made (ring.get n) life part) :
    RingAgrees session made ring (slots.set n life)
      (Function.update parts (ring.slot n) part) := by
  refine ⟨h.head, fun i => ?_⟩
  simp only [CircularBuffer.set_buffer, ← CircularBuffer.slot_congr h.head]
  by_cases same : i = ring.slot n
  · subst same
    simpa [CircularBuffer.get] using new
  · simpa [same] using h.slot i

/-- Taking the front slot: its part leaves the ring unless `<i` bypasses it. -/
theorem take (h : RingAgrees session made ring slots parts) {cl : NpCommandLine}
    (fits : Slots.take cl slots = some taken) {t : FdTable Desc} {rest : Held}
    (split : t.opens = (∑ i, parts i) + rest) (low : LowOpen rest) :
    ∃ parts' others, (¬ 0 < cl.readUid → ring.front.Holds (parts (ring.slot 0))) ∧
      (∑ i, parts i) = parts (ring.slot 0) + others ∧
      (∑ i, parts' i) = bypassed cl (parts (ring.slot 0)) + others ∧
      RingAgrees session made ring taken parts' := by
  have ringHigh := h.high split low
  have slot := h.slot (ring.slot 0)
  have lifeAt : slots.front = slots.buffer (ring.slot 0) := by
    rw [CircularBuffer.front_eq, CircularBuffer.slot_congr h.head, CircularBuffer.slot_zero]
  have pipeAt : ring.front = ring.get 0 := by
    rw [CircularBuffer.front_eq, CircularBuffer.get, CircularBuffer.slot_zero]
  have sum := sum_split parts (ring.slot 0)
  unfold Slots.take at fits
  by_cases used : 0 < cl.readUid
  · rw [if_pos used] at fits
    cases fits
    refine ⟨parts, _, fun off => absurd used off, sum, ?_, h⟩
    rw [bypassed, if_pos used]
    exact sum
  · rw [if_neg used, lifeAt] at fits
    simp only [bypassed, if_neg used]
    cases life : slots.buffer (ring.slot 0) with
    | fresh =>
        rw [life] at fits slot
        cases fits
        refine ⟨parts, _, fun _ => pipeAt ▸ slot.holds (by simp), sum, ?_, h⟩
        rw [sum, slot.part_zero]
    | pending line =>
        rw [life] at fits slot
        cases fits
        have full : ring.get 0 ≠ .cleared := by
          intro free
          simpa using slot.cleared_iff.mp free
        refine ⟨Function.update parts (ring.slot 0) 0, _,
          fun _ => pipeAt ▸ slot.holds (by simp), sum, sum_update parts _ 0, ?_⟩
        exact h.relabel 0 (.spent _ full (ringHigh _))
    | spent =>
        rw [life] at fits
        cases fits

/-- Aiming at a slot: the new pipe of the line joins the ring. -/
theorem aim {new : CmdHandler} {lo hi : Nat} {fds : FdTable Desc} {target : Option Int}
    {created eol others : Held} (h : RingAgrees session made ring slots parts) (number : Nat)
    (ended : Ended session ring lo hi fds new target created eol)
    (split : fds.opens = created + others)
    (fits : Slots.aim number slots target = some taken) :
    ∃ parts', (∑ i, parts' i) = created + ∑ i, parts i ∧
      RingAgrees session (madeBy made number lo hi (new.currPipe.leadsTo fds)) new.numberPipeList
        taken parts' := by
  cases ended with
  | plain eol curr same holds own =>
      cases fits
      exact ⟨parts, (zero_add _).symm, same ▸ h.mono (fun _ _ => Or.inl)⟩
  | slotOld n full curr same gone =>
      have slot := h.slot (ring.slot (sizeT n))
      have lifeAt : slots.get (sizeT n) = slots.buffer (ring.slot (sizeT n)) := by
        rw [CircularBuffer.get, CircularBuffer.slot_congr h.head]
      have used := mt slot.cleared_iff.mpr full
      simp only [Slots.aim, lifeAt] at fits
      cases life : slots.buffer (ring.slot (sizeT n)) with
      | fresh => exact absurd life used
      | pending line =>
          rw [life] at fits
          cases fits
          exact ⟨parts, (zero_add _).symm, same ▸ h.mono (fun _ _ => Or.inl)⟩
      | spent =>
          rw [life] at fits
          cases fits
  | slotNew n first second pipe free curr changed above below gone =>
      have slot := h.slot (ring.slot (sizeT n))
      have lifeAt : slots.get (sizeT n) = .fresh := by
        rw [CircularBuffer.get, CircularBuffer.slot_congr h.head.symm]
        exact slot.cleared_iff.mp free
      simp only [Slots.aim, lifeAt] at fits
      cases fits
      have maker : madeBy made number lo hi (new.currPipe.leadsTo fds) number pipe :=
        Or.inr ⟨rfl, curr ▸ Pipe.leadsTo_pipePart split, above, below⟩
      refine ⟨Function.update parts (ring.slot (sizeT n))
        (pipePart first second pipe (.user session)), ?_, ?_⟩
      · rw [slot.cleared_iff.mp free] at slot
        rw [sum_update, sum_split parts (ring.slot (sizeT n)), slot.part_zero, zero_add]
      · rw [changed]
        exact (h.mono (fun _ _ => Or.inl)).update _ (.pending number first second pipe maker)

end RingAgrees

/-- What the first command of a line finds on descriptor 0, by the life of the front slot: the
pipe of the line that made it, or the standard input `low` knows. -/
def StdinFrom (session : Nat) (made : Nat → Nat → Prop) (low : Held) (child : Child) :
    Life → Prop
  | .fresh => ∀ d, (0, d) ∈ low → child.fds.get 0 = some d
  | .pending line =>
      ∃ pipe, made line pipe ∧ child.fds.get 0 = some ⟨.pipeIn pipe, .user session⟩
  | .spent => False

/-- The last command of a line writes the pipe of the line that made the slot's pipe. -/
def StdoutTo (session : Nat) (made : Nat → Nat → Prop) (child : Child) (life : Life) : Prop :=
  ∃ line pipe, life = .pending line ∧ made line pipe ∧
    child.fds.get 1 = some ⟨.pipeOut pipe, .user session⟩

/-- The same for a slot and the command that reads its pipe. -/
theorem SlotAgrees.stdin {session : Nat} {made : Nat → Nat → Prop} {p : Pipe} {life : Life}
    {part low : Held} {child : Child} (h : SlotAgrees session made p life part)
    (reads : ShellState.Reads p part low child) (usable : life ≠ .spent) :
    StdinFrom session made low child life := by
  cases h with
  | fresh => exact reads.standard rfl
  | pending line first second pipe maker =>
      exact ⟨pipe, maker, reads.input first _ rfl (by simp [pipePart])⟩
  | spent p full high => exact absurd rfl usable

/-- How the members `eol` and `currPipe` stand after a line. -/
inductive EolAfter (session : Nat) (fds : FdTable Desc) (new : CmdHandler) :
    Option Int → Held → Prop
  | leaked (eol : Held) (curr : new.currPipe = .cleared) (holds : new.eol.Holds eol)
      (own : Own session eol) : EolAfter session fds new none eol
  | closed (number : Int) (curr : new.currPipe = new.numberPipeList.get (sizeT number))
      (gone : new.eol.Gone fds) : EolAfter session fds new (some number) 0

theorem EolAfter.card_le {session : Nat} {fds : FdTable Desc} {new : CmdHandler}
    {target : Option Int} {eol : Held} (h : EolAfter session fds new target eol) :
    eol.card ≤ 2 := by
  cases h with
  | leaked _ curr holds own => exact holds.card_le
  | closed number curr gone => simp

theorem Ended.eolAfter {session lo hi : Nat} {ring : CircularBuffer Pipe} {fds : FdTable Desc}
    {new : CmdHandler} {target : Option Int} {created eol : Held}
    (h : Ended session ring lo hi fds new target created eol) :
    EolAfter session fds new target eol := by
  cases h with
  | plain eol curr same holds own => exact .leaked eol curr holds own
  | slotOld n full curr same gone => exact .closed n (by rw [curr, same]) gone
  | slotNew n first second pipe free curr changed above below gone =>
      exact .closed n (by rw [curr, changed, CircularBuffer.get_set_same]) gone

namespace ShellState

variable {σ : Type} {undef : Prop} {calls : UserPipeCalls σ} {session : Nat}
  {Mail : σ → Held → Prop} {line : Text} {cl : NpCommandLine}

/-- What is known after a line that fits the lives of the slots. -/
def LineAgrees (session : Nat) (Mail : σ → Held → Prop) (made : Nat → Nat → Prop) (number : Nat)
    (cl : NpCommandLine) (slots after : Slots) (s : ShellState σ) (rest : Held)
    (r : ShellState σ) : Prop :=
  ∃ mail' parts' eol children, Mail r.server mail' ∧
    r.proc.fds.opens = (∑ i, parts' i) + (eol + (mail' + rest)) ∧
    RingAgrees session (madeBy made number s.proc.nextPipe r.proc.nextPipe
        (r.handler.currPipe.leadsTo r.proc.fds)) r.handler.numberPipeList after parts' ∧
    EolAfter session r.proc.fds r.handler cl.target eol ∧
    r.handler.prevPipe = .cleared ∧ r.handler.running = s.handler.running ∧
    Proc.Steps s.proc r.proc children ∧
    (∃ child, children.head? = some child ∧
      (¬ 0 < cl.readUid → StdinFrom session made rest child slots.next.front)) ∧
    (∀ n, cl.target = some n → ∃ child, children.getLast? = some child ∧
      StdoutTo session (madeBy made number s.proc.nextPipe r.proc.nextPipe
        (r.handler.currPipe.leadsTo r.proc.fds)) child (after.get (sizeT n)))

/-- The rule for a line that fits. -/
theorem runCommandLine_agrees (law : calls.Lawful undef session Mail) (shape : Shape cl.npCommands)
    (used : cl.NoSkippedUserPipe) {made : Nat → Nat → Prop} {number : Nat} {slots after : Slots}
    {s : ShellState σ} {parts : Fin circularBufferSize → Held} {mail rest : Held}
    (serving : s.proc.serving = session) (mailed : Mail s.server mail)
    (prevCleared : s.handler.prevPipe = .cleared)
    (agrees : RingAgrees session made s.handler.numberPipeList slots parts)
    (fits : Slots.line number cl slots = some after) (low : LowOpen rest)
    (split : s.proc.fds.opens = (∑ i, parts i) + (mail + rest)) :
    Sat (s.runCommandLine calls line cl)
      (LineAgrees session Mail made number cl slots after s rest)
      (Stopped undef s.proc (s.proc.fds.opens.card + 2 * cl.npCommands.count .userPipe + 5)) := by
  obtain ⟨taken, fitsTake, fitsAim⟩ := Option.bind_eq_some_iff.mp fits
  have ringHigh := agrees.high split low.mono
  have slot := agrees.next.slot (s.handler.numberPipeList.next.slot 0)
  obtain ⟨parts₁, others, holds, sum, sum₁, agrees₁⟩ :=
    agrees.next.take fitsTake split low.mono
  have split' : s.proc.fds.opens =
      parts (s.handler.numberPipeList.next.slot 0) + (mail + (others + rest)) := by
    rw [split, sum]
    abel
  refine Sat.mono (runCommandLine_spec law shape used serving mailed prevCleared holds slot.own
    low.mono ringHigh split') ?_ (fun _ h => h)
  rintro r ⟨mail', created, eol, children, mailed', opens, ended, cleared, running, steps,
    ⟨child, first, reads⟩, last⟩
  obtain ⟨parts₂, sum₂, agrees₂⟩ := agrees₁.aim number ended opens fitsAim
  refine ⟨mail', parts₂, eol, children, mailed', ?_, agrees₂, ended.eolAfter, cleared,
    running, steps, ⟨child, first, ?_⟩, ?_⟩
  · rw [opens, sum₂, sum₁]
    abel
  · intro off
    have usable := Slots.take_usable fitsTake off
    rw [CircularBuffer.front_eq, ← CircularBuffer.slot_zero,
      ← CircularBuffer.slot_congr agrees.next.head] at usable ⊢
    rw [CircularBuffer.front_eq, ← CircularBuffer.slot_zero] at reads
    exact slot.stdin (reads off).mono usable
  · intro n target
    rw [target] at fitsAim
    obtain ⟨line, life⟩ := Slots.aim_pending fitsAim
    have curr : r.handler.currPipe = r.handler.numberPipeList.get (sizeT n) := by
      have after := ended.eolAfter
      rw [target] at after
      cases after
      assumption
    obtain ⟨child, found, output⟩ := last (by simp [target])
    refine ⟨child, found, line, ?_⟩
    have written := agrees₂.slot (r.handler.numberPipeList.slot (sizeT n))
    have inside := sum_split parts₂ (r.handler.numberPipeList.slot (sizeT n))
    have lifeAt := life
    rw [CircularBuffer.get, ← CircularBuffer.slot_congr agrees₂.head] at lifeAt
    rw [lifeAt] at written
    rw [CircularBuffer.get] at curr
    rw [← curr] at written
    generalize parts₂ (r.handler.numberPipeList.slot (sizeT n)) = part at written inside
    generalize r.handler.currPipe = p at written output
    cases written with
    | pending _ first second pipe' maker =>
        refine ⟨pipe', life, maker, output second _ rfl ?_⟩
        rw [← add_assoc (bypassed cl _), ← sum₁, ← add_assoc, ← sum₂, inside]
        simp [pipePart]

end ShellState

end NetProg
