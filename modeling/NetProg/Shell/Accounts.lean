import Mathlib.Algebra.BigOperators.Ring.Finset
import NetProg.Shell.SlotLife

/-!
# Accounts of one shell

The command lines of a shell, and `exit` among them, say which numbered pipes the shell holds: an
`Account` follows the lives of the slots over a whole run.  `Account.Agrees` ties it to the handler
and to the descriptor sum, and the rule for a run of lines says what the run leaves open.
-/

namespace NetProg

/-- What the lines of a shell say: how many there were, the lives of the slots, and what the last
line aimed at while `currPipe` is a copy of that slot. -/
structure Account where
  number : Nat
  slots : Slots
  last : Option Int

namespace Account

def init : Account := ⟨0, .init, none⟩

/-- One more command line. -/
def line (cl : NpCommandLine) (a : Account) : Option Account :=
  (Slots.line (a.number + 1) cl a.slots).map fun slots => ⟨a.number + 1, slots, cl.target⟩

def queue : List NpCommandLine → Account → Option Account
  | [], a => some a
  | cl :: rest, a => (a.line cl).bind (queue rest)

/-- `exit` closes `currPipe`. -/
def exit (a : Account) : Account :=
  match a.last with
  | none => a
  | some n => { a with slots := a.slots.set (sizeT n) .spent, last := none }

theorem exit_exit (a : Account) : a.exit.exit = a.exit := by
  obtain ⟨number, slots, last⟩ := a
  cases last <;> rfl

theorem exit_last (a : Account) : a.exit.last = none := by
  obtain ⟨number, slots, last⟩ := a
  cases last <;> rfl

/-- How the members `eol` and `currPipe` stand between two lines: `eol` holds its pipe, or its
numbers are those of a pipe that `readEOF` closed. -/
inductive EolAgrees (session : Nat) (h : CmdHandler) (slots : Slots) : Option Int → Held → Prop
  | holding (eol : Held) (curr : h.currPipe = .cleared) (holds : h.eol.Holds eol)
      (own : Own session eol) : EolAgrees session h slots none eol
  | stale (n : Int) (line : Nat) (curr : h.currPipe = h.numberPipeList.get (sizeT n))
      (pending : slots.get (sizeT n) = .pending line) : EolAgrees session h slots (some n) 0

/-- The handler of a shell agrees with its account. -/
structure Agrees (session : Nat) (h : CmdHandler) (a : Account)
    (parts : Fin circularBufferSize → Held) (eol : Held) : Prop where
  ring : RingAgrees session (fun _ _ => True) h.numberPipeList a.slots parts
  prev : h.prevPipe = .cleared
  members : EolAgrees session h a.slots a.last eol

variable {session : Nat} {h : CmdHandler} {a after : Account} {eol : Held}
  {parts : Fin circularBufferSize → Held}

theorem init_agrees (session : Nat) : init.Agrees session .init (fun _ => 0) 0 :=
  ⟨.init session _, rfl, .holding 0 rfl Pipe.holds_cleared (Own.zero session)⟩

/-- How the members stand after a line that fits. -/
theorem EolAgrees.of_line {cl : NpCommandLine} {fds : FdTable Desc}
    (h' : EolAfter session fds h cl.target eol) (fits : a.line cl = some after) :
    EolAgrees session h after.slots after.last eol := by
  obtain ⟨slots, lived, rfl⟩ := Option.map_eq_some_iff.mp fits
  obtain ⟨taken, -, aimed⟩ := Option.bind_eq_some_iff.mp lived
  show EolAgrees session h slots cl.target eol
  generalize cl.target = target at h' aimed
  cases h' with
  | leaked _ curr holds own => exact .holding eol curr holds own
  | closed n curr gone =>
      obtain ⟨number, pending⟩ := Slots.aim_pending aimed
      exact .stale n number curr pending

/-- `exit` closes what `eol` and `currPipe` hold, if the numbers of a closed `eol` are free. -/
theorem Agrees.exit (agrees : a.Agrees session h parts eol) {k : Proc} {rest : Held}
    (serving : k.serving = session) (low : LowOpen rest)
    (split : k.fds.opens = (∑ i, parts i) + (eol + rest))
    (free : a.last ≠ none → h.eol.Gone k.fds) :
    ∃ parts', a.exit.Agrees session
        { h with running := false, eol := .cleared, prevPipe := .cleared, currPipe := .cleared }
        parts' 0 ∧
      (h.currPipe.closePipe (h.prevPipe.closePipe (h.eol.closePipe k))).fds.opens =
        (∑ i, parts' i) + rest ∧
      Proc.Steps k (h.currPipe.closePipe (h.prevPipe.closePipe (h.eol.closePipe k))) [] := by
  subst serving
  obtain ⟨number, slots, last⟩ := a
  obtain ⟨ring, prev, members⟩ := agrees
  rw [prev, Pipe.closePipe_cleared]
  cases members with
  | holding eol curr holds own =>
      rw [add_left_comm] at split
      obtain ⟨opens, steps⟩ := Pipe.closePipe_held split holds own
      rw [curr, Pipe.closePipe_cleared]
      exact ⟨parts, ⟨ring, rfl, .holding 0 rfl Pipe.holds_cleared (Own.zero _)⟩, opens, steps⟩
  | stale n line curr pending =>
      obtain ⟨same, steps⟩ := Pipe.closePipe_gone (free (by simp))
      have slot := ring.slot (h.numberPipeList.slot (sizeT n))
      have life : slots.buffer (h.numberPipeList.slot (sizeT n)) = .pending line := by
        rw [CircularBuffer.slot_congr ring.head]
        exact pending
      change SlotAgrees _ _ (h.numberPipeList.get (sizeT n)) _ _ at slot
      rw [life] at slot
      have full : h.numberPipeList.get (sizeT n) ≠ .cleared := by
        intro cleared
        cases slot.cleared_iff.mp cleared
      rw [zero_add, sum_split parts (h.numberPipeList.slot (sizeT n)), add_assoc] at split
      obtain ⟨opens, steps'⟩ := Pipe.closePipe_held (same.trans split) (slot.holds (by simp))
        (steps.serving ▸ slot.own)
      rw [curr]
      refine ⟨Function.update parts (h.numberPipeList.slot (sizeT n)) 0, ⟨?_, rfl, ?_⟩, ?_,
        steps.trans steps'⟩
      · exact ring.relabel (sizeT n) (.spent _ full (slot.high split low.mono))
      · exact .holding 0 rfl Pipe.holds_cleared (Own.zero _)
      · rw [opens, sum_update, zero_add]

end Account

/-- What a run of command lines leaves, when it began with `eol` in the member of that name:
`leaked` are the pipes of earlier `eol`s that nobody names any more. -/
def RunAgrees {σ : Type} (session : Nat) (Mail : σ → Held → Prop) (after : Account)
    (clean : Prop) (rest : Held) (s r : ShellState σ) : Prop :=
  ∃ parts eol mail leaked children, Mail r.server mail ∧
    after.Agrees session r.handler parts eol ∧
    r.proc.fds.opens = (∑ i, parts i) + (eol + (mail + (leaked + rest))) ∧
    r.handler.running = s.handler.running ∧ Proc.Steps s.proc r.proc children ∧
    (clean → eol = 0 ∧ leaked = 0)

namespace ShellState

variable {σ : Type} {undef : Prop} {calls : UserPipeCalls σ} {session : Nat}
  {Mail : σ → Held → Prop} {line : Text} {cl : NpCommandLine} {a after : Account}
  {s : ShellState σ} {parts : Fin circularBufferSize → Held} {eol mail rest : Held}

/-- The rule for one line. -/
theorem runCommandLine_account (law : calls.Lawful undef session Mail)
    (shape : Shape cl.npCommands) (used : cl.NoSkippedUserPipe) (fits : a.line cl = some after)
    (serving : s.proc.serving = session) (mailed : Mail s.server mail)
    (agrees : a.Agrees session s.handler parts eol) (low : LowOpen rest)
    (split : s.proc.fds.opens = (∑ i, parts i) + (eol + (mail + rest))) :
    Sat (s.runCommandLine calls line cl)
      (RunAgrees session Mail after (eol = 0 ∧ cl.target ≠ none) rest s)
      (Stopped undef s.proc (s.proc.fds.opens.card + 2 * cl.npCommands.count .userPipe + 5)) := by
  obtain ⟨slots, lived, rfl⟩ := Option.map_eq_some_iff.mp fits
  have apart : s.proc.fds.opens = (∑ i, parts i) + (mail + (eol + rest)) := by
    rw [split]
    abel
  refine Sat.mono (runCommandLine_agrees law shape used serving mailed agrees.prev agrees.ring
    lived low.mono apart) ?_ (fun _ stopped => stopped)
  rintro r ⟨mail', parts', eol', children, mailed', opens, ring, members, prev, running,
    steps, -, -⟩
  have ring' : RingAgrees session (fun _ _ => True) r.handler.numberPipeList slots parts' :=
    ring.mono fun _ _ _ => trivial
  refine ⟨parts', eol', mail', eol, children, mailed', ⟨ring', prev, .of_line members fits⟩, ?_,
    running, steps, ?_⟩
  · exact opens
  · intro clean
    obtain ⟨rfl, numbered⟩ := clean
    generalize cl.target = target at members numbered
    cases members with
    | leaked _ curr holds own => exact absurd rfl numbered
    | closed n curr gone => exact ⟨rfl, rfl⟩

/-- The rule for a run of lines, by induction on them. -/
theorem runLines_account (law : calls.Lawful undef session Mail)
    {lines : List (Text × NpCommandLine)}
    (proper : ∀ line ∈ lines, Shape line.2.npCommands ∧ line.2.NoSkippedUserPipe)
    (fits : a.queue (lines.map Prod.snd) = some after)
    (serving : s.proc.serving = session) (mailed : Mail s.server mail)
    (agrees : a.Agrees session s.handler parts eol) (low : LowOpen rest)
    (split : s.proc.fds.opens = (∑ i, parts i) + (eol + (mail + rest))) :
    Sat (s.runLines calls lines)
      (RunAgrees session Mail after (eol = 0 ∧ ∀ line ∈ lines, line.2.target ≠ none) rest s)
      (fun stopped => ∃ done line more middle mid, lines = done ++ line :: more ∧
        a.queue (done.map Prod.snd) = some middle ∧
        RunAgrees session Mail middle (eol = 0 ∧ ∀ line ∈ done, line.2.target ≠ none) rest s mid ∧
        Stopped undef mid.proc
          (mid.proc.fds.opens.card + 2 * line.2.npCommands.count .userPipe + 5) stopped) := by
  induction lines generalizing a s parts eol mail rest with
  | nil =>
      cases fits
      exact ⟨parts, eol, mail, 0, [], mailed, agrees, by rw [split, zero_add], rfl, .refl _,
        fun clean => ⟨clean.1, rfl⟩⟩
  | cons first more ih =>
      obtain ⟨text, cl⟩ := first
      obtain ⟨middle, fitsFirst, fitsMore⟩ := Option.bind_eq_some_iff.mp fits
      obtain ⟨shape, used⟩ := proper (text, cl) List.mem_cons_self
      refine Sat.bind (Sat.mono (runCommandLine_account law shape used fitsFirst serving mailed
        agrees low split) (fun _ reached => reached) ?_) ?_
      · intro stopped cause
        exact ⟨[], (text, cl), more, a, s, rfl, rfl, ⟨parts, eol, mail, 0, [], mailed, agrees,
          by rw [split, zero_add], rfl, .refl _, fun clean => ⟨clean.1, rfl⟩⟩, cause⟩
      · rintro mid ⟨parts', eol', mail', leaked, children, mailed', agrees', opens, running, steps,
          clean⟩
        have later : ∀ {next : Account} {done : List (Text × NpCommandLine)} {r : ShellState σ},
            RunAgrees session Mail next (eol' = 0 ∧ ∀ line ∈ done, line.2.target ≠ none)
              (leaked + rest) mid r →
            RunAgrees session Mail next
              (eol = 0 ∧ ∀ line ∈ (text, cl) :: done, line.2.target ≠ none) rest s r := by
          rintro next done r ⟨parts'', eol'', mail'', leaked', children', mailed'', agrees'',
            opens'', running'', steps'', clean''⟩
          refine ⟨parts'', eol'', mail'', leaked' + leaked, _, mailed'', agrees'', ?_,
            running''.trans running, steps.trans steps'', ?_⟩
          · rw [opens'', add_assoc]
          · intro both
            obtain ⟨rfl, numbered⟩ := both
            obtain ⟨none, few⟩ := clean ⟨rfl, numbered _ List.mem_cons_self⟩
            obtain ⟨none', few'⟩ := clean'' ⟨none, fun line member =>
              numbered line (List.mem_cons_of_mem _ member)⟩
            exact ⟨none', by rw [few, few', add_zero]⟩
        refine Sat.mono (ih (fun line member => proper line (List.mem_cons_of_mem _ member))
          fitsMore (steps.serving.trans serving) mailed' agrees' low.mono opens)
          (fun r reached => later reached) ?_
        rintro stopped ⟨done, line, more', middle', mid', rfl, fitsDone, reached, cause⟩
        refine ⟨(text, cl) :: done, line, more', middle', mid', rfl, ?_, later reached, cause⟩
        rw [List.map_cons, Account.queue, fitsFirst]
        exact fitsDone

/-- A queue is a run whose lines come from one line of input. -/
theorem runQueue_eq (calls : UserPipeCalls σ) (line : Text) (queue : List NpCommandLine)
    (s : ShellState σ) :
    s.runQueue calls line queue = s.runLines calls (queue.map fun cl => (line, cl)) := by
  induction queue generalizing s with
  | nil => rfl
  | cons cl queue ih =>
      rw [runQueue, List.map_cons, runLines]
      exact congrArg _ (funext ih)

end ShellState

/-- The part of the descriptor sum of a slot: both ends of its pipe while a line waits for it. -/
def Waiting (session : Nat) (part : Held) : Life → Prop
  | .pending _ => ∃ first second pipe, part = pipePart first second pipe (.user session)
  | _ => part = 0

theorem Waiting.eq_zero {session : Nat} {part : Held} {life : Life}
    (waiting : Waiting session part life) (idle : ∀ line, life ≠ .pending line) : part = 0 := by
  cases life with
  | fresh => exact waiting
  | spent => exact waiting
  | pending line => exact absurd rfl (idle line)

/-- The number of pipes that wait in a slot. -/
def Life.waits : Life → Nat
  | .pending _ => 1
  | _ => 0

theorem Waiting.card {session : Nat} {part : Held} {life : Life} (h : Waiting session part life) :
    part.card = 2 * life.waits := by
  cases life with
  | fresh =>
      rw [show part = 0 from h]
      rfl
  | spent =>
      rw [show part = 0 from h]
      rfl
  | pending line =>
      obtain ⟨first, second, pipe, rfl⟩ := h
      rfl

theorem SlotAgrees.waiting {session : Nat} {made : Nat → Nat → Prop} {p : Pipe} {life : Life}
    {part : Held} (h : SlotAgrees session made p life part) : Waiting session part life := by
  cases h with
  | fresh => rfl
  | pending line first second pipe maker => exact ⟨first, second, pipe, rfl⟩
  | spent p full high => rfl

namespace Account

/-- The number of pipes that wait. -/
def pending (a : Account) : Nat := ∑ i, (a.slots.buffer i).waits

theorem card_parts {a : Account} {session : Nat} {parts : Fin circularBufferSize → Held}
    (waiting : ∀ i, Waiting session (parts i) (a.slots.buffer i)) :
    (∑ i, parts i).card = 2 * a.pending := by
  rw [Multiset.card_sum, pending, Finset.mul_sum]
  exact Finset.sum_congr rfl fun i _ => (waiting i).card

/-- No pipe waits for a line that is over: the front slot may hold the pipe of the last line, for
the line 1024 later. -/
def Settled (a : Account) : Prop := ∀ line, a.slots.front = .pending line → line = a.number

/-- A command line that leaves no descriptor without a use: it ends in a numbered pipe for one of
the next 1024 lines, and reads the pipe that waits for it. -/
structure Neat (a : Account) (cl : NpCommandLine) : Prop where
  used : cl.NoSkippedUserPipe
  numbered : ∃ n, cl.target = some n ∧ 1 ≤ n ∧ n ≤ 1024
  reads : 0 < cl.readUid → ∀ line, a.slots.next.front ≠ .pending line
  fits : a.line cl ≠ none

/-- The same for command lines that follow each other. -/
def NeatQueue : List NpCommandLine → Account → Prop
  | [], _ => True
  | cl :: rest, a => a.Neat cl ∧ ∀ next, a.line cl = some next → NeatQueue rest next

variable {a next : Account} {cl : NpCommandLine}

/-- The front slot is taken, and only a pipe for the line 1024 later goes there again. -/
theorem Neat.settled (neat : a.Neat cl) (fits : a.line cl = some next) : next.Settled := by
  obtain ⟨slots, lived, rfl⟩ := Option.map_eq_some_iff.mp fits
  obtain ⟨taken, took, aimed⟩ := Option.bind_eq_some_iff.mp lived
  obtain ⟨n, target, -⟩ := neat.numbered
  have front : ∀ line, taken.front ≠ .pending line := by
    unfold Slots.take at took
    split at took
    · rename_i reading
      cases took
      exact neat.reads reading
    · split at took
      · rename_i fresh
        cases took
        rw [fresh]
        exact fun _ same => by cases same
      · cases took
        rw [CircularBuffer.front_eq, CircularBuffer.set_buffer]
        intro line same
        rw [CircularBuffer.slot_zero] at same
        change Function.update a.slots.next.buffer a.slots.next.headSlot .spent
          a.slots.next.headSlot = .pending line at same
        rw [Function.update_self] at same
        cases same
      · cases took
  intro line waits
  change slots.front = .pending line at waits
  rw [target] at aimed
  simp only [Slots.aim] at aimed
  split at aimed
  · cases aimed
    rw [CircularBuffer.front_eq, CircularBuffer.set_buffer] at waits
    change Function.update taken.buffer (taken.slot (sizeT n)) (.pending (a.number + 1))
      taken.headSlot = .pending line at waits
    rw [Function.update_apply] at waits
    split at waits
    · exact (Life.pending.inj waits).symm
    · rw [← CircularBuffer.front_eq] at waits
      exact absurd waits (front line)
  · cases aimed
    exact absurd waits (front line)
  · cases aimed

theorem NeatQueue.settled {queue : List NpCommandLine} (neat : NeatQueue queue a)
    (settled : a.Settled) (fits : a.queue queue = some next) : next.Settled := by
  induction queue generalizing a with
  | nil =>
      cases fits
      exact settled
  | cons cl rest ih =>
      obtain ⟨middle, first, later⟩ := Option.bind_eq_some_iff.mp fits
      exact ih (neat.2 middle first) (neat.1.settled first) later

/-- Neat lines fit, and no `>n` without effect stands inside one of them. -/
theorem NeatQueue.fits {queue : List NpCommandLine} (neat : NeatQueue queue a) :
    a.queue queue ≠ none ∧ ∀ cl ∈ queue, cl.NoSkippedUserPipe ∧ cl.target ≠ none := by
  induction queue generalizing a with
  | nil => exact ⟨Option.some_ne_none a, fun cl member => absurd member List.not_mem_nil⟩
  | cons cl rest ih =>
      obtain ⟨first, more⟩ := neat
      obtain ⟨middle, fits⟩ := Option.ne_none_iff_exists'.mp first.fits
      obtain ⟨later, used⟩ := ih (more middle fits)
      refine ⟨?_, fun cl' member => ?_⟩
      · rw [queue, fits]
        exact later
      · rcases List.mem_cons.mp member with rfl | member
        · obtain ⟨n, target, -⟩ := first.numbered
          exact ⟨first.used, target ▸ Option.some_ne_none n⟩
        · exact used cl' member

end Account

end NetProg
