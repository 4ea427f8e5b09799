import NetProg.Shell.Accounts

/-!
# The command lines of a run

A run of a shell is followed command line by command line: a `Tick` is one that came to its end, with
the states around it.  Descriptor numbers and pipes differ from run to run, so a pipe is named by the
command line that created it.  What a command line reads and writes is what the account of its shell
says (`TickAgrees`).
-/

namespace NetProg

variable {σ : Type}

/-- One command line of a shell, with the states before and after it. -/
structure Tick (σ : Type) where
  cl : NpCommandLine
  before : ShellState σ
  after : ShellState σ

namespace Tick

/-- The pipe was created by the command line. -/
def makes (t : Tick σ) (pipe : Nat) : Bool :=
  decide (t.before.proc.nextPipe ≤ pipe) && decide (pipe < t.after.proc.nextPipe)

/-- The number of the command line that created a pipe, if it is one of these. -/
def creator (ticks : List (Tick σ)) (pipe : Nat) : Option Nat :=
  (ticks.findIdx? (·.makes pipe)).map (· + 1)

/-- The numbered pipe that ends the command line. -/
def numbered (t : Tick σ) : Option Nat := t.after.handler.currPipe.leadsTo t.after.proc.fds

end Tick

namespace ShellState

/-- The commands forked between two states. -/
def newChildren (s r : ShellState σ) : List Child := forks (r.proc.log.drop s.proc.log.length)

theorem newChildren_eq {s r : ShellState σ} {children : List Child}
    (steps : Proc.Steps s.proc r.proc children) : newChildren s r = children := by
  obtain ⟨events, log, _, forked⟩ := steps.log
  rw [newChildren, log, List.drop_left, forked]

/-- The command lines of an input line, as far as they come to their end. -/
def queueTicks (calls : UserPipeCalls σ) (line : Text) :
    List NpCommandLine → ShellState σ → List (Tick σ)
  | [], _ => []
  | cl :: queue, s =>
      match s.runCommandLine calls line cl with
      | .error _ => []
      | .ok r => ⟨cl, s, r⟩ :: queueTicks calls line queue r

/-- If a command line stops the process, the ones before it are a run of their own. -/
theorem queueTicks_taken (calls : UserPipeCalls σ) (line : Text) (queue : List NpCommandLine)
    (s : ShellState σ) : ∃ k r, s.runQueue calls line (queue.take k) = .ok r ∧
      queueTicks calls line (queue.take k) s = queueTicks calls line queue s := by
  induction queue generalizing s with
  | nil => exact ⟨0, s, rfl, rfl⟩
  | cons cl queue ih =>
      cases ended : s.runCommandLine calls line cl with
      | error stopped =>
          refine ⟨0, s, rfl, ?_⟩
          rw [queueTicks, ended]
          rfl
      | ok mid =>
          obtain ⟨k, r, ran, same⟩ := ih mid
          refine ⟨k + 1, r, ?_, ?_⟩
          · rw [List.take_succ_cons, runQueue, ended]
            exact ran
          · rw [List.take_succ_cons, queueTicks, queueTicks, ended]
            exact congrArg _ same

end ShellState

namespace Tick

variable {ticks more : List (Tick σ)} {t : Tick σ} {pipe line n : Nat}

/-- The commands that a command line forked. -/
def children (t : Tick σ) : List Child := ShellState.newChildren t.before t.after

/-- All pipes of the command lines were created before the count was `n`. -/
def Older (ticks : List (Tick σ)) (n : Nat) : Prop := ∀ t ∈ ticks, t.after.proc.nextPipe ≤ n

/-- Command line `line` created the pipe, as the numbered pipe at its end. -/
def MadeIn (ticks : List (Tick σ)) (line pipe : Nat) : Prop :=
  creator ticks pipe = some line ∧ ticks[line - 1]?.bind numbered = some pipe

theorem Older.mono {n' : Nat} (h : Older ticks n) (le : n ≤ n') : Older ticks n' :=
  fun t member => (h t member).trans le

theorem Older.snoc (h : Older ticks n) (le : n ≤ t.after.proc.nextPipe) :
    Older (ticks ++ [t]) t.after.proc.nextPipe := by
  intro t' member
  rcases List.mem_append.mp member with earlier | last
  · exact (h t' earlier).trans le
  · rw [List.mem_singleton.mp last]

/-- Later command lines change no names. -/
theorem MadeIn.append (h : MadeIn ticks line pipe) : MadeIn (ticks ++ more) line pipe := by
  obtain ⟨made, last⟩ := h
  obtain ⟨i, found, rfl⟩ := Option.map_eq_some_iff.mp made
  obtain ⟨t, there, leads⟩ := Option.bind_eq_some_iff.mp last
  constructor
  · rw [creator, List.findIdx?_append, found]
    rfl
  · rw [List.getElem?_append_left (List.getElem?_eq_some_iff.mp there).1, there]
    exact leads

/-- A numbered pipe that is new in the last command line is his. -/
theorem MadeIn.snoc (older : Older ticks t.before.proc.nextPipe)
    (above : t.before.proc.nextPipe ≤ pipe) (below : pipe < t.after.proc.nextPipe)
    (last : t.numbered = some pipe) : MadeIn (ticks ++ [t]) (ticks.length + 1) pipe := by
  have unknown : ticks.findIdx? (·.makes pipe) = none := by
    rw [List.findIdx?_eq_none_iff]
    intro t' member
    have before := older t' member
    have late : ¬ pipe < t'.after.proc.nextPipe := by omega
    simp [makes, late]
  have here : t.makes pipe = true := by simp [makes, above, below]
  constructor
  · rw [creator, List.findIdx?_append, unknown]
    simp [here]
  · simp [last]

/-- The command line that created a pipe made it while it ran. -/
theorem MadeIn.within (h : MadeIn ticks line pipe) (here : ticks[line - 1]? = some t) :
    t.before.proc.nextPipe ≤ pipe ∧ pipe < t.after.proc.nextPipe := by
  obtain ⟨i, found, rfl⟩ := Option.map_eq_some_iff.mp h.1
  obtain ⟨inside, made, -⟩ := List.findIdx?_eq_some_iff_getElem.mp found
  obtain ⟨-, rfl⟩ := List.getElem?_eq_some_iff.mp here
  simpa [makes] using made

end Tick

/-- A command line between two accounts of its shell. -/
structure AccountStep where
  cl : NpCommandLine
  before : Account
  after : Account

namespace Account

def steps : List NpCommandLine → Account → List AccountStep
  | [], _ => []
  | cl :: queue, a =>
      match a.line cl with
      | none => []
      | some after => ⟨cl, a, after⟩ :: steps queue after

/-- `exit` makes no pipe wait. -/
theorem exit_pending {a : Account} {i : Fin circularBufferSize} {line : Nat}
    (waits : a.exit.slots.buffer i = .pending line) : a.slots.buffer i = .pending line := by
  obtain ⟨number, slots, last⟩ := a
  cases last with
  | none => exact waits
  | some n =>
      change Function.update slots.buffer (slots.slot (sizeT n)) .spent i = .pending line at waits
      rw [Function.update_apply] at waits
      split at waits
      · cases waits
      · exact waits

end Account

/-- A `Pipe` value whose two ends are open and belong to one pipe of a user. -/
def HoldsPipe (k : Proc) (p : Pipe) (session pipe : Nat) : Prop :=
  ∃ first second, p = ⟨some first, some second⟩ ∧
    k.fds.get first = some ⟨.pipeIn pipe, .user session⟩ ∧
    k.fds.get second = some ⟨.pipeOut pipe, .user session⟩

/-- The front slot of the ring, by its life. -/
def FrontAgrees (session : Nat) (made : Nat → Nat → Prop) (k : Proc) (p : Pipe) : Life → Prop
  | .fresh => p = .cleared
  | .pending line => ∃ pipe, made line pipe ∧ HoldsPipe k p session pipe
  | .spent => True

theorem SlotAgrees.front {session : Nat} {made : Nat → Nat → Prop} {p : Pipe} {life : Life}
    {part others : Held} {k : Proc} (h : SlotAgrees session made p life part)
    (split : k.fds.opens = part + others) : FrontAgrees session made k p life := by
  cases h with
  | fresh => rfl
  | pending line first second pipe maker =>
      refine ⟨pipe, maker, first, second, rfl, ?_, ?_⟩
      · exact FdTable.get_of_mem_part split (by simp [pipePart])
      · exact FdTable.get_of_mem_part split (by simp [pipePart])
  | spent p full high => trivial

/-- A command line did what the accounts say; `terminal` is the standard input of the shell. -/
structure TickAgrees (session : Nat) (terminal : Desc) (made : Nat → Nat → Prop) (t : Tick σ)
    (x : AccountStep) : Prop where
  cl : t.cl = x.cl
  front : FrontAgrees session made t.before.proc t.before.handler.numberPipeList.next.front
    x.before.slots.next.front
  reads : ¬ 0 < x.cl.readUid → ∃ child, t.children.head? = some child ∧
    StdinFrom session made {(0, terminal)} child x.before.slots.next.front
  writes : ∀ n, x.cl.target = some n → ∃ child, t.children.getLast? = some child ∧
    StdoutTo session made child (x.after.slots.get (sizeT n))
  slots : ∀ i, t.after.handler.numberPipeList.buffer i = .cleared ↔ x.after.slots.buffer i = .fresh

theorem TickAgrees.mono {session : Nat} {terminal : Desc} {made made' : Nat → Nat → Prop}
    {t : Tick σ} {x : AccountStep} (h : TickAgrees session terminal made t x)
    (more : ∀ line pipe, made line pipe → made' line pipe) :
    TickAgrees session terminal made' t x where
  cl := h.cl
  front := by
    have front := h.front
    cases life : x.before.slots.next.front with
    | fresh =>
        rw [life] at front
        exact front
    | pending line =>
        rw [life] at front
        obtain ⟨pipe, maker, holds⟩ := front
        exact ⟨pipe, more line pipe maker, holds⟩
    | spent => trivial
  reads off := by
    obtain ⟨child, first, stdin⟩ := h.reads off
    refine ⟨child, first, ?_⟩
    cases life : x.before.slots.next.front with
    | fresh =>
        rw [life] at stdin
        exact stdin
    | pending line =>
        rw [life] at stdin
        obtain ⟨pipe, maker, input⟩ := stdin
        exact ⟨pipe, more line pipe maker, input⟩
    | spent =>
        rw [life] at stdin
        exact stdin
  writes n target := by
    obtain ⟨child, last, line, pipe, life, maker, output⟩ := h.writes n target
    exact ⟨child, last, line, pipe, life, more line pipe maker, output⟩
  slots := h.slots

/-- What is open under the number of the read end in a waiting slot is the pipe that the line made. -/
def PipesNamed (session : Nat) (ticks : List (Tick σ)) (slots : Slots) (ring : CircularBuffer Pipe)
    (fds : FdTable Desc) : Prop :=
  ∀ i line, slots.buffer i = .pending line → ∃ pipe, Tick.MadeIn ticks line pipe ∧
    ∀ fd desc, (ring.buffer i).inFd = some fd → fds.get fd = some desc →
      desc = ⟨.pipeIn pipe, .user session⟩

theorem Proc.get_of_close {k : Proc} {fd : Fd} {n : Nat} {desc : Desc}
    (found : (k.close fd).fds.get n = some desc) : k.fds.get n = some desc := by
  cases fd with
  | none => exact found
  | some fd =>
      change (k.fds.close fd).get n = some desc at found
      rw [FdTable.close, FdTable.get_set] at found
      split at found
      · cases found
      · exact found

theorem Pipe.get_of_closePipe {p : Pipe} {k : Proc} {n : Nat} {desc : Desc}
    (found : (p.closePipe k).fds.get n = some desc) : k.fds.get n = some desc :=
  Proc.get_of_close (Proc.get_of_close found)

/-- `exit` closes, but gives no number to another pipe. -/
theorem PipesNamed.exit {session : Nat} {ticks : List (Tick σ)} {a : Account}
    {ring : CircularBuffer Pipe} {fds fds' : FdTable Desc}
    (h : PipesNamed session ticks a.slots ring fds)
    (fewer : ∀ n desc, fds'.get n = some desc → fds.get n = some desc) :
    PipesNamed session ticks a.exit.slots ring fds' := by
  intro i line life
  obtain ⟨pipe, maker, same⟩ := h i line (Account.exit_pending life)
  exact ⟨pipe, maker, fun fd desc here found => same fd desc here (fewer fd desc found)⟩

namespace RingAgrees

variable {session : Nat} {ticks : List (Tick σ)} {made : Nat → Nat → Prop}
  {ring : CircularBuffer Pipe} {slots : Slots} {parts : Fin circularBufferSize → Held}
  {fds : FdTable Desc} {rest : Held}

theorem named (h : RingAgrees session (Tick.MadeIn ticks) ring slots parts)
    (split : fds.opens = (∑ i, parts i) + rest) : PipesNamed session ticks slots ring fds := by
  intro i line life
  have slot := h.slot i
  rw [life] at slot
  have inside := sum_split parts i
  generalize parts i = part at slot inside
  generalize ring.buffer i = p at slot ⊢
  cases slot with
  | pending _ first second pipe maker =>
      refine ⟨pipe, maker, ?_⟩
      intro fd desc here found
      cases here
      have opened : fds.get first = some ⟨.pipeIn pipe, .user session⟩ := by
        rw [inside, add_assoc] at split
        exact FdTable.get_of_mem_part split (by simp [pipePart])
      exact Option.some.inj (found.symm.trans opened)

theorem of_named (h : RingAgrees session made ring slots parts)
    (split : fds.opens = (∑ i, parts i) + rest) (named : PipesNamed session ticks slots ring fds) :
    RingAgrees session (Tick.MadeIn ticks) ring slots parts := by
  refine ⟨h.head, fun i => ?_⟩
  have slot := h.slot i
  have names := named i
  have inside := sum_split parts i
  generalize parts i = part at slot inside ⊢
  generalize ring.buffer i = p at slot names ⊢
  generalize slots.buffer i = life at slot names ⊢
  cases slot with
  | fresh => exact .fresh
  | pending line first second pipe _ =>
      obtain ⟨pipe', maker, same⟩ := names line rfl
      have opened : fds.get first = some ⟨.pipeIn pipe, .user session⟩ := by
        rw [inside, add_assoc] at split
        exact FdTable.get_of_mem_part split (by simp [pipePart])
      cases same first _ rfl opened
      exact .pending line first second pipe maker
  | spent p full high => exact .spent p full high

end RingAgrees

/-- The command lines `ticks` are those that the account has counted. -/
structure Counted (ticks : List (Tick σ)) (a : Account) (nextPipe : Nat) : Prop where
  older : Tick.Older ticks nextPipe
  number : a.number = ticks.length

/-- `exit` is no command line. -/
theorem Counted.exit {ticks : List (Tick σ)} {a : Account} {nextPipe : Nat}
    (h : Counted ticks a nextPipe) : Counted ticks a.exit nextPipe := by
  obtain ⟨number, slots, last⟩ := a
  cases last <;> exact ⟨h.older, h.number⟩

/-- The stale numbers of `eol` are free. -/
def Idle (a : Account) (h : CmdHandler) (fds : FdTable Desc) : Prop :=
  a.last ≠ none → h.eol.Gone fds

section Queue

variable {calls : UserPipeCalls σ} {session : Nat} {terminal : Desc} {line : Text}
  {cl : NpCommandLine} {ticks : List (Tick σ)} {a after : Account} {s r : ShellState σ} {undef : Prop}
  {Mail : σ → Held → Prop} {parts : Fin circularBufferSize → Held} {mail rest : Held}

/-- What is known after a command line that fits: `ticks` are the ones before it. -/
def TickRan (session : Nat) (terminal : Desc) (Mail : σ → Held → Prop) (ticks : List (Tick σ))
    (cl : NpCommandLine) (a after : Account) (rest : Held) (s r : ShellState σ) : Prop :=
  ∃ parts' mail' eol children, Mail r.server mail' ∧ Proc.Steps s.proc r.proc children ∧
    r.handler.running = s.handler.running ∧ r.handler.prevPipe = .cleared ∧
    EolAfter session r.proc.fds r.handler cl.target eol ∧
    RingAgrees session (Tick.MadeIn (ticks ++ [⟨cl, s, r⟩])) r.handler.numberPipeList after.slots
      parts' ∧
    Counted (ticks ++ [⟨cl, s, r⟩]) after r.proc.nextPipe ∧
    r.proc.fds.opens = (∑ i, parts' i) + (mail' + (eol + rest)) ∧
    TickAgrees session terminal (Tick.MadeIn (ticks ++ [⟨cl, s, r⟩])) ⟨cl, s, r⟩ ⟨cl, a, after⟩

/-- The rule for one command line. -/
theorem tick_agrees (law : calls.Lawful undef session Mail)
    (shape : Shape cl.npCommands) (used : cl.NoSkippedUserPipe) (fits : a.line cl = some after)
    (serving : s.proc.serving = session) (mailed : Mail s.server mail)
    (prev : s.handler.prevPipe = .cleared)
    (ring : RingAgrees session (Tick.MadeIn ticks) s.handler.numberPipeList a.slots parts)
    (counted : Counted ticks a s.proc.nextPipe) (low : LowOpen rest)
    (standard : (0, terminal) ∈ rest)
    (split : s.proc.fds.opens = (∑ i, parts i) + (mail + rest)) :
    Sat (s.runCommandLine calls line cl) (TickRan session terminal Mail ticks cl a after rest s)
      (Stopped undef s.proc (s.proc.fds.opens.card + 2 * cl.npCommands.count .userPipe + 5)) := by
  obtain ⟨slots, lived, rfl⟩ := Option.map_eq_some_iff.mp fits
  refine Sat.mono (ShellState.runCommandLine_agrees law shape used serving mailed prev ring lived low
    split) ?_ (fun _ stopped => stopped)
  rintro r ⟨mail', parts', eol, children, mailed', opens, ring', ended, prev', running, steps,
    ⟨child, first, stdin⟩, stdout⟩
  have forked : Tick.children ⟨cl, s, r⟩ = children := ShellState.newChildren_eq steps
  have names : ∀ line' pipe', madeBy (Tick.MadeIn ticks) (a.number + 1) s.proc.nextPipe
      r.proc.nextPipe (r.handler.currPipe.leadsTo r.proc.fds) line' pipe' →
      Tick.MadeIn (ticks ++ [⟨cl, s, r⟩]) line' pipe' := by
    intro line' pipe' made
    rcases made with before | new
    · exact before.append
    · obtain ⟨rfl, last, above, below⟩ := new
      rw [counted.number]
      exact .snoc (t := ⟨cl, s, r⟩) counted.older above below last
  have made := ring'.mono names
  refine ⟨parts', mail', eol, children, mailed', steps, running, prev', ended, made, ⟨?_, ?_⟩, ?_,
    ⟨rfl, ?_, ?_, ?_, ?_⟩⟩
  · exact counted.older.snoc (t := ⟨cl, s, r⟩) steps.nextPipe
  · rw [List.length_append, List.length_singleton, ← counted.number]
  · rw [opens]
    abel
  · have later := ring.next.mono fun _ _ made =>
      show Tick.MadeIn (_ ++ [⟨cl, s, r⟩]) _ _ from made.append
    have slot := later.slot a.slots.next.headSlot
    rw [sum_split parts a.slots.next.headSlot, add_assoc] at split
    rw [CircularBuffer.front_eq, CircularBuffer.front_eq,
      CircularBuffer.headSlot_congr ring.next.head]
    exact slot.front split
  · intro off
    have reads := stdin off
    refine ⟨child, by rw [forked, first], ?_⟩
    cases life : a.slots.next.front with
    | fresh =>
        rw [life] at reads
        intro d member
        rw [Multiset.mem_singleton] at member
        cases member
        exact reads _ standard
    | pending line' =>
        rw [life] at reads
        obtain ⟨pipe', maker, input⟩ := reads
        exact ⟨pipe', maker.append, input⟩
    | spent =>
        rw [life] at reads
        exact reads
  · intro n target
    obtain ⟨child', last, line', pipe', life, maker, output⟩ := stdout n target
    exact ⟨child', by rw [forked, last], line', pipe', life, names line' pipe' maker, output⟩
  · intro i
    exact (made.slot i).cleared_iff

theorem EolAfter.idle {fds : FdTable Desc} {h : CmdHandler} {eol : Held}
    (ended : EolAfter session fds h cl.target eol) (fits : a.line cl = some after) :
    Idle after h fds := by
  obtain ⟨slots, -, rfl⟩ := Option.map_eq_some_iff.mp fits
  intro numbered
  change cl.target ≠ none at numbered
  generalize cl.target = target at ended numbered
  cases ended with
  | leaked _ curr holds own => exact absurd rfl numbered
  | closed n curr gone => exact gone

/-- The rule for the command lines of a line of input, by induction on them. -/
theorem queue_agrees (law : calls.Lawful undef session Mail) {queue : List NpCommandLine}
    (proper : ∀ cl ∈ queue, Shape cl.npCommands ∧ cl.NoSkippedUserPipe)
    (fits : a.queue queue = some after) (serving : s.proc.serving = session)
    (mailed : Mail s.server mail) (prev : s.handler.prevPipe = .cleared)
    (ring : RingAgrees session (Tick.MadeIn ticks) s.handler.numberPipeList a.slots parts)
    (counted : Counted ticks a s.proc.nextPipe) (low : LowOpen rest)
    (standard : (0, terminal) ∈ rest)
    (split : s.proc.fds.opens = (∑ i, parts i) + (mail + rest))
    (ran : s.runQueue calls line queue = .ok r) :
    ∃ more parts' others, more = s.queueTicks calls line queue ∧
      RingAgrees session (Tick.MadeIn (ticks ++ more)) r.handler.numberPipeList after.slots parts' ∧
      Counted (ticks ++ more) after r.proc.nextPipe ∧
      r.proc.fds.opens = (∑ i, parts' i) + others ∧
      List.Forall₂ (TickAgrees session terminal (Tick.MadeIn (ticks ++ more))) more
        (a.steps queue) ∧
      (Idle a s.handler s.proc.fds → Idle after r.handler r.proc.fds) := by
  induction queue generalizing ticks a s parts mail rest with
  | nil =>
      cases fits
      cases ran
      refine ⟨[], parts, mail + rest, rfl, ?_, ?_, split, .nil, fun idle => idle⟩
      · rw [List.append_nil]
        exact ring
      · rw [List.append_nil]
        exact counted
  | cons cl queue ih =>
      obtain ⟨middle, fitsFirst, fitsMore⟩ := Option.bind_eq_some_iff.mp fits
      obtain ⟨mid, first, later⟩ := bind_eq_ok.mp ran
      obtain ⟨shape, used⟩ := proper cl List.mem_cons_self
      obtain ⟨parts₁, mail₁, eol, children, mailed₁, steps, -, prev₁, ended, ring₁, counted₁, opens₁,
        agrees⟩ := (tick_agrees law shape used fitsFirst serving mailed prev ring counted low standard
          split).of_ok first
      obtain ⟨more, parts', others, rfl, ring', counted', opens', agree, idle'⟩ :=
        ih (fun cl member => proper cl (List.mem_cons_of_mem _ member)) fitsMore
          (steps.serving.trans serving) mailed₁ prev₁ ring₁ counted₁ low.mono
          (Multiset.mem_add.mpr (Or.inr standard)) opens₁ later
      have listed : s.queueTicks calls line (cl :: queue) =
          ⟨cl, s, mid⟩ :: mid.queueTicks calls line queue := by
        rw [ShellState.queueTicks, first]
      have whole : ticks ++ s.queueTicks calls line (cl :: queue) =
          ticks ++ [⟨cl, s, mid⟩] ++ mid.queueTicks calls line queue := by
        rw [listed, List.append_assoc]
        rfl
      refine ⟨_, parts', others, rfl, ?_, ?_, opens', ?_, fun _ => idle' (ended.idle fitsFirst)⟩
      · rw [whole]
        exact ring'
      · rw [whole]
        exact counted'
      · rw [whole, listed, Account.steps, fitsFirst]
        exact .cons (agrees.mono fun _ _ made => made.append) agree

end Queue

end NetProg
