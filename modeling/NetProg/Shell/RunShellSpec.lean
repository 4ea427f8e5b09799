import NetProg.Shell.RunShell

/-!
# What one command line does to the descriptors

The descriptor sum of the process is split into the parts held by the pipes of the line, the
part of the user pipes and a rest that the line does not own.  `Connected` says once what a
separator can do before its fork; the rules for one command, for the loop and for a whole line
follow from it.
-/

namespace NetProg

variable {σ : Type}

/-- The standard descriptors are among those of a part. -/
def LowOpen (rest : Held) : Prop := ∀ n < 3, ∃ d, (n, d) ∈ rest

theorem LowOpen.mono {first rest : Held} (h : LowOpen rest) : LowOpen (first + rest) := by
  intro n lt
  obtain ⟨d, member⟩ := h n lt
  exact ⟨d, Multiset.mem_add.mpr (Or.inr member)⟩

/-- A part beside the standard descriptors uses none of their numbers. -/
theorem Pipe.Holds.high {p : Pipe} {part rest : Held} {t : FdTable Desc}
    (holds : p.Holds part) (split : t.opens = part + rest) (low : LowOpen rest) : p.High := by
  intro n lt uses
  obtain ⟨d, member⟩ := (holds.uses_iff n).mp uses
  obtain ⟨d', member'⟩ := low n lt
  exact FdTable.parts_disjoint split member member'

/-- No slot of the ring uses a standard number. -/
def CircularBuffer.High (ring : CircularBuffer Pipe) : Prop := ∀ i, (ring.buffer i).High

/-- A step that stops leaves only proper closes in the log.  `Pipe::create` gives up only when
`room` numbers do not suffice; `undef` says whether undefined behaviour is another reason. -/
structure Stopped (undef : Prop) (k : Proc) (room : Nat) (stopped : Abort × Proc) : Prop where
  steps : ∃ children, Proc.Steps k stopped.2 children
  cause : stopped.1 = .undefined ∧ undef ∨ stopped.1 = .exitFailure ∧ k.limit ≤ room

theorem Stopped.after {undef : Prop} {k k' : Proc} {room room' : Nat} {children : List Child}
    {stopped : Abort × Proc} (h : Stopped undef k' room stopped)
    (steps : Proc.Steps k k' children) (le : room ≤ room') : Stopped undef k room' stopped := by
  obtain ⟨more, steps'⟩ := h.steps
  exact ⟨⟨_, steps.trans steps'⟩,
    h.cause.imp id (fun full => ⟨full.1, steps.limit ▸ full.2.trans le⟩)⟩

theorem Stopped.mono {undef : Prop} {k : Proc} {room room' : Nat} {stopped : Abort × Proc}
    (h : Stopped undef k room stopped) (le : room ≤ room') : Stopped undef k room' stopped :=
  h.after (.refl k) le

theorem stopped_create {undef : Prop} (k : Proc) (owner : Owner) :
    Sat (Pipe.create k owner)
      (fun made => ∃ first second,
        made.1 = ⟨some first, some second⟩ ∧
        made.2.fds.opens = pipePart first second k.nextPipe owner + k.fds.opens ∧
        made.2.nextPipe = k.nextPipe + 1 ∧ Proc.Steps k made.2 [])
      (Stopped undef k (k.fds.opens.card + 1)) := by
  refine Sat.mono (Pipe.create_held k owner) (fun _ h => h) ?_
  rintro stopped ⟨rfl, full⟩
  exact ⟨⟨[], .refl k⟩, Or.inr ⟨rfl, full⟩⟩

/-- What the proofs use of the user-pipe calls made for one user: `Mail` relates the server to
the part of its user pipes, and a call changes that part and hands over the descriptors of the
`currPipe` it returns. -/
structure UserPipeCalls.Lawful (undef : Prop) (calls : UserPipeCalls σ) (session : Nat)
    (Mail : σ → Held → Prop) : Prop where
  read : ∀ (readUid : Int) (p : Pipe) (line : Text) (writeUid : Int) (k : Proc) (server : σ)
    (mail rest : Held), 0 < readUid → k.serving = session → Mail server mail →
    k.fds.opens = mail + rest →
    Sat (calls.readUserPipe readUid p line writeUid k server)
      (fun r => ∃ mail' part, Mail r.2.2 mail' ∧ r.1.Holds part ∧ Own session part ∧
        r.2.1.fds.opens = part + (mail' + rest) ∧ mail'.card ≤ mail.card ∧
        Proc.Steps k r.2.1 [])
      (Stopped undef k (k.fds.opens.card + 1))
  write : ∀ (writeUid : Int) (p : Pipe) (line : Text) (readUid : Int) (k : Proc) (server : σ)
    (mail rest : Held), 0 < writeUid → k.serving = session → Mail server mail →
    k.fds.opens = mail + rest →
    Sat (calls.writeUserPipe writeUid p line readUid k server)
      (fun r => ∃ mail' part, Mail r.2.2 mail' ∧ r.1.Holds part ∧ Own session part ∧
        r.2.1.fds.opens = part + (mail' + rest) ∧ mail'.card ≤ mail.card + 2 ∧
        Proc.Steps k r.2.1 [])
      (Stopped undef k (k.fds.opens.card + 1))

/-- What stands in `currPipe` and in the ring after the element behind a command was handled:
`part` belongs to `currPipe` alone and `created` is a new numbered pipe, made by a `pipe2` whose
count lies between `lo` and `hi`. -/
inductive Connected (session : Nat) (cl : NpCommandLine) (ring : CircularBuffer Pipe)
    (lo hi : Nat) (new : CmdHandler) : Option ICommand → (part created : Held) → Prop
  | alone (curr : new.currPipe = new.prevPipe) (same : new.numberPipeList = ring) :
      Connected session cl ring lo hi new none 0 0
  | skipped (off : ¬ 0 < cl.writeUid) (curr : new.currPipe = new.prevPipe)
      (same : new.numberPipeList = ring) :
      Connected session cl ring lo hi new (some .userPipe) 0 0
  | own (sep : ICommand) (inner : sep.target = none) (part : Held)
      (holds : new.currPipe.Holds part) (own : Own session part)
      (same : new.numberPipeList = ring) : Connected session cl ring lo hi new (some sep) part 0
  | slotOld (number : Int) (err : Bool) (full : ring.get (sizeT number) ≠ .cleared)
      (curr : new.currPipe = ring.get (sizeT number)) (same : new.numberPipeList = ring) :
      Connected session cl ring lo hi new (some (.numbered number err)) 0 0
  | slotNew (number : Int) (err : Bool) (first second pipe : Nat)
      (free : ring.get (sizeT number) = .cleared)
      (curr : new.currPipe = ⟨some first, some second⟩)
      (changed : new.numberPipeList = ring.set (sizeT number) ⟨some first, some second⟩)
      (above : lo ≤ pipe) (below : pipe < hi) :
      Connected session cl ring lo hi new (some (.numbered number err)) 0
        (pipePart first second pipe (.user session))

/-- How a line leaves `currPipe`, the ring and `eol`: `created` is a new numbered pipe and `eol`
the end-of-line pipe when the line has not closed it. -/
inductive Ended (session : Nat) (ring : CircularBuffer Pipe) (lo hi : Nat) (fds : FdTable Desc)
    (new : CmdHandler) : Option Int → (created eol : Held) → Prop
  | plain (eol : Held) (curr : new.currPipe = .cleared) (same : new.numberPipeList = ring)
      (holds : new.eol.Holds eol) (own : Own session eol) :
      Ended session ring lo hi fds new none 0 eol
  | slotOld (number : Int) (full : ring.get (sizeT number) ≠ .cleared)
      (curr : new.currPipe = ring.get (sizeT number)) (same : new.numberPipeList = ring)
      (gone : new.eol.Gone fds) : Ended session ring lo hi fds new (some number) 0 0
  | slotNew (number : Int) (first second pipe : Nat)
      (free : ring.get (sizeT number) = .cleared)
      (curr : new.currPipe = ⟨some first, some second⟩)
      (changed : new.numberPipeList = ring.set (sizeT number) ⟨some first, some second⟩)
      (above : lo ≤ pipe) (below : pipe < hi) (gone : new.eol.Gone fds) :
      Ended session ring lo hi fds new (some number)
        (pipePart first second pipe (.user session)) 0

/-- The pipe before a line's first command when `<i` takes its place: it is not closed. -/
def bypassed (cl : NpCommandLine) (front : Held) : Held := if 0 < cl.readUid then front else 0

theorem bypassed_card (cl : NpCommandLine) (front : Held) :
    (bypassed cl front).card ≤ front.card := by
  unfold bypassed
  split <;> simp

theorem own_pipePart (first second pipe session : Nat) :
    Own session (pipePart first second pipe (.user session)) := by
  intro entry member
  rcases Multiset.mem_add.mp member with member | member
  all_goals
    rw [Multiset.mem_singleton.mp member]
    rfl

namespace Connected

variable {session : Nat} {cl : NpCommandLine} {ring : CircularBuffer Pipe} {lo hi : Nat}
  {new : CmdHandler} {next : Option ICommand} {part created : Held}

theorem widen {lo' hi' : Nat} (h : Connected session cl ring lo hi new next part created)
    (hlo : lo' ≤ lo) (hhi : hi ≤ hi') : Connected session cl ring lo' hi' new next part created := by
  cases h with
  | alone curr same => exact .alone curr same
  | skipped off curr same => exact .skipped off curr same
  | own sep inner part holds own same => exact .own sep inner part holds own same
  | slotOld number err full curr same => exact .slotOld number err full curr same
  | slotNew number err first second pipe free curr changed above below =>
      exact .slotNew number err first second pipe free curr changed (by omega) (by omega)

theorem own_part (h : Connected session cl ring lo hi new next part created) :
    Own session part := by
  cases h with
  | own sep inner part holds own same => exact own
  | _ => exact Own.zero session

/-- A separator inside a line gives `currPipe` descriptors of its own. -/
theorem inner {sep : ICommand} (h : Connected session cl ring lo hi new (some sep) part created)
    (plain : sep.target = none) (used : sep = .userPipe → 0 < cl.writeUid) :
    new.currPipe.Holds part ∧ created = 0 ∧ new.numberPipeList = ring := by
  cases h with
  | skipped off curr same => exact absurd (used rfl) off
  | own _ inner part holds own same => exact ⟨holds, rfl, same⟩
  | slotOld number err full curr same => cases plain
  | slotNew number err first second pipe free curr changed above below => cases plain

/-- `currPipe` uses none of the standard numbers. -/
theorem high {t : FdTable Desc} (rest : Held)
    (h : Connected session cl ring lo hi new next part created)
    (split : t.opens = part + (created + rest)) (low : LowOpen rest)
    (prevHigh : new.prevPipe.High) (ringHigh : ring.High) : new.currPipe.High := by
  cases h with
  | alone curr same => exact curr ▸ prevHigh
  | skipped off curr same => exact curr ▸ prevHigh
  | own sep inner part holds own same => exact holds.high split low.mono
  | slotOld number err full curr same => exact curr ▸ ringHigh _
  | slotNew number err first second pipe free curr changed above below =>
      rw [zero_add] at split
      exact curr ▸ (Pipe.holds_pipePart first second pipe _).high split low

/-- Closing `currPipe` after `prevPipe` was closed: it either is a stale copy of `prevPipe` or holds
its own part. -/
theorem closeCurr {k : Proc} {rest : Held}
    (h : Connected session cl ring lo hi new next part created) (serving : k.serving = session)
    (plain : next.bind ICommand.target = none) (gone : new.prevPipe.Gone k.fds)
    (split : k.fds.opens = part + (created + rest)) :
    (new.currPipe.closePipe k).fds.opens = created + rest ∧
      Proc.Steps k (new.currPipe.closePipe k) [] ∧ created = 0 ∧ new.numberPipeList = ring := by
  subst serving
  cases h with
  | alone curr same =>
      obtain ⟨opens, steps⟩ := Pipe.closePipe_gone gone
      exact ⟨by rw [curr, opens, split, zero_add], curr ▸ steps, rfl, same⟩
  | skipped off curr same =>
      obtain ⟨opens, steps⟩ := Pipe.closePipe_gone gone
      exact ⟨by rw [curr, opens, split, zero_add], curr ▸ steps, rfl, same⟩
  | own sep inner part holds own same =>
      obtain ⟨opens, steps⟩ := Pipe.closePipe_held split holds own
      exact ⟨opens, steps, rfl, same⟩
  | slotOld number err full curr same => cases plain
  | slotNew number err first second pipe free curr changed above below => cases plain

/-- `Connected` only looks at three members of the handler. -/
theorem congr {new' : CmdHandler} (h : Connected session cl ring lo hi new next part created)
    (curr' : new'.currPipe = new.currPipe) (prev' : new'.prevPipe = new.prevPipe)
    (ring' : new'.numberPipeList = new.numberPipeList) :
    Connected session cl ring lo hi new' next part created := by
  cases h with
  | alone curr same => exact .alone (by rw [curr', prev', curr]) (ring'.trans same)
  | skipped off curr same => exact .skipped off (by rw [curr', prev', curr]) (ring'.trans same)
  | own sep inner part holds own same =>
      exact .own sep inner part (curr' ▸ holds) own (ring'.trans same)
  | slotOld number err full curr same =>
      exact .slotOld number err full (curr'.trans curr) (ring'.trans same)
  | slotNew number err first second pipe free curr changed above below =>
      exact .slotNew number err first second pipe free (curr'.trans curr)
        (ring'.trans changed) above below

/-- A numbered pipe leaves no descriptors to `currPipe` alone. -/
theorem part_zero {number : Int} (h : Connected session cl ring lo hi new next part created)
    (target : next.bind ICommand.target = some number) : part = 0 := by
  cases h with
  | own sep inner part holds own same =>
      rw [Option.bind_some, inner] at target
      cases target
  | _ => rfl

theorem ended {new' : CmdHandler} {hi' : Nat} {number : Int} {fds : FdTable Desc}
    (h : Connected session cl ring lo hi new next part created)
    (target : next.bind ICommand.target = some number) (curr' : new'.currPipe = new.currPipe)
    (ring' : new'.numberPipeList = new.numberPipeList) (later : hi ≤ hi')
    (gone : new'.eol.Gone fds) :
    Ended session ring lo hi' fds new' (some number) created 0 := by
  cases h with
  | alone curr same => cases target
  | skipped off curr same => cases target
  | own sep inner part holds own same =>
      rw [Option.bind_some, inner] at target
      cases target
  | slotOld number' err full curr same =>
      cases target
      exact .slotOld _ full (curr'.trans curr) (ring'.trans same) gone
  | slotNew number' err first second pipe free curr changed above below =>
      cases target
      exact .slotNew _ first second pipe free (curr'.trans curr) (ring'.trans changed) above
        (Nat.lt_of_lt_of_le below later) gone

end Connected

/-- The members of the handler that a command does not touch. -/
structure CmdHandler.Kept (old new : CmdHandler) : Prop where
  eol : new.eol = old.eol
  running : new.running = old.running

theorem CmdHandler.Kept.refl (h : CmdHandler) : CmdHandler.Kept h h := ⟨rfl, rfl⟩

theorem CmdHandler.Kept.trans {h₁ h₂ h₃ : CmdHandler} (h : CmdHandler.Kept h₁ h₂)
    (h' : CmdHandler.Kept h₂ h₃) : CmdHandler.Kept h₁ h₃ :=
  ⟨h'.eol.trans h.eol, h'.running.trans h.running⟩

namespace ShellState

variable {undef : Prop} {calls : UserPipeCalls σ} {session : Nat} {Mail : σ → Held → Prop}
  {line : Text} {cl : NpCommandLine}

/-- `createPipe` of a plain separator: `currPipe` gets descriptors of its own. -/
theorem createPipe_own {s : ShellState σ} {sep : ICommand} (isSep : sep.IsSeparator)
    (inner : sep.target = none) :
    Sat (s.createPipe sep)
      (fun made => ∃ part, made.handler.currPipe.Holds part ∧ Own s.proc.serving part ∧
        made.proc.fds.opens = part + s.proc.fds.opens ∧ made.server = s.server ∧
        made.handler = { s.handler with currPipe := made.handler.currPipe } ∧
        Proc.Steps s.proc made.proc [])
      (Stopped undef s.proc (s.proc.fds.opens.card + 1)) := by
  have created : Sat (s.createPipe .pipe)
      (fun made => ∃ part, made.handler.currPipe.Holds part ∧ Own s.proc.serving part ∧
        made.proc.fds.opens = part + s.proc.fds.opens ∧ made.server = s.server ∧
        made.handler = { s.handler with currPipe := made.handler.currPipe } ∧
        Proc.Steps s.proc made.proc [])
      (Stopped undef s.proc (s.proc.fds.opens.card + 1)) := by
    refine Sat.bind (stopped_create s.proc _) ?_
    rintro ⟨made, k⟩ ⟨first, second, rfl, opens, _, steps⟩
    exact ⟨_, Pipe.holds_pipePart _ _ _ _, own_pipePart _ _ _ _, opens, rfl, rfl, steps⟩
  cases sep with
  | exe argv => exact absurd rfl isSep
  | numbered number err => cases inner
  | pipe => exact created
  | userPipe => exact created
  | file name =>
      obtain ⟨part, holds, own, opens, steps⟩ := Pipe.openFile_held s.proc name
      exact ⟨part, holds, own, opens, rfl, rfl, steps⟩

/-- `NumberedPipeCommand::createPipe`: the pipe of the slot, or a new one stored there. -/
theorem createNumberedPipe_spec (s : ShellState σ) (number : Int) :
    Sat (s.createNumberedPipe number)
      (fun made => made.server = s.server ∧ Proc.Steps s.proc made.proc [] ∧
        ((s.handler.numberPipeList.get (sizeT number) ≠ .cleared ∧ made.proc = s.proc ∧
          made.handler =
            { s.handler with currPipe := s.handler.numberPipeList.get (sizeT number) }) ∨
        (s.handler.numberPipeList.get (sizeT number) = .cleared ∧ ∃ first second,
          made.handler = { s.handler with
            currPipe := ⟨some first, some second⟩
            numberPipeList :=
              s.handler.numberPipeList.set (sizeT number) ⟨some first, some second⟩ } ∧
          made.proc.nextPipe = s.proc.nextPipe + 1 ∧
          made.proc.fds.opens = pipePart first second s.proc.nextPipe
            (.user s.proc.serving) + s.proc.fds.opens)))
      (Stopped undef s.proc (s.proc.fds.opens.card + 1)) := by
  unfold createNumberedPipe
  by_cases free : s.handler.numberPipeList.get (sizeT number) = .cleared
  · rw [if_pos (by rw [Pipe.empty_iff]; exact free)]
    refine Sat.bind (stopped_create s.proc _) ?_
    rintro ⟨made, k⟩ ⟨first, second, rfl, opens, count, steps⟩
    exact ⟨rfl, steps, Or.inr ⟨free, first, second, rfl, count, opens⟩⟩
  · rw [if_neg (by rw [Pipe.empty_iff]; exact free)]
    exact ⟨rfl, .refl _, Or.inl ⟨free, rfl, rfl⟩⟩

/-- The rule for the element after a command. -/
theorem connect_spec (law : calls.Lawful undef session Mail) {s : ShellState σ}
    {next : Option ICommand} {mail rest : Held}
    (isSep : ∀ sep, next = some sep → sep.IsSeparator)
    (copied : s.handler.currPipe = s.handler.prevPipe)
    (serving : s.proc.serving = session) (mailed : Mail s.server mail)
    (split : s.proc.fds.opens = mail + rest) :
    Sat (s.connect calls line cl next)
      (fun r => ∃ mail' part created, Mail r.1.server mail' ∧
        r.1.proc.fds.opens = part + (created + (mail' + rest)) ∧
        Connected session cl s.handler.numberPipeList s.proc.nextPipe r.1.proc.nextPipe
          r.1.handler next part created ∧
        r.1.handler.prevPipe = s.handler.prevPipe ∧ CmdHandler.Kept s.handler r.1.handler ∧
        mail'.card ≤ mail.card + (if next = some .userPipe then 2 else 0) ∧
        Proc.Steps s.proc r.1.proc [] ∧ r.2 = next.elim false ICommand.pipeError)
      (Stopped undef s.proc (s.proc.fds.opens.card + 1)) := by
  subst serving
  have unchanged : s.proc.fds.opens = 0 + (0 + (mail + rest)) := by simpa using split
  have plain : ∀ sep : ICommand, sep.IsSeparator → sep.target = none →
      Sat (s.createPipe sep >>= fun made => (.ok (made, sep.pipeError) : Outcome _))
        (fun r => ∃ mail' part created, Mail r.1.server mail' ∧
          r.1.proc.fds.opens = part + (created + (mail' + rest)) ∧
          Connected s.proc.serving cl s.handler.numberPipeList s.proc.nextPipe r.1.proc.nextPipe
            r.1.handler (some sep) part created ∧
          r.1.handler.prevPipe = s.handler.prevPipe ∧ CmdHandler.Kept s.handler r.1.handler ∧
          mail'.card ≤ mail.card + (if some sep = some .userPipe then 2 else 0) ∧
          Proc.Steps s.proc r.1.proc [] ∧ r.2 = sep.pipeError)
        (Stopped undef s.proc (s.proc.fds.opens.card + 1)) := by
    intro sep isSep inner
    refine Sat.bind (createPipe_own isSep inner) ?_
    rintro made ⟨part, holds, own, opens, server, handler, steps⟩
    refine ⟨mail, part, 0, server ▸ mailed, ?_, .own sep inner part holds own ?_, ?_, ?_,
      Nat.le_add_right _ _, steps, rfl⟩
    · rw [opens, split, zero_add]
    · rw [handler]
    · rw [handler]
    · rw [handler]
      exact ⟨rfl, rfl⟩
  cases next with
  | none =>
      exact ⟨mail, 0, 0, mailed, unchanged, .alone copied rfl, rfl, .refl _, Nat.le_add_right _ _,
        .refl _, rfl⟩
  | some sep =>
      cases sep with
      | exe argv => exact absurd rfl (isSep _ rfl)
      | pipe => exact plain .pipe (isSep _ rfl) rfl
      | file name => exact plain (.file name) (isSep _ rfl) rfl
      | userPipe =>
          unfold connect
          by_cases used : 0 < cl.writeUid
          · simp only [if_pos used]
            refine Sat.bind (law.write _ _ line cl.readUid s.proc s.server mail rest used rfl mailed
              split) ?_
            rintro ⟨p, k, server⟩ ⟨mail', part, mailed', holds, own, opens, growth, steps⟩
            exact ⟨mail', part, 0, mailed', by simpa using opens, .own _ rfl part holds own rfl,
              rfl, ⟨rfl, rfl⟩, by simpa using growth, steps, rfl⟩
          · simp only [if_neg used]
            exact ⟨mail, 0, 0, mailed, unchanged, .skipped used copied rfl, rfl, .refl _,
              Nat.le_add_right _ _, .refl _, rfl⟩
      | numbered number err =>
          refine Sat.bind (createNumberedPipe_spec s number) ?_
          rintro made ⟨server, steps, ⟨full, proc, handler⟩ | ⟨free, first, second, handler, count,
            opens⟩⟩
          · refine ⟨mail, 0, 0, server ▸ mailed, by rw [proc]; exact unchanged,
              .slotOld number err full ?_ ?_, ?_, ?_, Nat.le_add_right _ _, steps, rfl⟩
            all_goals rw [handler]
            exact ⟨rfl, rfl⟩
          · refine ⟨mail, 0, _, server ▸ mailed, ?_,
              .slotNew number err first second s.proc.nextPipe free ?_ ?_ (Nat.le_refl _) ?_,
              ?_, ?_, Nat.le_add_right _ _, steps, rfl⟩
            · rw [opens, split, zero_add]
            · rw [handler]
            · rw [handler]
            · exact count ▸ Nat.lt_succ_self _
            · rw [handler]
            · rw [handler]
              exact ⟨rfl, rfl⟩

@[simp] theorem forkCommand_currPipe (s : ShellState σ) (argv : List Text) (pipeErr : Bool) :
    (s.forkCommand argv pipeErr).handler.currPipe = s.handler.currPipe := rfl

@[simp] theorem forkCommand_prevPipe (s : ShellState σ) (argv : List Text) (pipeErr : Bool) :
    (s.forkCommand argv pipeErr).handler.prevPipe = s.handler.prevPipe := rfl

@[simp] theorem forkCommand_fds (s : ShellState σ) (argv : List Text) (pipeErr : Bool) :
    (s.forkCommand argv pipeErr).proc.fds = s.proc.fds := by
  simp only [forkCommand, Proc.fork]
  split <;> rfl

@[simp] theorem forkCommand_environ (s : ShellState σ) (argv : List Text) (pipeErr : Bool) :
    (s.forkCommand argv pipeErr).proc.environ = s.proc.environ := by
  simp only [forkCommand, Proc.fork]
  split <;> rfl

@[simp] theorem forkCommand_nextPipe (s : ShellState σ) (argv : List Text) (pipeErr : Bool) :
    (s.forkCommand argv pipeErr).proc.nextPipe = s.proc.nextPipe := by
  simp only [forkCommand, Proc.fork]
  split <;> rfl

/-- The child of a command on the pipes and the table at its fork. -/
def childOf (argv : List Text) (next : Option ICommand) (s : ShellState σ) : Child :=
  ⟨argv, s.proc.environ, s.handler.currPipe.write (next.elim false ICommand.pipeError)
    (s.handler.prevPipe.read s.proc.fds)⟩

/-- The fork and the wait log one child. -/
theorem forkCommand_steps (argv : List Text) (next : Option ICommand) (s : ShellState σ) :
    Proc.Steps s.proc (s.forkCommand argv (next.elim false ICommand.pipeError)).proc
      [s.childOf argv next] := by
  simp only [forkCommand, Proc.fork]
  split
  · exact Proc.Steps.single (.fork s.proc.nextPid (s.childOf argv next)) rfl rfl rfl
      (Nat.le_refl _) rfl trivial
  · refine ⟨rfl, rfl, rfl, Nat.le_refl _,
      [.fork s.proc.nextPid (s.childOf argv next), .waitpid s.handler.pipelineProcessor.1],
      ?_, ?_, rfl⟩
    · simp [Proc.waitpid, Proc.logEvent, childOf]
    · simp [Event.Proper]

/-- The rule for one command.  The part of the pipe before the command is closed, the part of
`currPipe` becomes that of `prevPipe`, and the child is forked on the resulting table. -/
theorem runCommand_spec (law : calls.Lawful undef session Mail) {s : ShellState σ} {argv : List Text}
    {next : Option ICommand} {prev curr mail rest : Held}
    (isSep : ∀ sep, next = some sep → sep.IsSeparator)
    (serving : s.proc.serving = session) (mailed : Mail s.server mail)
    (holdsPrev : s.handler.prevPipe.Holds prev) (ownPrev : Own session prev)
    (split : s.proc.fds.opens = prev + (curr + (mail + rest))) :
    Sat (s.runCommand calls line cl argv next)
      (fun r => ∃ mail' part created, Mail r.server mail' ∧
        r.proc.fds.opens = curr + (part + (created + (mail' + rest))) ∧
        Connected session cl s.handler.numberPipeList s.proc.nextPipe r.proc.nextPipe
          r.handler next part created ∧
        r.handler.prevPipe = s.handler.currPipe ∧ CmdHandler.Kept s.handler r.handler ∧
        mail'.card ≤ mail.card + (if next = some .userPipe then 2 else 0) ∧
        Proc.Steps s.proc r.proc [r.childOf argv next])
      (Stopped undef s.proc (curr.card + (mail + rest).card + 1)) := by
  subst serving
  obtain ⟨closed, steps⟩ := Pipe.closePipe_held split holdsPrev ownPrev
  have split' : s.shiftPipes.proc.fds.opens = mail + (curr + rest) := by
    change (s.handler.prevPipe.closePipe s.proc).fds.opens = _
    rw [closed]
    abel
  refine Sat.bind (Sat.mono (connect_spec law isSep rfl
    steps.serving mailed split') (fun _ h => h) ?_) ?_
  · rintro stopped h
    refine h.after steps (Nat.le_of_eq ?_)
    rw [split']
    simp only [Multiset.card_add]
    omega
  · rintro ⟨r, pipeErr⟩ ⟨mail', part, created, mailed', opens, connected, shifted, kept, growth,
      steps', flag⟩
    change pipeErr = _ at flag
    subst flag
    have child : (r.forkCommand argv (next.elim false ICommand.pipeError)).childOf argv next =
        r.childOf argv next := by
      simp only [childOf, forkCommand_fds, forkCommand_environ, forkCommand_currPipe,
        forkCommand_prevPipe]
    refine ⟨mail', part, created, mailed', ?_, ?_, shifted, ⟨kept.eol, kept.running⟩, growth, ?_⟩
    · rw [forkCommand_fds, opens]
      abel
    · rw [forkCommand_nextPipe]
      exact (connected.widen steps.nextPipe (Nat.le_refl _)).congr rfl rfl rfl
    · rw [child]
      exact (steps.trans steps').trans (forkCommand_steps argv next r)

/-- What a command before which `p` stands finds on descriptor 0: the read end of `p`, or the
standard input when `p` has none. -/
structure Reads (p : Pipe) (part low : Held) (child : Child) : Prop where
  input : ∀ fd d, p.inFd = some fd → (fd, d) ∈ part → child.fds.get 0 = some d
  standard : p.inFd = none → ∀ d, (0, d) ∈ low → child.fds.get 0 = some d

theorem childOf_reads {s : ShellState σ} {argv : List Text} {next : Option ICommand}
    {part rest : Held} (split : s.proc.fds.opens = part + rest)
    (prevHigh : s.handler.prevPipe.High) (currHigh : s.handler.currPipe.High) :
    Reads s.handler.prevPipe part rest (s.childOf argv next) where
  input fd d input member :=
    Pipe.child_stdin input (FdTable.get_of_mem_part split member) (prevHigh 0 (by decide))
      (currHigh 0 (by decide))
  standard input d member := by
    rw [add_comm] at split
    rw [← FdTable.get_of_mem_part split member]
    exact Pipe.child_stdin_none input (prevHigh 0 (by decide)) (currHigh 0 (by decide))

theorem childOf_writes {s : ShellState σ} {argv : List Text} {next : Option ICommand}
    (prev out rest : Held) (split : s.proc.fds.opens = prev + (out + rest))
    (holdsPrev : s.handler.prevPipe.Holds prev) (currHigh : s.handler.currPipe.High)
    {fd : Nat} {d : Desc} (output : s.handler.currPipe.outFd = some fd) (member : (fd, d) ∈ out) :
    (s.childOf argv next).fds.get 1 = some d := by
  have found : s.proc.fds.get fd = some d := by
    rw [add_left_comm] at split
    exact FdTable.get_of_mem_part split member
  have apart : ¬ s.handler.prevPipe.Uses fd := by
    intro uses
    obtain ⟨d', member'⟩ := (holdsPrev.uses_iff fd).mp uses
    exact FdTable.parts_disjoint split member' (Multiset.mem_add.mpr (Or.inl member))
  have high : fd ≠ 0 := by
    rintro rfl
    exact currHigh 0 (by decide) (Or.inr output)
  exact Pipe.child_stdout output found apart high (currHigh 1 (by decide))

theorem Reads.mono {p : Pipe} {part low more : Held} {child : Child}
    (h : Reads p part (more + low) child) : Reads p part low child :=
  ⟨h.input, fun none d member => h.standard none d (Multiset.mem_add.mpr (Or.inr member))⟩

/-- The children of a line: the first one reads `currPipe` as it was before the line's first
command, the last one has the pipes of the final state. -/
structure Forked (p : Pipe) (part low : Held) (next : Option ICommand) (r : ShellState σ)
    (children : List Child) : Prop where
  first : ∃ child, children.head? = some child ∧ Reads p part low child
  last : ∃ argv, children.getLast? = some (r.childOf argv next)

/-- The rule for one command with what its child finds. -/
theorem runCommand_forked (law : calls.Lawful undef session Mail) {s : ShellState σ}
    {argv : List Text} (next : Option ICommand) {prev curr mail rest : Held}
    (isSep : ∀ sep, next = some sep → sep.IsSeparator)
    (serving : s.proc.serving = session) (mailed : Mail s.server mail)
    (holdsPrev : s.handler.prevPipe.Holds prev) (ownPrev : Own session prev)
    (holdsCurr : s.handler.currPipe.Holds curr)
    (low : LowOpen rest) (ringHigh : s.handler.numberPipeList.High)
    (split : s.proc.fds.opens = prev + (curr + (mail + rest))) :
    Sat (s.runCommand calls line cl argv next)
      (fun r => ∃ mail' part created, Mail r.server mail' ∧
        r.proc.fds.opens = curr + (part + (created + (mail' + rest))) ∧
        Connected session cl s.handler.numberPipeList s.proc.nextPipe r.proc.nextPipe
          r.handler next part created ∧
        r.handler.prevPipe = s.handler.currPipe ∧ CmdHandler.Kept s.handler r.handler ∧
        mail'.card ≤ mail.card + (if next = some .userPipe then 2 else 0) ∧
        Proc.Steps s.proc r.proc [r.childOf argv next] ∧
        Forked s.handler.currPipe curr rest next r [r.childOf argv next])
      (Stopped undef s.proc ((mail + rest).card + 3)) := by
  have small := holdsCurr.card_le
  refine Sat.mono (runCommand_spec law isSep serving mailed holdsPrev ownPrev split) ?_
    (fun _ h => h.mono (by omega))
  rintro r ⟨mail', part, created, mailed', opens, connected, shifted, kept, growth, steps⟩
  refine ⟨mail', part, created, mailed', opens, connected, shifted, kept, growth, steps, ?_, argv,
    rfl⟩
  have prevHigh : r.handler.prevPipe.High := by
    rw [shifted]
    exact holdsCurr.high opens low.mono.mono.mono
  have inside : r.proc.fds.opens = part + (created + (curr + (mail' + rest))) := by
    rw [opens]
    abel
  have currHigh := connected.high _ inside low.mono.mono prevHigh ringHigh
  exact ⟨_, rfl, (shifted ▸ childOf_reads opens prevHigh currHigh).mono.mono.mono⟩

theorem runCommands_separator {sep : ICommand} (isSep : sep.IsSeparator)
    (rest : List ICommand) (s : ShellState σ) :
    runCommands calls line cl (sep :: rest) s = runCommands calls line cl rest s := by
  cases sep with
  | exe argv => exact absurd rfl isSep
  | _ => rfl

/-- What is known after the loop over the commands has run from `s`. -/
def LoopDone (session : Nat) (Mail : σ → Held → Prop) (cl : NpCommandLine) (s : ShellState σ)
    (curr rest : Held) (next : Option ICommand) (r : ShellState σ) : Prop :=
  ∃ mail' prev' part created children, Mail r.server mail' ∧
    r.proc.fds.opens = prev' + (part + (created + (mail' + rest))) ∧
    Connected session cl s.handler.numberPipeList s.proc.nextPipe r.proc.nextPipe
      r.handler next part created ∧
    r.handler.prevPipe.Holds prev' ∧ Own session prev' ∧
    CmdHandler.Kept s.handler r.handler ∧ Proc.Steps s.proc r.proc children ∧
    Forked s.handler.currPipe curr rest next r children

/-- The rule for the loop over the commands, by induction on their alternation with the
separators.  The part of `prevPipe` is the one of the pipe before the current command. -/
theorem runCommands_spec (law : calls.Lawful undef session Mail) {commands : List ICommand}
    (shape : Shape commands) (used : 0 < cl.writeUid ∨ .userPipe ∉ commands.dropLast)
    {s : ShellState σ} {prev curr mail rest : Held} (serving : s.proc.serving = session)
    (mailed : Mail s.server mail)
    (holdsPrev : s.handler.prevPipe.Holds prev) (ownPrev : Own session prev)
    (holdsCurr : s.handler.currPipe.Holds curr) (ownCurr : Own session curr)
    (low : LowOpen rest) (ringHigh : s.handler.numberPipeList.High)
    (split : s.proc.fds.opens = prev + (curr + (mail + rest))) :
    Sat (s.runCommands calls line cl commands)
      (LoopDone session Mail cl s curr rest (closing commands))
      (Stopped undef s.proc ((mail + rest).card + 2 * commands.count .userPipe + 3)) := by
  induction shape generalizing s prev curr mail with
  | bare argv =>
      refine Sat.bind (runCommand_forked law none (by simp) serving mailed holdsPrev ownPrev holdsCurr
        low ringHigh split) ?_
      rintro r ⟨mail', part, created, mailed', opens, connected, shifted, kept, growth, steps, forked⟩
      exact ⟨mail', curr, part, created, _, mailed', opens, connected, shifted ▸ holdsCurr,
        ownCurr, kept, steps, forked⟩
  | closed argv sep isSep =>
      refine Sat.bind (Sat.mono (runCommand_forked law (some sep) (by simpa using isSep)
        serving mailed holdsPrev ownPrev holdsCurr low ringHigh split) (fun _ h => h)
        (fun _ h => h.mono (by omega))) ?_
      rintro r ⟨mail', part, created, mailed', opens, connected, shifted, kept, growth, steps, forked⟩
      rw [runCommands_separator isSep, closing_closed argv isSep]
      exact ⟨mail', curr, part, created, _, mailed', opens, connected, shifted ▸ holdsCurr,
        ownCurr, kept, steps, forked⟩
  | more argv sep others isSep inner tail ih =>
      have sepUsed : sep = .userPipe → 0 < cl.writeUid := by
        rintro rfl
        rcases used with used | absent
        · exact used
        · exact absurd (by simp [List.dropLast_cons_of_ne_nil tail.ne_nil]) absent
      have laterUsed : 0 < cl.writeUid ∨ .userPipe ∉ others.dropLast := by
        refine used.imp id (fun absent member => absent ?_)
        rw [List.dropLast_cons_of_ne_nil (by simp), List.dropLast_cons_of_ne_nil tail.ne_nil]
        exact List.mem_cons_of_mem _ (List.mem_cons_of_mem _ member)
      refine Sat.bind (Sat.mono (runCommand_forked law (some sep) (by simpa using isSep)
        serving mailed holdsPrev ownPrev holdsCurr low ringHigh split) (fun _ h => h)
        (fun _ h => h.mono (by omega))) ?_
      rintro r ⟨mail', part, created, mailed', opens, connected, shifted, kept, growth, steps, forked⟩
      rw [runCommands_separator isSep, closing_more argv sep tail]
      have ownPart := connected.own_part
      obtain ⟨holdsPart, rfl, ring⟩ := connected.inner inner sepUsed
      rw [zero_add] at opens
      refine Sat.mono (ih laterUsed (steps.serving.trans serving) mailed' (shifted ▸ holdsCurr)
        ownCurr holdsPart ownPart (ring ▸ ringHigh) opens) ?_ ?_
      · rintro r' ⟨mail'', prev', part', created', children, mailed'', opens', connected', holds',
          own', kept', steps', forked'⟩
        refine ⟨mail'', prev', part', created', _, mailed'', opens', ?_, holds', own',
          kept.trans kept', steps.trans steps', ?_, ?_⟩
        · exact (ring ▸ connected').widen steps.nextPipe (Nat.le_refl _)
        · obtain ⟨child, found, reads⟩ := forked.first
          exact ⟨child, by rw [List.head?_append_of_ne_nil _ (by simp), found], reads⟩
        · obtain ⟨argv', found⟩ := forked'.last
          refine ⟨argv', ?_⟩
          rw [List.getLast?_append, found]
          rfl
      · intro stopped h
        refine h.after steps ?_
        simp only [Option.some.injEq, Multiset.card_add, List.count_cons, beq_iff_eq] at growth ⊢
        by_cases mailbox : sep = .userPipe <;> simp only [mailbox, if_true, if_false] at growth ⊢ <;>
          omega

/-- The rule for the start of a line whose front slot holds `front`. -/
theorem beginLine_spec (law : calls.Lawful undef session Mail) {s : ShellState σ}
    {front mail rest : Held} (serving : s.proc.serving = session) (mailed : Mail s.server mail)
    (holds : ¬ 0 < cl.readUid → s.handler.numberPipeList.next.front.Holds front)
    (own : Own session front) (split : s.proc.fds.opens = front + (mail + rest)) :
    Sat (s.beginLine calls line cl)
      (fun r => ∃ mail' curr eol, Mail r.server mail' ∧
        r.proc.fds.opens = curr + (mail' + (eol + (bypassed cl front + rest))) ∧
        r.handler.currPipe.Holds curr ∧ Own session curr ∧
        r.handler.eol.Holds eol ∧ Own session eol ∧
        (¬ 0 < cl.readUid →
          r.handler.currPipe = s.handler.numberPipeList.next.front ∧ curr = front) ∧
        r.handler.numberPipeList = s.handler.numberPipeList.next ∧
        r.handler.prevPipe = s.handler.prevPipe ∧ r.handler.running = s.handler.running ∧
        mail'.card ≤ mail.card ∧ Proc.Steps s.proc r.proc [])
      (Stopped undef s.proc (s.proc.fds.opens.card + 3)) := by
  subst serving
  unfold beginLine
  refine Sat.bind (Sat.mono (stopped_create s.proc _) (fun _ h => h)
    (fun _ h => h.mono (by omega))) ?_
  rintro ⟨made, k⟩ ⟨first, second, rfl, opens, _, steps⟩
  have holdsEol := Pipe.holds_pipePart first second s.proc.nextPipe (.user s.proc.serving)
  have ownEol := own_pipePart first second s.proc.nextPipe s.proc.serving
  change k.fds.opens = _ at opens
  by_cases used : 0 < cl.readUid
  · simp only [if_pos used, bypassed]
    refine Sat.bind (Sat.mono (law.read _ _ line cl.writeUid k s.server mail
      (pipePart first second s.proc.nextPipe (.user s.proc.serving) + (front + rest)) used
      steps.serving mailed ?_) (fun _ h => h) (fun _ h => h.after steps ?_)) ?_
    · rw [opens, split]
      abel
    · rw [opens, Multiset.card_add, Nat.add_comm _ s.proc.fds.opens.card]
      simp [pipePart]
    · rintro ⟨p, k', server⟩ ⟨mail', part, mailed', holds', own', opens', growth, steps'⟩
      exact ⟨mail', part, _, mailed', opens', holds', own', holdsEol, ownEol,
        fun off => absurd used off, rfl, rfl, rfl, growth, steps.trans steps'⟩
  · simp only [if_neg used, bypassed]
    refine ⟨mail, front, _, mailed, ?_, holds used, own, holdsEol, ownEol, fun _ => ⟨rfl, rfl⟩, rfl, rfl,
      rfl, Nat.le_refl _, steps⟩
    simp only
    rw [opens, split]
    abel

/-- The rule for the end of a line. -/
theorem endLine_spec {s : ShellState σ} {ring : CircularBuffer Pipe} {lo : Nat}
    {prev part created eol rest : Held} (shape : Shape cl.npCommands)
    (serving : s.proc.serving = session)
    (connected : Connected session cl ring lo s.proc.nextPipe s.handler (closing cl.npCommands)
      part created)
    (holdsPrev : s.handler.prevPipe.Holds prev) (ownPrev : Own session prev)
    (holdsEol : s.handler.eol.Holds eol) (ownEol : Own session eol)
    (split : s.proc.fds.opens = prev + (part + (created + (eol + rest)))) :
    Sat (s.endLine cl)
      (fun r => ∃ eol', r.server = s.server ∧ r.proc.fds.opens = created + (eol' + rest) ∧
        Ended session ring lo r.proc.nextPipe r.proc.fds r.handler cl.target created eol' ∧
        (cl.target ≠ none → r.handler.currPipe = s.handler.currPipe) ∧
        r.handler.prevPipe = .cleared ∧ r.handler.running = s.handler.running ∧
        Proc.Steps s.proc r.proc [])
      (fun _ => False) := by
  subst serving
  obtain ⟨last, found, numbered⟩ := closing_getLast shape
  obtain ⟨closed, steps⟩ := Pipe.closePipe_held split holdsPrev ownPrev
  have gonePrev := Pipe.gone_of_closed split holdsPrev closed
  unfold endLine
  simp only [found]
  cases target : (closing cl.npCommands).bind ICommand.target with
  | none =>
      rw [if_pos (by simp [numbered, target])]
      have waited : Proc.Steps (s.handler.prevPipe.closePipe s.proc)
          ((s.handler.prevPipe.closePipe s.proc).waitpid s.handler.pipelineProcessor.2) [] :=
        Proc.Steps.single (.waitpid s.handler.pipelineProcessor.2) rfl rfl rfl (Nat.le_refl _) rfl
          trivial
      obtain ⟨opens, steps', rfl, same⟩ := connected.closeCurr (waited.serving.trans steps.serving)
        target gonePrev closed
      refine ⟨eol, rfl, opens, ?_, fun some => absurd target some, rfl, rfl,
        (steps.trans waited).trans steps'⟩
      rw [NpCommandLine.target, target]
      exact .plain eol rfl same holdsEol ownEol
  | some number =>
      rw [if_neg (by simp [numbered, target])]
      have inside : (s.handler.prevPipe.closePipe s.proc).fds.opens =
          eol + (created + rest) := by
        rw [closed, connected.part_zero target]
        abel
      obtain ⟨opens, steps'⟩ := Pipe.readEOF_held inside holdsEol (steps.serving ▸ ownEol)
      refine ⟨0, rfl, by rw [zero_add]; exact opens, ?_, fun _ => rfl, rfl, rfl,
        steps.trans steps'⟩
      rw [NpCommandLine.target, target]
      exact connected.ended target rfl rfl (steps.trans steps').nextPipe
        (Pipe.gone_of_closed inside holdsEol opens)

/-- What is known after a whole line whose front slot held `front`. -/
def LineDone (session : Nat) (Mail : σ → Held → Prop) (cl : NpCommandLine) (s : ShellState σ)
    (front rest : Held) (r : ShellState σ) : Prop :=
  ∃ mail' created eol children, Mail r.server mail' ∧
    r.proc.fds.opens = created + (eol + (mail' + (bypassed cl front + rest))) ∧
    Ended session s.handler.numberPipeList.next s.proc.nextPipe r.proc.nextPipe r.proc.fds
      r.handler cl.target created eol ∧
    r.handler.prevPipe = .cleared ∧ r.handler.running = s.handler.running ∧
    Proc.Steps s.proc r.proc children ∧
    (∃ child, children.head? = some child ∧
      (¬ 0 < cl.readUid → Reads s.handler.numberPipeList.next.front front rest child)) ∧
    (cl.target ≠ none → ∃ child, children.getLast? = some child ∧
      ∀ fd d, r.handler.currPipe.outFd = some fd →
        (fd, d) ∈ created + (bypassed cl front + rest) → child.fds.get 1 = some d)

/-- The rule for a whole line. -/
theorem runCommandLine_spec (law : calls.Lawful undef session Mail) (shape : Shape cl.npCommands)
    (used : cl.NoSkippedUserPipe) {s : ShellState σ} {front mail rest : Held}
    (serving : s.proc.serving = session) (mailed : Mail s.server mail)
    (prevCleared : s.handler.prevPipe = .cleared)
    (holds : ¬ 0 < cl.readUid → s.handler.numberPipeList.next.front.Holds front)
    (own : Own session front) (low : LowOpen rest) (ringHigh : s.handler.numberPipeList.High)
    (split : s.proc.fds.opens = front + (mail + rest)) :
    Sat (s.runCommandLine calls line cl) (LineDone session Mail cl s front rest)
      (Stopped undef s.proc (s.proc.fds.opens.card + 2 * cl.npCommands.count .userPipe + 5)) := by
  refine Sat.bind (Sat.mono (beginLine_spec law serving mailed holds own split) (fun _ h => h)
    (fun _ h => h.mono (by omega))) ?_
  rintro r ⟨mail₁, curr, eol, mailed₁, opens₁, holdsCurr, ownCurr, holdsEol, ownEol, entered, ring,
    prev₁, running₁, growth₁, steps₁⟩
  have split₁ : r.proc.fds.opens = 0 + (curr + (mail₁ + (eol + (bypassed cl front + rest)))) := by
    rw [opens₁, zero_add]
  have holdsPrev : r.handler.prevPipe.Holds 0 := by
    rw [prev₁, prevCleared]
    exact Pipe.holds_cleared
  refine Sat.bind (Sat.mono (runCommands_spec law shape used (steps₁.serving.trans serving)
    mailed₁ holdsPrev (Own.zero session) holdsCurr ownCurr low.mono.mono (ring ▸ ringHigh) split₁)
    (fun _ h => h) ?_) ?_
  · intro stopped h
    have small := holdsEol.card_le
    have front_le := bypassed_card cl front
    refine h.after steps₁ ?_
    rw [split]
    simp only [Multiset.card_add]
    omega
  rintro r' ⟨mail₂, prev, part, created, children, mailed₂, opens₂, connected, holdsPrev₂, ownPrev₂,
    kept, steps₂, forked⟩
  have steps := steps₁.trans steps₂
  rw [List.nil_append] at steps
  have split₂ : r'.proc.fds.opens =
      prev + (part + (created + (eol + (mail₂ + (bypassed cl front + rest))))) := by
    rw [opens₂]
    abel
  obtain ⟨⟨child, first, reads⟩, argv, last⟩ := forked
  have prevHigh := holdsPrev₂.high opens₂ low.mono.mono.mono.mono.mono
  have currHigh := connected.high (prev + (mail₂ + (eol + (bypassed cl front + rest))))
    (by rw [opens₂]; abel) low.mono.mono.mono.mono prevHigh (ring ▸ ringHigh)
  rw [ring] at connected
  refine Sat.mono (endLine_spec (s := r') shape (steps.serving.trans serving)
    (connected.widen steps₁.nextPipe (Nat.le_refl _)) holdsPrev₂ ownPrev₂ (kept.eol ▸ holdsEol)
    ownEol split₂) ?_ ?_
  · rintro r'' ⟨eol', server, opens₃, ended, same, cleared, running, steps₃⟩
    refine ⟨mail₂, created, eol', children, server ▸ mailed₂, opens₃, ended, cleared, ?_, ?_,
      ⟨child, first, fun off => ?_⟩, fun numbered => ⟨_, last, ?_⟩⟩
    · rw [running, kept.running, running₁]
    · simpa using steps.trans steps₃
    · obtain ⟨entry, rfl⟩ := entered off
      exact (entry ▸ reads).mono.mono
    · rw [same numbered]
      intro fd d output member
      refine childOf_writes prev (created + (bypassed cl front + rest)) (part + (mail₂ + eol)) ?_
        holdsPrev₂ currHigh output member
      rw [opens₂]
      abel
  · exact fun _ impossible => impossible.elim

end ShellState

end NetProg
