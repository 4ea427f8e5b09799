import Mathlib.Data.List.Induction
import NetProg.Shell.NpRun
import NetProg.Shell.Wiring

/-!
# Which commands are waited for

`npshell` has no handler for `SIGCHLD`: a command that has ended is reaped by the `waitpid` of
`runShell` or not at all.  When the loop forks a command it waits for the one two places back, which
may belong to an earlier line, and after a line that does not end in a numbered pipe it waits for the
last command.  A run has the process ids 1, 2, 3, ... in the order of its commands.  The built-in
commands, `exit` among them, fork nothing and wait for nobody.
-/

namespace NetProg

/-- The process ids that were forked. -/
def forkedPids (log : List Event) : List Nat :=
  log.filterMap fun
    | .fork pid _ => some pid
    | _ => none

/-- The process ids that `waitpid` was called for. -/
def waitedPids (log : List Event) : List Nat :=
  log.filterMap fun
    | .waitpid pid => some pid
    | _ => none

/-- The commands that were forked and never waited for. -/
def unreaped (log : List Event) : List Nat := (forkedPids log).filter (· ∉ waitedPids log)

/-- The number of commands of some lines. -/
def commandCount (lines : List NpCommandLine) : Nat :=
  (lines.map fun cl => (exeCommands cl.npCommands).length).sum

/-- The last commands of the lines that do not end in a numbered pipe, after `n` other commands. -/
def plainEnds (n : Nat) : List NpCommandLine → List Nat
  | [] => []
  | cl :: lines =>
      let last := n + (exeCommands cl.npCommands).length
      if cl.target = none then last :: plainEnds last lines else plainEnds last lines

theorem commandCount_append (first later : List NpCommandLine) :
    commandCount (first ++ later) = commandCount first + commandCount later := by
  rw [commandCount, List.map_append, List.sum_append]
  rfl

theorem plainEnds_append (n : Nat) (first later : List NpCommandLine) :
    plainEnds n (first ++ later) =
      plainEnds n first ++ plainEnds (n + commandCount first) later := by
  induction first generalizing n with
  | nil => rfl
  | cons cl lines ih =>
      have count : n + commandCount (cl :: lines) =
          n + (exeCommands cl.npCommands).length + commandCount lines := by
        rw [commandCount, List.map_cons, List.sum_cons, Nat.add_assoc]
        rfl
      rw [List.cons_append, plainEnds, plainEnds, ih, count]
      split
      · rfl
      · rfl

theorem Shape.exeCommands_pos {commands : List ICommand} (shape : Shape commands) :
    0 < (exeCommands commands).length := by
  cases shape <;> simp [exeCommands]

/-- No process is waited for before it was forked. -/
def WaitsBehindForks (log : List Event) : Prop :=
  ∀ before pid after, log = before ++ .waitpid pid :: after → pid ∈ forkedPids before

/-- What the log of a run of these lines says about its processes. -/
structure Reaped (lines : List NpCommandLine) (log : List Event) : Prop where
  forked : forkedPids log = List.range' 1 (commandCount lines)
  waited : ∀ pid, (waitedPids log).count pid =
    (if 1 ≤ pid ∧ pid + 2 ≤ commandCount lines then 1 else 0) + (plainEnds 0 lines).count pid
  order : WaitsBehindForks log
  left : (unreaped log).length ≤ 2
  prompt : ∀ before cl, lines = before ++ [cl] → cl.target = none →
    ∀ pid ∈ unreaped log, pid + 1 = commandCount lines

section Log

variable {log later : List Event} {pid : Nat}

@[simp] theorem forkedPids_append (log later : List Event) :
    forkedPids (log ++ later) = forkedPids log ++ forkedPids later :=
  List.filterMap_append

@[simp] theorem waitedPids_append (log later : List Event) :
    waitedPids (log ++ later) = waitedPids log ++ waitedPids later :=
  List.filterMap_append

/-- One more event keeps the order, unless it is a wait for a process that was never forked. -/
theorem WaitsBehindForks.snoc {e : Event} (h : WaitsBehindForks log)
    (last : ∀ pid, e = .waitpid pid → pid ∈ forkedPids log) : WaitsBehindForks (log ++ [e]) := by
  intro before pid after split
  rcases List.eq_nil_or_concat after with rfl | ⟨more, e', rfl⟩
  · obtain ⟨rfl, same⟩ := List.append_inj' split rfl
    exact last pid (List.cons.inj same).1
  · rw [List.concat_eq_append, ← List.cons_append, ← List.append_assoc] at split
    exact h before pid more (List.append_inj' split rfl).1

end Log

/-- Between the two states nothing was forked and nobody was waited for. -/
structure Proc.Childless (k k' : Proc) : Prop where
  nextPid : k'.nextPid = k.nextPid
  log : ∃ events, k'.log = k.log ++ events ∧ forkedPids events = [] ∧ waitedPids events = []

namespace Proc.Childless

variable {k k' k'' : Proc}

theorem quiet (nextPid : k'.nextPid = k.nextPid) (log : k'.log = k.log) : Proc.Childless k k' :=
  ⟨nextPid, [], by rw [log, List.append_nil], rfl, rfl⟩

theorem refl (k : Proc) : Proc.Childless k k := quiet rfl rfl

theorem trans (h : Proc.Childless k k') (h' : Proc.Childless k' k'') : Proc.Childless k k'' := by
  obtain ⟨events, log, forked, waited⟩ := h.log
  obtain ⟨events', log', forked', waited'⟩ := h'.log
  refine ⟨h'.nextPid.trans h.nextPid, events ++ events', ?_, ?_, ?_⟩
  · rw [log', log, List.append_assoc]
  · rw [forkedPids_append, forked, forked', List.append_nil]
  · rw [waitedPids_append, waited, waited', List.append_nil]

theorem cout (k : Proc) (message : Text) : Proc.Childless k (k.logEvent (.cout message)) :=
  ⟨rfl, _, rfl, rfl, rfl⟩

theorem close (k : Proc) (fd : Fd) : Proc.Childless k (k.close fd) := by
  cases fd with
  | none => exact refl k
  | some n => exact ⟨rfl, _, rfl, rfl, rfl⟩

theorem closePipe (p : Pipe) (k : Proc) : Proc.Childless k (p.closePipe k) :=
  (close k p.inFd).trans (close _ p.outFd)

theorem readEOF (p : Pipe) (k : Proc) : Proc.Childless k (p.readEOF k) :=
  (close k p.outFd).trans (close _ p.inFd)

theorem openFile (k : Proc) (name : Text) : Proc.Childless k (k.openFile name).2 := by
  unfold Proc.openFile
  split
  · unfold Proc.openObject
    split
    · exact quiet rfl rfl
    · exact refl k
  · exact refl k

theorem create (k : Proc) (owner : Owner) :
    Sat (Pipe.create k owner) (fun made => Proc.Childless k made.2) (fun _ => True) := by
  refine Sat.mono (Pipe.create_rest k owner) ?_ fun _ _ => trivial
  intro made rest
  rw [rest]
  exact quiet rfl rfl

end Proc.Childless

/-- After `n` commands: the last two are remembered, the ones before them were waited for, and those
in `ends` once more at the end of their lines. -/
structure Reaping (n : Nat) (ends : List Nat) (k : Proc) (processor : Nat × Nat) : Prop where
  nextPid : k.nextPid = n + 1
  waiting : processor = (n - 1, n)
  forked : forkedPids k.log = List.range' 1 n
  waited : ∀ pid, (waitedPids k.log).count pid =
    (if 1 ≤ pid ∧ pid + 2 ≤ n then 1 else 0) + ends.count pid
  order : WaitsBehindForks k.log

namespace Reaping

variable {n : Nat} {ends : List Nat} {k k' : Proc} {processor : Nat × Nat}

/-- What forks nothing and waits for nobody changes nothing. -/
theorem childless (h : Reaping n ends k processor) (none : Proc.Childless k k') :
    Reaping n ends k' processor := by
  obtain ⟨nextPid, events, log, forked, waited⟩ := none
  refine ⟨nextPid.trans h.nextPid, h.waiting, ?_, ?_, ?_⟩
  · rw [log, forkedPids_append, forked, List.append_nil, h.forked]
  · intro pid
    rw [log, waitedPids_append, waited, List.append_nil, h.waited]
  · rw [log]
    clear log forked
    induction events using List.reverseRecOn with
    | nil =>
        rw [List.append_nil]
        exact h.order
    | append_singleton events e ih =>
        rw [waitedPids_append, List.append_eq_nil_iff] at waited
        rw [← List.append_assoc]
        refine (ih waited.1).snoc ?_
        rintro pid rfl
        cases waited.2

/-- A wait for a process that was forked. -/
theorem waitpid {pid : Nat} {ends' : List Nat} (h : Reaping n ends k processor)
    (known : 1 ≤ pid ∧ pid ≤ n) (count : ∀ p, ends'.count p = ends.count p + [pid].count p) :
    Reaping n ends' (k.waitpid pid) processor := by
  refine ⟨h.nextPid, h.waiting, ?_, ?_, ?_⟩
  · change forkedPids (k.log ++ [.waitpid pid]) = _
    rw [forkedPids_append, h.forked]
    exact List.append_nil _
  · intro p
    change (waitedPids (k.log ++ [.waitpid pid])).count p = _
    rw [waitedPids_append, List.count_append, h.waited, count, ← Nat.add_assoc]
    rfl
  · refine h.order.snoc ?_
    rintro p same
    cases same
    rw [h.forked, List.mem_range'_1]
    omega

variable {s r : ShellState Unit} {line : Text} {cl : NpCommandLine} {flag : Bool}

/-- `fork` and the wait behind it. -/
theorem forkCommand (h : Reaping n ends s.proc s.handler.pipelineProcessor) (argv : List Text)
    (pipeErr : Bool) :
    Reaping (n + 1) ends (s.forkCommand argv pipeErr).proc
      (s.forkCommand argv pipeErr).handler.pipelineProcessor := by
  have forked : forkedPids (s.proc.log ++ [.fork (n + 1) ⟨argv, s.proc.environ,
      s.handler.currPipe.write pipeErr (s.handler.prevPipe.read s.proc.fds)⟩]) =
        List.range' 1 (n + 1) := by
    rw [forkedPids_append, h.forked, List.range'_concat, Nat.one_mul, Nat.add_comm 1 n]
    rfl
  have order : WaitsBehindForks (s.proc.log ++ [.fork (n + 1) ⟨argv, s.proc.environ,
      s.handler.currPipe.write pipeErr (s.handler.prevPipe.read s.proc.fds)⟩]) :=
    h.order.snoc fun pid impossible => by cases impossible
  have waited : ∀ child, waitedPids (s.proc.log ++ [.fork (n + 1) child]) =
      waitedPids s.proc.log := fun child => by
    rw [waitedPids_append]
    exact List.append_nil _
  simp only [ShellState.forkCommand, h.waiting, Proc.fork, h.nextPid]
  by_cases first : n - 1 = 0
  · rw [if_pos first]
    refine ⟨rfl, rfl, forked, fun pid => ?_, order⟩
    dsimp only
    rw [waited, h.waited, if_neg (by omega), if_neg (by omega)]
  · rw [if_neg first]
    refine ⟨rfl, rfl, ?_, fun pid => ?_, ?_⟩
    · change forkedPids (_ ++ [.waitpid (n - 1)]) = _
      rw [forkedPids_append, forked]
      exact List.append_nil _
    · change (waitedPids (_ ++ [.waitpid (n - 1)])).count pid = _
      rw [waitedPids_append, waited, List.count_append, h.waited]
      change _ + [n - 1].count pid = _
      rw [List.count_singleton, Nat.add_right_comm]
      congr 1
      by_cases here : n - 1 = pid
      · have new : ¬ (1 ≤ pid ∧ pid + 2 ≤ n) := by omega
        have old : 1 ≤ pid ∧ pid + 2 ≤ n + 1 := by omega
        rw [if_neg new, if_pos old, if_pos (beq_iff_eq.mpr here)]
      · have same : 1 ≤ pid ∧ pid + 2 ≤ n ↔ 1 ≤ pid ∧ pid + 2 ≤ n + 1 := by omega
        have other : ¬ (n - 1 == pid) = true := by rwa [beq_iff_eq]
        rw [if_neg other, Nat.add_zero, if_congr same rfl rfl]
    · refine order.snoc ?_
      rintro pid same
      cases same
      rw [forked, List.mem_range'_1]
      omega

/-- What stands behind a command only opens descriptors. -/
theorem createPipe (h : Reaping n ends s.proc s.handler.pipelineProcessor) (sep : ICommand) :
    Sat (s.createPipe sep) (fun r => Reaping n ends r.proc r.handler.pipelineProcessor)
      (fun _ => True) := by
  have own : Sat (do
      let made ← Pipe.create s.proc (.user s.proc.serving)
      .ok { s with proc := made.2, handler := { s.handler with currPipe := made.1 } } :
        Outcome (ShellState Unit))
      (fun r => Reaping n ends r.proc r.handler.pipelineProcessor) (fun _ => True) :=
    Sat.bind (Proc.Childless.create s.proc _) fun _ only => h.childless only
  cases sep with
  | exe argv => exact own
  | pipe => exact own
  | userPipe => exact own
  | file name => exact h.childless (.openFile s.proc name)
  | numbered number err =>
      simp only [ShellState.createPipe, ShellState.createNumberedPipe]
      split
      · exact Sat.bind (Proc.Childless.create s.proc _) fun _ only => h.childless only
      · exact h

theorem connect (h : Reaping n ends s.proc s.handler.pipelineProcessor) (next : Option ICommand) :
    Sat (s.connect npshellCalls line cl next)
      (fun r => Reaping n ends r.1.proc r.1.handler.pipelineProcessor) (fun _ => True) := by
  have made : ∀ sep : ICommand, Sat (do
      let s ← s.createPipe sep
      .ok (s, sep.pipeError) : Outcome (ShellState Unit × Bool))
      (fun r => Reaping n ends r.1.proc r.1.handler.pipelineProcessor) (fun _ => True) :=
    fun sep => Sat.bind (h.createPipe sep) fun _ after => after
  cases next with
  | none => exact h
  | some sep =>
      cases sep with
      | exe argv => exact trivial
      | pipe => exact made .pipe
      | file name => exact made (.file name)
      | numbered number err => exact made (.numbered number err)
      | userPipe =>
          simp only [ShellState.connect]
          split
          · exact h
          · exact h

/-- One command. -/
theorem command (h : Reaping n ends s.proc s.handler.pipelineProcessor) (argv : List Text)
    {next : Option ICommand} (made : s.shiftPipes.connect npshellCalls line cl next = .ok (r, flag)) :
    Reaping (n + 1) ends (r.forkCommand argv flag).proc
      (r.forkCommand argv flag).handler.pipelineProcessor := by
  have shifted : Reaping n ends s.shiftPipes.proc s.shiftPipes.handler.pipelineProcessor :=
    h.childless (.closePipe _ _)
  exact ((shifted.connect next).of_ok made).forkCommand argv flag

/-- The loop over the commands of a line. -/
theorem runCommands {commands : List ICommand} (shape : Shape commands)
    (h : Reaping n ends s.proc s.handler.pipelineProcessor)
    (ran : s.runCommands npshellCalls line cl commands = .ok r) :
    Reaping (n + (exeCommands commands).length) ends r.proc r.handler.pipelineProcessor := by
  induction shape generalizing s n with
  | bare argv =>
      obtain ⟨made, flag, connected, rest, -⟩ := ShellState.runCommands_exe ran
      cases rest
      exact h.command argv connected
  | closed argv sep isSep =>
      obtain ⟨made, flag, connected, rest, -⟩ := ShellState.runCommands_exe ran
      rw [ShellState.runCommands_separator isSep] at rest
      cases rest
      rw [exeCommands, exeCommands_separator isSep]
      exact h.command argv connected
  | more argv sep rest isSep inner tail ih =>
      obtain ⟨made, flag, connected, others, -⟩ := ShellState.runCommands_exe ran
      rw [ShellState.runCommands_separator isSep] at others
      rw [exeCommands, exeCommands_separator isSep, List.length_cons, Nat.add_comm _ 1,
        ← Nat.add_assoc]
      exact ih (h.command argv connected) others

/-- One line: its last command is waited for unless the line ends in a numbered pipe. -/
theorem runCommandLine (shape : Shape cl.npCommands) (plain : cl.Plain)
    (h : Reaping n ends s.proc s.handler.pipelineProcessor)
    (ran : s.runCommandLine npshellCalls line cl = .ok r) :
    Reaping (n + (exeCommands cl.npCommands).length)
      (ends ++ plainEnds n [cl]) r.proc r.handler.pipelineProcessor := by
  obtain ⟨begun, began, rest⟩ := bind_eq_ok.mp ran
  obtain ⟨looped, loop, ended⟩ := bind_eq_ok.mp rest
  have start : Reaping n ends begun.proc begun.handler.pipelineProcessor := by
    obtain ⟨⟨eol, k⟩, made, rest⟩ := bind_eq_ok.mp began
    have only := (Proc.Childless.create s.proc _).of_ok made
    simp only [plain.readUid, if_neg (by decide : ¬ (0 : Int) < 0)] at rest
    cases rest
    exact h.childless only
  have after := start.runCommands shape loop
  obtain ⟨last, found, numbered⟩ := closing_getLast shape
  have some := shape.exeCommands_pos
  have closed := after.childless (.closePipe looped.handler.prevPipe looped.proc)
  simp only [ShellState.endLine, found] at ended
  split at ended
  · rename_i notNumbered
    have none : cl.target = none := by
      rw [← Option.not_isSome_iff_eq_none]
      exact fun is => notNumbered (numbered.mpr is)
    have waited : Reaping (n + (exeCommands cl.npCommands).length) (ends ++ plainEnds n [cl])
        ((looped.handler.prevPipe.closePipe looped.proc).waitpid
          looped.handler.pipelineProcessor.2) looped.handler.pipelineProcessor := by
      rw [after.waiting] at closed ⊢
      refine closed.waitpid (by omega) fun p => ?_
      rw [List.count_append, plainEnds, if_pos none]
      rfl
    cases ended
    exact waited.childless (.closePipe _ _)
  · rename_i isNumbered
    have aimed : cl.target ≠ none :=
      Option.isSome_iff_ne_none.mp (numbered.mp (not_not.mp isNumbered))
    cases ended
    rw [plainEnds, if_neg aimed, plainEnds, List.append_nil]
    exact closed.childless (.readEOF _ _)

/-- The built-in commands of a line, by induction on them. -/
theorem builtins (h : Reaping n ends s.proc s.handler.pipelineProcessor) (builtins : List Builtin) :
    Reaping n ends (builtins.foldl Npshell.perform s).proc
      (builtins.foldl Npshell.perform s).handler.pipelineProcessor := by
  induction builtins generalizing s with
  | nil => exact h
  | cons builtin more ih =>
      refine ih ?_
      unfold Npshell.perform
      split
      · exact h.childless
          (((Proc.Childless.closePipe _ _).trans (.closePipe _ _)).trans (.closePipe _ _))
      · split
        · exact h
        · exact h.childless (.cout _ _)
      · refine h.childless (.quiet ?_ ?_)
        all_goals
          rw [Proc.setenv]
          split <;> rfl
      · exact h

/-- What is left over are the last two commands at most. -/
theorem unreaped_near (h : Reaping n ends k processor) {pid : Nat} (left : pid ∈ unreaped k.log) :
    pid ≤ n ∧ n ≤ pid + 1 ∧ pid ∉ ends := by
  obtain ⟨forked, unwaited⟩ := List.mem_filter.mp left
  rw [h.forked, List.mem_range'_1] at forked
  have none : (waitedPids k.log).count pid = 0 := List.count_eq_zero.mpr (by simpa using unwaited)
  rw [h.waited, Nat.add_eq_zero_iff] at none
  refine ⟨by omega, ?_, List.count_eq_zero.mp none.2⟩
  by_contra far
  rw [if_pos (by omega)] at none
  exact absurd none.1 (by decide)

/-- What the log says behind these lines. -/
theorem reaped {lines : List NpCommandLine}
    (h : Reaping (commandCount lines) (plainEnds 0 lines) k processor) : Reaped lines k.log := by
  refine ⟨h.forked, h.waited, h.order, ?_, ?_⟩
  · have once : (unreaped k.log).Nodup := by
      rw [unreaped, h.forked]
      exact List.Nodup.filter _ List.nodup_range'
    have few : unreaped k.log ⊆ [commandCount lines - 1, commandCount lines] := by
      intro pid left
      obtain ⟨below, near, -⟩ := h.unreaped_near left
      simp only [List.mem_cons, List.not_mem_nil, or_false]
      omega
    exact (List.subperm_of_subset once few).length_le
  · intro before cl split none pid left
    obtain ⟨below, near, other⟩ := h.unreaped_near left
    have ends : commandCount lines ∈ plainEnds 0 lines := by
      rw [split, plainEnds_append, commandCount_append]
      simp [plainEnds, none, commandCount]
    have different : pid ≠ commandCount lines := fun same => other (same ▸ ends)
    omega

end Reaping

/-- After every command line the processes are accounted for; the first comes behind `n` commands. -/
def Reaps (n : Nat) (ends : List Nat) : List (Tick Unit) → Prop
  | [] => True
  | t :: ticks =>
      let later := n + (exeCommands t.cl.npCommands).length
      Reaping later (ends ++ plainEnds n [t.cl]) t.after.proc t.after.handler.pipelineProcessor ∧
        Reaps later (ends ++ plainEnds n [t.cl]) ticks

namespace Reaps

variable {n : Nat} {ends : List Nat} {xs ys : List (Tick Unit)} {s : ShellState Unit}

theorem append (first : Reaps n ends xs) (later : Reaps (n + commandCount (xs.map Tick.cl))
    (ends ++ plainEnds n (xs.map Tick.cl)) ys) : Reaps n ends (xs ++ ys) := by
  induction xs generalizing n ends with
  | nil =>
      rw [List.map_nil, plainEnds, List.append_nil] at later
      exact later
  | cons t xs ih =>
      refine ⟨first.1, ih first.2 ?_⟩
      rw [List.map_cons, ← List.singleton_append, plainEnds_append, commandCount_append,
        ← List.append_assoc, ← Nat.add_assoc] at later
      exact later

/-- What is known behind one of the command lines. -/
theorem get (h : Reaps n ends xs) {i : Nat} {t : Tick Unit} (found : xs[i]? = some t) :
    Reaping (n + commandCount ((xs.take (i + 1)).map Tick.cl))
      (ends ++ plainEnds n ((xs.take (i + 1)).map Tick.cl)) t.after.proc
      t.after.handler.pipelineProcessor := by
  induction xs generalizing n ends i with
  | nil => cases found
  | cons t' xs ih =>
      cases i with
      | zero =>
          cases found
          exact h.1
      | succ i =>
          rw [List.take_succ_cons, List.map_cons, ← List.singleton_append, plainEnds_append,
            commandCount_append, ← List.append_assoc, ← Nat.add_assoc]
          exact ih h.2 found

/-- The command lines of an input line, by induction on them. -/
theorem queue (line : Text) {queue : List NpCommandLine}
    (plain : ∀ cl ∈ queue, Shape cl.npCommands ∧ cl.Plain)
    (h : Reaping n ends s.proc s.handler.pipelineProcessor) :
    Reaps n ends (s.queueTicks npshellCalls line queue) ∧
      Sat (s.runQueue npshellCalls line queue)
        (fun r => (s.queueTicks npshellCalls line queue).map Tick.cl = queue ∧
          Reaping (n + commandCount queue) (ends ++ plainEnds n queue) r.proc
            r.handler.pipelineProcessor)
        (fun _ => True) := by
  induction queue generalizing s n ends with
  | nil => exact ⟨trivial, rfl, by rwa [plainEnds, List.append_nil]⟩
  | cons cl queue ih =>
      obtain ⟨⟨shape, flat⟩, later⟩ := List.forall_mem_cons.mp plain
      rw [ShellState.queueTicks, ShellState.runQueue]
      cases ran : s.runCommandLine npshellCalls line cl with
      | error stopped => exact ⟨trivial, trivial⟩
      | ok mid =>
          have one := h.runCommandLine shape flat ran
          obtain ⟨rest, ended⟩ := ih later one
          refine ⟨⟨one, rest⟩, Sat.mono ended (fun r after => ⟨?_, ?_⟩) fun _ _ => trivial⟩
          · rw [List.map_cons, after.1]
          · rw [← List.singleton_append, plainEnds_append, commandCount_append, ← List.append_assoc,
              ← Nat.add_assoc]
            exact after.2

/-- The command lines of a run, by induction on its input lines. -/
theorem run (lines : List Text) (h : Reaping n ends s.proc s.handler.pipelineProcessor) :
    Reaps n ends (Npshell.ticks lines s) := by
  induction lines generalizing s n ends with
  | nil => trivial
  | cons line lines ih =>
      rw [Npshell.ticks]
      split
      · obtain ⟨here, ended⟩ := queue line (fun cl member =>
          ⟨Npshell.parseCommand_shape member, Npshell.parseCommand_plain member⟩)
          (h.builtins (Npshell.parseCommand line).1)
        refine here.append ?_
        cases ran : Npshell.runShell line s with
        | error stopped => trivial
        | ok r =>
            obtain ⟨done, queued, prompt⟩ := bind_eq_ok.mp ran
            obtain ⟨all, after⟩ := ended.of_ok queued
            rw [all]
            refine ih ?_
            cases prompt
            split
            · exact after.childless (.cout _ _)
            · exact after
      · trivial

end Reaps

/-- In every run of `npshell`, at the end of every command line: a command is waited for once two
others have been forked behind it, and once when it ends a line without a numbered pipe; so at most
two are left over. -/
theorem npshell_reaps (lines : List Text) (limit : Nat) (canOpen : Text → Bool)
    (environ : List (Text × Text)) {i : Nat} {t : Tick Unit}
    (found : (Npshell.ticks lines (npshell limit canOpen environ))[i]? = some t) :
    Reaped (((Npshell.ticks lines (npshell limit canOpen environ)).take (i + 1)).map Tick.cl)
      t.after.proc.log := by
  have start : Reaping 0 [] (npshell limit canOpen environ).proc
      (npshell limit canOpen environ).handler.pipelineProcessor :=
    ⟨rfl, rfl, rfl, fun pid => by rw [if_neg (by omega)]; rfl, fun before pid after split => by
      cases before <;> cases split⟩
  have h := (Reaps.run lines start).get found
  rw [Nat.zero_add, List.nil_append] at h
  exact h.reaped

/-- `ls |1` and `cat | wc`: at the prompt `cat` may still be running. -/
theorem npshell_reaps_three : ∃ t : Tick Unit,
    (Npshell.ticks ["ls |1".toList, "cat | wc".toList] (npshell 32 (fun _ => true) []))[1]? = some t ∧
    Reaped (((Npshell.ticks ["ls |1".toList, "cat | wc".toList]
      (npshell 32 (fun _ => true) [])).take 2).map Tick.cl) t.after.proc.log ∧
    unreaped t.after.proc.log = [2] := by
  have left : (Npshell.ticks ["ls |1".toList, "cat | wc".toList]
      (npshell 32 (fun _ => true) []))[1]?.map (fun t => unreaped t.after.proc.log) = some [2] := by
    decide +kernel
  obtain ⟨t, found, same⟩ := Option.map_eq_some_iff.mp left
  exact ⟨t, found, npshell_reaps _ 32 (fun _ => true) [] found, same⟩

end NetProg
