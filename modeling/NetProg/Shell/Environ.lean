import NetProg.Shell.RunShell

/-!
# Command lines and the environment

Executing a command line leaves the environment of the shell as it is, and all its commands
inherit it.
-/

namespace NetProg

/-- The environment is the same, and the commands forked since have it. -/
structure Proc.SameEnv (k k' : Proc) : Prop where
  environ : k'.environ = k.environ
  log : ∃ events, k'.log = k.log ++ events ∧ ∀ child ∈ forks events, child.environ = k.environ

namespace Proc.SameEnv

variable {k k' k'' : Proc}

theorem quiet (environ : k'.environ = k.environ) (log : k'.log = k.log) : Proc.SameEnv k k' :=
  ⟨environ, [], by rw [log, List.append_nil], fun _ member => nomatch member⟩

theorem refl (k : Proc) : Proc.SameEnv k k := quiet rfl rfl

theorem trans (h : Proc.SameEnv k k') (h' : Proc.SameEnv k' k'') : Proc.SameEnv k k'' := by
  obtain ⟨events, log, children⟩ := h.log
  obtain ⟨events', log', children'⟩ := h'.log
  refine ⟨h'.environ.trans h.environ, events ++ events', ?_, ?_⟩
  · rw [log', log, List.append_assoc]
  · intro child member
    rw [forks_append] at member
    rcases List.mem_append.mp member with first | later
    · exact children child first
    · rw [children' child later, h.environ]

/-- Events that are no forks. -/
theorem events (events : List Event) (environ : k'.environ = k.environ)
    (log : k'.log = k.log ++ events) (none : forks events = []) : Proc.SameEnv k k' := by
  refine ⟨environ, events, log, fun child member => ?_⟩
  rw [none] at member
  cases member

theorem cout (k : Proc) (message : Text) : Proc.SameEnv k (k.logEvent (.cout message)) :=
  events [.cout message] rfl rfl rfl

theorem waitpid (k : Proc) (pid : Nat) : Proc.SameEnv k (k.waitpid pid) :=
  events [.waitpid pid] rfl rfl rfl

theorem close (k : Proc) (fd : Fd) : Proc.SameEnv k (k.close fd) := by
  cases fd with
  | none => exact refl k
  | some fd => exact events [.close k.serving fd (k.fds.get fd)] rfl rfl rfl

theorem openObject (k : Proc) (object : Object) : Proc.SameEnv k (k.openObject object).2 := by
  rw [Proc.openObject]
  split
  · exact quiet rfl rfl
  · exact refl k

theorem openFile (k : Proc) (name : Text) : Proc.SameEnv k (k.openFile name).2 := by
  rw [Proc.openFile]
  split
  · exact openObject k _
  · exact refl k

theorem dup (k : Proc) (fd : Fd) : Proc.SameEnv k (k.dup fd).2 := by
  rw [Proc.dup]
  split
  · exact refl k
  · exact openObject k _

theorem closePipe (p : Pipe) (k : Proc) : Proc.SameEnv k (p.closePipe k) :=
  (close k p.inFd).trans (close _ p.outFd)

theorem readEOF (p : Pipe) (k : Proc) : Proc.SameEnv k (p.readEOF k) :=
  (close k p.outFd).trans (close _ p.inFd)

theorem create (k : Proc) (owner : Owner) :
    Sat (Pipe.create k owner) (fun made => Proc.SameEnv k made.2)
      (fun stopped => Proc.SameEnv k stopped.2) := by
  have rest := Pipe.create_rest k owner
  cases made : Pipe.create k owner with
  | ok result =>
      have same : result.2 = { k with fds := result.2.fds, nextPipe := k.nextPipe + 1 } :=
        rest.of_ok made
      show Proc.SameEnv k result.2
      rw [same]
      exact quiet rfl rfl
  | error stopped =>
      obtain ⟨rfl, -⟩ := (Pipe.create_held k owner).of_error made
      exact refl k

end Proc.SameEnv

variable {σ : Type}

/-- What is asked of the user-pipe calls: they keep the environment, and a relation on servers. -/
structure UserPipeCalls.Tame (calls : UserPipeCalls σ) (kept : σ → σ → Prop) : Prop where
  refl : ∀ server, kept server server
  trans : ∀ {first second third}, kept first second → kept second third → kept first third
  read : ∀ readUid p line writeUid k server,
    Sat (calls.readUserPipe readUid p line writeUid k server)
      (fun r => Proc.SameEnv k r.2.1 ∧ kept server r.2.2) (fun stopped => Proc.SameEnv k stopped.2)
  write : ∀ writeUid p line readUid k server,
    Sat (calls.writeUserPipe writeUid p line readUid k server)
      (fun r => Proc.SameEnv k r.2.1 ∧ kept server r.2.2) (fun stopped => Proc.SameEnv k stopped.2)

namespace ShellState

/-- A part of a command line that keeps the environment, and whether the shell goes on. -/
structure Tame (kept : σ → σ → Prop) (s r : ShellState σ) : Prop where
  environ : Proc.SameEnv s.proc r.proc
  server : kept s.server r.server
  running : r.handler.running = s.handler.running

variable {calls : UserPipeCalls σ} {kept : σ → σ → Prop} {line : Text} {cl : NpCommandLine}

/-- The rule for a sequence of two parts. -/
theorem tame_bind (law : calls.Tame kept) {s : ShellState σ} {first : Outcome (ShellState σ)}
    {next : ShellState σ → Outcome (ShellState σ)}
    (h : Sat first (Tame kept s) (fun stopped => Proc.SameEnv s.proc stopped.2))
    (h' : ∀ r, Sat (next r) (Tame kept r) (fun stopped => Proc.SameEnv r.proc stopped.2)) :
    Sat (first >>= next) (Tame kept s) (fun stopped => Proc.SameEnv s.proc stopped.2) := by
  refine Sat.bind h fun r before => ?_
  apply (h' r).mono
  · intro r' after
    exact ⟨before.environ.trans after.environ, law.trans before.server after.server,
      after.running.trans before.running⟩
  · intro stopped after
    exact before.environ.trans after

theorem createPipe_tame (law : calls.Tame kept) (sep : ICommand) (s : ShellState σ) :
    Sat (s.createPipe sep) (Tame kept s) (fun stopped => Proc.SameEnv s.proc stopped.2) := by
  have own : Sat (do
      let made ← Pipe.create s.proc (.user s.proc.serving)
      .ok { s with proc := made.2, handler := { s.handler with currPipe := made.1 } } :
        Outcome (ShellState σ))
      (Tame kept s) (fun stopped => Proc.SameEnv s.proc stopped.2) :=
    Sat.bind (Proc.SameEnv.create s.proc _) fun _ same => ⟨same, law.refl s.server, rfl⟩
  cases sep with
  | file name => exact ⟨Proc.SameEnv.openFile s.proc name, law.refl s.server, rfl⟩
  | numbered number err =>
      simp only [createPipe, createNumberedPipe]
      split
      · exact Sat.bind (Proc.SameEnv.create s.proc _) fun _ same => ⟨same, law.refl s.server, rfl⟩
      · exact ⟨Proc.SameEnv.refl s.proc, law.refl s.server, rfl⟩
  | exe argv => exact own
  | pipe => exact own
  | userPipe => exact own

theorem connect_tame (law : calls.Tame kept) (next : Option ICommand) (s : ShellState σ) :
    Sat (s.connect calls line cl next) (fun r => Tame kept s r.1)
      (fun stopped => Proc.SameEnv s.proc stopped.2) := by
  have made : ∀ sep : ICommand, Sat (do
      let s ← s.createPipe sep
      .ok (s, sep.pipeError) : Outcome (ShellState σ × Bool)) (fun r => Tame kept s r.1)
      (fun stopped => Proc.SameEnv s.proc stopped.2) :=
    fun sep => Sat.bind (createPipe_tame law sep s) fun _ tame => tame
  cases next with
  | none => exact ⟨Proc.SameEnv.refl s.proc, law.refl s.server, rfl⟩
  | some sep =>
      cases sep with
      | exe argv => exact Proc.SameEnv.refl s.proc
      | userPipe =>
          simp only [connect]
          split
          · exact Sat.bind (law.write _ _ _ _ _ _) fun _ tame => ⟨tame.1, tame.2, rfl⟩
          · exact ⟨Proc.SameEnv.refl s.proc, law.refl s.server, rfl⟩
      | pipe => exact made .pipe
      | file name => exact made (.file name)
      | numbered number err => exact made (.numbered number err)

theorem forkCommand_tame (law : calls.Tame kept) (argv : List Text) (pipeErr : Bool)
    (s : ShellState σ) : Tame kept s (s.forkCommand argv pipeErr) := by
  refine ⟨?_, law.refl s.server, rfl⟩
  have forked : ∀ child : FdTable Desc → FdTable Desc,
      Proc.SameEnv s.proc (s.proc.fork argv child).2 := by
    intro child
    refine ⟨rfl, _, rfl, fun c member => ?_⟩
    rw [List.mem_singleton.mp member]
  simp only [forkCommand]
  split
  · exact forked _
  · exact (forked _).trans (Proc.SameEnv.waitpid _ _)

theorem runCommand_tame (law : calls.Tame kept) (argv : List Text) (next : Option ICommand)
    (s : ShellState σ) :
    Sat (s.runCommand calls line cl argv next) (Tame kept s)
      (fun stopped => Proc.SameEnv s.proc stopped.2) := by
  have shifted : Tame kept s s.shiftPipes :=
    ⟨Proc.SameEnv.closePipe _ s.proc, law.refl s.server, rfl⟩
  unfold runCommand
  refine Sat.bind (Sat.mono (connect_tame law next s.shiftPipes) (fun _ h => h)
    (fun _ h => shifted.environ.trans h)) ?_
  intro r connected
  obtain ⟨r, pipeErr⟩ := r
  have forked := forkCommand_tame law argv pipeErr r
  exact ⟨(shifted.environ.trans connected.environ).trans forked.environ,
    law.trans (law.trans shifted.server connected.server) forked.server,
    forked.running.trans connected.running⟩

theorem runCommands_tame (law : calls.Tame kept) (commands : List ICommand) (s : ShellState σ) :
    Sat (s.runCommands calls line cl commands) (Tame kept s)
      (fun stopped => Proc.SameEnv s.proc stopped.2) := by
  induction commands generalizing s with
  | nil => exact ⟨Proc.SameEnv.refl s.proc, law.refl s.server, rfl⟩
  | cons command rest ih =>
      cases command with
      | exe argv =>
          exact tame_bind law (runCommand_tame law argv rest.head? s) ih
      | pipe => exact ih s
      | file name => exact ih s
      | numbered number err => exact ih s
      | userPipe => exact ih s

theorem beginLine_tame (law : calls.Tame kept) (s : ShellState σ) :
    Sat (s.beginLine calls line cl) (Tame kept s)
      (fun stopped => Proc.SameEnv s.proc stopped.2) := by
  unfold beginLine
  refine Sat.bind (Proc.SameEnv.create s.proc _) ?_
  intro made same
  obtain ⟨eol, proc⟩ := made
  dsimp only
  split
  · refine Sat.bind (Sat.mono (law.read _ _ _ _ _ _) (fun _ h => h) (fun _ h => same.trans h)) ?_
    intro r tame
    exact ⟨same.trans tame.1, tame.2, rfl⟩
  · exact ⟨same, law.refl s.server, rfl⟩

theorem endLine_tame (law : calls.Tame kept) (s : ShellState σ) :
    Sat (s.endLine cl) (Tame kept s) (fun stopped => Proc.SameEnv s.proc stopped.2) := by
  have closed := Proc.SameEnv.closePipe s.handler.prevPipe s.proc
  unfold endLine
  dsimp only
  split
  · exact closed
  · split
    · exact ⟨(closed.trans (Proc.SameEnv.waitpid _ _)).trans (Proc.SameEnv.closePipe _ _),
        law.refl s.server, rfl⟩
    · exact ⟨closed.trans (Proc.SameEnv.readEOF _ _), law.refl s.server, rfl⟩

theorem runCommandLine_tame (law : calls.Tame kept) (s : ShellState σ) :
    Sat (s.runCommandLine calls line cl) (Tame kept s)
      (fun stopped => Proc.SameEnv s.proc stopped.2) := by
  unfold runCommandLine
  refine tame_bind law (beginLine_tame law s) fun r => ?_
  exact tame_bind law (runCommands_tame law cl.npCommands r) (endLine_tame law)

/-- The rule for all command lines of one input line. -/
theorem runQueue_tame (law : calls.Tame kept) (queue : List NpCommandLine) (s : ShellState σ) :
    Sat (s.runQueue calls line queue) (Tame kept s)
      (fun stopped => Proc.SameEnv s.proc stopped.2) := by
  induction queue generalizing s with
  | nil => exact ⟨Proc.SameEnv.refl s.proc, law.refl s.server, rfl⟩
  | cons cl queue ih =>
      exact tame_bind law (runCommandLine_tame law s) ih

end ShellState

end NetProg
