import NetProg.Shell.NpParse

/-!
# Every command is forked once

`runShell` casts what stands behind a command to `PipeCommand&`, looks at the last element without
asking whether there is one, and forks at every command.  On a line of the proper shape the cast
and the look succeed, and the forks are the commands of the line in their order.
-/

namespace NetProg

/-- The argument lists of the commands among these elements. -/
def exeCommands : List ICommand → List (List Text)
  | [] => []
  | .exe argv :: rest => argv :: exeCommands rest
  | _ :: rest => exeCommands rest

theorem exeCommands_separator {sep : ICommand} (isSep : sep.IsSeparator) (rest : List ICommand) :
    exeCommands (sep :: rest) = exeCommands rest := by
  cases sep with
  | exe argv => exact absurd rfl isSep
  | _ => rfl

/-- Commands at the even places, separators at the odd ones, a numbered pipe at the end only. -/
structure NpCommandLine.Alternating (cl : NpCommandLine) : Prop where
  some : cl.npCommands ≠ []
  place : ∀ i c, cl.npCommands[i]? = .some c → (c.IsSeparator ↔ i % 2 = 1)
  numbered : ∀ i c, cl.npCommands[i]? = .some c → c.getType = .numberedPipe →
    i + 1 = cl.npCommands.length

theorem Shape.place {commands : List ICommand} (shape : Shape commands) :
    ∀ i c, commands[i]? = some c → (c.IsSeparator ↔ i % 2 = 1) := by
  induction shape with
  | bare argv =>
      intro i c found
      obtain ⟨rfl, rfl⟩ : i = 0 ∧ ICommand.exe argv = c := by
        simpa [List.getElem?_cons] using found
      simp [ICommand.IsSeparator, ICommand.getType]
  | closed argv sep isSep =>
      intro i c found
      rcases i with _ | _ | i
      · cases found
        simp [ICommand.IsSeparator, ICommand.getType]
      · cases found
        simpa using isSep
      · simp at found
  | more argv sep rest isSep inner tail ih =>
      intro i c found
      rcases i with _ | _ | i
      · cases found
        simp [ICommand.IsSeparator, ICommand.getType]
      · cases found
        simpa using isSep
      · rw [ih i c found]
        omega

theorem Shape.numbered_last {commands : List ICommand} (shape : Shape commands) :
    ∀ i c, commands[i]? = some c → c.getType = .numberedPipe → i + 1 = commands.length := by
  induction shape with
  | bare argv =>
      intro i c found numbered
      obtain ⟨rfl, rfl⟩ : i = 0 ∧ ICommand.exe argv = c := by
        simpa [List.getElem?_cons] using found
      cases numbered
  | closed argv sep isSep =>
      intro i c found numbered
      rcases i with _ | _ | i
      · cases found
        cases numbered
      · rfl
      · simp at found
  | more argv sep rest isSep inner tail ih =>
      intro i c found numbered
      rcases i with _ | _ | i
      · cases found
        cases numbered
      · cases found
        cases sep with
        | numbered number err => cases inner
        | _ => cases numbered
      · have last := ih i c found numbered
        simp only [List.length_cons]
        omega

theorem Shape.alternating {cl : NpCommandLine} (shape : Shape cl.npCommands) : cl.Alternating :=
  ⟨shape.ne_nil, shape.place, shape.numbered_last⟩

/-- Between the two states just these commands were forked, in this order. -/
def Proc.Ran (k k' : Proc) (commands : List (List Text)) : Prop :=
  ∃ events, k'.log = k.log ++ events ∧ (forks events).map Child.argv = commands

namespace Proc.Ran

variable {k k' k'' : Proc} {commands later : List (List Text)}

theorem trans (h : Proc.Ran k k' commands) (h' : Proc.Ran k' k'' later) :
    Proc.Ran k k'' (commands ++ later) := by
  obtain ⟨events, log, rfl⟩ := h
  obtain ⟨events', log', rfl⟩ := h'
  exact ⟨events ++ events', by rw [log', log, List.append_assoc], by rw [forks_append, List.map_append]⟩

theorem quiet (log : k'.log = k.log) : Proc.Ran k k' [] :=
  ⟨[], by rw [log, List.append_nil], rfl⟩

theorem refl (k : Proc) : Proc.Ran k k [] := quiet rfl

theorem of_steps {children : List Child} (steps : Proc.Steps k k' children) :
    Proc.Ran k k' (children.map Child.argv) := by
  obtain ⟨events, log, -, rfl⟩ := steps.log
  exact ⟨events, log, rfl⟩

theorem cout (k : Proc) (message : Text) : Proc.Ran k (k.logEvent (.cout message)) [] :=
  ⟨[.cout message], rfl, rfl⟩

theorem waitpid (k : Proc) (pid : Nat) : Proc.Ran k (k.waitpid pid) [] := ⟨[.waitpid pid], rfl, rfl⟩

theorem close (k : Proc) (fd : Fd) : Proc.Ran k (k.close fd) [] := by
  cases fd with
  | none => exact refl k
  | some fd => exact ⟨[.close k.serving fd (k.fds.get fd)], rfl, rfl⟩

theorem openObject (k : Proc) (object : Object) : Proc.Ran k (k.openObject object).2 [] := by
  rw [Proc.openObject]
  split <;> exact quiet rfl

theorem openFile (k : Proc) (name : Text) : Proc.Ran k (k.openFile name).2 [] := by
  rw [Proc.openFile]
  split
  · exact openObject k _
  · exact refl k

theorem dup (k : Proc) (fd : Fd) : Proc.Ran k (k.dup fd).2 [] := by
  rw [Proc.dup]
  split
  · exact refl k
  · exact openObject k _

theorem closePipe (p : Pipe) (k : Proc) : Proc.Ran k (p.closePipe k) [] :=
  (close k p.inFd).trans (close _ p.outFd)

theorem readEOF (p : Pipe) (k : Proc) : Proc.Ran k (p.readEOF k) [] :=
  (close k p.outFd).trans (close _ p.inFd)

theorem fork (k : Proc) (argv : List Text) (child : FdTable Desc → FdTable Desc) :
    Proc.Ran k (k.fork argv child).2 [argv] := ⟨[.fork _ _], rfl, rfl⟩

end Proc.Ran

/-- A stop that is not a failed cast, after some of the commands were forked. -/
def Proc.Halted (k : Proc) (commands : List (List Text)) (stopped : Abort × Proc) : Prop :=
  stopped.1 ≠ .badCast ∧ ∃ done, done <+: commands ∧ Proc.Ran k stopped.2 done

/-- A stop later on is a stop. -/
theorem Proc.Halted.after {k k' : Proc} {first later : List (List Text)} {stopped : Abort × Proc}
    (ran : Proc.Ran k k' first) (halted : Proc.Halted k' later stopped) :
    Proc.Halted k (first ++ later) stopped := by
  obtain ⟨cast, done, front, ran'⟩ := halted
  exact ⟨cast, first ++ done, (List.prefix_append_right_inj first).mpr front, ran.trans ran'⟩

theorem Proc.Halted.more {k : Proc} {first later : List (List Text)} {stopped : Abort × Proc}
    (halted : Proc.Halted k first stopped) : Proc.Halted k (first ++ later) stopped := by
  obtain ⟨cast, done, front, ran⟩ := halted
  exact ⟨cast, done, front.trans (List.prefix_append _ _), ran⟩

variable {σ : Type}

/-- User-pipe calls that fork nothing and cast nothing. -/
structure UserPipeCalls.Forkless (calls : UserPipeCalls σ) : Prop where
  read : ∀ readUid p line writeUid k server,
    Sat (calls.readUserPipe readUid p line writeUid k server) (fun r => Proc.Ran k r.2.1 [])
      (Proc.Halted k [])
  write : ∀ writeUid p line readUid k server,
    Sat (calls.writeUserPipe writeUid p line readUid k server) (fun r => Proc.Ran k r.2.1 [])
      (Proc.Halted k [])

theorem npshellCalls_forkless : npshellCalls.Forkless :=
  ⟨fun _ _ _ _ k _ => Proc.Ran.refl k, fun _ _ _ _ k _ => Proc.Ran.refl k⟩

namespace ShellState

variable {calls : UserPipeCalls σ} {line : Text} {cl : NpCommandLine}

/-- A sequence forks what its parts fork. -/
theorem ran_bind {s : ShellState σ} {first : Outcome (ShellState σ)}
    {next : ShellState σ → Outcome (ShellState σ)} {done todo : List (List Text)}
    (h : Sat first (fun r => Proc.Ran s.proc r.proc done) (Proc.Halted s.proc done))
    (h' : ∀ r, Sat (next r) (fun t => Proc.Ran r.proc t.proc todo) (Proc.Halted r.proc todo)) :
    Sat (first >>= next) (fun t => Proc.Ran s.proc t.proc (done ++ todo))
      (Proc.Halted s.proc (done ++ todo)) := by
  refine Sat.bind (Sat.mono h (fun _ ran => ran) fun _ halted => halted.more) fun r ran => ?_
  exact (h' r).mono (fun _ later => ran.trans later) fun _ later => later.after ran

theorem create_ran (k : Proc) (owner : Owner) :
    Sat (Pipe.create k owner) (fun made => Proc.Ran k made.2 []) (Proc.Halted k []) := by
  refine Sat.mono (Pipe.create_held k owner) ?_ ?_
  · rintro made ⟨first, second, -, -, -, steps⟩
    exact .of_steps steps
  · rintro stopped ⟨rfl, -⟩
    exact ⟨by simp, [], List.prefix_rfl, .refl k⟩

theorem createPipe_ran (sep : ICommand) (s : ShellState σ) :
    Sat (s.createPipe sep) (fun r => Proc.Ran s.proc r.proc []) (Proc.Halted s.proc []) := by
  have own : Sat (do
      let made ← Pipe.create s.proc (.user s.proc.serving)
      .ok { s with proc := made.2, handler := { s.handler with currPipe := made.1 } } :
        Outcome (ShellState σ)) (fun r => Proc.Ran s.proc r.proc []) (Proc.Halted s.proc []) :=
    Sat.bind (create_ran s.proc _) fun _ ran => ran
  cases sep with
  | file name => exact Proc.Ran.openFile s.proc name
  | numbered number err =>
      simp only [createPipe, createNumberedPipe]
      split
      · exact Sat.bind (create_ran s.proc _) fun _ ran => ran
      · exact Proc.Ran.refl s.proc
  | exe argv => exact own
  | pipe => exact own
  | userPipe => exact own

/-- What stands behind a command is a separator or nothing: the cast succeeds. -/
theorem connect_ran (forkless : calls.Forkless) {next : Option ICommand}
    (isSep : ∀ sep ∈ next, sep.IsSeparator) (s : ShellState σ) :
    Sat (s.connect calls line cl next) (fun r => Proc.Ran s.proc r.1.proc [])
      (Proc.Halted s.proc []) := by
  have made : ∀ sep : ICommand, Sat (do
      let s ← s.createPipe sep
      .ok (s, sep.pipeError) : Outcome (ShellState σ × Bool))
      (fun r => Proc.Ran s.proc r.1.proc []) (Proc.Halted s.proc []) :=
    fun sep => Sat.bind (createPipe_ran sep s) fun _ ran => ran
  cases next with
  | none => exact Proc.Ran.refl s.proc
  | some sep =>
      cases sep with
      | exe argv => exact absurd rfl (isSep _ rfl)
      | userPipe =>
          simp only [connect]
          split
          · exact Sat.bind (forkless.write _ _ _ _ _ _) fun _ ran => ran
          · exact Proc.Ran.refl s.proc
      | pipe => exact made .pipe
      | file name => exact made (.file name)
      | numbered number err => exact made (.numbered number err)

theorem forkCommand_ran (argv : List Text) (pipeErr : Bool) (s : ShellState σ) :
    Proc.Ran s.proc (s.forkCommand argv pipeErr).proc [argv] := by
  have forked := Proc.Ran.fork s.proc argv
    fun t => s.handler.currPipe.write pipeErr (s.handler.prevPipe.read t)
  simp only [forkCommand]
  split
  · exact forked
  · exact forked.trans (.waitpid _ _)

/-- One command is forked once. -/
theorem runCommand_ran (forkless : calls.Forkless) (argv : List Text) {next : Option ICommand}
    (isSep : ∀ sep ∈ next, sep.IsSeparator) (s : ShellState σ) :
    Sat (s.runCommand calls line cl argv next) (fun r => Proc.Ran s.proc r.proc [argv])
      (Proc.Halted s.proc [argv]) := by
  have shifted : Proc.Ran s.proc s.shiftPipes.proc [] := .closePipe _ s.proc
  unfold runCommand
  refine Sat.bind (Sat.mono (connect_ran forkless isSep s.shiftPipes) (fun _ ran => ran)
    fun _ halted => (halted.after shifted).more) fun r ran => ?_
  obtain ⟨r, pipeErr⟩ := r
  exact (shifted.trans ran).trans (forkCommand_ran argv pipeErr r)

/-- Every command of a line is forked once, in their order. -/
theorem runCommands_ran (forkless : calls.Forkless) {commands : List ICommand}
    (shape : Shape commands) (s : ShellState σ) :
    Sat (s.runCommands calls line cl commands)
      (fun r => Proc.Ran s.proc r.proc (exeCommands commands))
      (Proc.Halted s.proc (exeCommands commands)) := by
  induction shape generalizing s with
  | bare argv =>
      have only : exeCommands [.exe argv] = [argv] ++ [] := rfl
      rw [only]
      exact ran_bind (runCommand_ran forkless argv (by simp) s) fun r => Proc.Ran.refl r.proc
  | closed argv sep isSep =>
      have only : exeCommands [.exe argv, sep] = [argv] ++ [] := by
        rw [exeCommands, exeCommands_separator isSep]
        rfl
      rw [only]
      refine ran_bind (runCommand_ran forkless argv (by simpa using isSep) s) fun r => ?_
      rw [runCommands_separator isSep]
      exact Proc.Ran.refl r.proc
  | more argv sep rest isSep inner tail ih =>
      have first : exeCommands (.exe argv :: sep :: rest) = [argv] ++ exeCommands rest := by
        rw [exeCommands, exeCommands_separator isSep]
        rfl
      rw [first]
      refine ran_bind (runCommand_ran forkless argv (by simpa using isSep) s) fun r => ?_
      rw [runCommands_separator isSep]
      exact ih r

theorem beginLine_ran (forkless : calls.Forkless) (s : ShellState σ) :
    Sat (s.beginLine calls line cl) (fun r => Proc.Ran s.proc r.proc []) (Proc.Halted s.proc []) := by
  unfold beginLine
  refine Sat.bind (create_ran s.proc _) fun made ran => ?_
  obtain ⟨eol, proc⟩ := made
  dsimp only
  split
  · exact Sat.bind (Sat.mono (forkless.read _ _ _ _ _ _) (fun _ later => later)
      fun _ halted => halted.after ran) fun r later => ran.trans later
  · exact ran

/-- There is a last element. -/
theorem endLine_ran (shape : Shape cl.npCommands) (s : ShellState σ) :
    ∃ r, s.endLine cl = .ok r ∧ Proc.Ran s.proc r.proc [] := by
  obtain ⟨last, found, -⟩ := closing_getLast shape
  have closed : Proc.Ran s.proc (s.handler.prevPipe.closePipe s.proc) [] := .closePipe _ _
  unfold endLine
  simp only [found]
  split
  · exact ⟨_, rfl, (closed.trans (.waitpid _ _)).trans (.closePipe _ _)⟩
  · exact ⟨_, rfl, closed.trans (.readEOF _ _)⟩

theorem runCommandLine_ran (forkless : calls.Forkless) (shape : Shape cl.npCommands)
    (s : ShellState σ) :
    Sat (s.runCommandLine calls line cl)
      (fun r => Proc.Ran s.proc r.proc (exeCommands cl.npCommands))
      (Proc.Halted s.proc (exeCommands cl.npCommands)) := by
  have parts : exeCommands cl.npCommands = [] ++ (exeCommands cl.npCommands ++ []) := by simp
  unfold runCommandLine
  rw [parts]
  refine ran_bind (beginLine_ran forkless s) fun r => ?_
  refine ran_bind (runCommands_ran forkless shape r) fun t => ?_
  obtain ⟨u, ended, ran⟩ := endLine_ran shape t
  rw [ended]
  exact ran

/-- Every command of the queue is forked once, in their order. -/
theorem runQueue_ran (forkless : calls.Forkless) {queue : List NpCommandLine}
    (shapes : ∀ cl ∈ queue, Shape cl.npCommands) (s : ShellState σ) :
    Sat (s.runQueue calls line queue)
      (fun r => Proc.Ran s.proc r.proc (queue.flatMap fun cl => exeCommands cl.npCommands))
      (Proc.Halted s.proc (queue.flatMap fun cl => exeCommands cl.npCommands)) := by
  induction queue generalizing s with
  | nil => exact Proc.Ran.refl s.proc
  | cons cl queue ih =>
      obtain ⟨first, later⟩ := List.forall_mem_cons.mp shapes
      rw [List.flatMap_cons]
      exact ran_bind (runCommandLine_ran forkless first s) fun r => ih later r

end ShellState

end NetProg
