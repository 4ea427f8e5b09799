import NetProg.Shell.RunShellSpec

/-!
# What a command line asks of the server

The loop of `runShell` calls the server at two places: `readUserPipe` once at the beginning and
`writeUserPipe` at every `>j` behind a command.  `runCommandLine_calls` is the rule for what these
calls do to the server, and `runCommandLine_map` lets a server that records more stand for one that
records less.
-/

namespace NetProg

variable {σ τ : Type}

/-- The state of a shell under another view of the server. -/
def ShellState.mapServer (f : σ → τ) (s : ShellState σ) : ShellState τ :=
  ⟨s.proc, s.handler, f s.server⟩

/-- The first calls do what the second ones do, seen through `f`. -/
structure UserPipeCalls.Erases (calls : UserPipeCalls σ) (f : σ → τ) (calls' : UserPipeCalls τ) :
    Prop where
  read : ∀ readUid p line writeUid k server,
    (calls.readUserPipe readUid p line writeUid k server).map (fun r => (r.1, r.2.1, f r.2.2)) =
      calls'.readUserPipe readUid p line writeUid k (f server)
  write : ∀ writeUid p line readUid k server,
    (calls.writeUserPipe writeUid p line readUid k server).map (fun r => (r.1, r.2.1, f r.2.2)) =
      calls'.writeUserPipe writeUid p line readUid k (f server)

namespace ShellState

section Map

variable {calls : UserPipeCalls σ} {calls' : UserPipeCalls τ} {f : σ → τ} {line : Text}
  {cl : NpCommandLine}

theorem createPipe_map (sep : ICommand) (s : ShellState σ) :
    (s.createPipe sep).map (mapServer f) = (s.mapServer f).createPipe sep := by
  have own : ((Pipe.create s.proc (.user s.proc.serving) >>= fun made =>
      .ok { s with proc := made.2, handler := { s.handler with currPipe := made.1 } } :
        Outcome (ShellState σ)).map (mapServer f)) =
      (Pipe.create s.proc (.user s.proc.serving) >>= fun made =>
        .ok { s.mapServer f with
          proc := made.2, handler := { s.handler with currPipe := made.1 } }) := by
    cases Pipe.create s.proc (.user s.proc.serving) with
    | error stopped => rfl
    | ok made => rfl
  cases sep with
  | file name => rfl
  | numbered number err =>
      simp only [createPipe, createNumberedPipe, mapServer]
      by_cases slot : (s.handler.numberPipeList.get (sizeT number)).empty = true
      · simp only [slot, if_true]
        cases Pipe.create s.proc (.user s.proc.serving) with
        | error stopped => rfl
        | ok made => rfl
      · simp only [slot]
        rfl
  | exe argv => exact own
  | pipe => exact own
  | userPipe => exact own

theorem connect_map (erases : calls.Erases f calls') (next : Option ICommand) (s : ShellState σ) :
    (s.connect calls line cl next).map (fun r => (r.1.mapServer f, r.2)) =
      (s.mapServer f).connect calls' line cl next := by
  have made : ∀ sep : ICommand, (do
      let s ← s.createPipe sep
      .ok (s, sep.pipeError) : Outcome (ShellState σ × Bool)).map (fun r => (r.1.mapServer f, r.2)) =
      (do
        let s ← (s.mapServer f).createPipe sep
        .ok (s, sep.pipeError)) :=
    fun sep => map_bind_congr (createPipe_map sep s) fun _ => rfl
  cases next with
  | none => rfl
  | some sep =>
      cases sep with
      | exe argv => rfl
      | userPipe =>
          simp only [connect]
          split
          · exact map_bind_congr (erases.write _ _ _ _ _ _) fun _ => rfl
          · rfl
      | pipe => exact made .pipe
      | file name => exact made (.file name)
      | numbered number err => exact made (.numbered number err)

theorem runCommands_map (erases : calls.Erases f calls') (commands : List ICommand)
    (s : ShellState σ) :
    (s.runCommands calls line cl commands).map (mapServer f) =
      (s.mapServer f).runCommands calls' line cl commands := by
  induction commands generalizing s with
  | nil => rfl
  | cons command rest ih =>
      cases command with
      | exe argv =>
          have one : (s.runCommand calls line cl argv rest.head?).map (mapServer f) =
              (s.mapServer f).runCommand calls' line cl argv rest.head? :=
            map_bind_congr (connect_map erases rest.head? s.shiftPipes) fun _ => rfl
          exact map_bind_congr one ih
      | pipe => exact ih s
      | file name => exact ih s
      | numbered number err => exact ih s
      | userPipe => exact ih s

theorem beginLine_map (erases : calls.Erases f calls') (s : ShellState σ) :
    (s.beginLine calls line cl).map (mapServer f) = (s.mapServer f).beginLine calls' line cl := by
  unfold beginLine
  cases made : Pipe.create s.proc (.user s.proc.serving) with
  | error stopped =>
      rw [mapServer, made]
      rfl
  | ok result =>
      rw [mapServer, made]
      simp only [bind, Except.bind]
      split
      · exact map_bind_congr (erases.read _ _ _ _ _ _) fun _ => rfl
      · rfl

theorem endLine_map (s : ShellState σ) :
    (s.endLine cl).map (mapServer f) = (s.mapServer f).endLine cl := by
  simp only [endLine, mapServer]
  split
  · rfl
  · split
    · rfl
    · rfl

/-- A run with the first calls is, seen through `f`, the run with the second ones. -/
theorem runCommandLine_map (erases : calls.Erases f calls') (s : ShellState σ) :
    (s.runCommandLine calls line cl).map (mapServer f) =
      (s.mapServer f).runCommandLine calls' line cl := by
  apply map_bind_congr (beginLine_map erases s)
  intro r
  exact map_bind_congr (runCommands_map erases cl.npCommands r) endLine_map

theorem runQueue_map (erases : calls.Erases f calls') (queue : List NpCommandLine)
    (s : ShellState σ) :
    (s.runQueue calls line queue).map (mapServer f) =
      (s.mapServer f).runQueue calls' line queue := by
  induction queue generalizing s with
  | nil => rfl
  | cons cl queue ih => exact map_bind_congr (runCommandLine_map erases s) ih

end Map

section Calls

variable {calls : UserPipeCalls σ} {line : Text} {cl : NpCommandLine} {Q : Bool → σ → Prop}
  {fail : Abort × Proc → Prop}

theorem createPipe_server (exhausted : ∀ k, fail (.exitFailure, k)) (sep : ICommand)
    (s : ShellState σ) : Sat (s.createPipe sep) (fun r => r.server = s.server) fail := by
  have own : Sat (Pipe.create s.proc (.user s.proc.serving) >>= fun made =>
      .ok { s with proc := made.2, handler := { s.handler with currPipe := made.1 } } :
        Outcome (ShellState σ)) (fun r => r.server = s.server) fail := by
    refine Sat.bind ((Pipe.create_held s.proc _).mono (fun _ _ => trivial) ?_) fun _ _ => rfl
    intro stopped failed
    rw [failed.1]
    exact exhausted _
  cases sep with
  | file name => exact rfl
  | numbered number err =>
      simp only [createPipe, createNumberedPipe]
      split
      · refine Sat.bind ((Pipe.create_held s.proc _).mono (fun _ _ => trivial) ?_) fun _ _ => rfl
        intro stopped failed
        rw [failed.1]
        exact exhausted _
      · exact rfl
  | exe argv => exact own
  | pipe => exact own
  | userPipe => exact own

/-- What stands behind a command makes a call if it is `>j`. -/
theorem connect_calls (exhausted : ∀ k, fail (.exitFailure, k)) {sep : ICommand}
    (write : 0 < cl.writeUid → sep = .userPipe → ∀ called p k server, Q called server →
      Sat (calls.writeUserPipe cl.writeUid p line cl.readUid k server) (fun r => Q true r.2.2) fail)
    {called : Bool} (isSep : sep.IsSeparator) {s : ShellState σ}
    (before : Q called s.server) :
    Sat (s.connect calls line cl (some sep))
      (fun r => Q (called || decide (0 < cl.writeUid ∧ sep = .userPipe)) r.1.server) fail := by
  have made : ∀ sep : ICommand, sep ≠ .userPipe → Sat (do
      let s ← s.createPipe sep
      .ok (s, sep.pipeError) : Outcome (ShellState σ × Bool))
      (fun r => Q (called || decide (0 < cl.writeUid ∧ sep = .userPipe)) r.1.server) fail := by
    intro sep other
    refine Sat.bind (createPipe_server exhausted sep s) fun r same => ?_
    rw [Sat.ok_iff, same, decide_eq_false fun both => other both.2, Bool.or_false]
    exact before
  cases sep with
  | exe argv => exact absurd rfl isSep
  | userPipe =>
      simp only [connect]
      split
      · rename_i positive
        refine Sat.bind (write positive rfl called _ _ _ before) fun r after => ?_
        simpa [positive] using after
      · rename_i none
        simpa [none] using before
  | pipe => exact made .pipe (by simp)
  | file name => exact made (.file name) (by simp)
  | numbered number err => exact made (.numbered number err) (by simp)

theorem runCommand_calls (exhausted : ∀ k, fail (.exitFailure, k)) {sep : ICommand}
    (write : 0 < cl.writeUid → sep = .userPipe → ∀ called p k server, Q called server →
      Sat (calls.writeUserPipe cl.writeUid p line cl.readUid k server) (fun r => Q true r.2.2) fail)
    {called : Bool} (isSep : sep.IsSeparator) {s : ShellState σ} (argv : List Text)
    (before : Q called s.server) :
    Sat (s.runCommand calls line cl argv (some sep))
      (fun r => Q (called || decide (0 < cl.writeUid ∧ sep = .userPipe)) r.server) fail := by
  have shifted : Q called s.shiftPipes.server := before
  exact Sat.bind (connect_calls exhausted write isSep shifted) fun r after => after

/-- The commands of a line make a call at every `>j`. -/
theorem runCommands_calls (exhausted : ∀ k, fail (.exitFailure, k)) {commands : List ICommand}
    (write : 0 < cl.writeUid → .userPipe ∈ commands → ∀ called p k server, Q called server →
      Sat (calls.writeUserPipe cl.writeUid p line cl.readUid k server) (fun r => Q true r.2.2) fail)
    (shape : Shape commands) {called : Bool} {s : ShellState σ}
    (before : Q called s.server) :
    Sat (s.runCommands calls line cl commands)
      (fun r => Q (called || decide (0 < cl.writeUid ∧ .userPipe ∈ commands)) r.server) fail := by
  induction shape generalizing called s with
  | bare argv =>
      have none : decide (0 < cl.writeUid ∧ ICommand.userPipe ∈ [ICommand.exe argv]) = false := by
        simp
      rw [none, Bool.or_false]
      exact before
  | closed argv sep isSep =>
      have here : sep = .userPipe → .userPipe ∈ [.exe argv, sep] := by
        rintro rfl
        simp
      refine Sat.bind (runCommand_calls exhausted (fun positive same => write positive (here same))
        isSep argv before) fun r after => ?_
      rw [runCommands_separator isSep, runCommands, Sat.ok_iff]
      simpa [eq_comm] using after
  | more argv sep rest isSep inner tail ih =>
      have here : sep = .userPipe → .userPipe ∈ .exe argv :: sep :: rest := by
        rintro rfl
        simp
      have later : .userPipe ∈ rest → .userPipe ∈ .exe argv :: sep :: rest := fun member =>
        List.mem_cons_of_mem _ (List.mem_cons_of_mem _ member)
      refine Sat.bind (runCommand_calls exhausted (fun positive same => write positive (here same))
        isSep argv before) fun r after => ?_
      rw [runCommands_separator isSep]
      have flags : (called || decide (0 < cl.writeUid ∧ .userPipe ∈ .exe argv :: sep :: rest)) =
          (called || decide (0 < cl.writeUid ∧ sep = .userPipe) ||
            decide (0 < cl.writeUid ∧ .userPipe ∈ rest)) := by
        by_cases positive : 0 < cl.writeUid
        · simp [positive, eq_comm, Bool.or_assoc, Bool.decide_or]
        · simp [positive]
      rw [flags]
      exact ih (fun positive member => write positive (later member)) after

/-- The rule for a whole command line.  `P` holds of the server before it, `Q` behind `<i` and behind
every `>j`, with a flag that tells whether there was one. -/
theorem runCommandLine_calls {P : σ → Prop} (exhausted : ∀ k, fail (.exitFailure, k))
    (shape : Shape cl.npCommands)
    (skip : ¬ 0 < cl.readUid → ∀ server, P server → Q false server)
    (read : 0 < cl.readUid → ∀ p k server, P server →
      Sat (calls.readUserPipe cl.readUid p line cl.writeUid k server) (fun r => Q false r.2.2) fail)
    (write : 0 < cl.writeUid → .userPipe ∈ cl.npCommands → ∀ called p k server, Q called server →
      Sat (calls.writeUserPipe cl.writeUid p line cl.readUid k server) (fun r => Q true r.2.2) fail)
    {s : ShellState σ} (start : P s.server) :
    Sat (s.runCommandLine calls line cl)
      (fun r => Q (decide (0 < cl.writeUid ∧ .userPipe ∈ cl.npCommands)) r.server) fail := by
  have begun : Sat (s.beginLine calls line cl) (fun r => Q false r.server) fail := by
    unfold beginLine
    refine Sat.bind ((Pipe.create_held s.proc _).mono (fun _ _ => trivial) ?_) fun made _ => ?_
    · intro stopped failed
      rw [failed.1]
      exact exhausted _
    · obtain ⟨eol, proc⟩ := made
      dsimp only
      split
      · rename_i positive
        exact Sat.bind (read positive _ _ _ start) fun r after => after
      · rename_i none
        exact skip none s.server start
  unfold runCommandLine
  refine Sat.bind begun fun r before => ?_
  refine Sat.bind (runCommands_calls exhausted write shape before) fun t after => ?_
  rw [Bool.false_or] at after
  unfold endLine
  obtain ⟨last, found, -⟩ := closing_getLast shape
  simp only [found]
  split
  · exact after
  · exact after

end Calls

end ShellState

end NetProg
