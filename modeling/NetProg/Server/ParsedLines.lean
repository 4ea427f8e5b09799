import NetProg.Server.ShmAnnouncements
import NetProg.Server.UserPipeSpec
import NetProg.Shell.Forks

/-!
# Parsed lines run without a failed cast

The calls of the chat server for `<i` and `>j` fork nothing, in either build, so what is known of
`runShell` for any such calls holds of the shells of both chat servers and of `npshell`.
-/

namespace NetProg

namespace ChatServer

section Calls

variable (id uid : Int) (p : Pipe) (line : Text) (other : Int) (k : Proc) (server : ChatServer)

theorem handleUserPipeError_ran (mode : Mode) (err : UserPipeErr) :
    Proc.Ran k (handleUserPipeError id uid mode err k).2 [] :=
  (Proc.Ran.cout k _).trans (.openFile _ _)

theorem writeUserPipe_ran :
    Sat (writeUserPipe id uid p line other k server) (fun r => Proc.Ran k r.2.1 [])
      (Proc.Halted k []) := by
  refine Sat.mono (writeUserPipe_spec id uid p line other k server) ?_ ?_
  · intro result wrote
    cases wrote with
    | absent missing => exact handleUserPipeError_ran id uid k .wronly .userNotExist
    | taken receiver i inside found position full =>
        exact handleUserPipeError_ran id uid k .wronly .pipeErr
    | created receiver i inside found position free first second k₁ opens steps k₂ sent announced
        message log =>
        exact (Proc.Ran.of_steps (steps.trans announced)).trans (.dup k₂ (some second))
  · rintro stopped ⟨same, reason⟩
    refine ⟨?_, [], List.prefix_rfl, same ▸ .refl _⟩
    rcases reason with ⟨undefined, -⟩ | ⟨exhausted, -⟩
    · simp [undefined]
    · simp [exhausted]

theorem readUserPipe_ran :
    Sat (readUserPipe id uid p line other k server) (fun r => Proc.Ran k r.2.1 [])
      (Proc.Halted k []) := by
  refine Sat.mono (readUserPipe_spec id uid p line other k server) ?_ ?_
  · intro result received
    cases received with
    | absent missing => exact handleUserPipeError_ran id uid k .rdonly .userNotExist
    | nothing sender user i inside found' found position free =>
        exact handleUserPipeError_ran id uid k .rdonly .pipeErr
    | taken sender user i inside found' found position full k₁ sent announced message log =>
        exact ((Proc.Ran.of_steps announced).trans (.dup _ _)).trans (.closePipe _ _)
  · rintro stopped ⟨rfl, -⟩
    exact ⟨by simp, [], List.prefix_rfl, .refl k⟩

end Calls

theorem userPipeCalls_forkless (id : Int) : (userPipeCalls id).Forkless :=
  ⟨fun readUid p line writeUid k server => readUserPipe_ran id readUid p line writeUid k server,
    fun writeUid p line readUid k server => writeUserPipe_ran id writeUid p line readUid k server⟩

end ChatServer

namespace ShmServer

section Calls

variable (id uid : Int) (k : Proc) (server : ShmServer)

/-- A null pointer stops the process before any fork. -/
theorem halted_null : Proc.Halted k [] (.undefined, k) :=
  ⟨by simp, [], List.prefix_rfl, .refl k⟩

theorem user_ran : Sat (server.user id k) (fun _ => True) (Proc.Halted k []) :=
  (user_spec id k server).mono (fun _ _ => trivial) fun _ failed => failed.1 ▸ halted_null k

theorem isConnected_ran : Sat (server.isConnected id k) (fun _ => True) (Proc.Halted k []) :=
  (isConnected_spec id k server).mono (fun _ _ => trivial) fun _ failed => failed.1 ▸ halted_null k

theorem index_ran : Sat (ChatServer.index uid k) (fun _ => True) (Proc.Halted k []) := by
  unfold ChatServer.index
  split
  · exact halted_null k
  · trivial

theorem broadcastTo_ran (msg : Text) (receivers : List Int) :
    Sat (server.broadcastTo msg k receivers) (fun _ => True) (Proc.Halted k []) := by
  induction receivers generalizing server with
  | nil => trivial
  | cons uid receivers ih =>
      unfold broadcastTo
      refine Sat.bind (isConnected_ran uid k server) fun connected _ => ?_
      cases connected with
      | false => exact ih server
      | true =>
          refine Sat.bind (?_ : Sat _ (fun _ => True) _) fun server _ => ih server
          exact Sat.bind (user_ran uid k server) fun _ _ => trivial

theorem handleUserPipe_ran (mode : Mode) :
    Sat (server.handleUserPipe id uid mode k) (fun r => Proc.Ran k r.2.2.1 []) (Proc.Halted k []) := by
  unfold handleUserPipe
  split
  · exact .refl k
  refine Sat.bind (isConnected_ran uid k server) fun connected _ => ?_
  cases connected with
  | false => exact .refl k
  | true =>
      cases mode with
      | wronly =>
          refine Sat.bind (user_ran uid k server) fun receiver _ => ?_
          refine Sat.bind (index_ran id k) fun i _ => ?_
          split
          · exact .refl k
          · exact .openFile k _
      | rdonly =>
          refine Sat.bind (user_ran id k server) fun user _ => ?_
          refine Sat.bind (index_ran uid k) fun i _ => ?_
          split
          · exact .openFile k _
          · exact .refl k

theorem readFIFOWritePipe_ran (fd : Fd) : Proc.Ran k (readFIFOWritePipe fd k) [] := by
  unfold readFIFOWritePipe
  cases made : k.pipe2 (.user k.serving) with
  | none => exact .refl k
  | some ends =>
      obtain ⟨first, second, k'⟩ := ends
      have opened : Proc.Ran k k' [] := .quiet (pipe2_log made)
      have moved : Proc.Ran (k'.close (some second))
          (fd.elim (k'.close (some second)) ((k'.close (some second)).dup2 (some first))) [] := by
        cases fd <;> exact .quiet rfl
      exact ((opened.trans (.close k' (some second))).trans moved).trans (.close _ (some first))

variable (p : Pipe) (line : Text) (other : Int)

theorem writeUserPipe_ran :
    Sat (server.writeUserPipe id uid p line other k) (fun r => Proc.Ran k r.2.1 [])
      (Proc.Halted k []) := by
  unfold writeUserPipe
  refine Sat.bind (handleUserPipe_ran id uid k server .wronly) fun answer ran => ?_
  obtain ⟨userExist, pipeExist, k', server⟩ := answer
  cases userExist with
  | false => exact ran.trans (ChatServer.handleUserPipeError_ran id uid k' .wronly .userNotExist)
  | true =>
      cases pipeExist with
      | true => exact ran.trans (ChatServer.handleUserPipeError_ran id uid k' .wronly .pipeErr)
      | false =>
          refine Sat.mono (?_ : Sat _ (fun r => Proc.Ran k' r.2.1 []) (Proc.Halted k' []))
            (fun _ => ran.trans) fun _ => .after ran
          refine Sat.bind (user_ran id k' server) fun sender _ => ?_
          refine Sat.bind (user_ran uid k' sender.2) fun receiver _ => ?_
          refine Sat.bind (index_ran id k') fun i _ => ?_
          dsimp only
          split
          · exact .dup k' _
          · exact Sat.bind (broadcastTo_ran k' receiver.2 _ slots) fun _ _ => .dup k' _

theorem readUserPipe_ran :
    Sat (server.readUserPipe id uid p line other k) (fun r => Proc.Ran k r.2.1 [])
      (Proc.Halted k []) := by
  unfold readUserPipe
  refine Sat.bind (handleUserPipe_ran id uid k server .rdonly) fun answer ran => ?_
  obtain ⟨userExist, pipeExist, k', server⟩ := answer
  cases userExist with
  | false => exact ran.trans (ChatServer.handleUserPipeError_ran id uid k' .rdonly .userNotExist)
  | true =>
      cases pipeExist with
      | false => exact ran.trans (ChatServer.handleUserPipeError_ran id uid k' .rdonly .pipeErr)
      | true =>
          refine Sat.mono (?_ : Sat _ (fun r => Proc.Ran k' r.2.1 []) (Proc.Halted k' []))
            (fun _ => ran.trans) fun _ => .after ran
          refine Sat.bind (user_ran uid k' server) fun sender _ => ?_
          refine Sat.bind (user_ran id k' sender.2) fun receiver _ => ?_
          refine Sat.bind (index_ran uid k') fun i _ => ?_
          have copied := readFIFOWritePipe_ran k' (receiver.1.userPipes i).inFd
          have told (msg : Text) (server : ShmServer) : Sat
              (server.broadcastMessage msg (readFIFOWritePipe (receiver.1.userPipes i).inFd k'))
              (fun _ => True) (Proc.Halted k' []) :=
            (broadcastTo_ran _ server msg slots).mono (fun _ _ => trivial) fun _ => .after copied
          dsimp only
          split
          · refine Sat.bind (user_ran other k' receiver.2) fun target _ => ?_
            refine Sat.bind (?_ : Sat _ (fun _ => True) _) fun message _ => ?_
            · trivial
            · exact Sat.bind (told _ _) fun _ _ => copied.trans (.dup _ _)
          · refine Sat.bind (?_ : Sat _ (fun _ => True) _) fun message _ => ?_
            · trivial
            · exact Sat.bind (told _ _) fun _ _ => copied.trans (.dup _ _)

end Calls

theorem userPipeCalls_forkless (id : Int) : (userPipeCalls id).Forkless :=
  ⟨fun readUid p line writeUid k server => readUserPipe_ran id readUid k server p line writeUid,
    fun writeUid p line readUid k server => writeUserPipe_ran id writeUid k server p line readUid⟩

end ShmServer

/-- What `runShell` relies on: the lines alternate, no cast fails, there is a last element, and every
command of the queue is forked once. -/
structure RunsWell {σ : Type} (calls : UserPipeCalls σ) (queue : List NpCommandLine) : Prop where
  alternating : ∀ cl ∈ queue, cl.Alternating
  back : ∀ cl ∈ queue, ∀ s : ShellState σ, ∃ r, s.endLine cl = .ok r
  forked : ∀ line (s : ShellState σ), Sat (s.runQueue calls line queue)
    (fun r => s.proc.Ran r.proc (queue.flatMap fun cl => exeCommands cl.npCommands))
    (s.proc.Halted (queue.flatMap fun cl => exeCommands cl.npCommands))

theorem RunsWell.of_shape {σ : Type} {calls : UserPipeCalls σ} {queue : List NpCommandLine}
    (forkless : calls.Forkless) (shapes : ∀ cl ∈ queue, Shape cl.npCommands) :
    RunsWell calls queue where
  alternating cl member := (shapes cl member).alternating
  back cl member s := by
    obtain ⟨r, ended, -⟩ := ShellState.endLine_ran (shapes cl member) s
    exact ⟨r, ended⟩
  forked _ s := ShellState.runQueue_ran forkless shapes s

/-- Whatever the input line, `runShell` can run what `parseCommand` makes of it. -/
theorem parsed_runsWell (command : Text) :
    RunsWell npshellCalls (Npshell.parseCommand command).2 ∧
      (∀ id, RunsWell (ChatServer.userPipeCalls id) (parseCommand command).2) ∧
      ∀ id, RunsWell (ShmServer.userPipeCalls id) (parseCommand command).2 :=
  ⟨.of_shape npshellCalls_forkless fun _ member => Npshell.parseCommand_shape member,
    fun id => .of_shape (ChatServer.userPipeCalls_forkless id) fun _ member =>
      parseCommand_shape member,
    fun id => .of_shape (ShmServer.userPipeCalls_forkless id) fun _ member =>
      parseCommand_shape member⟩

end NetProg
