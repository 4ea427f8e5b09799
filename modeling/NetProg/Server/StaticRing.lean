import NetProg.Server.ChatServer

/-!
# The static pointer to the ring

`NumberedPipeCommand::createPipe` does not get the ring of its user: it goes through the static member
`numberPipeList`, which all users share and which `runShell` aims at the ring of the serving user at
the start of every command line.  Until then it points into whoever was served last, connected or not.
-/

namespace NetProg

/-- A shell with the static member: the connection whose ring it points to, `none` for the null
pointer (`np_project2/shell/cmdType.hpp:81`). -/
structure PointedShell where
  shell : ShellState ChatServer
  numberPipeList : Option Nat

namespace PointedShell

/-- `*numberPipeList` while `session` is served: his own ring, the ring of another connected user, or
memory that has been freed. -/
def deref (session : Nat) (s : PointedShell) : Option (CircularBuffer Pipe) :=
  s.numberPipeList.bind fun owner =>
    if owner = session then some s.shell.handler.numberPipeList
    else (s.shell.server.users.entries.find? (·.2.session == owner)).map
      (·.2.handler.numberPipeList)

/-- The ring behind the pointer with a new content. -/
def store (session : Nat) (ring : CircularBuffer Pipe) (s : PointedShell) : PointedShell :=
  if s.numberPipeList = some session then
    { s with shell.handler.numberPipeList := ring }
  else
    match s.shell.server.users.entries.find? fun entry => s.numberPipeList == some entry.2.session with
    | none => s
    | some (id, user) =>
        { s with
          shell.server := s.shell.server.setUser id
            { user with handler := { user.handler with numberPipeList := ring } } }

/-- `NumberedPipeCommand::createPipe` (`np_project2/shell/cmdType.cpp:32-38`), through the
pointer. -/
def createNumberedPipe (session : Nat) (number : Int) (s : PointedShell) : Outcome PointedShell :=
  match s.deref session with
  | none => .error (.undefined, s.shell.proc)
  | some ring =>
      let currPipe := ring.get (sizeT number)
      if currPipe.empty then do
        let (made, proc) ← Pipe.create s.shell.proc (.user s.shell.proc.serving)
        let s := { s with shell.proc := proc, shell.handler.currPipe := made }
        .ok (s.store session (ring.set (sizeT number) made))
      else .ok { s with shell.handler.currPipe := currPipe }

/-- The element after a command: only a numbered pipe looks at the ring. -/
def connect (session : Nat) (calls : UserPipeCalls ChatServer) (line : Text) (cl : NpCommandLine)
    (next : Option ICommand) (s : PointedShell) : Outcome (PointedShell × Bool) :=
  match next with
  | some (.numbered number writeErr) => do
      let s ← s.createNumberedPipe session number
      .ok (s, writeErr)
  | _ => do
      let (shell, pipeErr) ← s.shell.connect calls line cl next
      .ok ({ s with shell }, pipeErr)

def runCommand (session : Nat) (calls : UserPipeCalls ChatServer) (line : Text) (cl : NpCommandLine)
    (argv : List Text) (next : Option ICommand) (s : PointedShell) : Outcome PointedShell := do
  let (s, pipeErr) ← connect session calls line cl next { s with shell := s.shell.shiftPipes }
  .ok { s with shell := s.shell.forkCommand argv pipeErr }

def runCommands (session : Nat) (calls : UserPipeCalls ChatServer) (line : Text) (cl : NpCommandLine) :
    List ICommand → PointedShell → Outcome PointedShell
  | [], s => .ok s
  | .exe argv :: rest, s => do
      let s ← s.runCommand session calls line cl argv rest.head?
      runCommands session calls line cl rest s
  | _ :: rest, s => runCommands session calls line cl rest s

/-- One command line of the user whose connection is `session`. -/
def runCommandLine (session : Nat) (calls : UserPipeCalls ChatServer) (line : Text)
    (cl : NpCommandLine) (s : PointedShell) : Outcome PointedShell := do
  let shell ← s.shell.beginLine calls line cl
  let s ← runCommands session calls line cl cl.npCommands ⟨shell, some session⟩
  let shell ← s.shell.endLine cl
  .ok { s with shell }

/-- A shell whose pointer is at its own ring. -/
def own (session : Nat) (shell : ShellState ChatServer) : PointedShell := ⟨shell, some session⟩

section Own

variable {session : Nat} {calls : UserPipeCalls ChatServer} {line : Text} {cl : NpCommandLine}

theorem createNumberedPipe_own (number : Int) (shell : ShellState ChatServer) :
    (own session shell).createNumberedPipe session number =
      (shell.createNumberedPipe number).map (own session) := by
  have ring : (own session shell).deref session = some shell.handler.numberPipeList := if_pos rfl
  rw [createNumberedPipe, ring, ShellState.createNumberedPipe]
  by_cases empty : (shell.handler.numberPipeList.get (sizeT number)).empty = true
  · simp only [empty, if_true, own]
    cases Pipe.create shell.proc (.user shell.proc.serving) with
    | error stopped => rfl
    | ok made =>
        show Except.ok (store _ _ _) = Except.ok _
        rw [store, if_pos rfl]
        rfl
  · simp only [empty]
    rfl

theorem connect_own (next : Option ICommand) (shell : ShellState ChatServer) :
    (own session shell).connect session calls line cl next =
      (shell.connect calls line cl next).map fun r => (own session r.1, r.2) := by
  have plain : ∀ r : Outcome (ShellState ChatServer × Bool),
      (r >>= fun r => Except.ok ({ own session shell with shell := r.1 }, r.2)) =
        r.map fun r => (own session r.1, r.2) := by
    intro r
    cases r <;> rfl
  cases next with
  | none => exact plain _
  | some sep =>
      cases sep with
      | numbered number writeErr =>
          show ((own session shell).createNumberedPipe session number >>= _) =
            (shell.createNumberedPipe number >>= _).map _
          rw [createNumberedPipe_own]
          cases shell.createNumberedPipe number <;> rfl
      | _ => exact plain _

theorem runCommand_own (argv : List Text) (next : Option ICommand) (shell : ShellState ChatServer) :
    (own session shell).runCommand session calls line cl argv next =
      (shell.runCommand calls line cl argv next).map (own session) := by
  show ((own session shell.shiftPipes).connect session calls line cl next >>= _) =
    (shell.shiftPipes.connect calls line cl next >>= _).map _
  rw [connect_own]
  cases shell.shiftPipes.connect calls line cl next <;> rfl

theorem runCommands_own (commands : List ICommand) (shell : ShellState ChatServer) :
    (own session shell).runCommands session calls line cl commands =
      (shell.runCommands calls line cl commands).map (own session) := by
  induction commands generalizing shell with
  | nil => rfl
  | cons command rest ih =>
      cases command with
      | exe argv =>
          show ((own session shell).runCommand session calls line cl argv rest.head? >>= _) =
            (shell.runCommand calls line cl argv rest.head? >>= _).map _
          rw [runCommand_own]
          cases shell.runCommand calls line cl argv rest.head? with
          | error stopped => rfl
          | ok next => exact ih next
      | _ => exact ih shell

/-- Wherever the pointer was, a command line of a user runs on his own ring, and the pointer stays
there. -/
theorem runCommandLine_own (s : PointedShell) :
    s.runCommandLine session calls line cl =
      (s.shell.runCommandLine calls line cl).map (own session) := by
  show (s.shell.beginLine calls line cl >>= _) = (s.shell.beginLine calls line cl >>= _).map _
  cases s.shell.beginLine calls line cl with
  | error stopped => rfl
  | ok begun =>
      show ((own session begun).runCommands session calls line cl cl.npCommands >>= _) =
        (begun.runCommands calls line cl cl.npCommands >>= _).map _
      rw [runCommands_own]
      cases begun.runCommands calls line cl cl.npCommands with
      | error stopped => rfl
      | ok done =>
          show (done.endLine cl >>= _) = (done.endLine cl).map _
          cases done.endLine cl <;> rfl

end Own

end PointedShell

end NetProg
