import NetProg.Shell.CircularBuffer
import NetProg.Shell.Command
import NetProg.Shell.Pipe

/-!
# `CmdHandler::runShell`

`shell/cmdHandler.cpp`: the loop that executes the command lines of one input line.  What the
chat server does for `<i` and `>j` is a parameter (`UserPipeCalls`), so the same loop is the
shell of `npshell`, which has no user pipes, and of the chat servers.
-/

namespace NetProg

/-- The members of `CmdHandler` that `runShell` works on (`np_project2/shell/cmdHandler.hpp:18-38`).
`userPipes` belongs to the server. -/
structure CmdHandler where
  numberPipeList : CircularBuffer Pipe
  running : Bool
  pipelineProcessor : Nat × Nat
  currPipe : Pipe
  prevPipe : Pipe
  eol : Pipe

/-- `CmdHandler()`. -/
def CmdHandler.init : CmdHandler :=
  ⟨.fresh .cleared, true, (0, 0), .cleared, .cleared, .cleared⟩

/-- `chatServer::readUserPipe` and `chatServer::writeUserPipe` for the user whose line runs.
They get the other uid of the line, `currPipe` and the text of the input line, and give back
`currPipe` as they leave it. -/
structure UserPipeCalls (σ : Type) where
  readUserPipe : (readUid : Int) → Pipe → Text → (writeUid : Int) → Proc → σ →
    Outcome (Pipe × Proc × σ)
  writeUserPipe : (writeUid : Int) → Pipe → Text → (readUid : Int) → Proc → σ →
    Outcome (Pipe × Proc × σ)

/-- The state of a shell: the process, its handler and the server it belongs to. -/
structure ShellState (σ : Type) where
  proc : Proc
  handler : CmdHandler
  server : σ

variable {σ : Type}

namespace ShellState

/-- `prevPipe.closePipe(); prevPipe = currPipe;` -/
def shiftPipes (s : ShellState σ) : ShellState σ :=
  { s with
    proc := s.handler.prevPipe.closePipe s.proc
    handler := { s.handler with prevPipe := s.handler.currPipe } }

/-- `NumberedPipeCommand::createPipe` (`np_project2/shell/cmdType.cpp:32-38`). -/
def createNumberedPipe (number : Int) (s : ShellState σ) : Outcome (ShellState σ) :=
  let h := s.handler
  let currPipe := h.numberPipeList.get (sizeT number)
  if currPipe.empty then do
    let (made, proc) ← Pipe.create s.proc (.user s.proc.serving)
    .ok { s with
      proc
      handler := { h with
        currPipe := made
        numberPipeList := h.numberPipeList.set (sizeT number) made } }
  else .ok { s with handler := { h with currPipe } }

/-- The virtual `createPipe(currPipe)` of a separator (`np_project2/shell/cmdType.cpp:22-24`). -/
def createPipe (next : ICommand) (s : ShellState σ) : Outcome (ShellState σ) :=
  match next with
  | .file name =>
      let (currPipe, proc) := Pipe.openFile s.proc name
      .ok { s with proc, handler := { s.handler with currPipe } }
  | .numbered number _ => s.createNumberedPipe number
  | _ => do
      let (currPipe, proc) ← Pipe.create s.proc (.user s.proc.serving)
      .ok { s with proc, handler := { s.handler with currPipe } }

/-- What `runShell` does with the element after a command before it forks
(`np_project2/shell/cmdHandler.cpp:67-81`); the flag is `pipeErr`. -/
def connect (calls : UserPipeCalls σ) (line : Text) (cl : NpCommandLine)
    (next : Option ICommand) (s : ShellState σ) : Outcome (ShellState σ × Bool) :=
  match next with
  | none => .ok (s, false)
  | some (.exe _) => .error (.badCast, s.proc)
  | some .userPipe =>
      if 0 < cl.writeUid then do
        let (currPipe, proc, server) ←
          calls.writeUserPipe cl.writeUid s.handler.currPipe line cl.readUid s.proc s.server
        .ok ({ proc, server, handler := { s.handler with currPipe } }, false)
      else .ok (s, false)
  | some sep => do
      let s ← s.createPipe sep
      .ok (s, sep.pipeError)

/-- `fork` with the child's redirections, then the wait for the command two places back
(`np_project2/shell/cmdHandler.cpp:83-95`). -/
def forkCommand (argv : List Text) (pipeErr : Bool) (s : ShellState σ) : ShellState σ :=
  let h := s.handler
  let (pid, proc) := s.proc.fork argv (fun t => h.currPipe.write pipeErr (h.prevPipe.read t))
  let (oldest, newest) := h.pipelineProcessor
  { s with
    proc := if oldest = 0 then proc else proc.waitpid oldest
    handler := { h with pipelineProcessor := (newest, pid) } }

/-- One turn of the `for` loop at a command. -/
def runCommand (calls : UserPipeCalls σ) (line : Text) (cl : NpCommandLine) (argv : List Text)
    (next : Option ICommand) (s : ShellState σ) : Outcome (ShellState σ) := do
  let (s, pipeErr) ← s.shiftPipes.connect calls line cl next
  .ok (s.forkCommand argv pipeErr)

/-- The `for` loop over `npCommands` (`np_project2/shell/cmdHandler.cpp:57-96`). -/
def runCommands (calls : UserPipeCalls σ) (line : Text) (cl : NpCommandLine) :
    List ICommand → ShellState σ → Outcome (ShellState σ)
  | [], s => .ok s
  | .exe argv :: rest, s => do
      let s ← s.runCommand calls line cl argv rest.head?
      runCommands calls line cl rest s
  | _ :: rest, s => runCommands calls line cl rest s

/-- `eol.create()`, then `next()` and the copy of the front slot, then `<i`
(`np_project2/shell/cmdHandler.cpp:31-44`). -/
def beginLine (calls : UserPipeCalls σ) (line : Text) (cl : NpCommandLine)
    (s : ShellState σ) : Outcome (ShellState σ) := do
  let (eol, proc) ← Pipe.create s.proc (.user s.proc.serving)
  let numberPipeList := s.handler.numberPipeList.next
  let h := { s.handler with eol, numberPipeList, currPipe := numberPipeList.front }
  if 0 < cl.readUid then do
    let (currPipe, proc, server) ←
      calls.readUserPipe cl.readUid h.currPipe line cl.writeUid proc s.server
    .ok { proc, server, handler := { h with currPipe } }
  else .ok { s with proc, handler := h }

/-- After the loop: the previous pipe is closed (`np_project2/shell/cmdHandler.cpp:98-107`); a
numbered pipe stays open and the line waits for the end of `eol` instead. -/
def endLine (cl : NpCommandLine) (s : ShellState σ) : Outcome (ShellState σ) :=
  let h := s.handler
  let proc := h.prevPipe.closePipe s.proc
  let h := { h with prevPipe := .cleared }
  match cl.npCommands.getLast? with
  | none => .error (.undefined, proc)
  | some last =>
      if last.getType ≠ .numberedPipe then
        let proc := proc.waitpid h.pipelineProcessor.2
        .ok { s with proc := h.currPipe.closePipe proc, handler := { h with currPipe := .cleared } }
      else .ok { s with proc := h.eol.readEOF proc, handler := h }

/-- The body of the `while` loop: one command line (`np_project2/shell/cmdHandler.cpp:31-110`). -/
def runCommandLine (calls : UserPipeCalls σ) (line : Text) (cl : NpCommandLine)
    (s : ShellState σ) : Outcome (ShellState σ) := do
  let s ← s.beginLine calls line cl
  let s ← s.runCommands calls line cl cl.npCommands
  s.endLine cl

/-- The `while` loop over the queue of command lines (`np_project2/shell/cmdHandler.cpp:30-111`). -/
def runQueue (calls : UserPipeCalls σ) (line : Text) :
    List NpCommandLine → ShellState σ → Outcome (ShellState σ)
  | [], s => .ok s
  | cl :: queue, s => do
      let s ← s.runCommandLine calls line cl
      runQueue calls line queue s

/-- Command lines one after the other, each with the text of the input line it comes from.  This is the
run of a shell whose input lines hold no built-in commands; `Npshell.run` and `SingleProc.next` perform
these as well. -/
def runLines (calls : UserPipeCalls σ) :
    List (Text × NpCommandLine) → ShellState σ → Outcome (ShellState σ)
  | [], s => .ok s
  | (line, cl) :: rest, s => do
      let s ← s.runCommandLine calls line cl
      runLines calls rest s

end ShellState

end NetProg
