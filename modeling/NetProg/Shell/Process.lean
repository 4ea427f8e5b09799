import NetProg.Lib.FdTable
import NetProg.Lib.Text

/-!
# The shell process as the kernel sees it

The descriptor table of the process that runs the shells, with the system calls that the
shell and the chat server make on it.  Every open descriptor remembers for whom it was
opened, and the calls whose effect leaves the process (closing, forking, waiting, sending and
printing) are logged in the order they are made.  Both annotations are for the statements
only: no branch of the program reads them.
-/

namespace NetProg

/-- What an open descriptor refers to.  Pipes and accepted connections are numbered in the
order in which they were created. -/
inductive Object where
  | std (stream : Nat)
  | listener
  | socket (session : Nat)
  | pipeIn (pipe : Nat)
  | pipeOut (pipe : Nat)
  | file (name : Text)
  deriving DecidableEq, Repr

/-- For whom a descriptor was opened: the server, one connected user, or the two users that
a user pipe joins. -/
inductive Owner where
  | server
  | user (session : Nat)
  | userPipe (sender receiver : Nat)
  deriving DecidableEq, Repr

def Owner.IsFor (session : Nat) : Owner → Prop
  | .server => False
  | .user s => s = session
  | .userPipe sender receiver => sender = session ∨ receiver = session

instance (session : Nat) (owner : Owner) : Decidable (owner.IsFor session) := by
  cases owner <;> unfold Owner.IsFor <;> infer_instance

/-- An open descriptor. -/
structure Desc where
  object : Object
  owner : Owner
  deriving DecidableEq, Repr

/-- A descriptor variable of the program: `none` is the value -1. -/
abbrev Fd := Option Nat

/-- A forked command: its argument words, its environment and its descriptors when it calls
`execvp`. -/
structure Child where
  argv : List Text
  environ : List (Text × Text)
  fds : FdTable Desc
  deriving DecidableEq, Repr

/-- The logged calls.  `close` records for whom it was made and what the number referred to, `cout`
what was inserted into the stream: a terminal shows it line by line, another standard output may
keep it back. -/
inductive Event where
  | close (session fd : Nat) (found : Option Desc)
  | fork (pid : Nat) (child : Child)
  | waitpid (pid : Nat)
  | send (fd : Int) (message : Text)
  | cout (message : Text)
  deriving DecidableEq, Repr

/-- The process. -/
structure Proc where
  fds : FdTable Desc
  /-- the limit on descriptor numbers (`RLIMIT_NOFILE`) -/
  limit : Nat
  /-- whether `open` on a path succeeds -/
  canOpen : Text → Bool
  environ : List (Text × Text)
  /-- the connection whose input is being served -/
  serving : Nat
  nextPipe : Nat
  nextPid : Nat
  log : List Event

/-- Why the program stops in the middle of a step: `exit(EXIT_FAILURE)` in `Pipe::create`, the
`std::bad_cast` of a reference `dynamic_cast`, or an access that C++ leaves undefined. -/
inductive Abort where
  | exitFailure
  | badCast
  | undefined
  deriving DecidableEq, Repr

/-- A step of the program; a step that stops leaves the process behind. -/
abbrev Outcome (α : Type) := Except (Abort × Proc) α

/-- The descriptors of a process that was started on a terminal. -/
def standardFds : FdTable Desc :=
  ⟨[some ⟨.std 0, .server⟩, some ⟨.std 1, .server⟩, some ⟨.std 2, .server⟩]⟩

namespace Proc

/-- A process that has just been started. -/
def start (limit : Nat) (canOpen : Text → Bool) (environ : List (Text × Text)) : Proc :=
  { fds := standardFds, limit, canOpen, environ
    serving := 0, nextPipe := 0, nextPid := 1, log := [] }

def logEvent (k : Proc) (event : Event) : Proc := { k with log := k.log ++ [event] }

/-- `close(fd)`; closing -1 does nothing. -/
def close (k : Proc) : Fd → Proc
  | none => k
  | some fd =>
      { k with
        fds := k.fds.close fd
        log := k.log ++ [.close k.serving fd (k.fds.get fd)] }

/-- `pipe2`: the read end and the write end under the two lowest free numbers. -/
def pipe2 (k : Proc) (owner : Owner) : Option (Nat × Nat × Proc) :=
  let first := k.fds.lowest
  let fds := k.fds.insert ⟨.pipeIn k.nextPipe, owner⟩
  let second := fds.lowest
  if first < k.limit ∧ second < k.limit then
    some (first, second,
      { k with fds := fds.insert ⟨.pipeOut k.nextPipe, owner⟩, nextPipe := k.nextPipe + 1 })
  else none

/-- A call that opens one descriptor, or returns -1 when no number is left. -/
def openObject (k : Proc) (object : Object) : Fd × Proc :=
  if k.fds.lowest < k.limit then
    (some k.fds.lowest, { k with fds := k.fds.insert ⟨object, .user k.serving⟩ })
  else (none, k)

/-- `open(name, ...)`. -/
def openFile (k : Proc) (name : Text) : Fd × Proc :=
  if k.canOpen name then k.openObject (.file name) else (none, k)

/-- `dup(fd)`. -/
def dup (k : Proc) (fd : Fd) : Fd × Proc :=
  match fd.bind k.fds.get with
  | none => (none, k)
  | some d => k.openObject d.object

/-- `dup2(old, new)` in this process. -/
def dup2 (k : Proc) (old : Fd) (new : Nat) : Proc :=
  match old with
  | none => k
  | some fd => { k with fds := k.fds.dup2 fd new }

/-- `fork`: the child runs `child` on a copy of the table. -/
def fork (k : Proc) (argv : List Text) (child : FdTable Desc → FdTable Desc) : Nat × Proc :=
  (k.nextPid,
    { k with
      nextPid := k.nextPid + 1
      log := k.log ++ [.fork k.nextPid ⟨argv, k.environ, child k.fds⟩] })

/-- The environment with one variable replaced or appended. -/
def assignEnv (name value : Text) : List (Text × Text) → List (Text × Text)
  | [] => [(name, value)]
  | (name', value') :: rest =>
      if name' = name then (name, value) :: rest else (name', value') :: assignEnv name value rest

/-- `setenv(name, value, true)`; an empty name or one with `=` is refused. -/
def setenv (k : Proc) (name value : Text) : Proc :=
  let name := Text.cString name
  if name = [] ∨ '=' ∈ name then k
  else { k with environ := assignEnv name (Text.cString value) k.environ }

def waitpid (k : Proc) (pid : Nat) : Proc := k.logEvent (.waitpid pid)

end Proc

/-- A close is made on a number that is free or was opened for the user being served. -/
def Event.Proper : Event → Prop
  | .close session _ (some d) => d.owner.IsFor session
  | _ => True

instance (event : Event) : Decidable event.Proper := by
  unfold Event.Proper
  split <;> infer_instance

/-- The forked commands of a log. -/
def forks (log : List Event) : List Child :=
  log.filterMap fun
    | .fork _ child => some child
    | _ => none

@[simp] theorem forks_nil : forks [] = [] := rfl

@[simp] theorem forks_append (first later : List Event) :
    forks (first ++ later) = forks first ++ forks later := by
  simp [forks]

/-- What a stretch of a step leaves as it was, and what it adds to the log: proper closes only,
and the forks of `children`. -/
structure Proc.Steps (k k' : Proc) (children : List Child) : Prop where
  serving : k'.serving = k.serving
  limit : k'.limit = k.limit
  canOpen : k'.canOpen = k.canOpen
  nextPipe : k.nextPipe ≤ k'.nextPipe
  log : ∃ events, k'.log = k.log ++ events ∧ (∀ e ∈ events, e.Proper) ∧ forks events = children

namespace Proc.Steps

theorem refl (k : Proc) : Proc.Steps k k [] :=
  ⟨rfl, rfl, rfl, Nat.le_refl _, [], by simp, by simp, rfl⟩

theorem trans {k₁ k₂ k₃ : Proc} {first later : List Child} (h : Proc.Steps k₁ k₂ first)
    (h' : Proc.Steps k₂ k₃ later) : Proc.Steps k₁ k₃ (first ++ later) := by
  obtain ⟨events, log, proper, children⟩ := h.log
  obtain ⟨events', log', proper', children'⟩ := h'.log
  refine ⟨h'.serving.trans h.serving, h'.limit.trans h.limit, h'.canOpen.trans h.canOpen,
    h.nextPipe.trans h'.nextPipe, events ++ events', ?_, ?_, ?_⟩
  · rw [log', log, List.append_assoc]
  · intro e member
    exact (List.mem_append.mp member).elim (proper e) (proper' e)
  · rw [forks_append, children, children']

/-- A step that only appends one event. -/
theorem single {k k' : Proc} (event : Event) (serving : k'.serving = k.serving)
    (limit : k'.limit = k.limit) (canOpen : k'.canOpen = k.canOpen)
    (nextPipe : k.nextPipe ≤ k'.nextPipe) (log : k'.log = k.log ++ [event])
    (proper : event.Proper) : Proc.Steps k k' (forks [event]) :=
  ⟨serving, limit, canOpen, nextPipe, [event], log, by simpa using proper, rfl⟩

/-- A step that logs nothing. -/
theorem quiet {k k' : Proc} (serving : k'.serving = k.serving) (limit : k'.limit = k.limit)
    (canOpen : k'.canOpen = k.canOpen) (nextPipe : k.nextPipe ≤ k'.nextPipe)
    (log : k'.log = k.log) : Proc.Steps k k' [] :=
  ⟨serving, limit, canOpen, nextPipe, [], by simp [log], by simp, rfl⟩

theorem cout (k : Proc) (message : Text) : Proc.Steps k (k.logEvent (.cout message)) [] :=
  single (.cout message) rfl rfl rfl (Nat.le_refl _) rfl trivial

theorem send (k : Proc) (fd : Int) (message : Text) :
    Proc.Steps k (k.logEvent (.send fd message)) [] :=
  single (.send fd message) rfl rfl rfl (Nat.le_refl _) rfl trivial

end Proc.Steps

end NetProg
