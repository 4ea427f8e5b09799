import NetProg.Console.CgiSession
import NetProg.Lib.Paths

/-!
# What `http_server` executes

`forkCGI` opens a dot followed by the target, as it is, and executes what it finds.  A target may climb
out of the directory of the server.
-/

namespace NetProg.CGI

/-- What a place in the file system is.  A file has two permissions, and only a program can be executed. -/
inductive Node where
  | directory
  | file (readable executable : Bool)
  deriving DecidableEq, Repr

/-- The files, and the working directory of the server. -/
structure FileSystem where
  node : List Text → Option Node
  cwd : List Text

/-- What a component of a path does. -/
def component (name : Text) : Step Text :=
  if name = [] ∨ name = ".".toList then .stay
  else if name = "..".toList then .up
  else .down name

/-- The components of a path; one that begins with a slash has an empty one in front. -/
def components (path : Text) : List (Step Text) := (split false (· == '/') path).map component

namespace FileSystem

/-- `open(path, O_RDONLY)`: where the file is that was opened. -/
def openFile (fs : FileSystem) (path : Text) : Option (List Text) := do
  let start := if path.head? = some '/' then [] else fs.cwd
  let place ← walk (fun dir => fs.node dir == some .directory) start (components path)
  match fs.node place with
  | some .directory => some place
  | some (.file true _) => some place
  | _ => none

/-- Whether `fexecve` succeeds on an open file. -/
def fexecve (fs : FileSystem) (place : List Text) : Bool :=
  match fs.node place with
  | some (.file _ executable) => executable
  | _ => false

end FileSystem

/-- A program that runs. -/
structure Execution where
  place : List Text
  argv : List Text
  envp : List Text

/-- The child of `forkCGI`, if it executes something
(`np_project3/cgiserver/cgi_session.cpp:96-135`); `sent` tells that `HTTP200` could be written. -/
def forkCGI (fs : FileSystem) (sent : Bool) (call : Call) : Option Execution := do
  let programPath := Text.cString call.programPath
  let cgiFile ← fs.openFile programPath
  if sent && fs.fexecve cgiFile then
    some ⟨cgiFile, [programPath], call.envp.map Text.cString⟩
  else none

/-- What a request executes (`np_project3/cgiserver/cgi_session.cpp:40-135`). -/
def executed (fs : FileSystem) (sent : Bool) (httpReq : Request) (ends : Endpoints) :
    Option Execution := do
  let call ← handleHttpRequest httpReq ends
  forkCGI fs sent call

/-- The path that is opened for a target. -/
def programPath (httpReq : Request) : Text := '.' :: token (· == '?') httpReq.target.text

/-- What is executed is a file in the working directory of the server. -/
def Confined (fs : FileSystem) (sent : Bool) (httpReq : Request) (ends : Endpoints) : Prop :=
  ∀ run, executed fs sent httpReq ends = some run →
    run.place = resolve fs.cwd (components (programPath httpReq)) ∧ Below fs.cwd run.place

/-- Behind its climb the path names what it has climbed out of. -/
def Returns (fs : FileSystem) (httpReq : Request) : Prop :=
  Below (fs.cwd.drop (fs.cwd.length - (normal (components (programPath httpReq))).ups))
    (normal (components (programPath httpReq))).names

/-- There is a program that can be opened and executed. -/
def Runs (fs : FileSystem) (sent : Bool) (httpReq : Request) : Prop :=
  sent = true ∧ ∃ place, fs.openFile (programPath httpReq) = some place ∧ fs.fexecve place = true

section Execution

variable {fs : FileSystem} {sent : Bool} {httpReq : Request} {ends : Endpoints} {path : Text}
  {place : List Text}

theorem cString_programPath (httpReq : Request) :
    Text.cString (programPath httpReq) = programPath httpReq := by
  refine Text.cString_of_plain fun member => ?_
  rcases List.mem_cons.mp member with dot | later
  · exact absurd dot (by decide)
  · exact httpReq.target.plain ((List.takeWhile_sublist _).subset later)

/-- A path that begins with a dot is opened from the working directory. -/
theorem openFile_eq (found : fs.openFile ('.' :: path) = some place) :
    place = resolve fs.cwd (components ('.' :: path)) := by
  rw [FileSystem.openFile, if_neg (by simp)] at found
  obtain ⟨place', walked, opened⟩ := Option.bind_eq_some_iff.mp found
  have same : place' = place := by
    split at opened
    · exact Option.some.inj opened
    · exact Option.some.inj opened
    · cases opened
  rw [← same]
  exact walk_eq walked

theorem executed_iff (run : Execution) : executed fs sent httpReq ends = some run ↔
    ∃ place, fs.openFile (programPath httpReq) = some place ∧
      (sent = true ∧ fs.fexecve place = true) ∧
      run = ⟨place, [programPath httpReq], (saveParms httpReq ends []
        (token (· == '?') (behind false (· == '?') httpReq.target.text))).map Text.cString⟩ := by
  rw [executed, handleHttpRequest_eq, Option.bind_eq_bind, Option.bind_some, forkCGI]
  dsimp only
  rw [← programPath, cString_programPath, Option.bind_eq_bind, Option.bind_eq_some_iff]
  refine exists_congr fun place => and_congr_right fun _ => ?_
  rw [← Bool.and_eq_true]
  split
  case isTrue runs => simp [runs, eq_comm]
  case isFalse none => simp [none]

end Execution

/-- A request is confined exactly if its path returns to the directory or nothing can be executed
there. -/
theorem confined_iff (fs : FileSystem) (sent : Bool) (httpReq : Request) (ends : Endpoints) :
    Confined fs sent httpReq ends ↔ Returns fs httpReq ∨ ¬ Runs fs sent httpReq := by
  have inside : ∀ place, fs.openFile (programPath httpReq) = some place →
      place = resolve fs.cwd (components (programPath httpReq)) := fun place => openFile_eq
  rw [Returns, ← below_resolve_iff]
  constructor
  · intro confined
    by_cases runs : Runs fs sent httpReq
    · obtain ⟨written, place, found, ran⟩ := runs
      have run : executed fs sent httpReq ends = some _ :=
        (executed_iff _).mpr ⟨place, found, ⟨written, ran⟩, rfl⟩
      obtain ⟨same, below⟩ := confined _ run
      exact Or.inl (same ▸ below)
    · exact Or.inr runs
  · intro safe run made
    obtain ⟨place, found, ⟨written, ran⟩, rfl⟩ := (executed_iff run).mp made
    have same := inside place found
    refine ⟨same, ?_⟩
    rcases safe with returns | stopped
    · rw [same]
      exact returns
    · exact absurd ⟨written, place, found, ran⟩ stopped

/-- A server in `/srv/www`, and a program in `/srv`. -/
def twoLevels : FileSystem where
  node := fun place =>
    if place = [] ∨ place = ["srv".toList] ∨ place = ["srv".toList, "www".toList] then some .directory
    else if place = ["srv".toList, "sh".toList] then some (.file true true)
    else none
  cwd := ["srv".toList, "www".toList]

/-- `GET /../sh` -/
theorem parent_executed : ¬ Confined twoLevels true
    (getRequest "/../sh".toList [] (by decide) (by decide)) localhost := by
  rw [confined_iff]
  rintro (⟨rest, -, returns⟩ | stopped)
  · have names : (normal (components (programPath
        (getRequest "/../sh".toList [] (by decide) (by decide))))).names = ["sh".toList] := by decide
    have ups : (normal (components (programPath
        (getRequest "/../sh".toList [] (by decide) (by decide))))).ups = 1 := by decide
    rw [names, ups] at returns
    exact absurd (List.cons.inj returns).1 (by decide)
  · exact stopped ⟨rfl, ["srv".toList, "sh".toList], by decide, by decide⟩

end NetProg.CGI
