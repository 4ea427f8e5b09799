import NetProg.Console.Conversation
import NetProg.Console.Page
import NetProg.Console.ReadBack

/-!
# What the browser shows of the sessions

`console.cpp` runs its sessions in one event loop, and all of them print to the same standard output.
The browser executes the scripts in the order in which they come; each appends to the element of its
session.
-/

namespace NetProg.CGI

open References (Names)
open Html (Token)
open Text (getline includes)

/-- What is shown in one style. -/
structure Run where
  bold : Bool
  text : Text
  deriving DecidableEq, Repr

/-- The text that has been read, if there is any. -/
def runOf (names : Names) (bold : Bool) (raw : Text) : List Run :=
  if raw = [] then [] else [⟨bold, References.text names raw⟩]

/-- The runs that tokens make; `raw` is the text since the last tag. -/
def runs (names : Names) (bold : Bool) (raw : Text) : List Token → List Run
  | [] => runOf names bold raw
  | .char c :: tokens => runs names bold (raw ++ [c]) tokens
  | .tag tag :: tokens =>
      if tag.name = "b".toList then runOf names bold raw ++ runs names (!tag.closing) [] tokens
      else runs names bold raw tokens

/-- Text in front of text makes one text. -/
def place (run : Run) : List Run → List Run
  | [] => [run]
  | next :: rest =>
      if run.bold = false ∧ next.bold = false then ⟨false, run.text ++ next.text⟩ :: rest
      else run :: next :: rest

namespace Application

/-- `clientInfo`. -/
def clientInfo (sessionId : Nat) (a : Application) : ClientInfo :=
  ⟨sessionId, bytesOf a.userCommand, bytesOf a.shellOutput⟩

/-- What the completion of `async_read_until` prints. -/
def printsOnRead (sessionId : Nat) (a : Application) : List Output :=
  if includes prompt a.shellOutput = false then [.shell (a.clientInfo sessionId)]
  else
    match getline a.cgiInput with
    | none => [.shell (a.clientInfo sessionId)]
    | some (line, _) =>
      let command := { a with userCommand := line ++ ['\n'] }
      [.shell (a.clientInfo sessionId), .command (command.clientInfo sessionId)]

/-- What is printed when a chunk arrives. -/
def prints (sessionId : Nat) (a : Application) (chunk : Text) : List Output :=
  if a.reading then
    let a := { a with shellOutput := a.shellOutput ++ chunk }
    if delim a.shellOutput then a.printsOnRead sessionId else []
  else []

end Application

/-- The event loop of `console.cpp`: of the sessions, each chunk arrives at one
(`np_project3/console.cpp:5-22`). -/
def stdout {n : Nat} (write : Fin n → WriteSome) :
    (Fin n → Application) → List (Fin n × Text) → List Output
  | _, [] => []
  | apps, (i, chunk) :: events =>
      (apps i).prints i chunk ++
        stdout write (Function.update apps i ((apps i).receive (write i) chunk)) events

/-- An output as it is shown. -/
def Output.run : Output → Run
  | .shell info => ⟨false, textOf info.shellOutput⟩
  | .command info => ⟨true, textOf info.userCommand⟩

/-- No byte is NUL, CR or the byte of a negative `char`. -/
def Ascii (text : Text) : Prop := ∀ c ∈ text, (0 < c.toNat ∧ c.toNat < 128) ∧ c ≠ '\r'

section Rereading

variable {shown : List Run}

end Rereading

section Reading

variable {names : Names} {c : UInt8} {content : List UInt8}

end Reading

namespace Output

variable {names : Names} {o : Output} {outputs : List Output} {contents : Contents}

end Output

namespace Application

variable {write : WriteSome} {a : Application} {chunk : Text} {chunks : List Text} {k : Nat}

/-- The session has only such text. -/
structure Plain (a : Application) : Prop where
  shellOutput : Ascii a.shellOutput
  cgiInput : Ascii a.cgiInput

end Application

section Console

variable {n : Nat} {apps : Fin n → Application} {events : List (Fin n × Text)}

end Console

end NetProg.CGI
