import NetProg.Lib.Lines

/-!
# The console's conversation with one shell

`CGI::Application` reads from the shell until its buffer holds a newline or a prompt, shows the
buffer, and answers a prompt with the next line of the test case.  A state lies between two
completions; the session is a fold over the chunks that the socket delivers.
-/

namespace NetProg

/-- The `char`s of a `std::string` as the bytes of a socket. -/
def bytesOf (text : Text) : List UInt8 := text.map fun c => UInt8.ofNat c.toNat

/-- The bytes of a socket as the `char`s of a `std::string`. -/
def textOf (bytes : List UInt8) : Text := bytes.map fun b => Char.ofNat b.toNat

namespace CGI

open Text (getline lines includes occurrences)

/-- `async_write_some`: of a command, given by its number and length, the bytes it transmits, or
`none` for an error. -/
abbrev WriteSome := Nat → Nat → Option Nat

/-- The prompt of the shell. -/
def prompt : Text := ['%', ' ']

/-- `(\n)|(% )` is found. -/
def delim (s : Text) : Bool := s.contains '\n' || includes prompt s

/-- `CGI::Application` (`np_project3/cgiserver/cgi_application.hpp:9-24`) with its `clientInfo`.
`shown` and `typed` are the contents with which `output_shell` and `output_command` were called;
`sent` is what each `async_write_some` transmitted. -/
structure Application where
  /-- What is left of the test case. -/
  cgiInput : Text
  shellOutput : Text := []
  userCommand : Text := []
  /-- An `async_read_until` is outstanding. -/
  reading : Bool := false
  /-- `shutdown_send` was called. -/
  shutdown : Bool := false
  shown : List Text := []
  typed : List Text := []
  sent : List Text := []
  deriving Repr

namespace Application

/-- `handleShellInteraction` (`np_project3/cgiserver/cgi_application.cpp:39-63`) up to its
return. -/
def handleShellInteraction (a : Application) : Application :=
  { a with shellOutput := [], reading := true }

/-- The completion of `async_write_some` (`np_project3/cgiserver/cgi_application.cpp:39-63`). -/
def onWrite (transmitted : Option Nat) (a : Application) : Application :=
  match transmitted with
  | none => a
  | some n => { a with sent := a.sent ++ [a.userCommand.take n] }.handleShellInteraction

/-- The completion of `async_read_until` without an error
(`np_project3/cgiserver/cgi_application.cpp:39-63`). -/
def onRead (write : WriteSome) (a : Application) : Application :=
  let a := { a with reading := false, shown := a.shown ++ [a.shellOutput] }
  if includes prompt a.shellOutput = false then a.handleShellInteraction
  else
    match getline a.cgiInput with
    | none => { a with userCommand := [], shutdown := true }
    | some (line, rest) =>
      let command := line ++ ['\n']
      onWrite (write a.sent.length command.length)
        { a with cgiInput := rest, userCommand := command, typed := a.typed ++ [command] }

/-- A chunk arrives.  Without an outstanding read nobody takes it. -/
def receive (write : WriteSome) (a : Application) (chunk : Text) : Application :=
  if a.reading then
    let a := { a with shellOutput := a.shellOutput ++ chunk }
    if delim a.shellOutput then a.onRead write else a
  else a

/-- The connection is made and the chunks arrive
(`np_project3/cgiserver/cgi_application.cpp:29-37`). -/
def session (write : WriteSome) (input : Text) (chunks : List Text) : Application :=
  chunks.foldl (receive write) (handleShellInteraction { cgiInput := input })

/-- The end of the stream: the read completes with an error, and the callback does nothing. -/
def close (a : Application) : Application := { a with reading := false }

theorem delim_iff {s : Text} : delim s = true ↔ '\n' ∈ s ∨ includes prompt s = true := by
  simp [delim]

/-- What a chunk does that brings no prompt. -/
theorem receive_plain (write : WriteSome) {a : Application} (reading : a.reading = true)
    {chunk : Text} (plain : includes prompt (a.shellOutput ++ chunk) = false) :
    a.receive write chunk =
      if '\n' ∈ a.shellOutput ++ chunk then
        { a with shellOutput := [], shown := a.shown ++ [a.shellOutput ++ chunk] }
      else { a with shellOutput := a.shellOutput ++ chunk } := by
  rw [receive, if_pos reading]
  by_cases newline : '\n' ∈ a.shellOutput ++ chunk
  · rw [if_pos newline]
    simp only [if_pos (delim_iff.mpr (Or.inl newline)), onRead, if_pos plain,
      handleShellInteraction, reading]
  · have none : ¬ delim (a.shellOutput ++ chunk) = true := by
      rw [delim_iff, plain]
      simpa using newline
    simp only [if_neg newline, if_neg none]

/-- What a chunk does that completes a prompt when no command is left. -/
theorem receive_last (write : WriteSome) {a : Application} (reading : a.reading = true)
    {chunk : Text} (prompted : includes prompt (a.shellOutput ++ chunk) = true)
    (last : getline a.cgiInput = none) :
    a.receive write chunk =
      { a with
        shellOutput := a.shellOutput ++ chunk, reading := false
        shown := a.shown ++ [a.shellOutput ++ chunk], userCommand := [], shutdown := true } := by
  rw [receive, if_pos reading]
  simp only [if_pos (delim_iff.mpr (Or.inr prompted)), onRead, prompted, last, reduceCtorEq,
    if_false]

/-- What a chunk does that completes a prompt when there is a command. -/
theorem receive_command (write : WriteSome) {a : Application} (reading : a.reading = true)
    {chunk line rest : Text} (prompted : includes prompt (a.shellOutput ++ chunk) = true)
    (command : getline a.cgiInput = some (line, rest)) :
    a.receive write chunk =
      onWrite (write a.sent.length (line ++ ['\n']).length)
        { a with
          shellOutput := a.shellOutput ++ chunk, reading := false
          shown := a.shown ++ [a.shellOutput ++ chunk], cgiInput := rest
          userCommand := line ++ ['\n'], typed := a.typed ++ [line ++ ['\n']] } := by
  rw [receive, if_pos reading]
  simp only [if_pos (delim_iff.mpr (Or.inr prompted)), onRead, prompted, command, reduceCtorEq,
    if_false]

theorem receive_idle (write : WriteSome) {a : Application} (idle : a.reading = false)
    (chunk : Text) : a.receive write chunk = a := by
  rw [receive, if_neg (by simp [idle])]

/-- Nobody takes what arrives without an outstanding read. -/
theorem foldl_idle (write : WriteSome) {a : Application} (idle : a.reading = false)
    (chunks : List Text) : chunks.foldl (receive write) a = a := by
  induction chunks with
  | nil => rfl
  | cons chunk chunks ih => rw [List.foldl_cons, receive_idle write idle, ih]

end Application

end CGI

end NetProg
