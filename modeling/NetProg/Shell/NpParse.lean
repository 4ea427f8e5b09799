import NetProg.Shell.NpShell
import NetProg.Shell.Tokens

/-!
# `parseCommand` of `npshell`

`shell/cmdHandler.cpp` of the first project.  The loop is the one the chat servers grew from: it knows
three built-in commands, and `>n` and `<n` are words like others.  Its command lines have no user
ids; here they are zero.
-/

namespace NetProg

namespace Npshell

/-- One turn of the loop: a word and the stream behind it. -/
def word (p : Parser) (singleCommand rest : Text) : Parser × Option Text :=
  if singleCommand = "exit".toList then (p.perform .exit, some rest)
  else if singleCommand = "printenv".toList then
    let (var, s) := Parser.nextWord (some rest)
    (p.perform (.printenv var), s)
  else if singleCommand = "setenv".toList then
    let (var, s) := Parser.nextWord (some rest)
    let (value, s) := Parser.nextWord s
    (p.perform (.setenv var value), s)
  else if singleCommand = "|".toList then (p.addCommands .pipe, some rest)
  else if singleCommand = ">".toList then
    let (fileName, s) := Parser.nextWord (some rest)
    (p.addCommands (.file fileName), s)
  else
    match singleCommand with
    | '|' :: digits => ((p.addCommands (.numbered (Text.atoi digits) false)).emplace, some rest)
    | '!' :: digits => ((p.addCommands (.numbered (Text.atoi digits) true)).emplace, some rest)
    | _ => ({ p with argv := p.argv ++ [singleCommand] }, some rest)

/-- `while (iss >> singleCommand)`; every turn consumes a character, which is the fuel. -/
def loop : Nat → Parser → Option Text → Parser
  | 0, p, _ => p
  | _, p, none => p
  | fuel + 1, p, some s =>
      match Text.readWord s with
      | none => p
      | some (singleCommand, rest) =>
          let (p, s) := word p singleCommand rest
          loop fuel p s

/-- `parseCommand` (`np_project1/shell/cmdHandler.cpp:93-158`): the built-in commands and the queue
of command lines. -/
def parseCommand (command : Text) : List Builtin × List NpCommandLine :=
  let p := (loop (command.length + 1) .init (some command)).finish
  (p.builtins, p.ret)

example : parseCommand "cat a.html | number |1 ls > b".toList =
    ([], [⟨[.exe ["cat".toList, "a.html".toList], .pipe, .exe ["number".toList], .numbered 1 false],
      0, 0⟩, ⟨[.exe ["ls".toList], .file "b".toList], 0, 0⟩]) := by
  decide +kernel

/-- How a word that is none of the fixed words is read. -/
def readerRest (singleCommand : Text) : Reader :=
  match singleCommand with
  | '|' :: digits => .alone (.close (Text.atoi digits) false)
  | '!' :: digits => .alone (.close (Text.atoi digits) true)
  | _ => .alone (.argument singleCommand)

/-- How a word is read. -/
def reader (singleCommand : Text) : Reader :=
  if singleCommand = "exit".toList then .alone (.builtin .exit)
  else if singleCommand = "printenv".toList then .word fun var => .builtin (.printenv var)
  else if singleCommand = "setenv".toList then .words fun var value => .builtin (.setenv var value)
  else if singleCommand = "|".toList then .alone .pipe
  else if singleCommand = ">".toList then .word .file
  else readerRest singleCommand

/-- The token of a word, and the stream behind it. -/
def lex (singleCommand rest : Text) : Token × Option Text := (reader singleCommand).lex rest

theorem word_eq (p : Parser) (singleCommand rest : Text) :
    word p singleCommand rest = (p.take (lex singleCommand rest).1, (lex singleCommand rest).2) := by
  have last : ∀ singleCommand : Text, (match singleCommand with
      | '|' :: digits => ((p.addCommands (.numbered (Text.atoi digits) false)).emplace, some rest)
      | '!' :: digits => ((p.addCommands (.numbered (Text.atoi digits) true)).emplace, some rest)
      | _ => ({ p with argv := p.argv ++ [singleCommand] }, some rest)) =
      (p.take ((readerRest singleCommand).lex rest).1, ((readerRest singleCommand).lex rest).2) := by
    intro singleCommand
    unfold readerRest
    split <;> rfl
  exact Parser.take_ite rfl (Parser.take_ite rfl (Parser.take_ite rfl (Parser.take_ite rfl
    (Parser.take_ite rfl (last singleCommand)))))

/-- The loop takes the tokens one by one. -/
theorem loop_eq (fuel : Nat) (p : Parser) (s : Option Text) :
    loop fuel p s = (scan lex fuel s).foldl Parser.take p := by
  induction fuel generalizing p s with
  | zero => rfl
  | succ fuel ih =>
      cases s with
      | none => rfl
      | some s =>
          rw [loop, scan]
          cases read : Text.readWord s with
          | none => rfl
          | some result =>
              obtain ⟨singleCommand, rest⟩ := result
              simp only [word_eq]
              exact ih _ _

theorem scans_whole (command : Text) :
    Scans lex (some command) (scan lex (command.length + 1) (some command)) :=
  scans_scan (fun _ _ _ next => (Reader.lex_suffix _ next).length_le) fun text same => by
    cases same
    exact Nat.lt_succ_self _

/-- The parser is a fold over the tokens. -/
theorem parseCommand_eq {command : Text} {items : List Token} (scans : Scans lex (some command) items) :
    parseCommand command = ((items.foldl Parser.take .init).finish.builtins,
      (items.foldl Parser.take .init).finish.ret) := by
  obtain rfl := scans.unique (scans_whole command)
  rw [parseCommand, loop_eq]

end Npshell

/-- A token keeps the pairs of commands and separators whole. -/
theorem Parser.Shaped.take {p : Parser} (h : p.Shaped) (token : Token) : (p.take token).Shaped := by
  cases token with
  | builtin builtin => exact h.perform builtin
  | argument word => exact ⟨h.paired, h.queued⟩
  | pipe => exact h.addCommands .pipe (by decide) rfl
  | file filename =>
      exact h.addCommands (.file filename) (by simp [ICommand.IsSeparator, ICommand.getType]) rfl
  | close number includeError => exact h.numbered number includeError
  | writeTo uid => exact (h.writeTo uid).addCommands .userPipe (by decide) rfl
  | readFrom uid => exact h.readFrom uid

theorem Parser.Shaped.foldl {p : Parser} (h : p.Shaped) (items : List Token) :
    (items.foldl Parser.take p).Shaped := by
  induction items generalizing p with
  | nil => exact h
  | cons token items ih => exact ih (h.take token)

namespace Npshell

/-- Every queued command line of `npshell` has a proper shape. -/
theorem parseCommand_shape {command : Text} {cl : NpCommandLine}
    (member : cl ∈ (parseCommand command).2) : Shape cl.npCommands := by
  rw [parseCommand, loop_eq] at member
  exact (Parser.Shaped.init.foldl _).finish cl member

/-- The words of `npshell` have no user ids. -/
def Plain (token : Token) : Prop := ∀ uid, token ≠ .writeTo uid ∧ token ≠ .readFrom uid

theorem plain_lex (singleCommand rest : Text) : Plain (lex singleCommand rest).1 := by
  intro uid
  unfold lex reader
  repeat' split
  all_goals first
    | exact ⟨Token.noConfusion, Token.noConfusion⟩
    | skip
  unfold readerRest
  split <;> exact ⟨Token.noConfusion, Token.noConfusion⟩

theorem plain_scan (fuel : Nat) (s : Option Text) : ∀ token ∈ scan lex fuel s, Plain token := by
  induction fuel generalizing s with
  | zero => simp [scan]
  | succ fuel ih =>
      cases s with
      | none => simp [scan]
      | some s =>
          rw [scan]
          split
          · simp
          · exact List.forall_mem_cons.mpr ⟨plain_lex _ _, ih _⟩

/-- The line at work and the queued lines have no user ids. -/
structure Flat (p : Parser) : Prop where
  current : p.npCommandLine.Plain
  queued : ∀ cl ∈ p.ret, cl.Plain

namespace Flat

variable {p : Parser}

theorem addCommands (h : Flat p) {sep : ICommand} (other : sep ≠ .userPipe) :
    Flat (p.addCommands sep) where
  current :=
    ⟨h.current.readUid, h.current.writeUid, by
      simp [Parser.addCommands, h.current.commands, other.symm]⟩
  queued := h.queued

theorem emplace (h : Flat p) : Flat p.emplace where
  current := ⟨h.current.readUid, h.current.writeUid, List.not_mem_nil⟩
  queued := by
    intro cl member
    rcases List.mem_append.mp member with member | member
    · exact h.queued cl member
    · rw [List.mem_singleton.mp member]
      exact h.current

theorem take (h : Flat p) {token : Token} (plain : Plain token) : Flat (p.take token) := by
  cases token with
  | builtin builtin => exact ⟨h.current, h.queued⟩
  | argument word => exact ⟨h.current, h.queued⟩
  | pipe => exact h.addCommands (by simp)
  | file filename => exact h.addCommands (by simp)
  | close number includeError => exact (h.addCommands (by simp)).emplace
  | writeTo uid => exact absurd rfl (plain uid).1
  | readFrom uid => exact absurd rfl (plain uid).2

theorem foldl (h : Flat p) {items : List Token} (plain : ∀ token ∈ items, Plain token) :
    Flat (items.foldl Parser.take p) := by
  induction items generalizing p with
  | nil => exact h
  | cons token items ih =>
      obtain ⟨first, later⟩ := List.forall_mem_cons.mp plain
      exact ih (h.take first) later

theorem finish (h : Flat p) : Flat p.finish := by
  have last : Flat { p with
      npCommandLine :=
        { p.npCommandLine with npCommands := p.npCommandLine.npCommands ++ [.exe p.argv] }
      argv := [] } :=
    ⟨⟨h.current.readUid, h.current.writeUid, by simp [h.current.commands]⟩, h.queued⟩
  unfold Parser.finish
  by_cases bare : p.argv.isEmpty = true
  · simp only [if_pos bare]
    split
    · exact h
    · exact h.emplace
  · simp only [if_neg bare]
    split
    · exact last
    · exact last.emplace

end Flat

/-- Every queued command line of `npshell` is a plain one. -/
theorem parseCommand_plain {command : Text} {cl : NpCommandLine}
    (member : cl ∈ (parseCommand command).2) : cl.Plain := by
  rw [parseCommand, loop_eq] at member
  have init : Flat .init := ⟨⟨rfl, rfl, List.not_mem_nil⟩, by simp [Parser.init]⟩
  exact (init.foldl (plain_scan _ _)).finish.queued cl member

end Npshell

end NetProg
