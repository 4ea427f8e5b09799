import NetProg.Shell.Command

/-!
# `CmdHandler::parseCommand`

`shell/cmdHandler.cpp` of the chat servers.  The loop reads the words of one input line, queues
command lines and performs the built-in commands as it meets them.  The queue is only executed
afterwards, so the parser here is a pure function: it returns the built-in commands in the order
of their execution together with the queue.
-/

namespace NetProg

/-- The built-in commands.  `tell` without a second word leaves its `int uid` as it was before,
that is, without a value. -/
inductive Builtin where
  | exit
  | printenv (env : Text)
  | setenv (env var : Text)
  | who
  | tell (uid : Option Int) (message : Text)
  | yell (message : Text)
  | name (name : Text)
  deriving DecidableEq, Repr

/-- The local variables of `parseCommand`, with the built-in commands met so far. -/
structure Parser where
  ret : List NpCommandLine
  npCommandLine : NpCommandLine
  argv : List Text
  builtins : List Builtin
  deriving DecidableEq, Repr

namespace Parser

/-- `std::vector<std::string> argv; NpCommandLine npCommandLine;` -/
def init : Parser := ⟨[], ⟨[], 0, 0⟩, [], []⟩

def perform (p : Parser) (builtin : Builtin) : Parser :=
  { p with builtins := p.builtins ++ [builtin] }

/-- `addCommand` of an `ExeCommand` that takes `argv` away, then of a separator. -/
def addCommands (p : Parser) (sep : ICommand) : Parser :=
  { p with
    npCommandLine :=
      { p.npCommandLine with npCommands := p.npCommandLine.npCommands ++ [.exe p.argv, sep] }
    argv := [] }

/-- `npCommandLine._readUid = uid;` -/
def readFrom (p : Parser) (uid : Int) : Parser :=
  { p with npCommandLine := { p.npCommandLine with readUid := uid } }

/-- `npCommandLine._writeUid = uid;` -/
def writeTo (p : Parser) (uid : Int) : Parser :=
  { p with npCommandLine := { p.npCommandLine with writeUid := uid } }

/-- `ret.emplace(std::move(npCommandLine))`: the commands move, the user ids stay. -/
def emplace (p : Parser) : Parser :=
  { p with
    ret := p.ret ++ [p.npCommandLine]
    npCommandLine := { p.npCommandLine with npCommands := [] } }

/-- `iss >> word`: a failed extraction leaves the empty string. -/
def nextWord : Option Text → Text × Option Text
  | none => ([], none)
  | some s => (Text.readWord s).elim ([], none) (fun r => (r.1, some r.2))

/-- `iss >> uid; std::getline(iss >> std::ws, message);` -/
def tellArguments (s : Text) : Option Int × Text × Option Text :=
  match Text.readInt s with
  | none => (none, [], none)
  | some (uid, none) => (some uid, [], none)
  | some (uid, some s) => (some uid, Text.readLine s)

/-- One turn of the loop: a word and the stream behind it
(`np_project2/shell/cmdHandler.cpp:128-204`). -/
def word (p : Parser) (singleCommand rest : Text) : Parser × Option Text :=
  if singleCommand = "exit".toList then (p.perform .exit, some rest)
  else if singleCommand = "printenv".toList then
    let (env, s) := nextWord (some rest)
    (p.perform (.printenv env), s)
  else if singleCommand = "setenv".toList then
    let (env, s) := nextWord (some rest)
    let (var, s) := nextWord s
    (p.perform (.setenv env var), s)
  else if singleCommand = "who".toList then (p.perform .who, some rest)
  else if singleCommand = "tell".toList then
    let (uid, message, s) := tellArguments rest
    (p.perform (.tell uid message), s)
  else if singleCommand = "yell".toList then
    let (message, s) := Text.readLine rest
    (p.perform (.yell message), s)
  else if singleCommand = "name".toList then
    let (name, s) := Text.readLine rest
    (p.perform (.name name), s)
  else if singleCommand = "|".toList then (p.addCommands .pipe, some rest)
  else if singleCommand = ">".toList then
    let (fileName, s) := nextWord (some rest)
    (p.addCommands (.file fileName), s)
  else
    match singleCommand with
    | '|' :: digits => ((p.addCommands (.numbered (Text.atoi digits) false)).emplace, some rest)
    | '!' :: digits => ((p.addCommands (.numbered (Text.atoi digits) true)).emplace, some rest)
    | '>' :: digits => ((p.writeTo (Text.atoi digits)).addCommands .userPipe, some rest)
    | '<' :: digits => (p.readFrom (Text.atoi digits), some rest)
    | _ => ({ p with argv := p.argv ++ [singleCommand] }, some rest)

/-- After the loop: the last command, and the last command line. -/
def finish (p : Parser) : Parser :=
  let p :=
    if p.argv.isEmpty then p
    else
      { p with
        npCommandLine :=
          { p.npCommandLine with npCommands := p.npCommandLine.npCommands ++ [.exe p.argv] }
        argv := [] }
  if p.npCommandLine.npCommands.isEmpty then p else p.emplace

/-- `while (iss >> singleCommand)`; every turn consumes a character, which is the fuel. -/
def loop : Nat → Parser → Option Text → Parser
  | 0, p, _ => p
  | _, p, none => p
  | fuel + 1, p, some s =>
      match Text.readWord s with
      | none => p
      | some (singleCommand, rest) =>
          let (p, s) := p.word singleCommand rest
          loop fuel p s

end Parser

/-- `parseCommand` (`np_project2/shell/cmdHandler.cpp:117-214`): the built-in commands and the queue
of command lines. -/
def parseCommand (command : Text) : List Builtin × List NpCommandLine :=
  let p := (Parser.loop (command.length + 1) .init (some command)).finish
  (p.builtins, p.ret)

example : parseCommand "removetag <2 a.html | number |1 ls >3".toList =
    ([], [⟨[.exe ["removetag".toList, "a.html".toList], .pipe, .exe ["number".toList],
        .numbered 1 false], 2, 0⟩, ⟨[.exe ["ls".toList], .userPipe], 2, 3⟩]) := by
  decide +kernel

/-- Whole pairs of a command and a separator that is not a numbered pipe. -/
inductive Paired : List ICommand → Prop
  | nil : Paired []
  | cons (argv : List Text) (sep : ICommand) (rest : List ICommand) (isSep : sep.IsSeparator)
      (inner : sep.target = none) (tail : Paired rest) : Paired (.exe argv :: sep :: rest)

namespace Paired

theorem snoc {commands : List ICommand} (h : Paired commands) (argv : List Text)
    {sep : ICommand} (isSep : sep.IsSeparator) (inner : sep.target = none) :
    Paired (commands ++ [.exe argv, sep]) := by
  induction h with
  | nil => exact .cons argv sep [] isSep inner .nil
  | cons argv' sep' rest isSep' inner' tail ih => exact .cons argv' sep' _ isSep' inner' ih

theorem shape_exe {commands : List ICommand} (h : Paired commands) (argv : List Text) :
    Shape (commands ++ [.exe argv]) := by
  induction h with
  | nil => exact .bare argv
  | cons argv' sep' rest isSep' inner' tail ih => exact .more argv' sep' _ isSep' inner' ih

theorem shape_sep {commands : List ICommand} (h : Paired commands) (argv : List Text)
    {sep : ICommand} (isSep : sep.IsSeparator) : Shape (commands ++ [.exe argv, sep]) := by
  induction h with
  | nil => exact .closed argv sep isSep
  | cons argv' sep' rest isSep' inner' tail ih => exact .more argv' sep' _ isSep' inner' ih

theorem shape {commands : List ICommand} (h : Paired commands) (some : commands ≠ []) :
    Shape commands := by
  induction h with
  | nil => exact absurd rfl some
  | cons argv sep rest isSep inner tail ih =>
      cases rest with
      | nil => exact .closed argv sep isSep
      | cons first others => exact .more argv sep _ isSep inner (ih (by simp))

end Paired

/-- The parser holds whole pairs, and every command line of its queue has a proper shape. -/
structure Parser.Shaped (p : Parser) : Prop where
  paired : Paired p.npCommandLine.npCommands
  queued : ∀ cl ∈ p.ret, Shape cl.npCommands

namespace Parser.Shaped

variable {p : Parser}

theorem init : Parser.init.Shaped := ⟨.nil, by simp [Parser.init]⟩

theorem perform (h : p.Shaped) (builtin : Builtin) : (p.perform builtin).Shaped :=
  ⟨h.paired, h.queued⟩

theorem readFrom (h : p.Shaped) (uid : Int) : (p.readFrom uid).Shaped := ⟨h.paired, h.queued⟩

theorem writeTo (h : p.Shaped) (uid : Int) : (p.writeTo uid).Shaped := ⟨h.paired, h.queued⟩

theorem addCommands (h : p.Shaped) (sep : ICommand) (isSep : sep.IsSeparator)
    (inner : sep.target = none) : (p.addCommands sep).Shaped :=
  ⟨h.paired.snoc p.argv isSep inner, h.queued⟩

theorem emplace (queued : ∀ cl ∈ p.ret, Shape cl.npCommands)
    (shape : Shape p.npCommandLine.npCommands) : p.emplace.Shaped := by
  refine ⟨.nil, ?_⟩
  intro cl member
  rcases List.mem_append.mp member with member | member
  · exact queued cl member
  · rw [List.mem_singleton.mp member]
    exact shape

theorem numbered (h : p.Shaped) (number : Int) (err : Bool) :
    (p.addCommands (.numbered number err)).emplace.Shaped :=
  emplace h.queued (h.paired.shape_sep p.argv (by simp [ICommand.IsSeparator, ICommand.getType]))

theorem word (h : p.Shaped) (singleCommand rest : Text) : (p.word singleCommand rest).1.Shaped := by
  have last : ∀ singleCommand : Text, (match singleCommand with
      | '|' :: digits => ((p.addCommands (.numbered (Text.atoi digits) false)).emplace, some rest)
      | '!' :: digits => ((p.addCommands (.numbered (Text.atoi digits) true)).emplace, some rest)
      | '>' :: digits => ((p.writeTo (Text.atoi digits)).addCommands .userPipe, some rest)
      | '<' :: digits => (p.readFrom (Text.atoi digits), some rest)
      | _ => ({ p with argv := p.argv ++ [singleCommand] }, some rest)).1.Shaped := by
    intro singleCommand
    split
    · exact h.numbered _ _
    · exact h.numbered _ _
    · exact (h.writeTo _).addCommands .userPipe (by decide) rfl
    · exact h.readFrom _
    · exact ⟨h.paired, h.queued⟩
  have either : ∀ {c : Prop} [Decidable c] {yes no : Parser × Option Text}, yes.1.Shaped →
      no.1.Shaped → (if c then yes else no).1.Shaped := by
    intro c _ yes no left right
    split
    · exact left
    · exact right
  unfold Parser.word
  refine either (h.perform .exit) (either (h.perform _) (either (h.perform _) ?_))
  refine either (h.perform .who) (either (h.perform _) (either (h.perform _) (either (h.perform _) ?_)))
  refine either (h.addCommands .pipe (by decide) rfl) (either ?_ (last singleCommand))
  exact h.addCommands (.file _) (by simp [ICommand.IsSeparator, ICommand.getType]) rfl

theorem loop (h : p.Shaped) (fuel : Nat) (s : Option Text) : (Parser.loop fuel p s).Shaped := by
  induction fuel generalizing p s with
  | zero => exact h
  | succ fuel ih =>
      cases s with
      | none => exact h
      | some s =>
          simp only [Parser.loop]
          split
          · exact h
          · exact ih (h.word _ _) _

theorem finish (h : p.Shaped) : ∀ cl ∈ p.finish.ret, Shape cl.npCommands := by
  unfold Parser.finish
  by_cases bare : p.argv.isEmpty = true
  · simp only [if_pos bare]
    split
    · exact h.queued
    · rename_i some
      exact (emplace h.queued (h.paired.shape (by simpa using some))).queued
  · simp only [if_neg bare]
    split
    · exact h.queued
    · exact (emplace (p := { p with
          npCommandLine :=
            { p.npCommandLine with npCommands := p.npCommandLine.npCommands ++ [.exe p.argv] }
          argv := [] }) h.queued (h.paired.shape_exe p.argv)).queued

end Parser.Shaped

/-- Every queued command line has a proper shape. -/
theorem parseCommand_shape {command : Text} {cl : NpCommandLine}
    (member : cl ∈ (parseCommand command).2) : Shape cl.npCommands :=
  (Parser.Shaped.init.loop _ _).finish cl member

end NetProg
