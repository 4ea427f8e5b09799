import NetProg.Shell.Process

/-!
# Commands and command lines

`shell/cmdType.hpp`: the commands a line consists of and the separators between them.  Every
class derived from `PipeCommand` is a separator; `Shape` is the alternation of commands and
separators that `runShell` relies on when it casts the element after a command.
-/

namespace NetProg

/-- `cmdType` (`np_project2/shell/cmdType.hpp:11-17`). -/
inductive CmdType where
  | exe
  | pipe
  | fileCmd
  | numberedPipe
  | userPipe
  deriving DecidableEq, Repr

/-- `ICommand` (`np_project2/shell/cmdType.hpp:20-95`) and the classes derived from it. -/
inductive ICommand where
  | exe (argv : List Text)
  | pipe
  | file (filename : Text)
  | numbered (number : Int) (includeError : Bool)
  | userPipe
  deriving DecidableEq, Repr

namespace ICommand

/-- `getType` (`np_project2/shell/cmdType.hpp:30-90`). -/
def getType : ICommand → CmdType
  | exe _ => .exe
  | pipe => .pipe
  | file _ => .fileCmd
  | numbered _ _ => .numberedPipe
  | userPipe => .userPipe

/-- `pipeError` (`np_project2/shell/cmdType.hpp:48-79`). -/
def pipeError : ICommand → Bool
  | numbered _ includeError => includeError
  | _ => false

/-- The number after `|` or `!` of a numbered pipe. -/
def target : ICommand → Option Int
  | numbered number _ => some number
  | _ => none

/-- The class is derived from `PipeCommand`. -/
def IsSeparator (c : ICommand) : Prop := c.getType ≠ .exe

instance (c : ICommand) : Decidable c.IsSeparator := by
  unfold IsSeparator
  infer_instance

end ICommand

/-- `NpCommandLine` (`np_project2/shell/cmdType.hpp:97-124`): the commands of one line with the user
ids of `<i` and `>j`. -/
structure NpCommandLine where
  npCommands : List ICommand
  readUid : Int
  writeUid : Int
  deriving DecidableEq, Repr

/-- Commands and separators alternate, a command comes first, and a numbered pipe comes last. -/
inductive Shape : List ICommand → Prop
  | bare (argv : List Text) : Shape [.exe argv]
  | closed (argv : List Text) (sep : ICommand) (isSep : sep.IsSeparator) : Shape [.exe argv, sep]
  | more (argv : List Text) (sep : ICommand) (rest : List ICommand) (isSep : sep.IsSeparator)
      (inner : sep.target = none) (tail : Shape rest) : Shape (.exe argv :: sep :: rest)

/-- The separator that ends the list, if one does. -/
def closing : List ICommand → Option ICommand
  | [] => none
  | [.exe _] => none
  | [sep] => some sep
  | _ :: next :: rest => closing (next :: rest)

@[simp] theorem closing_bare (argv : List Text) : closing [.exe argv] = none := rfl

theorem closing_closed (argv : List Text) {sep : ICommand} (isSep : sep.IsSeparator) :
    closing [.exe argv, sep] = some sep := by
  cases sep with
  | exe argv' => exact absurd rfl isSep
  | _ => rfl

theorem Shape.ne_nil {commands : List ICommand} (h : Shape commands) : commands ≠ [] := by
  cases h <;> simp

theorem closing_more (argv : List Text) (sep : ICommand) {rest : List ICommand}
    (h : Shape rest) : closing (.exe argv :: sep :: rest) = closing rest := by
  cases h <;> cases sep <;> rfl

theorem closing_getLast {commands : List ICommand} (h : Shape commands) :
    ∃ last, commands.getLast? = some last ∧
      (last.getType = .numberedPipe ↔ ((closing commands).bind ICommand.target).isSome) := by
  induction h with
  | bare argv => exact ⟨_, rfl, by simp [ICommand.getType]⟩
  | closed argv sep isSep =>
      refine ⟨sep, rfl, ?_⟩
      rw [closing_closed argv isSep]
      cases sep <;> simp [ICommand.getType, ICommand.target]
  | more argv sep rest isSep inner tail ih =>
      obtain ⟨last, found, numbered⟩ := ih
      refine ⟨last, ?_, by rw [closing_more argv sep tail]; exact numbered⟩
      rw [List.getLast?_cons, List.getLast?_cons, found]
      rfl

/-- A separator `>n` without effect (`_writeUid` not positive) stands only at the end. -/
def NpCommandLine.NoSkippedUserPipe (cl : NpCommandLine) : Prop :=
  0 < cl.writeUid ∨ .userPipe ∉ cl.npCommands.dropLast

instance (cl : NpCommandLine) : Decidable cl.NoSkippedUserPipe := by
  unfold NpCommandLine.NoSkippedUserPipe
  infer_instance

/-- The number of lines ahead that the line's numbered pipe aims at, if it ends in one. -/
def NpCommandLine.target (cl : NpCommandLine) : Option Int :=
  (closing cl.npCommands).bind ICommand.target

end NetProg
