import NetProg.Server.ArgumentWords
import NetProg.Shell.NpParse

/-!
# Commands without a program

`parseCommand` makes an `ExeCommand` of `argv` at every separator, whether a word has been put into
`argv` or not; only at the end of the line it looks.  `ExeCommand::run` gives the first of the words
to `execvp` and prints it when that fails.
-/

namespace NetProg

namespace Token

/-- A token that makes an `ExeCommand` of the words in front of it. -/
def separates : Token → Bool
  | .pipe | .file _ | .close _ _ | .writeTo _ => true
  | _ => false

/-- Built-in commands and `<n` leave `argv` as it is. -/
def passes : Token → Bool
  | .builtin _ | .readFrom _ => true
  | _ => false

end Token

/-- The last token, apart from those that leave `argv` as it is, is a word of a command. -/
def behindWord (before : List Token) : Bool :=
  match (before.filter (!·.passes)).getLast? with
  | some (.argument _) => true
  | _ => false

/-- Every separator stands behind a word of its own. -/
def Supplied (items : List Token) : Prop :=
  ∀ before sep after, items = before ++ sep :: after → sep.separates = true → behindWord before = true

/-- The vector that `ExeCommand::run` gives to `execvp` (`np_project2/shell/cmdType.cpp:11-20`); the
last pointer is null. -/
def execArgv (mArgv : List Text) : List (Option Text) := mArgv.map some ++ [none]

/-- `run` can give `execvp` a program and can name it in its message. -/
structure Runnable (mArgv : List Text) : Prop where
  words : mArgv ≠ []
  program : ∃ name, (execArgv mArgv)[0]? = some (some name) ∧ mArgv[0]? = some name

/-- No command in the queue is without a program. -/
def AllRunnable (queue : List NpCommandLine) : Prop :=
  ∀ cl ∈ queue, ∀ argv, .exe argv ∈ cl.npCommands → Runnable argv

namespace Npshell

/-- The tokens of an input line. -/
def tokens (command : Text) : List Token := scan lex (command.length + 1) (some command)

theorem scans_tokens (command : Text) : Scans lex (some command) (tokens command) :=
  scans_whole command

end Npshell

theorem runnable_iff {mArgv : List Text} : Runnable mArgv ↔ mArgv ≠ [] := by
  constructor
  · exact Runnable.words
  · intro words
    cases mArgv with
    | nil => exact absurd rfl words
    | cons name argv => exact ⟨words, name, rfl, rfl⟩

theorem mem_exeCommands {argv : List Text} {commands : List ICommand} :
    argv ∈ exeCommands commands ↔ .exe argv ∈ commands := by
  induction commands with
  | nil => simp [exeCommands]
  | cons c commands ih => cases c <;> simp [exeCommands, ih]

theorem allRunnable_queue (items : List Token) :
    AllRunnable (Parser.queue .init items) ↔ ∀ argv ∈ tokenCommands [] items, argv ≠ [] := by
  have all := Parser.commands_foldl .init items
  have start : Parser.init.commands = [] := rfl
  rw [start, List.nil_append] at all
  have argv : Parser.init.argv = [] := rfl
  rw [← argv, ← all]
  simp only [AllRunnable, runnable_iff, List.mem_flatMap, mem_exeCommands]
  constructor
  · intro runnable argv member
    obtain ⟨cl, inside, exe⟩ := member
    exact runnable cl inside argv exe
  · intro words cl inside argv exe
    exact words argv ⟨cl, inside, exe⟩

section Supplied

variable {before items : List Token} {token : Token}

theorem behindWord_passes (passes : token.passes = true) :
    behindWord (before ++ [token]) = behindWord before := by
  simp [behindWord, passes]

theorem behindWord_counts (counts : token.passes = false) :
    behindWord (before ++ [token]) = true ↔ ∃ word, token = .argument word := by
  cases token <;> simp_all [behindWord, Token.passes]

/-- `Supplied`, with tokens in front. -/
def SuppliedFrom (front items : List Token) : Prop :=
  ∀ before sep after, items = before ++ sep :: after → sep.separates = true →
    behindWord (front ++ before) = true

theorem suppliedFrom_cons {front : List Token} : SuppliedFrom front (token :: items) ↔
    (token.separates = true → behindWord front = true) ∧ SuppliedFrom (front ++ [token]) items := by
  constructor
  · intro supplied
    constructor
    · intro separates
      simpa using supplied [] token items rfl separates
    · intro before sep after whole separates
      have more := supplied (token :: before) sep after (by rw [whole]; rfl) separates
      rwa [List.append_assoc, List.singleton_append]
  · intro both before sep after whole separates
    obtain ⟨here, later⟩ := both
    cases before with
    | nil =>
        obtain ⟨rfl, -⟩ := List.cons.inj whole
        rw [List.append_nil]
        exact here separates
    | cons first before =>
        obtain ⟨rfl, rest⟩ := List.cons.inj whole
        simpa using later before sep after rest separates

/-- The commands have words exactly if the separators stand behind words. -/
theorem tokenCommands_named {front : List Token} {argv : List Text}
    (words : behindWord front = true ↔ argv ≠ []) :
    (∀ argv' ∈ tokenCommands argv items, argv' ≠ []) ↔ SuppliedFrom front items := by
  induction items generalizing front argv with
  | nil =>
      refine iff_of_true ?_ ?_
      · intro argv' member
        rw [tokenCommands] at member
        split at member
        · cases member
        · rwa [List.mem_singleton.mp member]
      · intro before sep after whole
        exact absurd whole (by simp)
  | cons token items ih =>
      rw [suppliedFrom_cons]
      have separator (separates : token.separates = true) (counts : token.passes = false)
          (cut : tokenCommands argv (token :: items) = argv :: tokenCommands [] items)
          (other : ∀ word, token ≠ .argument word) :
          (∀ argv' ∈ tokenCommands argv (token :: items), argv' ≠ []) ↔
            (token.separates = true → behindWord front = true) ∧
              SuppliedFrom (front ++ [token]) items := by
        have fresh : behindWord (front ++ [token]) = true ↔ ([] : List Text) ≠ [] := by
          rw [behindWord_counts counts]
          refine iff_of_false ?_ fun same => same rfl
          intro word
          obtain ⟨word, same⟩ := word
          exact other word same
        rw [cut, List.forall_mem_cons, ih fresh, words, imp_iff_right separates]
      have passing (separates : token.separates = false) (passes : token.passes = true)
          (same : tokenCommands argv (token :: items) = tokenCommands argv items) :
          (∀ argv' ∈ tokenCommands argv (token :: items), argv' ≠ []) ↔
            (token.separates = true → behindWord front = true) ∧
              SuppliedFrom (front ++ [token]) items := by
        rw [same, separates, ← ih ((behindWord_passes passes).symm ▸ words)]
        simp
      cases token with
      | builtin builtin => exact passing rfl rfl rfl
      | readFrom uid => exact passing rfl rfl rfl
      | argument word =>
          have grown : behindWord (front ++ [.argument word]) = true ↔ argv ++ [word] ≠ [] := by
            rw [behindWord_counts rfl]
            simp
          rw [tokenCommands, ih grown]
          simp [Token.separates]
      | pipe => exact separator rfl rfl rfl fun _ => Token.noConfusion
      | file filename => exact separator rfl rfl rfl fun _ => Token.noConfusion
      | close number includeError => exact separator rfl rfl rfl fun _ => Token.noConfusion
      | writeTo uid => exact separator rfl rfl rfl fun _ => Token.noConfusion

theorem allRunnable_supplied (items : List Token) :
    AllRunnable (Parser.queue .init items) ↔ Supplied items := by
  have start : behindWord [] = true ↔ ([] : List Text) ≠ [] := by simp [behindWord]
  rw [allRunnable_queue, tokenCommands_named start]
  rfl

end Supplied

/-- In both shells a line gives commands with programs exactly if its separators stand behind
words. -/
theorem allRunnable_iff (command : Text) :
    (AllRunnable (Npshell.parseCommand command).2 ↔ Supplied (Npshell.tokens command)) ∧
      (AllRunnable (parseCommand command).2 ↔ Supplied (tokens command)) := by
  constructor
  · rw [Npshell.parseCommand_eq (Npshell.scans_tokens command)]
    exact allRunnable_supplied _
  · rw [parseCommand_eq (scans_tokens command)]
    exact allRunnable_supplied _

/-- A pipe at the beginning of a line has no program in front of it. -/
theorem bare_pipe : ¬ AllRunnable (Npshell.parseCommand "| ls".toList).2 ∧
    ¬ AllRunnable (parseCommand "| ls".toList).2 := by
  have first : Npshell.parseCommand "| ls".toList =
      ([], [⟨[.exe [], .pipe, .exe ["ls".toList]], 0, 0⟩]) := by decide +kernel
  have second : parseCommand "| ls".toList =
      ([], [⟨[.exe [], .pipe, .exe ["ls".toList]], 0, 0⟩]) := by decide +kernel
  rw [first, second, and_self]
  intro runnable
  exact (runnable _ (List.mem_singleton_self _) [] List.mem_cons_self).words rfl

end NetProg
