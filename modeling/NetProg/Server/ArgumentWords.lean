import NetProg.Server.ParsedLines
import NetProg.Shell.Segments

/-!
# Built-in words among the arguments

The parser compares every word of a line with the names of the seven built-in commands and performs
them at once.  `placed` says which words of a line name a command and which are its arguments, and
`commandsOf` which commands the line then consists of, for words that are taken as they stand.
-/

namespace NetProg

/-- `exit` and the other words that the parser performs. -/
def builtinWords : List Text :=
  ["exit".toList, "printenv".toList, "setenv".toList, "who".toList, "tell".toList, "yell".toList,
    "name".toList]

/-- What a word does to the commands of a line. -/
inductive WordKind where
  | separator
  | input
  | plain
  deriving DecidableEq, Repr

/-- `|`, `|n`, `!n`, `>` and `>n` end a command, `<n` only names its input. -/
def wordKind : Text → WordKind
  | '|' :: _ => .separator
  | '!' :: _ => .separator
  | '>' :: _ => .separator
  | '<' :: _ => .input
  | _ => .plain

/-- Where a word stands. -/
inductive Place where
  | command
  | argument
  | fileName
  deriving DecidableEq, Repr

/-- The place behind a separator. -/
def behindSeparator (word : Text) : Place := if word = ">".toList then .fileName else .command

/-- The names and arguments of the commands of a line, with their places. -/
def placed : Place → List Text → List (Place × Text)
  | _, [] => []
  | .fileName, _ :: words => placed .command words
  | place, word :: words =>
      match wordKind word with
      | .separator => placed (behindSeparator word) words
      | .input => placed place words
      | .plain => (place, word) :: placed .argument words

/-- The commands of a line, from the words of the first one on. -/
def commandsOf : Place → List Text → List Text → List (List Text)
  | _, argv, [] => if argv = [] then [] else [argv]
  | .fileName, argv, _ :: words => commandsOf .command argv words
  | place, argv, word :: words =>
      match wordKind word with
      | .separator => argv :: commandsOf (behindSeparator word) [] words
      | .input => commandsOf place argv words
      | .plain => commandsOf .argument (argv ++ [word]) words

/-- The commands that the parser makes of its tokens. -/
def tokenCommands : List Text → List Token → List (List Text)
  | argv, [] => if argv = [] then [] else [argv]
  | argv, .builtin _ :: items => tokenCommands argv items
  | argv, .readFrom _ :: items => tokenCommands argv items
  | argv, .argument word :: items => tokenCommands (argv ++ [word]) items
  | argv, _ :: items => argv :: tokenCommands [] items

theorem exeCommands_append (first later : List ICommand) :
    exeCommands (first ++ later) = exeCommands first ++ exeCommands later := by
  induction first with
  | nil => rfl
  | cons c first ih => cases c <;> simp [exeCommands, ih]

namespace Parser

/-- The commands that are complete. -/
def commands (p : Parser) : List (List Text) :=
  p.ret.flatMap (fun cl => exeCommands cl.npCommands) ++ exeCommands p.npCommandLine.npCommands

theorem commands_foldl (p : Parser) (items : List Token) :
    (p.queue items).flatMap (fun cl => exeCommands cl.npCommands) =
      p.commands ++ tokenCommands p.argv items := by
  induction items generalizing p with
  | nil =>
      obtain ⟨ret, ⟨commands, r, w⟩, argv, builtins⟩ := p
      cases argv with
      | nil =>
          cases commands with
          | nil => simp [queue, finish, Parser.commands, tokenCommands, exeCommands]
          | cons c commands => simp [queue, finish, emplace, Parser.commands, tokenCommands]
      | cons a argv =>
          simp [queue, finish, emplace, Parser.commands, tokenCommands, exeCommands_append,
            exeCommands]
  | cons token items ih =>
      rw [queue_cons, ih]
      cases token with
      | builtin builtin => rfl
      | argument word => rfl
      | readFrom uid => rfl
      | pipe =>
          simp [take, addCommands, Parser.commands, tokenCommands, exeCommands_append, exeCommands]
      | file filename =>
          simp [take, addCommands, Parser.commands, tokenCommands, exeCommands_append, exeCommands]
      | close number includeError =>
          simp [take, addCommands, emplace, Parser.commands, tokenCommands, exeCommands_append,
            exeCommands]
      | writeTo uid =>
          simp [take, addCommands, writeTo, Parser.commands, tokenCommands, exeCommands_append,
            exeCommands]

end Parser

/-- A word that is not performed, other than `>`, is read alone. -/
theorem reader_alone {word : Text} (other : word ∉ builtinWords) (file : word ≠ ">".toList) :
    ∃ token, Parser.reader word = .alone token ∧ (∀ builtin, token ≠ .builtin builtin) ∧
      (∀ argument, .argument argument = token → argument = word) ∧
      ∀ argv items, tokenCommands argv (token :: items) =
        match wordKind word with
        | .separator => argv :: tokenCommands [] items
        | .input => tokenCommands argv items
        | .plain => tokenCommands (argv ++ [word]) items := by
  simp only [builtinWords, List.mem_cons, List.not_mem_nil, or_false, not_or] at other
  obtain ⟨exit, printenv, setenv, who, tell, yell, name⟩ := other
  unfold Parser.reader
  rw [if_neg exit, if_neg printenv, if_neg setenv, if_neg who, if_neg tell, if_neg yell,
    if_neg name]
  by_cases pipe : word = "|".toList
  · subst pipe
    exact ⟨.pipe, rfl, fun _ => Token.noConfusion, fun _ => Token.noConfusion, fun _ _ => rfl⟩
  · rw [if_neg pipe, if_neg file]
    unfold Parser.readerRest
    split
    all_goals refine ⟨_, rfl, fun _ => Token.noConfusion, ?_, fun argv items => ?_⟩
    any_goals exact fun _ => Token.noConfusion
    any_goals exact fun _ => Token.argument.inj
    · rfl
    · rfl
    · rfl
    · rfl
    · rename_i bar bang more less
      have plain : wordKind word = .plain := by
        unfold wordKind
        split
        · exact (bar _ rfl).elim
        · exact (bang _ rfl).elim
        · exact (more _ rfl).elim
        · exact (less _ rfl).elim
        · rfl
      rw [plain]
      rfl

/-- A word that is not an argument is not performed. -/
theorem not_builtin_of_kind {word : Text} (kind : wordKind word ≠ .plain) : word ∉ builtinWords := by
  intro member
  have plain : ∀ word ∈ builtinWords, wordKind word = .plain := by decide
  exact kind (plain word member)

theorem placed_cons {place : Place} (notFile : place ≠ .fileName) (word : Text)
    (words : List Text) : placed place (word :: words) =
      match wordKind word with
      | .separator => placed (behindSeparator word) words
      | .input => placed place words
      | .plain => (place, word) :: placed .argument words := by
  cases place with
  | fileName => exact absurd rfl notFile
  | _ => rfl

theorem commandsOf_cons {place : Place} (notFile : place ≠ .fileName) (argv : List Text)
    (word : Text) (words : List Text) : commandsOf place argv (word :: words) =
      match wordKind word with
      | .separator => argv :: commandsOf (behindSeparator word) [] words
      | .input => commandsOf place argv words
      | .plain => commandsOf .argument (argv ++ [word]) words := by
  cases place with
  | fileName => exact absurd rfl notFile
  | _ => rfl

/-- The tokens of words that are not performed are the commands of these words. -/
structure Tokens (place : Place) (words : List Text) (s : Option Text) (items : List Token) :
    Prop where
  scans : Scans Parser.lex s items
  quiet : ∀ token ∈ items, ∀ builtin, token ≠ .builtin builtin
  commands : ∀ argv, tokenCommands argv items = commandsOf place argv words

/-- One word, with the rest of the line behind it. -/
theorem Tokens.word {place : Place} (notFile : place ≠ .fileName) {word s rest : Text}
    {words : List Text} {items : List Token} (read : Text.readWord s = some (word, rest))
    (other : word ∉ builtinWords) (file : word ≠ ">".toList)
    (later : Tokens (match wordKind word with
      | .separator => .command
      | .input => place
      | .plain => .argument) words (some rest) items) :
    ∃ items, Tokens place (word :: words) (some s) items := by
  obtain ⟨token, alone, quiet, -, commands⟩ := reader_alone other file
  have lexed : Parser.lex word rest = (token, some rest) := by
    rw [Parser.lex, alone]
    rfl
  refine ⟨token :: items, ?_, List.forall_mem_cons.mpr ⟨quiet, later.quiet⟩, fun argv => ?_⟩
  · exact .cons read lexed later.scans
  · rw [commands, commandsOf_cons notFile, behindSeparator, if_neg file]
    have following := later.commands
    cases kind : wordKind word with
    | separator =>
        rw [kind] at following
        simp only [following]
    | input =>
        rw [kind] at following
        simp only [following]
    | plain =>
        rw [kind] at following
        simp only [following]

/-- `>` takes the next word, if there is one. -/
theorem Tokens.file {place : Place} (notFile : place ≠ .fileName) {s rest : Text}
    {words : List Text} (read : Text.readWord s = some (">".toList, rest))
    (same : Text.words rest = words)
    (later : ∀ next rest', words = next :: Text.words rest' →
      ∃ items, Tokens .command (Text.words rest') (some rest') items) :
    ∃ items, Tokens place (">".toList :: words) (some s) items := by
  have reader : Parser.reader ">".toList = .word .file := rfl
  have lexed : Parser.lex ">".toList rest =
      (.file (Parser.nextWord (some rest)).1, (Parser.nextWord (some rest)).2) := by
    rw [Parser.lex, reader]
    rfl
  have begins : ∀ argv, commandsOf place argv (">".toList :: words) =
      argv :: commandsOf .fileName [] words := fun argv => commandsOf_cons notFile argv _ words
  cases words with
  | nil =>
      have none : Parser.nextWord (some rest) = ([], none) := by
        rw [Parser.nextWord, Text.readWord_of_words_nil same]
        rfl
      rw [none] at lexed
      refine ⟨[.file []], .cons read lexed .failed, by simp, fun argv => ?_⟩
      rw [begins]
      rfl
  | cons next words =>
      obtain ⟨rest', read', same'⟩ := Text.readWord_of_words_cons same
      have following : Parser.nextWord (some rest) = (next, some rest') := by
        rw [Parser.nextWord, read']
        rfl
      rw [following] at lexed
      subst same'
      obtain ⟨items, tokens⟩ := later next rest' rfl
      refine ⟨.file next :: items, .cons read lexed tokens.scans,
        List.forall_mem_cons.mpr ⟨fun _ => Token.noConfusion, tokens.quiet⟩, fun argv => ?_⟩
      have first : tokenCommands argv (.file next :: items) = argv :: tokenCommands [] items := rfl
      rw [begins, first, tokens.commands]
      rfl

/-- Without built-in words the tokens give the commands of the line. -/
theorem exists_tokens {words : List Text} {s : Text} {place : Place} (same : Text.words s = words)
    (notFile : place ≠ .fileName) (other : ∀ e ∈ placed place words, e.2 ∉ builtinWords) :
    ∃ items, Tokens place words (some s) items := by
  obtain ⟨n, bound⟩ : ∃ n, words.length ≤ n := ⟨_, Nat.le_refl _⟩
  induction n generalizing words s place with
  | zero =>
      obtain rfl := List.length_eq_zero_iff.mp (Nat.le_zero.mp bound)
      exact ⟨[], .ended (Text.readWord_of_words_nil same), by simp, fun argv => by cases place <;> rfl⟩
  | succ n ih =>
      cases words with
      | nil =>
          exact ⟨[], .ended (Text.readWord_of_words_nil same), by simp,
            fun argv => by cases place <;> rfl⟩
      | cons word words =>
          obtain ⟨rest, read, same'⟩ := Text.readWord_of_words_cons same
          rw [placed_cons notFile] at other
          have bound' : words.length ≤ n := Nat.le_of_succ_le_succ bound
          by_cases file : word = ">".toList
          · subst file
            refine Tokens.file notFile read same' fun next rest' whole => ?_
            subst whole
            exact ih rfl (by decide) other ((Nat.le_succ _).trans bound')
          · rw [behindSeparator, if_neg file] at other
            cases kind : wordKind word with
            | separator =>
                rw [kind] at other
                obtain ⟨items, later⟩ := ih same' (by decide) other bound'
                exact Tokens.word notFile read (not_builtin_of_kind (by simp [kind])) file
                  (by rw [kind]; exact later)
            | input =>
                rw [kind] at other
                obtain ⟨items, later⟩ := ih same' notFile other bound'
                exact Tokens.word notFile read (not_builtin_of_kind (by simp [kind])) file
                  (by rw [kind]; exact later)
            | plain =>
                rw [kind] at other
                obtain ⟨here, rest_other⟩ := List.forall_mem_cons.mp other
                obtain ⟨items, later⟩ := ih same' (by decide) rest_other bound'
                exact Tokens.word notFile read here file (by rw [kind]; exact later)

/-- A word that the parser has put into an argument list is none that it performs. -/
theorem argument_not_builtin {s : Option Text} {items : List Token} {word : Text}
    (scans : Scans Parser.lex s items) (member : .argument word ∈ items) : word ∉ builtinWords := by
  induction scans with
  | failed => cases member
  | ended _ => cases member
  | @word s word' rest items read later ih =>
      rcases List.mem_cons.mp member with here | there
      · by_cases other : word' ∈ builtinWords
        · have performed : ∀ word ∈ builtinWords, ∀ rest, ∃ builtin,
              (Parser.lex word rest).1 = .builtin builtin := by
            intro word member rest
            simp only [builtinWords, List.mem_cons, List.not_mem_nil, or_false] at member
            rcases member with rfl | rfl | rfl | rfl | rfl | rfl | rfl
            all_goals exact ⟨_, rfl⟩
          obtain ⟨builtin, token⟩ := performed word' other rest
          cases here.trans token
        · by_cases file : word' = ">".toList
          · subst file
            cases here
          · obtain ⟨token, alone, -, argument, -⟩ := reader_alone other file
            rw [Parser.lex, alone] at here
            exact argument word here ▸ other
      · exact ih there

/-- A word of an argument list stands among the arguments read. -/
theorem mem_tokenCommands {word : Text} {items : List Token} {argv argv' : List Text}
    (listed : argv' ∈ tokenCommands argv items) (member : word ∈ argv') :
    word ∈ argv ∨ .argument word ∈ items := by
  induction items generalizing argv with
  | nil =>
      rw [tokenCommands] at listed
      split at listed
      · cases listed
      · rw [List.mem_singleton.mp listed] at member
        exact Or.inl member
  | cons token items ih =>
      have later : word ∈ [] ∨ Token.argument word ∈ items → word ∈ argv ∨
          Token.argument word ∈ token :: items := by
        rintro (none | there)
        · cases none
        · exact Or.inr (List.mem_cons_of_mem _ there)
      have closed : argv' ∈ argv :: tokenCommands [] items → word ∈ argv ∨
          Token.argument word ∈ token :: items := by
        intro listed
        rcases List.mem_cons.mp listed with rfl | there
        · exact Or.inl member
        · exact later (ih there)
      cases token with
      | builtin builtin => exact (ih listed).imp_right (List.mem_cons_of_mem _)
      | readFrom uid => exact (ih listed).imp_right (List.mem_cons_of_mem _)
      | argument word' =>
          rcases ih listed with inside | there
          · rcases List.mem_append.mp inside with before | here
            · exact Or.inl before
            · exact Or.inr (List.mem_singleton.mp here ▸ List.mem_cons_self)
          · exact Or.inr (List.mem_cons_of_mem _ there)
      | pipe => exact closed listed
      | file filename => exact closed listed
      | close number includeError => exact closed listed
      | writeTo uid => exact closed listed

/-- What an argument list has got it keeps. -/
theorem commandsOf_keeps {word : Text} {argv : List Text} (member : word ∈ argv) (place : Place)
    (words : List Text) : ∃ argv' ∈ commandsOf place argv words, word ∈ argv' := by
  induction words generalizing place argv with
  | nil =>
      have some : argv ≠ [] := List.ne_nil_of_mem member
      refine ⟨argv, ?_, member⟩
      cases place <;> simp [commandsOf, some]
  | cons next words ih =>
      by_cases file : place = .fileName
      · subst file
        exact ih member .command
      · rw [commandsOf_cons file]
        cases wordKind next with
        | separator => exact ⟨argv, List.mem_cons_self, member⟩
        | input => exact ih member place
        | plain => exact ih (List.mem_append_left _ member) .argument

/-- Every name and every argument of the line is in an argument list. -/
theorem mem_commandsOf {e : Place × Text} {place : Place} {words : List Text}
    (member : e ∈ placed place words) (argv : List Text) :
    ∃ argv' ∈ commandsOf place argv words, e.2 ∈ argv' := by
  induction words generalizing place argv with
  | nil => cases place <;> cases member
  | cons next words ih =>
      by_cases file : place = .fileName
      · subst file
        exact ih member argv
      · rw [placed_cons file] at member
        rw [commandsOf_cons file]
        cases kind : wordKind next with
        | separator =>
            rw [kind] at member
            obtain ⟨argv', listed, inside⟩ := ih member []
            exact ⟨argv', List.mem_cons_of_mem _ listed, inside⟩
        | input =>
            rw [kind] at member
            exact ih member argv
        | plain =>
            rw [kind] at member
            rcases List.mem_cons.mp member with rfl | later
            · exact commandsOf_keeps (List.mem_append_right _ List.mem_cons_self) .argument words
            · exact ih later _

theorem placed_place {e : Place × Text} {place : Place} {words : List Text}
    (member : e ∈ placed place words) : e.1 = .command ∨ e.1 = .argument := by
  induction words generalizing place with
  | nil => cases place <;> cases member
  | cons next words ih =>
      by_cases file : place = .fileName
      · subst file
        exact ih member
      · rw [placed_cons file] at member
        cases kind : wordKind next with
        | separator =>
            rw [kind] at member
            exact ih member
        | input =>
            rw [kind] at member
            exact ih member
        | plain =>
            rw [kind] at member
            rcases List.mem_cons.mp member with rfl | later
            · cases place with
              | command => exact Or.inl rfl
              | argument => exact Or.inr rfl
              | fileName => exact absurd rfl file
            · exact ih later

/-- For a line whose commands are no built-in words: the parser leaves everything as it is and gives
every command its arguments just when no argument is a built-in word either. -/
theorem builtin_words_iff (line : Text) (id : Int) (s : ShellState ChatServer)
    (commands : ∀ e ∈ placed .command (Text.words line), e.1 = .command → e.2 ∉ builtinWords) :
    (ChatServer.performAll id (parseCommand line).1 s = .ok s ∧
      (parseCommand line).2.flatMap (fun cl => exeCommands cl.npCommands) =
        commandsOf .command [] (Text.words line)) ↔
      ∀ e ∈ placed .command (Text.words line), e.1 = .argument → e.2 ∉ builtinWords := by
  constructor
  · rintro ⟨-, same⟩ e member -
    obtain ⟨argv, listed, inside⟩ := mem_commandsOf member []
    rw [← same, parseCommand_queue (scans_tokens line), Parser.commands_foldl] at listed
    rcases mem_tokenCommands listed inside with none | argument
    · cases none
    · exact argument_not_builtin (scans_tokens line) argument
  · intro arguments
    have other : ∀ e ∈ placed .command (Text.words line), e.2 ∉ builtinWords := by
      intro e member
      rcases placed_place member with command | argument
      · exact commands e member command
      · exact arguments e member argument
    obtain ⟨items, tokens⟩ := exists_tokens rfl (by decide) other
    constructor
    · have none : (parseCommand line).1 = [] := by
        rw [parseCommand_eq tokens.scans]
        exact (Parser.builtins_finish _).trans (Parser.builtins_foldl _ _ tokens.quiet)
      rw [none]
      rfl
    · rw [parseCommand_queue tokens.scans, Parser.commands_foldl]
      exact tokens.commands []

/-- The shell of user 1, alone on the server. -/
def soleShell : ShellState ChatServer := ⟨.start 64 (fun _ => true) [], .init, .init none none none⟩

/-- `echo exit` -/
def echoExit : Text := "echo exit".toList

theorem builtin_words_iff_ls :
    (ChatServer.performAll 1 (parseCommand "ls -a".toList).1 soleShell = .ok soleShell ∧
      (parseCommand "ls -a".toList).2.flatMap (fun cl => exeCommands cl.npCommands) =
        commandsOf .command [] (Text.words "ls -a".toList)) ↔
      ∀ e ∈ placed .command (Text.words "ls -a".toList), e.1 = .argument → e.2 ∉ builtinWords :=
  builtin_words_iff "ls -a".toList 1 soleShell (by
    have words : Text.words "ls -a".toList = ["ls".toList, "-a".toList] :=
      Text.Spaced.words_eq (.word "ls".toList (Or.inr ⟨' ', _, rfl, rfl⟩)
        (.space rfl (.word "-a".toList (Or.inl rfl) .nil))) (Text.solid_of_all rfl)
    rw [words]
    decide)

/-- `echo exit` ends the shell and prints an empty line. -/
theorem echo_exit_leaves :
    (∀ e ∈ placed .command (Text.words echoExit), e.1 = .command → e.2 ∉ builtinWords) ∧
      ¬ (ChatServer.performAll 1 (parseCommand echoExit).1 soleShell = .ok soleShell ∧
        (parseCommand echoExit).2.flatMap (fun cl => exeCommands cl.npCommands) =
          commandsOf .command [] (Text.words echoExit)) := by
  have words : Text.words echoExit = ["echo".toList, "exit".toList] :=
    Text.Spaced.words_eq (.word "echo".toList (Or.inr ⟨' ', _, rfl, rfl⟩)
      (.space rfl (.word "exit".toList (Or.inl rfl) .nil))) (Text.solid_of_all rfl)
  rw [words]
  refine ⟨by decide, ?_⟩
  rintro ⟨-, same⟩
  have lost : (parseCommand echoExit).2.flatMap (fun cl => exeCommands cl.npCommands) =
      [["echo".toList]] := by decide +kernel
  rw [lost] at same
  exact absurd same (by decide)

end NetProg
