import NetProg.Shell.NpParse
import NetProg.Shell.Segments

/-!
# Printed command lines

A line of `npshell` as one would write it down: segments that are closed by `|n` or `!n`, each of
them commands that are joined by `|`, and an end of line that may send the last command to a file.
`parseCommand` gives the segments back, however the words are spaced.
-/

namespace NetProg

namespace Npshell

/-- A word that is a name or an argument of a command. -/
structure PlainWord extends Word where
  command : text ≠ "exit".toList ∧ text ≠ "printenv".toList ∧ text ≠ "setenv".toList
  mark : text.head? ≠ .some '|' ∧ text.head? ≠ .some '!'
  file : text ≠ ">".toList

/-- A command: its name and its arguments. -/
structure Command where
  name : PlainWord
  arguments : List PlainWord

/-- Commands that are joined by `|`. -/
structure Segment where
  first : Command
  rest : List Command

/-- `|n` or `!n`. -/
structure Numbered where
  digits : Text
  some : digits ≠ []
  decimal : ∀ c ∈ digits, c.isDigit
  small : Text.digitsValue digits < 2 ^ 31
  includeError : Bool

/-- What stands behind the last segment. -/
inductive Ending where
  | nothing
  | numbered (numbered : Numbered)
  | file (name : Word)

/-- A segment and the numbered pipe that closes it. -/
structure ClosedSegment where
  segment : Segment
  numbered : Numbered

/-- An input line. -/
structure InputLine where
  closed : List ClosedSegment
  last : Segment
  ending : Ending

namespace Command

/-- The words of a command. -/
def words (c : Command) : List Text := (c.name :: c.arguments).map fun word => word.text

def tokens (c : Command) : List Token := c.words.map .argument

end Command

namespace Segment

def words (s : Segment) : List Text :=
  s.first.words ++ s.rest.flatMap fun c => "|".toList :: c.words

def tokens (s : Segment) : List Token := s.first.tokens ++ s.rest.flatMap fun c => .pipe :: c.tokens

/-- The commands of a segment and the pipes between them. -/
def elements (s : Segment) : List ICommand :=
  .exe s.first.words :: s.rest.flatMap fun c => [.pipe, .exe c.words]

end Segment

namespace Numbered

def word (n : Numbered) : Text := (if n.includeError then '!' else '|') :: n.digits

def token (n : Numbered) : Token := .close (Text.digitsValue n.digits) n.includeError

def element (n : Numbered) : ICommand := .numbered (Text.digitsValue n.digits) n.includeError

end Numbered

namespace Ending

def words : Ending → List Text
  | nothing => []
  | numbered n => [n.word]
  | file name => [">".toList, name.text]

def tokens : Ending → List Token
  | nothing => []
  | numbered n => [n.token]
  | file name => [.file name.text]

def elements : Ending → List ICommand
  | nothing => []
  | numbered n => [n.element]
  | file name => [.file name.text]

end Ending

namespace ClosedSegment

def words (s : ClosedSegment) : List Text := s.segment.words ++ [s.numbered.word]

def tokens (s : ClosedSegment) : List Token := s.segment.tokens ++ [s.numbered.token]

/-- The command line of a closed segment. -/
def commandLine (s : ClosedSegment) : NpCommandLine :=
  ⟨s.segment.elements ++ [s.numbered.element], 0, 0⟩

end ClosedSegment

namespace InputLine

/-- The words of the line in their order. -/
def words (l : InputLine) : List Text :=
  l.closed.flatMap ClosedSegment.words ++ (l.last.words ++ l.ending.words)

def tokens (l : InputLine) : List Token :=
  l.closed.flatMap ClosedSegment.tokens ++ (l.last.tokens ++ l.ending.tokens)

/-- One command line for each segment. -/
def queue (l : InputLine) : List NpCommandLine :=
  l.closed.map ClosedSegment.commandLine ++ [⟨l.last.elements ++ l.ending.elements, 0, 0⟩]

end InputLine

/-- These words are read as these tokens. -/
inductive Prints : List Token → List Text → Prop
  | nil : Prints [] []
  | argument {items : List Token} {words : List Text} (word : PlainWord)
      (rest : Prints items words) : Prints (.argument word.text :: items) (word.text :: words)
  | pipe {items : List Token} {words : List Text} (rest : Prints items words) :
      Prints (.pipe :: items) ("|".toList :: words)
  | close {items : List Token} {words : List Text} (n : Numbered) (rest : Prints items words) :
      Prints (n.token :: items) (n.word :: words)
  | file {items : List Token} {words : List Text} (name : Word) (rest : Prints items words) :
      Prints (.file name.text :: items) (">".toList :: name.text :: words)

namespace Prints

variable {items items' : List Token} {words words' : List Text}

theorem append (first : Prints items words) (later : Prints items' words') :
    Prints (items ++ items') (words ++ words') := by
  induction first with
  | nil => exact later
  | argument word rest ih => exact .argument word ih
  | pipe rest ih => exact .pipe ih
  | close n rest ih => exact .close n ih
  | file name rest ih => exact .file name ih

theorem flatMap {α : Type} {tokens : α → List Token} {print : α → List Text}
    (each : ∀ a, Prints (tokens a) (print a)) (l : List α) :
    Prints (l.flatMap tokens) (l.flatMap print) := by
  induction l with
  | nil => exact .nil
  | cons a l ih => exact (each a).append ih

theorem command (c : Command) : Prints c.tokens c.words := by
  have arguments : ∀ words : List PlainWord, Prints
      ((words.map fun word => word.text).map .argument) (words.map fun word => word.text) := by
    intro words
    induction words with
    | nil => exact .nil
    | cons word words ih => exact .argument word ih
  exact arguments _

theorem segment (s : Segment) : Prints s.tokens s.words :=
  (command s.first).append (flatMap (fun c => .pipe (command c)) s.rest)

theorem closedSegment (s : ClosedSegment) : Prints s.tokens s.words :=
  (segment s.segment).append (.close s.numbered .nil)

theorem ending (e : Ending) : Prints e.tokens e.words := by
  cases e with
  | nothing => exact .nil
  | numbered n => exact .close n .nil
  | file name => exact .file name .nil

theorem inputLine (l : InputLine) : Prints l.tokens l.words :=
  (flatMap closedSegment l.closed).append ((segment l.last).append (ending l.ending))

end Prints

/-- The digits of a number that fits are its value. -/
theorem Numbered.atoi_digits (n : Numbered) : Text.atoi n.digits = Text.digitsValue n.digits := by
  obtain ⟨digits, some, decimal, small, includeError⟩ := n
  obtain ⟨d, digits, rfl⟩ := List.exists_cons_of_ne_nil some
  have first := decimal d List.mem_cons_self
  have solid : Text.isSpace d = false := Text.isSpace_digit first
  have sign : d ≠ '-' ∧ d ≠ '+' := by
    constructor
    · rintro rfl
      cases first
    · rintro rfl
      cases first
  have run : (d :: digits).takeWhile Char.isDigit = d :: digits :=
    List.takeWhile_eq_self_iff.mpr decimal
  have read : Text.signedDigits (d :: digits) =
      (false, d :: digits, (d :: digits).dropWhile Char.isDigit) := by
    rw [Text.signedDigits]
    simp only [if_neg sign.1, if_neg sign.2, run]
  have spaces : (d :: digits).dropWhile Text.isSpace = d :: digits :=
    List.dropWhile_cons_of_neg (by simp [solid])
  rw [Text.atoi, spaces, read]
  simp only [Text.clamp, Text.toInt32, Bool.false_eq_true, if_false]
  have inside : max (-2 ^ 63) (min (2 ^ 63 - 1) (Text.digitsValue (d :: digits) : Int)) =
      (Text.digitsValue (d :: digits) : Int) := by omega
  rw [inside]
  exact Int.bmod_eq_of_le (by omega) (by omega)

/-- A name or an argument is read as a word of a command. -/
theorem reader_plain (word : PlainWord) : reader word.text = .alone (.argument word.text) := by
  obtain ⟨bar, bang⟩ := word.mark
  have pipe : word.text ≠ "|".toList := by
    intro same
    rw [same] at bar
    exact bar rfl
  unfold reader
  rw [if_neg word.command.1, if_neg word.command.2.1, if_neg word.command.2.2, if_neg pipe,
    if_neg word.file]
  unfold readerRest
  split
  · rename_i same
    rw [same] at bar
    exact absurd rfl bar
  · rename_i same
    rw [same] at bang
    exact absurd rfl bang
  · rfl

theorem reader_close (n : Numbered) : reader n.word = .alone n.token := by
  have some := n.some
  have value := n.atoi_digits
  rw [Numbered.word, Numbered.token, ← value]
  cases n.includeError with
  | false =>
      cases digits : n.digits with
      | nil => exact absurd digits some
      | cons d digits => rfl
  | true =>
      cases digits : n.digits with
      | nil => exact absurd digits some
      | cons d digits => rfl

/-- Printed words are read as their tokens. -/
theorem Prints.scans {items : List Token} {words : List Text} (prints : Prints items words)
    {s : Text} (same : Text.words s = words) : Scans lex (some s) items := by
  induction prints generalizing s with
  | nil => exact .ended (Text.readWord_of_words_nil same)
  | argument word rest ih =>
      obtain ⟨behind, read, later⟩ := Text.readWord_of_words_cons same
      exact .cons read (by rw [lex, reader_plain word]; rfl) (ih later)
  | pipe rest ih =>
      obtain ⟨behind, read, later⟩ := Text.readWord_of_words_cons same
      exact .cons read rfl (ih later)
  | close n rest ih =>
      obtain ⟨behind, read, later⟩ := Text.readWord_of_words_cons same
      exact .cons read (by rw [lex, reader_close n]; rfl) (ih later)
  | file name rest ih =>
      obtain ⟨behind, read, later⟩ := Text.readWord_of_words_cons same
      obtain ⟨behind', read', later'⟩ := Text.readWord_of_words_cons later
      have following : Parser.nextWord (some behind) = (name.text, some behind') := by
        rw [Parser.nextWord, read']
        rfl
      have lexed : lex ">".toList behind = (.file name.text, some behind') := by
        have file : reader ">".toList = .word .file := rfl
        rw [lex, file, Reader.lex, following]
      exact .cons read lexed (ih later')

/-- Arguments are gathered. -/
theorem queue_arguments (words : List Text) {commands : List ICommand} {argv : List Text}
    (items : List Token) : (Parser.within 0 0 commands argv).queue (words.map .argument ++ items) =
      (Parser.within 0 0 commands (argv ++ words)).queue items := by
  induction words generalizing argv with
  | nil => rw [List.append_nil, List.map_nil, List.nil_append]
  | cons word words ih =>
      have taken : (Parser.within 0 0 commands argv).take (.argument word) =
          Parser.within 0 0 commands (argv ++ [word]) := rfl
      rw [List.map_cons, List.cons_append, Parser.queue_cons, taken, ih, List.append_assoc]
      rfl

/-- In the middle of a segment all but the last of its commands are complete. -/
theorem queue_rest (rest : List Command) (commands : List ICommand) {argv : List Text}
    (some : argv ≠ []) : ∃ commands' argv', argv' ≠ [] ∧
      commands' ++ [.exe argv'] =
        commands ++ [.exe argv] ++ rest.flatMap (fun c => [.pipe, .exe c.words]) ∧
      ∀ items, (Parser.within 0 0 commands argv).queue
          (rest.flatMap (fun c => .pipe :: c.tokens) ++ items) =
        (Parser.within 0 0 commands' argv').queue items := by
  induction rest generalizing commands argv with
  | nil => exact ⟨commands, argv, some, by simp, fun items => rfl⟩
  | cons c rest ih =>
      have words : c.words ≠ [] := by simp [Command.words]
      obtain ⟨commands', argv', some', whole, queue⟩ :=
        ih (commands ++ [.exe argv, .pipe]) words
      refine ⟨commands', argv', some', by simp [whole], fun items => ?_⟩
      rw [← queue, List.flatMap_cons, List.append_assoc, List.cons_append, Parser.queue_cons]
      exact queue_arguments c.words _

theorem queue_segment (s : Segment) : ∃ commands argv, argv ≠ [] ∧
    commands ++ [.exe argv] = s.elements ∧
    ∀ items, (Parser.within 0 0 [] []).queue (s.tokens ++ items) =
      (Parser.within 0 0 commands argv).queue items := by
  have words : s.first.words ≠ [] := by simp [Command.words]
  obtain ⟨commands, argv, some, whole, queue⟩ := queue_rest s.rest [] words
  refine ⟨commands, argv, some, whole, fun items => ?_⟩
  rw [← queue, Segment.tokens, List.append_assoc]
  exact queue_arguments s.first.words _

/-- A closed segment is one command line. -/
theorem queue_closed (s : ClosedSegment) (items : List Token) :
    (Parser.within 0 0 [] []).queue (s.tokens ++ items) =
      s.commandLine :: (Parser.within 0 0 [] []).queue items := by
  obtain ⟨commands, argv, -, whole, queue⟩ := queue_segment s.segment
  rw [ClosedSegment.tokens, List.append_assoc, queue, ClosedSegment.commandLine, ← whole]
  refine (Parser.queue_close _ _ items).trans ?_
  simp [Numbered.element]

/-- So is the last one. -/
theorem queue_last (s : Segment) (e : Ending) :
    (Parser.within 0 0 [] []).queue (s.tokens ++ e.tokens) = [⟨s.elements ++ e.elements, 0, 0⟩] := by
  obtain ⟨commands, argv, some, whole, queue⟩ := queue_segment s
  rw [queue, ← whole]
  cases e with
  | nothing =>
      rw [Ending.tokens, Parser.queue_nil]
      simp [some, Ending.elements]
  | numbered n =>
      refine (Parser.queue_close _ _ []).trans ?_
      simp [Parser.queue_nil, Numbered.element, Ending.elements]
  | file name =>
      have taken : (Parser.within 0 0 commands argv).take (.file name.text) =
          Parser.within 0 0 (commands ++ [.exe argv, .file name.text]) [] := rfl
      rw [Ending.tokens, Parser.queue_cons, taken, Parser.queue_nil]
      simp [Ending.elements]

theorem queue_inputLine (l : InputLine) : Parser.init.queue l.tokens = l.queue := by
  obtain ⟨closed, last, ending⟩ := l
  change (Parser.within 0 0 [] []).queue _ = _
  simp only [InputLine.tokens, InputLine.queue]
  induction closed with
  | nil => exact queue_last last ending
  | cons s closed ih =>
      rw [List.flatMap_cons, List.append_assoc, queue_closed, ih]
      rfl

/-- The tokens of a printed line are no built-in commands. -/
theorem Prints.quiet {items : List Token} {words : List Text} (prints : Prints items words) :
    ∀ token ∈ items, ∀ builtin, token ≠ .builtin builtin := by
  induction prints with
  | nil => simp
  | argument word rest ih => exact List.forall_mem_cons.mpr ⟨fun _ => Token.noConfusion, ih⟩
  | pipe rest ih => exact List.forall_mem_cons.mpr ⟨fun _ => Token.noConfusion, ih⟩
  | close n rest ih => exact List.forall_mem_cons.mpr ⟨fun _ => Token.noConfusion, ih⟩
  | file name rest ih => exact List.forall_mem_cons.mpr ⟨fun _ => Token.noConfusion, ih⟩

/-- Printed words are words. -/
theorem Prints.solid {items : List Token} {words : List Text} (prints : Prints items words) :
    ∀ word ∈ words, word ≠ [] ∧ ∀ c ∈ word, Text.isSpace c = false := by
  induction prints with
  | nil => simp
  | argument word rest ih => exact List.forall_mem_cons.mpr ⟨⟨word.some, word.solid⟩, ih⟩
  | pipe rest ih => exact List.forall_mem_cons.mpr ⟨⟨by decide, Text.forall_chars rfl⟩, ih⟩
  | close n rest ih =>
      refine List.forall_mem_cons.mpr ⟨⟨List.cons_ne_nil _ _, ?_⟩, ih⟩
      refine List.forall_mem_cons.mpr ⟨?_, fun c member => Text.isSpace_digit (n.decimal c member)⟩
      cases n.includeError <;> decide
  | file name rest ih =>
      refine List.forall_mem_cons.mpr ⟨⟨by decide, Text.forall_chars rfl⟩, ?_⟩
      exact List.forall_mem_cons.mpr ⟨⟨name.some, name.solid⟩, ih⟩

/-- The parser gives back the line that was printed, whatever white space stands between the words. -/
theorem parse_print (l : InputLine) {s : Text} (spaced : Text.Spaced l.words s) :
    parseCommand s = ([], l.queue) := by
  have prints := Prints.inputLine l
  have same : Text.words s = l.words := spaced.words_eq prints.solid
  rw [parseCommand_eq (prints.scans same), Parser.builtins_finish,
    Parser.builtins_foldl _ _ prints.quiet]
  exact congrArg (Prod.mk []) (queue_inputLine l)

/-- `cat |1` and then `ls`. -/
def catThenLs : InputLine where
  closed := [⟨⟨⟨⟨catWord, by decide, by decide, by decide⟩, []⟩, []⟩,
    ⟨"1".toList, by decide, Text.forall_chars rfl, by decide, false⟩⟩]
  last := ⟨⟨⟨lsWord, by decide, by decide, by decide⟩, []⟩, []⟩
  ending := .nothing

theorem parse_print_cat : parseCommand "cat  |1 ls".toList = ([], catThenLs.queue) :=
  parse_print catThenLs (.word "cat".toList (Or.inr ⟨' ', _, rfl, rfl⟩) (.space rfl (.space rfl
    (.word "|1".toList (Or.inr ⟨' ', _, rfl, rfl⟩) (.space rfl
      (.word "ls".toList (Or.inl rfl) .nil))))))

end Npshell

end NetProg
