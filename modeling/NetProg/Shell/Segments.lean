import Mathlib.Data.List.TakeWhile
import NetProg.Shell.Tokens

/-!
# Command lines of one input line are parsed one after the other

`parseCommand` moves its `NpCommandLine` to the queue at every `|n` and `!n` and goes on with the same
object.  The move takes the commands away, but `_readUid` and `_writeUid` keep their values, so `<i`
and `>j` of one command line are found in the following ones until these have their own.
-/

namespace NetProg

namespace Token

/-- The value that a word gives `_readUid`. -/
def reads : Token → Option Int
  | .readFrom uid => some uid
  | _ => none

/-- The value that a word gives `_writeUid`. -/
def writes : Token → Option Int
  | .writeTo uid => some uid
  | _ => none

/-- The word is of a command line. -/
def Adds : Token → Prop
  | .builtin _ => False
  | .readFrom _ => False
  | _ => True

end Token

/-- The value that the words leave behind, zero when none gives one. -/
def remains (uid : Token → Option Int) (items : List Token) : Int :=
  items.foldl (fun last token => (uid token).getD last) 0

/-- The first command line of these words is given a value of its own before it is closed. -/
def SetsFirst (uid : Token → Option Int) : List Token → Prop
  | [] => False
  | .close _ _ :: _ => False
  | token :: items => (uid token).isSome ∨ SetsFirst uid items

/-- The words end in `|n` or `!n`. -/
def Closed (items : List Token) : Prop :=
  ∃ front number includeError, items = front ++ [.close number includeError]

/-- What the first words leave behind is zero, or is replaced, or there is no line to find it in. -/
def Independent (first later : List Token) : Prop :=
  (∀ token ∈ later, ¬ token.Adds) ∨
    (remains Token.reads first = 0 ∨ SetsFirst Token.reads later) ∧
      (remains Token.writes first = 0 ∨ SetsFirst Token.writes later)

section Lex

variable {rest s : Text} {c : Char}

theorem nextWord_more {s : Text} (next : (Parser.nextWord (some rest)).2 = some s)
    (space : Text.isSpace c = true) (b : Text) : Parser.nextWord (some (rest ++ c :: b)) =
      ((Parser.nextWord (some rest)).1, some (s ++ c :: b)) := by
  cases read : Text.readWord rest with
  | none =>
      rw [Parser.nextWord, read] at next
      cases next
  | some result =>
      obtain ⟨word, rest'⟩ := result
      rw [Parser.nextWord, read] at next
      obtain rfl := Option.some.inj next
      rw [Parser.nextWord, Parser.nextWord, Text.readWord_more read space, read]
      rfl

/-- The rest of a line is all of it. -/
theorem readLine_all (oneLine : '\n' ∉ rest) (next : (Text.readLine rest).2 = some s) : s = [] := by
  rw [Text.readLine] at next
  split at next
  · cases next
  · have none : (rest.dropWhile Text.isSpace).dropWhile (fun c => decide (c ≠ '\n')) = [] := by
      rw [List.dropWhile_eq_nil_iff]
      intro c member
      rw [decide_eq_true_eq]
      rintro rfl
      exact oneLine ((List.dropWhile_sublist _).subset member)
    obtain rfl := Option.some.inj next
    rw [none]
    rfl

/-- What is appended behind a word does not change it, unless the word takes the line to its end. -/
theorem Reader.lex_more (reader : Reader) (oneLine : '\n' ∉ rest)
    (next : (reader.lex rest).2 = some s) (space : Text.isSpace c = true) (b : Text) :
    (s = [] ∧ ∃ builtin, (reader.lex rest).1 = .builtin builtin) ∨
      reader.lex (rest ++ c :: b) = ((reader.lex rest).1, some (s ++ c :: b)) := by
  cases reader with
  | alone token =>
      cases next
      exact Or.inr rfl
  | word token =>
      refine Or.inr ?_
      rw [lex, nextWord_more next space]
      rfl
  | words token =>
      obtain ⟨rest', first, -⟩ := Parser.nextWord_suffix next
      refine Or.inr ?_
      change (Parser.nextWord (Parser.nextWord (some rest)).2).2 = some s at next
      rw [first] at next
      rw [lex, nextWord_more first space]
      simp only
      rw [nextWord_more next space, lex, first]
  | tell =>
      obtain ⟨t, less, last⟩ := Parser.tellArguments_suffix next
      exact Or.inl ⟨readLine_all (fun member => oneLine (less.subset member)) last, _, rfl⟩
  | line builtin => exact Or.inl ⟨readLine_all oneLine next, _, rfl⟩

/-- `|n` and `!n` take nothing more of the line. -/
theorem close_lex {word : Text} {number : Int} {includeError : Bool}
    (close : (Parser.lex word rest).1 = .close number includeError) :
    (Parser.lex word rest).2 = some rest := by
  have readers : (∃ token, Parser.reader word = .alone token) ∨
      ∀ number includeError, ((Parser.reader word).lex rest).1 ≠ .close number includeError := by
    refine Parser.reader_ways (motive := fun reader => (∃ token, reader = .alone token) ∨
      ∀ number includeError, (reader.lex rest).1 ≠ .close number includeError) word
      (fun token => Or.inl ⟨token, rfl⟩) ?_ ?_ ?_ (fun builtin => ?_) ?_
    all_goals exact Or.inr fun _ _ => Token.noConfusion
  rcases readers with ⟨token, alone⟩ | never
  · rw [Parser.lex, alone]
    rfl
  · exact absurd close (never number includeError)

/-- The words behind a closed command line are read as if they stood alone. -/
theorem scans_append {a b : Text} {items later : List Token} (oneLine : '\n' ∉ a)
    (space : Text.isSpace c = true) (scans : Scans Parser.lex (some a) items)
    (closed : items = [] ∨ Closed items) (scans' : Scans Parser.lex (some b) later) :
    Scans Parser.lex (some (a ++ c :: b)) (items ++ later) := by
  generalize same : some a = stream at scans
  induction scans generalizing a with
  | failed => cases same
  | ended ended =>
      cases same
      have read := Text.readWord_blank ended space b
      cases scans' with
      | ended ended' => exact .ended (read.trans ended')
      | word read' rest => exact .word (read.trans read') rest
  | @word s word rest items read following ih =>
      cases same
      obtain ⟨front, number, includeError, whole⟩ := closed.resolve_left (List.cons_ne_nil _ _)
      have oneLine' : '\n' ∉ rest := fun member =>
        oneLine ((Text.readWord_suffix read).subset member)
      have last : items = [] → (Parser.lex word rest).1 = .close number includeError := by
        rintro rfl
        cases front with
        | nil => exact (List.cons.inj whole).1
        | cons token front => simp at whole
      have rest_closed : items = [] ∨ Closed items := by
        cases front with
        | nil => exact Or.inl (List.cons.inj whole).2
        | cons token front => exact Or.inr ⟨front, number, includeError, (List.cons.inj whole).2⟩
      cases stream : (Parser.lex word rest).2 with
      | none =>
          rw [stream] at following
          cases following
          rw [close_lex (last rfl)] at stream
          cases stream
      | some s =>
          rw [stream] at following
          rcases (Parser.reader word).lex_more oneLine' stream space b with
            ⟨rfl, builtin, token⟩ | more
          · have none : items = [] := following.unique (.ended rfl)
            cases token.symm.trans (last none)
          · have oneLine'' : '\n' ∉ s := fun member =>
              oneLine' (((Parser.reader word).lex_suffix stream).subset member)
            have rest_scans := ih oneLine'' rest_closed stream.symm
            change Parser.lex word (rest ++ c :: b) = _ at more
            exact .cons (Text.readWord_more read space b) more rest_scans

end Lex

namespace Parser

/-- The queue when the parser has taken these tokens as well. -/
def queue (p : Parser) (items : List Token) : List NpCommandLine := (items.foldl take p).finish.ret

/-- The parser behind another queue and other built-in commands. -/
def behind (before : List NpCommandLine) (done : List Builtin) (p : Parser) : Parser :=
  { p with ret := before ++ p.ret, builtins := done ++ p.builtins }

variable {before : List NpCommandLine} {done : List Builtin} {p : Parser}

theorem take_behind (token : Token) :
    (p.behind before done).take token = (p.take token).behind before done := by
  cases token with
  | builtin builtin => simp [take, perform, behind]
  | argument word => rfl
  | pipe => rfl
  | file filename => rfl
  | close number includeError => simp [take, addCommands, emplace, behind]
  | writeTo uid => rfl
  | readFrom uid => rfl

theorem foldl_behind (items : List Token) :
    items.foldl take (p.behind before done) = (items.foldl take p).behind before done := by
  induction items generalizing p with
  | nil => rfl
  | cons token items ih => rw [List.foldl_cons, take_behind, ih, List.foldl_cons]

theorem finish_behind : (p.behind before done).finish = p.finish.behind before done := by
  obtain ⟨ret, ⟨commands, r, w⟩, argv, builtins⟩ := p
  cases argv with
  | nil =>
      cases commands with
      | nil => rfl
      | cons c commands => simp [finish, behind, emplace]
  | cons a argv => simp [finish, behind, emplace]

theorem queue_behind (items : List Token) :
    (p.behind before done).queue items = before ++ p.queue items := by
  rw [queue, foldl_behind, finish_behind]
  rfl

theorem queue_cons (token : Token) (items : List Token) :
    p.queue (token :: items) = (p.take token).queue items := rfl

/-- The built-in commands are the tokens that are one. -/
theorem builtins_foldl (p : Parser) (items : List Token)
    (none : ∀ token ∈ items, ∀ builtin, token ≠ .builtin builtin) :
    (items.foldl take p).builtins = p.builtins := by
  induction items generalizing p with
  | nil => rfl
  | cons token items ih =>
      obtain ⟨here, later⟩ := List.forall_mem_cons.mp none
      rw [List.foldl_cons, ih _ later]
      cases token with
      | builtin builtin => exact absurd rfl (here builtin)
      | _ => rfl

theorem builtins_finish (p : Parser) : p.finish.builtins = p.builtins := by
  unfold finish
  by_cases bare : p.argv.isEmpty = true
  · simp only [if_pos bare]
    split <;> rfl
  · simp only [if_neg bare]
    split <;> rfl

/-- The parser in the middle of a command line, with an empty queue. -/
def within (readUid writeUid : Int) (commands : List ICommand) (argv : List Text) : Parser :=
  ⟨[], ⟨commands, readUid, writeUid⟩, argv, []⟩

section Within

variable {r r' w w' : Int} {commands : List ICommand} {argv : List Text}

theorem queue_nil : (within r w commands argv).queue [] =
    if argv = [] ∧ commands = [] then []
    else [⟨commands ++ if argv = [] then [] else [.exe argv], r, w⟩] := by
  cases argv with
  | nil =>
      cases commands with
      | nil => rfl
      | cons c commands => simp [queue, finish, within, emplace]
  | cons a argv => simp [queue, finish, within, emplace]

/-- A closed line is at the front of the queue, and the user ids stay. -/
theorem queue_close (number : Int) (includeError : Bool) (items : List Token) :
    (within r w commands argv).queue (.close number includeError :: items) =
      ⟨commands ++ [.exe argv, .numbered number includeError], r, w⟩ ::
        (within r w [] []).queue items := by
  have moved : (within r w commands argv).take (.close number includeError) =
      (within r w [] []).behind
        [⟨commands ++ [.exe argv, .numbered number includeError], r, w⟩] [] := rfl
  rw [queue_cons, moved, queue_behind]
  rfl

/-- When the user ids that the parser starts with make no difference. -/
theorem queue_eq_iff (items : List Token) :
    (within r w commands argv).queue items = (within r' w' commands argv).queue items ↔
      ((argv = [] ∧ commands = []) ∧ ∀ token ∈ items, ¬ token.Adds) ∨
        (r = r' ∨ SetsFirst Token.reads items) ∧ (w = w' ∨ SetsFirst Token.writes items) := by
  induction items generalizing r r' w w' commands argv with
  | nil =>
      rw [queue_nil, queue_nil]
      by_cases empty : argv = [] ∧ commands = []
      · simp [empty]
      · simp [empty, SetsFirst]
  | cons token items ih =>
      cases token with
      | builtin builtin =>
          have same : ∀ r w, (within r w commands argv).queue (.builtin builtin :: items) =
              (within r w commands argv).queue items := by
            intro r w
            have performed : (within r w commands argv).take (.builtin builtin) =
                (within r w commands argv).behind [] [builtin] := rfl
            rw [queue_cons, performed, queue_behind, List.nil_append]
          rw [same, same, ih]
          simp [Token.Adds, SetsFirst, Token.reads, Token.writes]
      | argument word =>
          have taken : ∀ r w, (within r w commands argv).take (.argument word) =
              within r w commands (argv ++ [word]) := fun _ _ => rfl
          rw [queue_cons, queue_cons, taken, taken, ih]
          simp [Token.Adds, SetsFirst, Token.reads, Token.writes]
      | pipe =>
          have taken : ∀ r w, (within r w commands argv).take .pipe =
              within r w (commands ++ [.exe argv, .pipe]) [] := fun _ _ => rfl
          rw [queue_cons, queue_cons, taken, taken, ih]
          simp [Token.Adds, SetsFirst, Token.reads, Token.writes]
      | file filename =>
          have taken : ∀ r w, (within r w commands argv).take (.file filename) =
              within r w (commands ++ [.exe argv, .file filename]) [] := fun _ _ => rfl
          rw [queue_cons, queue_cons, taken, taken, ih]
          simp [Token.Adds, SetsFirst, Token.reads, Token.writes]
      | close number includeError =>
          rw [queue_close, queue_close]
          simp only [List.cons.injEq, NpCommandLine.mk.injEq, SetsFirst, List.mem_cons,
            forall_eq_or_imp, Token.Adds, not_true_eq_false, false_and, and_false, false_or, or_false,
            true_and]
          constructor
          · exact fun both => both.1
          · rintro ⟨rfl, rfl⟩
            exact ⟨⟨rfl, rfl⟩, rfl⟩
      | writeTo uid =>
          have taken : ∀ r w, (within r w commands argv).take (.writeTo uid) =
              within r uid (commands ++ [.exe argv, .userPipe]) [] := fun _ _ => rfl
          rw [queue_cons, queue_cons, taken, taken, ih]
          simp [Token.Adds, SetsFirst, Token.reads, Token.writes]
      | readFrom uid =>
          have taken : ∀ r w, (within r w commands argv).take (.readFrom uid) =
              within uid w commands argv := fun _ _ => rfl
          rw [queue_cons, queue_cons, taken, taken, ih]
          simp [Token.Adds, SetsFirst, Token.reads, Token.writes]

end Within

theorem readUid_foldl (items : List Token) : (items.foldl take p).npCommandLine.readUid =
    items.foldl (fun last token => token.reads.getD last) p.npCommandLine.readUid := by
  induction items generalizing p with
  | nil => rfl
  | cons token items ih =>
      rw [List.foldl_cons, List.foldl_cons, ih]
      cases token <;> rfl

theorem writeUid_foldl (items : List Token) : (items.foldl take p).npCommandLine.writeUid =
    items.foldl (fun last token => token.writes.getD last) p.npCommandLine.writeUid := by
  induction items generalizing p with
  | nil => rfl
  | cons token items ih =>
      rw [List.foldl_cons, List.foldl_cons, ih]
      cases token <;> rfl

/-- Behind a closed line the parser starts anew, but for the user ids. -/
theorem foldl_closed {items : List Token} (closed : Closed items) :
    ∃ done, items.foldl take init =
      (within (remains Token.reads items) (remains Token.writes items) [] []).behind
        (init.queue items) done := by
  obtain ⟨front, number, includeError, rfl⟩ := closed
  have taken : (front ++ [Token.close number includeError]).foldl take init =
      (front.foldl take init).take (.close number includeError) := by
    rw [List.foldl_append]
    rfl
  have reads : (front.foldl take init).npCommandLine.readUid =
      remains Token.reads (front ++ [.close number includeError]) := by
    have all := @readUid_foldl init (front ++ [.close number includeError])
    rw [taken] at all
    exact all
  have writes : (front.foldl take init).npCommandLine.writeUid =
      remains Token.writes (front ++ [.close number includeError]) := by
    have all := @writeUid_foldl init (front ++ [.close number includeError])
    rw [taken] at all
    exact all
  refine ⟨(front.foldl take init).builtins, ?_⟩
  rw [queue, taken, ← reads, ← writes]
  simp [take, addCommands, emplace, finish, within, behind]

end Parser

theorem parseCommand_queue {command : Text} {items : List Token}
    (scans : Scans Parser.lex (some command) items) :
    (parseCommand command).2 = Parser.init.queue items := by
  rw [parseCommand_eq scans]
  rfl

/-- The queue of a line is the one of its closed front followed by the one of the rest just when the
rest does not find a user id of the front. -/
theorem segments_independent (s₁ s₂ : List Word) (closed : Closed (tokens (Text.line s₁))) :
    (parseCommand (Text.line (s₁ ++ s₂))).2 =
        (parseCommand (Text.line s₁)).2 ++ (parseCommand (Text.line s₂)).2 ↔
      Independent (tokens (Text.line s₁)) (tokens (Text.line s₂)) := by
  have some : s₁ ≠ [] := by
    rintro rfl
    obtain ⟨front, number, includeError, whole⟩ := closed
    have none : tokens (Text.line []) = [] := rfl
    rw [none] at whole
    simp at whole
  have whole : Scans Parser.lex (.some (Text.line (s₁ ++ s₂)))
      (tokens (Text.line s₁) ++ tokens (Text.line s₂)) := by
    by_cases empty : s₂ = []
    · subst empty
      have none : tokens (Text.line []) = [] := rfl
      rw [List.append_nil, none, List.append_nil]
      exact scans_tokens _
    · rw [Text.line_append some empty]
      exact scans_append (Text.newline_not_mem_line s₁) (by decide) (scans_tokens _) (Or.inr closed)
        (scans_tokens _)
  obtain ⟨done, front⟩ := Parser.foldl_closed closed
  have joined : Parser.init.queue (tokens (Text.line s₁) ++ tokens (Text.line s₂)) =
      Parser.init.queue (tokens (Text.line s₁)) ++
        (Parser.within (remains Token.reads (tokens (Text.line s₁)))
          (remains Token.writes (tokens (Text.line s₁))) [] []).queue (tokens (Text.line s₂)) := by
    rw [← Parser.queue_behind, ← front, Parser.queue, Parser.queue, List.foldl_append]
  rw [parseCommand_queue whole, parseCommand_queue (scans_tokens _),
    parseCommand_queue (scans_tokens _), joined, List.append_cancel_left_eq]
  refine (@Parser.queue_eq_iff _ 0 _ 0 [] [] (tokens (Text.line s₂))).trans ?_
  simp [Independent]

def catWord : Word := ⟨"cat".toList, by decide, Text.forall_chars rfl⟩

def lsWord : Word := ⟨"ls".toList, by decide, Text.forall_chars rfl⟩

/-- `cat <2 |1` -/
def catFrom : List Word :=
  [catWord, ⟨"<2".toList, by decide, Text.forall_chars rfl⟩,
    ⟨"|1".toList, by decide, Text.forall_chars rfl⟩]

/-- `ls` -/
def lsOnly : List Word := [lsWord]

theorem catFrom_closed : Closed (tokens (Text.line catFrom)) :=
  ⟨[.argument "cat".toList, .readFrom 2], 1, false, by decide +kernel⟩

theorem segments_independent_cat :
    (parseCommand (Text.line (catFrom ++ catFrom))).2 =
        (parseCommand (Text.line catFrom)).2 ++ (parseCommand (Text.line catFrom)).2 ↔
      Independent (tokens (Text.line catFrom)) (tokens (Text.line catFrom)) :=
  segments_independent catFrom catFrom catFrom_closed

/-- In `cat <2 |1 ls` the `ls` reads the user pipe as well. -/
theorem ls_reads_user_pipe : Closed (tokens (Text.line catFrom)) ∧
    (parseCommand (Text.line (catFrom ++ lsOnly))).2 ≠
      (parseCommand (Text.line catFrom)).2 ++ (parseCommand (Text.line lsOnly)).2 :=
  ⟨catFrom_closed, by decide +kernel⟩

end NetProg
