import NetProg.Lib.Words
import NetProg.Shell.ParseCommand

/-!
# What the words of a line are for

The parser reads a word, sometimes more of the line behind it, and changes its variables.  `Token`
is what a word turns out to be, `Parser.take` the change it makes; the parser is a fold over the
tokens of its line.
-/

namespace NetProg

/-- What a word is to the parser. -/
inductive Token where
  | builtin (builtin : Builtin)
  | argument (word : Text)
  | pipe
  | file (filename : Text)
  | close (number : Int) (includeError : Bool)
  | writeTo (uid : Int)
  | readFrom (uid : Int)
  deriving DecidableEq, Repr

namespace Parser

/-- What a token does to the variables of the parser. -/
def take (p : Parser) : Token → Parser
  | .builtin builtin => p.perform builtin
  | .argument word => { p with argv := p.argv ++ [word] }
  | .pipe => p.addCommands .pipe
  | .file filename => p.addCommands (.file filename)
  | .close number includeError => (p.addCommands (.numbered number includeError)).emplace
  | .writeTo uid => (p.writeTo uid).addCommands .userPipe
  | .readFrom uid => p.readFrom uid

end Parser

/-- How a word is turned into a token: alone, with one or two further words, or with the rest of
the line. -/
inductive Reader where
  | alone (token : Token)
  | word (token : Text → Token)
  | words (token : Text → Text → Token)
  | tell
  | line (builtin : Text → Builtin)

/-- The token of a word in front of `rest`, and the stream behind it. -/
def Reader.lex : Reader → Text → Token × Option Text
  | .alone token, rest => (token, some rest)
  | .word token, rest => (token (Parser.nextWord (some rest)).1, (Parser.nextWord (some rest)).2)
  | .words token, rest =>
      (token (Parser.nextWord (some rest)).1 (Parser.nextWord (Parser.nextWord (some rest)).2).1,
        (Parser.nextWord (Parser.nextWord (some rest)).2).2)
  | .tell, rest =>
      (.builtin (.tell (Parser.tellArguments rest).1 (Parser.tellArguments rest).2.1),
        (Parser.tellArguments rest).2.2)
  | .line builtin, rest => (.builtin (builtin (Text.readLine rest).1), (Text.readLine rest).2)

namespace Parser

/-- How a word that is none of the fixed words is read. -/
def readerRest (singleCommand : Text) : Reader :=
  match singleCommand with
  | '|' :: digits => .alone (.close (Text.atoi digits) false)
  | '!' :: digits => .alone (.close (Text.atoi digits) true)
  | '>' :: digits => .alone (.writeTo (Text.atoi digits))
  | '<' :: digits => .alone (.readFrom (Text.atoi digits))
  | _ => .alone (.argument singleCommand)

/-- How a word is read. -/
def reader (singleCommand : Text) : Reader :=
  if singleCommand = "exit".toList then .alone (.builtin .exit)
  else if singleCommand = "printenv".toList then .word fun env => .builtin (.printenv env)
  else if singleCommand = "setenv".toList then .words fun env var => .builtin (.setenv env var)
  else if singleCommand = "who".toList then .alone (.builtin .who)
  else if singleCommand = "tell".toList then .tell
  else if singleCommand = "yell".toList then .line .yell
  else if singleCommand = "name".toList then .line .name
  else if singleCommand = "|".toList then .alone .pipe
  else if singleCommand = ">".toList then .word .file
  else readerRest singleCommand

theorem readerRest_alone (singleCommand : Text) :
    ∃ token, readerRest singleCommand = .alone token := by
  unfold readerRest
  split <;> exact ⟨_, rfl⟩

/-- The ways in which words are read. -/
theorem reader_ways {motive : Reader → Prop} (singleCommand : Text)
    (alone : ∀ token, motive (.alone token))
    (printenv : motive (.word fun env => .builtin (.printenv env)))
    (setenv : motive (.words fun env var => .builtin (.setenv env var))) (tell : motive .tell)
    (line : ∀ builtin, motive (.line builtin)) (file : motive (.word .file)) :
    motive (reader singleCommand) := by
  have others : motive (readerRest singleCommand) := by
    obtain ⟨token, read⟩ := readerRest_alone singleCommand
    rw [read]
    exact alone token
  unfold reader
  refine iteInduction (fun _ => alone _) fun _ => ?_
  refine iteInduction (fun _ => printenv) fun _ => ?_
  refine iteInduction (fun _ => setenv) fun _ => ?_
  refine iteInduction (fun _ => alone _) fun _ => ?_
  refine iteInduction (fun _ => tell) fun _ => ?_
  refine iteInduction (fun _ => line _) fun _ => ?_
  refine iteInduction (fun _ => line _) fun _ => ?_
  refine iteInduction (fun _ => alone _) fun _ => ?_
  exact iteInduction (fun _ => file) fun _ => others

/-- The token of a word, and the stream behind it. -/
def lex (singleCommand rest : Text) : Token × Option Text := (reader singleCommand).lex rest

theorem take_ite {c : Prop} [Decidable c] {p : Parser} {rest : Text}
    {yes no : Parser × Option Text} {yes' no' : Reader}
    (left : yes = (p.take (yes'.lex rest).1, (yes'.lex rest).2))
    (right : no = (p.take (no'.lex rest).1, (no'.lex rest).2)) : (if c then yes else no) =
      (p.take ((if c then yes' else no').lex rest).1, ((if c then yes' else no').lex rest).2) := by
  split
  · exact left
  · exact right

theorem word_eq (p : Parser) (singleCommand rest : Text) :
    p.word singleCommand rest =
      (p.take (lex singleCommand rest).1, (lex singleCommand rest).2) := by
  have last : ∀ singleCommand : Text, (match singleCommand with
      | '|' :: digits => ((p.addCommands (.numbered (Text.atoi digits) false)).emplace, some rest)
      | '!' :: digits => ((p.addCommands (.numbered (Text.atoi digits) true)).emplace, some rest)
      | '>' :: digits => ((p.writeTo (Text.atoi digits)).addCommands .userPipe, some rest)
      | '<' :: digits => (p.readFrom (Text.atoi digits), some rest)
      | _ => ({ p with argv := p.argv ++ [singleCommand] }, some rest)) =
      (p.take ((readerRest singleCommand).lex rest).1, ((readerRest singleCommand).lex rest).2) := by
    intro singleCommand
    unfold readerRest
    split <;> rfl
  exact take_ite rfl (take_ite rfl (take_ite rfl (take_ite rfl (take_ite rfl (take_ite rfl
    (take_ite rfl (take_ite rfl (take_ite rfl (last singleCommand)))))))))

/-- The loop takes the tokens one by one. -/
theorem loop_eq (fuel : Nat) (p : Parser) (s : Option Text) :
    loop fuel p s = (scan lex fuel s).foldl take p := by
  induction fuel generalizing p s with
  | zero => rfl
  | succ fuel ih =>
      cases s with
      | none => rfl
      | some s =>
          rw [loop, scan]
          cases read : Text.readWord s with
          | none => rfl
          | some result =>
              obtain ⟨singleCommand, rest⟩ := result
              simp only [word_eq]
              exact ih _ _

theorem nextWord_suffix {s : Option Text} {s' : Text} (next : (nextWord s).2 = some s') :
    ∃ rest, s = some rest ∧ s' <:+ rest := by
  cases s with
  | none => cases next
  | some rest =>
      rw [nextWord] at next
      cases read : Text.readWord rest with
      | none =>
          rw [read] at next
          cases next
      | some result =>
          rw [read] at next
          obtain rfl := Option.some.inj next
          exact ⟨rest, rfl, Text.readWord_suffix read⟩

theorem readLine_suffix {s s' : Text} (next : (Text.readLine s).2 = some s') : s' <:+ s := by
  rw [Text.readLine] at next
  split at next
  · cases next
  · obtain rfl := Option.some.inj next
    exact ((List.drop_suffix _ _).trans (List.dropWhile_suffix _)).trans (List.dropWhile_suffix _)

theorem signedDigits_suffix (s : Text) : (Text.signedDigits s).2.2 <:+ s := by
  have digits : ∀ t : Text, t.dropWhile Char.isDigit <:+ t := fun t => List.dropWhile_suffix _
  cases s with
  | nil => exact List.suffix_rfl
  | cons c s =>
      have less := (digits s).trans (List.suffix_cons c s)
      rw [Text.signedDigits]
      split
      rename_i negative t sign
      split at sign
      · cases sign
        exact less
      · split at sign
        · cases sign
          exact less
        · cases sign
          exact digits (c :: s)

theorem readInt_suffix {s s' : Text} {uid : Int} (next : Text.readInt s = some (uid, some s')) :
    s' <:+ s := by
  rw [Text.readInt] at next
  split at next
  · cases next
  · have digits := signedDigits_suffix (s.dropWhile Text.isSpace)
    split at next
    rename_i negative digits' rest sign
    rw [sign] at digits
    have stream := (Prod.mk.inj (Option.some.inj next)).2
    obtain ⟨-, same⟩ := Option.ite_none_left_eq_some.mp stream
    obtain rfl := Option.some.inj same
    exact digits.trans (List.dropWhile_suffix _)

theorem tellArguments_suffix {s s' : Text} (next : (tellArguments s).2.2 = some s') :
    ∃ t, t <:+ s ∧ (Text.readLine t).2 = some s' := by
  rw [tellArguments] at next
  split at next
  · cases next
  · cases next
  · rename_i read
    exact ⟨_, readInt_suffix read, next⟩

end Parser

/-- A word leaves an end of what is behind it. -/
theorem Reader.lex_suffix (reader : Reader) {rest s : Text} (next : (reader.lex rest).2 = some s) :
    s <:+ rest := by
  cases reader with
  | alone token =>
      cases next
      exact List.suffix_rfl
  | word token =>
      obtain ⟨rest', same, less⟩ := Parser.nextWord_suffix next
      cases same
      exact less
  | words token =>
      obtain ⟨rest', first, less⟩ := Parser.nextWord_suffix next
      obtain ⟨rest'', same, less'⟩ := Parser.nextWord_suffix first
      cases same
      exact less.trans less'
  | tell =>
      obtain ⟨t, less, last⟩ := Parser.tellArguments_suffix next
      exact (Parser.readLine_suffix last).trans less
  | line builtin => exact Parser.readLine_suffix next

/-- The tokens of an input line. -/
def tokens (command : Text) : List Token := scan Parser.lex (command.length + 1) (some command)

theorem scans_tokens (command : Text) : Scans Parser.lex (some command) (tokens command) :=
  scans_scan (fun _ _ _ next => (Reader.lex_suffix _ next).length_le) fun text same => by
    cases same
    exact Nat.lt_succ_self _

/-- The parser is a fold over the tokens. -/
theorem parseCommand_eq {command : Text} {items : List Token}
    (scans : Scans Parser.lex (some command) items) :
    parseCommand command = ((items.foldl Parser.take .init).finish.builtins,
      (items.foldl Parser.take .init).finish.ret) := by
  obtain rfl := scans.unique (scans_tokens command)
  rw [parseCommand, Parser.loop_eq]
  rfl

end NetProg
