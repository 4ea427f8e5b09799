import NetProg.Lib.Text

/-!
# Loops over the words of a stream

A loop `while (stream >> word)` takes a word, may take more of the stream for it, and goes on.  `scan`
lists what the words of a text amount to, with a bound on their number, and `Scans` is the same
without the bound.  Words that take nothing more are seen in `Text.words` alone.
-/

namespace NetProg

/-- A word as a stream reads it. -/
structure Word where
  text : Text
  some : text ≠ []
  solid : ∀ c ∈ text, Text.isSpace c = false

namespace Text

/-- The line of these words, with blanks between them. -/
def line : List Word → Text
  | [] => []
  | [word] => word.text
  | word :: next :: rest => word.text ++ ' ' :: line (next :: rest)

theorem line_cons (word : Word) {rest : List Word} (some : rest ≠ []) :
    line (word :: rest) = word.text ++ ' ' :: line rest := by
  cases rest with
  | nil => exact absurd rfl some
  | cons next rest => rfl

theorem line_append {first later : List Word} (some : first ≠ []) (some' : later ≠ []) :
    line (first ++ later) = line first ++ ' ' :: line later := by
  induction first with
  | nil => exact absurd rfl some
  | cons word first ih =>
      cases first with
      | nil => exact line_cons word some'
      | cons next first =>
          have inner := ih (List.cons_ne_nil _ _)
          rw [List.cons_append, line_cons word (by simp), inner, line_cons word (by simp),
            List.append_assoc]
          rfl

theorem newline_not_mem_line (words : List Word) : '\n' ∉ line words := by
  induction words with
  | nil => exact List.not_mem_nil
  | cons word rest ih =>
      have solid : '\n' ∉ word.text := fun member => absurd (word.solid _ member) (by decide)
      cases rest with
      | nil => exact solid
      | cons next rest =>
          rw [line_cons word (List.cons_ne_nil _ _), List.mem_append, List.mem_cons]
          rintro (here | blank | later)
          · exact solid here
          · cases blank
          · exact ih later

/-- The words of a text. -/
def words (s : Text) : List Text :=
  match _read : readWord s with
  | none => []
  | some (word, rest) => word :: words rest
termination_by s.length
decreasing_by exact readWord_length _read

theorem words_of_none {s : Text} (ended : readWord s = none) : words s = [] := by
  rw [words]
  split
  · rfl
  · rename_i read
    rw [ended] at read
    cases read

theorem words_of_some {s word rest : Text} (read : readWord s = some (word, rest)) :
    words s = word :: words rest := by
  rw [words]
  split
  · rename_i ended
    rw [read] at ended
    cases ended
  · rename_i read'
    rw [read] at read'
    cases read'
    rfl

theorem readWord_of_words_nil {s : Text} (same : words s = []) : readWord s = none := by
  cases read : readWord s with
  | none => rfl
  | some result =>
      rw [words_of_some read] at same
      cases same

theorem readWord_of_words_cons {s word : Text} {ws : List Text} (same : words s = word :: ws) :
    ∃ rest, readWord s = some (word, rest) ∧ words rest = ws := by
  cases read : readWord s with
  | none =>
      rw [words_of_none read] at same
      cases same
  | some result =>
      obtain ⟨word', rest⟩ := result
      rw [words_of_some read] at same
      obtain ⟨rfl, later⟩ := List.cons.inj same
      exact ⟨rest, rfl, later⟩

theorem words_space {c : Char} {s : Text} (space : isSpace c = true) : words (c :: s) = words s := by
  cases read : readWord s with
  | none => rw [words_of_none read, words_of_none ((readWord_space space).trans read)]
  | some result => rw [words_of_some read, words_of_some ((readWord_space space).trans read)]

/-- The text is these words with white space between them, and perhaps around them. -/
inductive Spaced : List Text → Text → Prop
  | nil : Spaced [] []
  | space {ws : List Text} {s : Text} {c : Char} (space : isSpace c = true) (rest : Spaced ws s) :
      Spaced ws (c :: s)
  | word {ws : List Text} {s : Text} (word : Text)
      (next : s = [] ∨ ∃ c later, s = c :: later ∧ isSpace c = true) (rest : Spaced ws s) :
      Spaced (word :: ws) (word ++ s)

theorem solid_of_all {ws : List Text}
    (all : ws.all (fun word => !word.isEmpty && word.all fun c => !isSpace c) = true) :
    ∀ word ∈ ws, word ≠ [] ∧ ∀ c ∈ word, isSpace c = false := by
  simpa using all

theorem Spaced.words_eq {ws : List Text} {s : Text} (spaced : Spaced ws s)
    (solid : ∀ word ∈ ws, word ≠ [] ∧ ∀ c ∈ word, isSpace c = false) : words s = ws := by
  induction spaced with
  | nil => exact words_of_none rfl
  | space space rest ih => rw [words_space space, ih solid]
  | word word next rest ih =>
      obtain ⟨some, plain⟩ := solid word List.mem_cons_self
      rw [words_of_some (readWord_append some plain next),
        ih fun word' member => solid word' (List.mem_cons_of_mem _ member)]

/-- The stream goes on with an end of the text. -/
theorem readWord_suffix {s word rest : Text} (read : readWord s = some (word, rest)) :
    rest <:+ s := by
  rw [readWord] at read
  obtain ⟨-, same⟩ := Option.ite_none_left_eq_some.mp read
  obtain ⟨-, rfl⟩ := Prod.mk.inj (Option.some.inj same)
  exact (List.dropWhile_suffix _).trans (List.dropWhile_suffix _)

/-- A word that ends before the end of the text does not depend on what follows. -/
theorem readWord_more {a word rest : Text} (read : readWord a = some (word, rest)) {c : Char}
    (space : isSpace c = true) (b : Text) :
    readWord (a ++ c :: b) = some (word, rest ++ c :: b) := by
  induction a with
  | nil => cases read
  | cons d a ih =>
      by_cases blank : isSpace d = true
      · rw [readWord_space blank] at read
        rw [List.cons_append, readWord_space blank]
        exact ih read
      · obtain ⟨some, solid⟩ := readWord_word read
        have start : (d :: a).dropWhile isSpace = d :: a := List.dropWhile_cons_of_neg blank
        rw [readWord, start, if_neg (by simp)] at read
        obtain ⟨rfl, rfl⟩ := Prod.mk.inj (Option.some.inj read)
        have next : (d :: a).dropWhile (fun c => !isSpace c) = [] ∨ ∃ e later,
            (d :: a).dropWhile (fun c => !isSpace c) = e :: later ∧ isSpace e = true := by
          cases rest : (d :: a).dropWhile (fun c => !isSpace c) with
          | nil => exact Or.inl rfl
          | cons e later =>
              have stopped := List.head?_dropWhile_not (fun c => !isSpace c) (d :: a)
              rw [rest] at stopped
              exact Or.inr ⟨e, later, rfl, by simpa using stopped⟩
        have next' : (d :: a).dropWhile (fun c => !isSpace c) ++ c :: b = [] ∨ ∃ e later,
            (d :: a).dropWhile (fun c => !isSpace c) ++ c :: b = e :: later ∧ isSpace e = true := by
          rcases next with ended | ⟨e, later, rest, spaced⟩
          · rw [ended]
            exact Or.inr ⟨c, b, rfl, space⟩
          · rw [rest]
            exact Or.inr ⟨e, later ++ c :: b, rfl, spaced⟩
        have whole := List.takeWhile_append_dropWhile (p := fun c => !isSpace c) (l := d :: a)
        have front := readWord_append some solid next'
        rw [← List.append_assoc, whole] at front
        exact front

theorem readWord_blank {a : Text} (ended : readWord a = none) {c : Char}
    (space : isSpace c = true) (b : Text) : readWord (a ++ c :: b) = readWord b := by
  induction a with
  | nil => exact readWord_space space
  | cons d a ih =>
      have blank : isSpace d = true := by
        refine Decidable.by_contra fun solid => ?_
        have start : (d :: a).dropWhile isSpace = d :: a := List.dropWhile_cons_of_neg solid
        rw [readWord, start, if_neg (by simp)] at ended
        cases ended
      rw [readWord_space blank] at ended
      rw [List.cons_append, readWord_space blank]
      exact ih ended

end Text

/-- The items that the words of a stream amount to.  `lex` says of a word and the text behind it
what the word amounts to and where the stream then stands. -/
def scan {τ : Type} (lex : Text → Text → τ × Option Text) : Nat → Option Text → List τ
  | 0, _ => []
  | _, none => []
  | fuel + 1, some s =>
      match Text.readWord s with
      | none => []
      | some (word, rest) => (lex word rest).1 :: scan lex fuel (lex word rest).2

/-- The items of a stream, whatever their number. -/
inductive Scans {τ : Type} (lex : Text → Text → τ × Option Text) : Option Text → List τ → Prop
  | failed : Scans lex none []
  | ended {s : Text} (ended : Text.readWord s = none) : Scans lex (some s) []
  | word {s word rest : Text} {items : List τ} (read : Text.readWord s = some (word, rest))
      (later : Scans lex (lex word rest).2 items) : Scans lex (some s) ((lex word rest).1 :: items)

section Scan

variable {τ : Type} {lex : Text → Text → τ × Option Text} {items items' : List τ}

/-- A word takes from what is behind it. -/
def Shrinks (lex : Text → Text → τ × Option Text) : Prop :=
  ∀ word rest s, (lex word rest).2 = some s → s.length ≤ rest.length

theorem scans_scan (shrinks : Shrinks lex) {fuel : Nat} {s : Option Text}
    (enough : ∀ text, s = some text → text.length < fuel) : Scans lex s (scan lex fuel s) := by
  induction fuel generalizing s with
  | zero =>
      cases s with
      | none => exact .failed
      | some text => exact absurd (enough text rfl) (Nat.not_lt_zero _)
  | succ fuel ih =>
      cases s with
      | none => exact .failed
      | some text =>
          rw [scan]
          split
          · rename_i ended
            exact .ended ended
          · rename_i word rest read
            refine .word read (ih fun s same => ?_)
            have less := Text.readWord_length read
            have within := enough text rfl
            have shorter := shrinks word rest s same
            omega

/-- One word, when what it amounts to is known. -/
theorem Scans.cons {s word rest : Text} {item : τ} {stream : Option Text}
    (read : Text.readWord s = some (word, rest)) (lexed : lex word rest = (item, stream))
    (later : Scans lex stream items) : Scans lex (some s) (item :: items) := by
  have all : Scans lex (lex word rest).2 items →
      Scans lex (some s) ((lex word rest).1 :: items) := .word read
  rw [lexed] at all
  exact all later

theorem Scans.unique {s : Option Text} (scans : Scans lex s items) (scans' : Scans lex s items') :
    items = items' := by
  induction scans generalizing items' with
  | failed =>
      cases scans'
      rfl
  | ended ended =>
      cases scans' with
      | ended _ => rfl
      | word read later =>
          rw [ended] at read
          cases read
  | word read later ih =>
      cases scans' with
      | ended ended =>
          rw [read] at ended
          cases ended
      | word read' later' =>
          rw [read] at read'
          cases read'
          rw [ih later']

end Scan

end NetProg
