import NetProg.Lib.References
import NetProg.Lib.Script
import Mathlib.Algebra.Ring.Nat

/-!
# Reading HTML

The tokenizer of a browser, one character a step: text, tags with their attributes, comments and
the elements whose text holds no markup.  The tokens are characters and tags, with references not yet
replaced.  Text in which no markup begins stays text, and other text does not.
-/

namespace NetProg.Html

open References (Names)

structure Tag where
  closing : Bool
  name : List Char
  attributes : List (List Char × List Char)
  deriving DecidableEq, Repr

inductive Token where
  | char (c : Char)
  | tag (tag : Tag)
  deriving DecidableEq, Repr

/-- Where the tokenizer is.  Text and comments are kept with the last character first. -/
inductive State where
  | data
  | plaintext
  | raw (name text : List Char)
  | tagOpen
  | endTagOpen
  | declaration
  | declarationDash
  | bogusComment
  | comment (text : List Char)
  | tagName (tag : Tag)
  | beforeName (tag : Tag)
  | attributeName (tag : Tag) (name : List Char)
  | afterName (tag : Tag) (name : List Char)
  | beforeValue (tag : Tag) (name : List Char)
  | quoted (quote : Char) (tag : Tag) (name value : List Char)
  | unquoted (tag : Tag) (name value : List Char)
  deriving DecidableEq, Repr

def isSpace (c : Char) : Bool := "\t\n\x0c\r ".toList.contains c

/-- The attribute, unless there is one of that name. -/
def Tag.add (tag : Tag) (name value : List Char) : Tag :=
  if tag.attributes.any (·.1 == name) then tag
  else { tag with attributes := tag.attributes ++ [(name, value)] }

/-- The elements whose text holds no tags. -/
def rawNames : List (List Char) :=
  ["title", "textarea", "style", "xmp", "iframe", "noembed", "noframes", "noscript", "script"].map
    String.toList

/-- The end of a tag. -/
def emit (tag : Tag) : State × List Token :=
  let state :=
    if tag.closing then State.data
    else if tag.name = "plaintext".toList then .plaintext
    else if rawNames.contains tag.name then .raw tag.name []
    else .data
  (state, [.tag tag])

/-- The text in front of the end tag that `c` ends the name of. -/
def rawEnd (name text : List Char) (c : Char) : Option (List Char) :=
  let mark := ('<' :: '/' :: name).reverse
  if (isSpace c || c == '/' || c == '>') && (text.take mark.length).map Char.toLower == mark &&
      (name != "script".toList || (Script.scriptData .data (text.reverse ++ [c])).isSome) then
    some (text.drop mark.length).reverse
  else none

def stepData (c : Char) : State × List Token :=
  if c = '<' then (.tagOpen, []) else (.data, [.char c])

/-- A character between the attributes. -/
def stepName (tag : Tag) (c : Char) : State × List Token :=
  if isSpace c || c == '/' then (.beforeName tag, [])
  else if c = '>' then emit tag
  else (.attributeName tag [c.toLower], [])

def step : State → Char → State × List Token
  | .data, c => stepData c
  | .plaintext, c => (.plaintext, [.char c])
  | .raw name text, c =>
      match rawEnd name text c with
      | none => (.raw name (c :: text), [])
      | some before =>
          let next := stepName ⟨true, name, []⟩ c
          (next.1, before.map .char ++ next.2)
  | .tagOpen, c =>
      if c = '!' then (.declaration, [])
      else if c = '/' then (.endTagOpen, [])
      else if c.isAlpha then (.tagName ⟨false, [c.toLower], []⟩, [])
      else if c = '?' then (.bogusComment, [])
      else
        let next := stepData c
        (next.1, .char '<' :: next.2)
  | .endTagOpen, c =>
      if c.isAlpha then (.tagName ⟨true, [c.toLower], []⟩, [])
      else if c = '>' then (.data, [])
      else (.bogusComment, [])
  | .declaration, c =>
      if c = '-' then (.declarationDash, [])
      else if c = '>' then (.data, [])
      else (.bogusComment, [])
  | .declarationDash, c =>
      if c = '-' then (.comment [], [])
      else if c = '>' then (.data, [])
      else (.bogusComment, [])
  | .bogusComment, c => if c = '>' then (.data, []) else (.bogusComment, [])
  | .comment text, c =>
      if c = '>' ∧ (text = [] ∨ text = ['-'] ∨ ['-', '-'] <+: text ∨ ['!', '-', '-'] <+: text) then
        (.data, [])
      else (.comment (c :: text), [])
  | .tagName tag, c =>
      if isSpace c || c == '/' then (.beforeName tag, [])
      else if c = '>' then emit tag
      else (.tagName { tag with name := tag.name ++ [c.toLower] }, [])
  | .beforeName tag, c => stepName tag c
  | .attributeName tag name, c =>
      if isSpace c then (.afterName tag name, [])
      else if c = '/' then (.beforeName (tag.add name []), [])
      else if c = '>' then emit (tag.add name [])
      else if c = '=' then (.beforeValue tag name, [])
      else (.attributeName tag (name ++ [c.toLower]), [])
  | .afterName tag name, c =>
      if isSpace c then (.afterName tag name, [])
      else if c = '/' then (.beforeName (tag.add name []), [])
      else if c = '>' then emit (tag.add name [])
      else if c = '=' then (.beforeValue tag name, [])
      else (.attributeName (tag.add name []) [c.toLower], [])
  | .beforeValue tag name, c =>
      if isSpace c then (.beforeValue tag name, [])
      else if c = '"' ∨ c = '\'' then (.quoted c tag name [], [])
      else if c = '>' then emit (tag.add name [])
      else (.unquoted tag name [c], [])
  | .quoted quote tag name value, c =>
      if c = quote then (.beforeName (tag.add name value), [])
      else (.quoted quote tag name (value ++ [c]), [])
  | .unquoted tag name value, c =>
      if isSpace c then (.beforeName (tag.add name value), [])
      else if c = '>' then emit (tag.add name value)
      else (.unquoted tag name (value ++ [c]), [])

/-- The state behind a text. -/
def after (q : State) (s : List Char) : State := s.foldl (fun q c => (step q c).1) q

/-- The tokens of a text. -/
def tokens : State → List Char → List Token
  | _, [] => []
  | q, c :: s => (step q c).2 ++ tokens (step q c).1 s

/-- The start tags. -/
def elements (ts : List Token) : List Tag :=
  ts.filterMap fun
    | .tag tag => if tag.closing then none else some tag
    | .char _ => none

/-- The ids of the elements. -/
def ids (names : Names) (ts : List Token) : List (List Char) :=
  (elements ts).filterMap fun tag =>
    (tag.attributes.lookup "id".toList).map (References.value names)

/-- A character that begins markup behind `<`. -/
def markup (c : Char) : Bool := c.isAlpha || c == '/' || c == '!' || c == '?'

/-- No markup begins in the text. -/
def Flat (s : List Char) : Prop := ∀ c, markup c = true → ¬ ['<', c] <:+: s

/-- The characters of the source that a token takes at least. -/
def Token.size : Token → Nat
  | .char _ => 1
  | .tag t => t.name.length + (if t.closing then 3 else 2)

/-- What is left of a tag without its last character. -/
def Tag.begun (tag : Tag) : Nat := tag.name.length + (if tag.closing then 2 else 1)

/-- The characters that may still become tokens. -/
def weight : State → Nat
  | .raw _ text => text.length
  | .tagOpen => 1
  | .endTagOpen => 2
  | .tagName tag | .beforeName tag | .attributeName tag _ | .afterName tag _ | .beforeValue tag _
  | .quoted _ tag _ _ | .unquoted tag _ _ => tag.begun
  | _ => 0

/-- Inside a tag, behind the first letter of its name. -/
def InTag : State → Bool
  | .tagName _ | .beforeName _ | .attributeName _ _ | .afterName _ _ | .beforeValue _ _
  | .quoted _ _ _ _ | .unquoted _ _ _ => true
  | _ => false

/-- The size of what a step, or a text, leaves. -/
def size (r : State × List Token) : Nat := weight r.1 + (r.2.map Token.size).sum

section Runs

variable {q : State} {c : Char} {s t : List Char} {tag : Tag} {name value : List Char}

theorem after_append (q : State) (s t : List Char) : after q (s ++ t) = after (after q s) t :=
  List.foldl_append

theorem tokens_append (q : State) (s t : List Char) :
    tokens q (s ++ t) = tokens q s ++ tokens (after q s) t := by
  induction s generalizing q with
  | nil => rfl
  | cons c s ih =>
      rw [List.cons_append, tokens, tokens, ih, List.append_assoc]
      rfl

/-- The value of an attribute in quotes. -/
theorem quoted_value {quote : Char} (plain : quote ∉ s) (tag : Tag) (name value : List Char) :
    tokens (.quoted quote tag name value) s = [] ∧
      after (.quoted quote tag name value) s = .quoted quote tag name (value ++ s) := by
  induction s generalizing value with
  | nil => exact ⟨rfl, by rw [List.append_nil]; rfl⟩
  | cons c s ih =>
      have other : c ≠ quote := fun same => plain (same ▸ List.mem_cons_self)
      have next : step (.quoted quote tag name value) c =
          (.quoted quote tag name (value ++ [c]), []) := if_neg other
      obtain ⟨silent, state⟩ := ih (fun member => plain (List.mem_cons_of_mem c member)) (value ++ [c])
      have following : after (.quoted quote tag name value) (c :: s) =
          after (step (.quoted quote tag name value) c).1 s := rfl
      rw [tokens, following, next, silent, state, List.append_assoc]
      exact ⟨rfl, rfl⟩

theorem elements_append (ts us : List Token) : elements (ts ++ us) = elements ts ++ elements us :=
  List.filterMap_append

theorem elements_chars (s : List Char) : elements (s.map .char) = [] := by
  induction s with
  | nil => rfl
  | cons c s ih => exact ih

theorem begun_add (tag : Tag) (name value : List Char) : (tag.add name value).begun = tag.begun := by
  unfold Tag.add
  split <;> rfl

theorem size_emit (tag : Tag) : size (emit tag) = tag.begun + 1 := by
  have light : weight (emit tag).1 = 0 := by
    simp only [emit]
    split
    · rfl
    · split
      · rfl
      · split <;> rfl
  rw [size, light]
  simp only [emit, List.map_singleton, List.sum_singleton, Token.size, Tag.begun]
  split <;> omega

/-- What a step inside a tag does: it stays there, or ends the tag. -/
def StaysInTag (q : State) (r : State × List Token) : Prop :=
  (∃ q', r = (q', []) ∧ InTag q' = true ∧ weight q' ≤ weight q + 1) ∨
    ∃ tag, r = emit tag ∧ tag.begun = weight q

theorem StaysInTag.stays {q' : State} (inside : InTag q' = true) (weighs : weight q' ≤ weight q + 1) :
    StaysInTag q (q', []) :=
  .inl ⟨q', rfl, inside, weighs⟩

theorem StaysInTag.ends (weighs : tag.begun = weight q) : StaysInTag q (emit tag) :=
  .inr ⟨tag, rfl, weighs⟩

/-- The state with another tag of the same name. -/
theorem begun_le (tag : Tag) (name value : List Char) : (tag.add name value).begun ≤ tag.begun + 1 := by
  rw [begun_add]
  exact Nat.le_succ _

theorem stepName_cases (tag : Tag) (c : Char) : StaysInTag (.beforeName tag) (stepName tag c) := by
  unfold stepName
  split
  · exact .stays rfl (Nat.le_succ _)
  · split
    · exact .ends rfl
    · exact .stays rfl (Nat.le_succ _)

theorem step_inTag (inside : InTag q = true) (c : Char) : StaysInTag q (step q c) := by
  cases q with
  | tagName tag =>
      simp only [step]
      split
      · exact .stays rfl (Nat.le_succ _)
      · split
        · exact .ends rfl
        · apply StaysInTag.stays rfl
          simp only [weight, Tag.begun, List.length_append, List.length_singleton]
          omega
  | beforeName tag => exact stepName_cases tag c
  | attributeName tag name | afterName tag name =>
      simp only [step]
      split
      · exact .stays rfl (Nat.le_succ _)
      · split
        · exact .stays rfl (begun_le _ _ _)
        · split
          · exact .ends (begun_add _ _ _)
          · split
            · exact .stays rfl (Nat.le_succ _)
            · first | exact .stays rfl (Nat.le_succ _) | exact .stays rfl (begun_le _ _ _)
  | beforeValue tag name =>
      simp only [step]
      split
      · exact .stays rfl (Nat.le_succ _)
      · split
        · exact .stays rfl (Nat.le_succ _)
        · split
          · exact .ends (begun_add _ _ _)
          · exact .stays rfl (Nat.le_succ _)
  | quoted quote tag name value =>
      simp only [step]
      split
      · exact .stays rfl (begun_le _ _ _)
      · exact .stays rfl (Nat.le_succ _)
  | unquoted tag name value =>
      simp only [step]
      split
      · exact .stays rfl (begun_le _ _ _)
      · split
        · exact .ends (begun_add _ _ _)
        · exact .stays rfl (Nat.le_succ _)
  | _ => cases inside

theorem StaysInTag.size_le {r : State × List Token} (stays : StaysInTag q r) :
    size r ≤ weight q + 1 := by
  rcases stays with ⟨q', rfl, -, weighs⟩ | ⟨tag, rfl, weighs⟩
  · exact weighs
  · exact ((size_emit tag).trans (congrArg (· + 1) weighs)).le

theorem size_stepData (c : Char) : size (stepData c) = 1 := by
  unfold stepData
  split
  · rfl
  · simp only [size, weight, Token.size, List.map_singleton, List.sum_singleton, Nat.zero_add]

theorem sum_chars (s : List Char) : ((s.map Token.char).map Token.size).sum = s.length := by
  induction s with
  | nil => rfl
  | cons c s ih =>
      rw [List.map_cons, List.map_cons, List.sum_cons, ih, List.length_cons, Nat.add_comm, Token.size]

/-- The mark of an end tag is the end of the text. -/
theorem length_rawEnd {text before : List Char} (found : rawEnd name text c = some before) :
    before.length + (name.length + 2) = text.length := by
  unfold rawEnd at found
  extract_lets mark at found
  split at found
  · rename_i ends
    cases found
    have same : (text.take mark.length).map Char.toLower = mark := by
      simp only [Bool.and_eq_true, beq_iff_eq] at ends
      exact ends.1.2
    have whole := congrArg List.length same
    have long : mark.length = name.length + 2 := by simp [mark]
    rw [List.length_map, List.length_take] at whole
    rw [List.length_reverse, List.length_drop]
    omega
  · cases found

/-- A step makes no more of the source than there is. -/
theorem size_step (q : State) (c : Char) : size (step q c) ≤ weight q + 1 := by
  cases q with
  | data => exact (size_stepData c).le
  | plaintext => simp only [step, size, weight, Token.size, List.map_singleton, List.sum_singleton, le_refl]
  | raw name text =>
      simp only [step]
      cases found : rawEnd name text c with
      | none => exact Nat.le_refl _
      | some before =>
          have whole := length_rawEnd found
          have next := (stepName_cases ⟨true, name, []⟩ c).size_le
          simp only [size, List.map_append, List.sum_append, sum_chars] at next ⊢
          simp only [weight, Tag.begun, if_true] at next ⊢
          omega
  | tagOpen =>
      have next := size_stepData c
      simp only [step]
      split
      · exact Nat.zero_le _
      · split
        · exact Nat.le_refl _
        · split
          · exact Nat.le_refl _
          · split
            · exact Nat.zero_le _
            · have one : weight .tagOpen = 1 := rfl
              simp only [size, List.map_cons, List.sum_cons, Token.size] at next ⊢
              omega
  | endTagOpen =>
      simp only [step]
      split
      · exact Nat.le_refl _
      · split <;> exact Nat.zero_le _
  | declaration | declarationDash =>
      simp only [step]
      split
      · exact Nat.zero_le _
      · split <;> exact Nat.zero_le _
  | bogusComment | comment text =>
      simp only [step]
      split <;> exact Nat.zero_le _
  | _ => exact (step_inTag rfl c).size_le

/-- A text makes no more tokens than there is source for them. -/
theorem size_tokens (q : State) (s : List Char) :
    size (after q s, tokens q s) ≤ weight q + s.length := by
  induction s generalizing q with
  | nil => exact Nat.le_refl _
  | cons c s ih =>
      have first := size_step q c
      have rest := ih (step q c).1
      simp only [size, tokens, List.map_append, List.sum_append, List.length_cons] at first rest ⊢
      have same : after q (c :: s) = after (step q c).1 s := rfl
      rw [same]
      omega

/-- Inside a tag, the tag is the next token. -/
theorem tokens_inTag (inside : InTag q = true) (s : List Char) :
    tokens q s = [] ∨ ∃ tag ts, tokens q s = .tag tag :: ts := by
  induction s generalizing q with
  | nil => exact .inl rfl
  | cons c s ih =>
      rw [tokens]
      rcases step_inTag inside c with ⟨q', same, still, -⟩ | ⟨tag, same, -⟩
      · rw [same]
        exact ih still
      · rw [same]
        exact .inr ⟨tag, _, rfl⟩

end Runs

section Text

variable {names : Names} {c : Char} {s t raw expected : List Char} {tag : Tag}

theorem Flat.tail (flat : Flat (c :: s)) : Flat s :=
  fun d begins within => flat d begins (within.trans (List.suffix_cons c s).isInfix)

theorem Flat.head {d : Char} (flat : Flat ('<' :: d :: s)) : markup d = false := by
  cases begins : markup d with
  | false => rfl
  | true => exact absurd (List.prefix_append ['<', d] s).isInfix (flat d begins)

theorem step_tagOpen (other : markup c = false) :
    step .tagOpen c = ((stepData c).1, .char '<' :: (stepData c).2) := by
  simp only [markup, Bool.or_eq_false_iff, beq_eq_false_iff_ne] at other
  obtain ⟨⟨⟨letter, slash⟩, bang⟩, question⟩ := other
  simp only [step, letter, if_neg bang, if_neg slash, if_neg question, Bool.false_eq_true, if_false]

/-- A text without markup, up to the next `<`. -/
theorem flat_tokens (flat : Flat s) :
    tokens .data (s ++ ['<']) = s.map .char ∧ after .data (s ++ ['<']) = .tagOpen := by
  induction s with
  | nil => exact ⟨rfl, rfl⟩
  | cons c s ih =>
      obtain ⟨same, state⟩ := ih flat.tail
      have following : after .data (c :: (s ++ ['<'])) = after (stepData c).1 (s ++ ['<']) := rfl
      rw [List.cons_append, tokens, following, List.map_cons]
      by_cases angle : c = '<'
      · subst angle
        -- behind the `<` stands another one, or a character that begins no markup
        have held : ∀ u, (∀ d ∈ u.head?, markup d = false) → u ≠ [] →
            tokens .tagOpen u = .char '<' :: tokens .data u ∧ after .tagOpen u = after .data u := by
          intro u first nonempty
          cases u with
          | nil => exact absurd rfl nonempty
          | cons d u =>
              have other := step_tagOpen (first d rfl)
              have next : after .tagOpen (d :: u) = after (step .tagOpen d).1 u := rfl
              have next' : after .data (d :: u) = after (stepData d).1 u := rfl
              rw [tokens, tokens, next, next', other]
              exact ⟨rfl, rfl⟩
        have opened := held (s ++ ['<']) (by
          intro d first
          cases s with
          | nil =>
              cases first
              rfl
          | cons e s =>
              cases first
              exact flat.head) (by simp)
        rw [← same]
        exact ⟨opened.1, opened.2.trans state⟩
      · have plain : stepData c = (.data, [.char c]) := if_neg angle
        have first : step .data c = (.data, [.char c]) := plain
        rw [first, plain, ← same]
        exact ⟨rfl, state⟩

/-- Where markup begins for the first time. -/
theorem exists_markup (notFlat : ¬ Flat s) :
    ∃ a d b, s = a ++ '<' :: d :: b ∧ Flat a ∧ markup d = true := by
  induction s with
  | nil =>
      apply absurd _ notFlat
      intro c begins within
      cases List.infix_nil.mp within
  | cons c s ih =>
      by_cases here : ∃ d b, c = '<' ∧ s = d :: b ∧ markup d = true
      · obtain ⟨d, b, rfl, rfl, begins⟩ := here
        refine ⟨[], d, b, rfl, ?_, begins⟩
        intro c begins within
        cases List.infix_nil.mp within
      · have later : ¬ Flat s := by
          intro flat
          apply notFlat
          intro d begins within
          rcases List.infix_cons_iff.mp within with first | inner
          · obtain ⟨angle, second⟩ := List.cons_prefix_cons.mp first
            obtain ⟨b, rfl⟩ := second
            exact here ⟨d, b, angle.symm, rfl, begins⟩
          · exact flat d begins inner
        obtain ⟨a, d, b, rfl, flat, begins⟩ := ih later
        refine ⟨c :: a, d, b, rfl, ?_, begins⟩
        intro e opens within
        rcases List.infix_cons_iff.mp within with first | inner
        · obtain ⟨angle, second⟩ := List.cons_prefix_cons.mp first
          obtain ⟨rest, rfl⟩ := second
          exact here ⟨e, _, angle.symm, rfl, opens⟩
        · exact flat e opens inner

/-- What begins behind `<`. -/
theorem step_markup (begins : markup c = true) :
    step .tagOpen c = (.declaration, []) ∨ step .tagOpen c = (.bogusComment, []) ∨
      step .tagOpen c = (.endTagOpen, []) ∨ ∃ tag, step .tagOpen c = (.tagName tag, []) := by
  simp only [markup, Bool.or_eq_true, beq_iff_eq] at begins
  simp only [step]
  split
  · exact .inl rfl
  · rename_i bang
    split
    · exact .inr (.inr (.inl rfl))
    · rename_i slash
      split
      · exact .inr (.inr (.inr ⟨_, rfl⟩))
      · rename_i letter
        split
        · exact .inr (.inl rfl)
        · rename_i question
          rcases begins with ((same | same) | same) | same
          · exact absurd same letter
          · exact absurd same slash
          · exact absurd same bang
          · exact absurd same question

/-- The characters in front of the first tag. -/
theorem chars_eq {tag' : Tag} {ts : List Token}
    (same : s.map Token.char ++ .tag tag' :: ts = raw.map .char ++ [.tag tag]) : s = raw := by
  induction s generalizing raw with
  | nil =>
      cases raw with
      | nil => rfl
      | cons c raw => cases (List.cons.inj same).1
  | cons c s ih =>
      cases raw with
      | nil => cases (List.cons.inj same).1
      | cons d raw =>
          obtain ⟨first, rest⟩ := List.cons.inj same
          rw [Token.char.inj first, ih rest]

theorem chars_inTag {q : State} (inside : InTag q = true)
    (same : s.map Token.char ++ tokens q t = raw.map .char ++ [.tag tag]) : s = raw := by
  rcases tokens_inTag inside t with none | ⟨tag', ts, first⟩
  · rw [none, List.append_nil] at same
    have member : Token.tag tag ∈ s.map Token.char := by
      rw [same]
      exact List.mem_append_right _ (List.mem_singleton_self _)
    obtain ⟨c, -, never⟩ := List.mem_map.mp member
    cases never
  · rw [first] at same
    exact chars_eq same

/-- A text that becomes as many characters, and then an end tag, holds no markup. -/
theorem flat_of_tokens (nonempty : t ≠ []) (whole : (Token.tag tag).size = t.length)
    (read : tokens .data (s ++ t) = raw.map .char ++ [.tag tag]) (long : s.length ≤ raw.length) :
    Flat s := by
  by_contra notFlat
  obtain ⟨a, d, b, rfl, flat, begins⟩ := exists_markup notFlat
  obtain ⟨text, opened⟩ := flat_tokens flat
  have split : a ++ '<' :: d :: b ++ t = (a ++ ['<']) ++ (d :: (b ++ t)) := by simp
  rw [split, tokens_append, text, opened, tokens] at read
  simp only [List.length_append, List.length_cons] at long
  -- what begins there is lost, or a tag comes before there are enough characters
  have lost : ∀ {q u}, a.map Token.char ++ tokens q u = raw.map .char ++ [.tag tag] →
      weight q = 0 → u.length ≤ b.length + t.length → False := by
    intro q u same light short
    have least := size_tokens q u
    have sizes := congrArg (fun ts => (ts.map Token.size).sum) same
    simp only [List.map_append, List.sum_append, sum_chars, List.map_singleton, List.sum_singleton,
      whole] at sizes
    simp only [size] at least
    omega
  have inside : ∀ {q u}, a.map Token.char ++ tokens q u = raw.map .char ++ [.tag tag] →
      InTag q = true → False := by
    intro q u same inTag
    rw [chars_inTag inTag same] at long
    omega
  have short : (b ++ t).length = b.length + t.length := List.length_append
  rcases step_markup begins with next | next | next | ⟨tag', next⟩
  · rw [next] at read
    exact lost read rfl short.le
  · rw [next] at read
    exact lost read rfl short.le
  · rw [next] at read
    cases rest : b ++ t with
    | nil => exact nonempty (List.append_eq_nil_iff.mp rest).2
    | cons e u =>
        rw [rest, List.length_cons] at short
        rw [rest] at read
        by_cases letter : e.isAlpha = true
        · have named : step .endTagOpen e = (.tagName ⟨true, [e.toLower], []⟩, []) := if_pos letter
          rw [List.nil_append, tokens, named] at read
          exact inside read rfl
        · by_cases ends : e = '>'
          · have gone : step .endTagOpen e = (.data, []) := by
              simp only [step, if_neg letter, if_pos ends]
            rw [List.nil_append, tokens, gone] at read
            exact lost read rfl (by omega)
          · have gone : step .endTagOpen e = (.bogusComment, []) := by
              simp only [step, if_neg letter, if_neg ends]
            rw [List.nil_append, tokens, gone] at read
            exact lost read rfl (by omega)
  · rw [next] at read
    exact inside read rfl

end Text

/-- The end tag of an element. -/
def closing (name : List Char) : List Char := '<' :: '/' :: (name ++ ['>'])

/-- The end tag is read as one. -/
def Closes (name : List Char) : Prop :=
  tokens .tagOpen ('/' :: (name ++ ['>'])) = [.tag ⟨true, name, []⟩] ∧
    after .tagOpen ('/' :: (name ++ ['>'])) = .data

/-- The text of an element is read as these characters, up to its end tag. -/
def Reads (names : Names) (name s expected : List Char) : Prop :=
  ∃ raw, tokens .data (s ++ closing name) = raw.map .char ++ [.tag ⟨true, name, []⟩] ∧
    after .data (s ++ closing name) = .data ∧ References.text names raw = expected

section Reads

variable {names : Names} {name s expected : List Char}

theorem tokens_flat (closes : Closes name) (flat : Flat s) :
    tokens .data (s ++ closing name) = s.map .char ++ [.tag ⟨true, name, []⟩] ∧
      after .data (s ++ closing name) = .data := by
  have split : s ++ closing name = (s ++ ['<']) ++ '/' :: (name ++ ['>']) := by simp [closing]
  obtain ⟨text, opened⟩ := flat_tokens flat
  rw [split, tokens_append, after_append (s := s ++ ['<']), text, opened, closes.1]
  exact ⟨rfl, closes.2⟩

theorem size_closing (name : List Char) :
    (Token.tag ⟨true, name, []⟩).size = (closing name).length := by
  simp [Token.size, closing]

/-- What is read is no longer than what is written. -/
theorem Reads.length_le (reads : Reads names name s expected) : expected.length ≤ s.length := by
  obtain ⟨raw, read, -, rfl⟩ := reads
  have least := size_tokens .data (s ++ closing name)
  have short := References.length_text names raw
  rw [read] at least
  simp only [size, List.map_append, List.sum_append, sum_chars, List.map_singleton,
    List.sum_singleton, size_closing, List.length_append] at least
  have zero : weight .data = 0 := rfl
  omega

/-- Literal text without markup is read as it is written. -/
theorem reads_self (closes : Closes name) (flat : Flat s) (literal : References.Literal names s) :
    Reads names name s s := by
  obtain ⟨read, state⟩ := tokens_flat closes flat
  exact ⟨s, read, state, literal.text_eq⟩

theorem flat_newlines (flat : Flat s) : Flat (References.newlines s) := by
  fun_induction References.newlines s with
  | case1 => exact flat
  | case2 s ih =>
      intro c begins within
      rcases List.infix_cons_iff.mp within with first | inner
      · cases (List.cons_prefix_cons.mp first).1
      · exact ih flat.tail.tail c begins inner
  | case3 c s other ih =>
      intro d begins within
      rcases List.infix_cons_iff.mp within with first | inner
      · obtain ⟨angle, second⟩ := List.cons_prefix_cons.mp first
        have opens : c = '<' := by
          split at angle
          · cases angle
          · exact angle.symm
        subst opens
        cases s with
        | nil => cases List.prefix_nil.mp second
        | cons e s =>
            have same : d = e := by
              unfold References.newlines at second
              split at second
              · rename_i never
                cases never
              · rename_i rest
                cases rest
                cases (List.cons_prefix_cons.mp second).1
                cases begins
              · rename_i rest
                cases rest
                have first := (List.cons_prefix_cons.mp second).1
                split at first
                · subst first
                  cases begins
                · exact first
            subst same
            exact flat d begins (List.prefix_append ['<', d] s).isInfix
      · exact ih flat.tail d begins inner

/-- Text that is read without losing a character is read as literal text without markup. -/
theorem Reads.literal (closes : Closes name) (reads : Reads names name s expected)
    (long : s.length ≤ expected.length) : Flat expected ∧ References.Literal names expected := by
  obtain ⟨raw, read, -, rfl⟩ := reads
  have short := References.length_text names raw
  have flat : Flat s := flat_of_tokens (by simp [closing]) (size_closing name) read (long.trans short)
  have written : s = raw := chars_eq ((tokens_flat closes flat).1.symm.trans read)
  subst written
  obtain ⟨same, literal⟩ := References.literal_of_length long
  rw [same]
  exact ⟨flat_newlines flat, literal⟩

end Reads

end NetProg.Html
