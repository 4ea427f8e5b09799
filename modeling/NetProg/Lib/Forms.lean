import Mathlib.Data.Bool.AllAny
import NetProg.Lib.Html

/-!
# Forms

The controls that a browser finds between the tags of a page, and the query that it makes of what is
filled in.  A select offers the values of its options, and an option without a value its text.  The
controls stand side by side, and none has an empty name.
-/

namespace NetProg.Forms

open Html (State Tag Token)
open References (Names)

/-- What an option offers, with references not yet replaced. -/
inductive Offer where
  | value (raw : List Char)
  | content (raw : List Char)
  deriving DecidableEq, Repr

inductive Control where
  | select (name : List Char) (offers : List Offer)
  | text (name : List Char)
  deriving DecidableEq, Repr

/-- What the reader of a page is inside of. -/
inductive Place where
  | outside
  | select (name : List Char) (offers : List Offer)
  | option (name : List Char) (offers : List Offer) (offer : Offer)
  deriving DecidableEq, Repr

def attributeOf (tag : Tag) (name : String) : Option (List Char) := tag.attributes.lookup name.toList

/-- What an option with this tag offers, so far. -/
def begun (tag : Tag) : Offer := ((attributeOf tag "value").map .value).getD (.content [])

/-- The place behind a token, and the control that ends with it. -/
def step : Place → Token → Place × List Control
  | .outside, .char _ => (.outside, [])
  | .outside, .tag tag =>
      if tag.closing then (.outside, [])
      else if tag.name = "select".toList then (.select ((attributeOf tag "name").getD []) [], [])
      else if tag.name = "input".toList ∧ attributeOf tag "type" = some "text".toList then
        (.outside, [.text ((attributeOf tag "name").getD [])])
      else (.outside, [])
  | .select name offers, .char _ => (.select name offers, [])
  | .select name offers, .tag tag =>
      if tag.closing then
        if tag.name = "select".toList then (.outside, [.select name offers])
        else (.select name offers, [])
      else if tag.name = "option".toList then (.option name offers (begun tag), [])
      else (.select name offers, [])
  | .option name offers (.content raw), .char c => (.option name offers (.content (raw ++ [c])), [])
  | .option name offers (.value raw), .char _ => (.option name offers (.value raw), [])
  | .option name offers offer, .tag tag =>
      if tag.closing then
        if tag.name = "option".toList then (.select name (offers ++ [offer]), [])
        else if tag.name = "select".toList then (.outside, [.select name (offers ++ [offer])])
        else (.option name offers offer, [])
      else if tag.name = "option".toList then (.option name (offers ++ [offer]) (begun tag), [])
      else (.option name offers offer, [])

/-- The place behind some tokens, and the controls in them. -/
def run : Place → List Token → Place × List Control
  | place, [] => (place, [])
  | place, token :: tokens =>
      let next := step place token
      let rest := run next.1 tokens
      (rest.1, next.2 ++ rest.2)

/-- The controls of a page. -/
def controls (page : List Char) : List Control := (run .outside (Html.tokens .data page)).2

/-- An attribute of the form of a page. -/
def formAttribute (names : Names) (page : List Char) (name : String) : Option (List Char) := do
  let form ← (Html.elements (Html.tokens .data page)).find? (·.name == "form".toList)
  (attributeOf form name).map (References.value names)

/-- Text without the white space around it, and with one blank for any within. -/
def strip (s : List Char) : List Char :=
  [' '].intercalate ((s.splitOnP Html.isSpace).filter fun word => !word.isEmpty)

def Offer.text (names : Names) : Offer → List Char
  | .value raw => References.value names raw
  | .content raw => strip (References.text names raw)

/-- A name with what can be filled in under it. -/
def Control.Allows (names : Names) : Control → List Char × List Char → Prop
  | .select name offers, entry =>
      entry.1 = References.value names name ∧ ∃ offer ∈ offers, entry.2 = offer.text names
  | .text name, entry => entry.1 = References.value names name ∧ '\n' ∉ entry.2 ∧ '\r' ∉ entry.2

/-- The controls of the page are filled in. -/
def Fills (names : Names) (page : List Char) (entries : List (List Char × List Char)) : Prop :=
  List.Forall₂ (Control.Allows names) (controls page) entries

/-- An encoding that agrees with ASCII. -/
structure Charset where
  encode : Char → List UInt8
  ascii : ∀ c, c.toNat < 128 → encode c = [UInt8.ofNat c.toNat]
  encodes : ∀ c, encode c ≠ []

def utf8 : Charset where
  encode := String.utf8EncodeChar
  ascii _ small := if_pos (Nat.le_of_lt_succ small)
  encodes c := by
    have long := String.length_utf8EncodeChar c
    intro none
    rw [none] at long
    exact absurd long c.utf8Size_pos.ne

/-- The characters that a query holds as they are. -/
def unescaped (c : Char) : Bool := c.isAlphanum || "*-._".toList.contains c

def hexDigit (n : Nat) : Char := n.digitChar.toUpper

def escapeByte (b : UInt8) : List Char :=
  if b = 0x20 then ['+']
  else if unescaped (Char.ofNat b.toNat) then [Char.ofNat b.toNat]
  else ['%', hexDigit (b.toNat / 16), hexDigit (b.toNat % 16)]

/-- A name or a value in a query. -/
def escape (charset : Charset) (s : List Char) : List Char :=
  (s.flatMap charset.encode).flatMap escapeByte

/-- The query of a form. -/
def query (charset : Charset) (entries : List (List Char × List Char)) : List Char :=
  ['&'].intercalate (entries.map fun entry => escape charset entry.1 ++ '=' :: escape charset entry.2)

/-- The request line for a form in the top directory. -/
def requestLine (names : Names) (charset : Charset) (page : List Char)
    (entries : List (List Char × List Char)) : Option (List Char) := do
  let method ← formAttribute names page "method"
  let action ← formAttribute names page "action"
  some (method ++ " /".toList ++ action ++ '?' :: query charset entries ++ " HTTP/1.1\r\n".toList)

section Escape

variable {charset : Charset} {c : Char} {s : List Char}

theorem unescaped_hexDigit : ∀ n < 16, unescaped (hexDigit n) = true := by decide

/-- What a query can hold in a name or a value. -/
theorem mem_escapeByte {b : UInt8} (member : c ∈ escapeByte b) :
    unescaped c = true ∨ c = '+' ∨ c = '%' := by
  have high : b.toNat / 16 < 16 := by
    have := b.toNat_lt
    omega
  unfold escapeByte at member
  split at member
  · exact .inr (.inl (List.mem_singleton.mp member))
  · split at member
    · rename_i kept
      rw [List.mem_singleton.mp member]
      exact .inl kept
    · simp only [List.mem_cons, List.not_mem_nil, or_false] at member
      rcases member with rfl | rfl | rfl
      · exact .inr (.inr rfl)
      · exact .inl (unescaped_hexDigit _ high)
      · exact .inl (unescaped_hexDigit _ (Nat.mod_lt _ (by decide)))

theorem mem_escape (member : c ∈ escape charset s) : unescaped c = true ∨ c = '+' ∨ c = '%' := by
  obtain ⟨b, -, inside⟩ := List.mem_flatMap.mp member
  exact mem_escapeByte inside

/-- A query's own signs are not in what it holds. -/
theorem not_mem_escape (escaped : unescaped c = false) (plus : c ≠ '+') (percent : c ≠ '%') :
    c ∉ escape charset s := by
  intro member
  rcases mem_escape member with kept | same | same
  · exact Bool.false_ne_true (escaped.symm.trans kept)
  · exact plus same
  · exact percent same

theorem escape_cons (charset : Charset) (c : Char) (s : List Char) :
    escape charset (c :: s) = (charset.encode c).flatMap escapeByte ++ escape charset s := by
  rw [escape, List.flatMap_cons, List.flatMap_append]
  rfl

theorem unescaped_ascii (kept : unescaped c = true) : c.toNat < 128 := by
  change (((decide (c.val ≥ 'A'.val ∧ c.val ≤ 'Z'.val) ||
    (c.val ≥ 'a'.val && c.val ≤ 'z'.val)) || (c.val ≥ '0'.val && c.val ≤ '9'.val)) ||
      "*-._".toList.contains c) = true at kept
  simp only [Bool.or_eq_true, Bool.and_eq_true, decide_eq_true_eq, List.contains_iff_mem] at kept
  rcases kept with (((⟨-, high⟩ | ⟨-, high⟩) | ⟨-, high⟩) | sign)
  · exact Nat.lt_of_le_of_lt (UInt32.le_iff_toNat_le.mp high) (by decide)
  · exact Nat.lt_of_le_of_lt (UInt32.le_iff_toNat_le.mp high) (by decide)
  · exact Nat.lt_of_le_of_lt (UInt32.le_iff_toNat_le.mp high) (by decide)
  · have signs : ∀ c ∈ "*-._".toList, c.toNat < 128 :=
      List.all_iff_forall_prop.mp (by decide)
    exact signs c sign

/-- A character that a query holds as it is. -/
theorem escape_unescaped (kept : unescaped c = true) (s : List Char) :
    escape charset (c :: s) = c :: escape charset s := by
  have small := unescaped_ascii kept
  have same : Char.ofNat (UInt8.ofNat c.toNat).toNat = c := by
    rw [UInt8.toNat_ofNat_of_lt' (Nat.lt_trans small (by decide))]
    exact Char.ofNat_toNat c
  have noBlank : UInt8.ofNat c.toNat ≠ 0x20 := by
    intro blank
    rw [blank] at same
    rw [← same] at kept
    exact absurd kept (by decide)
  rw [escape_cons, charset.ascii c small, List.flatMap_singleton, escapeByte, if_neg noBlank, same,
    if_pos kept]
  rfl

theorem escape_sign (charset : Charset) (s : List Char) :
    escape charset ('+' :: s) = "%2B".toList ++ escape charset s ∧
      escape charset ('%' :: s) = "%25".toList ++ escape charset s := by
  rw [escape_cons, escape_cons, charset.ascii '+' (by decide), charset.ascii '%' (by decide)]
  exact ⟨rfl, rfl⟩

/-- What is written with the characters of a query grows by its signs. -/
theorem length_escape (known : ∀ c ∈ s, unescaped c = true ∨ c = '+' ∨ c = '%') :
    (escape charset s).length = s.length + 2 * s.countP (fun c => !unescaped c) := by
  induction s with
  | nil => rfl
  | cons c s ih =>
      obtain ⟨first, later⟩ := List.forall_mem_cons.mp known
      rcases first with kept | rfl | rfl
      · rw [escape_unescaped kept, List.length_cons, ih later, List.length_cons,
          List.countP_cons_of_neg (by simp [kept])]
        omega
      · rw [(escape_sign charset s).1, List.length_append, ih later, List.length_cons,
          List.countP_cons_of_pos (by decide)]
        have three : "%2B".toList.length = 3 := by decide
        omega
      · rw [(escape_sign charset s).2, List.length_append, ih later, List.length_cons,
          List.countP_cons_of_pos (by decide)]
        have three : "%25".toList.length = 3 := by decide
        omega

/-- What a query holds as it is. -/
theorem escape_eq_iff : escape charset s = s ↔ ∀ c ∈ s, unescaped c = true := by
  constructor
  · intro same c member
    have known : ∀ c ∈ s, unescaped c = true ∨ c = '+' ∨ c = '%' := by
      intro c inside
      rw [← same] at inside
      exact mem_escape inside
    have grown : (escape charset s).length = s.length + 2 * s.countP (fun c => !unescaped c) :=
      length_escape known
    rw [same] at grown
    have none : s.countP (fun c => !unescaped c) = 0 := by omega
    simpa using List.countP_eq_zero.mp none c member
  · intro kept
    induction s with
    | nil => rfl
    | cons c s ih =>
        obtain ⟨first, later⟩ := List.forall_mem_cons.mp kept
        rw [escape_unescaped first, ih later]

theorem escapeByte_ne_nil (b : UInt8) : escapeByte b ≠ [] := by
  unfold escapeByte
  split
  · exact List.cons_ne_nil _ _
  · split <;> exact List.cons_ne_nil _ _

theorem escape_eq_nil_iff : escape charset s = [] ↔ s = [] := by
  constructor
  · intro none
    cases s with
    | nil => rfl
    | cons c s =>
        rw [escape_cons] at none
        obtain ⟨b, bytes, encoded⟩ := List.exists_cons_of_ne_nil (charset.encodes c)
        rw [encoded, List.flatMap_cons] at none
        have first := (List.append_eq_nil_iff.mp (List.append_eq_nil_iff.mp none).1).1
        exact absurd first (escapeByte_ne_nil b)
  · rintro rfl
    rfl

theorem mem_of_mem_intercalate {sign : List Char} {fields : List (List Char)}
    (member : c ∈ sign.intercalate fields) : c ∈ sign ∨ ∃ field ∈ fields, c ∈ field := by
  induction fields with
  | nil => simp at member
  | cons field fields ih =>
      cases fields with
      | nil => exact .inr ⟨field, List.mem_cons_self, by simpa using member⟩
      | cons field' fields =>
          rw [List.intercalate_cons_cons, List.mem_append, List.mem_append] at member
          rcases member with (here | here) | later
          · exact .inr ⟨field, List.mem_cons_self, here⟩
          · exact .inl here
          · rcases ih later with here | ⟨other, inside, here⟩
            · exact .inl here
            · exact .inr ⟨other, List.mem_cons_of_mem _ inside, here⟩

theorem mem_query {entries : List (List Char × List Char)} (member : c ∈ query charset entries) :
    unescaped c = true ∨ c ∈ "+%=&".toList := by
  have escaped : ∀ s, c ∈ escape charset s → unescaped c = true ∨ c ∈ "+%=&".toList := by
    intro s inside
    rcases mem_escape inside with kept | rfl | rfl
    · exact .inl kept
    · exact .inr (by decide)
    · exact .inr (by decide)
  rcases mem_of_mem_intercalate member with sign | ⟨field, inside, here⟩
  · rw [List.mem_singleton.mp sign]
    exact .inr (by decide)
  · obtain ⟨entry, -, rfl⟩ := List.mem_map.mp inside
    rcases List.mem_append.mp here with name | value
    · exact escaped _ name
    · rcases List.mem_cons.mp value with rfl | value
      · exact .inr (by decide)
      · exact escaped _ value

end Escape

section Reading

variable {s t : List Char} {start next last : State × Place} {place : Place}
  {found found' : List Control} {name value label : List Char} {offers : List Offer}

theorem run_append (place : Place) (ts us : List Token) :
    run place (ts ++ us) =
      ((run (run place ts).1 us).1, (run place ts).2 ++ (run (run place ts).1 us).2) := by
  induction ts generalizing place with
  | nil => rfl
  | cons t ts ih => simp [run, ih]

/-- What is found in a text, and where the reader is in front of it and behind it. -/
structure Gives (start : State × Place) (s : List Char) (last : State × Place)
    (found : List Control) : Prop where
  state : Html.after start.1 s = last.1
  run : run start.2 (Html.tokens start.1 s) = (last.2, found)

instance : Decidable (Gives start s last found) :=
  decidable_of_iff (Html.after start.1 s = last.1 ∧ run start.2 (Html.tokens start.1 s) = (last.2, found))
    ⟨fun both => ⟨both.1, both.2⟩, fun gives => ⟨gives.state, gives.run⟩⟩

theorem Gives.append (first : Gives start s next found) (second : Gives next t last found') :
    Gives start (s ++ t) last (found ++ found') := by
  constructor
  · rw [Html.after_append, first.state, second.state]
  · rw [Html.tokens_append, run_append, first.run, first.state, second.run]

theorem Gives.flatMap {α : Type} {text : α → List Char} {finds : α → List Control} {items : List α}
    (each : ∀ item ∈ items, Gives start (text item) start (finds item)) :
    Gives start (items.flatMap text) start (items.flatMap finds) := by
  induction items with
  | nil => exact ⟨rfl, rfl⟩
  | cons item items ih =>
      obtain ⟨first, later⟩ := List.forall_mem_cons.mp each
      exact first.append (ih later)

/-- The controls of a page. -/
theorem Gives.controls (gives : Gives (.data, .outside) s last found) : controls s = found := by
  rw [Forms.controls, gives.run]

theorem gives_quoted {quote : Char} (quoted : quote ∉ s) (tag : Tag) (name value : List Char)
    (place : Place) :
    Gives (.quoted quote tag name value, place) s (.quoted quote tag name (value ++ s), place) [] := by
  obtain ⟨silent, inside⟩ := Html.quoted_value quoted tag name value
  exact ⟨inside, by rw [silent]; rfl⟩

theorem flat_of_noAngle (plain : '<' ∉ s) : Html.Flat s := by
  intro c _ within
  exact plain (within.subset List.mem_cons_self)

/-- The text of an option with a value. -/
theorem run_chars (raw label : List Char) : run (.option name offers (.value raw)) (label.map .char) =
    (.option name offers (.value raw), []) := by
  induction label with
  | nil => rfl
  | cons c label ih =>
      rw [List.map_cons, run]
      simp only [step, ih, List.append_nil]

/-- An option with a value and a text. -/
def option (value label : List Char) : List Char :=
  "<option value=\"".toList ++ (value ++ ("\">".toList ++ (label ++ Html.closing "option".toList)))

/-- An option is offered under its value. -/
theorem gives_option (quoted : '"' ∉ value) (flat : Html.Flat label) :
    Gives (.data, .select name offers) (option value label)
      (.data, .select name (offers ++ [.value value])) [] := by
  have opened : Gives (.data, .select name offers) "<option value=\"".toList
      (.quoted '"' ⟨false, "option".toList, []⟩ "value".toList [], .select name offers) [] := ⟨rfl, rfl⟩
  have tagged : Gives (.quoted '"' ⟨false, "option".toList, []⟩ "value".toList value,
      .select name offers) "\">".toList (.data, .option name offers (.value value)) [] := ⟨rfl, rfl⟩
  have ended : Gives (.data, .option name offers (.value value)) (label ++ Html.closing "option".toList)
      (.data, .select name (offers ++ [.value value])) [] := by
    have closes : Html.Closes "option".toList := ⟨by decide, by decide⟩
    obtain ⟨read, state⟩ := Html.tokens_flat closes flat
    refine ⟨state, ?_⟩
    rw [read, run_append, run_chars]
    rfl
  exact opened.append ((gives_quoted quoted _ _ _ _).append (tagged.append ended))

/-- A menu offers the values of its options. -/
theorem gives_menu {options : List (List Char × List Char)} (name : List Char) (offers : List Offer)
    (plain : ∀ entry ∈ options, '"' ∉ entry.1 ∧ Html.Flat entry.2) :
    Gives (.data, .select name offers) (options.flatMap fun entry => option entry.1 entry.2)
      (.data, .select name (offers ++ options.map fun entry => .value entry.1)) [] := by
  induction options generalizing offers with
  | nil =>
      rw [List.map_nil, List.append_nil]
      exact ⟨rfl, rfl⟩
  | cons entry options ih =>
      obtain ⟨⟨quoted, flat⟩, later⟩ := List.forall_mem_cons.mp plain
      have rest := ih (offers ++ [.value entry.1]) later
      rw [List.append_assoc] at rest
      exact (gives_option quoted flat).append rest

end Reading

end NetProg.Forms
