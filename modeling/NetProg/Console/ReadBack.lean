import NetProg.Console.CgiOutput

/-!
# Reading escaped text back

`cgi_html_escape` scans the whole text seven times, and each scan reads what the scans before it
have written.  Only the first looks for the ampersands that the others write, so together they
replace every character for itself.  `printEscape` writes the numbers of characters instead; a `char`
is signed, and a negative number is no reference.
-/

namespace NetProg.CGI

open References (StandardNames)

/-- What `cgi_html_escape` writes for a character. -/
def escapeOf (c : Char) : Text :=
  if c = '&' then "&amp;".toList
  else if c = '>' then "&gt;".toList
  else if c = '<' then "&lt;".toList
  else if c = '"' then "&quot;".toList
  else if c = '\'' then "&apos;".toList
  else if c = '\n' then "&NewLine;".toList
  else if c = '\r' then []
  else [c]

/-- The seven scans are one: they may be made of any part alone, and are undone by a reader of
references. -/
structure Simultaneous : Prop where
  mapped : ∀ s, cgiHtmlEscape s = s.flatMap escapeOf
  append : ∀ a b, cgiHtmlEscape (a ++ b) = cgiHtmlEscape a ++ cgiHtmlEscape b
  chunked : ∀ chunks : List Text, chunks.flatMap cgiHtmlEscape = cgiHtmlEscape chunks.flatten
  decoded : ∀ (names : StandardNames) (s : Text),
    References.decode names.toNames false 0 (cgiHtmlEscape s) = s.filter (· ≠ '\r')

section Scans

theorem cgiHtmlEscape_one (c : Char) : cgiHtmlEscape [c] = escapeOf c := by
  by_cases special : c ∈ "&><\"'\n\r".toList
  · have all : ∀ d ∈ "&><\"'\n\r".toList, cgiHtmlEscape [d] = escapeOf d :=
      Text.forall_chars (by decide)
    exact all c special
  · have ne : ∀ d ∈ "&><\"'\n\r".toList, c ≠ d := fun d member same => special (same ▸ member)
    simp only [cgiHtmlEscape, escapeOf, replaceAll, List.flatMap_cons, List.flatMap_nil,
      List.append_nil, ne '&' (by decide), ne '>' (by decide), ne '<' (by decide),
      ne '"' (by decide), ne '\'' (by decide), ne '\n' (by decide), ne '\r' (by decide), if_false]

theorem cgiHtmlEscape_eq (s : Text) : cgiHtmlEscape s = s.flatMap escapeOf := by
  induction s with
  | nil => rfl
  | cons c s ih => rw [cgiHtmlEscape_cons, cgiHtmlEscape_one, ih, List.flatMap_cons]

/-- A CR leaves nothing. -/
theorem flatMap_escapeOf_filter (s : Text) :
    (s.filter (· ≠ '\r')).flatMap escapeOf = s.flatMap escapeOf := by
  induction s with
  | nil => rfl
  | cons c s ih =>
      by_cases cr : c = '\r'
      · subst cr
        simpa [escapeOf] using ih
      · have kept : (c :: s).filter (· ≠ '\r') = c :: s.filter (· ≠ '\r') := by simp [cr]
        rw [kept, List.flatMap_cons, ih, List.flatMap_cons]

theorem simultaneous : Simultaneous := by
  refine ⟨cgiHtmlEscape_eq, cgiHtmlEscape_append, ?_, ?_⟩
  · intro chunks
    rw [funext cgiHtmlEscape_eq, List.flatten_eq_flatMap, List.flatMap_assoc]
    rfl
  · intro names s
    have noCR : '\r' ∉ s.filter (· ≠ '\r') := by simp
    rw [cgiHtmlEscape_eq, ← flatMap_escapeOf_filter, ← cgiHtmlEscape_eq]
    exact decode_escape noCR

end Scans

/-- A decimal reference behind its ampersand: its number and its length. -/
def decimalReference : Text → Option (Nat × Nat)
  | '#' :: s =>
      let digits := s.takeWhile Char.isDigit
      if digits ≠ [] ∧ s[digits.length]? = some ';' then
        some (digits.foldl (fun n d => 10 * n + References.digitValue d) 0, digits.length + 2)
      else none
  | _ => none

/-- The text with every decimal reference replaced by the byte of its number; so many characters
belong to one that was. -/
def readBytes : Nat → Text → Text
  | _, [] => []
  | skip + 1, _ :: s => readBytes skip s
  | 0, c :: s =>
      if c = '&' then
        match decimalReference s with
        | some (n, length) => Char.ofNat n :: readBytes length s
        | none => c :: readBytes 0 s
      else c :: readBytes 0 s

example : readBytes 0 "a&#60;&#-61;".toList = "a<&#-61;".toList := by decide

/-- The bytes come back from the output of `printEscape`, and from the literal of both outputs. -/
structure Reversible (content : List UInt8) : Prop where
  bytes : readBytes 0 (printEscape content) = content.map char
  shown : ∀ o : Output, o.content = content →
    readBytes 0 o.body = o.opening ++ content.map char ++ o.closing

section Bytes

variable {s t : Text} {c : UInt8} {content : List UInt8}

theorem readBytes_skip (n : Nat) (s : Text) : readBytes n s = readBytes 0 (s.drop n) := by
  induction n generalizing s with
  | zero => rfl
  | succ n ih =>
      cases s with
      | nil => rfl
      | cons c s => exact ih s

/-- Text without an ampersand is read as it is, whatever follows. -/
theorem readBytes_plain (plain : '&' ∉ s) (t : Text) : readBytes 0 (s ++ t) = s ++ readBytes 0 t := by
  induction s with
  | nil => rfl
  | cons c s ih =>
      have other : c ≠ '&' := fun same => plain (same ▸ List.mem_cons_self)
      rw [List.cons_append, readBytes, if_neg other, ih fun member => plain (.tail c member),
        List.cons_append]

theorem decimalReference_digits (present : s ≠ []) (digits : ∀ d ∈ s, d.isDigit = true) (t : Text) :
    decimalReference ('#' :: (s ++ ';' :: t)) =
      some (s.foldl (fun n d => 10 * n + References.digitValue d) 0, s.length + 2) := by
  have first : (s ++ ';' :: t).takeWhile Char.isDigit = s := by
    rw [List.takeWhile_append_of_pos digits, List.takeWhile_cons_of_neg (by decide), List.append_nil]
  simp [decimalReference, first, present]

/-- What is read for a byte. -/
def readBack (c : UInt8) : Text := if c < 128 then [char c] else escapeChar c

theorem isalnum_small (alnum : isalnum c = true) : c < 128 ∧ char c ≠ '&' := by
  have all : ∀ n : Fin 256, isalnum (.ofFin n) = true →
      UInt8.ofFin n < 128 ∧ char (.ofFin n) ≠ '&' := by decide +kernel
  exact all c.toFin alnum

/-- The number of a small byte is written in digits and is the byte. -/
theorem decimal_small (small : c < 128) : Text.decimal c.toInt8.toInt ≠ [] ∧
    (∀ d ∈ Text.decimal c.toInt8.toInt, d.isDigit = true) ∧
    Char.ofNat ((Text.decimal c.toInt8.toInt).foldl
      (fun n d => 10 * n + References.digitValue d) 0) = char c := by
  have all : ∀ n : Fin 256, UInt8.ofFin n < 128 →
      Text.decimal (UInt8.ofFin n).toInt8.toInt ≠ [] ∧
      (Text.decimal (UInt8.ofFin n).toInt8.toInt).all Char.isDigit = true ∧
      Char.ofNat ((Text.decimal (UInt8.ofFin n).toInt8.toInt).foldl
        (fun n d => 10 * n + References.digitValue d) 0) = char (.ofFin n) := by decide +kernel
  obtain ⟨present, digits, same⟩ := all c.toFin small
  exact ⟨present, List.all_eq_true.mp digits, same⟩

/-- The number of a large byte begins with its sign. -/
theorem decimal_large (large : ¬ c < 128) : isalnum c = false ∧
    (Text.decimal c.toInt8.toInt).head? = some '-' ∧ '&' ∉ Text.decimal c.toInt8.toInt := by
  have all : ∀ n : Fin 256, ¬ UInt8.ofFin n < 128 → isalnum (.ofFin n) = false ∧
      (Text.decimal (UInt8.ofFin n).toInt8.toInt).head? = some '-' ∧
      '&' ∉ Text.decimal (UInt8.ofFin n).toInt8.toInt := by decide +kernel
  exact all c.toFin large

theorem escapeChar_number (other : isalnum c = false) (t : Text) :
    escapeChar c ++ t = '&' :: '#' :: (Text.decimal c.toInt8.toInt ++ ';' :: t) := by
  have marks : "&#".toList = ['&', '#'] ∧ ";".toList = [';'] := by decide
  rw [escapeChar, other, if_neg Bool.false_ne_true, marks.1, marks.2]
  simp

theorem readBytes_escapeChar (c : UInt8) (t : Text) :
    readBytes 0 (escapeChar c ++ t) = readBack c ++ readBytes 0 t := by
  by_cases alnum : isalnum c = true
  · obtain ⟨small, plain⟩ := isalnum_small alnum
    have one : '&' ∉ [char c] := fun member => plain (List.mem_singleton.mp member).symm
    rw [readBack, if_pos small, escapeChar, if_pos alnum, readBytes_plain one]
  · have other : isalnum c = false := Bool.eq_false_iff.mpr alnum
    rw [escapeChar_number other, readBytes, if_pos rfl]
    by_cases small : c < 128
    · obtain ⟨present, digits, same⟩ := decimal_small small
      have behind : ('#' :: (Text.decimal c.toInt8.toInt ++ ';' :: t)).drop
          ((Text.decimal c.toInt8.toInt).length + 2) = t := by simp
      rw [decimalReference_digits present digits, readBack, if_pos small]
      simp only
      rw [readBytes_skip, behind, same]
      rfl
    · obtain ⟨-, sign, noAmp⟩ := decimal_large small
      obtain ⟨digits, signed⟩ := List.head?_eq_some_iff.mp sign
      have none : decimalReference ('#' :: (Text.decimal c.toInt8.toInt ++ ';' :: t)) = none := by
        have minus : Char.isDigit '-' = false := by decide
        simp [decimalReference, signed, minus]
      have plain : '&' ∉ '#' :: (Text.decimal c.toInt8.toInt ++ [';']) := by simp [noAmp]
      have behind : '#' :: (Text.decimal c.toInt8.toInt ++ ';' :: t) =
          '#' :: (Text.decimal c.toInt8.toInt ++ [';']) ++ t := by simp
      have written := escapeChar_number other []
      rw [List.append_nil] at written
      rw [none, readBack, if_neg small, written, behind]
      simp only
      rw [readBytes_plain plain]
      rfl

theorem readBytes_printEscape (content : List UInt8) (t : Text) :
    readBytes 0 (printEscape content ++ t) = content.flatMap readBack ++ readBytes 0 t := by
  induction content with
  | nil => rfl
  | cons c content ih =>
      rw [printEscape, List.flatMap_cons, List.append_assoc, readBytes_escapeChar, ← printEscape, ih,
        List.flatMap_cons, List.append_assoc]

/-- A byte is read back as one character or as more than one. -/
theorem length_readBack (c : UInt8) :
    1 ≤ (readBack c).length ∧ (¬ c < 128 → 1 < (readBack c).length) := by
  by_cases small : c < 128
  · rw [readBack, if_pos small]
    exact ⟨Nat.le_refl 1, fun large => absurd small large⟩
  · have written := escapeChar_number (decimal_large small).1 []
    rw [List.append_nil] at written
    rw [readBack, if_neg small, written]
    simp

theorem length_le_readBack (content : List UInt8) :
    content.length ≤ (content.flatMap readBack).length := by
  induction content with
  | nil => exact Nat.le_refl 0
  | cons c content ih =>
      have one := (length_readBack c).1
      rw [List.flatMap_cons, List.length_append, List.length_cons]
      omega

/-- Only small bytes are read back as themselves. -/
theorem flatMap_readBack (content : List UInt8) :
    content.flatMap readBack = content.map char ↔ ∀ c ∈ content, c < 128 := by
  induction content with
  | nil => simp
  | cons c content ih =>
      rw [List.flatMap_cons, List.map_cons, List.forall_mem_cons, ← ih]
      by_cases small : c < 128
      · rw [readBack, if_pos small, List.singleton_append, List.cons_inj_right, and_iff_right small]
      · refine iff_of_false (fun same => ?_) (fun both => small both.1)
        have more := (length_readBack c).2 small
        have rest := length_le_readBack content
        have lengths := congrArg List.length same
        rw [List.length_append, List.length_cons, List.length_map] at lengths
        omega

theorem readBytes_body (o : Output) :
    readBytes 0 o.body = o.opening ++ o.content.flatMap readBack ++ o.closing := by
  have plain : '&' ∉ o.opening ∧ '&' ∉ o.closing := by
    cases o with
    | shell info => exact ⟨List.not_mem_nil, List.not_mem_nil⟩
    | command info => simp [Output.opening, Output.closing]
  have last := readBytes_plain plain.2 []
  rw [List.append_nil] at last
  rw [Output.body, List.append_assoc, readBytes_plain plain.1, readBytes_printEscape, last,
    readBytes, List.append_nil, List.append_assoc]

/-- The bytes come back exactly if none of them is the byte of a negative `char`. -/
theorem reversible_iff (content : List UInt8) : Reversible content ↔ ∀ c ∈ content, c < 128 := by
  have all := readBytes_printEscape content []
  rw [List.append_nil, readBytes, List.append_nil] at all
  rw [← flatMap_readBack]
  constructor
  · intro reversible
    exact all.symm.trans reversible.bytes
  · intro same
    refine ⟨all.trans same, ?_⟩
    intro o is
    rw [readBytes_body, is, same]

/-- A byte of a UTF-8 character does not come back. -/
theorem utf8_lost : ¬ Reversible [195, 169] := by
  intro reversible
  exact absurd reversible.bytes (by decide)

end Bytes

end NetProg.CGI
