import NetProg.Lib.Wildcard
import NetProg.Socks.Handler

/-!
# What `socks.conf` permits

A rule file is made of lines `<action> <type> <pattern>`, and a pattern of four components in which
a star stands for any run of characters.  `Rule.Grants` is what such a line is for; the code reads
the action and throws it away, and takes every type other than `c` for a rule about BIND.
-/

namespace NetProg

/-- The pattern of a rule: four components made of digits and stars. -/
structure RulePattern where
  components : Fin 4 → Text
  made : ∀ i, ∀ c ∈ components i, c.isDigit ∨ c = '*'

/-- A line of `socks.conf`. -/
structure Rule where
  action : Text
  type : Char
  pattern : RulePattern
  word : action ≠ [] ∧ ∀ c ∈ action, Text.isSpace c = false
  solid : Text.isSpace type = false

/-- A character of a component. -/
def wildcardOf (c : Char) : Wildcard Char := if c = '*' then .gap else .letter c

namespace RulePattern

def text (p : RulePattern) : Text :=
  p.components 0 ++ '.' :: (p.components 1 ++ '.' :: (p.components 2 ++ '.' :: p.components 3))

/-- Every component matches the number in its place. -/
def Matches (p : RulePattern) (address : UInt32) : Prop :=
  ∀ i : Fin 4, Wildcard.matchAll (fun _ => true) ((p.components i).map wildcardOf)
    (Text.decimal (octet address i)) = true

instance (p : RulePattern) (address : UInt32) : Decidable (p.Matches address) := by
  unfold Matches
  infer_instance

end RulePattern

/-- The fixed characters of a pattern. -/
theorem RulePattern.letters (p : RulePattern) (c : Char)
    (member : .letter c ∈ p.text.map wildcardOf) : c.isDigit ∨ c = '.' := by
  obtain ⟨x, inside, same⟩ := List.mem_map.mp member
  have letter : x ≠ '*' ∧ x = c := by
    unfold wildcardOf at same
    split at same
    · cases same
    · rename_i plain
      exact ⟨plain, by simpa using same⟩
  obtain ⟨plain, rfl⟩ := letter
  have component : ∀ i, x ∈ p.components i → x.isDigit ∨ x = '.' := fun i found =>
    Or.inl ((p.made i x found).resolve_right plain)
  simp only [RulePattern.text, List.mem_append, List.mem_cons] at inside
  rcases inside with first | dot | second | dot | third | dot | fourth
  · exact component 0 first
  · exact Or.inr dot
  · exact component 1 second
  · exact Or.inr dot
  · exact component 2 third
  · exact Or.inr dot
  · exact component 3 fourth

/-- A component has no dot. -/
theorem RulePattern.dotless (p : RulePattern) (i : Fin 4) :
    ((p.components i).map wildcardOf).count (.letter '.') = 0 := by
  refine List.count_eq_zero.mpr (fun member => ?_)
  obtain ⟨c, inside, same⟩ := List.mem_map.mp member
  rcases p.made i c inside with digit | rfl
  · have letter : c = '.' := by
      unfold wildcardOf at same
      split at same
      · cases same
      · simpa using same
    rw [letter] at digit
    cases digit
  · cases same

namespace Rule

def text (r : Rule) : Text := r.action ++ ' ' :: r.type :: ' ' :: r.pattern.text

/-- The line permits a request with this command byte for this destination. -/
def Grants (r : Rule) (command : UInt8) (address : UInt32) : Prop :=
  r.action = "permit".toList ∧
    (r.type = 'c' ∧ command = socks4CmdConnect ∨ r.type = 'b' ∧ command = socks4CmdBind) ∧
    r.pattern.Matches address

/-- The line is of the side of the request, for the code, and matches the destination. -/
def Applies (r : Rule) (command : UInt8) (address : UInt32) : Prop :=
  (r.type = 'c' ↔ command = socks4CmdConnect) ∧ r.pattern.Matches address

/-- Such a line that permits nothing: its action is not `permit`, its type is neither `c` nor `b`,
or the request is neither CONNECT nor BIND. -/
def Misapplied (r : Rule) (command : UInt8) (address : UInt32) : Prop :=
  r.Applies command address ∧
    (r.action ≠ "permit".toList ∨ (r.type ≠ 'c' ∧ r.type ≠ 'b') ∨
      (command ≠ socks4CmdConnect ∧ command ≠ socks4CmdBind))

instance (r : Rule) (command : UInt8) (address : UInt32) : Decidable (r.Grants command address) := by
  unfold Grants
  infer_instance

instance (r : Rule) (command : UInt8) (address : UInt32) :
    Decidable (r.Applies command address) := by
  unfold Applies
  infer_instance

theorem Grants.applies {r : Rule} {command : UInt8} {address : UInt32}
    (h : r.Grants command address) : r.Applies command address := by
  obtain ⟨-, side, matched⟩ := h
  refine ⟨?_, matched⟩
  rcases side with ⟨type, connects⟩ | ⟨type, binds⟩
  · exact iff_of_true type connects
  · rw [type, binds]
    decide

/-- A line that applies permits the request or is misapplied to it. -/
theorem Applies.grants_or {r : Rule} {command : UInt8} {address : UInt32}
    (h : r.Applies command address) : r.Grants command address ∨ r.Misapplied command address := by
  by_cases permit : r.action = "permit".toList
  · by_cases connects : command = socks4CmdConnect
    · exact Or.inl ⟨permit, Or.inl ⟨h.1.mpr connects, connects⟩, h.2⟩
    · have other : r.type ≠ 'c' := fun type => connects (h.1.mp type)
      by_cases binds : command = socks4CmdBind
      · by_cases type : r.type = 'b'
        · exact Or.inl ⟨permit, Or.inr ⟨type, binds⟩, h.2⟩
        · exact Or.inr ⟨h, Or.inr (Or.inl ⟨other, type⟩)⟩
      · exact Or.inr ⟨h, Or.inr (Or.inr ⟨connects, binds⟩)⟩
  · exact Or.inr ⟨h, Or.inl permit⟩

end Rule

/-- The text of `socks.conf`; the newline of the last line may be missing. -/
def confText (ended : Bool) : List Rule → Text
  | [] => []
  | [r] => r.text ++ (if ended then ['\n'] else [])
  | r :: rules => r.text ++ '\n' :: confText ended rules

namespace Firewall

/-- How `std::regex` writes the elements of a pattern. -/
def render : Wildcard Char → Text
  | .letter c => if c = '.' then ['\\', '.'] else [c]
  | .gap => ['.', '*']

/-- `.` of a regular expression: anything but a line terminator. -/
def notTerminator (c : Char) : Bool := c != '\n' && c != '\r'

/-- What the grammar of `std::regex` says of expressions made of digits, `\.` and `.*`. -/
def EcmaScript (regexMatch : Text → Text → Option Bool) : Prop :=
  ∀ pieces : List (Wildcard Char), (∀ c, .letter c ∈ pieces → c.isDigit ∨ c = '.') →
    ∀ text, regexMatch (pieces.flatMap render) text =
      some (Wildcard.matchAll notTerminator pieces text)

/-- What one loop of `convertToRegexPattern` does to a character. -/
def replaceChar (c : Char) (replacement : Char × Char) (x : Char) : Text :=
  if x = c then [replacement.1, replacement.2] else [x]

theorem flatMap_replaceChar {c : Char} {replacement : Char × Char} {str : Text} (free : c ∉ str) :
    str.flatMap (replaceChar c replacement) = str := by
  induction str with
  | nil => rfl
  | cons x rest ih =>
      have different : x ≠ c := by
        rintro rfl
        exact free List.mem_cons_self
      rw [List.flatMap_cons, replaceChar, if_neg different,
        ih (fun member => free (List.mem_cons_of_mem _ member))]
      rfl

/-- A list around the first place of a character. -/
theorem split_findIdx (c : Char) (str : Text) (inside : str.findIdx (· = c) < str.length) :
    str = str.take (str.findIdx (· = c)) ++ c :: str.drop (str.findIdx (· = c) + 1) ∧
      c ∉ str.take (str.findIdx (· = c)) := by
  have here : str[str.findIdx (· = c)] = c := by
    simpa using List.findIdx_getElem (p := (· = c)) (w := inside)
  constructor
  · conv_lhs => rw [← List.take_append_drop (str.findIdx (· = c)) str]
    rw [List.drop_eq_getElem_cons inside, here]
  · intro member
    obtain ⟨i, below, found⟩ := List.mem_take_iff_getElem.mp member
    have before : i < str.findIdx (· = c) := Nat.lt_of_lt_of_le below (Nat.min_le_left _ _)
    have earlier := List.not_of_lt_findIdx before
    simp [found] at earlier

/-- The loop replaces every occurrence from `start_pos` on. -/
theorem replaceFrom_eq (c : Char) (replacement : Char × Char) (startPos : Nat) (str : Text)
    (within : startPos ≤ str.length) : replaceFrom c replacement startPos str =
      str.take startPos ++ (str.drop startPos).flatMap (replaceChar c replacement) := by
  fun_induction replaceFrom c replacement startPos str with
  | case1 startPos str offset inside ih =>
      have length : (str.take (startPos + offset)).length = startPos + offset := by
        rw [List.length_take]
        omega
      obtain ⟨split, free⟩ := split_findIdx c (str.drop startPos)
        (by rw [List.length_drop]; omega)
      have regroup : str.take (startPos + offset) ++ replacement.1 :: replacement.2 ::
          str.drop (startPos + offset + 1) =
          (str.take (startPos + offset) ++ [replacement.1, replacement.2]) ++
            str.drop (startPos + offset + 1) := by simp
      have moved : (str.take (startPos + offset) ++ [replacement.1, replacement.2]).length =
          startPos + offset + 2 := by rw [List.length_append, length]; rfl
      rw [ih (by simp only [List.length_append, length, List.length_cons]; omega), regroup,
        List.take_left' moved, List.drop_left' moved]
      conv_rhs => rw [split]
      rw [List.flatMap_append, flatMap_replaceChar free, List.flatMap_cons, replaceChar, if_pos rfl,
        List.drop_drop, List.take_add]
      simp only [List.append_assoc, offset, Nat.add_assoc]
  | case2 startPos str offset outside =>
      rw [flatMap_replaceChar, List.take_append_drop]
      intro member
      have found : (str.drop startPos).findIdx (· = c) < (str.drop startPos).length :=
        List.findIdx_lt_length.mpr ⟨c, member, decide_eq_true rfl⟩
      rw [List.length_drop] at found
      omega

/-- The two loops write the expression of the pattern. -/
theorem convertToRegexPattern_eq (str : Text) :
    convertToRegexPattern str = (str.map wildcardOf).flatMap render := by
  rw [convertToRegexPattern, replaceFrom_eq _ _ _ _ (Nat.zero_le _),
    replaceFrom_eq _ _ _ _ (Nat.zero_le _)]
  simp only [List.take_zero, List.drop_zero, List.nil_append, List.flatMap_assoc, List.flatMap_map]
  congr 1
  funext x
  by_cases star : x = '*'
  · subst star
    rfl
  · by_cases dot : x = '.'
    · subst dot
      rfl
    · simp [replaceChar, wildcardOf, render, star, dot]

/-- Four components against four numbers: the dots stand in their own places. -/
theorem matchAll_text (p : RulePattern) (address : UInt32) :
    Wildcard.matchAll notTerminator (p.text.map wildcardOf) (dotted address) = true ↔
      p.Matches address := by
  have dotless : ∀ i, '.' ∉ Text.decimal (octet address i).val := fun i =>
    (decimal_octet (octet address i)).1
  have letterless : ∀ i, ((p.components i).map wildcardOf).count (.letter '.') = 0 := p.dotless
  have count : ∀ i, (Text.decimal (octet address i).val).count '.' = 0 := fun i =>
    List.count_eq_zero.mpr (dotless i)
  have dot : wildcardOf '.' = .letter '.' := rfl
  have digits : ∀ i, ∀ a ∈ Text.decimal (octet address i).val, notTerminator a = true := by
    intro i a member
    have table : "0123456789".toList.all notTerminator = true := by decide
    exact List.all_eq_true.mp table a ((decimal_octet (octet address i)).2.1 a member)
  have plain : ∀ a ∈ dotted address, notTerminator a = true := by
    intro a member
    simp only [dotted, List.mem_append, List.mem_cons] at member
    rcases member with first | rfl | second | rfl | third | rfl | fourth
    · exact digits 0 a first
    · rfl
    · exact digits 1 a second
    · rfl
    · exact digits 2 a third
    · rfl
    · exact digits 3 a fourth
  rw [Wildcard.matchAll_allowed plain]
  simp only [RulePattern.text, dotted, List.map_append, List.map_cons, dot]
  rw [Wildcard.matchAll_separated (dotless 0), Wildcard.matchAll_separated (dotless 1),
    Wildcard.matchAll_separated (dotless 2)]
  · constructor
    · intro all i
      obtain ⟨first, second, third, fourth⟩ := all
      have four : i = 0 ∨ i = 1 ∨ i = 2 ∨ i = 3 := by omega
      rcases four with rfl | rfl | rfl | rfl
      · exact first
      · exact second
      · exact third
      · exact fourth
    · intro all
      exact ⟨all 0, all 1, all 2, all 3⟩
  · rw [count, letterless]
  · rw [List.count_append, List.count_cons_self, List.count_append, List.count_cons_self, count,
      count, letterless, letterless]
  · simp only [List.count_append, List.count_cons_self, count, letterless]

/-- What the loop over the file gets of a line. -/
def triple (r : Rule) : Text × Char × Text := (r.action, r.type, r.pattern.text)

theorem text_solid (p : RulePattern) : p.text ≠ [] ∧ ∀ c ∈ p.text, Text.isSpace c = false := by
  have solid : ∀ i, ∀ c ∈ p.components i, Text.isSpace c = false := by
    intro i c member
    rcases p.made i c member with digit | rfl
    · exact Text.isSpace_digit digit
    · rfl
  constructor
  · simp [RulePattern.text]
  · intro c member
    simp only [RulePattern.text, List.mem_append, List.mem_cons] at member
    rcases member with first | rfl | second | rfl | third | rfl | fourth
    · exact solid 0 c first
    · rfl
    · exact solid 1 c second
    · rfl
    · exact solid 2 c third
    · rfl
    · exact solid 3 c fourth

/-- One turn of the loop over the file takes one line. -/
theorem readRules_line (count : Nat) (r : Rule) {rest : Text}
    (next : rest = [] ∨ ∃ c later, rest = c :: later ∧ Text.isSpace c = true) :
    readRules (count + 1) (r.text ++ rest) = triple r :: readRules count rest := by
  have first : Text.readWord (r.text ++ rest) =
      some (r.action, ' ' :: r.type :: ' ' :: (r.pattern.text ++ rest)) := by
    have whole : r.text ++ rest = r.action ++ ' ' :: r.type :: ' ' :: (r.pattern.text ++ rest) := by
      simp [Rule.text]
    rw [whole]
    exact Text.readWord_append r.word.1 r.word.2 (Or.inr ⟨' ', _, rfl, rfl⟩)
  have second : Text.readChar (' ' :: r.type :: ' ' :: (r.pattern.text ++ rest)) =
      some (r.type, ' ' :: (r.pattern.text ++ rest)) := by
    have space : Text.isSpace ' ' = true := rfl
    rw [Text.readChar, List.dropWhile_cons_of_pos space,
      List.dropWhile_cons_of_neg (by rw [r.solid]; decide)]
  have third : Text.readWord (' ' :: (r.pattern.text ++ rest)) = some (r.pattern.text, rest) := by
    obtain ⟨some, solid⟩ := text_solid r.pattern
    rw [Text.readWord_space rfl, Text.readWord_append some solid next]
  simp only [readRules, first, second, third, triple]

/-- The loop over the file reads the rules. -/
theorem readRules_confText (ended : Bool) (rules : List Rule) (count : Nat)
    (enough : rules.length ≤ count) :
    readRules count (confText ended rules) = rules.map triple ∧
      readRules count ('\n' :: confText ended rules) = rules.map triple := by
  induction rules generalizing count with
  | nil =>
      cases count with
      | zero => exact ⟨rfl, rfl⟩
      | succ count => exact ⟨rfl, rfl⟩
  | cons r rules ih =>
      obtain ⟨count, rfl⟩ : ∃ n, count = n + 1 := ⟨count - 1, by rw [List.length_cons] at enough; omega⟩
      have later := ih count (by rw [List.length_cons] at enough; omega)
      have lead : ∀ text, readRules (count + 1) ('\n' :: text) = readRules (count + 1) text := by
        intro text
        rw [readRules, readRules, Text.readWord_space rfl]
      rw [lead, and_self]
      cases rules with
      | nil =>
          rw [confText]
          cases ended with
          | false =>
              apply (readRules_line count r (Or.inl rfl)).trans
              exact congrArg (triple r :: ·) later.1
          | true =>
              apply (readRules_line count r (Or.inr ⟨'\n', [], rfl, rfl⟩)).trans
              exact congrArg (triple r :: ·) later.2
      | cons next more =>
          rw [confText, readRules_line count r (Or.inr ⟨'\n', _, rfl, rfl⟩)]
          · exact congrArg (triple r :: ·) later.2
          · simp

theorem length_le_confText (ended : Bool) (rules : List Rule) :
    rules.length ≤ (confText ended rules).length := by
  induction rules with
  | nil => exact Nat.zero_le _
  | cons r rules ih =>
      cases rules with
      | nil =>
          simp only [confText, Rule.text, List.length_append, List.length_cons, List.length_nil]
          omega
      | cons next more =>
          simp only [confText, List.length_append, List.length_cons] at ih ⊢
          omega

end Firewall

namespace World

variable {w : World} {command : UInt8} {address : UInt32}

/-- The code applies a rule of the side of the request. -/
theorem matchFirewallRule_eq (ecma : Firewall.EcmaScript w.regexMatch) (r : Rule) :
    w.matchFirewallRule r.type r.pattern.text (command == socks4CmdConnect) (dotted address) =
      some (decide (r.Applies command address)) := by
  have made : ∀ c, .letter c ∈ r.pattern.text.map wildcardOf → c.isDigit ∨ c = '.' :=
    r.pattern.letters
  have matched : w.regexMatch (Firewall.convertToRegexPattern r.pattern.text) (dotted address) =
      some (decide (r.pattern.Matches address)) := by
    rw [Firewall.convertToRegexPattern_eq, ecma _ made]
    congr 1
    rw [Bool.eq_iff_iff, Firewall.matchAll_text, decide_eq_true_iff]
  by_cases type : r.type = 'c' <;> by_cases connects : command = socks4CmdConnect <;>
    simp [matchFirewallRule, Rule.Applies, type, connects, matched]

theorem someRule_eq (ecma : Firewall.EcmaScript w.regexMatch) (rules : List Rule) :
    w.someRule (dotted address) (command == socks4CmdConnect) (rules.map Firewall.triple) =
      some (decide (∃ r ∈ rules, r.Applies command address)) := by
  induction rules with
  | nil => simp [someRule]
  | cons r rules ih =>
      simp only [List.map_cons, someRule, Firewall.triple, matchFirewallRule_eq ecma]
      by_cases applies : r.Applies command address
      · simp [applies]
      · simp [applies, ih]

/-- The decision of the code: some rule of the side of the request matches the destination. -/
theorem isDestinationIPAddressAllowed_eq (ecma : Firewall.EcmaScript w.regexMatch) (ended : Bool)
    (rules : List Rule) (conf : w.conf = some (confText ended rules)) :
    w.isDestinationIPAddressAllowed (dotted address) (command == socks4CmdConnect) =
      some (decide (∃ r ∈ rules, r.Applies command address)) := by
  rw [isDestinationIPAddressAllowed, conf]
  dsimp only
  rw [(Firewall.readRules_confText ended rules _ (Firewall.length_le_confText ended rules)).1]
  exact someRule_eq ecma rules

end World

/-- The firewall decides as the rules say exactly when every misapplied rule is accompanied by one
that permits the request. -/
theorem firewall_iff (w : World) (ecma : Firewall.EcmaScript w.regexMatch) (ended : Bool)
    (rules : List Rule) (conf : w.conf = some (confText ended rules)) (command : UInt8)
    (address : UInt32) :
    w.isDestinationIPAddressAllowed (dotted address) (command == socks4CmdConnect) =
        some (decide (∃ r ∈ rules, r.Grants command address)) ↔
      ∀ r ∈ rules, r.Misapplied command address → ∃ r' ∈ rules, r'.Grants command address := by
  rw [World.isDestinationIPAddressAllowed_eq ecma ended rules conf, Option.some_inj,
    decide_eq_decide]
  constructor
  · intro same r member misapplied
    exact same.mp ⟨r, member, misapplied.1⟩
  · intro accompanied
    constructor
    · intro found
      obtain ⟨r, member, applies⟩ := found
      rcases applies.grants_or with grants | misapplied
      · exact ⟨r, member, grants⟩
      · exact accompanied r member misapplied
    · intro found
      obtain ⟨r, member, grants⟩ := found
      exact ⟨r, member, grants.applies⟩

namespace Firewall

/-- The elements of an expression made of digits, escaped characters and `.*`. -/
def decode : Text → Option (List (Wildcard Char))
  | [] => some []
  | '\\' :: c :: rest => (decode rest).map (.letter c :: ·)
  | '.' :: '*' :: rest => (decode rest).map (.gap :: ·)
  | c :: rest => if c.isDigit then (decode rest).map (.letter c :: ·) else none

/-- `std::regex_match` on such expressions. -/
def plainMatch (pattern text : Text) : Option Bool :=
  (decode pattern).map (fun pieces => Wildcard.matchAll notTerminator pieces text)

theorem decode_render {pieces : List (Wildcard Char)}
    (made : ∀ c, .letter c ∈ pieces → c.isDigit ∨ c = '.') :
    decode (pieces.flatMap render) = some pieces := by
  induction pieces with
  | nil => rfl
  | cons piece pieces ih =>
      have later := ih (fun c member => made c (List.mem_cons_of_mem _ member))
      cases piece with
      | gap => simp [render, decode, later]
      | letter c =>
          rcases made c List.mem_cons_self with digit | rfl
          · have escape : c ≠ '\\' := by
              rintro rfl
              cases digit
            have dot : c ≠ '.' := by
              rintro rfl
              cases digit
            rw [List.flatMap_cons, render, if_neg dot, List.singleton_append, decode, if_pos digit,
              later]
            · rfl
            · exact fun _ _ same => absurd same escape
            · exact fun _ same => absurd same dot
          · simp [render, decode, later]

theorem ecmaScript_plainMatch : EcmaScript plainMatch := by
  intro pieces made text
  rw [plainMatch, decode_render made]
  rfl

end Firewall

/-- `*.*.*.*`. -/
def anyPattern : RulePattern := ⟨fun _ => ['*'], by simp⟩

/-- `permit c *.*.*.*`. -/
def permitRule : Rule := ⟨"permit".toList, 'c', anyPattern, by simp [Text.isSpace], by decide⟩

/-- `deny c *.*.*.*`. -/
def denyRule : Rule := ⟨"deny".toList, 'c', anyPattern, by simp [Text.isSpace], by decide⟩

/-- The world of a rule file. -/
def ruleWorld (rules : List Rule) : World :=
  { quietWorld with conf := some (confText true rules), regexMatch := Firewall.plainMatch }

theorem firewall_iff_permit :
    (ruleWorld [permitRule]).isDestinationIPAddressAllowed (dotted 0x8C710001)
        (socks4CmdConnect == socks4CmdConnect) =
        some (decide (∃ r ∈ [permitRule], r.Grants socks4CmdConnect 0x8C710001)) ↔
      ∀ r ∈ [permitRule], r.Misapplied socks4CmdConnect 0x8C710001 →
        ∃ r' ∈ [permitRule], r'.Grants socks4CmdConnect 0x8C710001 :=
  firewall_iff (ruleWorld [permitRule]) Firewall.ecmaScript_plainMatch true [permitRule] rfl
    socks4CmdConnect 0x8C710001

/-- The line `deny c *.*.*.*` permits every CONNECT. -/
theorem deny_permits :
    (ruleWorld [denyRule]).isDestinationIPAddressAllowed (dotted 0x8C710001)
        (socks4CmdConnect == socks4CmdConnect) ≠
      some (decide (∃ r ∈ [denyRule], r.Grants socks4CmdConnect 0x8C710001)) := by
  rw [World.isDestinationIPAddressAllowed_eq Firewall.ecmaScript_plainMatch true [denyRule] rfl]
  decide +kernel

end NetProg
