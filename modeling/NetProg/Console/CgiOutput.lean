import NetProg.Console.Escape
import NetProg.Lib.Html
import NetProg.Lib.Literal

/-!
# What `cgi_server` appends

The scripts of `cgi_output_shell` and `cgi_output_command` append a string literal to an element.
`cgi_html_escape` writes the characters that mean something in HTML as references, but leaves the
backslash, which means something in the literal.
-/

namespace NetProg.CGI

open References (Names StandardNames entities)

/-- A call of `cgi_output_shell` or `cgi_output_command`. -/
inductive CgiOutput where
  | shell (content : Text) (sessionId : Int)
  | command (content : Text) (sessionId : Int)

namespace CgiOutput

/-- What is sent to the browser. -/
def text : CgiOutput → Text
  | shell content sessionId => cgiOutputShell content sessionId
  | command content sessionId => cgiOutputCommand content sessionId

def content : CgiOutput → Text
  | shell content _ => content
  | command content _ => content

def sessionId : CgiOutput → Int
  | shell _ sessionId => sessionId
  | command _ sessionId => sessionId

/-- The tag in front of the content. -/
def opening : CgiOutput → Text
  | shell _ _ => []
  | command _ _ => "<b>".toList

def closing : CgiOutput → Text
  | shell _ _ => []
  | command _ _ => "</b>".toList

/-- What is written into the second literal. -/
def literal (o : CgiOutput) : Text := o.opening ++ cgiHtmlEscape o.content ++ o.closing

/-- The script of the element. -/
def script (o : CgiOutput) : Text :=
  "document.getElementById(".toList ++ '\'' :: (('s' :: Text.decimal o.sessionId) ++ '\'' ::
    (").innerHTML += ".toList ++ '\'' :: (o.literal ++ '\'' :: ";".toList)))

/-- The script appends the content to the element of the session: the literal ends where the program
ends it, and its value is text, in the tags of a command, that is read as the content. -/
structure Appends (names : Names) (o : CgiOutput) : Prop where
  element : ∀ rest, Script.element (o.text ++ rest) = some (o.script, rest)
  literals : ∀ fuel, Script.pieces (fuel + 3) o.script = some
    [.code "document.getElementById(".toList, .literal ('s' :: Text.decimal o.sessionId),
      .code ").innerHTML += ".toList, .literal o.literal, .code ";".toList]
  id : Script.unescape 0 ('s' :: Text.decimal o.sessionId) = some ('s' :: Text.decimal o.sessionId)
  value : ∃ v, Script.unescape 0 o.literal = some (o.opening ++ v ++ o.closing) ∧
    Html.tokens .data v = v.map .char ∧ Html.after .data v = .data ∧ References.text names v = o.content

end CgiOutput

/-- A text of at most so many pieces: characters, and references of the standard. -/
inductive Pieces : Nat → Text → Prop
  | nil (m : Nat) : Pieces m []
  | char {m : Nat} {v : Text} (c : Char) (more : Pieces m v) : Pieces (m + 1) (c :: v)
  | entity {m : Nat} {v : Text} {entity : Text × Char} (member : entity ∈ entities) (more : Pieces m v) :
      Pieces (m + 1) ('&' :: (entity.1 ++ v))

section Escape

variable {names : StandardNames} {s t v w content : Text} {c : Char} {m n : Nat}

theorem cgiHtmlEscape_append (s t : Text) :
    cgiHtmlEscape (s ++ t) = cgiHtmlEscape s ++ cgiHtmlEscape t := by
  simp only [cgiHtmlEscape, replaceAll, List.flatMap_append]

/-- A character is written as a reference, or as it is. -/
theorem escape_one (noCR : c ≠ '\r') :
    (∃ name, (name, c) ∈ entities ∧ cgiHtmlEscape [c] = '&' :: name) ∨
      ((∀ entity ∈ entities, entity.2 ≠ c) ∧ cgiHtmlEscape [c] = [c]) := by
  by_cases special : c ∈ entities.map Prod.snd
  · left
    have all : ∀ entity ∈ entities, cgiHtmlEscape [entity.2] = '&' :: entity.1 := by decide
    obtain ⟨entity, member, rfl⟩ := List.mem_map.mp special
    exact ⟨entity.1, member, all entity member⟩
  · right
    have other : ∀ entity ∈ entities, entity.2 ≠ c := fun entity member same =>
      special (List.mem_map.mpr ⟨entity, member, same⟩)
    have ne : ∀ d ∈ "&><\"'\n".toList, c ≠ d := by
      intro d member same
      subst same
      apply special
      revert member
      simp [entities]
    refine ⟨other, ?_⟩
    simp only [cgiHtmlEscape, replaceAll, List.flatMap_cons, List.flatMap_nil, List.append_nil,
      ne '&' (by decide), ne '>' (by decide), ne '<' (by decide), ne '"' (by decide),
      ne '\'' (by decide), ne '\n' (by decide), noCR, if_false]

/-- Nothing in an escaped text ends the literal or begins markup. -/
theorem escape_plain (noCR : '\r' ∉ content) : ∀ c ∈ cgiHtmlEscape content,
    c ≠ '<' ∧ c ≠ '\'' ∧ c ≠ '\n' ∧ c ≠ '\r' ∧ (c = '\\' → '\\' ∈ content) := by
  induction content with
  | nil =>
      intro c member
      cases member
  | cons d content ih =>
      have here : d ≠ '\r' := fun same => noCR (same ▸ List.mem_cons_self)
      have rest := ih fun member => noCR (List.mem_cons_of_mem d member)
      have all : ∀ entity ∈ entities, ('&' :: entity.1).all
          (fun c => decide (c ≠ '<' ∧ c ≠ '\'' ∧ c ≠ '\n' ∧ c ≠ '\r' ∧ c ≠ '\\')) = true := by decide
      have names : ∀ entity ∈ entities, ∀ c ∈ '&' :: entity.1,
          c ≠ '<' ∧ c ≠ '\'' ∧ c ≠ '\n' ∧ c ≠ '\r' ∧ c ≠ '\\' :=
        fun entity member => Text.forall_chars (all entity member)
      intro c member
      rw [show d :: content = [d] ++ content from rfl, cgiHtmlEscape_append] at member
      rcases List.mem_append.mp member with first | later
      · rcases escape_one here with ⟨name, entity, written⟩ | ⟨other, written⟩
        · rw [written] at first
          obtain ⟨a, b, e, f, g⟩ := names _ entity c first
          exact ⟨a, b, e, f, fun same => absurd same g⟩
        · rw [written] at first
          obtain rfl : c = d := List.mem_singleton.mp first
          have listed : ∀ e ∈ "<'\n".toList, ∃ entity ∈ entities, entity.2 = e :=
            Text.forall_chars (by decide)
          have ne : ∀ e ∈ "<'\n".toList, c ≠ e := by
            rintro e member rfl
            obtain ⟨entity, inside, same⟩ := listed c member
            exact other entity inside same
          exact ⟨ne '<' (by decide), ne '\'' (by decide), ne '\n' (by decide), here,
            fun same => same ▸ List.mem_cons_self⟩
      · obtain ⟨a, b, e, f, g⟩ := rest c later
        exact ⟨a, b, e, f, fun same => List.mem_cons_of_mem d (g same)⟩

theorem Pieces.mono (pieces : Pieces m v) (le : m ≤ n) : Pieces n v := by
  induction pieces generalizing n with
  | nil => exact .nil n
  | char c more ih =>
      obtain ⟨k, rfl⟩ := Nat.exists_eq_add_of_le' (Nat.lt_of_lt_of_le (Nat.succ_pos _) le)
      exact .char c (ih (Nat.le_of_succ_le_succ le))
  | entity member more ih =>
      obtain ⟨k, rfl⟩ := Nat.exists_eq_add_of_le' (Nat.lt_of_lt_of_le (Nat.succ_pos _) le)
      exact .entity member (ih (Nat.le_of_succ_le_succ le))

/-- Pieces without an ampersand are characters. -/
theorem Pieces.drop (pieces : Pieces m v) (within : n ≤ v.length) (noAmp : '&' ∉ v.take n) :
    n ≤ m ∧ Pieces (m - n) (v.drop n) := by
  induction pieces generalizing n with
  | nil m =>
      obtain rfl : n = 0 := Nat.le_zero.mp within
      exact ⟨Nat.zero_le m, .nil _⟩
  | char c more ih =>
      cases n with
      | zero => exact ⟨Nat.zero_le _, .char c more⟩
      | succ n =>
          obtain ⟨le, rest⟩ := ih (Nat.le_of_succ_le_succ within) fun member =>
            noAmp (List.mem_cons_of_mem c member)
          rw [Nat.add_sub_add_right]
          exact ⟨Nat.succ_le_succ le, rest⟩
  | entity member more ih =>
      cases n with
      | zero => exact ⟨Nat.zero_le _, .entity member more⟩
      | succ n => exact absurd List.mem_cons_self noAmp

/-- A text is read as at most as many characters as it has pieces. -/
theorem Pieces.length_decode (pieces : Pieces m v) :
    (References.decode names.toNames false 0 v).length ≤ m := by
  induction m using Nat.strong_induction_on generalizing v with
  | _ m ih =>
      cases pieces with
      | nil => exact Nat.zero_le _
      | @char m v c more =>
          have plain := Nat.succ_le_succ (ih m (Nat.lt_succ_self m) more)
          unfold References.decode
          split
          · split
            · rename_i expansion n found
              obtain ⟨short, within⟩ := References.reference_length found
              obtain ⟨le, rest⟩ := more.drop within (References.noAmp_reference found)
              have least := ih (m - n) (by omega) rest
              rw [References.decode_skip, List.length_append]
              omega
            · exact plain
          · exact plain
      | @entity m v entity member more =>
          rw [References.decode_entity member]
          exact Nat.succ_le_succ (ih m (Nat.lt_succ_self m) more)

theorem Pieces.newlines (pieces : Pieces m v) : Pieces m (References.newlines v) := by
  induction m using Nat.strong_induction_on generalizing v with
  | _ m ih =>
      cases pieces with
      | nil => exact .nil m
      | @char m v c more =>
          have rest := ih m (Nat.lt_succ_self m) more
          unfold References.newlines
          split
          · exact .nil _
          · rename_i s same
            obtain ⟨rfl, rfl⟩ := List.cons.inj same
            obtain ⟨le, behind⟩ := more.drop (n := 1) (by simp) (by simp)
            have shorter := ih (m - 1) (by omega) behind
            exact (shorter.char '\n').mono (by omega)
          · rename_i other same
            obtain ⟨rfl, rfl⟩ := List.cons.inj same
            exact rest.char _
      | @entity m v entity member more =>
          have rest := ih m (Nat.lt_succ_self m) more
          have passed : ∀ s : Text, (∀ c ∈ s, c ≠ '\r') →
              References.newlines (s ++ v) = s ++ References.newlines v := by
            intro s plain
            induction s with
            | nil => rfl
            | cons c s inner =>
                have notCR := plain c List.mem_cons_self
                rw [List.cons_append, References.newlines, if_neg notCR,
                  inner fun d later => plain d (List.mem_cons_of_mem c later)]
                · rfl
                · rintro - rfl
                  exact absurd rfl notCR
          have noCR : ∀ entity ∈ entities, ('&' :: entity.1).all (fun c => decide (c ≠ '\r')) = true := by
            decide
          have whole := passed ('&' :: entity.1) (Text.forall_chars (noCR entity member))
          rw [List.cons_append] at whole
          rw [whole]
          exact rest.entity member

theorem Pieces.short {e : Text} (pieces : Pieces m v) (short : e.length ≤ 1) : Pieces (m + 1) (e ++ v) := by
  cases e with
  | nil => exact pieces.mono (Nat.le_succ m)
  | cons c e =>
      obtain rfl : e = [] := List.length_eq_zero_iff.mp (Nat.le_zero.mp (Nat.le_of_succ_le_succ short))
      exact pieces.char c

theorem active_amp : Script.Active '&' := ⟨by decide, by decide, by decide⟩

theorem cgiHtmlEscape_cons (c : Char) (s : Text) :
    cgiHtmlEscape (c :: s) = cgiHtmlEscape [c] ++ cgiHtmlEscape s :=
  cgiHtmlEscape_append [c] s

/-- An escape that takes several characters takes so many of the content. -/
theorem drop_escape (noCR : '\r' ∉ s) (tail : ∀ c ∈ t.head?, Script.Active c)
    (within : n ≤ (cgiHtmlEscape s ++ t).length)
    (inactive : ∀ c ∈ (cgiHtmlEscape s ++ t).take n, ¬ Script.Active c) :
    n ≤ s.length ∧ (cgiHtmlEscape s ++ t).drop n = cgiHtmlEscape (s.drop n) ++ t := by
  induction s generalizing n with
  | nil =>
      cases n with
      | zero => exact ⟨Nat.le_refl 0, rfl⟩
      | succ n =>
          cases t with
          | nil => exact absurd within (Nat.not_succ_le_zero n)
          | cons c t => exact absurd (tail c rfl) (inactive c List.mem_cons_self)
  | cons c s ih =>
      have here : c ≠ '\r' := fun same => noCR (same ▸ List.mem_cons_self)
      cases n with
      | zero => exact ⟨Nat.zero_le _, rfl⟩
      | succ n =>
          rw [cgiHtmlEscape_cons] at within inactive ⊢
          rcases escape_one here with ⟨name, -, written⟩ | ⟨-, written⟩
          · rw [written] at inactive
            exact absurd active_amp (inactive '&' List.mem_cons_self)
          · rw [written, List.singleton_append, List.cons_append] at within inactive ⊢
            rw [List.length_cons] at within
            rw [List.take_succ_cons] at inactive
            obtain ⟨le, dropped⟩ := ih (fun member => noCR (List.mem_cons_of_mem c member))
              (Nat.le_of_succ_le_succ within) fun d member => inactive d (List.mem_cons_of_mem c member)
            rw [List.drop_succ_cons, List.drop_succ_cons]
            exact ⟨Nat.succ_le_succ le, dropped⟩

/-- The value of an escaped text, with `t` behind it, has at most so many pieces. -/
def Bounded (t s : Text) (most : Nat) : Prop :=
  ∀ w, Script.unescape 0 (cgiHtmlEscape s ++ t) = some w →
    ∃ v m, w = v ++ t ∧ Pieces m v ∧ m ≤ most

theorem cgiHtmlEscape_nil : cgiHtmlEscape [] = [] := rfl

theorem backslash_plain : ∀ entity ∈ entities, '\\' ∉ '&' :: entity.1 := by decide

/-- A character that is not a backslash is one piece. -/
theorem Bounded.cons {most : Nat} (noCR : c ≠ '\r') (other : c ≠ '\\') (rest : Bounded t s most) :
    Bounded t (c :: s) (most + 1) := by
  intro w value
  rw [cgiHtmlEscape_cons, List.append_assoc] at value
  rcases escape_one noCR with ⟨name, member, written⟩ | ⟨-, written⟩
  · rw [written, Script.unescape_plain (backslash_plain _ member)] at value
    obtain ⟨w', later, rfl⟩ := Option.map_eq_some_iff.mp value
    obtain ⟨v, m, rfl, pieces, le⟩ := rest w' later
    refine ⟨'&' :: (name ++ v), m + 1, ?_, pieces.entity member, Nat.succ_le_succ le⟩
    rw [List.cons_append, List.cons_append, List.append_assoc]
  · rw [written, Script.unescape_plain fun member => other (List.mem_singleton.mp member).symm] at value
    obtain ⟨w', later, rfl⟩ := Option.map_eq_some_iff.mp value
    obtain ⟨v, m, rfl, pieces, le⟩ := rest w' later
    exact ⟨c :: v, m + 1, rfl, pieces.char c, Nat.succ_le_succ le⟩

/-- An escape that takes one character, which stands for itself if it begins a reference. -/
theorem Bounded.escaped_one {e w : Text} (noCR : '\r' ∉ s) (tail : ∀ c ∈ t.head?, Script.Active c)
    (plain : '\\' ∉ t) (shorter : Bounded t (s.drop 1) (s.length - 1)) (short : e.length ≤ 1)
    (within : 1 ≤ (cgiHtmlEscape s ++ t).length)
    (itself : ∀ c ∈ (cgiHtmlEscape s ++ t).head?, Script.Active c → e = [c])
    (value : Script.unescape 0 ((cgiHtmlEscape s ++ t).drop 1) = some w) :
    ∃ v m, e ++ w = v ++ t ∧ Pieces m v ∧ m ≤ s.length := by
  cases s with
  | nil =>
      rw [cgiHtmlEscape_nil, List.nil_append] at within itself value
      cases t with
      | nil => exact absurd within (Nat.not_succ_le_zero 0)
      | cons d t =>
          have own := Script.unescape_plain (fun member => plain (List.mem_cons_of_mem d member)) []
          rw [List.append_nil] at own
          rw [List.drop_succ_cons, List.drop_zero, own] at value
          obtain rfl : t = w := (List.append_nil t).symm.trans (Option.some.inj value)
          rw [itself d rfl (tail d rfl)]
          exact ⟨[], 0, rfl, .nil 0, Nat.le_refl 0⟩
  | cons d s =>
      have here : d ≠ '\r' := fun same => noCR (same ▸ List.mem_cons_self)
      rw [cgiHtmlEscape_cons, List.append_assoc] at itself value
      rw [List.drop_succ_cons, List.drop_zero, List.length_cons, Nat.add_sub_cancel] at shorter
      rcases escape_one here with ⟨name, member, written⟩ | ⟨-, written⟩
      · have plainName : '\\' ∉ name := fun inside =>
          backslash_plain _ member (List.mem_cons_of_mem '&' inside)
        rw [written, List.cons_append, List.drop_succ_cons, List.drop_zero,
          Script.unescape_plain plainName] at value
        rw [written] at itself
        obtain ⟨w', later, rfl⟩ := Option.map_eq_some_iff.mp value
        obtain ⟨v, m, rfl, pieces, le⟩ := shorter w' later
        rw [itself '&' rfl active_amp]
        refine ⟨'&' :: (name ++ v), m + 1, ?_, pieces.entity member, Nat.succ_le_succ le⟩
        rw [List.cons_append, List.cons_append, List.nil_append, List.append_assoc]
      · rw [written, List.cons_append, List.nil_append, List.drop_succ_cons, List.drop_zero] at value
        obtain ⟨v, m, rfl, pieces, le⟩ := shorter w value
        exact ⟨e ++ v, m + 1, (List.append_assoc e v t).symm, pieces.short short, Nat.succ_le_succ le⟩

/-- A backslash is no piece. -/
theorem Bounded.backslash (noCR : '\r' ∉ s) (tail : ∀ c ∈ t.head?, Script.Active c) (plain : '\\' ∉ t)
    (shorter : ∀ k, 1 ≤ k → k ≤ s.length → Bounded t (s.drop k) (s.length - k))
    (empty : s = [] → Bounded t [] 0) : Bounded t ('\\' :: s) s.length := by
  intro w value
  have written : cgiHtmlEscape ['\\'] = ['\\'] := by decide
  rw [cgiHtmlEscape_cons, written, List.append_assoc, List.cons_append, List.nil_append,
    Script.unescape, if_pos rfl] at value
  obtain ⟨⟨e, n⟩, found, behind⟩ := Option.bind_eq_some_iff.mp value
  obtain ⟨w', rest, rfl⟩ := Option.map_eq_some_iff.mp behind
  obtain ⟨short, some, within, kinds⟩ := Script.escape_consumes found
  rw [Script.unescape_skip] at rest
  rcases kinds with ⟨one, itself⟩ | inactive
  · rw [one] at rest within
    have first : Bounded t (s.drop 1) (s.length - 1) := by
      cases s with
      | nil => exact empty rfl
      | cons d s => exact shorter 1 (Nat.le_refl 1) (by simp)
    exact first.escaped_one noCR tail plain short within itself rest
  · obtain ⟨le, dropped⟩ := drop_escape noCR tail within inactive
    rw [dropped] at rest
    obtain ⟨v, m, rfl, pieces, few⟩ := shorter n some le w' rest
    exact ⟨e ++ v, m + 1, (List.append_assoc _ v t).symm, pieces.short short, by omega⟩

/-- The value of an escaped text has at most as many pieces as the text has characters, and less if
there is a backslash. -/
theorem bounded_escape (noCR : '\r' ∉ content) (tail : ∀ c ∈ t.head?, Script.Active c)
    (plain : '\\' ∉ t) : Bounded t content content.length ∧
      ('\\' ∈ content → Bounded t content (content.length - 1)) := by
  induction size : content.length using Nat.strong_induction_on generalizing content with
  | _ size' ih =>
      subst size
      cases content with
      | nil =>
          refine ⟨?_, fun member => absurd member List.not_mem_nil⟩
          intro w value
          have own := Script.unescape_plain plain []
          rw [List.append_nil] at own
          rw [cgiHtmlEscape_nil, List.nil_append, own] at value
          have same : t = w := (List.append_nil t).symm.trans (Option.some.inj value)
          exact ⟨[], 0, same.symm, .nil 0, Nat.le_refl 0⟩
      | cons c s =>
          have here : c ≠ '\r' := fun same => noCR (same ▸ List.mem_cons_self)
          have inner : '\r' ∉ s := fun member => noCR (List.mem_cons_of_mem c member)
          have shorter : ∀ k, Bounded t (s.drop k) (s.length - k) := by
            intro k
            have less : (s.drop k).length < (c :: s).length := by
              rw [List.length_drop, List.length_cons]
              omega
            have bound := (ih _ less (fun member => inner (List.mem_of_mem_drop member)) rfl).1
            rw [List.length_drop] at bound
            exact bound
          by_cases backslash : c = '\\'
          · subst backslash
            have bound : Bounded t ('\\' :: s) s.length := by
              apply Bounded.backslash inner tail plain fun k _ _ => shorter k
              rintro rfl
              exact shorter 0
            refine ⟨?_, fun _ => bound⟩
            intro w value
            obtain ⟨v, m, same, pieces, le⟩ := bound w value
            exact ⟨v, m, same, pieces, Nat.le_succ_of_le le⟩
          · obtain ⟨whole, less⟩ := ih s.length (Nat.lt_succ_self _) inner rfl
            refine ⟨whole.cons here backslash, ?_⟩
            intro member
            have later := (List.mem_cons.mp member).resolve_left fun same => backslash same.symm
            have some : 0 < s.length := List.length_pos_of_mem later
            have bound := (less later).cons here backslash
            rw [Nat.sub_add_cancel some] at bound
            exact bound

/-- An escaped text without a backslash is read as the text. -/
theorem decode_escape (noCR : '\r' ∉ content) :
    References.decode names.toNames false 0 (cgiHtmlEscape content) = content := by
  induction content with
  | nil => rfl
  | cons c content ih =>
      have here : c ≠ '\r' := fun same => noCR (same ▸ List.mem_cons_self)
      have rest := ih fun member => noCR (List.mem_cons_of_mem c member)
      rw [cgiHtmlEscape_cons]
      rcases escape_one here with ⟨name, member, written⟩ | ⟨other, written⟩
      · have decoded := @References.decode_entity names _ member (cgiHtmlEscape content)
        rw [rest] at decoded
        rw [written]
        exact decoded
      · have listed : ∃ entity ∈ entities, entity.2 = '&' := by decide
        have notAmp : c ≠ '&' := by
          rintro rfl
          obtain ⟨entity, member, same⟩ := listed
          exact other entity member same
        rw [written, List.cons_append, List.nil_append, References.decode, if_neg notAmp, rest]

end Escape

namespace CgiOutput

theorem text_eq (o : CgiOutput) :
    o.text = "<script>".toList ++ (o.script ++ "</script>".toList) := by
  have atFront : "<script>document.getElementById('s".toList =
      "<script>".toList ++ ("document.getElementById(".toList ++ ['\'', 's']) := by decide
  have inMiddle : "').innerHTML += '".toList = '\'' :: (").innerHTML += ".toList ++ ['\'']) := by
    decide
  have atBack : "';</script>".toList = '\'' :: (";".toList ++ "</script>".toList) := by decide
  have ends : "<script>".toList ++ (o.script ++ ("</script>".toList ++ [])) =
      "<script>".toList ++ (o.script ++ "</script>".toList) :=
    congrArg (fun e => "<script>".toList ++ (o.script ++ e)) (List.append_nil _)
  rw [← ends]
  cases o with
  | shell content sessionId =>
      apply (List.append_nil _).symm.trans
      exact (Output.regroup (List.append_nil _).symm (List.nil_append _).symm _ _ _).trans
        (Output.assemble atFront inMiddle atBack _ _ _)
  | command content sessionId =>
      have opened : "').innerHTML += '<b>".toList = "').innerHTML += '".toList ++ "<b>".toList := by
        decide
      have closed : "</b>';</script>".toList = "</b>".toList ++ "';</script>".toList := by decide
      apply (List.append_nil _).symm.trans
      exact (Output.regroup opened closed _ _ _).trans (Output.assemble atFront inMiddle atBack _ _ _)

variable {names : StandardNames} {o : CgiOutput}

theorem stays_script (noCR : '\r' ∉ o.content) : Script.Stays o.script := by
  have number : Script.Stays (Text.decimal o.sessionId) :=
    .plain fun member => (decimal_inside _ _ member).plain.2 rfl
  have escaped : Script.Stays (cgiHtmlEscape o.content) :=
    .plain fun member => (escape_plain noCR _ member).1 rfl
  have body : Script.Stays o.literal := by
    cases o with
    | shell content sessionId => exact (Script.Stays.nil.append escaped).append .nil
    | command content sessionId =>
        exact (Output.stays_bold.1.append escaped).append Output.stays_bold.2
  have code : ∀ text : Text, '<' ∉ text → Script.Stays text := fun text => .plain
  exact (code _ (by decide)).append (.cons (by decide) ((Script.Stays.cons (by decide) number).append
    (.cons (by decide) ((code _ (by decide)).append (.cons (by decide) (body.append
      (.cons (by decide) (code _ (by decide)))))))))

theorem element_text (noCR : '\r' ∉ o.content) (rest : Text) :
    Script.element (o.text ++ rest) = some (o.script, rest) := by
  have behind : o.text ++ rest = "<script>".toList ++ (o.script ++ ("</script>".toList ++ rest)) := by
    rw [text_eq]
    simp only [List.append_assoc]
  rw [behind]
  exact Script.element_eq (stays_script noCR) _

/-- Without a backslash the body stays in its literal, and is its own value. -/
theorem plain_literal (noCR : '\r' ∉ o.content) (noBackslash : '\\' ∉ o.content) :
    ∀ c ∈ o.literal, Script.Plain c := by
  have tags : ∀ c ∈ "<b>".toList ++ "</b>".toList, c ≠ '\'' ∧ c ≠ '\\' ∧ c ≠ '\n' ∧ c ≠ '\r' :=
    Text.forall_chars (by decide)
  intro c member
  rcases List.mem_append.mp member with front | last
  · rcases List.mem_append.mp front with first | inner
    · cases o with
      | shell content sessionId => cases first
      | command content sessionId => exact tags c (List.mem_append_left _ first)
    · obtain ⟨-, quote, newline, cr, backslash⟩ := escape_plain noCR c inner
      exact ⟨quote, fun same => noBackslash (backslash same), newline, cr⟩
  · cases o with
    | shell content sessionId => cases last
    | command content sessionId => exact tags c (List.mem_append_right _ last)

theorem plain_id (o : CgiOutput) : ∀ c ∈ 's' :: Text.decimal o.sessionId, Script.Plain c := by
  intro c member
  rcases List.mem_cons.mp member with rfl | digit
  · exact ⟨by decide, by decide, by decide, by decide⟩
  · exact (decimal_inside _ c digit).plain.1

theorem unescape_self {s : Text} (plain : ∀ c ∈ s, Script.Plain c) : Script.unescape 0 s = some s := by
  have own := Script.unescape_plain (fun member => (plain _ member).2.1 rfl) []
  rw [List.append_nil] at own
  exact own.trans (congrArg some (List.append_nil s))

theorem pieces_script (noCR : '\r' ∉ o.content) (noBackslash : '\\' ∉ o.content) (fuel : Nat) :
    Script.pieces (fuel + 3) o.script = some
      [.code "document.getElementById(".toList, .literal ('s' :: Text.decimal o.sessionId),
        .code ").innerHTML += ".toList, .literal o.literal, .code ";".toList] := by
  have last := Script.pieces_last ";".toList (by decide) fuel
  apply (Script.pieces_literal (by decide) (plain_id o) (fuel + 2)).trans
  apply (congrArg _ (Script.pieces_literal (by decide) (plain_literal noCR noBackslash) (fuel + 1))).trans
  rw [last]
  rfl

/-- Text without `<` is read as text. -/
theorem tokens_plain {s : Text} (plain : '<' ∉ s) :
    Html.tokens .data s = s.map .char ∧ Html.after .data s = .data := by
  induction s with
  | nil => exact ⟨rfl, rfl⟩
  | cons c s ih =>
      have other : c ≠ '<' := fun same => plain (same ▸ List.mem_cons_self)
      have next : Html.step .data c = (.data, [.char c]) := if_neg other
      obtain ⟨read, state⟩ := ih fun member => plain (List.mem_cons_of_mem c member)
      have following : Html.after .data (c :: s) = Html.after (Html.step .data c).1 s := rfl
      rw [Html.tokens, following, next, read, state]
      exact ⟨rfl, rfl⟩

theorem Appends.noBackslash (noCR : '\r' ∉ o.content) (appends : o.Appends names.toNames) :
    '\\' ∉ o.content := by
  intro member
  obtain ⟨v, value, -, -, read⟩ := appends.value
  have tags : '\\' ∉ o.opening ∧ '\\' ∉ o.closing ∧ ∀ c ∈ o.closing.head?, Script.Active c := by
    cases o with
    | shell content sessionId =>
        refine ⟨List.not_mem_nil, List.not_mem_nil, ?_⟩
        intro c first
        cases first
    | command content sessionId =>
        have opens : '\\' ∉ "<b>".toList := by decide
        have closes : '\\' ∉ "</b>".toList := by decide
        refine ⟨opens, closes, ?_⟩
        intro c first
        obtain rfl : '<' = c := Option.some.inj first
        exact ⟨by decide, by decide, by decide⟩
  rw [literal, List.append_assoc, Script.unescape_plain tags.1] at value
  obtain ⟨w, rest, same⟩ := Option.map_eq_some_iff.mp value
  rw [List.append_assoc] at same
  obtain ⟨v', m, rfl, pieces, few⟩ := (bounded_escape noCR tags.2.2 tags.2.1).2 member w rest
  obtain rfl : v' = v := List.append_cancel_right (List.append_cancel_left same)
  have short : (References.decode names.toNames false 0 (References.newlines v')).length ≤ m :=
    pieces.newlines.length_decode
  have some : 0 < o.content.length := List.length_pos_of_mem member
  have least := congrArg List.length read
  have fewer : (References.text names.toNames v').length ≤
      (References.decode names.toNames false 0 (References.newlines v')).length :=
    List.length_filter_le _ _
  omega

/-- The scripts of `cgi_server` append just the contents without a backslash. -/
theorem appends_iff (names : StandardNames) (o : CgiOutput) (noNul : '\x00' ∉ o.content)
    (noCR : '\r' ∉ o.content) : o.Appends names.toNames ↔ '\\' ∉ o.content := by
  constructor
  · exact Appends.noBackslash noCR
  · intro noBackslash
    refine ⟨element_text noCR, pieces_script noCR noBackslash, unescape_self (plain_id o),
      cgiHtmlEscape o.content, unescape_self (plain_literal noCR noBackslash), ?_⟩
    have noTag : '<' ∉ cgiHtmlEscape o.content := fun member => (escape_plain noCR _ member).1 rfl
    have kept : '\r' ∉ cgiHtmlEscape o.content := fun member => (escape_plain noCR _ member).2.2.2.1 rfl
    obtain ⟨read, state⟩ := tokens_plain noTag
    refine ⟨read, state, ?_⟩
    rw [References.text, References.newlines_eq kept, decode_escape noCR]
    apply List.filter_eq_self.mpr
    intro c member
    exact decide_eq_true fun same => noNul (same ▸ member)

/-- The references of the standard, without the others. -/
def fewNames : StandardNames where
  table := entities.map fun entity => (entity.1, [entity.2])
  shorter := by decide
  standard := by decide
  distinct := by decide
  semicolon := by decide
  noAmp := by decide

theorem appends_iff_prompt : (CgiOutput.command "ls > 'a&b'\n".toList 3).Appends fewNames.toNames :=
  (appends_iff fewNames (.command "ls > 'a&b'\n".toList 3) (by decide) (by decide)).mpr (by decide)

/-- A backslash takes the quote that the program writes into the literal. -/
theorem backslash_lost : ¬ ∀ (names : StandardNames) (o : CgiOutput), '\x00' ∉ o.content →
    '\r' ∉ o.content → o.Appends names.toNames := by
  intro all
  obtain ⟨v, value, -⟩ := (all fewNames (.shell "a\\".toList 0) (by decide) (by decide)).value
  have none : Script.unescape 0 (CgiOutput.shell "a\\".toList 0).literal = none := by decide
  rw [none] at value
  cases value

end CgiOutput

end NetProg.CGI
