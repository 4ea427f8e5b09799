import NetProg.Console.CgiUtil
import NetProg.Lib.Script

/-!
# What a shell can write into the console page

`ClientInfo` of `cgi_util.cpp` sends shell output and commands to the browser as script elements.
`printEscape` leaves only letters, digits and numeric character references of the content, so no
content ends the string literal or the script that it stands in.
-/

namespace NetProg.CGI

open Script (Piece)

/-- `isalnum` of a `char` in the C locale. -/
def isalnum (c : UInt8) : Bool :=
  (48 ≤ c && c ≤ 57) || (65 ≤ c && c ≤ 90) || (97 ≤ c && c ≤ 122)

/-- `out << c`. -/
def char (c : UInt8) : Char := Char.ofNat c.toNat

/-- One turn of the loop of `printEscape`; a `char` is signed. -/
def escapeChar (c : UInt8) : Text :=
  if isalnum c then [char c]
  else "&#".toList ++ Text.decimal c.toInt8.toInt ++ ";".toList

/-- `printEscape` (`np_project3/cgiserver/cgi_util.cpp:134-141`). -/
def printEscape (content : List UInt8) : Text := content.flatMap escapeChar

example : printEscape [97, 60, 195] = "a&#60;&#-61;".toList := by decide

/-- `ClientInfo` (`np_project3/cgiserver/cgi_util.hpp:33-39`). -/
structure ClientInfo where
  sessionId : Int
  userCommand : List UInt8
  shellOutput : List UInt8

namespace ClientInfo

/-- `output_command` (`np_project3/cgiserver/cgi_util.cpp:118-124`). -/
def outputCommand (info : ClientInfo) : Text :=
  "<script>document.getElementById('s".toList ++ Text.decimal info.sessionId ++
    "').innerHTML += '<b>".toList ++ printEscape info.userCommand ++ "</b>';</script>".toList ++
    "\n".toList

/-- `output_shell` (`np_project3/cgiserver/cgi_util.cpp:126-132`). -/
def outputShell (info : ClientInfo) : Text :=
  "<script>document.getElementById('s".toList ++ Text.decimal info.sessionId ++
    "').innerHTML += '".toList ++ printEscape info.shellOutput ++ "';</script>".toList ++ "\n".toList

end ClientInfo

/-- A call of `output_shell` or `output_command`. -/
inductive Output where
  | shell (info : ClientInfo)
  | command (info : ClientInfo)

namespace Output

/-- What is sent to the browser. -/
def text : Output → Text
  | shell info => info.outputShell
  | command info => info.outputCommand

def info : Output → ClientInfo
  | shell info => info
  | command info => info

/-- The untrusted part. -/
def content : Output → List UInt8
  | shell info => info.shellOutput
  | command info => info.userCommand

/-- The tag in front of the content. -/
def opening : Output → Text
  | shell _ => []
  | command _ => "<b>".toList

def closing : Output → Text
  | shell _ => []
  | command _ => "</b>".toList

/-- What stands in the second literal. -/
def body (o : Output) : Text := o.opening ++ printEscape o.content ++ o.closing

/-- The script of the element. -/
def script (o : Output) : Text :=
  "document.getElementById(".toList ++ '\'' :: (('s' :: Text.decimal o.info.sessionId) ++ '\'' ::
    (").innerHTML += ".toList ++ '\'' :: (o.body ++ '\'' :: ";".toList)))

end Output

/-- A character between the quotes. -/
def Inside (c : Char) : Prop := c.isAlphanum = true ∨ c = '&' ∨ c = '#' ∨ c = ';' ∨ c = '-'

instance (c : Char) : Decidable (Inside c) := inferInstanceAs (Decidable (_ ∨ _))

section Characters

theorem Inside.plain {c : Char} (inside : Inside c) : Script.Plain c ∧ c ≠ '<' := by
  refine ⟨⟨?_, ?_, ?_, ?_⟩, ?_⟩
  all_goals
    rintro rfl
    exact absurd inside (by decide)

theorem digit_inside {c : Char} (digit : c.isDigit = true) : Inside c := by
  left
  rw [Char.isAlphanum, digit, Bool.or_true]

/-- A number is printed as digits, perhaps behind a sign. -/
theorem decimal_inside (n : Int) : ∀ c ∈ Text.decimal n, Inside c := by
  have digits : ∀ m : Nat, ∀ c ∈ m.repr.toList, Inside c := by
    intro m c member
    rw [Nat.toList_repr] at member
    exact digit_inside (Nat.isDigit_of_mem_toDigits (by decide) (by decide) member)
  intro c member
  rw [Text.decimal, Int.toString_eq_repr, Int.repr_eq_if] at member
  split at member
  · exact digits _ c member
  · rw [String.toList_append] at member
    rcases List.mem_append.mp member with sign | digit
    · obtain rfl : c = '-' := List.mem_singleton.mp sign
      decide
    · exact digits _ c digit

theorem alnum_inside {c : UInt8} (alnum : isalnum c = true) : Inside (char c) := by
  have all : ∀ n : Fin 256, isalnum (.ofFin n) = true → Inside (char (.ofFin n)) := by
    decide +kernel
  exact all c.toFin alnum

theorem escapeChar_inside (c : UInt8) : ∀ d ∈ escapeChar c, Inside d := by
  intro d member
  unfold escapeChar at member
  split at member
  · rename_i alnum
    rw [List.mem_singleton.mp member]
    exact alnum_inside alnum
  · rcases List.mem_append.mp member with front | last
    · rcases List.mem_append.mp front with mark | number
      · have marks : ∀ d ∈ "&#".toList, Inside d := by simp [Inside]
        exact marks d mark
      · exact decimal_inside _ d number
    · obtain rfl : d = ';' := List.mem_singleton.mp last
      decide

theorem printEscape_inside (content : List UInt8) : ∀ c ∈ printEscape content, Inside c := by
  intro c member
  obtain ⟨byte, -, inside⟩ := List.mem_flatMap.mp member
  exact escapeChar_inside byte c inside

end Characters

namespace Output

theorem assemble {front opens first middle second last closes back : Text}
    (atFront : front = opens ++ (first ++ ['\'', 's'])) (inMiddle : middle = '\'' :: (second ++ ['\'']))
    (atBack : back = '\'' :: (last ++ closes)) (id body behind : Text) :
    front ++ id ++ middle ++ body ++ back ++ behind =
      opens ++ ((first ++ '\'' :: (('s' :: id) ++ '\'' :: (second ++ '\'' :: (body ++ '\'' :: last)))) ++
        (closes ++ behind)) := by
  subst atFront inMiddle atBack
  simp

theorem regroup {front middle isOpen back close opened closed : Text} (inMiddle : opened = middle ++ isOpen)
    (atBack : closed = close ++ back) (id body behind : Text) :
    front ++ id ++ opened ++ body ++ closed ++ behind =
      front ++ id ++ middle ++ (isOpen ++ body ++ close) ++ back ++ behind := by
  subst inMiddle atBack
  simp

theorem text_eq (o : Output) :
    o.text = "<script>".toList ++ (o.script ++ ("</script>".toList ++ "\n".toList)) := by
  have atFront : "<script>document.getElementById('s".toList =
      "<script>".toList ++ ("document.getElementById(".toList ++ ['\'', 's']) := by decide
  have inMiddle : "').innerHTML += '".toList = '\'' :: (").innerHTML += ".toList ++ ['\'']) := by
    decide
  have atBack : "';</script>".toList = '\'' :: (";".toList ++ "</script>".toList) := by decide
  cases o with
  | shell info =>
      exact (regroup (List.append_nil _).symm (List.nil_append _).symm _ _ _).trans
        (assemble atFront inMiddle atBack _ _ _)
  | command info =>
      have opened : "').innerHTML += '<b>".toList = "').innerHTML += '".toList ++ "<b>".toList := by
        decide
      have closed : "</b>';</script>".toList = "</b>".toList ++ "';</script>".toList := by decide
      exact (regroup opened closed _ _ _).trans (assemble atFront inMiddle atBack _ _ _)

/-- The tags around a command end no script. -/
theorem stays_bold : Script.Stays "<b>".toList ∧ Script.Stays "</b>".toList := by
  constructor
  · have more : Script.Stays ['b', '>'] := .plain (by decide)
    exact more.quiet (c := '<') (fun _ => rfl) fun _ => rfl
  · have more : Script.Stays ['/', 'b', '>'] := .plain (by decide)
    exact more.quiet (c := '<') (fun _ => rfl) fun _ => rfl

/-- No content ends the script. -/
theorem stays_script (o : Output) : Script.Stays o.script := by
  have number : Script.Stays (Text.decimal o.info.sessionId) :=
    .plain fun member => (decimal_inside _ _ member).plain.2 rfl
  have escaped : ∀ content, Script.Stays (printEscape content) := fun content =>
    .plain fun member => (printEscape_inside content _ member).plain.2 rfl
  have body : Script.Stays o.body := by
    cases o with
    | shell info => exact (Script.Stays.nil.append (escaped _)).append .nil
    | command info => exact (stays_bold.1.append (escaped _)).append stays_bold.2
  have code : ∀ text : Text, '<' ∉ text → Script.Stays text := fun text => .plain
  exact (code _ (by decide)).append (.cons (by decide) ((Script.Stays.cons (by decide) number).append
    (.cons (by decide) ((code _ (by decide)).append (.cons (by decide) (body.append
      (.cons (by decide) (code _ (by decide)))))))))

/-- The body stays in its literal. -/
theorem plain_body (o : Output) : ∀ c ∈ o.body, Script.Plain c := by
  intro c member
  rcases List.mem_append.mp member with front | last
  · rcases List.mem_append.mp front with first | inner
    · cases o with
      | shell info => cases first
      | command info =>
          have which : c = '<' ∨ c = 'b' ∨ c = '>' := by simpa [opening] using first
          rcases which with rfl | rfl | rfl
          all_goals exact ⟨by decide, by decide, by decide, by decide⟩
    · exact (printEscape_inside _ c inner).plain.1
  · cases o with
    | shell info => cases last
    | command info =>
        have which : c = '<' ∨ c = '/' ∨ c = 'b' ∨ c = '>' := by simpa [closing] using last
        rcases which with rfl | rfl | rfl | rfl
        all_goals exact ⟨by decide, by decide, by decide, by decide⟩

theorem pieces_script (o : Output) (fuel : Nat) : Script.pieces (fuel + 3) o.script = some
      [.code "document.getElementById(".toList, .literal ('s' :: Text.decimal o.info.sessionId),
        .code ").innerHTML += ".toList, .literal o.body, .code ";".toList] := by
  have id : ∀ c ∈ 's' :: Text.decimal o.info.sessionId, Script.Plain c := by
    intro c member
    rcases List.mem_cons.mp member with rfl | digit
    · exact ⟨by decide, by decide, by decide, by decide⟩
    · exact (decimal_inside _ c digit).plain.1
  have last := Script.pieces_last ";".toList (by decide) fuel
  apply (Script.pieces_literal (by decide) id (fuel + 2)).trans
  apply (congrArg _ (Script.pieces_literal (by decide) (plain_body o) (fuel + 1))).trans
  rw [last]
  rfl

/-- The output is one script element with two literals.  What the content puts into the second one
consists of letters, digits and the characters of numeric references. -/
structure Inert (o : Output) : Prop where
  element : ∀ rest, Script.element (o.text ++ rest) = some (o.script, '\n' :: rest)
  literals : ∀ fuel, Script.pieces (fuel + 3) o.script = some
    [.code "document.getElementById(".toList, .literal ('s' :: Text.decimal o.info.sessionId),
      .code ").innerHTML += ".toList, .literal (o.opening ++ printEscape o.content ++ o.closing),
      .code ";".toList]
  inside : ∀ c ∈ printEscape o.content, Inside c

theorem element_text (o : Output) (rest : Text) :
    Script.element (o.text ++ rest) = some (o.script, '\n' :: rest) := by
  have behind : o.text ++ rest =
      "<script>".toList ++ (o.script ++ ("</script>".toList ++ ("\n".toList ++ rest))) := by
    rw [text_eq]
    simp only [List.append_assoc]
  rw [behind]
  exact Script.element_eq (stays_script o) _

theorem inert (o : Output) : o.Inert := ⟨element_text o, pieces_script o, printEscape_inside o.content⟩

end Output

/-- What a browser gets of a sequence of outputs. -/
def page (outputs : List Output) : Text := outputs.flatMap Output.text

theorem elements_page (outputs : List Output) (fuel : Nat) :
    Script.elements (outputs.length + fuel) (page outputs) = some (outputs.map Output.script) := by
  induction outputs with
  | nil => cases fuel <;> rfl
  | cons o outputs ih =>
      have more : (o :: outputs).length + fuel = outputs.length + fuel + 1 := by
        rw [List.length_cons]
        omega
      rw [more, page, List.flatMap_cons, Script.elements_cons (o.element_text _)]
      exact congrArg _ ih

theorem length_le_page (outputs : List Output) : outputs.length ≤ (page outputs).length := by
  induction outputs with
  | nil => exact Nat.zero_le _
  | cons o outputs ih =>
      have some : 1 ≤ o.text.length := by
        rw [o.text_eq, List.length_append]
        exact Nat.le_add_right_of_le (by decide)
      rw [page, List.flatMap_cons, List.length_append, List.length_cons, Nat.add_comm]
      exact Nat.add_le_add some ih

/-- Whatever a shell writes and a user types, every output is one inert script element, and a page of
them is read back as these elements. -/
theorem outputs_inert (outputs others : List Output) :
    (∀ o : Output, o.Inert) ∧
      Script.elements (page outputs).length (page outputs) = some (outputs.map Output.script) ∧
      (page outputs = page others ↔ outputs.map Output.text = others.map Output.text) := by
  have scripts : ∀ outputs, Script.elements (page outputs).length (page outputs) =
      some (outputs.map Output.script) := by
    intro outputs
    obtain ⟨fuel, enough⟩ := Nat.exists_eq_add_of_le (length_le_page outputs)
    rw [enough, elements_page]
  have texts : ∀ outputs : List Output, outputs.map Output.text = (outputs.map Output.script).map
      fun script => "<script>".toList ++ (script ++ ("</script>".toList ++ "\n".toList)) := by
    intro outputs
    rw [List.map_map]
    exact List.map_congr_left fun o _ => o.text_eq
  refine ⟨Output.inert, scripts outputs, ?_⟩
  constructor
  · intro same
    have read := scripts outputs
    rw [same, scripts others] at read
    rw [texts, texts, Option.some.inj read]
  · intro same
    rw [page, page, List.flatMap_def, same, ← List.flatMap_def]

end NetProg.CGI
