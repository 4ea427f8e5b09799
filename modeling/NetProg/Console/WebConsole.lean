import NetProg.Console.HttpRequest
import NetProg.Lib.Find
import NetProg.Lib.Html

/-!
# The page of the console

`generateHTTPNPShellWebConsole` takes a template with one header cell and one cell for a session,
and replaces the first by a cell for every host, and the second by as many.  The hosts come from the
URL and are written as they are; the second search runs over them.
-/

namespace NetProg.CGI

/-- `HTML_CONTENT_TYPE` (`np_project3/cgiserver/cgi_util.hpp:16`). -/
def htmlContentType : Text := "Content-type: text/html\r\n\r\n".toList

/-- The cell of the template that the hosts replace. -/
def headerCell : Text := "<th scope=\"col\"></th>".toList

/-- The cell of the template that the sessions replace. -/
def preCell : Text := "<td><pre id=\"s0\" class=\"mb-0\"></pre></td>".toList

/-- `npshell_webconsole` (`np_project3/cgiserver/cgi_util.hpp:56-107`). -/
def npshellWebconsole : Text :=
  "
<!DOCTYPE html>
<html lang=\"en\">
  <head>
    <meta charset=\"UTF-8\" />
    <title>NP Project 3 Sample Console</title>
    <link
      rel=\"stylesheet\"
      href=\"https://cdn.jsdelivr.net/npm/bootstrap@4.5.3/dist/css/bootstrap.min.css\"
      integrity=\"sha384-TX8t27EcRE3e/ihU7zmQxVncDAy5uIKz4rEkgIXeMed4M0jlfIDPvg6uqKI2xXr2\"
      crossorigin=\"anonymous\"
    />
    <link
      href=\"https://fonts.googleapis.com/css?family=Source+Code+Pro\"
      rel=\"stylesheet\"
    />
    <link
      rel=\"icon\"
      type=\"image/png\"
      href=\"https://cdn0.iconfinder.com/data/icons/small-n-flat/24/678068-terminal-512.png\"
    />
    <style>
      * \x7b
        font-family: 'Source Code Pro', monospace;
        font-size: 1rem !important;
      \x7d
      body \x7b
        background-color: #212529;
      \x7d
      pre \x7b
        color: #cccccc;
      \x7d
      b \x7b
        color: #01b468;
      \x7d
    </style>
  </head>
  <body>
    <table class=\"table table-dark table-bordered\">
      <thead>
        <tr>
          <th scope=\"col\"></th>
        </tr>
      </thead>
      <tbody>
        <tr>
          <td><pre id=\"s0\" class=\"mb-0\"></pre></td>
        </tr>
      </tbody>
    </table>
  </body>
</html>".toList

/-- Between the tags. -/
def tagBreak : Text := "\r\n          ".toList

/-- What stands in the header of a host. -/
def label (info : ServerInfo) : Text := info.host ++ ":".toList ++ info.port

/-- A header with something in it. -/
def thTag (inner : Text) : Text := "<th scope=\"col\">".toList ++ inner ++ "</th>".toList

def tdTag (i : Nat) : Text :=
  "<td><pre id=\"s".toList ++ Text.decimal i ++ "\" class=\"mb-0\"></pre></td>".toList

def thTags (hosts : List ServerInfo) : Text :=
  tagBreak.intercalate (hosts.map fun info => thTag (label info))

def tdTags (n : Nat) : Text := tagBreak.intercalate ((List.range n).map tdTag)

/-- `base_html` after both replacements. -/
def baseHtml (file : Option Text) (hosts : List ServerInfo) : Text :=
  let baseHtml := file.getD npshellWebconsole
  let baseHtml := Find.replaceFirst headerCell (thTags hosts) baseHtml
  Find.replaceFirst preCell (tdTags hosts.length) baseHtml

/-- `generateHTTPNPShellWebConsole` (`np_project3/cgiserver/cgi_util.cpp:49-93`), with the contents
of the template file when it opens. -/
def generateHTTPNPShellWebConsole (file : Option Text) (hosts : List ServerInfo) : Text :=
  htmlContentType ++ baseHtml file hosts

/-- A text with each of the two cells once. -/
structure Template where
  text : Text
  header : Find.occurrences headerCell text = 1
  pre : Find.occurrences preCell text = 1

/-- A fact about a literal is one about its characters. -/
theorem of_literal {P : Text → Prop} {s : String} {l : Text} (same : String.ofList l = s) (holds : P l) :
    P s.toList := by
  subst same
  rw [String.toList_ofList]
  exact holds

set_option maxRecDepth 20000 in
/-- The template that the program carries. -/
def Template.shipped : Template where
  text := npshellWebconsole
  header := by
    apply of_literal (P := fun s => Find.occurrences headerCell s = 1) rfl
    decide +kernel
  pre := by
    apply of_literal (P := fun s => Find.occurrences preCell s = 1) rfl
    decide +kernel

/-- Which of the two cells comes first. -/
inductive Order where
  | headerFirst
  | preFirst

namespace Order

/-- A list of three parts with something in the two places between them. -/
def arrange {α : Type} (order : Order) (a header b pre c : List α) : List α :=
  match order with
  | headerFirst => a ++ (header ++ (b ++ (pre ++ c)))
  | preFirst => a ++ (pre ++ (b ++ (header ++ c)))

/-- What stands in front of the header. -/
def beforeHeader (order : Order) (a b pre : Text) : Text :=
  match order with
  | headerFirst => a
  | preFirst => a ++ (pre ++ b)

/-- What stands in front of the sessions. -/
def beforePre (order : Order) (a header b : Text) : Text :=
  match order with
  | headerFirst => a ++ (header ++ b)
  | preFirst => a

end Order

section Layout

variable {order order' : Order} {a b c a' b' c' s x y : Text} {hosts : List ServerInfo}

theorem clear_header : Find.Clear headerCell preCell := by decide

theorem clear_pre : Find.Clear preCell headerCell := by decide

/-- No session cell reaches into a header. -/
theorem clear_th : Find.Clear preCell "<th".toList := by decide

theorem borderless_pre : Find.Borderless preCell := by decide

/-- A template has three parts around its cells. -/
theorem Template.layout (t : Template) :
    ∃ order a b c, t.text = Order.arrange order a headerCell b preCell c := by
  obtain ⟨a, b, header⟩ := Find.exists_once t.header
  obtain ⟨a', b', pre⟩ := Find.exists_once t.pre
  rcases Find.apart clear_header clear_pre header pre with ⟨m, -, rest⟩ | ⟨m, front, -⟩
  · refine ⟨.headerFirst, a, m, b', ?_⟩
    rw [header, rest]
    rfl
  · refine ⟨.preFirst, a', m, b, ?_⟩
    rw [header, front, List.append_assoc, List.append_assoc]
    rfl

namespace Order

theorem arrange_header (order : Order) (a header b pre c : Text) :
    ∃ s, order.arrange a header b pre c = order.beforeHeader a b pre ++ (header ++ s) := by
  cases order with
  | headerFirst => exact ⟨_, rfl⟩
  | preFirst => exact ⟨c, by simp only [arrange, beforeHeader, List.append_assoc]⟩

theorem arrange_pre (order : Order) (a header b pre c : Text) :
    ∃ s, order.arrange a header b pre c = order.beforePre a header b ++ (pre ++ s) := by
  cases order with
  | headerFirst => exact ⟨c, by simp only [arrange, beforePre, List.append_assoc]⟩
  | preFirst => exact ⟨_, rfl⟩

theorem length_arrange (order : Order) (a header b pre c : Text) :
    (order.arrange a header b pre c).length =
      a.length + header.length + b.length + pre.length + c.length := by
  cases order with
  | headerFirst | preFirst =>
      simp only [arrange, List.length_append]
      omega

end Order

/-- The places of the cells are known. -/
theorem Template.header_place (t : Template) (whole : t.text = order.arrange a headerCell b preCell c)
    (again : t.text = x ++ (headerCell ++ y)) : x = order.beforeHeader a b preCell := by
  obtain ⟨s, place⟩ := order.arrange_header a headerCell b preCell c
  exact Find.once_unique t.header again (whole.trans place)

theorem Template.pre_place (t : Template) (whole : t.text = order.arrange a headerCell b preCell c)
    (again : t.text = x ++ (preCell ++ y)) : x = order.beforePre a headerCell b := by
  obtain ⟨s, place⟩ := order.arrange_pre a headerCell b preCell c
  exact Find.once_unique t.pre again (whole.trans place)

/-- The parts of a template are known. -/
theorem Template.layout_unique (t : Template)
    (whole : t.text = Order.headerFirst.arrange a headerCell b preCell c)
    (whole' : t.text = order.arrange a' headerCell b' preCell c') :
    order = .headerFirst ∧ a = a' ∧ b = b' ∧ c = c' := by
  have own : t.text = (a ++ (headerCell ++ b)) ++ (preCell ++ c) := by
    simp only [whole, Order.arrange, List.append_assoc]
  have first := t.header_place whole' whole
  have second := t.pre_place whole' own
  cases order with
  | headerFirst =>
      obtain rfl : a = a' := first
      have same : a ++ (headerCell ++ b) = a ++ (headerCell ++ b') := second
      have middle : b = b' := List.append_cancel_left (List.append_cancel_left same)
      subst middle
      rw [whole] at whole'
      simp only [Order.arrange, List.append_cancel_left_eq] at whole'
      exact ⟨rfl, rfl, rfl, whole'⟩
  | preFirst =>
      have sizes := congrArg List.length (first.trans (congrArg (· ++ (preCell ++ b')) second.symm))
      have some : 0 < preCell.length := by decide
      simp only [List.length_append] at sizes
      omega

/-- The first search finds the header cell. -/
theorem replace_header (t : Template) (whole : t.text = order.arrange a headerCell b preCell c)
    (header : Text) : Find.replaceFirst headerCell header t.text =
      order.arrange a header b preCell c := by
  cases order with
  | headerFirst =>
      rw [whole]
      exact Find.replaceFirst_eq (Find.once_free t.header whole) header
  | preFirst =>
      have front : t.text = (a ++ (preCell ++ b)) ++ (headerCell ++ c) := by
        simp only [whole, Order.arrange, List.append_assoc]
      rw [front, Find.replaceFirst_eq (Find.once_free t.header front)]
      simp only [Order.arrange, List.append_assoc]

/-- The second search finds the template's own cell, unless one begins before it. -/
theorem replace_pre (t : Template) (whole : t.text = order.arrange a headerCell b preCell c)
    (free : order = .headerFirst → Find.Free preCell (a ++ (x ++ b)) (preCell ++ c)) (pre : Text) :
    Find.replaceFirst preCell pre (order.arrange a x b preCell c) = order.arrange a x b pre c := by
  cases order with
  | headerFirst =>
      have front : Order.headerFirst.arrange a x b preCell c = (a ++ (x ++ b)) ++ (preCell ++ c) := by
        simp only [Order.arrange, List.append_assoc]
      rw [front, Find.replaceFirst_eq (free rfl)]
      simp only [Order.arrange, List.append_assoc]
  | preFirst => exact Find.replaceFirst_eq ((Find.once_free t.pre whole).behind _) pre

theorem thTag_eq (inner : Text) :
    thTag inner = "<th scope=\"col\">".toList ++ (inner ++ Html.closing "th".toList) := by
  have closes : "</th>".toList = Html.closing "th".toList := by decide
  have joined : ∀ opens ends : Text, ends = Html.closing "th".toList →
      opens ++ inner ++ ends = opens ++ (inner ++ Html.closing "th".toList) := by
    rintro opens ends rfl
    exact List.append_assoc opens inner _
  exact joined _ _ closes

/-- No tag begins in a text without markup. -/
theorem free_flat {p : Text} (tag : ['<', 't'] <+: p) (flat : Html.Flat s) (t : Text) :
    Find.Free p s ('<' :: '/' :: t) := by
  induction s with
  | nil => exact .nil
  | cons c s ih =>
      apply Find.Free.cons _ (ih flat.tail)
      intro begins
      obtain ⟨angle, second⟩ := List.cons_prefix_cons.mp (tag.trans begins)
      subst angle
      cases s with
      | nil =>
          have never := (List.cons_prefix_cons.mp second).1
          exact absurd never (by decide)
      | cons d s =>
          have letter := (List.cons_prefix_cons.mp second).1
          subst letter
          exact absurd flat.head (by decide)

/-- No session cell begins in the headers. -/
theorem free_headers {inners : List Text} (flat : ∀ inner ∈ inners, Html.Flat inner) (s : Text) :
    Find.Free preCell (tagBreak.intercalate (inners.map thTag)) s := by
  have one : ∀ inner, Html.Flat inner → ∀ s, Find.Free preCell (thTag inner) s := by
    intro inner plain s
    have opened : ∀ s, Find.Free preCell "<th scope=\"col\">".toList s := .closed (by decide)
    have closed : ∀ s, Find.Free preCell (Html.closing "th".toList) s := .closed (by decide)
    rw [thTag_eq]
    exact (opened _).append ((free_flat (by decide) plain _).append (closed s))
  have between : ∀ s, Find.Free preCell tagBreak s := .closed (by decide)
  induction inners with
  | nil => exact .nil
  | cons inner inners ih =>
      have first := one inner (flat inner List.mem_cons_self)
      have rest := ih fun other member => flat other (List.mem_cons_of_mem inner member)
      cases inners with
      | nil =>
          rw [List.map_cons, List.map_nil, List.intercalate_singleton]
          exact first s
      | cons other inners =>
          rw [List.map_cons, List.map_cons, List.intercalate_cons_cons, List.append_assoc]
          exact (first _).append ((between _).append rest)

/-- Nor does one in front of them, when there are any. -/
theorem headers_begin {inners : List Text} (some : inners ≠ []) :
    ∃ s, tagBreak.intercalate (inners.map thTag) = "<th".toList ++ s := by
  have split : "<th scope=\"col\">".toList = "<th".toList ++ " scope=\"col\">".toList := by decide
  cases inners with
  | nil => exact absurd rfl some
  | cons inner inners =>
      cases inners with
      | nil =>
          rw [List.map_cons, List.map_nil, List.intercalate_singleton, thTag_eq, split,
            List.append_assoc]
          exact ⟨_, rfl⟩
      | cons other inners =>
          rw [List.map_cons, List.map_cons, List.intercalate_cons_cons, thTag_eq, split]
          simp only [List.append_assoc]
          exact ⟨_, rfl⟩

/-- With headers that hold no markup the page is the template with its cells replaced. -/
theorem page_of_flat (t : Template) (whole : t.text = order.arrange a headerCell b preCell c)
    {inners : List Text} (some : inners ≠ []) (flat : ∀ inner ∈ inners, Html.Flat inner) (pre : Text) :
    Find.replaceFirst preCell pre (Find.replaceFirst headerCell
      (tagBreak.intercalate (inners.map thTag)) t.text) =
      order.arrange a (tagBreak.intercalate (inners.map thTag)) b pre c := by
  rw [replace_header t whole]
  apply replace_pre t whole
  rintro rfl
  have own : t.text = (a ++ (headerCell ++ b)) ++ (preCell ++ c) := by
    simp only [whole, Order.arrange, List.append_assoc]
  have free := Find.once_free t.pre own
  obtain ⟨s, begins⟩ := headers_begin some
  have behind : Find.Free preCell b (preCell ++ c) := free.right.right
  have front : Find.Free preCell a ("<th".toList ++ (s ++ (b ++ (preCell ++ c)))) :=
    clear_th.free free.left _
  apply Find.Free.append
  · rw [List.append_assoc, begins, List.append_assoc]
    exact front
  · exact (free_headers flat _).append behind

/-- Without hosts both cells are taken out, unless another session cell comes about before its own. -/
theorem page_empty_iff (t : Template) (whole : t.text = Order.headerFirst.arrange a headerCell b preCell c) :
    Find.replaceFirst preCell [] (Find.replaceFirst headerCell [] t.text) = a ++ (b ++ c) ↔
      ∀ x y, a ++ b = x ++ (preCell ++ y) → y = [] := by
  have own : t.text = (a ++ (headerCell ++ b)) ++ (preCell ++ c) := by
    simp only [whole, Order.arrange, List.append_assoc]
  have free := Find.once_free t.pre own
  have some : preCell ≠ [] := by decide
  have once : ∀ x z, a ++ b ≠ x ++ (preCell ++ (preCell ++ z)) := by
    intro x z twice
    have begins : ∀ s t, preCell <+: (preCell ++ s) ++ t := by
      intro s t
      rw [List.append_assoc]
      exact List.prefix_append preCell (s ++ t)
    have nonempty : ∀ s, preCell ++ s ≠ [] := List.append_ne_nil_of_left_ne_nil some
    rw [← List.append_assoc] at twice
    rcases List.append_eq_append_iff.mp twice with ⟨m, -, rest⟩ | ⟨m, front, -⟩
    · exact free.right.right (preCell ++ z) (rest ▸ List.suffix_append m _) (nonempty z) (begins z _)
    · rw [List.append_assoc] at front
      exact free.left (preCell ++ m) (front ▸ List.suffix_append x _) (nonempty m) (begins m _)
  have gone : Order.headerFirst.arrange a [] b preCell c = (a ++ b) ++ (preCell ++ c) := by
    simp only [Order.arrange, List.nil_append, List.append_assoc]
  rw [replace_header t whole, gone, ← List.append_assoc a b c]
  exact Find.remove_iff borderless_pre some once

end Layout

end NetProg.CGI
