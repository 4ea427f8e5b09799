import NetProg.Console.Escape
import NetProg.Console.WebConsole
import Mathlib.Data.List.Nodup

/-!
# The page and its scripts

What a browser reads in the page of the console: a header for every host, an element for every
session that its scripts address, and otherwise the template.
-/

namespace NetProg.CGI

open References (Names)
open Html (Token Tag tokens after elements ids)

/-- The element that a script addresses: the first literal in it. -/
def Output.target (o : Output) : Option Text := do
  let pieces ← Script.pieces 3 o.script
  pieces.findSome? fun
    | .literal text => some text
    | .code _ => none

/-- The id of a session. -/
def sessionId (k : Nat) : Text := 's' :: Text.decimal k

/-- A host with nothing in its header. -/
def blank (_ : ServerInfo) : ServerInfo := ⟨[], [], []⟩

/-- What a page for the hosts should be, given how the program makes one for any hosts: the template
with its cells replaced, a header a host that is read as the host and its port, no other elements
than for blank hosts, and one element for what the scripts of a session address. -/
structure Fits (names : Names) (t : Template) (page : List ServerInfo → Text)
    (hosts : List ServerInfo) : Prop where
  cells : ∃ order a b c inners,
    t.text = Order.arrange order a headerCell b preCell c ∧
    List.Forall₂ (fun inner info => Html.Reads names "th".toList inner (label info)) inners hosts ∧
    page hosts = order.arrange a (tagBreak.intercalate (inners.map thTag)) b (tdTags hosts.length) c ∧
    (hosts ≠ [] → after .data (order.beforeHeader a b (tdTags hosts.length)) = .data ∧
      after .data (order.beforePre a (tagBreak.intercalate (inners.map thTag)) b) = .data)
  elements : elements (tokens .data (page hosts)) = elements (tokens .data (page (hosts.map blank)))
  ids : ∀ k < hosts.length, ∀ o : Output, o.info.sessionId = k →
    ∃ id, o.target = some id ∧ (ids names (tokens .data (page hosts))).count id = 1

/-- When it is: no host is read as anything but its characters, the cells of the template stand where
text is read, and its ids are not those of sessions.  Without hosts no other session cell may come
about where the header cell is taken out. -/
structure Fitting (names : Names) (t : Template) (hosts : List ServerInfo) : Prop where
  labels : ∀ info ∈ hosts, Html.Flat (label info) ∧ References.Literal names (label info)
  header : hosts ≠ [] → ∀ a b, t.text = a ++ (headerCell ++ b) → after .data a = .data
  pre : hosts ≠ [] → ∀ a b, t.text = a ++ (preCell ++ b) → after .data a = .data
  ids : ∀ k < hosts.length,
    (ids names (tokens .data t.text)).count (sessionId k) = if k = 0 then 1 else 0
  empty : hosts = [] → ∀ a b c, t.text = a ++ (headerCell ++ (b ++ (preCell ++ c))) →
    ∀ x y, a ++ b = x ++ (preCell ++ y) → y = []

section Read

variable {names : Names} {s x y a b c header pre : Text} {order : Order} {es es' : List Tag}

/-- A text that is read completely, with the elements in it. -/
structure Complete (s : Text) (es : List Tag) : Prop where
  state : after .data s = .data
  elements : elements (tokens .data s) = es

theorem Complete.append (first : Complete x es) (second : Complete y es') : Complete (x ++ y) (es ++ es') := by
  constructor
  · rw [Html.after_append, first.state, second.state]
  · rw [Html.tokens_append, Html.elements_append, first.state, first.elements, second.elements]

/-- Cells that are read completely, with line breaks between them. -/
theorem complete_cells {cells : List Text} {ess : List (List Tag)} (all : List.Forall₂ Complete cells ess) :
    Complete (tagBreak.intercalate cells) ess.flatten := by
  have between : Complete tagBreak [] := ⟨by decide, by decide⟩
  induction all with
  | nil => exact ⟨rfl, rfl⟩
  | @cons cell es cells ess first rest ih =>
      rw [List.flatten_cons]
      cases rest with
      | nil =>
          rw [List.intercalate_singleton, List.flatten_nil, List.append_nil]
          exact first
      | cons second more =>
          rw [List.intercalate_cons_cons, List.append_assoc]
          exact first.append (between.append ih)

def thElement : Tag := ⟨false, "th".toList, [("scope".toList, "col".toList)]⟩

def preElements (id : Text) : List Tag :=
  [⟨false, "td".toList, []⟩, ⟨false, "pre".toList, [("id".toList, id), ("class".toList, "mb-0".toList)]⟩]

/-- A header is one element. -/
theorem complete_thTag {inner expected : Text} (reads : Html.Reads names "th".toList inner expected) :
    Complete (thTag inner) [thElement] := by
  obtain ⟨raw, read, state, -⟩ := reads
  have opened : Complete "<th scope=\"col\">".toList [thElement] := ⟨by decide, by decide⟩
  have text : Complete (inner ++ Html.closing "th".toList) [] := by
    refine ⟨state, ?_⟩
    rw [read, Html.elements_append, Html.elements_chars]
    rfl
  rw [thTag_eq]
  exact opened.append text

theorem decimal_eq (k : Nat) : Text.decimal k = Nat.toDigits 10 k := Nat.toList_repr

theorem digit_decimal (k : Nat) : ∀ c ∈ Text.decimal k, c.isDigit = true := by
  intro c member
  rw [decimal_eq] at member
  exact Nat.isDigit_of_mem_toDigits (by decide) (by decide) member

theorem sessionId_plain (k : Nat) : ∀ c ∈ sessionId k, c = 's' ∨ c.isDigit = true := by
  intro c member
  rcases List.mem_cons.mp member with rfl | digit
  · exact .inl rfl
  · exact .inr (digit_decimal k c digit)

theorem not_mem_sessionId {c : Char} (other : c ≠ 's') (noDigit : c.isDigit = false) (k : Nat) :
    c ∉ sessionId k := by
  intro member
  rcases sessionId_plain k c member with same | digit
  · exact other same
  · exact Bool.false_ne_true (noDigit.symm.trans digit)

theorem sessionId_injective : Function.Injective sessionId := by
  intro i j same
  have digits := (List.cons.inj same).2
  rw [decimal_eq, decimal_eq] at digits
  have values := congrArg (fun digits => Nat.ofDigitChars 10 digits 0) digits
  simp only [Nat.ofDigitChars_toDigits (by decide : 1 < 10) (by decide : 10 ≤ 10)] at values
  exact values

/-- The value of the id is what is written. -/
theorem value_sessionId (names : Names) (k : Nat) :
    References.value names (sessionId k) = sessionId k := by
  apply References.value_eq
  intro c member
  refine ⟨?_, ?_, ?_⟩
  all_goals
    rintro rfl
    exact not_mem_sessionId (by decide) (by decide) k member

/-- The cell of a session is an element with its id, in another one. -/
theorem complete_tdTag (k : Nat) : Complete (tdTag k) (preElements (sessionId k)) := by
  have opened : after .data "<td><pre id=\"".toList = .quoted '"' ⟨false, "pre".toList, []⟩ "id".toList [] ∧
      elements (tokens .data "<td><pre id=\"".toList) = [⟨false, "td".toList, []⟩] :=
    ⟨by decide, by decide⟩
  have closed : ∀ id : Text, after (.quoted '"' ⟨false, "pre".toList, []⟩ "id".toList id)
      "\" class=\"mb-0\"></pre></td>".toList = .data ∧
      elements (tokens (.quoted '"' ⟨false, "pre".toList, []⟩ "id".toList id)
        "\" class=\"mb-0\"></pre></td>".toList) =
      [⟨false, "pre".toList, [("id".toList, id), ("class".toList, "mb-0".toList)]⟩] :=
    fun id => ⟨rfl, rfl⟩
  have split : ∀ {opens digits ends : Text}, opens = "<td><pre id=\"".toList ++ ['s'] →
      opens ++ digits ++ ends = "<td><pre id=\"".toList ++ (('s' :: digits) ++ ends) := by
    rintro opens digits ends rfl
    simp only [List.append_assoc, List.cons_append, List.nil_append]
  obtain ⟨silent, inside⟩ := Html.quoted_value (not_mem_sessionId (c := '"') (by decide) (by decide) k)
    ⟨false, "pre".toList, []⟩ "id".toList []
  obtain ⟨state, first⟩ := opened
  obtain ⟨state', second⟩ := closed (sessionId k)
  have cell : tdTag k = "<td><pre id=\"".toList ++
      (sessionId k ++ "\" class=\"mb-0\"></pre></td>".toList) := split (by decide)
  rw [cell]
  constructor
  · rw [Html.after_append, Html.after_append, state, inside]
    exact state'
  · rw [Html.tokens_append, Html.tokens_append, state, silent, inside, Html.elements_append, first]
    exact congrArg _ second

/-- Both cells stand where text is read, whatever they are, when the parts in front of them are read
completely. -/
theorem places_iff (order : Order) (headers : Complete header es) (pres : Complete pre es') :
    (after .data (order.beforeHeader a b pre) = .data ∧ after .data (order.beforePre a header b) = .data) ↔
      after .data a = .data ∧ after .data b = .data := by
  have joined : ∀ {s es}, Complete s es → after .data a = .data →
      after .data (a ++ (s ++ b)) = after .data b := by
    intro s es read start
    rw [Html.after_append, Html.after_append, start, read.state]
  cases order with
  | headerFirst =>
      apply and_congr_right
      intro start
      exact Eq.congr_left (joined headers start)
  | preFirst =>
      apply Iff.trans And.comm
      apply and_congr_right
      intro start
      exact Eq.congr_left (joined pres start)

/-- The elements of a template with its cells replaced. -/
theorem elements_arrange (order : Order) (headers : Complete header es) (pres : Complete pre es')
    (start : after .data a = .data) (middle : after .data b = .data) :
    elements (tokens .data (order.arrange a header b pre c)) =
      order.arrange (elements (tokens .data a)) es (elements (tokens .data b)) es'
        (elements (tokens .data c)) := by
  cases order with
  | headerFirst | preFirst =>
      simp only [Order.arrange, Html.tokens_append, Html.elements_append, start, middle, headers.state,
        pres.state, headers.elements, pres.elements]

/-- The ids of elements. -/
def idsOf (names : Names) (es : List Tag) : List Text :=
  es.filterMap fun tag => (tag.attributes.lookup "id".toList).map (References.value names)

theorem count_arrange (order : Order) (a header b pre c : List Tag) (id : Text) :
    (idsOf names (order.arrange a header b pre c)).count id =
      (idsOf names header).count id + (idsOf names pre).count id +
        ((idsOf names a).count id + (idsOf names b).count id + (idsOf names c).count id) := by
  cases order with
  | headerFirst | preFirst =>
      simp only [idsOf, Order.arrange, List.filterMap_append, List.count_append]
      omega

theorem idsOf_headers (names : Names) (hosts : List ServerInfo) :
    idsOf names (hosts.map fun _ => [thElement]).flatten = [] := by
  induction hosts with
  | nil => rfl
  | cons info hosts ih => exact ih

theorem idsOf_pre (names : Names) (k : Nat) :
    idsOf names (preElements (sessionId k)) = [sessionId k] :=
  congrArg (fun id => [id]) (value_sessionId names k)

theorem idsOf_pres (names : Names) (ks : List Nat) :
    idsOf names (ks.map fun k => preElements (sessionId k)).flatten = ks.map sessionId := by
  induction ks with
  | nil => rfl
  | cons k ks ih =>
      have one := idsOf_pre names k
      rw [idsOf] at ih one ⊢
      rw [List.map_cons, List.flatten_cons, List.filterMap_append, ih, one]
      rfl

theorem count_sessionId {k n : Nat} (within : k < n) :
    ((List.range n).map sessionId).count (sessionId k) = 1 := by
  apply List.count_eq_one_of_mem
  · exact List.nodup_range.map sessionId_injective
  · exact List.mem_map_of_mem (List.mem_range.mpr within)

end Read

section Page

variable {names : Names} {t : Template} {hosts : List ServerInfo} {inners : List Text}
  {order : Order} {a b c : Text}

/-- What stands in the headers, and what stands around it. -/
theorem length_headers (inners : List Text) :
    (tagBreak.intercalate (inners.map thTag)).length =
      inners.flatten.length + (inners.length * 21 + (inners.length - 1) * tagBreak.length) := by
  have one : ∀ inner, (thTag inner).length = inner.length + 21 := by
    intro inner
    have joined : ∀ opens ends : Text, opens.length = 16 → ends.length = 5 →
        (opens ++ inner ++ ends).length = inner.length + 21 := by
      intro opens ends first last
      rw [List.length_append, List.length_append]
      omega
    exact joined _ _ (by decide) (by decide)
  induction inners with
  | nil => rfl
  | cons inner inners ih =>
      cases inners with
      | nil =>
          rw [List.map_cons, List.map_nil, List.intercalate_singleton, one]
          simp
      | cons other inners =>
          rw [List.map_cons] at ih ⊢
          rw [List.map_cons, List.intercalate_cons_cons, List.length_append, List.length_append, ih, one]
          simp only [List.flatten_cons, List.length_append, List.length_cons, Nat.add_sub_cancel,
            Nat.add_mul]
          omega

/-- Headers that are read as the hosts, in no more space than they have. -/
theorem labels_of_length
    (reads : List.Forall₂ (fun inner info => Html.Reads names "th".toList inner (label info)) inners hosts)
    (short : inners.flatten.length ≤ (hosts.map label).flatten.length) :
    ∀ info ∈ hosts, Html.Flat (label info) ∧ References.Literal names (label info) := by
  have closes : Html.Closes "th".toList := ⟨by decide, by decide⟩
  have least : ∀ {inners hosts},
      List.Forall₂ (fun inner info => Html.Reads names "th".toList inner (label info)) inners hosts →
      (hosts.map label).flatten.length ≤ inners.flatten.length := by
    intro inners hosts reads
    induction reads with
    | nil => exact Nat.le_refl _
    | cons first rest ih =>
        simp only [List.map_cons, List.flatten_cons, List.length_append]
        exact Nat.add_le_add first.length_le ih
  induction reads with
  | nil =>
      intro info member
      cases member
  | cons first rest ih =>
      have lower := least rest
      have here := first.length_le
      simp only [List.map_cons, List.flatten_cons, List.length_append] at short
      intro info member
      rcases List.mem_cons.mp member with rfl | later
      · exact first.literal closes (by omega)
      · exact ih (by omega) info later

theorem headers_complete
    (reads : List.Forall₂ (fun inner info => Html.Reads names "th".toList inner (label info)) inners hosts) :
    Complete (tagBreak.intercalate (inners.map thTag)) (hosts.map fun _ => [thElement]).flatten := by
  apply complete_cells
  induction reads with
  | nil => exact .nil
  | cons first rest ih => exact .cons (complete_thTag first) ih

theorem pres_complete (n : Nat) : Complete (tdTags n)
    ((List.range n).map fun k => preElements (sessionId k)).flatten := by
  apply complete_cells
  induction List.range n with
  | nil => exact .nil
  | cons k ks ih => exact .cons (complete_tdTag k) ih

/-- The cells of the template are elements as well. -/
theorem cells_complete :
    Complete headerCell [thElement] ∧ Complete preCell (preElements (sessionId 0)) :=
  ⟨⟨by decide, by decide⟩, ⟨by decide, by decide⟩⟩

/-- The ids of a page with other cells are those of the template, but for its own session. -/
theorem count_page (whole : t.text = order.arrange a headerCell b preCell c)
    (start : after .data a = .data) (middle : after .data b = .data)
    (reads : List.Forall₂ (fun inner info => Html.Reads names "th".toList inner (label info)) inners hosts)
    {k : Nat} (within : k < hosts.length) :
    (ids names (tokens .data (order.arrange a (tagBreak.intercalate (inners.map thTag)) b
        (tdTags hosts.length) c))).count (sessionId k) + (if k = 0 then 1 else 0) =
      (ids names (tokens .data t.text)).count (sessionId k) + 1 := by
  have page := elements_arrange (c := c) order (headers_complete reads) (pres_complete hosts.length)
    start middle
  have own := elements_arrange (c := c) order cells_complete.1 cells_complete.2 start middle
  rw [← whole] at own
  have count : ∀ ts id, (ids names ts).count id = (idsOf names (elements ts)).count id := fun _ _ => rfl
  have noHeader : idsOf names [thElement] = [] := rfl
  have zero : [sessionId 0].count (sessionId k) = if k = 0 then 1 else 0 := by
    rw [List.count_singleton]
    by_cases same : k = 0
    · rw [same]
      simp
    · have other : (sessionId 0 == sessionId k) = false :=
        beq_false_of_ne fun equal => same (sessionId_injective equal).symm
      rw [other, if_neg same]
      rfl
  rw [count, count, page, own, count_arrange, count_arrange, idsOf_headers, idsOf_pres,
    count_sessionId within, noHeader, idsOf_pre, zero]
  simp only [List.count_nil]
  omega

/-- The element that a script addresses is that of its session. -/
theorem target_eq (o : Output) {k : Nat} (session : o.info.sessionId = k) :
    o.target = some (sessionId k) := by
  rw [Output.target, Output.pieces_script o 0, session]
  rfl

theorem flat_blank : Html.Flat (label (blank ⟨[], [], []⟩)) ∧
    References.Literal names (label (blank ⟨[], [], []⟩)) := by
  have written : label (blank ⟨[], [], []⟩) = [':'] := by decide
  rw [written]
  refine ⟨?_, .plain (by decide), by decide, by decide⟩
  intro c begins within
  exact absurd within.length_le (by simp)

/-- Hosts that are read as they are written. -/
theorem labels_read {hosts : List ServerInfo}
    (labels : ∀ info ∈ hosts, Html.Flat (label info) ∧ References.Literal names (label info)) :
    List.Forall₂ (fun inner info => Html.Reads names "th".toList inner (label info))
      (hosts.map label) hosts := by
  have closes : Html.Closes "th".toList := ⟨by decide, by decide⟩
  induction hosts with
  | nil => exact .nil
  | cons info hosts ih =>
      obtain ⟨flat, literal⟩ := labels info List.mem_cons_self
      exact .cons (Html.reads_self closes flat literal)
        (ih fun other member => labels other (List.mem_cons_of_mem info member))

theorem thTags_eq (hosts : List ServerInfo) :
    thTags hosts = tagBreak.intercalate ((hosts.map label).map thTag) := by
  rw [List.map_map]
  rfl

/-- The page for hosts that are read as they are written. -/
theorem baseHtml_labels (whole : t.text = order.arrange a headerCell b preCell c) (filled : hosts ≠ [])
    (labels : ∀ info ∈ hosts, Html.Flat (label info) ∧ References.Literal names (label info)) :
    baseHtml (some t.text) hosts =
      order.arrange a (tagBreak.intercalate ((hosts.map label).map thTag)) b (tdTags hosts.length) c := by
  have flat : ∀ inner ∈ hosts.map label, Html.Flat inner := by
    intro inner member
    obtain ⟨info, here, rfl⟩ := List.mem_map.mp member
    exact (labels info here).1
  have nonempty : hosts.map label ≠ [] := fun none => filled (List.map_eq_nil_iff.mp none)
  have page := page_of_flat t whole nonempty flat (tdTags hosts.length)
  rw [← thTags_eq] at page ⊢
  exact page

end Page

section Claim

variable {names : Names} {t : Template} {hosts : List ServerInfo}

theorem Fitting.fits (fitting : Fitting names t hosts) : Fits names t (baseHtml (some t.text)) hosts := by
  obtain ⟨order, a, b, c, whole⟩ := t.layout
  cases hosts with
  | nil =>
      have page : baseHtml (some t.text) [] = order.arrange a [] b [] c := by
        cases order with
        | headerFirst => exact (page_empty_iff t whole).mpr (fitting.empty rfl a b c whole)
        | preFirst =>
            have first := replace_header t whole []
            apply (congrArg (Find.replaceFirst preCell []) first).trans
            apply replace_pre t whole
            intro never
            cases never
      refine ⟨⟨order, a, b, c, [], whole, .nil, page, ?_⟩, rfl, ?_⟩
      · intro filled
        exact absurd rfl filled
      · intro k within
        exact absurd within (Nat.not_lt_zero k)
  | cons info hosts =>
      have filled : info :: hosts ≠ [] := List.cons_ne_nil info hosts
      have reads := labels_read fitting.labels
      have page := baseHtml_labels whole filled fitting.labels
      obtain ⟨s, header⟩ := order.arrange_header a headerCell b preCell c
      obtain ⟨s', pre⟩ := order.arrange_pre a headerCell b preCell c
      have atHeader := fitting.header filled _ _ (whole.trans header)
      have atPre := fitting.pre filled _ _ (whole.trans pre)
      obtain ⟨start, middle⟩ := (places_iff order cells_complete.1 cells_complete.2).mp ⟨atHeader, atPre⟩
      have blanks : ∀ other ∈ (info :: hosts).map blank,
          Html.Flat (label other) ∧ References.Literal names (label other) := by
        intro other member
        obtain ⟨_, -, rfl⟩ := List.mem_map.mp member
        exact flat_blank
      refine ⟨⟨order, a, b, c, _, whole, reads, page, fun _ => ?_⟩, ?_, ?_⟩
      · exact (places_iff order (headers_complete reads) (pres_complete _)).mpr ⟨start, middle⟩
      · have blankPage := baseHtml_labels whole (by simp) blanks
        rw [page, blankPage]
        rw [elements_arrange order (headers_complete reads) (pres_complete _) start middle,
          elements_arrange order (headers_complete (labels_read blanks)) (pres_complete _) start middle,
          List.length_map, List.map_map]
        rfl
      · intro k within o session
        refine ⟨sessionId k, target_eq o session, ?_⟩
        have counts := count_page whole start middle reads within
        rw [← page, fitting.ids k within] at counts
        omega

theorem Fits.fitting (fits : Fits names t (baseHtml (some t.text)) hosts) : Fitting names t hosts := by
  obtain ⟨⟨order, a, b, c, inners, whole, reads, page, places⟩, -, scripts⟩ := fits
  have same : inners.length = hosts.length := reads.length_eq
  have places_read : hosts ≠ [] → after .data a = .data ∧ after .data b = .data := fun filled =>
    (places_iff order (headers_complete reads) (pres_complete _)).mp (places filled)
  have own : hosts ≠ [] → after .data (order.beforeHeader a b preCell) = .data ∧
      after .data (order.beforePre a headerCell b) = .data := fun filled =>
    (places_iff order cells_complete.1 cells_complete.2).mpr (places_read filled)
  constructor
  · -- the page has the length that the program gives it, so the headers are as long as the hosts
    apply labels_of_length reads
    have first := replace_header t whole (thTags hosts)
    obtain ⟨s, pre⟩ := order.arrange_pre a (thTags hosts) b preCell c
    have within : preCell <:+: order.arrange a (thTags hosts) b preCell c :=
      ⟨_, s, by rw [pre, List.append_assoc]⟩
    have sizes := Find.length_replaceFirst within (tdTags hosts.length)
    have written : baseHtml (some t.text) hosts =
        Find.replaceFirst preCell (tdTags hosts.length) (order.arrange a (thTags hosts) b preCell c) :=
      congrArg (Find.replaceFirst preCell _) first
    rw [← written, page, Order.length_arrange, Order.length_arrange, thTags_eq, length_headers,
      length_headers, List.length_map, same] at sizes
    omega
  · intro filled x y place
    rw [t.header_place whole place]
    exact (own filled).1
  · intro filled x y place
    rw [t.pre_place whole place]
    exact (own filled).2
  · intro k within
    have filled : hosts ≠ [] := List.ne_nil_of_length_pos (Nat.zero_lt_of_lt within)
    obtain ⟨start, middle⟩ := places_read filled
    obtain ⟨id, target, once⟩ := scripts k within (.shell ⟨k, [], []⟩) rfl
    rw [target_eq _ rfl] at target
    cases target
    have counts := count_page whole start middle reads within
    rw [← page, once] at counts
    split at counts
    · rename_i zero
      rw [if_pos zero]
      omega
    · rename_i later
      rw [if_neg later]
      omega
  · rintro rfl a' b' c' whole'
    obtain ⟨rfl, rfl, rfl, rfl⟩ := t.layout_unique whole' whole
    cases reads
    exact (page_empty_iff t whole').mp page

theorem baseHtml_getD (file : Option Template) :
    baseHtml (file.map (·.text)) = baseHtml (some (file.getD .shipped).text) := by
  have same : (file.map (·.text)).getD npshellWebconsole = (file.getD .shipped).text := by
    cases file with
    | none => rw [Option.map_none, Option.getD_none, Option.getD_none, Template.shipped]
    | some t => rfl
  funext hosts
  rw [baseHtml, baseHtml, same, Option.getD_some]

/-- What a program that makes its pages so makes them of. -/
theorem page_eq {file : Option Template} {page : List ServerInfo → Text}
    (made : ∀ hosts, generateHTTPNPShellWebConsole (file.map (·.text)) hosts =
      htmlContentType ++ page hosts) : page = baseHtml (some (file.getD .shipped).text) := by
  funext hosts
  rw [← baseHtml_getD]
  exact (List.append_cancel_left (made hosts)).symm

/-- The page and its scripts fit together just for hosts and templates that fit. -/
theorem console_fits_iff (names : Names) (file : Option Template) (hosts : List ServerInfo) :
    (∃ page, (∀ hosts, generateHTTPNPShellWebConsole (file.map (·.text)) hosts =
        htmlContentType ++ page hosts) ∧ Fits names (file.getD .shipped) page hosts) ↔
      Fitting names (file.getD .shipped) hosts := by
  constructor
  · rintro ⟨page, made, fits⟩
    rw [page_eq made] at fits
    exact fits.fitting
  · intro fitting
    refine ⟨baseHtml (some (file.getD .shipped).text), ?_, fitting.fits⟩
    intro hosts
    rw [← baseHtml_getD]
    rfl

/-- A table with a few of the names. -/
def someNames : Names where
  table := [("amp;".toList, ['&']), ("amp".toList, ['&']), ("lt;".toList, ['<']), ("lt".toList, ['<'])]
  shorter := by decide

/-- A host that is a tag. -/
theorem tag_host_breaks_page : ¬ ∃ page, (∀ hosts, generateHTTPNPShellWebConsole none hosts =
    htmlContentType ++ page hosts) ∧ Fits someNames .shipped page
      [⟨"<b>".toList, "1".toList, "t1.txt".toList⟩] := by
  rintro ⟨page, made, fits⟩
  rw [@page_eq none page made] at fits
  have flat := (fits.fitting.labels _ List.mem_cons_self).1
  exact flat 'b' (by decide) (by decide)

end Claim

section Shipped

variable {p a b : Text} {q : Html.State}

/-- What is read in front of a cell that stands in one place. -/
theorem after_front {text : Text} (once : Find.occurrences p text = 1)
    (front : (Find.cut p text).map (fun parts => after .data parts.1) = some q)
    (whole : text = a ++ (p ++ b)) : after .data a = q := by
  have free := Find.once_free once whole
  rw [whole, Find.cut_eq free] at front
  exact Option.some.inj front

set_option maxRecDepth 20000 in
theorem shipped_header : (Find.cut headerCell npshellWebconsole).map
    (fun parts => after .data parts.1) = some .data := by
  apply of_literal (P := fun s =>
    (Find.cut headerCell s).map (fun parts => after .data parts.1) = some .data) rfl
  decide +kernel

set_option maxRecDepth 20000 in
theorem shipped_pre : (Find.cut preCell npshellWebconsole).map
    (fun parts => after .data parts.1) = some .data := by
  apply of_literal (P := fun s =>
    (Find.cut preCell s).map (fun parts => after .data parts.1) = some .data) rfl
  decide +kernel

set_option maxRecDepth 20000 in
theorem shipped_ids : (elements (tokens .data npshellWebconsole)).filterMap
    (fun tag => tag.attributes.lookup "id".toList) = ["s0".toList] := by
  apply of_literal (P := fun s => (elements (tokens .data s)).filterMap
    (fun tag => tag.attributes.lookup "id".toList) = ["s0".toList]) rfl
  decide +kernel

set_option maxRecDepth 20000 in
/-- Without its header cell the front of the template holds no session cell. -/
theorem shipped_front : (Find.cut preCell npshellWebconsole).map
    (fun parts => Find.occurrences preCell (Find.replaceFirst headerCell [] parts.1)) = some 0 := by
  apply of_literal (P := fun s => (Find.cut preCell s).map
    (fun parts => Find.occurrences preCell (Find.replaceFirst headerCell [] parts.1)) = some 0) rfl
  decide +kernel

theorem ids_shipped (names : Names) : ids names (tokens .data npshellWebconsole) = [sessionId 0] := by
  have own : References.value names "s0".toList = sessionId 0 := value_sessionId names 0
  rw [← own, ids, ← List.map_singleton, ← shipped_ids, List.map_filterMap]

theorem text_shipped : Template.shipped.text = npshellWebconsole := by
  rw [Template.shipped]

/-- The template that the program carries fits whenever the hosts do. -/
theorem shipped_fitting (names : Names) (hosts : List ServerInfo) : Fitting names .shipped hosts ↔
    ∀ info ∈ hosts, Html.Flat (label info) ∧ References.Literal names (label info) := by
  have header := Template.shipped.header
  have pre := Template.shipped.pre
  rw [text_shipped] at header pre
  refine ⟨Fitting.labels, fun labels => ⟨labels, ?_, ?_, ?_, ?_⟩⟩
  · intro _ a b whole
    rw [text_shipped] at whole
    exact after_front header shipped_header whole
  · intro _ a b whole
    rw [text_shipped] at whole
    exact after_front pre shipped_pre whole
  · intro k _
    have same : (sessionId 0 == sessionId k) = decide (k = 0) := by
      rw [Bool.eq_iff_iff, beq_iff_eq, sessionId_injective.eq_iff, decide_eq_true_iff, eq_comm]
    rw [text_shipped, ids_shipped, List.count_singleton, same]
    simp
  · intro _ a b c whole x y split
    rw [text_shipped] at whole
    have front : npshellWebconsole = (a ++ (headerCell ++ b)) ++ (preCell ++ c) := by
      rw [whole]
      simp only [List.append_assoc]
    have found := shipped_front
    rw [front, Find.cut_eq (Find.once_free pre front)] at found
    have none : Find.occurrences preCell (Find.replaceFirst headerCell [] (a ++ (headerCell ++ b))) = 0 :=
      Option.some.inj found
    rw [Find.replaceFirst_eq ((Find.once_free header whole).behind b), List.nil_append, split] at none
    exact absurd none (Nat.ne_of_gt (Find.occurrences_pos rfl))

end Shipped

end NetProg.CGI
