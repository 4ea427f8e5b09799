import NetProg.Console.HttpRequest
import NetProg.Lib.Lines
import NetProg.Lib.Pattern

/-!
# The query string of the console

`parseHTTPQueryString` searches the query with a regular expression for three fields of one number,
again behind every match; with SOCKS it searches a second time for the proxy.  The panel sends the
fields in order, so that what is found is what was filled in.
-/

namespace NetProg.CGI

open Pattern

/-- `[^&]`. -/
def notAmp (c : Char) : Bool := c != '&'

/-- `QUERY_STRING` (`np_project3/cgiserver/cgi_util.hpp:13`). -/
def queryString : List Part :=
  literal "h".toList ++ .group Char.isDigit :: (literal "=".toList ++ .stretch notAmp ::
    (literal "&p".toList ++ .back 0 :: (literal "=".toList ++ .stretch notAmp ::
      (literal "&f".toList ++ .back 0 :: (literal "=".toList ++ [.stretch notAmp])))))

/-- `SOCKS_PROXY_QUERY_STRING` (`np_project4/cgiserver/cgi_util.hpp:14`). -/
def socksProxyQueryString : List Part :=
  literal "sh=".toList ++ .stretch notAmp :: (literal "&sp=".toList ++ [.stretch notAmp])

/-- `match[n]`, for a group. -/
def submatch (groups : List Text) (n : Nat) : Text := (groups[n - 1]?).getD []

/-- The loop of `parseHTTPQueryString` (`np_project3/cgiserver/cgi_util.cpp:26-46`); a match takes
at least one character, which is the fuel. -/
def searchAll : Nat → Text → Option (List ServerInfo)
  | 0, _ => none
  | fuel + 1, pos =>
      match search queryString pos with
      | none => some []
      | some (groups, suffix) =>
          let info : ServerInfo := ⟨submatch groups 2, submatch groups 3, submatch groups 4⟩
          if info.host.length ≠ 0 ∨ info.port.length ≠ 0 ∨ info.fileName.length ≠ 0 then
            (searchAll fuel suffix).map (info :: ·)
          else searchAll fuel suffix

/-- `parseHTTPQueryString` (`np_project3/cgiserver/cgi_util.cpp:26-46`) of `np_project3`; a null
pointer has no string. -/
def parseHTTPQueryString (query : Option Text) : Option (List ServerInfo) :=
  match query with
  | none => some []
  | some query =>
      let query := Text.cString query
      searchAll (query.length + 1) query

/-- `parseHTTPQueryString` (`np_project4/cgiserver/cgi_util.cpp:26-52`) of `np_project4`. -/
def parseHTTPQueryStringSocks (query : Option Text) : Option (List ServerInfo) :=
  match query with
  | none => some []
  | some query => do
      let query := Text.cString query
      let result ← searchAll (query.length + 1) query
      match search socksProxyQueryString query with
      | none => some result
      | some (groups, _) => some (result ++ [⟨submatch groups 1, submatch groups 2, []⟩])

/-- What a field of the panel holds: a C string without `&`. -/
structure Value where
  text : Text
  noAmp : '&' ∉ text
  noNul : '\x00' ∉ text

/-- A row of the panel. -/
structure Row where
  host : Value
  port : Value
  file : Value

def Row.info (row : Row) : ServerInfo := ⟨row.host.text, row.port.text, row.file.text⟩

/-- The fields that are not all empty. -/
def Row.filled (row : Row) : Bool :=
  !(row.host.text.isEmpty && row.port.text.isEmpty && row.file.text.isEmpty)

/-- `h0=...` and the like. -/
def field (name : Char) (i : Nat) (value : Value) : Text :=
  name :: i.digitChar :: '=' :: value.text

/-- The fields of the rows from number `i` on. -/
def rowFields (i : Nat) : List Row → List Text
  | [] => []
  | row :: rows =>
      field 'h' i row.host :: field 'p' i row.port :: field 'f' i row.file :: rowFields (i + 1) rows

def socksFields (host port : Value) : List Text :=
  ["sh=".toList ++ host.text, "sp=".toList ++ port.text]

/-- The query that a browser makes of the fields. -/
def formQuery (fields : List Text) : Text := ['&'].intercalate fields

/-- The rows that are found. -/
def found (rows : List Row) : List ServerInfo := (rows.filter Row.filled).map Row.info

example : parseHTTPQueryStringSocks (some "h0=a&p0=1&f0=t&sh=s&sp=2".toList) =
    some [⟨"a".toList, "1".toList, "t".toList⟩, ⟨"s".toList, "2".toList, []⟩] := by decide +kernel

section Match

variable {i : Nat} {s rest : Text} {groups : List Text} {parts : List Part}

theorem notAmp_iff {c : Char} : notAmp c = true ↔ c ≠ '&' := bne_iff_ne

theorem exec_value (v : Value) (behind : ∀ c ∈ rest.head?, c = '&')
    {r : List Text × Text} (ok : exec parts (groups ++ [v.text]) rest = some r) :
    exec (.stretch notAmp :: parts) groups (v.text ++ rest) = some r := by
  apply exec_stretch _ _ ok
  · intro c member
    exact notAmp_iff.mpr fun same => v.noAmp (same ▸ member)
  · intro c first
    rw [behind c first]
    rfl

theorem exec_back (d : Char) (more : List Text) (s : Text) :
    exec (.back 0 :: parts) ([d] :: more) (d :: s) = exec parts ([d] :: more) s := by
  simp [exec]

/-- Three fields of one number are matched at their beginning, with their whole values. -/
theorem exec_row (digit : i < 10) (row : Row) (behind : ∀ c ∈ rest.head?, c = '&') :
    exec queryString [] (field 'h' i row.host ++ '&' :: (field 'p' i row.port ++ '&' ::
      (field 'f' i row.file ++ rest))) =
      some ([[i.digitChar], row.host.text, row.port.text, row.file.text], rest) := by
  have isDigit : i.digitChar.isDigit = true := by
    rw [Nat.isDigit_digitChar]
    exact decide_eq_true digit
  have file : exec [.stretch notAmp] [[i.digitChar], row.host.text, row.port.text]
      (row.file.text ++ rest) =
        some ([[i.digitChar], row.host.text, row.port.text, row.file.text], rest) :=
    exec_value row.file behind rfl
  have port : exec (.stretch notAmp :: (literal "&f".toList ++ .back 0 ::
      (literal "=".toList ++ [.stretch notAmp]))) [[i.digitChar], row.host.text]
      (row.port.text ++ '&' :: (field 'f' i row.file ++ rest)) =
        some ([[i.digitChar], row.host.text, row.port.text, row.file.text], rest) := by
    apply exec_value row.port
    · rintro c ⟨⟩
      rfl
    · refine (exec_literal "&f".toList (i.digitChar :: '=' :: (row.file.text ++ rest))).trans ?_
      refine (exec_back _ _ _).trans ?_
      exact (exec_literal "=".toList _).trans file
  have host : exec (.stretch notAmp :: (literal "&p".toList ++ .back 0 ::
      (literal "=".toList ++ .stretch notAmp :: (literal "&f".toList ++ .back 0 ::
        (literal "=".toList ++ [.stretch notAmp]))))) [[i.digitChar]]
      (row.host.text ++ '&' :: (field 'p' i row.port ++ '&' :: (field 'f' i row.file ++ rest))) =
        some ([[i.digitChar], row.host.text, row.port.text, row.file.text], rest) := by
    apply exec_value row.host
    · rintro c ⟨⟩
      rfl
    · refine (exec_literal "&p".toList (i.digitChar :: '=' :: (row.port.text ++ '&' ::
        (field 'f' i row.file ++ rest)))).trans ?_
      refine (exec_back _ _ _).trans ?_
      exact (exec_literal "=".toList _).trans port
  refine (exec_literal "h".toList (i.digitChar :: '=' :: (row.host.text ++ '&' ::
    (field 'p' i row.port ++ '&' :: (field 'f' i row.file ++ rest))))).trans ?_
  rw [exec, if_pos isDigit]
  exact (exec_literal "=".toList _).trans host

theorem formQuery_socks (host port : Value) : formQuery (socksFields host port) =
    "sh=".toList ++ (host.text ++ '&' :: ("sp=".toList ++ port.text)) := by
  rw [formQuery, socksFields, List.intercalate_cons_cons, List.intercalate_singleton]
  simp only [List.append_assoc, List.cons_append, List.nil_append]

/-- The proxy is matched at its beginning. -/
theorem exec_socks (host port : Value) :
    exec socksProxyQueryString [] (formQuery (socksFields host port)) =
      some ([host.text, port.text], []) := by
  have last : exec [.stretch notAmp] [host.text] (port.text ++ []) =
      some ([host.text, port.text], []) := exec_value port (by simp) rfl
  rw [List.append_nil] at last
  have first : exec (.stretch notAmp :: (literal "&sp=".toList ++ [.stretch notAmp])) []
      (host.text ++ '&' :: ("sp=".toList ++ port.text)) = some ([host.text, port.text], []) := by
    apply exec_value host
    · rintro c ⟨⟩
      rfl
    · exact (exec_literal "&sp=".toList port.text).trans last
  rw [formQuery_socks]
  exact (exec_literal "sh=".toList _).trans first

/-- A stretch that leaves out `&` ends at the first one. -/
theorem exec_field_some {key : Text} {r : List Text × Text}
    (ok : exec (.stretch notAmp :: (literal ('&' :: key) ++ parts)) groups s = some r) :
    ∃ x y, s = x ++ '&' :: y ∧ '&' ∉ x ∧ key <+: y := by
  obtain ⟨x, y, rfl, all, more⟩ := exec_stretch_some ok
  obtain ⟨y, rfl⟩ := exec_literal_some more
  refine ⟨x, key ++ y, rfl, ?_, List.prefix_append _ _⟩
  intro member
  exact absurd rfl (notAmp_iff.mp (all _ member))

/-- Behind the first `&` of a match stands `p`. -/
theorem queryString_needs : Needs queryString '&' "p".toList := by
  intro s r ok
  obtain ⟨s, rfl⟩ := exec_literal_some ok
  have ok := (exec_literal "h".toList s).symm.trans ok
  cases s with
  | nil => cases ok
  | cons d s =>
      rw [exec] at ok
      split at ok
      · rename_i digit
        obtain ⟨s, rfl⟩ := exec_literal_some ok
        have ok := (exec_literal "=".toList s).symm.trans ok
        obtain ⟨x, y, rfl, noAmp, key⟩ := exec_field_some ok
        refine ⟨'h' :: d :: '=' :: x, y, rfl, List.cons_ne_nil _ _, ?_, key⟩
        intro member
        rcases List.mem_cons.mp member with same | member
        · cases same
        · rcases List.mem_cons.mp member with rfl | member
          · cases digit
          · rcases List.mem_cons.mp member with same | member
            · cases same
            · exact noAmp member
      · cases ok

/-- Behind the first `&` of a match stands `sp=`. -/
theorem socksProxyQueryString_needs : Needs socksProxyQueryString '&' "sp=".toList := by
  intro s r ok
  obtain ⟨s, rfl⟩ := exec_literal_some ok
  have ok := (exec_literal "sh=".toList s).symm.trans ok
  obtain ⟨x, y, rfl, noAmp, key⟩ := exec_field_some ok
  refine ⟨"sh=".toList ++ x, y, (List.append_assoc _ _ _).symm, List.append_ne_nil_of_left_ne_nil
    (by decide) _, ?_, key⟩
  intro member
  rcases List.mem_append.mp member with first | member
  · exact absurd first (by decide)
  · exact noAmp member

end Match

/-- The query behind a field. -/
def behindField : List Text → Text
  | [] => []
  | fields => '&' :: formQuery fields

section Rows

variable {i : Nat} {rows : List Row} {more : List Text}

theorem formQuery_one (field : Text) : formQuery [field] = field := List.intercalate_singleton

theorem formQuery_cons (field : Text) (fields : List Text) :
    formQuery (field :: fields) = field ++ behindField fields := by
  cases fields with
  | nil => exact (formQuery_one field).trans (List.append_nil field).symm
  | cons next fields =>
      rw [formQuery, List.intercalate_cons_cons, behindField]
      · simp only [List.append_assoc, List.cons_append, List.nil_append]
        rfl
      · exact List.cons_ne_nil _ _

theorem search_behind (fields : List Text) (other : ¬ "p".toList <+: formQuery fields) :
    search queryString (behindField fields) = search queryString (formQuery fields) := by
  cases fields with
  | nil => rfl
  | cons field fields =>
      exact search_skip (x := []) queryString_needs (by simp) other

/-- The search goes on behind the row that it has found. -/
theorem search_row (digit : i < 10) (row : Row) (fields : List Text) :
    search queryString (formQuery (field 'h' i row.host :: field 'p' i row.port ::
      field 'f' i row.file :: fields)) =
      some ([[i.digitChar], row.host.text, row.port.text, row.file.text], behindField fields) := by
  have next : ∀ c ∈ (behindField fields).head?, c = '&' := by
    cases fields with
    | nil => simp [behindField]
    | cons field fields => simp [behindField]
  apply search_here
  rw [formQuery_cons, behindField, formQuery_cons, behindField, formQuery_cons]
  · exact exec_row digit row next
  · exact List.cons_ne_nil _ _
  · exact List.cons_ne_nil _ _

/-- The proxy is no row. -/
theorem search_socks (host port : Value) :
    search queryString (formQuery (socksFields host port)) = none := by
  rw [formQuery_socks, ← List.append_assoc, search_skip queryString_needs]
  · apply search_none queryString_needs
    intro member
    rcases List.mem_append.mp member with first | member
    · exact absurd first (by decide)
    · exact port.noAmp member
  · intro member
    rcases List.mem_append.mp member with first | member
    · exact absurd first (by decide)
    · exact host.noAmp member
  · intro key
    cases (List.cons_prefix_cons.mp key).1

theorem searchAll_congr {pos pos' : Text} (same : search queryString pos = search queryString pos')
    (fuel : Nat) : searchAll fuel pos = searchAll fuel pos' := by
  cases fuel with
  | zero => rfl
  | succ fuel => rw [searchAll, searchAll, same]

theorem filled_iff (row : Row) : row.filled = true ↔
    row.host.text.length ≠ 0 ∨ row.port.text.length ≠ 0 ∨ row.file.text.length ≠ 0 := by
  simp only [Row.filled, Bool.not_eq_true', Bool.and_eq_false_iff, List.isEmpty_eq_false_iff, or_assoc,
    ne_eq, List.length_eq_zero_iff]

/-- The loop finds the rows that are not empty, one after the other. -/
theorem searchAll_rows (small : i + rows.length ≤ 10)
    (last : search queryString (formQuery more) = none) (noKey : ¬ "p".toList <+: formQuery more)
    (fuel : Nat) : searchAll (rows.length + fuel + 1) (formQuery (rowFields i rows ++ more)) =
      some (found rows) := by
  induction rows generalizing i with
  | nil =>
      rw [rowFields, List.nil_append, searchAll, last]
      rfl
  | cons row rows ih =>
      have first : i < 10 := by
        rw [List.length_cons] at small
        omega
      have rest : i + 1 + rows.length ≤ 10 := by
        rw [List.length_cons] at small
        omega
      have other : ¬ "p".toList <+: formQuery (rowFields (i + 1) rows ++ more) := by
        cases rows with
        | nil => exact noKey
        | cons next rows =>
            intro key
            rw [rowFields, List.cons_append, formQuery_cons, field] at key
            cases (List.cons_prefix_cons.mp key).1
      have recursion : searchAll (rows.length + fuel + 1)
          (behindField (rowFields (i + 1) rows ++ more)) = some (found rows) :=
        (searchAll_congr (search_behind _ other) _).trans (ih rest)
      have turn : (row :: rows).length + fuel + 1 = rows.length + fuel + 1 + 1 := by
        rw [List.length_cons]
        omega
      rw [rowFields, turn, searchAll]
      simp only [List.cons_append, search_row first row, recursion]
      have values : submatch [[i.digitChar], row.host.text, row.port.text, row.file.text] 2 =
          row.host.text ∧
          submatch [[i.digitChar], row.host.text, row.port.text, row.file.text] 3 = row.port.text ∧
          submatch [[i.digitChar], row.host.text, row.port.text, row.file.text] 4 = row.file.text :=
        ⟨rfl, rfl, rfl⟩
      rw [values.1, values.2.1, values.2.2]
      cases filled : row.filled with
      | true =>
          rw [if_pos ((filled_iff row).mp filled), found, found, List.filter_cons_of_pos filled]
          rfl
      | false =>
          have empty : ¬ row.filled = true := by simp [filled]
          rw [if_neg fun some => empty ((filled_iff row).mpr some), found, found,
            List.filter_cons_of_neg empty]

/-- The search for the proxy passes a field, unless `sp=` comes next. -/
theorem search_pass {field : Text} {fields : List Text} (noAmp : '&' ∉ field) (some : fields ≠ [])
    (other : ¬ "sp=".toList <+: formQuery fields) :
    search socksProxyQueryString (formQuery (field :: fields)) =
      search socksProxyQueryString (formQuery fields) := by
  rw [formQuery_cons, behindField]
  · exact search_skip socksProxyQueryString_needs noAmp other
  · exact some

/-- A character that is in no name and no value is in no field. -/
theorem not_mem_field {name c : Char} (digit : i < 10) (value : Value) (noName : c ≠ name)
    (noSign : c ≠ '=') (noDigit : c.isDigit = false) (noValue : c ∉ value.text) :
    c ∉ field name i value := by
  intro member
  rcases List.mem_cons.mp member with same | member
  · exact noName same
  · rcases List.mem_cons.mp member with same | member
    · rw [same, Nat.isDigit_digitChar, decide_eq_false_iff_not] at noDigit
      exact noDigit digit
    · rcases List.mem_cons.mp member with same | member
      · exact noSign same
      · exact noValue member

theorem field_not_proxy {name : Char} (other : name ≠ 's') (value : Value) (fields : List Text) :
    ¬ "sp=".toList <+: formQuery (field name i value :: fields) := by
  intro key
  rw [formQuery_cons, field] at key
  exact other (List.cons_prefix_cons.mp key).1.symm

/-- The search for the proxy passes all rows. -/
theorem search_rows (small : i + rows.length ≤ 10) (some : more ≠ [])
    (other : ¬ "sp=".toList <+: formQuery more) :
    search socksProxyQueryString (formQuery (rowFields i rows ++ more)) =
      search socksProxyQueryString (formQuery more) := by
  induction rows generalizing i with
  | nil => rfl
  | cons row rows ih =>
      rw [List.length_cons] at small
      have digit : i < 10 := by omega
      have next : ¬ "sp=".toList <+: formQuery (rowFields (i + 1) rows ++ more) := by
        cases rows with
        | nil => exact other
        | cons next rows => exact field_not_proxy (by decide) _ _
      have noAmp : ∀ (name : Char) (value : Value), '&' ≠ name → '&' ∉ field name i value :=
        fun name value different =>
          not_mem_field digit value different (by decide) rfl value.noAmp
      rw [rowFields, List.cons_append, List.cons_append, List.cons_append,
        search_pass (noAmp _ _ (by decide)) (List.cons_ne_nil _ _) (field_not_proxy (by decide) _ _),
        search_pass (noAmp _ _ (by decide)) (List.cons_ne_nil _ _) (field_not_proxy (by decide) _ _),
        search_pass (noAmp _ _ (by decide)) (List.append_ne_nil_of_right_ne_nil _ some) next]
      exact ih (by omega)

theorem not_mem_behindField {c : Char} {fields : List Text} (other : c ≠ '&')
    (plain : c ∉ formQuery fields) : c ∉ behindField fields := by
  cases fields with
  | nil => exact plain
  | cons field fields =>
      intro member
      rcases List.mem_cons.mp member with same | member
      · exact other same
      · exact plain member

/-- The query is a C string. -/
theorem formQuery_plain (small : i + rows.length ≤ 10) (noNul : '\x00' ∉ formQuery more) :
    '\x00' ∉ formQuery (rowFields i rows ++ more) := by
  induction rows generalizing i with
  | nil => exact noNul
  | cons row rows ih =>
      rw [List.length_cons] at small
      have digit : i < 10 := by omega
      have plain : ∀ (name : Char) (value : Value) (fields : List Text), '\x00' ≠ name →
          '\x00' ∉ formQuery fields → '\x00' ∉ formQuery (field name i value :: fields) := by
        intro name value fields different rest member
        rw [formQuery_cons] at member
        rcases List.mem_append.mp member with member | member
        · exact not_mem_field digit value different (by decide) rfl value.noNul member
        · exact not_mem_behindField (by decide) rest member
      apply plain _ _ _ (by decide)
      apply plain _ _ _ (by decide)
      apply plain _ _ _ (by decide)
      exact ih (by omega)

/-- A query is longer than it has rows, so that the loop does not run out of fuel. -/
theorem length_le_formQuery (rows : List Row) (i : Nat) (more : List Text) :
    rows.length ≤ (formQuery (rowFields i rows ++ more)).length := by
  have longer : ∀ fields, (formQuery fields).length ≤ (behindField fields).length := by
    intro fields
    cases fields with
    | nil => exact Nat.le_refl _
    | cons field fields => exact Nat.le_succ _
  induction rows generalizing i with
  | nil => exact Nat.zero_le _
  | cons row rows ih =>
      have first := longer (field 'p' i row.port :: field 'f' i row.file :: (rowFields (i + 1) rows ++ more))
      have second := longer (field 'f' i row.file :: (rowFields (i + 1) rows ++ more))
      have third := longer (rowFields (i + 1) rows ++ more)
      have rest := ih (i + 1)
      have some : 1 ≤ (field 'h' i row.host).length := Nat.succ_pos _
      simp only [rowFields, List.cons_append, formQuery_cons (field 'h' i row.host),
        formQuery_cons (field 'p' i row.port), formQuery_cons (field 'f' i row.file),
        List.length_append, List.length_cons] at *
      omega

/-- The loop over the rows and what is behind them. -/
theorem searchAll_form (few : rows.length ≤ 10) (last : search queryString (formQuery more) = none)
    (noKey : ¬ "p".toList <+: formQuery more) :
    searchAll ((formQuery (rowFields 0 rows ++ more)).length + 1)
      (formQuery (rowFields 0 rows ++ more)) = some (found rows) := by
  obtain ⟨fuel, enough⟩ := Nat.exists_eq_add_of_le (length_le_formQuery rows 0 more)
  rw [enough]
  exact searchAll_rows (by omega) last noKey fuel

theorem parseHTTPQueryString_rows (few : rows.length ≤ 10) :
    parseHTTPQueryString (some (formQuery (rowFields 0 rows))) = some (found rows) := by
  have plain : '\x00' ∉ formQuery (rowFields 0 rows ++ []) :=
    formQuery_plain (by omega) (by simp [formQuery])
  have all : searchAll ((formQuery (rowFields 0 rows ++ [])).length + 1)
      (formQuery (rowFields 0 rows ++ [])) = some (found rows) :=
    searchAll_form few rfl (by simp [formQuery])
  rw [List.append_nil] at plain all
  simp only [parseHTTPQueryString, Text.cString_of_plain plain, all]

end Rows

/-- The parsers undo the form of the panel: they give back the rows that are not empty, in order and
unchanged, and then the proxy. -/
theorem parseHTTPQueryString_form (rows : List Row) (few : rows.length ≤ 10) (host port : Value) :
    parseHTTPQueryString (some (formQuery (rowFields 0 rows))) = some (found rows) ∧
      parseHTTPQueryStringSocks (some (formQuery (rowFields 0 rows ++ socksFields host port))) =
        some (found rows ++ [⟨host.text, port.text, []⟩]) := by
  constructor
  · exact parseHTTPQueryString_rows few
  · have proxyNoNul : '\x00' ∉ formQuery (socksFields host port) := by
      rw [formQuery_socks]
      simp [host.noNul, port.noNul]
    have plain : '\x00' ∉ formQuery (rowFields 0 rows ++ socksFields host port) :=
      formQuery_plain (by omega) proxyNoNul
    have noKey : ¬ "p".toList <+: formQuery (socksFields host port) := by
      rw [formQuery_socks]
      intro key
      cases (List.cons_prefix_cons.mp key).1
    have some : socksFields host port ≠ [] := List.cons_ne_nil _ _
    have noProxy : ¬ "sp=".toList <+: formQuery (socksFields host port) := by
      rw [formQuery_socks]
      intro key
      cases (List.cons_prefix_cons.mp (List.cons_prefix_cons.mp key).2).1
    have all := searchAll_form few (search_socks host port) noKey
    have small : 0 + rows.length ≤ 10 := by omega
    have proxy := (search_rows small some noProxy).trans
      (search_here (exec_socks host port))
    simp only [parseHTTPQueryStringSocks, Text.cString_of_plain plain, all, proxy]
    rfl

/-- A host that looks like the next row, and a file that looks like the proxy. -/
theorem parseHTTPQueryString_form_one :
    [(⟨⟨"h1=".toList, by decide, by decide⟩, ⟨[], by decide, by decide⟩,
      ⟨"sh=".toList, by decide, by decide⟩⟩ : Row)].length ≤ 10 ∧
      parseHTTPQueryStringSocks (some "h0=h1=&p0=&f0=sh=&sh=a&sp=1".toList) =
        some [⟨"h1=".toList, [], "sh=".toList⟩, ⟨"a".toList, "1".toList, []⟩] :=
  ⟨by decide, (parseHTTPQueryString_form [⟨⟨"h1=".toList, by decide, by decide⟩,
    ⟨[], by decide, by decide⟩, ⟨"sh=".toList, by decide, by decide⟩⟩] (by decide)
    ⟨"a".toList, by decide, by decide⟩ ⟨"1".toList, by decide, by decide⟩).2⟩

/-- A string with a NUL does not come back: the parsers get a `const char *`, which ends there. -/
theorem nul_ends_form : '&' ∉ "a\x00".toList ∧
    parseHTTPQueryString (some "h0=a\x00&p0=1&f0=t".toList) ≠
      some [⟨"a\x00".toList, ['1'], ['t']⟩] ∧
    parseHTTPQueryStringSocks (some "h0=a\x00&p0=1&f0=t&sh=s&sp=2".toList) ≠
      some [⟨"a\x00".toList, ['1'], ['t']⟩, ⟨['s'], ['2'], []⟩] := by
  have cut : parseHTTPQueryString (some "h0=a\x00&p0=1&f0=t".toList) = some [] := by
    decide +kernel
  have cutSocks : parseHTTPQueryStringSocks (some "h0=a\x00&p0=1&f0=t&sh=s&sp=2".toList) =
      some [] := by
    decide +kernel
  rw [cut, cutSocks]
  refine ⟨by decide, ?_, ?_⟩ <;> intro found <;> cases found

end NetProg.CGI
