import NetProg.Console.Panel

/-!
# From the panel to the console

What is filled into the panel and brought to `cgi_server` by the request of a browser.  The names and
values come escaped, and stay so: the servers of the console are the rows of the panel as they stand in
the query.
-/

namespace NetProg

/-- The sessions that `routeAPI` starts, with their numbers
(`np_project3/cgi_server.cpp:163-204`). -/
def CgiServer.sessions (queryNPServer : List ServerInfo) : List (Nat × ServerInfo) :=
  (queryNPServer.zipIdx.filter fun entry =>
    decide (entry.1.host ≠ [] ∧ entry.1.port ≠ [] ∧ entry.1.fileName ≠ [])).map Prod.swap

namespace CGI

open Forms (Charset Control Fills escape query requestLine unescaped)
open References (Names)

/-- What is filled into the panel arrives: the form offers servers and is filled in with one a row, the
console is answered for them as they stand in the query, a session begins for each that has all fields
and connects to a host of the menu, and the page of the console fits as the one for blank servers does.
They are the servers filled in if no character of theirs is escaped. -/
structure Arrives (names : Names) (charset : Charset) (dir : Listing) (entries : List (Text × Text))
    (r : CgiServer.Received) (rows : List ServerInfo) : Prop where
  five : rows.length = panelNServers
  offered : ∀ row ∈ rows, Offered dir row
  filled : entries = rowEntries 0 rows
  reply : CgiServer.handleHttpRequest true r = some (.console (rows.map (escaped charset)))
  parsed : parseHTTPQueryString (some (query charset entries)) =
    some ((rows.map (escaped charset)).filter isFilled)
  sessions : ∀ i info, (i, info) ∈ CgiServer.sessions (rows.map (escaped charset)) ↔
    ∃ row, rows[i]? = some row ∧ row.host ∈ hostValues ∧ row.port ≠ [] ∧ row.fileName ≠ [] ∧
      info = ⟨row.host, escape charset row.port, escape charset row.fileName⟩
  page : ∀ (file : Option Template) (page : List ServerInfo → Text),
    (∀ hosts, generateHTTPNPShellWebConsole (file.map (·.text)) hosts = htmlContentType ++ page hosts) →
      Fits names (file.getD .shipped) page (List.replicate panelNServers ⟨[], [], []⟩) →
        Fits names (file.getD .shipped) page (rows.map (escaped charset))
  unchanged : rows.map (escaped charset) = rows ↔
    ∀ row ∈ rows, (∀ c ∈ row.port, unescaped c = true) ∧ ∀ c ∈ row.fileName, unescaped c = true

section Rows

variable {names : Names} {charset : Charset} {dir : Listing} {i n : Nat} {name : Text}
  {rows infos : List ServerInfo} {row : ServerInfo} {entries : List (Text × Text)} {entry : Text × Text}

/-- A number below ten is written with one digit. -/
theorem decimal_digit (small : i < 10) : Text.decimal i = [i.digitChar] := by
  rw [decimal_eq]
  exact Nat.toDigits_of_lt_base small

theorem value_name {c : Char} (other : c ≠ '&' ∧ c ≠ '\r' ∧ c ≠ '\x00') (small : i < 10) :
    References.value names (c :: Text.decimal i) = c :: Text.decimal i := by
  apply References.value_eq
  have digits : ∀ i < 10, Nat.digitChar i ≠ '&' ∧ Nat.digitChar i ≠ '\r' ∧ Nat.digitChar i ≠ '\x00' := by
    decide
  rw [decimal_digit small, List.forall_mem_cons, List.forall_mem_singleton]
  exact ⟨other, digits i small⟩

theorem content_nil (names : Names) : Forms.Offer.text names (.content []) = [] := rfl

/-- What can be chosen from a menu of values that are read as they are. -/
theorem chosen_iff {values : List Text} (literal : ∀ value ∈ values, References.value names value = value)
    (choice : Text) :
    (∃ offer ∈ Forms.Offer.content [] :: values.map .value, choice = offer.text names) ↔
      choice = [] ∨ choice ∈ values := by
  constructor
  · rintro ⟨offer, member, rfl⟩
    rcases List.mem_cons.mp member with rfl | later
    · exact .inl (content_nil names)
    · obtain ⟨value, inside, rfl⟩ := List.mem_map.mp later
      rw [Forms.Offer.text, literal value inside]
      exact .inr inside
  · rintro (rfl | inside)
    · exact ⟨.content [], List.mem_cons_self, (content_nil names).symm⟩
    · exact ⟨.value choice, List.mem_cons_of_mem _ (List.mem_map_of_mem inside),
        (literal choice inside).symm⟩

theorem value_host (names : Names) : ∀ host ∈ hostValues, References.value names host = host := by
  intro host member
  have kept := hostValues_unescaped host member
  apply References.value_eq
  intro c inside
  refine ⟨?_, ?_, ?_⟩
  all_goals
    rintro rfl
    exact not_mem_of_unescaped kept (by decide) inside

theorem value_file (names : Names) (plain : dir.Plain) :
    ∀ file ∈ testCases dir, References.value names file = file := by
  intro file member
  have free := plain file (mem_testCases.mp member)
  apply References.value_eq
  intro c inside
  refine ⟨?_, ?_, ?_⟩
  all_goals
    rintro rfl
    exact free _ (by decide) inside

/-- A row is filled in just as its server is offered. -/
theorem fills_row (names : Names) (plain : dir.Plain) (small : i < 10) (host port file : Text × Text) :
    (Control.Allows names (.select (hostControl i) (.content [] :: hostValues.map .value)) host ∧
      Control.Allows names (.text (portControl i)) port ∧
      Control.Allows names (.select (fileControl i) (.content [] :: (testCases dir).map .value)) file) ↔
      Offered dir ⟨host.2, port.2, file.2⟩ ∧
        host.1 = hostControl i ∧ port.1 = portControl i ∧ file.1 = fileControl i := by
  simp only [Control.Allows, chosen_iff (value_host names), chosen_iff (value_file names plain),
    mem_testCases, hostControl, portControl, fileControl]
  rw [value_name (by decide) small, value_name (by decide) small, value_name (by decide) small]
  constructor
  · rintro ⟨⟨hostNamed, host⟩, ⟨portNamed, port⟩, fileNamed, file⟩
    exact ⟨⟨host, port, file⟩, hostNamed, portNamed, fileNamed⟩
  · rintro ⟨⟨host, port, file⟩, hostNamed, portNamed, fileNamed⟩
    exact ⟨⟨hostNamed, host⟩, ⟨portNamed, port⟩, fileNamed, file⟩

/-- The rows from number `i` on are filled in just as servers are offered. -/
theorem fills_rows (plain : dir.Plain) (small : i + n ≤ 10) :
    List.Forall₂ (Control.Allows names) ((List.range' i n).flatMap (rowControls dir)) entries ↔
      ∃ rows : List ServerInfo, rows.length = n ∧ (∀ row ∈ rows, Offered dir row) ∧
        entries = rowEntries i rows := by
  induction n generalizing i entries with
  | zero =>
      constructor
      · intro fills
        cases fills
        exact ⟨[], rfl, fun _ member => absurd member List.not_mem_nil, rfl⟩
      · rintro ⟨rows, none, -, rfl⟩
        rw [List.length_eq_zero_iff.mp none]
        exact .nil
  | succ n ih =>
      have first : i < 10 := by omega
      rw [List.range'_succ, List.flatMap_cons, rowControls]
      constructor
      · intro fills
        obtain ⟨host, fills, hostFilled, ports, rfl⟩ := List.forall₂_cons_left_iff.mp fills
        obtain ⟨port, fills, portFilled, files, rfl⟩ := List.forall₂_cons_left_iff.mp ports
        obtain ⟨file, fills, fileFilled, later, rfl⟩ := List.forall₂_cons_left_iff.mp files
        obtain ⟨offered, hostNamed, portNamed, fileNamed⟩ :=
          (fills_row names plain first host port file).mp ⟨hostFilled, portFilled, fileFilled⟩
        obtain ⟨rows, long, all, rfl⟩ := (ih (by omega)).mp later
        refine ⟨⟨host.2, port.2, file.2⟩ :: rows, by rw [List.length_cons, long],
          List.forall_mem_cons.mpr ⟨offered, all⟩, ?_⟩
        rw [rowEntries, ← hostNamed, ← portNamed, ← fileNamed]
      · rintro ⟨rows, long, offered, rfl⟩
        obtain ⟨row, rows, rfl⟩ := List.exists_cons_of_length_eq_add_one long
        obtain ⟨here, later⟩ := List.forall_mem_cons.mp offered
        obtain ⟨host, port, file⟩ := (fills_row names plain first (hostControl i, row.host)
          (portControl i, row.port) (fileControl i, row.fileName)).mpr ⟨here, rfl, rfl, rfl⟩
        exact .cons host (.cons port (.cons file
          ((ih (by omega)).mpr ⟨rows, Nat.succ.inj long, later, rfl⟩)))

theorem fills_panel (plain : dir.Plain) : Fills names (panelPage dir) entries ↔
    ∃ rows : List ServerInfo, rows.length = panelNServers ∧ (∀ row ∈ rows, Offered dir row) ∧
      entries = rowEntries 0 rows := by
  rw [Fills, controls_panelPage plain, List.range_eq_range']
  exact fills_rows plain (by decide)

/-- The query holds the rows as the fields of the panel. -/
theorem query_rows (small : i + rows.length ≤ 10) :
    (rowEntries i rows).map (fun entry => escape charset entry.1 ++ '=' :: escape charset entry.2) =
      panelFields i (rows.map (escaped charset)) := by
  induction rows generalizing i with
  | nil => rfl
  | cons row rows ih =>
      rw [List.length_cons] at small
      have digit : ∀ i < 10, unescaped i.digitChar = true := by decide
      have name : ∀ c, unescaped c = true →
          escape charset (c :: Text.decimal i) = [c, i.digitChar] := by
        intro c kept
        rw [decimal_digit (by omega), Forms.escape_unescaped kept,
          Forms.escape_unescaped (digit i (by omega))]
        rfl
      rw [rowEntries, List.map_cons, List.map_cons, List.map_cons, ih (by omega), List.map_cons,
        panelFields]
      simp only [hostControl, portControl, fileControl, name _ (by decide : unescaped 'h' = true),
        name _ (by decide : unescaped 'p' = true), name _ (by decide : unescaped 'f' = true)]
      rfl

theorem query_eq (few : rows.length ≤ 10) :
    query charset (rowEntries 0 rows) = panelQuery (rows.map (escaped charset)) := by
  rw [query, query_rows (by omega)]
  rfl

theorem without_escaped {c : Char} (noSign : unescaped c = false) (plus : c ≠ '+') (percent : c ≠ '%') :
    ∀ info ∈ rows.map (escaped charset), Without c info := by
  intro info member
  obtain ⟨row, -, rfl⟩ := List.mem_map.mp member
  exact ⟨Forms.not_mem_escape noSign plus percent, Forms.not_mem_escape noSign plus percent,
    Forms.not_mem_escape noSign plus percent⟩

/-- `parseQueryString` gives back the servers of a query of the panel. -/
theorem parseQueryString_panel (filled : infos ≠ []) (few : infos.length ≤ 10)
    (plain : ∀ info ∈ infos, Without '&' info) :
    CgiServer.parseQueryString (panelQuery infos) = some infos := by
  have digits : 0 + infos.length ≤ 10 := by omega
  have fields : panelFields 0 infos ≠ [] := by
    cases infos with
    | nil => exact absurd rfl filled
    | cons info infos => exact List.cons_ne_nil _ _
  have tokens : split true (· == '&') (panelQuery infos) = panelFields 0 infos :=
    split_intercalate fields (panelFields_whole digits plain)
  rw [CgiServer.parseQueryString, tokens]
  exact serverInfos_panelFields digits

/-- `parseHTTPQueryString` gives back those with some text. -/
theorem parseHTTPQueryString_panel (few : infos.length ≤ 10)
    (plain : ∀ info ∈ infos, Without '&' info ∧ Without '\x00' info) :
    parseHTTPQueryString (some (panelQuery infos)) = some (infos.filter isFilled) := by
  obtain ⟨rows, same, written⟩ := exists_rows plain
  have short : rows.length ≤ 10 := by
    rw [← same, List.length_map] at few
    exact few
  rw [panelQuery, ← written, parseHTTPQueryString_rows short, found, ← same, List.filter_map]
  rfl

/-- The tag of the form in the page. -/
theorem find_form : (Html.elements (Html.tokens .data (panelPage dir))).find? (·.name == "form".toList) =
    some ⟨false, "form".toList, [("action".toList, "console.cgi".toList), ("method".toList, "GET".toList)]⟩ := by
  have before : (Html.elements (Html.tokens .data panelHead)).find? (·.name == "form".toList) = none := by
    apply of_literal (P := fun s => (Html.elements (Html.tokens .data s)).find?
      (·.name == "form".toList) = none) rfl
    decide +kernel
  have form : Html.elements (Html.tokens .data formTag) = [⟨false, "form".toList,
      [("action".toList, "console.cgi".toList), ("method".toList, "GET".toList)]⟩] := by
    decide +kernel
  have first : Html.after .data panelHead = .data := gives_around.1.state
  rw [panelPage, Html.tokens_append, first, Html.tokens_append, Html.elements_append,
    Html.elements_append, List.find?_append, before, form]
  rfl

/-- What a browser asks for. -/
theorem requestLine_panel : requestLine names charset (panelPage dir) entries =
    some ("GET".toList ++ " /".toList ++ "console.cgi".toList ++ '?' :: query charset entries ++
      " HTTP/1.1\r\n".toList) := by
  have read : ∀ name value, List.lookup name.toList
      [("action".toList, "console.cgi".toList), ("method".toList, "GET".toList)] = some value →
      (∀ c ∈ value, c ≠ '&' ∧ c ≠ '\r' ∧ c ≠ '\x00') →
      Forms.formAttribute names (panelPage dir) name = some value := by
    intro name value there plain
    simp only [Forms.formAttribute, find_form, Option.bind_eq_bind, Option.bind_some]
    rw [Forms.attributeOf, there, Option.map_some, References.value_eq plain]
  rw [requestLine, read "method" "GET".toList (by decide) (List.all_iff_forall_prop.mp (by decide)),
    read "action" "console.cgi".toList (by decide) (List.all_iff_forall_prop.mp (by decide))]
  rfl

/-- The first line of a request, in front of the NUL that ends it. -/
theorem requestLine_first {line more : Text} (plain : ∀ c ∈ line, c ≠ '\x00' ∧ c ≠ '\r' ∧ c ≠ '\n') :
    CgiServer.requestLine (Text.cString (line ++ '\r' :: more)) = line := by
  have string : Text.cString (line ++ '\r' :: more) = line ++ '\r' :: Text.cString more := by
    rw [Text.cString, List.takeWhile_append_of_pos]
    · rfl
    · intro c member
      rw [decide_eq_true_eq]
      exact fun zero => (plain c member).1 (Char.toNat_inj.mp zero)
  rw [string, CgiServer.requestLine, token, List.takeWhile_append_of_pos]
  · exact List.append_nil line
  · intro c member
    obtain ⟨-, cr, lf⟩ := plain c member
    simp [cr, lf]

/-- Path and query of a request line for the console. -/
theorem target_console {q : Text} (plain : ' ' ∉ q ∧ '?' ∉ q) :
    let line := "GET /console.cgi?".toList ++ (q ++ ' ' :: "HTTP/1.1".toList)
    ' ' ∈ line ∧ CgiServer.path (CgiServer.target line) = "/console.cgi".toList ∧
      CgiServer.query (CgiServer.target line) = q := by
  obtain ⟨noBlank, noMark⟩ := plain
  have url : ∀ rest, CgiServer.target ("GET /console.cgi?".toList ++ rest) =
      "/console.cgi?".toList ++ token (· == ' ') rest := fun _ => rfl
  have path : ∀ rest, CgiServer.path ("/console.cgi?".toList ++ rest) = "/console.cgi".toList := fun _ => rfl
  have asked : ∀ rest, CgiServer.query ("/console.cgi?".toList ++ rest) = token (· == '?') rest :=
    fun _ => rfl
  have whole : token (· == ' ') (q ++ ' ' :: "HTTP/1.1".toList) = q := (token_append noBlank _).1
  have all : token (· == '?') (q ++ []) = q ++ [] := by
    rw [token, List.takeWhile_append_of_pos]
    · rfl
    · intro c member
      rw [Bool.not_eq_true', beq_eq_false_iff_ne]
      exact fun same => noMark (same ▸ member)
  rw [List.append_nil] at all
  refine ⟨List.mem_append_left _ (by decide), ?_, ?_⟩
  · rw [url, path]
  · rw [url, asked, whole, all]

/-- A request for the console is answered with the servers of its query. -/
theorem handleHttpRequest_console {r : CgiServer.Received} {q headers : Text}
    (asked : r.bytes = "GET".toList ++ " /".toList ++ "console.cgi".toList ++ '?' :: q ++
      " HTTP/1.1\r\n".toList ++ headers) (room : r.bytes.length < CgiServer.bufferSize)
    (plain : ∀ c ∈ " ?\r\n\x00".toList, c ∉ q) :
    CgiServer.handleHttpRequest true r = (CgiServer.parseQueryString q).map .console := by
  let line := "GET /console.cgi?".toList ++ (q ++ ' ' :: "HTTP/1.1".toList)
  have split : r.bytes = line ++ '\r' :: '\n' :: headers := by
    rw [asked]
    simp [line]
  have line_plain : ∀ c ∈ line, c ≠ '\x00' ∧ c ≠ '\r' ∧ c ≠ '\n' := by
    intro c member
    rcases List.mem_append.mp member with first | later
    · have literal : ∀ c ∈ "GET /console.cgi?".toList, c ≠ '\x00' ∧ c ≠ '\r' ∧ c ≠ '\n' :=
        List.all_iff_forall_prop.mp (by decide)
      exact literal c first
    · rcases List.mem_append.mp later with inside | last
      · refine ⟨?_, ?_, ?_⟩
        all_goals
          rintro rfl
          exact plain _ (by decide) inside
      · have literal : ∀ c ∈ ' ' :: "HTTP/1.1".toList, c ≠ '\x00' ∧ c ≠ '\r' ∧ c ≠ '\n' :=
          List.all_iff_forall_prop.mp (by decide)
        exact literal c last
  obtain ⟨spaced, path, found⟩ := target_console ⟨plain ' ' (by decide), plain '?' (by decide)⟩
  rw [CgiServer.handleHttpRequest, CgiServer.request_spec, if_pos (.inl room), split]
  simp only [Option.bind_eq_bind, Option.bind_some]
  rw [CgiServer.respond_eq, requestLine_first line_plain, if_pos spaced, path, found]
  rfl

/-- The sessions are those of the rows with all fields. -/
theorem mem_sessions {info : ServerInfo} : (i, info) ∈ CgiServer.sessions infos ↔
    infos[i]? = some info ∧ info.host ≠ [] ∧ info.port ≠ [] ∧ info.fileName ≠ [] := by
  simp only [CgiServer.sessions, List.mem_map, List.mem_filter, List.mem_zipIdx_iff_getElem?,
    decide_eq_true_eq]
  constructor
  · rintro ⟨⟨info', i'⟩, ⟨there, all⟩, same⟩
    cases same
    exact ⟨there, all⟩
  · rintro ⟨there, all⟩
    exact ⟨(info, i), ⟨there, all⟩, rfl⟩

/-- A host of the menu is not escaped. -/
theorem escape_host (offered : Offered dir row) : escape charset row.host = row.host := by
  rcases offered.host with none | listed
  · rw [none]
    rfl
  · exact Forms.escape_eq_iff.mpr (hostValues_unescaped _ listed)

theorem escaped_eq_iff (offered : Offered dir row) : escaped charset row = row ↔
    (∀ c ∈ row.port, unescaped c = true) ∧ ∀ c ∈ row.fileName, unescaped c = true := by
  obtain ⟨host, port, file⟩ := row
  have same : escape charset host = host := escape_host offered
  simp only [escaped, ServerInfo.mk.injEq, Forms.escape_eq_iff] at same ⊢
  exact and_iff_right same

theorem unchanged_iff (offered : ∀ row ∈ rows, Offered dir row) : rows.map (escaped charset) = rows ↔
    ∀ row ∈ rows, (∀ c ∈ row.port, unescaped c = true) ∧ ∀ c ∈ row.fileName, unescaped c = true := by
  induction rows with
  | nil => simp
  | cons row rows ih =>
      obtain ⟨first, later⟩ := List.forall_mem_cons.mp offered
      rw [List.map_cons, List.cons.injEq, List.forall_mem_cons, escaped_eq_iff first, ih later]

theorem sessions_iff (offered : ∀ row ∈ rows, Offered dir row) (i : Nat) (info : ServerInfo) :
    (i, info) ∈ CgiServer.sessions (rows.map (escaped charset)) ↔
      ∃ row, rows[i]? = some row ∧ row.host ∈ hostValues ∧ row.port ≠ [] ∧ row.fileName ≠ [] ∧
        info = ⟨row.host, escape charset row.port, escape charset row.fileName⟩ := by
  rw [mem_sessions, List.getElem?_map, Option.map_eq_some_iff]
  constructor
  · rintro ⟨⟨row, there, rfl⟩, host, port, file⟩
    have here := offered row (List.mem_of_getElem? there)
    simp only [escaped, ne_eq, Forms.escape_eq_nil_iff] at host port file
    refine ⟨row, there, here.host.resolve_left host, port, file, ?_⟩
    rw [escaped, escape_host here]
  · rintro ⟨row, there, listed, port, file, rfl⟩
    have here := offered row (List.mem_of_getElem? there)
    have host : row.host ≠ [] := by
      intro none
      rw [none] at listed
      revert listed
      decide
    refine ⟨⟨row, there, ?_⟩, host, fun none => port (Forms.escape_eq_nil_iff.mp none),
      fun none => file (Forms.escape_eq_nil_iff.mp none)⟩
    rw [escaped, escape_host here]

/-- A page that fits blank servers fits as many whose labels are read as they are. -/
theorem Fitting.of_blank {t : Template} {n : Nat} (present : n ≠ 0) (long : infos.length = n)
    (labels : ∀ info ∈ infos, Html.Flat (label info) ∧ References.Literal names (label info))
    (fitting : Fitting names t (List.replicate n ⟨[], [], []⟩)) : Fitting names t infos := by
  have filled : List.replicate n (⟨[], [], []⟩ : ServerInfo) ≠ [] := by simpa using present
  have ids := fitting.ids
  rw [List.length_replicate, ← long] at ids
  refine ⟨labels, fun _ => fitting.header filled, fun _ => fitting.pre filled, ids, ?_⟩
  rintro rfl
  exact absurd long.symm present

/-- The label of a server from a query is read as it is. -/
theorem label_escaped (info : ServerInfo) : Html.Flat (label (escaped charset info)) ∧
    References.Literal names (label (escaped charset info)) := by
  have free : ∀ c, unescaped c = false → c ≠ '+' → c ≠ '%' → c ≠ ':' → c ∉ label (escaped charset info) := by
    intro c noSign plus percent colon member
    rcases List.mem_append.mp member with first | port
    · rcases List.mem_append.mp first with host | sign
      · exact Forms.not_mem_escape noSign plus percent host
      · exact colon (List.mem_singleton.mp sign)
    · exact Forms.not_mem_escape noSign plus percent port
  exact ⟨Forms.flat_of_noAngle (free '<' (by decide) (by decide) (by decide) (by decide)),
    .plain (free '&' (by decide) (by decide) (by decide) (by decide)),
    free '\r' (by decide) (by decide) (by decide) (by decide),
    free '\x00' (by decide) (by decide) (by decide) (by decide)⟩

theorem page_fits {file : Option Template} {page : List ServerInfo → Text}
    (long : rows.length = panelNServers)
    (made : ∀ hosts, generateHTTPNPShellWebConsole (file.map (·.text)) hosts = htmlContentType ++ page hosts)
    (fits : Fits names (file.getD .shipped) page (List.replicate panelNServers ⟨[], [], []⟩)) :
    Fits names (file.getD .shipped) page (rows.map (escaped charset)) := by
  rw [page_eq made] at fits ⊢
  refine (fits.fitting.of_blank (by decide) (by rw [List.length_map, long]) ?_).fits
  intro info member
  obtain ⟨row, -, rfl⟩ := List.mem_map.mp member
  exact label_escaped row

end Rows

/-- Whatever is filled into the panel arrives at `cgi_server`, when its request is read whole. -/
theorem panel_arrives (names : Names) (charset : Charset) (dir : Listing) (plain : dir.Plain) (page : Text)
    (made : generatePanel dir = htmlContentType ++ page) (entries : List (Text × Text))
    (fills : Fills names page entries) (line headers : Text)
    (asked : requestLine names charset page entries = some line) (r : CgiServer.Received)
    (received : r.bytes = line ++ headers) (room : r.bytes.length < CgiServer.bufferSize) :
    ∃ rows, Arrives names charset dir entries r rows := by
  have same : panelPage dir = page := List.append_cancel_left made
  subst same
  obtain ⟨rows, five, offered, rfl⟩ := (fills_panel plain).mp fills
  have few : rows.length ≤ 10 := by rw [five]; decide
  have few' : (rows.map (escaped charset)).length ≤ 10 := by rw [List.length_map]; exact few
  have noAmp : ∀ info ∈ rows.map (escaped charset), Without '&' info :=
    without_escaped (by decide) (by decide) (by decide)
  have noNul : ∀ info ∈ rows.map (escaped charset), Without '\x00' info :=
    without_escaped (by decide) (by decide) (by decide)
  have present : rows.map (escaped charset) ≠ [] := by
    intro none
    rw [List.map_eq_nil_iff.mp none] at five
    cases five
  rw [requestLine_panel] at asked
  cases asked
  refine ⟨rows, five, offered, rfl, ?_, ?_, sessions_iff offered, fun file page => page_fits five,
    unchanged_iff offered⟩
  · rw [handleHttpRequest_console received room, query_eq few,
      parseQueryString_panel present few' noAmp]
    · rfl
    · intro c sign member
      rcases Forms.mem_query member with kept | other
      · have signs : ∀ c ∈ " ?\r\n\x00".toList, unescaped c = false :=
          List.all_iff_forall_prop.mp (by decide)
        exact Bool.false_ne_true ((signs c sign).symm.trans kept)
      · have apart : ∀ c ∈ " ?\r\n\x00".toList, c ∉ "+%=&".toList :=
          List.all_iff_forall_prop.mp (by decide)
        exact apart c sign other
  · rw [query_eq few]
    exact parseHTTPQueryString_panel few' fun info member => ⟨noAmp info member, noNul info member⟩

/-- A directory with a file and another directory. -/
def oneFile : Listing := ⟨[("t 1.txt".toList, true), ("old".toList, false)], false⟩

/-- One row filled in. -/
def oneRow : List ServerInfo :=
  ⟨hostName 0 ++ ".".toList ++ panelDomain, "7001".toList, "t 1.txt".toList⟩ ::
    List.replicate 4 ⟨[], [], []⟩

theorem oneFile_plain : oneFile.Plain := by
  intro file member
  rw [List.mem_singleton.mp member]
  exact List.all_iff_forall_prop.mp (by decide)

theorem fills_oneRow : Fills someNames (panelPage oneFile) (rowEntries 0 oneRow) := by
  refine (fills_panel oneFile_plain).mpr ⟨oneRow, rfl, ?_, rfl⟩
  have blank : Offered oneFile ⟨[], [], []⟩ := ⟨.inl rfl, ⟨by decide, by decide⟩, .inl rfl⟩
  refine List.forall_mem_cons.mpr ⟨⟨.inr ?_, ⟨by decide, by decide⟩, .inr (by decide)⟩, ?_⟩
  · exact List.mem_map.mpr ⟨0, by decide, rfl⟩
  · intro row member
    rw [List.eq_of_mem_replicate member]
    exact blank

/-- The request of a browser for that row. -/
def oneRequest : CgiServer.Received where
  bytes := "GET /console.cgi?h0=nplinux1.cs.nycu.edu.tw&p0=7001&f0=t+1.txt&".toList ++
    "h1=&p1=&f1=&h2=&p2=&f2=&h3=&p3=&f3=&h4=&p4=&f4= HTTP/1.1\r\n\r\n".toList
  fits := by decide +kernel

theorem panel_arrives_oneRow :
    ∃ rows, Arrives someNames Forms.utf8 oneFile (rowEntries 0 oneRow) oneRequest rows :=
  panel_arrives someNames Forms.utf8 oneFile oneFile_plain _ rfl _ fills_oneRow _
    "\r\n".toList requestLine_panel _ (by decide +kernel) (by decide +kernel)

end CGI

end NetProg
