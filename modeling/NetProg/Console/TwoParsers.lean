import NetProg.Console.QueryString

/-!
# The two parsers of a query

`cgi_server` splits the query and takes every three fields for a server, whatever they are called;
`console.cgi` searches for fields by their names and drops servers without any text.  On the queries
of the panel both read what was filled in.
-/

namespace NetProg.CGI

open CgiServer (parseQueryString serverInfos value)

/-- The fields of servers from number `i` on, as the panel writes them. -/
def panelFields (i : Nat) : List ServerInfo → List Text
  | [] => []
  | info :: infos =>
      ('h' :: i.digitChar :: '=' :: info.host) :: ('p' :: i.digitChar :: '=' :: info.port) ::
        ('f' :: i.digitChar :: '=' :: info.fileName) :: panelFields (i + 1) infos

/-- The query of the panel for these servers. -/
def panelQuery (infos : List ServerInfo) : Text := formQuery (panelFields 0 infos)

/-- No field of the server contains the character. -/
def Without (c : Char) (info : ServerInfo) : Prop :=
  c ∉ info.host ∧ c ∉ info.port ∧ c ∉ info.fileName

/-- Some text was filled in. -/
def isFilled (info : ServerInfo) : Bool :=
  !(info.host.isEmpty && info.port.isEmpty && info.fileName.isEmpty)

/-- `parseQueryString` without the empty entries is `parseHTTPQueryString`. -/
def Agree (infos : List ServerInfo) : Prop :=
  ∃ all, parseQueryString (panelQuery infos) = some all ∧
    parseHTTPQueryString (some (panelQuery infos)) = some (all.filter isFilled)

section Panel

variable {infos : List ServerInfo} {i : Nat}

/-- The values of the servers as rows of the panel. -/
theorem exists_rows (plain : ∀ info ∈ infos, Without '&' info ∧ Without '\x00' info) :
    ∃ rows : List Row, rows.map Row.info = infos ∧ ∀ i, rowFields i rows = panelFields i infos := by
  induction infos with
  | nil => exact ⟨[], rfl, fun _ => rfl⟩
  | cons info infos ih =>
      obtain ⟨⟨⟨host, port, file⟩, ⟨host', port', file'⟩⟩, later⟩ := List.forall_mem_cons.mp plain
      obtain ⟨rows, same, fields⟩ := ih later
      refine ⟨⟨⟨info.host, host, host'⟩, ⟨info.port, port, port'⟩, ⟨info.fileName, file, file'⟩⟩ :: rows,
        by rw [List.map_cons, same]; rfl, fun i => ?_⟩
      rw [rowFields, fields, panelFields]
      rfl

theorem panelFields_whole (digits : i + infos.length ≤ 10) (plain : ∀ info ∈ infos, Without '&' info) :
    ∀ field ∈ panelFields i infos, field ≠ [] ∧ '&' ∉ field := by
  induction infos generalizing i with
  | nil => exact fun _ member => absurd member List.not_mem_nil
  | cons info infos ih =>
      rw [List.length_cons] at digits
      obtain ⟨⟨host, port, file⟩, later⟩ := List.forall_mem_cons.mp plain
      have digit : i.digitChar ≠ '&' := by
        have small : i < 10 := by omega
        have all : ∀ i < 10, Nat.digitChar i ≠ '&' := by decide
        exact all i small
      have one : ∀ (name : Char) (text : Text), name ≠ '&' → '&' ∉ text →
          name :: i.digitChar :: '=' :: text ≠ [] ∧ '&' ∉ name :: i.digitChar :: '=' :: text := by
        intro name text other free
        simp [other.symm, digit.symm, free]
      simp only [panelFields, List.forall_mem_cons]
      exact ⟨one 'h' _ (by decide) host, one 'p' _ (by decide) port, one 'f' _ (by decide) file,
        ih (by omega) later⟩

/-- The value of a field is what stands behind its first `=`. -/
theorem value_field {name d : Char} (noName : name ≠ '=') (digit : d ≠ '=') (text : Text) :
    value (name :: d :: '=' :: text) = text := by
  simp [value, noName, digit]

theorem serverInfos_panelFields (digits : i + infos.length ≤ 10) :
    serverInfos (panelFields i infos) = some infos := by
  induction infos generalizing i with
  | nil => rfl
  | cons info infos ih =>
      rw [List.length_cons] at digits
      have digit : i.digitChar ≠ '=' := by
        have small : i < 10 := by omega
        have all : ∀ i < 10, Nat.digitChar i ≠ '=' := by decide
        exact all i small
      rw [panelFields, serverInfos, ih (by omega), value_field (by decide) digit,
        value_field (by decide) digit, value_field (by decide) digit]
      rfl

end Panel

/-- The parsers agree on the servers of the panel, up to those without any text. -/
theorem parsers_agree (infos : List ServerInfo) (present : infos ≠ []) (few : infos.length ≤ 10)
    (plain : ∀ info ∈ infos, Without '&' info ∧ Without '\x00' info) : Agree infos := by
  have digits : 0 + infos.length ≤ 10 := by omega
  have fields : panelFields 0 infos ≠ [] := by
    cases infos with
    | nil => exact absurd rfl present
    | cons info infos => exact List.cons_ne_nil _ _
  refine ⟨infos, ?_, ?_⟩
  · have tokens : split true (· == '&') (panelQuery infos) = panelFields 0 infos :=
      split_intercalate fields (panelFields_whole digits fun info member => (plain info member).1)
    rw [parseQueryString, tokens]
    exact serverInfos_panelFields digits
  · obtain ⟨rows, same, written⟩ := exists_rows plain
    have short : rows.length ≤ 10 := by
      rw [← same, List.length_map] at few
      exact few
    rw [panelQuery, ← written, parseHTTPQueryString_rows short, found, ← same, List.filter_map]
    rfl

theorem parsers_agree_one : Agree [⟨"h1=".toList, [], "f0=x".toList⟩, ⟨[], [], []⟩] :=
  parsers_agree _ (by decide) (by decide) (by simp [Without])

/-- A string may contain a NUL; for `parseHTTPQueryString` the query ends there. -/
theorem nul_ends_query : ¬ ∀ infos : List ServerInfo, infos ≠ [] → infos.length ≤ 10 →
    (∀ info ∈ infos, Without '&' info) → Agree infos := by
  intro agree
  obtain ⟨all, split, search⟩ := agree [⟨"a\x00".toList, ['1'], ['t']⟩] (by decide) (by decide)
    (by simp [Without])
  have first : parseQueryString (panelQuery [⟨"a\x00".toList, ['1'], ['t']⟩]) =
      some [⟨"a\x00".toList, ['1'], ['t']⟩] := by decide +kernel
  have second : parseHTTPQueryString (some (panelQuery [⟨"a\x00".toList, ['1'], ['t']⟩])) = some [] := by
    decide +kernel
  rw [first] at split
  rw [second, ← Option.some.inj split] at search
  cases search

end NetProg.CGI
