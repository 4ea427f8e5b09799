import Mathlib.Data.Char
import Mathlib.Data.List.Lex
import NetProg.Console.TwoParsers
import NetProg.Console.Page
import NetProg.Lib.Forms

/-!
# The panel

`generatePanel` writes a form with a row for each of five servers: the host and the input file are
chosen from menus, the port is typed.  What the browser asks for when the form is sent is read by
`cgi_server` and by `console.cgi`; neither undoes the escapes of the query.
-/

namespace NetProg.CGI

open Forms (Charset Control Fills Gives Offer Place escape query unescaped)
open References (Names)

/-- `PANEL_N_SERVERS` (`np_project3/cgiserver/cgi_util.hpp:18`). -/
def panelNServers : Nat := 5

/-- `PANEL_N_NP_HOST` (`np_project3/cgiserver/cgi_util.hpp:19`). -/
def panelNNpHost : Nat := 12

/-- `PANEL_FORM_METHOD` (`np_project3/cgiserver/cgi_util.hpp:21`). -/
def panelFormMethod : Text := "GET".toList

/-- `PANEL_FORM_ACTION` (`np_project3/cgiserver/cgi_util.hpp:22`). -/
def panelFormAction : Text := "console.cgi".toList

/-- `PANEL_DOMAIN` (`np_project3/cgiserver/cgi_util.hpp:24`). -/
def panelDomain : Text := "cs.nycu.edu.tw".toList

/-- A directory as its iterator lists it: names, and whether each is a regular file. -/
structure Listing where
  entries : List (Text × Bool)
  /-- The iterator throws in the end. -/
  failed : Bool

/-- The names of the regular files. -/
def Listing.files (dir : Listing) : List Text := (dir.entries.filter (·.2)).map (·.1)

/-- `test_cases`, sorted unless the directory could not be read to its end. -/
def testCases (dir : Listing) : List Text :=
  if dir.failed then dir.files else dir.files.mergeSort (fun a b => decide (a ≤ b))

/-- An option of a menu. -/
def menuOption (value label : Text) : Text :=
  "<option value=\"".toList ++ value ++ "\">".toList ++ label ++ "</option>".toList

/-- `generatePanelTestCaseMenu` (`np_project3/cgiserver/cgi_util.cpp:143-161`). -/
def generatePanelTestCaseMenu (dir : Listing) : Text :=
  (testCases dir).flatMap fun testCase => menuOption testCase testCase

/-- The name of host `i` of the panel. -/
def hostName (i : Nat) : Text := "nplinux".toList ++ Text.decimal (i + 1 : Nat)

/-- `generatePanelHostMenu` (`np_project3/cgiserver/cgi_util.cpp:163-170`). -/
def generatePanelHostMenu (numHosts : Nat) (domain : Text) : Text :=
  (List.range numHosts).flatMap fun i => menuOption (hostName i ++ ".".toList ++ domain) (hostName i)

def panelHead : Text :=
  "
<!DOCTYPE html>
<html lang=\"en\">
  <head>
    <title>NP Project 3 Panel</title>
    <link
      rel=\"stylesheet\"
      href=\"https://cdn.jsdelivr.net/npm/bootstrap@4.5.3/dist/css/bootstrap.min.css\"
      integrity=\"sha384-TX8t27EcRE3e/ihU7zmQxVncDAy5uIKz4rEkgIXeMed4M0jlfIDPvg6uqKI2xXr2\"
      crossorigin=\"anonymous\"
    />
    <link
      href=\"https://fonts.googleapis.com/css?family=Source+Code+Pro\"
      rel=\"stylesheet\"
    />
    <link
      rel=\"icon\"
      type=\"image/png\"
      href=\"https://cdn4.iconfinder.com/data/icons/iconsimple-setting-time/512/dashboard-512.png\"
    />
    <style>
      * \x7b
        font-family: 'Source Code Pro', monospace;
      \x7d
    </style>
  </head>
  <body class=\"bg-secondary pt-5\">".toList

/-- The tag of the form. -/
def formTag : Text :=
  "
    <form action=\"".toList ++ panelFormAction ++ "\" method=\"".toList ++ panelFormMethod ++ "\">".toList

def tableHead : Text :=
  "
      <table class=\"table mx-auto bg-light\" style=\"width: inherit\">
        <thead class=\"thead-dark\">
          <tr>
            <th scope=\"col\">#</th>
            <th scope=\"col\">Host</th>
            <th scope=\"col\">Port</th>
            <th scope=\"col\">Input File</th>
          </tr>
        </thead>
        <tbody>".toList

def rowHeading : Text :=
  "
          <tr>
            <th scope=\"row\" class=\"align-middle\">Session ".toList

/-- The cell of the hosts up to the number of the row. -/
def hostCell : Text :=
  "</th>
            <td>
              <div class=\"input-group\">
                <select name=\"h".toList

def hostMenuStart : Text :=
  "\" class=\"custom-select\">
                  <option></option>".toList

def hostMenuEnd : Text :=
  "
                </select>".toList

def portCell : Text :=
  "
                <div class=\"input-group-append\">
                  <span class=\"input-group-text\">.cs.nycu.edu.tw</span>
                </div>
              </div>
            </td>
            <td>
              <input name=\"p".toList

def fileCell : Text :=
  "\" type=\"text\" class=\"form-control\" size=\"5\" />
            </td>
            <td>
              <select name=\"f".toList

def fileMenuStart : Text :=
  "\" class=\"custom-select\">
                <option></option>".toList

def fileMenuEnd : Text :=
  "
              </select>".toList

def rowEnd : Text :=
  "
            </td>
          </tr>".toList

/-- The row of server `i`. -/
def panelRow (hostMenu testCaseMenu : Text) (i : Nat) : Text :=
  rowHeading ++ Text.decimal (i + 1 : Nat) ++ hostCell ++ Text.decimal i ++ hostMenuStart ++ hostMenu ++
    hostMenuEnd ++ portCell ++ Text.decimal i ++ fileCell ++ Text.decimal i ++ fileMenuStart ++
    testCaseMenu ++ fileMenuEnd ++ rowEnd

def panelEnd : Text :=
  "
          <tr>
            <td colspan=\"3\"></td>
            <td>
              <button type=\"submit\" class=\"btn btn-info btn-block\">Run</button>
            </td>
          </tr>
        </tbody>
      </table>
    </form>
  </body>
</html>".toList

/-- The page of the panel. -/
def panelPage (dir : Listing) : Text :=
  let testCaseMenu := generatePanelTestCaseMenu dir
  let hostMenu := generatePanelHostMenu panelNNpHost panelDomain
  panelHead ++ (formTag ++ (tableHead ++
    ((List.range panelNServers).flatMap (panelRow hostMenu testCaseMenu) ++ panelEnd)))

/-- `generatePanel` (`np_project3/cgiserver/cgi_util.cpp:172-256`). -/
def generatePanel (dir : Listing) : Text := htmlContentType ++ panelPage dir

/-- The names of the controls of row `i`. -/
def hostControl (i : Nat) : Text := 'h' :: Text.decimal i

def portControl (i : Nat) : Text := 'p' :: Text.decimal i

def fileControl (i : Nat) : Text := 'f' :: Text.decimal i

/-- What the hosts are offered as. -/
def hostValues : List Text :=
  (List.range panelNNpHost).map fun i => hostName i ++ ".".toList ++ panelDomain

/-- The controls of row `i`. -/
def rowControls (dir : Listing) (i : Nat) : List Control :=
  [.select (hostControl i) (.content [] :: hostValues.map .value), .text (portControl i),
    .select (fileControl i) (.content [] :: (testCases dir).map .value)]

/-- The names of the files can be written into a page, and read back as a line. -/
def Listing.Plain (dir : Listing) : Prop := ∀ file ∈ dir.files, ∀ c ∈ "\"&<\r\n\x00".toList, c ∉ file

/-- What the user can fill into a row. -/
structure Offered (dir : Listing) (info : ServerInfo) : Prop where
  host : info.host = [] ∨ info.host ∈ hostValues
  port : '\n' ∉ info.port ∧ '\r' ∉ info.port
  file : info.fileName = [] ∨ info.fileName ∈ dir.files

/-- The entries of the form for the rows from number `i` on. -/
def rowEntries (i : Nat) : List ServerInfo → List (Text × Text)
  | [] => []
  | info :: infos =>
      (hostControl i, info.host) :: (portControl i, info.port) :: (fileControl i, info.fileName) ::
        rowEntries (i + 1) infos

/-- The row as it stands in the query. -/
def escaped (charset : Charset) (info : ServerInfo) : ServerInfo :=
  ⟨escape charset info.host, escape charset info.port, escape charset info.fileName⟩

section Page

variable {names : Names} {dir : Listing} {hostMenu testCaseMenu : Text} {i : Nat}

/-- A literal part of the page. -/
theorem gives_literal {start last : Html.State × Place} {found : List Control} {s : String} {l : Text}
    (same : String.ofList l = s) (gives : Gives start l last found) : Gives start s.toList last found :=
  of_literal (P := fun s => Gives start s last found) same gives

set_option maxRecDepth 20000 in
/-- What stands around the rows has no controls. -/
theorem gives_around : Gives (.data, .outside) panelHead (.data, .outside) [] ∧
    Gives (.data, .outside) formTag (.data, .outside) [] ∧
    Gives (.data, .outside) tableHead (.data, .outside) [] ∧
    Gives (.data, .outside) panelEnd (.data, .outside) [] := by
  refine ⟨gives_literal rfl ?_, ?_, gives_literal rfl ?_, gives_literal rfl ?_⟩
  all_goals decide +kernel

set_option maxRecDepth 2000 in
/-- The cells of a row up to the numbers in their names. -/
theorem gives_cells : Gives (.data, .outside) rowHeading (.data, .outside) [] ∧
    Gives (.data, .outside) hostCell
      (.quoted '"' ⟨false, "select".toList, []⟩ "name".toList ['h'], .outside) [] ∧
    Gives (.data, .outside) portCell
      (.quoted '"' ⟨false, "input".toList, []⟩ "name".toList ['p'], .outside) [] ∧
    Gives (.data, .outside) rowEnd (.data, .outside) [] := by
  refine ⟨gives_literal rfl ?_, gives_literal rfl ?_, gives_literal rfl ?_, gives_literal rfl ?_⟩
  all_goals decide +kernel

/-- What stands behind the numbers. -/
theorem gives_behind (small : i < panelNServers) :
    Gives (.quoted '"' ⟨false, "select".toList, []⟩ "name".toList ('h' :: Nat.toDigits 10 i), .outside)
      hostMenuStart (.data, .select ('h' :: Nat.toDigits 10 i) [.content []]) [] ∧
    Gives (.quoted '"' ⟨false, "input".toList, []⟩ "name".toList ('p' :: Nat.toDigits 10 i), .outside)
      fileCell (.quoted '"' ⟨false, "select".toList, []⟩ "name".toList ['f'], .outside)
      [.text ('p' :: Nat.toDigits 10 i)] ∧
    Gives (.quoted '"' ⟨false, "select".toList, []⟩ "name".toList ('f' :: Nat.toDigits 10 i), .outside)
      fileMenuStart (.data, .select ('f' :: Nat.toDigits 10 i) [.content []]) [] := by
  refine ⟨gives_literal rfl ?_, gives_literal rfl ?_, gives_literal rfl ?_⟩
  all_goals
    revert i
    decide +kernel

theorem gives_number : ∀ i ≤ panelNServers,
    Gives (.data, .outside) (Nat.toDigits 10 i) (.data, .outside) [] ∧ '"' ∉ Nat.toDigits 10 i := by
  decide

/-- A row gives its controls, with what the menus offer. -/
theorem gives_row {hosts tests : List Offer} (small : i < panelNServers)
    (menu : ∀ name offers, Gives (.data, .select name offers) hostMenu
      (.data, .select name (offers ++ hosts)) [])
    (menu' : ∀ name offers, Gives (.data, .select name offers) testCaseMenu
      (.data, .select name (offers ++ tests)) []) :
    Gives (.data, .outside) (panelRow hostMenu testCaseMenu i) (.data, .outside)
      [.select (hostControl i) (.content [] :: hosts), .text (portControl i),
        .select (fileControl i) (.content [] :: tests)] := by
  have ended : ∀ (name : Text) (offers : List Offer), Gives (.data, .select name offers) hostMenuEnd
      (.data, .outside) [.select name offers] := fun _ _ => ⟨rfl, rfl⟩
  have ended' : ∀ (name : Text) (offers : List Offer), Gives (.data, .select name offers) fileMenuEnd
      (.data, .outside) [.select name offers] := fun _ _ => ⟨rfl, rfl⟩
  obtain ⟨heading, hostName, portName, last⟩ := gives_cells
  obtain ⟨hostStart, fileName, fileStart⟩ := gives_behind small
  obtain ⟨number, -⟩ := gives_number (i + 1) small
  obtain ⟨-, plain⟩ := gives_number i small.le
  rw [panelRow, hostControl, portControl, fileControl, decimal_eq, decimal_eq]
  have host := (((heading.append number).append hostName).append
    (Forms.gives_quoted plain _ _ _ _)).append hostStart
  have port := (((host.append (menu _ _)).append (ended _ _)).append portName).append
    (Forms.gives_quoted plain _ _ _ _)
  have file := ((port.append fileName).append (Forms.gives_quoted plain _ _ _ _)).append fileStart
  exact ((file.append (menu' _ _)).append (ended' _ _)).append last

theorem menuOption_eq (value label : Text) : menuOption value label = Forms.option value label := by
  have closing : "</option>".toList = Html.closing "option".toList := by decide
  have regroup : ∀ a v b l e : Text, a ++ v ++ b ++ l ++ e = a ++ (v ++ (b ++ (l ++ e))) := by simp
  exact (regroup _ _ _ _ _).trans (congrArg (fun ends =>
    "<option value=\"".toList ++ (value ++ ("\">".toList ++ (label ++ ends)))) closing)

theorem hostName_unescaped (i : Nat) : ∀ c ∈ hostName i, unescaped c = true := by
  intro c member
  rcases List.mem_append.mp member with first | digit
  · have literal : ∀ c ∈ "nplinux".toList, unescaped c = true :=
      List.all_iff_forall_prop.mp (by decide)
    exact literal c first
  · simp [unescaped, Char.isAlphanum, digit_decimal (i + 1) c digit]

theorem hostValues_unescaped : ∀ host ∈ hostValues, ∀ c ∈ host, unescaped c = true := by
  intro host member c inside
  obtain ⟨i, -, rfl⟩ := List.mem_map.mp member
  rcases List.mem_append.mp inside with first | domain
  · rcases List.mem_append.mp first with name | dot
    · exact hostName_unescaped i c name
    · have literal : ∀ c ∈ ".".toList, unescaped c = true :=
        List.all_iff_forall_prop.mp (by decide)
      exact literal c dot
  · have literal : ∀ c ∈ panelDomain, unescaped c = true :=
      List.all_iff_forall_prop.mp (by decide)
    exact literal c domain

theorem not_mem_of_unescaped {s : Text} {c : Char} (kept : ∀ c ∈ s, unescaped c = true)
    (other : unescaped c = false) : c ∉ s :=
  fun member => Bool.false_ne_true (other.symm.trans (kept c member))

theorem gives_hostMenu (name : Text) (offers : List Offer) :
    Gives (.data, .select name offers) (generatePanelHostMenu panelNNpHost panelDomain)
      (.data, .select name (offers ++ hostValues.map .value)) [] := by
  have plain : ∀ entry ∈ (List.range panelNNpHost).map fun i =>
      (hostName i ++ ".".toList ++ panelDomain, hostName i),
      '"' ∉ entry.1 ∧ Html.Flat entry.2 := by
    intro entry member
    obtain ⟨i, inside, rfl⟩ := List.mem_map.mp member
    have value := hostValues_unescaped _ (List.mem_map.mpr ⟨i, inside, rfl⟩)
    exact ⟨not_mem_of_unescaped value (by decide),
      Forms.flat_of_noAngle (not_mem_of_unescaped (hostName_unescaped i) (by decide))⟩
  have menu := Forms.gives_menu name offers plain
  rw [List.flatMap_map, List.map_map] at menu
  simp only [generatePanelHostMenu, menuOption_eq, hostValues, List.map_map]
  exact menu

/-- The order of the menu, and of the directory, does not matter to what is offered. -/
theorem mem_testCases {file : Text} : file ∈ testCases dir ↔ file ∈ dir.files := by
  unfold testCases
  split
  · rfl
  · exact List.mem_mergeSort

theorem gives_testCaseMenu (plain : dir.Plain) (name : Text) (offers : List Offer) :
    Gives (.data, .select name offers) (generatePanelTestCaseMenu dir)
      (.data, .select name (offers ++ (testCases dir).map .value)) [] := by
  have flat : ∀ entry ∈ (testCases dir).map fun file => (file, file),
      '"' ∉ entry.1 ∧ Html.Flat entry.2 := by
    intro entry member
    obtain ⟨file, inside, rfl⟩ := List.mem_map.mp member
    have free := plain file (mem_testCases.mp inside)
    exact ⟨free '"' (by decide), Forms.flat_of_noAngle (free '<' (by decide))⟩
  have menu := Forms.gives_menu name offers flat
  rw [List.flatMap_map, List.map_map] at menu
  simp only [generatePanelTestCaseMenu, menuOption_eq]
  exact menu

/-- The controls of the panel. -/
theorem controls_panelPage (plain : dir.Plain) :
    Forms.controls (panelPage dir) = (List.range panelNServers).flatMap (rowControls dir) := by
  have rows := Gives.flatMap fun i (member : i ∈ List.range panelNServers) =>
    gives_row (List.mem_range.mp member) gives_hostMenu (gives_testCaseMenu plain)
  obtain ⟨head, form, table, rest⟩ := gives_around
  have page := head.append (form.append (table.append (rows.append rest)))
  rw [List.append_nil] at page
  exact page.controls

end Page

end NetProg.CGI
