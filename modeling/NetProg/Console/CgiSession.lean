import NetProg.Console.QueryString

/-!
# CGI programs of `http_server`

`cgiserver/cgi_session.cpp` up to the fork: the path of the program and its environment.  Beast gives
out views into larger buffers; the code hands on the pointer alone, and what is then read ends at the
next NUL and not at the end of the view.
-/

namespace NetProg.CGI

/-- A `string_view`, with the characters that stand between its end and the next NUL. -/
structure View where
  text : Text
  behind : Text
  plain : '\x00' ∉ text
  plainBehind : '\x00' ∉ behind

/-- `data()`, as the C string that it is taken for. -/
def View.data (v : View) : Text := v.text ++ v.behind

/-- `httpReq` once it is parsed (`np_project3/cgiserver/cgi_session.hpp:21-45`). -/
structure Request where
  methodString : View
  target : View
  /-- `httpReq["Host"]`, whose pointer is null if there is no such field. -/
  host : Option View
  version : Nat

/-- The addresses and ports of the connection. -/
structure Endpoints where
  serverAddr : Text
  serverPort : Nat
  remoteAddr : Text
  remotePort : Nat

/-- What is inserted into a stream: a value with its text, or a `const char*`. -/
inductive Arg where
  | value (text : Text)
  | pointer (string : Option Text)

/-- The insertions of `concat`.  A null pointer sets `badbit`, which refuses all later ones. -/
def insertAll : List Arg → Text
  | [] => []
  | .value text :: args => text ++ insertAll args
  | .pointer (some string) :: args => string ++ insertAll args
  | .pointer none :: _ => []

/-- `concat` (`np_project3/cgiserver/cgi_session.cpp:11-17`). -/
def concat (format : Text) (args : List Arg) : Text := format ++ insertAll args

/-- `addEnv` (`np_project3/cgiserver/cgi_session.cpp:89-92`). -/
def addEnv (envs : List Text) (format : Text) (args : List Arg) : List Text :=
  envs ++ [concat format args]

/-- `saveParms` (`np_project3/cgiserver/cgi_session.cpp:70-87`). -/
def saveParms (httpReq : Request) (ends : Endpoints) (parms : List Text) (query : Text) :
    List Text :=
  let httpHost := httpReq.host.map View.data
  let target := httpReq.target.data
  let requestMethod := httpReq.methodString.data
  let parms := addEnv parms "REQUEST_METHOD=".toList [.pointer (some requestMethod)]
  let parms := addEnv parms "REQUEST_URI=".toList [.pointer (some target)]
  let parms := addEnv parms "QUERY_STRING=".toList [.value query]
  let parms := addEnv parms "SERVER_PROTOCOL=HTTP/".toList
    [.value (Text.decimal (httpReq.version / 10 : Nat)), .value ".".toList,
      .value (Text.decimal (httpReq.version % 10 : Nat))]
  let parms := addEnv parms "HTTP_HOST=".toList [.pointer httpHost]
  let parms := addEnv parms "SERVER_ADDR=".toList [.value ends.serverAddr]
  let parms := addEnv parms "SERVER_PORT=".toList [.value (Text.decimal ends.serverPort)]
  let parms := addEnv parms "REMOTE_ADDR=".toList [.value ends.remoteAddr]
  addEnv parms "REMOTE_PORT=".toList [.value (Text.decimal ends.remotePort)]

/-- The call of `forkCGI`. -/
structure Call where
  programPath : Text
  envp : List Text
  deriving DecidableEq

/-- `splitter`, with the empty token behind a target without `?`. -/
def splitter (target : Text) : List Text :=
  let splitter := split false (· == '?') target
  if splitter.length < 2 then splitter ++ [[]] else splitter

/-- `handleHttpRequest` (`np_project3/cgiserver/cgi_session.cpp:40-68`) without what it prints; an
index out of range has no result. -/
def handleHttpRequest (httpReq : Request) (ends : Endpoints) : Option Call := do
  let splitter := splitter httpReq.target.text
  let first ← splitter[0]?
  let query ← splitter[1]?
  some ⟨'.' :: first, saveParms httpReq ends [] query⟩

/-- The value of a variable in an environment (`np_project3/console.cpp:11`). -/
def getenv (envp : List Text) (name : Text) : Option Text :=
  (envp.find? fun entry => (name ++ "=".toList).isPrefixOf entry).map (·.drop (name.length + 1))

/-- The request arrives as it was made. -/
structure Faithful (httpReq : Request) (call : Call) : Prop where
  path : call.programPath = '.' :: token (· == '?') httpReq.target.text
  query : getenv call.envp "QUERY_STRING".toList =
    some (behind false (· == '?') httpReq.target.text)
  uri : getenv call.envp "REQUEST_URI".toList = some httpReq.target.text
  method : getenv call.envp "REQUEST_METHOD".toList = some httpReq.methodString.text
  host : getenv call.envp "HTTP_HOST".toList = some (httpReq.host.elim [] View.text)

/-- At most one question mark, and a NUL right behind every view. -/
structure Terminated (httpReq : Request) : Prop where
  single : httpReq.target.text.count '?' ≤ 1
  target : httpReq.target.behind = []
  method : httpReq.methodString.behind = []
  host : ∀ v ∈ httpReq.host, v.behind = []

section Environment

variable {httpReq : Request} {ends : Endpoints} {query : Text} {call : Call}

theorem getenv_method : getenv (saveParms httpReq ends [] query) "REQUEST_METHOD".toList =
    some (httpReq.methodString.data ++ []) := rfl

theorem getenv_uri : getenv (saveParms httpReq ends [] query) "REQUEST_URI".toList =
    some (httpReq.target.data ++ []) := rfl

theorem getenv_query : getenv (saveParms httpReq ends [] query) "QUERY_STRING".toList =
    some (query ++ []) := rfl

theorem getenv_host : getenv (saveParms httpReq ends [] query) "HTTP_HOST".toList =
    some (insertAll [.pointer (httpReq.host.map View.data)]) := rfl

theorem handleHttpRequest_eq : handleHttpRequest httpReq ends =
    some ⟨'.' :: token (· == '?') httpReq.target.text, saveParms httpReq ends []
      (token (· == '?') (behind false (· == '?') httpReq.target.text))⟩ := by
  obtain ⟨first, second⟩ := CgiServer.splitter_two httpReq.target.text _ rfl
  rw [handleHttpRequest, splitter]
  simp only [first, second, Option.bind_eq_bind, Option.bind_some]
  rfl

/-- A pointer gives the view if nothing stands behind it. -/
theorem View.data_eq_iff (v : View) : v.data = v.text ↔ v.behind = [] := List.append_right_eq_self

end Environment

/-- The program gets the request as it was made exactly if there is at most one question mark and a NUL
right behind every view. -/
theorem faithful_iff (httpReq : Request) (ends : Endpoints) :
    (∃ call, handleHttpRequest httpReq ends = some call ∧ Faithful httpReq call) ↔
      Terminated httpReq := by
  rw [handleHttpRequest_eq]
  constructor
  · rintro ⟨call, same, faithful⟩
    cases same
    obtain ⟨-, query, uri, method, host⟩ := faithful
    rw [getenv_query, List.append_nil] at query
    rw [getenv_uri, List.append_nil] at uri
    rw [getenv_method, List.append_nil] at method
    rw [getenv_host] at host
    refine ⟨(token_behind_eq_iff _).mp (Option.some.inj query),
      (View.data_eq_iff _).mp (Option.some.inj uri),
      (View.data_eq_iff _).mp (Option.some.inj method), fun v named => ?_⟩
    rw [Option.mem_def.mp named] at host
    have whole : v.data ++ [] = v.text := Option.some.inj host
    rw [List.append_nil] at whole
    exact (View.data_eq_iff v).mp whole
  · rintro ⟨single, target, method, host⟩
    refine ⟨_, rfl, rfl, ?_, ?_, ?_, ?_⟩
    · rw [getenv_query, List.append_nil, (token_behind_eq_iff _).mpr single]
    · rw [getenv_uri, List.append_nil, (View.data_eq_iff _).mpr target]
    · rw [getenv_method, List.append_nil, (View.data_eq_iff _).mpr method]
    · rw [getenv_host]
      cases named : httpReq.host with
      | none => rfl
      | some v =>
          have whole := (View.data_eq_iff v).mpr (host v named)
          simp [insertAll, whole]

/-- `GET` of a target, with what the buffer holds behind it. -/
def getRequest (target behind : Text) (plain : '\x00' ∉ target) (plainBehind : '\x00' ∉ behind) :
    Request where
  methodString := ⟨"GET".toList, [], by decide, by decide⟩
  target := ⟨target, behind, plain, plainBehind⟩
  host := none
  version := 11

def localhost : Endpoints := ⟨"127.0.0.1".toList, 80, "127.0.0.1".toList, 50000⟩

/-- The rest of the request line ends up in `REQUEST_URI`, and a second question mark cuts the query. -/
theorem request_line_leaks :
    (¬ ∃ call, handleHttpRequest
        (getRequest "/printenv.cgi?a".toList " HTTP/1.1\r\n".toList (by decide) (by decide)) localhost =
          some call ∧ Faithful
        (getRequest "/printenv.cgi?a".toList " HTTP/1.1\r\n".toList (by decide) (by decide)) call) ∧
      ¬ ∃ call, handleHttpRequest
        (getRequest "/printenv.cgi?a?b".toList [] (by decide) (by decide)) localhost = some call ∧
          Faithful (getRequest "/printenv.cgi?a?b".toList [] (by decide) (by decide)) call := by
  constructor
  · rintro ⟨call, made, faithful⟩
    rw [handleHttpRequest_eq] at made
    cases made
    have uri := Option.some.inj faithful.uri
    exact absurd uri (by decide)
  · rintro ⟨call, made, faithful⟩
    rw [handleHttpRequest_eq] at made
    cases made
    have query := Option.some.inj faithful.query
    exact absurd query (by decide)

end NetProg.CGI
