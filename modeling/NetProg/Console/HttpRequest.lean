import NetProg.Lib.Split
import NetProg.Lib.Text

/-!
# Requests to `cgi_server`

`Session` of `cgi_server.cpp` and `parseQueryString`: what the server does with the bytes of one
`async_read_some`.  A vector is indexed without a look at its size, which is an access out of range
(`none`) if a split gave fewer tokens than the code expects.
-/

namespace NetProg

/-- `ServerInfo` (`np_project3/cgiserver/cgi_util.hpp:27-31`). -/
structure ServerInfo where
  host : Text
  port : Text
  fileName : Text
  deriving DecidableEq, Repr

namespace CgiServer

/-- `BUFFER_SIZE`. -/
def bufferSize : Nat := 1024

/-- What `async_read_some` put into `httpReq` (`np_project3/cgi_server.cpp:121-128`). -/
structure Received where
  bytes : Text
  fits : bytes.length ≤ bufferSize

/-- What the server does behind the status line. -/
inductive Reply where
  | panel
  | console (servers : List ServerInfo)
  | closed
  /-- The status line could not be written. -/
  | unsent
  deriving DecidableEq, Repr

/-- `token.substr(token.find("=") + 1)`. -/
def value (token : Text) : Text :=
  if '=' ∈ token then (token.dropWhile (· ≠ '=')).drop 1 else token

/-- The loop of `parseQueryString` from the token `i` on. -/
def serverInfos : List Text → Option (List ServerInfo)
  | [] => some []
  | [_] => none
  | [_, _] => none
  | host :: port :: fileName :: rest =>
      (serverInfos rest).map (⟨value host, value port, value fileName⟩ :: ·)

/-- `parseQueryString` (`np_project3/cgiserver/cgi_util.cpp:9-23`). -/
def parseQueryString (query : Text) : Option (List ServerInfo) :=
  serverInfos (split true (· == '&') query)

/-- The array `httpReq`. -/
def httpReq (r : Received) : Text := r.bytes ++ List.replicate (bufferSize - r.bytes.length) '\x00'

/-- `string request = httpReq;`, unless no NUL is in the array. -/
def request (r : Received) : Option Text :=
  if '\x00' ∈ httpReq r then some (Text.cString (httpReq r)) else none

/-- `routeAPI` (`np_project3/cgi_server.cpp:163-204`). -/
def routeAPI (sent : Bool) (programPath query : Text) : Option Reply :=
  if sent = false then some .unsent
  else if programPath = "./panel.cgi".toList then some .panel
  else if programPath = "./console.cgi".toList then (parseQueryString query).map .console
  else some .closed

/-- `handleHttpRequest` on the request, once the string is made. -/
def respond (sent : Bool) (request : Text) : Option Reply := do
  let request_header := split true (fun c => c == '\r' || c == '\n') request
  let first ← request_header[0]?
  let httpQuery := split true (· == ' ') first
  let queryUrl ← httpQuery[1]?
  let splitter := split false (· == '?') queryUrl
  let splitter := if splitter.length < 2 then splitter ++ [[]] else splitter
  let path ← splitter[0]?
  let query ← splitter[1]?
  routeAPI sent ('.' :: path) query

/-- `handleHttpRequest` (`np_project3/cgi_server.cpp:139-162`). -/
def handleHttpRequest (sent : Bool) (r : Received) : Option Reply := do
  let request ← request r
  respond sent request

example : handleHttpRequest true ⟨"GET /console.cgi?h0=a&p0=1&f0=t.txt HTTP/1.1\r\n".toList, by decide⟩ =
    some (.console [⟨"a".toList, "1".toList, "t.txt".toList⟩]) := by decide +kernel

/-- The request line of a request. -/
def requestLine (request : Text) : Text := token (fun c => c == '\r' || c == '\n') request

/-- The target of a request line, behind the first blanks. -/
def target (line : Text) : Text := token (· == ' ') (behind true (· == ' ') line)

def path (url : Text) : Text := token (· == '?') url

def query (url : Text) : Text := token (· == '?') (behind false (· == '?') url)

/-- The request is answered or the connection closed, no index is out of range, and of the array only
received bytes are used. -/
def Survives (sent : Bool) (r : Received) : Prop :=
  ∃ text reply, request r = some text ∧ text <+: r.bytes ∧ respond sent text = some reply

/-- A NUL ends the request, the request line has a blank, and the query of a console has its fields
three by three. -/
structure WellFormed (sent : Bool) (r : Received) : Prop where
  ends : r.bytes.length < bufferSize ∨ '\x00' ∈ r.bytes
  spaced : ' ' ∈ requestLine (Text.cString r.bytes)
  triples : sent = true →
    path (target (requestLine (Text.cString r.bytes))) = "/console.cgi".toList →
      (runs (· == '&') (query (target (requestLine (Text.cString r.bytes)))) + 1) % 3 = 0

section Splits

theorem serverInfos_isSome (tokens : List Text) :
    (serverInfos tokens).isSome = true ↔ tokens.length % 3 = 0 := by
  induction tokens using serverInfos.induct with
  | case1 => simp [serverInfos]
  | case2 host => simp [serverInfos]
  | case3 host port => simp [serverInfos]
  | case4 host port fileName rest ih =>
      simp only [serverInfos, Option.isSome_map, ih, List.length_cons]
      omega

theorem parseQueryString_isSome (query : Text) :
    (parseQueryString query).isSome = true ↔ (runs (· == '&') query + 1) % 3 = 0 := by
  rw [parseQueryString, serverInfos_isSome, length_split]

theorem request_spec (r : Received) : request r =
    if r.bytes.length < bufferSize ∨ '\x00' ∈ r.bytes then some (Text.cString r.bytes) else none := by
  have same : Text.cString (httpReq r) = Text.cString r.bytes := by
    rw [Text.cString, httpReq, List.takeWhile_append]
    split
    · rename_i all
      rw [List.takeWhile_replicate, if_neg (by decide), List.append_nil]
      exact (List.takeWhile_prefix _).eq_of_length all |>.symm
    · rfl
  have ends : '\x00' ∈ httpReq r ↔ r.bytes.length < bufferSize ∨ '\x00' ∈ r.bytes := by
    rw [httpReq, List.mem_append, List.mem_replicate, or_comm]
    simp only [and_true, ne_eq]
    have fits := r.fits
    exact or_congr_left (by omega)
  rw [request, same]
  simp only [ends]

theorem routeAPI_isSome (sent : Bool) (path query : Text) :
    (routeAPI sent ('.' :: path) query).isSome = true ↔
      (sent = true → path = "/console.cgi".toList → (runs (· == '&') query + 1) % 3 = 0) := by
  have console : ('.' :: path = "./console.cgi".toList) ↔ path = "/console.cgi".toList := by
    have dotted : "./console.cgi".toList = '.' :: "/console.cgi".toList := by decide
    rw [dotted, List.cons.injEq]
    exact and_iff_right rfl
  have other : "./console.cgi".toList ≠ "./panel.cgi".toList := by decide
  cases sent with
  | false => simp [routeAPI]
  | true =>
      by_cases here : path = "/console.cgi".toList
      · have same := console.mpr here
        rw [routeAPI, if_neg (by decide), same, if_neg other, if_pos rfl, Option.isSome_map,
          parseQueryString_isSome]
        exact ⟨fun h _ _ => h, fun h => h rfl here⟩
      · have different := fun same => here (console.mp same)
        refine iff_of_true ?_ fun _ same => absurd same here
        rw [routeAPI, if_neg (by decide), if_neg different]
        split
        · rfl
        · rfl

/-- With the empty token behind a target without `?` there are always two. -/
theorem splitter_two (url : Text) (splitter : List Text)
    (padded : splitter = if (split false (· == '?') url).length < 2
      then split false (· == '?') url ++ [[]] else split false (· == '?') url) :
    splitter[0]? = some (path url) ∧ splitter[1]? = some (query url) := by
  cases some : url.any (· == '?') with
  | true =>
      have second : (split false (· == '?') url)[1]? = Option.some (query url) := by
        rw [split_second, some, if_pos rfl, query]
      have two : ¬ (split false (· == '?') url).length < 2 := by
        obtain ⟨inside, -⟩ := List.getElem?_eq_some_iff.mp second
        omega
      rw [padded, if_neg two]
      exact ⟨split_first url, second⟩
  | false =>
      obtain ⟨single, nothing⟩ := @split_none _ false _ _ some
      rw [padded, single, query, nothing]
      exact ⟨rfl, rfl⟩

/-- The request line always exists, and path and query of a target do. -/
theorem respond_eq (sent : Bool) (request : Text) : respond sent request =
    if ' ' ∈ requestLine request then
      routeAPI sent ('.' :: path (target (requestLine request))) (query (target (requestLine request)))
    else none := by
  have blank : (requestLine request).any (· == ' ') = decide (' ' ∈ requestLine request) := by
    rw [List.any_beq', List.contains_eq_mem]
  simp only [respond, split_first, split_second, Option.bind_eq_bind, Option.bind_some]
  rw [← requestLine, blank]
  by_cases spaced : ' ' ∈ requestLine request
  · simp only [spaced, decide_true, if_true, Option.bind_some]
    rw [← target]
    have two := splitter_two (target (requestLine request)) _ rfl
    rw [two.1, two.2]
    rfl
  · simp [spaced]

end Splits

/-- A request is survived exactly if it is well formed. -/
theorem survives_iff (sent : Bool) (r : Received) : Survives sent r ↔ WellFormed sent r := by
  constructor
  · intro survives
    obtain ⟨text, reply, made, -, responded⟩ := survives
    rw [request_spec] at made
    split at made
    · rename_i ends
      cases made
      rw [respond_eq] at responded
      split at responded
      · rename_i spaced
        refine ⟨ends, spaced, ?_⟩
        rw [← routeAPI_isSome, responded]
        rfl
      · cases responded
    · cases made
  · intro wellFormed
    obtain ⟨ends, spaced, triples⟩ := wellFormed
    obtain ⟨reply, routed⟩ := Option.isSome_iff_exists.mp ((routeAPI_isSome sent _ _).mpr triples)
    refine ⟨Text.cString r.bytes, reply, ?_, List.takeWhile_prefix _, ?_⟩
    · rw [request_spec, if_pos ends]
    · rw [respond_eq, if_pos spaced, routed]

/-- A console without a query. -/
theorem no_query_out_of_range :
    ¬ Survives true ⟨"GET /console.cgi HTTP/1.1\r\n\r\n".toList, by decide⟩ := by
  intro survives
  obtain ⟨text, reply, made, -, responded⟩ := survives
  have read : request ⟨"GET /console.cgi HTTP/1.1\r\n\r\n".toList, by decide⟩ =
      some "GET /console.cgi HTTP/1.1\r\n\r\n".toList := by decide +kernel
  obtain rfl := Option.some.inj (read.symm.trans made)
  have fault : respond true "GET /console.cgi HTTP/1.1\r\n\r\n".toList = none := by decide +kernel
  cases fault.symm.trans responded

end CgiServer

end NetProg
