import NetProg.Console.QueryString

/-!
# The proxy of `hw4.cgi`

`console.cpp` takes the last entry of the list for the proxy.  `parseHTTPQueryString` puts the proxy
there if the query has one, behind the servers that it has found; otherwise the last entry is a
server, or there is none.
-/

namespace NetProg.CGI

open Pattern

/-- `httpReq.back()` and `httpReq.pop_back()` (`np_project4/console.cpp:15-17`); `none` for an empty
vector, which has no last element. -/
def takeProxy (httpReq : List ServerInfo) : Option (ServerInfo × List ServerInfo) :=
  httpReq.getLast?.map fun socks4Server => (socks4Server, httpReq.dropLast)

/-- What `main` of `console.cpp` makes of `QUERY_STRING` (`np_project4/console.cpp:11-30`). -/
def proxyOfQuery (env : Option Text) : Option (Option (ServerInfo × List ServerInfo)) :=
  (parseHTTPQueryStringSocks env).map takeProxy

/-- `sh=H&sp=P` stands in front of `y`, with all of `P`. -/
structure ProxyAt (s host port y : Text) : Prop where
  text : s = "sh=".toList ++ (host ++ ("&sp=".toList ++ (port ++ y)))
  host : '&' ∉ host
  port : '&' ∉ port
  whole : ∀ c ∈ y.head?, c = '&'

/-- The leftmost proxy in a query. -/
def ProxyIn (query host port : Text) : Prop :=
  ∃ x s y, query = x ++ s ∧ ProxyAt s host port y ∧
    ∀ x' s', query = x' ++ s' → x'.length < x.length → ∀ host' port' y', ¬ ProxyAt s' host' port' y'

/-- The three fields of a server stand in front of `y`, under one number, with all of the file. -/
structure ServerAt (s : Text) (info : ServerInfo) (y : Text) : Prop where
  text : ∃ d : Char, d.isDigit = true ∧ s = 'h' :: d :: '=' :: (info.host ++ ("&p".toList ++ d :: '=' ::
    (info.port ++ ("&f".toList ++ d :: '=' :: (info.fileName ++ y)))))
  values : '&' ∉ info.host ∧ '&' ∉ info.port ∧ '&' ∉ info.fileName
  whole : ∀ c ∈ y.head?, c = '&'

/-- The entry is one of the triples of the query. -/
def ServerIn (query : Text) (info : ServerInfo) : Prop := ∃ x s y, query = x ++ s ∧ ServerAt s info y

/-- The query has a text `sh=...&sp=` with no other `&` in it. -/
def HasProxy (query : Text) : Prop :=
  ∃ x host y, query = x ++ ("sh=".toList ++ (host ++ ("&sp=".toList ++ y))) ∧ '&' ∉ host

/-- The value of `QUERY_STRING` as a string. -/
def queryText (env : Option Text) : Option Text := env.map Text.cString

/-- The proxy is that of the query, and the others are its servers; without one in the query no
server is taken for it, and nothing is taken off an empty vector. -/
structure ProxyOnly (env : Option Text) : Prop where
  found : ∀ query host port, queryText env = some query → ProxyIn query host port →
    ∃ servers, proxyOfQuery env = some (some (⟨host, port, []⟩, servers)) ∧
      ∀ info ∈ servers, ServerIn query info
  absent : (∀ query host port, queryText env = some query → ¬ ProxyIn query host port) →
    proxyOfQuery env ≠ some none ∧
      ∀ proxy servers query, proxyOfQuery env = some (some (proxy, servers)) →
        queryText env = some query → ¬ ServerIn query proxy

section Matches

variable {s y host port query : Text} {groups : List Text} {parts : List Part} {r : List Text × Text}

theorem notAmp_all {x : Text} : (∀ c ∈ x, notAmp c = true) ↔ '&' ∉ x := by
  constructor
  · intro all member
    exact notAmp_iff.mp (all _ member) rfl
  · intro free c member
    exact notAmp_iff.mpr fun same => free (same ▸ member)

/-- A stretch up to the end of the pattern ends in front of `&`. -/
theorem exec_last_some (ok : exec [.stretch notAmp] groups s = some r) :
    ∃ x y, s = x ++ y ∧ r = (groups ++ [x], y) ∧ '&' ∉ x ∧ ∀ c ∈ y.head?, c = '&' := by
  rw [exec_stretch_last] at ok
  refine ⟨_, _, List.takeWhile_append_dropWhile.symm, (Option.some.inj ok).symm, ?_, ?_⟩
  · exact notAmp_all.mp fun c member => List.mem_takeWhile_imp member
  · intro c first
    have stops := List.head?_dropWhile_not notAmp s
    rw [Option.mem_def.mp first] at stops
    simpa [notAmp] using stops

theorem exec_last (free : '&' ∉ port) (whole : ∀ c ∈ y.head?, c = '&') (groups : List Text) :
    exec [.stretch notAmp] groups (port ++ y) = some (groups ++ [port], y) := by
  apply exec_stretch (notAmp_all.mpr free)
  · intro c first
    rw [whole c first]
    rfl
  · rfl

/-- The pattern of the proxy matches a proxy. -/
theorem exec_proxy_iff : exec socksProxyQueryString [] s = some r ↔
    ∃ host port y, r = ([host, port], y) ∧ ProxyAt s host port y := by
  constructor
  · intro ok
    obtain ⟨s, rfl, ok⟩ := exec_literal_rest ok
    obtain ⟨host, s, rfl, all, ok⟩ := exec_stretch_some ok
    obtain ⟨s, rfl, ok⟩ := exec_literal_rest ok
    obtain ⟨port, y, rfl, rfl, free, whole⟩ := exec_last_some ok
    exact ⟨host, port, y, rfl, rfl, notAmp_all.mp all, free, whole⟩
  · intro proxy
    obtain ⟨host, port, y, rfl, rfl, free, free', whole⟩ := proxy
    refine (exec_literal "sh=".toList _).trans (exec_stretch (notAmp_all.mpr free) ?_ ?_)
    · rintro c ⟨⟩
      rfl
    · exact (exec_literal "&sp=".toList _).trans (exec_last free' whole [host])

theorem search_proxy_iff : (∃ y, search socksProxyQueryString query = some ([host, port], y)) ↔
    ProxyIn query host port := by
  constructor
  · intro found
    obtain ⟨y, found⟩ := found
    obtain ⟨x, s, rfl, ok, first⟩ := search_some found
    obtain ⟨host', port', y', same, proxy⟩ := exec_proxy_iff.mp ok
    cases same
    refine ⟨x, s, y, rfl, proxy, ?_⟩
    intro x' s' split less host' port' y' other
    have none := first x' s' split less
    rw [exec_proxy_iff.mpr ⟨host', port', y', rfl, other⟩] at none
    cases none
  · intro proxy
    obtain ⟨x, s, y, rfl, here, first⟩ := proxy
    refine ⟨y, search_first (exec_proxy_iff.mpr ⟨host, port, y, rfl, here⟩) ?_⟩
    intro x' s' split less
    cases other : exec socksProxyQueryString [] s' with
    | none => rfl
    | some r =>
        obtain ⟨host', port', y', -, there⟩ := exec_proxy_iff.mp other
        exact absurd there (first x' s' split less host' port' y')

/-- A query has a proxy exactly if it has a leftmost one. -/
theorem hasProxy_iff : HasProxy query ↔ ∃ host port, ProxyIn query host port := by
  constructor
  · intro has
    obtain ⟨x, host, y, rfl, free⟩ := has
    have here : ProxyAt ("sh=".toList ++ (host ++ ("&sp=".toList ++ y))) host
        (y.takeWhile notAmp) (y.dropWhile notAmp) := by
      obtain ⟨x, y', same, shape, free', whole⟩ := exec_last_some (exec_stretch_last [] y)
      cases shape
      exact ⟨by rw [List.takeWhile_append_dropWhile], free, free', whole⟩
    have present := search_ne_none (exec_proxy_iff.mpr ⟨_, _, _, rfl, here⟩) x
    obtain ⟨r, found⟩ := Option.ne_none_iff_exists'.mp present
    obtain ⟨x', s', split, ok, -⟩ := search_some found
    obtain ⟨host', port', y', rfl, -⟩ := exec_proxy_iff.mp ok
    exact ⟨host', port', search_proxy_iff.mp ⟨y', found⟩⟩
  · intro proxy
    obtain ⟨host, port, x, s, y, rfl, ⟨rfl, free, -, -⟩, -⟩ := proxy
    exact ⟨x, host, port ++ y, rfl, free⟩

/-- What a back reference to the number matches. -/
theorem exec_back_some {d : Char} {more : List Text}
    (ok : exec (.back 0 :: parts) ([d] :: more) s = some r) :
    ∃ y, s = d :: y ∧ exec parts ([d] :: more) y = some r := by
  have turn : exec (.back 0 :: parts) ([d] :: more) s =
      if [d].isPrefixOf s then exec parts ([d] :: more) (s.drop 1) else none := by
    rw [exec.eq_def]
    rfl
  rw [turn] at ok
  split at ok
  · rename_i same
    obtain ⟨y, rfl⟩ := List.isPrefixOf_iff_prefix.mp same
    exact ⟨y, rfl, ok⟩
  · cases ok

/-- The pattern of the servers matches a server. -/
theorem exec_server_some (ok : exec queryString [] s = some r) :
    ∃ (d : Char) (info : ServerInfo) (y : Text),
      r = ([[d], info.host, info.port, info.fileName], y) ∧ ServerAt s info y := by
  obtain ⟨s, rfl, behind⟩ := exec_literal_rest ok
  cases s with
  | nil => cases behind
  | cons d s =>
      rw [exec] at behind
      split at behind
      · rename_i digit
        obtain ⟨s, rfl, atHost⟩ := exec_literal_rest behind
        obtain ⟨host, s, rfl, free, behindHost⟩ := exec_stretch_some atHost
        obtain ⟨s, rfl, atNumber⟩ := exec_literal_rest behindHost
        obtain ⟨s, rfl, behindNumber⟩ := exec_back_some atNumber
        obtain ⟨s, rfl, atPort⟩ := exec_literal_rest behindNumber
        obtain ⟨port, s, rfl, free', behindPort⟩ := exec_stretch_some atPort
        obtain ⟨s, rfl, again⟩ := exec_literal_rest behindPort
        obtain ⟨s, rfl, behindAgain⟩ := exec_back_some again
        obtain ⟨s, rfl, atFile⟩ := exec_literal_rest behindAgain
        obtain ⟨file, y, rfl, rfl, free'', whole⟩ := exec_last_some atFile
        exact ⟨d, ⟨host, port, file⟩, y, rfl, ⟨d, digit, rfl⟩,
          ⟨notAmp_all.mp free, notAmp_all.mp free', free''⟩, whole⟩
      · cases behind

theorem ServerIn.append (x : Text) {info : ServerInfo} (h : ServerIn query info) :
    ServerIn (x ++ query) info := by
  obtain ⟨x', s, y, rfl, here⟩ := h
  exact ⟨x ++ x', s, y, (List.append_assoc _ _ _).symm, here⟩

/-- The loop comes to an end, and all that it finds are servers of the query. -/
theorem searchAll_servers {fuel : Nat} (enough : query.length < fuel) :
    ∃ result, searchAll fuel query = some result ∧ ∀ info ∈ result, ServerIn query info := by
  induction fuel generalizing query with
  | zero => exact absurd enough (Nat.not_lt_zero _)
  | succ fuel ih =>
      rw [searchAll]
      cases found : search queryString query with
      | none => exact ⟨[], rfl, by simp⟩
      | some r =>
          obtain ⟨x, s, rfl, ok, -⟩ := search_some found
          obtain ⟨d, info, y, rfl, here⟩ := exec_server_some ok
          obtain ⟨d', -, text⟩ := here.text
          obtain ⟨z, rest⟩ : ∃ z, s = z ++ y ∧ 0 < z.length := by
            refine ⟨'h' :: d' :: '=' :: (info.host ++ ("&p".toList ++ d' :: '=' ::
              (info.port ++ ("&f".toList ++ d' :: '=' :: info.fileName)))), ?_, Nat.succ_pos _⟩
            rw [text]
            simp
          have short : y.length < fuel := by
            rw [rest.1] at enough
            simp only [List.length_append] at enough
            omega
          obtain ⟨result, later, servers⟩ := ih short
          have behind : ∀ info ∈ result, ServerIn (x ++ s) info := by
            intro info member
            rw [rest.1, ← List.append_assoc]
            exact (servers info member).append (x ++ z)
          have values : submatch [[d], info.host, info.port, info.fileName] 2 = info.host ∧
              submatch [[d], info.host, info.port, info.fileName] 3 = info.port ∧
              submatch [[d], info.host, info.port, info.fileName] 4 = info.fileName := ⟨rfl, rfl, rfl⟩
          simp only [values, later]
          split
          · refine ⟨info :: result, rfl, List.forall_mem_cons.mpr ⟨?_, behind⟩⟩
            exact ⟨x, s, y, rfl, here⟩
          · exact ⟨result, rfl, behind⟩

/-- The list of the parser: the servers, and the proxy if the query has one. -/
theorem parse_servers (text : Text) : ∃ result, (∀ info ∈ result, ServerIn (Text.cString text) info) ∧
    ((∃ host port, ProxyIn (Text.cString text) host port ∧
      parseHTTPQueryStringSocks (some text) = some (result ++ [⟨host, port, []⟩])) ∨
    (¬ HasProxy (Text.cString text) ∧ parseHTTPQueryStringSocks (some text) = some result)) := by
  obtain ⟨result, all, servers⟩ := searchAll_servers (Nat.lt_succ_self (Text.cString text).length)
  refine ⟨result, servers, ?_⟩
  cases found : search socksProxyQueryString (Text.cString text) with
  | some r =>
      obtain ⟨x, s, -, ok, -⟩ := search_some found
      obtain ⟨host, port, y, rfl, -⟩ := exec_proxy_iff.mp ok
      refine Or.inl ⟨host, port, search_proxy_iff.mp ⟨y, found⟩, ?_⟩
      simp only [parseHTTPQueryStringSocks, all, found]
      rfl
  | none =>
      refine Or.inr ⟨?_, ?_⟩
      · intro has
        obtain ⟨host, port, proxy⟩ := hasProxy_iff.mp has
        obtain ⟨y, present⟩ := search_proxy_iff.mpr proxy
        rw [found] at present
        cases present
      · simp only [parseHTTPQueryStringSocks, all, found]
        rfl

/-- There is one leftmost proxy. -/
theorem ProxyIn.unique {host' port' : Text} (h : ProxyIn query host port)
    (h' : ProxyIn query host' port') : host' = host ∧ port' = port := by
  obtain ⟨y, found⟩ := search_proxy_iff.mpr h
  obtain ⟨y', found'⟩ := search_proxy_iff.mpr h'
  have same := Option.some.inj (found'.symm.trans found)
  simp only [Prod.mk.injEq, List.cons.injEq, and_true] at same
  exact same.1

/-- Without a proxy in the query the last server is taken for it, or nothing is there. -/
theorem ProxyOnly.hasProxy {env : Option Text} (h : ProxyOnly env) :
    ∃ query, queryText env = some query ∧ HasProxy query := by
  cases env with
  | none =>
      have absent := h.absent fun query host port none => by cases none
      exact absurd rfl absent.1
  | some text =>
      refine ⟨_, rfl, ?_⟩
      obtain ⟨result, servers, ⟨host, port, proxy, -⟩ | ⟨lacks, parsed⟩⟩ := parse_servers text
      · exact hasProxy_iff.mpr ⟨host, port, proxy⟩
      · have absent := h.absent fun query host port same proxy => by
          cases same
          exact lacks (hasProxy_iff.mpr ⟨host, port, proxy⟩)
        cases last : result.getLast? with
        | none =>
            refine absurd ?_ absent.1
            rw [proxyOfQuery, parsed, Option.map_some, takeProxy, last]
            rfl
        | some info =>
            have taken : proxyOfQuery (some text) = some (some (info, result.dropLast)) := by
              rw [proxyOfQuery, parsed, Option.map_some, takeProxy, last]
              rfl
            exact absurd (servers info (List.mem_of_getLast? last)) (absent.2 _ _ _ taken rfl)

end Matches

/-- `hw4.cgi` takes the right entry for the proxy exactly if the query has a proxy. -/
theorem proxyOnly_iff (env : Option Text) :
    ProxyOnly env ↔ ∃ query, queryText env = some query ∧ HasProxy query := by
  constructor
  · exact ProxyOnly.hasProxy
  · intro has
    obtain ⟨query, isQuery, proxy⟩ := has
    obtain ⟨text, rfl, rfl⟩ := Option.map_eq_some_iff.mp isQuery
    obtain ⟨result, servers, ⟨host, port, there, parsed⟩ | ⟨lacks, -⟩⟩ := parse_servers text
    · constructor
      · intro query host' port' same there'
        cases same
        obtain ⟨rfl, rfl⟩ := there.unique there'
        refine ⟨result, ?_, servers⟩
        simp [proxyOfQuery, parsed, takeProxy]
      · intro absent
        exact absurd there (absent _ host port rfl)
    · exact absurd proxy lacks

/-- Without a query the last entry of an empty vector is taken. -/
theorem back_of_empty : ¬ ProxyOnly none := by
  intro only
  obtain ⟨query, none, -⟩ := only.hasProxy
  cases none

end NetProg.CGI
