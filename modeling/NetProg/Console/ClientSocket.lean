import NetProg.Console.NPShellApp
import NetProg.Lib.Runs

/-!
# The socket that the sessions of `cgi_server` share

Every `handleHttpResp` starts an `async_write` on `clientSocket`, whether or not another one is
outstanding.  Each of them is a sequence of partial writes, and nothing keeps those of different
writes apart.  The string is a temporary of the callback: `async_write` has a pointer into it, and
what it transmits after `handleHttpResp` has returned is read from freed memory.
-/

namespace NetProg

/-- An `async_write` of the string `ret` with how much of it is transmitted so far. -/
structure AsyncWrite (n : Nat) where
  app : Fin n
  ret : Text
  /-- What the bytes behind `ret.c_str()` are now. -/
  memory : Text
  transmitted : Nat
  deriving DecidableEq

/-- `n` sessions on one `clientSocket`, in one thread. -/
structure ClientSocket (n : Nat) where
  apps : Fin n → NPShellApp
  /-- What the running callback still gives to `handleHttpResp`. -/
  callback : List (Fin n × Text)
  /-- The outstanding writes, in the order of their start. -/
  writes : List (AsyncWrite n)
  /-- The bytes behind the page. -/
  received : Text

namespace ClientSocket

variable {n : Nat}

inductive Event (n : Nat) where
  /-- `async_read_some` of a session completes. -/
  | read (i : Fin n) (chunk : Text)
  /-- The callback calls `handleHttpResp`. -/
  | handleHttpResp
  /-- The `async_write_some` of an outstanding write transmits some bytes. -/
  | writeSome (k count : Nat)
  /-- The memory of a string that has been destroyed gets other contents. -/
  | reuse (k : Nat) (memory : Text)

/-- The sessions are connected; `inputs` are their test cases. -/
def init (inputs : Fin n → Text) : ClientSocket n :=
  ⟨fun i => { npServerInput := inputs i, sessionId := i }, [], [], []⟩

/-- `do_read` and `handleHttpResp` (`np_project3/cgi_server.cpp:53-86`). -/
def step (s : ClientSocket n) : Event n → Option (ClientSocket n)
  | .read i chunk =>
    if s.callback.isEmpty ∧ (s.apps i).reading then
      match (s.apps i).receive chunk with
      | none => none
      | some app =>
        let responses := app.responses.drop (s.apps i).responses.length
        some { s with
          apps := fun j => if j = i then app else s.apps j
          callback := responses.map (fun ret => (i, ret)) }
    else none
  | .handleHttpResp =>
    match s.callback with
    | [] => none
    | (i, ret) :: callback => some { s with callback, writes := s.writes ++ [⟨i, ret, ret, 0⟩] }
  | .writeSome k count =>
    match s.writes[k]? with
    | none => none
    | some w =>
      if 0 < count ∧ w.transmitted + count ≤ w.ret.length then
        let received := s.received ++ (w.memory.drop w.transmitted).take count
        if w.transmitted + count = w.ret.length then
          some { s with received, writes := s.writes.eraseIdx k }
        else some { s with
          received, writes := s.writes.set k { w with transmitted := w.transmitted + count } }
      else none
  | .reuse k memory =>
    match s.writes[k]? with
    | none => none
    | some w =>
      if memory.length = w.ret.length then
        some { s with writes := s.writes.set k { w with memory } }
      else none

/-- The strings of one session. -/
def ofApp (i : Fin n) (strings : List (Fin n × Text)) : List Text :=
  (strings.filter (fun string => string.1 = i)).map Prod.snd

/-- The browser gets whole strings, those of one session in the order they were produced: some
order of them begins with what it has got, and is all of it when nothing is outstanding. -/
def Untorn (s : ClientSocket n) : Prop :=
  ∃ order : List (Fin n × Text),
    (∀ i, ofApp i order <+: (s.apps i).responses) ∧
      s.received <+: (order.map Prod.snd).flatten ∧
      (s.callback = [] → s.writes = [] →
        (∀ i, ofApp i order = (s.apps i).responses) ∧ s.received = (order.map Prod.snd).flatten)

/-- A write goes on only while no other one is half done, after the earlier ones of its session,
and with memory that still has the bytes of its string. -/
def Orderly (s : ClientSocket n) : Event n → Prop
  | .writeSome k count =>
    (∀ j w, j ≠ k → s.writes[j]? = some w → w.transmitted = 0) ∧
      (∀ j w w', j < k → s.writes[j]? = some w → s.writes[k]? = some w' → w.app ≠ w'.app) ∧
      ∀ w, s.writes[k]? = some w →
        (w.memory.drop w.transmitted).take count = (w.ret.drop w.transmitted).take count
  | _ => True

/-- The bytes of an outstanding write that the browser has. -/
def begun (w : AsyncWrite n) : Text := w.ret.take w.transmitted

/-- The string of an outstanding write. -/
def string (w : AsyncWrite n) : Fin n × Text := (w.app, w.ret)

/-- At most the first outstanding write of one session is half done. -/
def Half (writes : List (AsyncWrite n)) : Prop :=
  (∀ w ∈ writes, w.transmitted = 0) ∨
    ∃ before w after, writes = before ++ w :: after ∧
      (∀ other ∈ before ++ after, other.transmitted = 0) ∧ ∀ other ∈ before, other.app ≠ w.app

/-- What the strings given to `handleHttpResp` became: done, outstanding, or still to be
started. -/
structure Accounted (s : ClientSocket n) (done : List (Fin n × Text)) : Prop where
  strings : ∀ i, (s.apps i).responses =
    ofApp i done ++ ofApp i (s.writes.map string) ++ ofApp i s.callback
  bytes : s.received = (done.map Prod.snd).flatten ++ (s.writes.map begun).flatten
  half : Half s.writes

theorem ofApp_append (i : Fin n) (xs ys : List (Fin n × Text)) :
    ofApp i (xs ++ ys) = ofApp i xs ++ ofApp i ys := by
  rw [ofApp, ofApp, ofApp, List.filter_append, List.map_append]

theorem ofApp_cons_self (i : Fin n) (ret : Text) (xs : List (Fin n × Text)) :
    ofApp i ((i, ret) :: xs) = ret :: ofApp i xs := by
  simp [ofApp]

theorem ofApp_cons_other {i j : Fin n} (other : j ≠ i) (ret : Text) (xs : List (Fin n × Text)) :
    ofApp i ((j, ret) :: xs) = ofApp i xs := by
  simp [ofApp, other]

theorem ofApp_self (i : Fin n) (rets : List Text) :
    ofApp i (rets.map fun ret => (i, ret)) = rets := by
  induction rets with
  | nil => rfl
  | cons ret rets ih => rw [List.map_cons, ofApp_cons_self, ih]

theorem ofApp_absent {i : Fin n} {strings : List (Fin n × Text)}
    (absent : ∀ string ∈ strings, string.1 ≠ i) : ofApp i strings = [] := by
  rw [ofApp, List.filter_eq_nil_iff.mpr, List.map_nil]
  intro string member
  simpa using absent string member

theorem handleBackendReq_responses {cmd : Text} {app app' : NPShellApp}
    (step : app.handleBackendReq cmd = some app') : app'.responses = app.responses := by
  rw [NPShellApp.handleBackendReq, Option.ite_none_right_eq_some, Option.some.injEq] at step
  rw [← step.2, NPShellApp.onWritten]
  split <;> rfl

/-- A callback only adds strings. -/
theorem receive_responses {app app' : NPShellApp} {chunk : Text}
    (step : app.receive chunk = some app') : app.responses <+: app'.responses := by
  rw [NPShellApp.receive] at step
  by_cases reading : app.reading = true
  · rw [if_pos reading] at step
    cases output : NPShellApp.outputString chunk with
    | none =>
        rw [output] at step
        cases step
    | some output' =>
        rw [output] at step
        by_cases percent : output'.contains '%' = true
        · simp only [if_pos percent] at step
          cases command : Text.getline app.npServerInput with
          | none =>
              simp only [NPShellApp.handleHttpResp, command] at step
              rw [handleBackendReq_responses step]
              exact List.prefix_append _ _
          | some taken =>
              simp only [NPShellApp.handleHttpResp, command] at step
              rw [handleBackendReq_responses step, List.append_assoc]
              exact List.prefix_append _ _
        · simp only [if_neg percent] at step
          cases step
          exact List.prefix_append _ _
  · rw [if_neg reading] at step
    cases step
    exact List.prefix_rfl

theorem flatten_begun {writes : List (AsyncWrite n)} (idle : ∀ w ∈ writes, w.transmitted = 0) :
    (writes.map begun).flatten = [] := by
  rw [List.flatten_eq_nil_iff]
  intro text member
  obtain ⟨w, there, rfl⟩ := List.mem_map.mp member
  rw [begun, idle w there, List.take_zero]

/-- With one write half done, the browser has the done strings and the beginning of that one. -/
theorem flatten_begun_half {before after : List (AsyncWrite n)} {w : AsyncWrite n}
    (others : ∀ other ∈ before ++ after, other.transmitted = 0) :
    ((before ++ w :: after).map begun).flatten = begun w := by
  have idle : (before.map begun).flatten = [] :=
    flatten_begun (fun other member => others other (List.mem_append_left _ member))
  have idle' : (after.map begun).flatten = [] :=
    flatten_begun (fun other member => others other (List.mem_append_right _ member))
  rw [List.map_append, List.flatten_append, idle, List.map_cons, List.flatten_cons, idle',
    List.append_nil, List.nil_append]

/-- The strings of a session, where the first outstanding one of the session comes next. -/
theorem ofApp_first {before after : List (AsyncWrite n)} {w : AsyncWrite n}
    (first : ∀ other ∈ before, other.app ≠ w.app) (done : List (Fin n × Text)) (i : Fin n) :
    ofApp i done ++ ofApp i ((before ++ w :: after).map string) =
      ofApp i (done ++ [string w]) ++ ofApp i ((before ++ after).map string) := by
  rw [List.map_append, List.map_cons, List.map_append, ofApp_append, ofApp_append, ofApp_append]
  by_cases same : w.app = i
  · have absent : ofApp i (before.map string) = [] := by
      apply ofApp_absent
      intro text member
      obtain ⟨other, there, rfl⟩ := List.mem_map.mp member
      exact same ▸ first other there
    rw [absent, string, same, ofApp_cons_self, ofApp_cons_self]
    simp [ofApp]
  · rw [string, ofApp_cons_other same, ofApp_cons_other same]
    simp [ofApp]

/-- What is accounted for is not torn. -/
theorem Accounted.untorn {s : ClientSocket n} {done : List (Fin n × Text)}
    (accounted : Accounted s done) : Untorn s := by
  obtain ⟨strings, bytes, half⟩ := accounted
  rcases half with idle | ⟨before, w, after, split, others, first⟩
  · rw [flatten_begun idle, List.append_nil] at bytes
    refine ⟨done, fun i => ?_, bytes ▸ List.prefix_rfl, fun ready finished => ⟨fun i => ?_, bytes⟩⟩
    · rw [strings i, List.append_assoc]
      exact List.prefix_append _ _
    · rw [strings i, ready, finished]
      simp [ofApp]
  · rw [split, flatten_begun_half others] at bytes
    refine ⟨done ++ [string w], fun i => ?_, ?_, fun ready finished => ?_⟩
    · rw [strings i, split, ofApp_first first, List.append_assoc]
      exact List.prefix_append _ _
    · rw [bytes, List.map_append, List.flatten_append, List.prefix_append_right_inj]
      rw [List.map_singleton, List.flatten_singleton]
      exact List.take_prefix _ _
    · rw [split] at finished
      exact absurd finished (List.append_ne_nil_of_right_ne_nil _ (List.cons_ne_nil _ _))

/-- An element of a list stands between two others. -/
theorem split_at {α : Type} {xs : List α} {k : Nat} {x : α} (there : xs[k]? = some x) :
    ∃ before after, xs = before ++ x :: after ∧ before.length = k := by
  obtain ⟨inside, rfl⟩ := List.getElem?_eq_some_iff.mp there
  refine ⟨xs.take k, xs.drop (k + 1), ?_, List.length_take_of_le (Nat.le_of_lt inside)⟩
  rw [← List.drop_eq_getElem_cons inside, List.take_append_drop]

/-- What the condition says about a write that goes on. -/
theorem orderly_split {s : ClientSocket n} {before after : List (AsyncWrite n)} {w : AsyncWrite n}
    {count : Nat} (split : s.writes = before ++ w :: after)
    (orderly : Orderly s (.writeSome before.length count)) :
    (∀ other ∈ before ++ after, other.transmitted = 0) ∧ (∀ other ∈ before, other.app ≠ w.app) ∧
      (w.memory.drop w.transmitted).take count = (w.ret.drop w.transmitted).take count := by
  obtain ⟨alone, first, held⟩ := orderly
  have place : s.writes[before.length]? = some w := by
    rw [split, List.getElem?_append_right (Nat.le_refl _), Nat.sub_self]
    rfl
  refine ⟨?_, ?_, held w place⟩
  · intro other member
    rcases List.mem_append.mp member with there | there
    · obtain ⟨j, found⟩ := List.getElem?_of_mem there
      have inside := (List.getElem?_eq_some_iff.mp found).1
      apply alone j other (by omega)
      rw [split, List.getElem?_append_left inside, found]
    · obtain ⟨j, found⟩ := List.getElem?_of_mem there
      apply alone (before.length + (j + 1)) other (by omega)
      rw [split, List.getElem?_append_right (by omega), Nat.add_sub_cancel_left,
        List.getElem?_cons_succ, found]
  · intro other there
    obtain ⟨j, found⟩ := List.getElem?_of_mem there
    have inside := (List.getElem?_eq_some_iff.mp found).1
    apply first j other w inside _ place
    rw [split, List.getElem?_append_left inside, found]

/-- Only the sessions and the lengths of the parts transmitted count. -/
theorem Half.congr {xs ys : List (AsyncWrite n)} (half : Half xs)
    (same : xs.map (fun w => (w.app, w.transmitted)) = ys.map fun w => (w.app, w.transmitted)) :
    Half ys := by
  have idle {xs ys : List (AsyncWrite n)} (none : ∀ w ∈ xs, w.transmitted = 0)
      (same : xs.map (fun w => (w.app, w.transmitted)) = ys.map fun w => (w.app, w.transmitted)) :
      ∀ w ∈ ys, w.transmitted = 0 := by
    intro w member
    have among := same ▸ List.mem_map_of_mem member
    obtain ⟨w', there, alike⟩ := List.mem_map.mp among
    rw [← (Prod.mk.inj alike).2, none w' there]
  rcases half with none | ⟨before, w, after, rfl, others, first⟩
  · exact Or.inl (idle none same)
  · rw [List.map_append, List.map_cons] at same
    obtain ⟨before', rest, rfl, front, back⟩ := List.map_eq_append_iff.mp same.symm
    obtain ⟨w', after', rfl, alike, behind⟩ := List.map_eq_cons_iff.mp back
    refine Or.inr ⟨before', w', after', rfl, idle others ?_, fun other member => ?_⟩
    · rw [List.map_append, List.map_append, front, behind]
    · have among := front ▸ List.mem_map_of_mem member
      obtain ⟨old, there, alike'⟩ := List.mem_map.mp among
      rw [(Prod.mk.inj alike).1, ← (Prod.mk.inj alike').1]
      exact first old there

theorem Accounted.read {s s' : ClientSocket n} {done : List (Fin n × Text)} {i : Fin n}
    {chunk : Text} (accounted : Accounted s done) (stepped : s.step (.read i chunk) = some s') :
    Accounted s' done := by
  obtain ⟨strings, bytes, half⟩ := accounted
  rw [step] at stepped
  by_cases ready : s.callback.isEmpty = true ∧ (s.apps i).reading = true
  · rw [if_pos ready] at stepped
    cases received : (s.apps i).receive chunk with
    | none =>
        rw [received] at stepped
        cases stepped
    | some app =>
        rw [received] at stepped
        cases stepped
        have idle : s.callback = [] := List.isEmpty_iff.mp ready.1
        obtain ⟨new, more⟩ := receive_responses received
        refine ⟨fun j => ?_, bytes, half⟩
        have old := strings j
        rw [idle] at old
        rw [← more, List.drop_left]
        by_cases same : j = i
        · subst same
          simp only [if_true, ofApp_self]
          rw [← more, old]
          simp [ofApp]
        · have absent : ofApp j (new.map fun ret => (i, ret)) = [] := by
            apply ofApp_absent
            intro text member
            obtain ⟨ret, -, rfl⟩ := List.mem_map.mp member
            exact Ne.symm same
          simp only [if_neg same, absent]
          exact old
  · rw [if_neg ready] at stepped
    cases stepped

theorem Accounted.handleHttpResp {s s' : ClientSocket n} {done : List (Fin n × Text)}
    (accounted : Accounted s done) (stepped : s.step .handleHttpResp = some s') :
    Accounted s' done := by
  obtain ⟨strings, bytes, half⟩ := accounted
  rw [step] at stepped
  cases pending : s.callback with
  | nil =>
      rw [pending] at stepped
      cases stepped
  | cons text callback =>
      obtain ⟨i, ret⟩ := text
      rw [pending] at stepped
      cases stepped
      refine ⟨fun j => ?_, ?_, ?_⟩
      · have old := strings j
        rw [pending, List.append_assoc] at old
        rw [List.map_append, List.append_assoc, ofApp_append, List.append_assoc, ← ofApp_append _ (List.map _ _)]
        exact old
      · rw [bytes, List.map_append, List.flatten_append, List.map_singleton, List.flatten_singleton]
        simp [begun]
      · rcases half with idle | ⟨before, w, after, split, others, first⟩
        · left
          intro w member
          rcases List.mem_append.mp member with there | there
          · exact idle w there
          · rw [List.mem_singleton.mp there]
        · right
          refine ⟨before, w, after ++ [⟨i, ret, ret, 0⟩], by rw [split]; simp, ?_, first⟩
          intro other member
          rw [← List.append_assoc] at member
          rcases List.mem_append.mp member with there | there
          · exact others other there
          · rw [List.mem_singleton.mp there]

theorem Accounted.writeSome {s s' : ClientSocket n} {done : List (Fin n × Text)} {k count : Nat}
    (accounted : Accounted s done) (orderly : Orderly s (.writeSome k count))
    (stepped : s.step (.writeSome k count) = some s') : ∃ done', Accounted s' done' := by
  obtain ⟨strings, bytes, half⟩ := accounted
  rw [step] at stepped
  cases there : s.writes[k]? with
  | none =>
      rw [there] at stepped
      cases stepped
  | some w =>
      rw [there] at stepped
      obtain ⟨before, after, split, rfl⟩ := split_at there
      obtain ⟨others, first, held⟩ := orderly_split split orderly
      rw [split, flatten_begun_half others] at bytes
      have received : s.received ++ (w.memory.drop w.transmitted).take count =
          (done.map Prod.snd).flatten ++ w.ret.take (w.transmitted + count) := by
        rw [bytes, held, List.append_assoc, begun, List.take_add]
      simp only [received, split, List.eraseIdx_append_of_length_le (Nat.le_refl _),
        List.set_append_right _ _ (Nat.le_refl _), Nat.sub_self, List.eraseIdx_cons_zero,
        List.set_cons_zero] at stepped
      by_cases fits : 0 < count ∧ w.transmitted + count ≤ w.ret.length
      · rw [if_pos fits] at stepped
        by_cases finished : w.transmitted + count = w.ret.length
        · rw [if_pos finished] at stepped
          cases stepped
          refine ⟨done ++ [string w], fun i => ?_, ?_, Or.inl others⟩
          · rw [strings i, split, ofApp_first first]
          · rw [finished, List.take_length, flatten_begun others, List.append_nil,
              List.map_append, List.flatten_append, List.map_singleton, List.flatten_singleton]
            rfl
        · rw [if_neg finished] at stepped
          cases stepped
          refine ⟨done, fun i => ?_, ?_, Or.inr ⟨before, _, after, rfl, others, first⟩⟩
          · rw [strings i, split, List.map_append, List.map_append, List.map_cons, List.map_cons]
            rfl
          · rw [flatten_begun_half others]
            rfl
      · rw [if_neg fits] at stepped
        cases stepped

/-- What becomes of the memory of a string changes neither the string nor what was transmitted. -/
theorem Accounted.reuse {s s' : ClientSocket n} {done : List (Fin n × Text)} {k : Nat}
    {memory : Text} (accounted : Accounted s done) (stepped : s.step (.reuse k memory) = some s') :
    Accounted s' done := by
  obtain ⟨strings, bytes, half⟩ := accounted
  rw [step] at stepped
  cases there : s.writes[k]? with
  | none =>
      rw [there] at stepped
      cases stepped
  | some w =>
      rw [there] at stepped
      simp only [Option.ite_none_right_eq_some, Option.some.injEq] at stepped
      obtain ⟨-, rfl⟩ := stepped
      obtain ⟨inside, found⟩ := List.getElem?_eq_some_iff.mp there
      have same {α : Type} (f : AsyncWrite n → α) (frame : f { w with memory } = f w) :
          (s.writes.set k { w with memory }).map f = s.writes.map f := by
        have length : (s.writes.map f).length = s.writes.length := List.length_map f
        have place : k < (s.writes.map f).length := length ▸ inside
        rw [List.map_set, frame, ← found, ← List.getElem_map f (h := place), List.set_getElem_self]
      refine ⟨fun i => ?_, ?_, ?_⟩
      · rw [same string rfl]
        exact strings i
      · rw [same begun rfl]
        exact bytes
      · exact half.congr (same (fun w => (w.app, w.transmitted)) rfl).symm

end ClientSocket

/-- As long as writes do not interleave and find the bytes of their strings, the browser output
is not torn. -/
theorem untorn_of_orderly {n : Nat} (inputs : Fin n → Text) {s : ClientSocket n}
    (run : Reached ClientSocket.step ClientSocket.Orderly (ClientSocket.init inputs) s) :
    s.Untorn := by
  have accounted : ∃ done, ClientSocket.Accounted s done := by
    apply run.invariant (p := fun s => ∃ done, ClientSocket.Accounted s done)
    · exact ⟨[], fun i => rfl, rfl, Or.inl (fun w member => nomatch member)⟩
    · intro s s' e before orderly stepped
      obtain ⟨done, accounted⟩ := before
      cases e with
      | read i chunk => exact ⟨done, accounted.read stepped⟩
      | handleHttpResp => exact ⟨done, accounted.handleHttpResp stepped⟩
      | writeSome k count => exact accounted.writeSome orderly stepped
      | reuse k memory => exact ⟨done, accounted.reuse stepped⟩
  obtain ⟨done, accounted⟩ := accounted
  exact accounted.untorn

theorem untorn_of_orderly_write : ∃ s : ClientSocket 1, s.received = "<".toList ∧ s.Untorn := by
  have orderly : ∀ s : ClientSocket 1, s.writes.length ≤ 1 → (∀ w ∈ s.writes, w.memory = w.ret) →
      ∀ count, ClientSocket.Orderly s (.writeSome 0 count) := by
    intro s short held count
    refine ⟨fun j w other there => ?_, fun j w w' less => absurd less (Nat.not_lt_zero j),
      fun w there => ?_⟩
    · have inside := (List.getElem?_eq_some_iff.mp there).1
      omega
    · rw [held w (List.mem_of_getElem? there)]
  refine ⟨_, ?_, untorn_of_orderly (fun _ => [])
    (((Reached.start.step (e := .read 0 "a\n".toList) trivial rfl).step
      (e := .handleHttpResp) trivial rfl).step (e := .writeSome 0 1) (orderly _ ?_ ?_ 1) rfl)⟩
  · rfl
  · exact Nat.le_refl 1
  · intro w member
    rw [List.mem_singleton.mp member]

/-- Two writes of one session are outstanding, and each transmits one byte. -/
theorem torn_tags : ∃ s : ClientSocket 1, Reached ClientSocket.step (fun _ _ => True)
    (ClientSocket.init fun _ => "ls\n".toList) s ∧ s.received = "<<".toList ∧ ¬ s.Untorn := by
  refine ⟨_, ((((Reached.start.step (e := .read 0 "% ".toList) trivial rfl).step
    (e := .handleHttpResp) trivial rfl).step (e := .handleHttpResp) trivial rfl).step
      (e := .writeSome 0 1) trivial rfl).step (e := .writeSome 1 1) trivial rfl, rfl, ?_⟩
  intro untorn
  obtain ⟨order, strings, whole, -⟩ := untorn
  have fronts : ∀ ret, ret ∈ ClientSocket.ofApp 0 order → ∃ tail, ret = '<' :: 's' :: tail := by
    intro ret member
    have among := (strings 0).subset member
    rcases List.mem_cons.mp among with first | second
    · exact ⟨_, first⟩
    · exact ⟨_, List.mem_singleton.mp second⟩
  cases order with
  | nil => exact absurd whole (by decide)
  | cons first rest =>
      obtain ⟨i, ret⟩ := first
      obtain rfl : i = 0 := Subsingleton.elim _ _
      obtain ⟨tail, rfl⟩ := fronts ret
        (by rw [ClientSocket.ofApp_cons_self]; exact List.mem_cons_self)
      have second := List.cons_prefix_cons.mp (List.cons_prefix_cons.mp whole).2
      exact absurd second.1 (by decide)

end NetProg
