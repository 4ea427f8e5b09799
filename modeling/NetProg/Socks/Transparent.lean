import NetProg.Socks.Tunnel

/-!
# The proxy is transparent

A tunnel that the proxy gives and a direct connection come to the same at both ends, in every order of
steps: what the relay has taken and not yet written is the only difference, and the relay can always
deliver it.
-/

namespace NetProg

open CGI (Application WriteSome)

section Flows

variable {flow : Flow} {sent : List UInt8} {r r' : Relay} {e e' : Ends} {event : RelayEvent}

/-- A direction stays complete when more is sent, before it is shut down. -/
theorem Flow.Complete.more (complete : flow.Complete sent) {bytes : List UInt8}
    (ended : flow.finished = true → bytes = []) : (flow.more bytes).Complete (sent ++ bytes) := by
  obtain ⟨all, done⟩ := complete
  refine ⟨?_, ?_⟩
  · rw [← all, List.append_assoc]
    rfl
  · intro finished
    simp only [Flow.more] at finished ⊢
    rw [ended finished, done finished, List.append_nil]

/-- The directions of a relay between two ends. -/
structure Relay.Between (r : Relay) (e : Ends) : Prop where
  complete : r.Complete e.typed e.shellSent
  upOver : r.upload.finished = true → e.app.shutdown = true
  downOver : r.download.finished = true → e.shellClosed = true

/-- A step of the relay moves bytes, and has nothing to do with the handshake. -/
theorem Relay.step_between (between : r.Between e) (whole : event.Whole) (ended : Relay.Over e event)
    (stepped : r.step event = some r') : r'.Between e ∧
      r'.session.remoteSocket = r.session.remoteSocket ∧ r'.session.actions = r.session.actions := by
  obtain ⟨complete, upOver, downOver⟩ := between
  have complete' := Relay.step_complete complete whole stepped
  cases event with
  | readRemote transfer =>
      simp only [Relay.step] at stepped
      cases moved : asyncReadWrite r.download r.session.remoteRecvBuffer transfer with
      | none =>
          rw [moved] at stepped
          cases stepped
      | some result =>
          rw [moved] at stepped
          cases stepped
          refine ⟨⟨complete', upOver, ?_⟩, rfl, rfl⟩
          intro finished
          cases transfer with
          | copy read wrote =>
              simp only [asyncReadWrite, Option.ite_none_right_eq_some, Option.some.injEq] at moved
              obtain ⟨-, rfl⟩ := moved
              cases finished
          | eof => exact ended
  | writeRemote transfer =>
      simp only [Relay.step] at stepped
      cases moved : asyncReadWrite r.upload r.session.remoteSendBuffer transfer with
      | none =>
          rw [moved] at stepped
          cases stepped
      | some result =>
          rw [moved] at stepped
          cases stepped
          refine ⟨⟨complete', ?_, downOver⟩, rfl, rfl⟩
          intro finished
          cases transfer with
          | copy read wrote =>
              simp only [asyncReadWrite, Option.ite_none_right_eq_some, Option.some.injEq] at moved
              obtain ⟨-, rfl⟩ := moved
              cases finished
          | eof => exact ended

/-- What the ends send goes into the relay. -/
theorem Relay.Between.feed (between : r.Between e) (talked : Talked e e') :
    (r.feed e e').Between e' := by
  obtain ⟨⟨up, down⟩, upOver, downOver⟩ := between
  obtain ⟨typed, typedMore, noMore⟩ := talked.typed
  obtain ⟨shellSent, sentMore, noMore'⟩ := talked.shellSent
  have up' := up.more fun finished => noMore (upOver finished)
  have down' := down.more fun finished => noMore' (downOver finished)
  rw [← typedMore] at up'
  rw [← sentMore] at down'
  refine ⟨⟨?_, ?_⟩, fun finished => talked.shutdown (upOver finished),
    fun finished => talked.shellClosed (downOver finished)⟩
  · rw [Relay.feed, typedMore, List.drop_left]
    exact typedMore ▸ up'
  · rw [Relay.feed, sentMore, List.drop_left]
    exact sentMore ▸ down'

/-- All that was sent has been written, and all that was shut down is shut down at the other end. -/
structure Relay.Settled (r : Relay) (e : Ends) : Prop where
  upload : r.upload = ⟨[], e.typed, e.app.shutdown⟩
  download : r.download = ⟨[], e.shellSent, e.shellClosed⟩

/-- What a direction still has to do. -/
def Flow.pending (flow : Flow) : Nat := flow.unread.length + if flow.finished then 0 else 1

/-- A direction that has not done all can do something. -/
theorem Flow.Complete.progress (complete : flow.Complete sent) {ended : Bool}
    (ends : flow.finished = true → ended = true) (buffer : Buffer) :
    flow = ⟨[], sent, ended⟩ ∨ ∃ transfer flow' buffer',
      asyncReadWrite flow buffer transfer = some (flow', buffer') ∧
      (∀ read wrote, transfer = .copy read wrote → wrote = read) ∧
      (transfer = .eof → ended = true) ∧ flow'.pending < flow.pending := by
  obtain ⟨unread, written, finished⟩ := flow
  obtain ⟨all, done⟩ := complete
  simp only at all done ends
  cases unread with
  | cons byte unread =>
      have opened : finished = false := by
        cases finished with
        | false => rfl
        | true => cases done rfl
      have room : finished = false ∧ 1 ≤ 1 ∧ 1 ≤ 1 ∧ 1 ≤ bufferSize ∧
          1 ≤ (byte :: unread).length := by simp [opened, bufferSize]
      refine Or.inr ⟨.copy 1 1, _, _, if_pos room, ?_, ?_, ?_⟩
      · rintro _ _ ⟨⟩
        rfl
      · rintro ⟨⟩
      · simp [Flow.pending, opened]
  | nil =>
      rw [List.append_nil] at all
      cases finished with
      | true =>
          rw [all, ends rfl]
          exact Or.inl rfl
      | false =>
          cases ended with
          | false => exact Or.inl (by rw [all])
          | true =>
              refine Or.inr ⟨.eof, ⟨[], written, true⟩, buffer, by simp [asyncReadWrite], ?_,
                fun _ => rfl, ?_⟩
              · rintro _ _ ⟨⟩
              · simp [Flow.pending]

/-- A relay that has not done all can do something. -/
theorem Relay.Between.progress (between : r.Between e) : r.Settled e ∨ ∃ event r',
    event.Whole ∧ Relay.Over e event ∧ r.step event = some r' ∧
      r'.upload.pending + r'.download.pending < r.upload.pending + r.download.pending := by
  obtain ⟨⟨up, down⟩, upOver, downOver⟩ := between
  rcases up.progress upOver r.session.remoteSendBuffer with
    upload | ⟨transfer, flow, buffer, moved, whole, ended, less⟩
  · rcases down.progress downOver r.session.remoteRecvBuffer with
      download | ⟨transfer, flow, buffer, moved, whole, ended, less⟩
    · exact Or.inl ⟨upload, download⟩
    · refine Or.inr ⟨.readRemote transfer,
        { r with download := flow, session := { r.session with remoteRecvBuffer := buffer } },
        whole, ?_, ?_, Nat.add_lt_add_left less _⟩
      · cases transfer with
        | copy read wrote => trivial
        | eof => exact ended rfl
      · rw [Relay.step, moved]
  · refine Or.inr ⟨.writeRemote transfer,
      { r with upload := flow, session := { r.session with remoteSendBuffer := buffer } },
      whole, ?_, ?_, Nat.add_lt_add_right less _⟩
    · cases transfer with
      | copy read wrote => trivial
      | eof => exact ended rfl
    · rw [Relay.step, moved]

end Flows

section Runs

variable {w : World} {write : WriteSome} {ep : Endpoint} {input : Text} {t t' : Tunnel} {r r' : Relay}
  {e e' : Ends}

/-- The relay of the connection that the console asked for. -/
structure Carried (ep : Endpoint) (t : Tunnel) (r : Relay) : Prop where
  remoteSocket : r.session.remoteSocket = some ep
  replies : replies r.session.actions = [Session.granted 0]
  between : r.Between t.ends
  accepted : t.ends.accepted = true
  answer : t.answer = if t.ends.started then some Socks4Header.size else none
  reading : t.ends.app.reading = true → t.ends.started = true ∧ t.ends.app.shutdown = false
  fresh : t.ends.started = false → t.ends.app.shutdown = false

/-- What holds of a tunnel at any time. -/
def Tunnel.Sound (w : World) (ep : Endpoint) (input : Text) (t : Tunnel) : Prop :=
  match t.proxy with
  | .waiting s => (∃ sendBuffer recvBuffer, s = .fresh sendBuffer recvBuffer) ∧
      t.ends = .waiting input ∧ t.answer = none
  | .relaying r => Grants w ep ∧ Carried ep t r
  | .ended s => ¬ Grants w ep ∧ t.ends = .waiting input ∧
      (replies s.actions = [] ∨ replies s.actions = [refusal])

theorem Tunnel.Sound.of_carries (grants : Grants w ep) (is : t.proxy = .relaying r)
    (carries : Carried ep t r) : t.Sound w ep input := by
  simp only [Tunnel.Sound, is]
  exact ⟨grants, carries⟩

/-- Of what arrives at the console, the reply comes first. -/
theorem Carried.toConsole (carries : Carried ep t r) :
    (Proxy.relaying r).toConsole = Session.granted 0 ++ r.download.written := by
  rw [Proxy.toConsole, carries.replies]
  rfl

/-- What has arrived at the ends was sent by the ends. -/
theorem Carried.within (carries : Carried ep t r) :
    (t.ends.app.reading = true →
      (t.atConsole r).Within ⟨t.ends.shellSent, t.ends.shellClosed⟩) ∧
    Arrived.Within ⟨r.upload.written, r.upload.finished⟩ ⟨t.ends.typed, t.ends.app.shutdown⟩ := by
  obtain ⟨⟨up, down⟩, upOver, downOver⟩ := carries.between
  constructor
  · intro reading
    have behind : (Session.granted 0 ++ r.download.written).drop Socks4Header.size =
        r.download.written := List.drop_left' (Session.granted_length 0)
    rw [Tunnel.atConsole, carries.toConsole, carries.answer, if_pos (carries.reading reading).1,
      Option.getD_some, behind]
    exact ⟨down.delivers.1, fun ended => ⟨downOver ended, down.delivers.2 ended⟩⟩
  · exact ⟨up.delivers.1, fun ended => ⟨upOver ended, up.delivers.2 ended⟩⟩

/-- A step of an end in the tunnel is one on the direct connection. -/
theorem Carried.talk (carries : Carried ep t r) {event : Talk}
    (stepped : t.ends.talk write (t.atConsole r) ⟨r.upload.written, r.upload.finished⟩ event =
      some e') :
    Direct.step write t.ends (.talk event) = some e' ∧
      Carried ep { t with ends := e', proxy := .relaying (r.feed t.ends e') } (r.feed t.ends e') := by
  have idle : t.ends.app.reading = true → t.ends.app.shutdown = false :=
    fun reading => (carries.reading reading).2
  have talked := talk_talked idle stepped
  obtain ⟨atConsole, atShell⟩ := carries.within
  refine ⟨talk_within atConsole atShell stepped, carries.remoteSocket, carries.replies,
    carries.between.feed talked, talked.accepted.trans carries.accepted, ?_, ?_, ?_⟩
  · rw [talked.started]
    exact carries.answer
  · intro reading
    obtain ⟨was, opened⟩ := talked.reading reading
    exact ⟨talked.started.trans (carries.reading was).1, opened⟩
  · intro before
    have first := talked.started.symm.trans before
    have silent : t.ends.app.reading = false := by
      by_contra reading
      have started := (carries.reading (by simpa using reading)).1
      rw [first] at started
      cases started
    exact (congrArg Application.shutdown (talked.idle silent)).trans (carries.fresh first)

/-- The reply of a granted request starts the console. -/
theorem Carried.connectProxy (carries : Carried ep t r) (is : t.proxy = .relaying r)
    (first : t.answer = none) :
    t.ends.started = false ∧ ∃ t', t.connectProxy Socks4Header.size = t' ∧ t'.proxy = .relaying r ∧
      t'.ends = t.ends.start ∧ Carried ep t' r := by
  have before : t.ends.started = false := by
    have answer := carries.answer
    cases started : t.ends.started with
    | false => rfl
    | true =>
        rw [first, started] at answer
        cases answer
  have reply : (Proxy.relaying r).toConsole.take Socks4Header.size = Session.granted 0 := by
    rw [carries.toConsole]
    exact List.take_left' (Session.granted_length 0)
  have code : (Socks4Header.load (t.socks4Reply.fill (Session.granted 0)).bytes).command =
      socks4ReplyGranted := by
    rw [Buffer.fill_bytes _ (by rw [Session.granted_length]; decide), Session.granted,
      Socks4Header.load_store]
  have begun : t.connectProxy Socks4Header.size = { t with
      ends := t.ends.start
      socks4Reply := t.socks4Reply.fill (Session.granted 0)
      answer := some Socks4Header.size } := by
    simp only [Tunnel.connectProxy, is, reply, code, if_true]
  exact ⟨before, _, begun, is, rfl, carries.remoteSocket, carries.replies,
    ⟨carries.between.complete, carries.between.upOver, carries.between.downOver⟩,
    carries.accepted, rfl, fun _ => ⟨rfl, carries.fresh before⟩, fun none => Bool.noConfusion none⟩

/-- A reply that is no grant leaves the console as it is. -/
theorem connectProxy_denied {s : Session} (is : t.proxy = .ended s) {count : Nat}
    (whole : count = Socks4Header.size) (room : count ≤ t.proxy.toConsole.length)
    (silent : replies s.actions = [] ∨ replies s.actions = [refusal]) :
    (t.connectProxy count).ends = t.ends ∧ (t.connectProxy count).proxy = .ended s := by
  subst whole
  rcases silent with none | refused
  · rw [is, Proxy.toConsole, none] at room
    cases room
  · have reply : t.proxy.toConsole.take Socks4Header.size = refusal := by
      rw [is, Proxy.toConsole, refused]
      exact List.take_of_length_le (Socks4Header.store_length _).le
    have code : (Socks4Header.load (t.socks4Reply.fill refusal).bytes).command =
        socks4ReplyRejected := by
      rw [Buffer.fill_bytes _ (by rw [refusal, Socks4Header.store_length]; decide), refusal,
        Socks4Header.load_store]
    have other : ¬ socks4ReplyRejected = socks4ReplyGranted := by decide
    simp only [Tunnel.connectProxy, reply, code, if_neg other]
    exact ⟨trivial, is⟩

/-- A granted request makes the shell accept. -/
theorem handleRead_granted (named : ¬ Nameless ep.address) (grants : Grants w ep)
    (sendBuffer recvBuffer : Buffer) (waits : t.ends = .waiting input) (none : t.answer = none) :
    ∃ s', t.handleRead w ep (.fresh sendBuffer recvBuffer) 13 =
        { t with
          proxy := .relaying ⟨s', ⟨[], [], false⟩, ⟨[], [], false⟩⟩
          ends := { Ends.waiting input with accepted := true } } ∧
      Carried ep { t with
        proxy := .relaying ⟨s', ⟨[], [], false⟩, ⟨[], [], false⟩⟩
        ends := { Ends.waiting input with accepted := true } }
          ⟨s', ⟨[], [], false⟩, ⟨[], [], false⟩⟩ := by
  obtain ⟨s', started, remoteSocket, replies⟩ :=
    start_granted named grants sendBuffer recvBuffer
  refine ⟨s', by simp only [Tunnel.handleRead, started, waits], remoteSocket, replies, ?_, rfl,
    none, ?_, fun _ => rfl⟩
  · exact ⟨⟨⟨rfl, fun _ => rfl⟩, ⟨rfl, fun _ => rfl⟩⟩, fun ended => Bool.noConfusion ended,
      fun ended => Bool.noConfusion ended⟩
  · exact fun reading => Bool.noConfusion reading

/-- A step of the tunnel is one of the direct connection, or none. -/
theorem step_sound (named : ¬ Nameless ep.address) (sound : t.Sound w ep input) {event : TunnelEvent}
    (whole : event.Whole) (stepped : t.step w write ep event = some t') :
    t'.Sound w ep input ∧ ∃ events, runAll (Direct.step write) events t.ends = some t'.ends := by
  cases event with
  | handleRead first =>
      obtain rfl : first = 13 := whole
      cases is : t.proxy with
      | waiting s =>
          simp only [Tunnel.step, is, Option.ite_none_right_eq_some, Option.some.injEq] at stepped
          obtain ⟨-, rfl⟩ := stepped
          simp only [Tunnel.Sound, is] at sound
          obtain ⟨⟨sendBuffer, recvBuffer, rfl⟩, waits, none⟩ := sound
          by_cases grants : Grants w ep
          · obtain ⟨s', handled, carries⟩ :=
              handleRead_granted named grants sendBuffer recvBuffer waits none
            rw [handled]
            refine ⟨⟨grants, carries⟩, [.accept], ?_⟩
            rw [waits]
            rfl
          · obtain ⟨fails, silent⟩ := start_denied named grants sendBuffer recvBuffer
            have all : (connectRequest ep).take 13 = connectRequest ep :=
              List.take_of_length_le (connectRequest_length ep).le
            simp only [Tunnel.handleRead, fails, all]
            exact ⟨⟨grants, waits, silent⟩, [], rfl⟩
      | relaying r => simp [Tunnel.step, is] at stepped
      | ended s => simp [Tunnel.step, is] at stepped
  | reply count =>
      obtain rfl : count = Socks4Header.size := whole
      simp only [Tunnel.step, Option.ite_none_right_eq_some, Option.some.injEq] at stepped
      obtain ⟨⟨first, -, -, room⟩, rfl⟩ := stepped
      cases is : t.proxy with
      | waiting s =>
          simp only [Tunnel.Sound, is] at sound
          obtain ⟨⟨sendBuffer, recvBuffer, rfl⟩, -, -⟩ := sound
          rw [is] at room
          cases room
      | relaying r =>
          simp only [Tunnel.Sound, is] at sound
          obtain ⟨grants, carries⟩ := sound
          obtain ⟨before, t', same, is', begun, carries'⟩ := carries.connectProxy is first
          rw [same]
          refine ⟨.of_carries grants is' carries', [.connected], ?_⟩
          simp [runAll, Direct.step, carries.accepted, before, begun]
      | ended s =>
          simp only [Tunnel.Sound, is] at sound
          obtain ⟨denied, waits, silent⟩ := sound
          obtain ⟨ends, proxy⟩ := connectProxy_denied is rfl room silent
          refine ⟨?_, [], congrArg some ends.symm⟩
          simp only [Tunnel.Sound, proxy]
          exact ⟨denied, ends.trans waits, silent⟩
  | relay event =>
      cases is : t.proxy with
      | relaying r =>
          simp only [Tunnel.step, is, Option.ite_none_right_eq_some] at stepped
          obtain ⟨ended, moved⟩ := stepped
          obtain ⟨r', relayed, rfl⟩ := Option.map_eq_some_iff.mp moved
          simp only [Tunnel.Sound, is] at sound
          obtain ⟨grants, carries⟩ := sound
          obtain ⟨between, remoteSocket, actions⟩ :=
            Relay.step_between carries.between whole ended relayed
          refine ⟨⟨grants, ?_⟩, [], rfl⟩
          exact ⟨remoteSocket.trans carries.remoteSocket,
            (congrArg replies actions).trans carries.replies, between, carries.accepted,
            carries.answer, carries.reading, carries.fresh⟩
      | waiting s => simp [Tunnel.step, is] at stepped
      | ended s => simp [Tunnel.step, is] at stepped
  | talk event =>
      cases is : t.proxy with
      | relaying r =>
          simp only [Tunnel.step, is] at stepped
          obtain ⟨ends, moved, rfl⟩ := Option.map_eq_some_iff.mp stepped
          simp only [Tunnel.Sound, is] at sound
          obtain ⟨grants, carries⟩ := sound
          obtain ⟨direct, carries'⟩ := carries.talk moved
          exact ⟨⟨grants, carries'⟩, [.talk event], by rw [runAll, direct]; rfl⟩
      | waiting s => simp [Tunnel.step, is] at stepped
      | ended s => simp [Tunnel.step, is] at stepped

/-- The relay can deliver everything at any time. -/
theorem Carried.settle (carries : Carried ep t r) (is : t.proxy = .relaying r) :
    ∃ events r', (∀ event ∈ events, TunnelEvent.Whole event) ∧
      runAll (Tunnel.step w write ep) events t = some { t with proxy := .relaying r' } ∧
      Carried ep { t with proxy := .relaying r' } r' ∧ r'.Settled t.ends := by
  induction left : r.upload.pending + r.download.pending using Nat.strongRecOn generalizing t r with
  | ind n ih =>
      rcases carries.between.progress with settled | ⟨event, r', whole, ended, moved, less⟩
      · refine ⟨[], r, by simp, ?_, ?_, settled⟩
        · rw [← is]
          rfl
        · exact ⟨carries.remoteSocket, carries.replies, carries.between, carries.accepted,
            carries.answer, carries.reading, carries.fresh⟩
      · obtain ⟨between, remoteSocket, actions⟩ :=
          Relay.step_between carries.between whole ended moved
        have carries' : Carried ep { t with proxy := .relaying r' } r' :=
          ⟨remoteSocket.trans carries.remoteSocket,
            (congrArg NetProg.replies actions).trans carries.replies, between, carries.accepted,
            carries.answer, carries.reading, carries.fresh⟩
        obtain ⟨events, last, wholes, ran, final, settled⟩ := ih _ (left ▸ less) carries' rfl rfl
        refine ⟨.relay event :: events, last, List.forall_mem_cons.mpr ⟨whole, wholes⟩, ?_, final,
          settled⟩
        rw [runAll, Tunnel.step, is]
        simp only [if_pos ended, moved, Option.map_some, Option.bind_some]
        exact ran

/-- What the ends can do on a direct connection they can do when everything was delivered. -/
theorem Carried.settled_within (carries : Carried ep t r) (settled : r.Settled t.ends) :
    (t.ends.app.reading = true →
      Arrived.Within ⟨t.ends.shellSent, t.ends.shellClosed⟩ (t.atConsole r)) ∧
    Arrived.Within ⟨t.ends.typed, t.ends.app.shutdown⟩
      ⟨r.upload.written, r.upload.finished⟩ := by
  obtain ⟨upload, download⟩ := settled
  constructor
  · intro reading
    have behind : (Session.granted 0 ++ t.ends.shellSent).drop Socks4Header.size =
        t.ends.shellSent := List.drop_left' (Session.granted_length 0)
    rw [Tunnel.atConsole, carries.toConsole, carries.answer, if_pos (carries.reading reading).1,
      Option.getD_some, download, behind]
    exact .refl _
  · rw [upload]
    exact .refl _

/-- A step of the direct connection is a run of the tunnel, if the proxy has a connection to give. -/
theorem direct_sound (named : ¬ Nameless ep.address) (grants : Grants w ep)
    (sound : t.Sound w ep input) {event : DirectEvent}
    (stepped : Direct.step write t.ends event = some e') :
    ∃ events t', (∀ event ∈ events, TunnelEvent.Whole event) ∧
      runAll (Tunnel.step w write ep) events t = some t' ∧ t'.Sound w ep input ∧ t'.ends = e' := by
  cases is : t.proxy with
  | ended s =>
      simp only [Tunnel.Sound, is] at sound
      exact absurd grants sound.1
  | waiting s =>
      simp only [Tunnel.Sound, is] at sound
      obtain ⟨⟨sendBuffer, recvBuffer, rfl⟩, waits, none⟩ := sound
      rw [waits] at stepped
      cases event with
      | accept =>
          cases stepped
          obtain ⟨s', handled, carries⟩ :=
            handleRead_granted named grants sendBuffer recvBuffer waits none
          refine ⟨[.handleRead 13], _, by simp [TunnelEvent.Whole], ?_,
            .of_carries grants rfl carries, rfl⟩
          simp only [runAll, Tunnel.step, is, handled]
          rfl
      | connected => cases stepped
      | talk event => exact absurd stepped (talk_waiting input e')
  | relaying r =>
      simp only [Tunnel.Sound, is] at sound
      obtain ⟨-, carries⟩ := sound
      cases event with
      | accept => simp [Direct.step, carries.accepted] at stepped
      | connected =>
          simp only [Direct.step, Option.ite_none_right_eq_some, Option.some.injEq] at stepped
          obtain ⟨⟨-, before⟩, rfl⟩ := stepped
          have first : t.answer = none := by
            rw [carries.answer, before]
            rfl
          obtain ⟨-, t', same, is', begun, carries'⟩ := carries.connectProxy is first
          refine ⟨[.reply Socks4Header.size], t', by simp [TunnelEvent.Whole], ?_, ?_, begun⟩
          · have room : Socks4Header.size ≤ t.proxy.toConsole.length := by
              rw [is, carries.toConsole, List.length_append, Session.granted_length]
              exact Nat.le_add_right _ _
            have met : t.answer = none ∧ 1 ≤ Socks4Header.size ∧
                Socks4Header.size ≤ Socks4Header.size ∧
                Socks4Header.size ≤ t.proxy.toConsole.length :=
              ⟨first, by decide, le_rfl, room⟩
            rw [runAll, Tunnel.step, if_pos met, same]
            rfl
          · exact .of_carries grants is' carries'
      | talk event =>
          obtain ⟨events, r', wholes, ran, carries', settled⟩ := carries.settle is
          obtain ⟨atConsole, atShell⟩ := carries'.settled_within settled
          have talked := talk_within atConsole atShell stepped
          obtain ⟨-, carries''⟩ := carries'.talk talked
          refine ⟨events ++ [.talk event], _, ?_, ?_, .of_carries grants rfl carries'', rfl⟩
          · intro event' member
            rcases List.mem_append.mp member with member | member
            · exact wholes event' member
            · rw [List.mem_singleton.mp member]
              trivial
          · rw [runAll_append, ran, Option.bind_some, runAll, Tunnel.step]
            simp only at talked ⊢
            rw [talked]
            rfl

end Runs

/-- The tunnel and the direct connection have come to the same. -/
def Tunnel.Matches (w : World) (ep : Endpoint) (input : Text) (t : Tunnel) (e : Ends) : Prop :=
  t.Sound w ep input ∧ t.ends = e

theorem matches_step (w : World) (write : WriteSome) {ep : Endpoint} (input : Text)
    (named : ¬ Nameless ep.address) {t t' : Tunnel} {e : Ends} {event : TunnelEvent}
    (related : t.Matches w ep input e) (whole : event.Whole)
    (stepped : t.step w write ep event = some t') :
    ∃ events e', (∀ event ∈ events, (fun _ : DirectEvent => True) event) ∧
      runAll (Direct.step write) events e = some e' ∧ t'.Matches w ep input e' := by
  obtain ⟨sound, rfl⟩ := related
  obtain ⟨sound', events, ran⟩ := step_sound named sound whole stepped
  exact ⟨events, _, fun _ _ => trivial, ran, sound', rfl⟩

theorem matches_direct {w : World} (write : WriteSome) {ep : Endpoint} (input : Text)
    (named : ¬ Nameless ep.address) (grants : Grants w ep) {e e' : Ends} {t : Tunnel}
    {event : DirectEvent} (related : t.Matches w ep input e) (_ : (fun _ : DirectEvent => True) event)
    (stepped : Direct.step write e event = some e') :
    ∃ events t', (∀ event ∈ events, TunnelEvent.Whole event) ∧
      runAll (Tunnel.step w write ep) events t = some t' ∧ t'.Matches w ep input e' := by
  obtain ⟨sound, rfl⟩ := related
  exact direct_sound named grants sound stepped

/-- What a tunnel can come to whose messages are read and relayed whole. -/
def Tunnel.Reaches (w : World) (write : WriteSome) (ep : Endpoint) (start t : Tunnel) : Prop :=
  ∃ events, (∀ event ∈ events, TunnelEvent.Whole event) ∧
    runAll (Tunnel.step w write ep) events start = some t

/-- A tunnel that a proxy gives is a direct connection with the endpoint that the console asked for:
console and shell come to the same, in every order of steps.  Without one nothing happens. -/
theorem tunnel_direct (w : World) (write : WriteSome) {ep : Endpoint} (input : Text)
    (sendBuffer recvBuffer socks4Reply : Buffer) (named : ¬ Nameless ep.address) :
    (∀ t r, Tunnel.Reaches w write ep (.asked input sendBuffer recvBuffer socks4Reply) t →
      t.proxy = .relaying r → r.session.remoteSocket = some ep) ∧
    (Grants w ep → ∀ e, Direct.Reaches write input e ↔ ∃ t,
      Tunnel.Reaches w write ep (.asked input sendBuffer recvBuffer socks4Reply) t ∧ t.ends = e) ∧
    (¬ Grants w ep → ∀ t,
      Tunnel.Reaches w write ep (.asked input sendBuffer recvBuffer socks4Reply) t →
        t.ends = .waiting input) := by
  have asked : (Tunnel.asked input sendBuffer recvBuffer socks4Reply).Matches w ep input
      (.waiting input) := ⟨⟨⟨sendBuffer, recvBuffer, rfl⟩, rfl, rfl⟩, rfl⟩
  have forward : ∀ {t}, Tunnel.Reaches w write ep (.asked input sendBuffer recvBuffer socks4Reply) t →
      t.Sound w ep input ∧ Direct.Reaches write input t.ends := by
    intro t reached
    obtain ⟨events, wholes, ran⟩ := reached
    obtain ⟨events', e, -, ran', sound, rfl⟩ :=
      runAll_simulated (Tunnel.Matches w ep input) (matches_step w write input named) asked wholes ran
    exact ⟨sound, events', ran'⟩
  refine ⟨?_, ?_, ?_⟩
  · intro t r reached is
    obtain ⟨sound, -⟩ := forward reached
    simp only [Tunnel.Sound, is] at sound
    exact sound.2.remoteSocket
  · intro grants e
    constructor
    · intro reached
      obtain ⟨events, ran⟩ := reached
      obtain ⟨events', t, wholes, ran', -, same⟩ :=
        runAll_simulated (fun e t => Tunnel.Matches w ep input t e)
          (matches_direct write input named grants) asked (fun _ _ => trivial) ran
      exact ⟨t, ⟨events', wholes, ran'⟩, same⟩
    · rintro ⟨t, reached, rfl⟩
      exact (forward reached).2
  · intro denied t reached
    obtain ⟨sound, -⟩ := forward reached
    unfold Tunnel.Sound at sound
    split at sound
    · exact sound.2.1
    · exact absurd sound.1 denied
    · exact sound.2.1

/-- A shell prompts, and gets the line of the test case through the proxy. -/
theorem tunnel_direct_ls : ∃ t,
    Tunnel.Reaches permittingWorld (fun _ n => some n) ⟨0x8C710001, 80⟩
      (.asked "ls\n".toList .zeros .zeros .zeros) t ∧ t.ends.shellRead = [108, 115, 10] := by
  have grants : Grants permittingWorld ⟨0x8C710001, 80⟩ := ⟨by decide +kernel, rfl⟩
  have direct : ∃ e, Direct.Reaches (fun _ n => some n) "ls\n".toList e ∧
      e.shellRead = [108, 115, 10] :=
    ⟨_, ⟨[.accept, .connected, .talk (.shellSends [37, 32]), .talk (.consoleReads 2),
      .talk (.shellReads 3)], rfl⟩, rfl⟩
  obtain ⟨e, reached, read⟩ := direct
  obtain ⟨t, reached', rfl⟩ := ((tunnel_direct permittingWorld (fun _ n => some n) "ls\n".toList
    .zeros .zeros .zeros (by decide)).2.1 grants e).mp reached
  exact ⟨t, reached', read⟩

end NetProg
