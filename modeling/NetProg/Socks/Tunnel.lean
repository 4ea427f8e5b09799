import NetProg.Console.Application
import NetProg.Lib.Runs
import NetProg.Socks.Relay

/-!
# A conversation through the proxy

`CGI::Application::connectProxy` asks `Socks4Handler` for a connection to a shell, and the session of
the console goes on through the relay.  `Direct` is the same session over a connection of its own, as
`CGI::Application::run` makes it.  Both move the same two ends, the console and the shell; they differ
in what has arrived at an end.  Not modelled are resets, and the exceptions behind them.
-/

namespace NetProg

open CGI (Application WriteSome)

/-- The two ends of a conversation. -/
structure Ends where
  app : Application
  /-- What the console has read from the shell. -/
  heard : List UInt8 := []
  /-- `handleShellInteraction` has been called for the first time. -/
  started : Bool := false
  /-- The shell has the connection. -/
  accepted : Bool := false
  shellSent : List UInt8 := []
  /-- The shell has shut down its side. -/
  shellClosed : Bool := false
  shellRead : List UInt8 := []
  /-- The shell has read the end of its input. -/
  shellDone : Bool := false

/-- What has arrived at an end, and whether the end of the stream has. -/
structure Arrived where
  bytes : List UInt8
  ended : Bool

/-- What happens at one of the ends. -/
inductive Talk where
  | consoleReads (count : Nat)
  | consoleEnds
  | shellSends (bytes : List UInt8)
  | shellCloses
  | shellReads (count : Nat)
  | shellEnds
  deriving DecidableEq

namespace Ends

/-- Nothing has happened; the console has the lines of its test case. -/
def waiting (input : Text) : Ends := { app := { cgiInput := input } }

/-- What the console has sent. -/
def typed (e : Ends) : List UInt8 := bytesOf e.app.sent.flatten

/-- The first `forwardforkedNPShellHTTPResp`. -/
def start (e : Ends) : Ends := { e with app := e.app.handleShellInteraction, started := true }

/-- One step of an end, on what has arrived there. -/
def talk (write : WriteSome) (console shell : Arrived) (e : Ends) : Talk → Option Ends
  | .consoleReads count =>
      if e.app.reading = true ∧ 1 ≤ count ∧ e.heard.length + count ≤ console.bytes.length then
        let chunk := (console.bytes.drop e.heard.length).take count
        some { e with app := e.app.receive write (textOf chunk), heard := e.heard ++ chunk }
      else none
  | .consoleEnds =>
      if e.app.reading = true ∧ console.ended = true ∧ e.heard.length = console.bytes.length then
        some { e with app := e.app.close }
      else none
  | .shellSends bytes =>
      if e.accepted = true ∧ e.shellClosed = false then
        some { e with shellSent := e.shellSent ++ bytes }
      else none
  | .shellCloses =>
      if e.accepted = true ∧ e.shellClosed = false then some { e with shellClosed := true } else none
  | .shellReads count =>
      if 1 ≤ count ∧ e.shellRead.length + count ≤ shell.bytes.length then
        some { e with
          shellRead := e.shellRead ++ (shell.bytes.drop e.shellRead.length).take count }
      else none
  | .shellEnds =>
      if e.shellDone = false ∧ shell.ended = true ∧ e.shellRead.length = shell.bytes.length then
        some { e with shellDone := true }
      else none

end Ends

/-- What happens on a direct connection: the shell accepts it, `async_connect` completes, and the ends
talk. -/
inductive DirectEvent where
  | accept
  | connected
  | talk (event : Talk)
  deriving DecidableEq

/-- Whatever one end sends has arrived at the other. -/
def Direct.step (write : WriteSome) (e : Ends) : DirectEvent → Option Ends
  | .accept => if e.accepted = false then some { e with accepted := true } else none
  | .connected => if e.accepted = true ∧ e.started = false then some e.start else none
  | .talk event => e.talk write ⟨e.shellSent, e.shellClosed⟩ ⟨e.typed, e.app.shutdown⟩ event

/-- What a direct connection can come to. -/
def Direct.Reaches (write : WriteSome) (input : Text) (e : Ends) : Prop :=
  ∃ events, runAll (Direct.step write) events (.waiting input) = some e

/-- The proxy's side of one connection. -/
inductive Proxy where
  | waiting (s : Session)
  | relaying (r : Relay)
  /-- `handleRead` has ended without a granted request. -/
  | ended (s : Session)

namespace Proxy

/-- What was written to the console. -/
def toConsole : Proxy → List UInt8
  | .waiting s => (replies s.actions).flatten
  | .relaying r => (replies r.session.actions).flatten ++ r.download.written
  | .ended s => (replies s.actions).flatten

end Proxy

/-- The console, the proxy and the shell. -/
structure Tunnel where
  ends : Ends
  proxy : Proxy
  /-- The array of `connectProxy`, which is not initialised. -/
  socks4Reply : Buffer
  /-- How many bytes its `read_some` has returned. -/
  answer : Option Nat := none

/-- What happens in a tunnel: `handleRead` gets the first bytes of the request, `connectProxy` gets
the first bytes of the reply, the relay moves, and the ends talk. -/
inductive TunnelEvent where
  | handleRead (first : Nat)
  | reply (count : Nat)
  | relay (event : RelayEvent)
  | talk (event : Talk)
  deriving DecidableEq

namespace TunnelEvent

/-- The request and the reply are read whole, and the relay writes whole what it has read. -/
def Whole : TunnelEvent → Prop
  | .handleRead first => first = 13
  | .reply count => count = Socks4Header.size
  | .relay event => event.Whole
  | .talk _ => True

end TunnelEvent

/-- More bytes are sent in a direction. -/
def Flow.more (flow : Flow) (bytes : List UInt8) : Flow :=
  { flow with unread := flow.unread ++ bytes }

namespace Relay

/-- The end of a stream can be read only when its sender has shut it down. -/
def Over (e : Ends) : RelayEvent → Prop
  | .readRemote .eof => e.shellClosed = true
  | .writeRemote .eof => e.app.shutdown = true
  | _ => True

instance (e : Ends) (event : RelayEvent) : Decidable (Over e event) := by
  unfold Over
  split <;> infer_instance

/-- What the ends have sent since is still to be read. -/
def feed (r : Relay) (before after : Ends) : Relay :=
  { r with
    upload := r.upload.more (after.typed.drop before.typed.length)
    download := r.download.more (after.shellSent.drop before.shellSent.length) }

end Relay

namespace Tunnel

/-- `connectProxy` has written its request. -/
def asked (input : Text) (remoteSendBuffer remoteRecvBuffer socks4Reply : Buffer) : Tunnel :=
  ⟨.waiting input, .waiting (.fresh remoteSendBuffer remoteRecvBuffer), socks4Reply, none⟩

/-- `handleRead` of the proxy, on the first bytes of the request. -/
def handleRead (w : World) (ep : Endpoint) (t : Tunnel) (s : Session) (first : Nat) : Tunnel :=
  match Relay.start w s first (connectRequest ep) [] with
  | some r => { t with proxy := .relaying r, ends := { t.ends with accepted := true } }
  | none =>
      let s' := s.receive ((connectRequest ep).take first)
      { t with proxy := .ended (Session.ended (s'.handleRead w)) }

/-- The end of `connectProxy`, once its `read_some` has returned
(`np_project4/cgiserver/cgi_application.cpp:66-86`). -/
def connectProxy (t : Tunnel) (count : Nat) : Tunnel :=
  let socks4Reply := t.socks4Reply.fill (t.proxy.toConsole.take count)
  let hdr := Socks4Header.load socks4Reply.bytes
  let ends := if hdr.command = socks4ReplyGranted then t.ends.start else t.ends
  { t with ends, socks4Reply, answer := some count }

/-- What has arrived at the console behind the reply. -/
def atConsole (t : Tunnel) (r : Relay) : Arrived :=
  ⟨(Proxy.relaying r).toConsole.drop (t.answer.getD 0), r.download.finished⟩

def step (w : World) (write : WriteSome) (ep : Endpoint) (t : Tunnel) : TunnelEvent → Option Tunnel
  | .handleRead first =>
      match t.proxy with
      | .waiting s => if 1 ≤ first ∧ first ≤ 13 then some (t.handleRead w ep s first) else none
      | _ => none
  | .reply count =>
      if t.answer = none ∧ 1 ≤ count ∧ count ≤ Socks4Header.size ∧
          count ≤ t.proxy.toConsole.length then
        some (t.connectProxy count)
      else none
  | .relay event =>
      match t.proxy with
      | .relaying r =>
          if Relay.Over t.ends event then
            (r.step event).map fun r => { t with proxy := .relaying r }
          else none
      | _ => none
  | .talk event =>
      match t.proxy with
      | .relaying r =>
          (t.ends.talk write (t.atConsole r) ⟨r.upload.written, r.upload.finished⟩ event).map
            fun ends => { t with ends, proxy := .relaying (r.feed t.ends ends) }
      | _ => none

end Tunnel

/-- The proxy has a connection to give: the firewall permits the endpoint, and it answers. -/
def Grants (w : World) (ep : Endpoint) : Prop :=
  w.isDestinationIPAddressAllowed (dotted ep.address) true = some true ∧ w.connect ep = true

/-- A refusal. -/
def refusal : List UInt8 := Socks4Header.store ⟨0, socks4ReplyRejected, 0, 0⟩

section Handshake

variable {w : World} {ep : Endpoint}

theorem connectRequest_length (ep : Endpoint) : (connectRequest ep).length = 13 := by
  simp [connectRequest, Socks4Header.size]

theorem relayTraffic_replies (s : Session) : replies s.relayTraffic.actions = replies s.actions := by
  simp [Session.relayTraffic, Session.act]

/-- The proxy decodes the endpoint that the console asks for. -/
theorem handleRead_connectRequest (w : World) (named : ¬ Nameless ep.address) (s : Session) :
    ∃ s', Session.Quiet s s' ∧ (s.receive (connectRequest ep)).handleRead w =
      match w.isDestinationIPAddressAllowed (dotted ep.address) true with
      | none => .error (.regexError, s')
      | some true => .ok ((s'.act (.print "<Reply>: Accept\n".toList)).connect w ep).relayTraffic
      | some false => .ok s'.reject := by
  have loaded : (s.receive (connectRequest ep)).header =
      ⟨4, socks4CmdConnect, htons ep.port, htonl ep.address⟩ := load_connectRequest ep s
  have resolved : resolveEndpoint w ⟨4, socks4CmdConnect, htons ep.port, htonl ep.address⟩
      (s.receive (connectRequest ep)) = .ok (ep, s.receive (connectRequest ep)) := by
    rw [resolveEndpoint_address _ _ _ (by rw [ntohl_htonl]; exact named), ntohl_htonl, ntohs_htons]
  have quiet := Session.logConnectionDetails_quiet w
    ⟨4, socks4CmdConnect, htons ep.port, htonl ep.address⟩ ep (s.receive (connectRequest ep))
  refine ⟨_, ⟨quiet.hdr, quiet.remoteSocket, quiet.replies, quiet.relay⟩, ?_⟩
  rw [Session.handleRead, loaded]
  simp only [resolved, bind, Except.bind]
  rfl

/-- A request that is granted: the proxy is connected with the endpoint that the console asked for. -/
theorem start_granted (named : ¬ Nameless ep.address) (grants : Grants w ep)
    (sendBuffer recvBuffer : Buffer) : ∃ s',
      Relay.start w (.fresh sendBuffer recvBuffer) 13 (connectRequest ep) [] =
        some ⟨s', ⟨[], [], false⟩, ⟨[], [], false⟩⟩ ∧
      s'.remoteSocket = some ep ∧ replies s'.actions = [Session.granted 0] := by
  obtain ⟨s', quiet, ended⟩ :=
    handleRead_connectRequest w named (.fresh sendBuffer recvBuffer)
  rw [grants.1] at ended
  have first : (s'.act (.print "<Reply>: Accept\n".toList)).hdr = none := quiet.hdr
  obtain ⟨answered, -, connected⟩ := Session.connect_spec w ep first
  rw [if_pos grants.2] at answered connected
  have silent : replies (s'.act (.print "<Reply>: Accept\n".toList)).actions = [] :=
    (Session.Quiet.print s' _).replies.trans quiet.replies
  rw [silent] at answered
  have command : ((Session.fresh sendBuffer recvBuffer).receive (connectRequest ep)).header.command =
      socks4CmdConnect := congrArg Socks4Header.command (load_connectRequest ep _)
  have all : (connectRequest ep).take 13 = connectRequest ep :=
    List.take_of_length_le (connectRequest_length ep).le
  have rest : (connectRequest ep).drop 13 = [] :=
    List.drop_eq_nil_of_le (connectRequest_length ep).le
  refine ⟨((s'.act (.print "<Reply>: Accept\n".toList)).connect w ep).relayTraffic, ?_, connected, ?_⟩
  · simp only [Relay.start, all, ended, command, rest]
    rw [if_pos]
    refine ⟨trivial, by simp [Session.relayTraffic, Session.act], ?_⟩
    rw [relayTraffic_replies, answered]
    rfl
  · rw [relayTraffic_replies, answered]
    rfl

/-- A request that is not granted is refused or not answered at all. -/
theorem start_denied (named : ¬ Nameless ep.address) (denied : ¬ Grants w ep)
    (sendBuffer recvBuffer : Buffer) :
    Relay.start w (.fresh sendBuffer recvBuffer) 13 (connectRequest ep) [] = none ∧
      (replies (Session.ended (((Session.fresh sendBuffer recvBuffer).receive
          (connectRequest ep)).handleRead w)).actions = [] ∨
        replies (Session.ended (((Session.fresh sendBuffer recvBuffer).receive
          (connectRequest ep)).handleRead w)).actions = [refusal]) := by
  obtain ⟨s', quiet, ended⟩ :=
    handleRead_connectRequest w named (.fresh sendBuffer recvBuffer)
  have silent : replies s'.actions = [] := quiet.replies
  have all : (connectRequest ep).take 13 = connectRequest ep :=
    List.take_of_length_le (connectRequest_length ep).le
  cases allowed : w.isDestinationIPAddressAllowed (dotted ep.address) true with
  | none =>
      rw [allowed] at ended
      refine ⟨?_, Or.inl ?_⟩
      · simp only [Relay.start, all, ended]
      · rw [ended]
        exact silent
  | some permit =>
      rw [allowed] at ended
      cases permit with
      | false =>
          have refused : replies s'.reject.actions = [refusal] := by
            simp [Session.reject, Session.act, silent, refusal]
          refine ⟨?_, Or.inr ?_⟩
          · simp only [Relay.start, all, ended, refused]
            rw [if_neg]
            rintro ⟨-, -, code⟩
            exact absurd code (by decide)
          · rw [ended]
            exact refused
      | true =>
          have failed : w.connect ep = false := by
            by_contra connects
            exact denied ⟨allowed, by simpa using connects⟩
          have first : (s'.act (.print "<Reply>: Accept\n".toList)).hdr = none := quiet.hdr
          have answered := (Session.connect_spec w ep first).1
          rw [failed, (Session.Quiet.print s' _).replies, silent] at answered
          have none : replies (((s'.act (.print "<Reply>: Accept\n".toList)).connect w
              ep).relayTraffic).actions = [] := by
            rw [relayTraffic_replies, answered]
            rfl
          refine ⟨?_, Or.inl ?_⟩
          · simp only [Relay.start, all, ended, none]
            rw [if_neg]
            rintro ⟨-, -, code⟩
            cases code
          · rw [ended]
            exact none

end Handshake

section Ends

variable {write : WriteSome} {e e' : Ends} {console console' shell shell' : Arrived} {event : Talk}

/-- What a chunk makes the console send comes behind what it has sent. -/
theorem CGI.Application.receive_sent (write : WriteSome) (a : Application) (chunk : Text) :
    ∃ more, (a.receive write chunk).sent = a.sent ++ more := by
  unfold Application.receive Application.onRead
  have same : ∃ more, a.sent = a.sent ++ more := ⟨[], (List.append_nil _).symm⟩
  cases reading : a.reading with
  | false => exact same
  | true =>
      simp only [if_true]
      split
      · split
        · exact same
        · split
          · exact same
          · rename_i line rest command
            cases write a.sent.length (line ++ ['\n']).length with
            | none => exact same
            | some n => exact ⟨_, rfl⟩
      · exact same

/-- Nothing is read after `shutdown_send`. -/
theorem CGI.Application.receive_shutdown {a : Application}
    (idle : a.reading = true → a.shutdown = false) (chunk : Text)
    (reading : (a.receive write chunk).reading = true) : (a.receive write chunk).shutdown = false := by
  revert reading
  unfold Application.receive Application.onRead
  cases was : a.reading with
  | false => simp [was]
  | true =>
      have still := idle was
      simp only [if_true]
      split
      · split
        · exact fun _ => still
        · split
          · intro reading
            cases reading
          · rename_i line rest command
            cases write a.sent.length (line ++ ['\n']).length with
            | none =>
                intro reading
                cases reading
            | some n => exact fun _ => still
      · exact fun _ => still

/-- One step of an end only adds to what was sent, and nothing behind the end of a stream. -/
structure Talked (e e' : Ends) : Prop where
  accepted : e'.accepted = e.accepted
  started : e'.started = e.started
  typed : ∃ more, e'.typed = e.typed ++ more ∧ (e.app.shutdown = true → more = [])
  shutdown : e.app.shutdown = true → e'.app.shutdown = true
  shellSent : ∃ more, e'.shellSent = e.shellSent ++ more ∧ (e.shellClosed = true → more = [])
  shellClosed : e.shellClosed = true → e'.shellClosed = true
  reading : e'.app.reading = true → e.app.reading = true ∧ e'.app.shutdown = false
  idle : e.app.reading = false → e'.app = e.app

/-- An end whose console is left alone. -/
theorem Talked.atShell (idle : e.app.reading = true → e.app.shutdown = false) {more : List UInt8}
    (same : e'.app = e.app ∧ e'.accepted = e.accepted ∧ e'.started = e.started)
    (sent : e'.shellSent = e.shellSent ++ more) (ended : e.shellClosed = true → more = [])
    (closed : e.shellClosed = true → e'.shellClosed = true) : Talked e e' := by
  obtain ⟨app, accepted, started⟩ := same
  refine ⟨accepted, started, ⟨[], ?_, fun _ => rfl⟩, ?_, ⟨more, sent, ended⟩, closed, ?_,
    fun _ => app⟩
  · rw [Ends.typed, app, Ends.typed, List.append_nil]
  · rw [app]
    exact id
  · rw [app]
    exact fun reading => ⟨reading, idle reading⟩

theorem talk_talked (idle : e.app.reading = true → e.app.shutdown = false)
    (stepped : e.talk write console shell event = some e') : Talked e e' := by
  cases event with
  | consoleReads count =>
      simp only [Ends.talk, Option.ite_none_right_eq_some, Option.some.injEq] at stepped
      obtain ⟨⟨reading, -, -⟩, rfl⟩ := stepped
      have opened := idle reading
      obtain ⟨more, sent⟩ := Application.receive_sent write e.app
        (textOf ((console.bytes.drop e.heard.length).take count))
      refine ⟨rfl, rfl, ⟨bytesOf more.flatten, ?_, ?_⟩, ?_, ⟨[], by simp, fun _ => rfl⟩, id, ?_,
        by simp [reading]⟩
      · simp only [Ends.typed, sent, List.flatten_append, bytesOf, List.map_append]
      · simp [opened]
      · simp [opened]
      · exact fun still => ⟨reading, Application.receive_shutdown idle _ still⟩
  | consoleEnds =>
      simp only [Ends.talk, Option.ite_none_right_eq_some, Option.some.injEq] at stepped
      obtain ⟨⟨reading, -, -⟩, rfl⟩ := stepped
      refine ⟨rfl, rfl, ⟨[], by simp [Ends.typed, Application.close], fun _ => rfl⟩, id,
        ⟨[], by simp, fun _ => rfl⟩, id, ?_, by simp [reading]⟩
      intro still
      cases still
  | shellSends bytes =>
      simp only [Ends.talk, Option.ite_none_right_eq_some, Option.some.injEq] at stepped
      obtain ⟨⟨-, opened⟩, rfl⟩ := stepped
      exact .atShell idle ⟨rfl, rfl, rfl⟩ rfl (by simp [opened]) id
  | shellCloses =>
      simp only [Ends.talk, Option.ite_none_right_eq_some, Option.some.injEq] at stepped
      obtain ⟨-, rfl⟩ := stepped
      exact .atShell idle ⟨rfl, rfl, rfl⟩ (List.append_nil _).symm (fun _ => rfl) (fun _ => rfl)
  | shellReads count =>
      simp only [Ends.talk, Option.ite_none_right_eq_some, Option.some.injEq] at stepped
      obtain ⟨-, rfl⟩ := stepped
      exact .atShell idle ⟨rfl, rfl, rfl⟩ (List.append_nil _).symm (fun _ => rfl) id
  | shellEnds =>
      simp only [Ends.talk, Option.ite_none_right_eq_some, Option.some.injEq] at stepped
      obtain ⟨-, rfl⟩ := stepped
      exact .atShell idle ⟨rfl, rfl, rfl⟩ (List.append_nil _).symm (fun _ => rfl) id

/-- Less has arrived, or the same. -/
structure Arrived.Within (less more : Arrived) : Prop where
  bytes : less.bytes <+: more.bytes
  ended : less.ended = true → more.ended = true ∧ less.bytes = more.bytes

theorem Arrived.Within.refl (a : Arrived) : a.Within a := ⟨List.prefix_rfl, fun ended => ⟨ended, rfl⟩⟩

/-- Where more has arrived, an end can do the same. -/
theorem talk_within (atConsole : e.app.reading = true → console.Within console')
    (atShell : shell.Within shell') (stepped : e.talk write console shell event = some e') :
    e.talk write console' shell' event = some e' := by
  have part : ∀ {a b : Arrived} {n count : Nat}, a.Within b → n + count ≤ a.bytes.length →
      n + count ≤ b.bytes.length ∧ (b.bytes.drop n).take count = (a.bytes.drop n).take count := by
    intro a b n count within inside
    obtain ⟨more, whole⟩ := within.bytes
    rw [← whole, List.length_append, List.drop_append_of_le_length (by omega),
      List.take_append_of_le_length (by rw [List.length_drop]; omega)]
    exact ⟨by omega, rfl⟩
  cases event with
  | consoleReads count =>
      simp only [Ends.talk, Option.ite_none_right_eq_some] at stepped ⊢
      obtain ⟨⟨reading, some, inside⟩, moved⟩ := stepped
      obtain ⟨inside', same⟩ := part (atConsole reading) inside
      refine ⟨⟨reading, some, inside'⟩, ?_⟩
      rw [same]
      exact moved
  | consoleEnds =>
      simp only [Ends.talk, Option.ite_none_right_eq_some] at stepped ⊢
      obtain ⟨⟨reading, ended, all⟩, moved⟩ := stepped
      obtain ⟨ended', same⟩ := (atConsole reading).ended ended
      exact ⟨⟨reading, ended', same ▸ all⟩, moved⟩
  | shellReads count =>
      simp only [Ends.talk, Option.ite_none_right_eq_some] at stepped ⊢
      obtain ⟨⟨some, inside⟩, moved⟩ := stepped
      obtain ⟨inside', same⟩ := part atShell inside
      refine ⟨⟨some, inside'⟩, ?_⟩
      rw [same]
      exact moved
  | shellEnds =>
      simp only [Ends.talk, Option.ite_none_right_eq_some] at stepped ⊢
      obtain ⟨⟨first, ended, all⟩, moved⟩ := stepped
      obtain ⟨ended', same⟩ := atShell.ended ended
      exact ⟨⟨first, ended', same ▸ all⟩, moved⟩
  | shellSends bytes => exact stepped
  | shellCloses => exact stepped

/-- Before the connection nothing happens at the ends. -/
theorem talk_waiting (input : Text) (e' : Ends) :
    (Ends.waiting input).talk write ⟨[], false⟩ ⟨[], false⟩ event ≠ some e' := by
  intro stepped
  cases event with
  | shellReads count =>
      simp only [Ends.talk, Option.ite_none_right_eq_some, List.length_nil] at stepped
      omega
  | _ =>
      simp only [Ends.talk, Option.ite_none_right_eq_some] at stepped
      obtain ⟨met, -⟩ := stepped
      simp [Ends.waiting] at met

end Ends

end NetProg
