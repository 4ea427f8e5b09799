import NetProg.Lib.Outcome
import NetProg.Socks.Handler

/-!
# Replies and peers

What a client is told and whom the relay connects it with, over every run of the handler.  A
failed `connect` is followed by the relay without a reply, a permitted request with another
command gets no reply, and `bind` relays whichever host connects first.
-/

namespace NetProg

/-- What was written to the client. -/
def replies (actions : List Action) : List (List UInt8) :=
  actions.filterMap fun
    | .write bytes => some bytes
    | _ => none

/-- The code of a reply. -/
def replyCode (reply : List UInt8) : UInt8 := (Socks4Header.load reply).command

@[simp] theorem replies_append (first later : List Action) :
    replies (first ++ later) = replies first ++ replies later := List.filterMap_append

@[simp] theorem replies_nil : replies [] = [] := rfl

@[simp] theorem replies_write (bytes : List UInt8) (actions : List Action) :
    replies (.write bytes :: actions) = bytes :: replies actions := rfl

@[simp] theorem replies_print (text : Text) (actions : List Action) :
    replies (.print text :: actions) = replies actions := rfl

@[simp] theorem replies_connect (ep : Endpoint) (actions : List Action) :
    replies (.connect ep :: actions) = replies actions := rfl

@[simp] theorem replies_accept (peer : Endpoint) (actions : List Action) :
    replies (.accept peer :: actions) = replies actions := rfl

@[simp] theorem replies_shutdown (actions : List Action) :
    replies (.shutdown :: actions) = replies actions := rfl

@[simp] theorem replies_relay (actions : List Action) :
    replies (.relay :: actions) = replies actions := rfl

namespace Session

/-- The session at the end of a run, also of one that was cut off. -/
def ended : Handled Session → Session
  | .ok s => s
  | .error (_, s) => s

/-- The destination of the request and whether the firewall allows it, if the run gets that far. -/
def verdict (w : World) (s : Session) : Option (Endpoint × Bool) :=
  match resolveEndpoint w s.header s with
  | .error _ => none
  | .ok (ep, _) =>
      (w.isDestinationIPAddressAllowed (dotted ep.address)
        (s.header.command == socks4CmdConnect)).map (fun allowed => (ep, allowed))

/-- The firewall permits the request, whose destination is `ep`. -/
def Permitted (w : World) (s : Session) (ep : Endpoint) : Prop := s.verdict w = some (ep, true)

/-- A step that neither replies nor touches the connection to the other host. -/
structure Quiet (s s' : Session) : Prop where
  hdr : s'.hdr = s.hdr
  remoteSocket : s'.remoteSocket = s.remoteSocket
  replies : replies s'.actions = replies s.actions
  relay : .relay ∈ s'.actions ↔ .relay ∈ s.actions

namespace Quiet

variable {s s' s'' : Session}

theorem refl (s : Session) : Quiet s s := ⟨rfl, rfl, rfl, Iff.rfl⟩

theorem trans (h : Quiet s s') (h' : Quiet s' s'') : Quiet s s'' :=
  ⟨h'.hdr.trans h.hdr, h'.remoteSocket.trans h.remoteSocket, h'.replies.trans h.replies,
    h'.relay.trans h.relay⟩

theorem act (s : Session) {action : Action} (silent : NetProg.replies [action] = [])
    (other : action ≠ .relay) : Quiet s (s.act action) := by
  refine ⟨rfl, rfl, ?_, ?_⟩
  · rw [Session.act, replies_append, silent, List.append_nil]
  · simp [Session.act, Ne.symm other]

theorem print (s : Session) (text : Text) : Quiet s (s.act (.print text)) :=
  act s rfl (by simp)

end Quiet

theorem resolveEndpoint_quiet (w : World) (hdr : Socks4Header) (s : Session) :
    Sat (resolveEndpoint w hdr s) (fun result => Quiet s result.2)
      (fun stopped => Quiet s stopped.2) := by
  simp only [resolveEndpoint]
  by_cases nameless : socks4a.rmatch (dotted (ntohl hdr.dstaddr)) = true
  · rw [if_pos nameless]
    cases s.remoteSendBuffer.cStringAt Socks4Header.size with
    | none => exact .refl s
    | some userid =>
        simp only
        cases s.remoteSendBuffer.cStringAt (Socks4Header.size + userid.length + 1) with
        | none => exact .refl s
        | some domainName =>
            simp only
            cases w.resolve domainName (Text.decimal (ntohs hdr.dstport).toNat) with
            | none => exact .act s rfl (by simp)
            | some ep => exact .act s rfl (by simp)
  · rw [if_neg nameless]
    exact .refl s

theorem logConnectionDetails_quiet (w : World) (hdr : Socks4Header) (ep : Endpoint)
    (s : Session) : Quiet s (s.logConnectionDetails w hdr ep) := by
  unfold logConnectionDetails
  exact ((((Quiet.print s _).trans (.print _ _)).trans (.print _ _)).trans (.print _ _)).trans
    (.print _ _)

/-- How a run can go on once the request has been decoded and checked. -/
inductive Handled.Ran (w : World) (s : Session) : Session → Prop
  | cut (s' : Session) (unknown : s.verdict w = none) (quiet : Quiet s s') : Ran w s s'
  | refused (s' : Session) (ep : Endpoint) (verdict : s.verdict w = some (ep, false))
      (quiet : Quiet s s') : Ran w s s'.reject
  | accepted (s' : Session) (ep : Endpoint) (permitted : Permitted w s ep) (quiet : Quiet s s') :
      Ran w s (ended (s'.handleCommand w s.header.command ep))

theorem handleRead_ran (w : World) (s : Session) : Handled.Ran w s (ended (s.handleRead w)) := by
  have quiet := resolveEndpoint_quiet w s.header s
  simp only [handleRead]
  cases resolved : resolveEndpoint w s.header s with
  | error stopped =>
      rw [resolved] at quiet
      exact .cut stopped.2 (by rw [Session.verdict, resolved]) quiet
  | ok result =>
      obtain ⟨ep, s'⟩ := result
      rw [resolved] at quiet
      have logged := Quiet.trans quiet (logConnectionDetails_quiet w s.header ep s')
      simp only [Bind.bind, Except.bind]
      cases allowed : w.isDestinationIPAddressAllowed (dotted ep.address)
          (s.header.command == socks4CmdConnect) with
      | none => exact .cut _ (by rw [Session.verdict, resolved]; simp [allowed]) logged
      | some permit =>
          have known : s.verdict w = some (ep, permit) := by
            rw [Session.verdict, resolved]
            simp [allowed]
          cases permit with
          | true => exact .accepted _ ep known logged
          | false => exact .refused _ ep known logged

/-- The bytes of a reply with code 90. -/
def granted (port : UInt16) : List UInt8 :=
  Socks4Header.store ⟨socks4Version, socks4ReplyGranted, htons port, 0⟩

theorem granted_length (port : UInt16) : (granted port).length = 8 := Socks4Header.store_length _

theorem granted_code (port : UInt16) : replyCode (granted port) = socks4ReplyGranted := rfl

section Commands

variable {w : World} {s : Session} {ep : Endpoint}

/-- What `connect` leaves when it is the first to reply. -/
theorem connect_spec (w : World) (ep : Endpoint) (first : s.hdr = none) :
    replies (s.connect w ep).actions =
      replies s.actions ++ (if w.connect ep then [granted 0] else []) ∧
    (.relay ∈ (s.connect w ep).actions ↔ .relay ∈ s.actions) ∧
    (s.connect w ep).remoteSocket = if w.connect ep then some ep else s.remoteSocket := by
  unfold connect reply act
  cases w.connect ep with
  | true => simp [first, granted]
  | false => simp

/-- What `bind` leaves when it is the first to reply. -/
theorem bind_spec (first : s.hdr = none) :
    Sat (s.bind w)
      (fun s' => ∃ port peer, w.bind = some port ∧ w.accept = some peer ∧
        s'.actions = s.actions ++ [.write (granted port), .accept peer, .write (granted port)] ∧
        s'.remoteSocket = some peer)
      (fun stopped => (w.bind = none ∨ w.accept = none) ∧
        (.relay ∈ stopped.2.actions ↔ .relay ∈ s.actions) ∧
        (replies stopped.2.actions).length ≤ (replies s.actions).length + 1) := by
  unfold bind
  cases bound : w.bind with
  | none => exact ⟨Or.inl rfl, Iff.rfl, Nat.le_add_right _ _⟩
  | some port =>
      simp only
      cases accepted : w.accept with
      | none => exact ⟨Or.inr rfl, by simp [reply, act], by simp [reply, act]⟩
      | some peer =>
          refine ⟨port, peer, rfl, rfl, ?_, rfl⟩
          simp [reply, act, first, granted]

end Commands

/-- What a client may expect of a run that begins in `s` and ends in `final`. -/
structure ReplyProtocol (w : World) (s final : Session) : Prop where
  connect : s.header.command = socks4CmdConnect → ∃ answer,
    replies final.actions = [answer] ∧ answer.length = 8 ∧
    ((∃ ep, Permitted w s ep ∧ w.connect ep) ∧ replyCode answer = socks4ReplyGranted ∨
      (¬ ∃ ep, Permitted w s ep ∧ w.connect ep) ∧ replyCode answer = socks4ReplyRejected)
  bind : s.header.command = socks4CmdBind → (∃ ep, Permitted w s ep) →
    ∃ first second peer, replies final.actions = [first, second] ∧
      first.length = 8 ∧ replyCode first = socks4ReplyGranted ∧
      second.length = 8 ∧ replyCode second = socks4ReplyGranted ∧
      [.write first, .accept peer, .write second].Sublist final.actions
  refused : (s.header.command ≠ socks4CmdConnect ∧ s.header.command ≠ socks4CmdBind ∨
      ¬ ∃ ep, Permitted w s ep) → ∃ answer,
    replies final.actions = [answer] ∧ answer.length = 8 ∧ replyCode answer = socks4ReplyRejected
  relay : .relay ∈ final.actions →
    ∃ answer ∈ replies final.actions, replyCode answer = socks4ReplyGranted

/-- The request is decoded and checked, and a permitted one is a CONNECT that succeeds or a BIND
whose calls succeed. -/
def Answered (w : World) (s : Session) : Prop :=
  ∃ ep permit, s.verdict w = some (ep, permit) ∧
    (permit = false ∨ s.header.command = socks4CmdConnect ∧ w.connect ep ∨
      s.header.command = socks4CmdBind ∧ w.bind ≠ none ∧ w.accept ≠ none)

section Runs

variable {w : World} {s s' : Session} {ep : Endpoint}

/-- No reply is wrong for every request. -/
theorem no_reply {final : Session} (none : replies final.actions = [])
    (never : ¬ s.Answered w) : ReplyProtocol w s final ↔ s.Answered w := by
  refine iff_of_false ?_ never
  intro protocol
  by_cases connects : s.header.command = socks4CmdConnect
  · obtain ⟨answer, one, -⟩ := protocol.connect connects
    rw [none] at one
    cases one
  · by_cases permitted : s.header.command = socks4CmdBind ∧ ∃ ep, Permitted w s ep
    · obtain ⟨first, second, peer, two, -⟩ := protocol.bind permitted.1 permitted.2
      rw [none] at two
      cases two
    · have refused : s.header.command ≠ socks4CmdConnect ∧ s.header.command ≠ socks4CmdBind ∨
          ¬ ∃ ep, Permitted w s ep := by
        by_cases binds : s.header.command = socks4CmdBind
        · exact Or.inr (fun permit => permitted ⟨binds, permit⟩)
        · exact Or.inl ⟨connects, binds⟩
      obtain ⟨answer, one, -⟩ := protocol.refused refused
      rw [none] at one
      cases one

theorem Permitted.unique {ep' : Endpoint} {permit : Bool} (permitted : Permitted w s ep)
    (verdict : s.verdict w = some (ep', permit)) : ep' = ep ∧ permit = true := by
  rw [Permitted, verdict] at permitted
  cases permitted
  exact ⟨rfl, rfl⟩

theorem reject_protocol (silent : replies s'.actions = []) (still : .relay ∉ s'.actions)
    (verdict : s.verdict w = some (ep, false)) :
    ReplyProtocol w s s'.reject ↔ s.Answered w := by
  have one : replies s'.reject.actions = [Socks4Header.store ⟨0, socks4ReplyRejected, 0, 0⟩] := by
    simp [reject, act, silent]
  have never : ¬ ∃ ep, Permitted w s ep := by
    intro permitted
    obtain ⟨ep', permitted⟩ := permitted
    cases (permitted.unique verdict).2
  refine iff_of_true ⟨?_, ?_, ?_, ?_⟩ ⟨ep, false, verdict, Or.inl rfl⟩
  · intro _
    refine ⟨_, one, Socks4Header.store_length _, Or.inr ⟨?_, rfl⟩⟩
    intro permitted
    obtain ⟨ep', permitted, -⟩ := permitted
    exact never ⟨ep', permitted⟩
  · intro _ permitted
    exact absurd permitted never
  · intro _
    exact ⟨_, one, Socks4Header.store_length _, rfl⟩
  · intro relayed
    simp [reject, act, still] at relayed

theorem connect_protocol (first : s'.hdr = none) (silent : replies s'.actions = [])
    (permitted : Permitted w s ep) (command : s.header.command = socks4CmdConnect) :
    ReplyProtocol w s (s'.connect w ep).relayTraffic ↔ s.Answered w := by
  obtain ⟨answers, -⟩ := connect_spec w ep first
  rw [silent, List.nil_append] at answers
  cases connected : w.connect ep with
  | false =>
      refine no_reply (by simp [relayTraffic, act, answers, connected]) ?_
      intro answered
      obtain ⟨ep', permit, verdict, cause⟩ := answered
      obtain ⟨rfl, rfl⟩ := permitted.unique verdict
      rcases cause with refused | ⟨-, connected'⟩ | ⟨binds, -⟩
      · cases refused
      · rw [connected] at connected'
        cases connected'
      · rw [command] at binds
        cases binds
  | true =>
      have one : replies (s'.connect w ep).relayTraffic.actions = [granted 0] := by
        simp [relayTraffic, act, answers, connected]
      refine iff_of_true ⟨?_, ?_, ?_, ?_⟩
        ⟨ep, true, permitted, Or.inr (Or.inl ⟨command, connected⟩)⟩
      · intro _
        exact ⟨_, one, granted_length 0, Or.inl ⟨⟨ep, permitted, connected⟩, granted_code 0⟩⟩
      · intro binds
        rw [command] at binds
        cases binds
      · intro refused
        rcases refused with ⟨other, -⟩ | never
        · exact absurd command other
        · exact absurd ⟨ep, permitted⟩ never
      · intro _
        exact ⟨_, by rw [one]; exact List.mem_singleton.mpr rfl, granted_code 0⟩

theorem bind_protocol (first : s'.hdr = none) (silent : replies s'.actions = [])
    (permitted : Permitted w s ep)
    (command : s.header.command = socks4CmdBind) :
    ReplyProtocol w s (ended (s'.bind w >>= fun s => .ok s.relayTraffic)) ↔ s.Answered w := by
  have spec := bind_spec (w := w) first
  have other : s.header.command ≠ socks4CmdConnect := by
    rw [command]
    decide
  cases bound : s'.bind w with
  | error stopped =>
      rw [bound] at spec
      obtain ⟨failed, relayed, few⟩ := spec
      rw [silent, List.length_nil, zero_add] at few
      refine iff_of_false ?_ ?_
      · intro protocol
        obtain ⟨first, second, peer, two, -⟩ := protocol.bind command ⟨ep, permitted⟩
        change replies stopped.2.actions = [first, second] at two
        rw [two] at few
        simp at few
      · intro answered
        obtain ⟨ep', permit, verdict, cause⟩ := answered
        obtain ⟨rfl, rfl⟩ := permitted.unique verdict
        rcases cause with refused | ⟨connects, -⟩ | ⟨-, bound', accepted⟩
        · cases refused
        · exact other connects
        · rcases failed with failed | failed
          · exact bound' failed
          · exact accepted failed
  | ok s'' =>
      rw [bound] at spec
      obtain ⟨port, peer, bound', accepted, actions, -⟩ := spec
      have two : replies s''.relayTraffic.actions = [granted port, granted port] := by
        simp [relayTraffic, act, actions, silent]
      refine iff_of_true ⟨?_, ?_, ?_, ?_⟩ ⟨ep, true, permitted, Or.inr (Or.inr
        ⟨command, by simp [bound'], by simp [accepted]⟩)⟩
      · intro connects
        exact absurd connects other
      · intro _ _
        refine ⟨_, _, peer, two, granted_length port, granted_code port, granted_length port,
          granted_code port, ?_⟩
        change List.Sublist _ (s''.actions ++ [.relay])
        rw [actions, List.append_assoc]
        exact (List.sublist_append_left _ _).trans (List.sublist_append_right _ _)
      · intro refused
        rcases refused with ⟨-, other'⟩ | never
        · exact absurd command other'
        · exact absurd ⟨ep, permitted⟩ never
      · intro _
        exact ⟨granted port, by
          change _ ∈ replies s''.relayTraffic.actions
          rw [two]
          exact List.mem_cons_self, granted_code port⟩

theorem handleCommand_protocol (quiet : Quiet s s') (first : s.hdr = none)
    (silent : replies s.actions = []) (permitted : Permitted w s ep) :
    ReplyProtocol w s (ended (s'.handleCommand w s.header.command ep)) ↔ s.Answered w := by
  have quiet' := quiet.trans (.print s' "<Reply>: Accept\n".toList)
  have first' := quiet'.hdr.trans first
  have silent' := quiet'.replies.trans silent
  unfold handleCommand
  by_cases connects : s.header.command = socks4CmdConnect
  · simp only [if_pos connects]
    exact connect_protocol first' silent' permitted connects
  · by_cases binds : s.header.command = socks4CmdBind
    · simp only [if_neg connects, if_pos binds]
      exact bind_protocol first' silent' permitted binds
    · simp only [if_neg connects, if_neg binds]
      refine no_reply silent' ?_
      intro answered
      obtain ⟨ep', permit, verdict, cause⟩ := answered
      obtain ⟨rfl, rfl⟩ := permitted.unique verdict
      rcases cause with refused | ⟨connects', -⟩ | ⟨binds', -⟩
      · cases refused
      · exact connects connects'
      · exact binds binds'

end Runs

/-- Every request on a new connection is answered as the protocol asks exactly when it is refused
or the calls made for it succeed. -/
theorem replies_iff (w : World) (remoteSendBuffer remoteRecvBuffer : Buffer)
    (received : List UInt8) :
    let s := (fresh remoteSendBuffer remoteRecvBuffer).receive received
    ReplyProtocol w s (ended (s.handleRead w)) ↔ s.Answered w := by
  intro s
  have ran := handleRead_ran w s
  generalize ended (s.handleRead w) = final at ran
  cases ran with
  | cut _ unknown quiet =>
      refine no_reply quiet.replies ?_
      intro answered
      obtain ⟨ep, permit, verdict, -⟩ := answered
      cases unknown.symm.trans verdict
  | refused s' ep verdict quiet =>
      exact reject_protocol quiet.replies (mt quiet.relay.mp List.not_mem_nil) verdict
  | accepted s' ep permitted quiet =>
      exact handleCommand_protocol quiet rfl rfl permitted

/-- The destination refuses the connection. -/
def refusingWorld : World := { permittingWorld with connect := fun _ => false }

theorem connect_unanswered :
    ¬ ReplyProtocol refusingWorld
      ((fresh .zeros .zeros).receive (connectRequest ⟨0x8C710001, 80⟩))
      (ended (handleRead refusingWorld
        ((fresh .zeros .zeros).receive (connectRequest ⟨0x8C710001, 80⟩)))) := by
  intro protocol
  have none : replies (ended (handleRead refusingWorld
      ((fresh .zeros .zeros).receive (connectRequest ⟨0x8C710001, 80⟩)))).actions = [] := by
    decide +kernel
  have command := congrArg Socks4Header.command
    (load_connectRequest ⟨0x8C710001, 80⟩ (fresh .zeros .zeros))
  obtain ⟨answer, one, -⟩ := protocol.connect command
  rw [none] at one
  cases one

section Peers

variable {w : World} {s s' : Session} {ep : Endpoint}

end Peers

end Session

end NetProg
