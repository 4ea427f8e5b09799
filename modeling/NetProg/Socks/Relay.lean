import NetProg.Socks.Replies

/-!
# The relay

`asyncReadWrite` and its two users, after a granted CONNECT.  What a step reads goes through an
array and into one `write_some`; what that call does not take is never written.  Bytes that came
with the request stay in the array, which the first relayed read overwrites.
-/

namespace NetProg

/-- One direction of the relay: what its reading end has still to deliver, what was written at
the other end, and whether `shutdown_send` was called there. -/
structure Flow where
  unread : List UInt8
  written : List UInt8
  finished : Bool
  deriving DecidableEq

/-- What one call of the handler in `asyncReadWrite` finds: `read_some` gives `read` bytes of which
`write_some` takes `wrote`, or the end of the stream. -/
inductive Transfer where
  | copy (read wrote : Nat)
  | eof
  deriving DecidableEq

/-- The body of the handler (`np_project4/socks4server/socks4_handler.cpp:109-126`). -/
def asyncReadWrite (flow : Flow) (buffer : Buffer) : Transfer → Option (Flow × Buffer)
  | .copy read wrote =>
      if flow.finished = false ∧ 1 ≤ wrote ∧ wrote ≤ read ∧ read ≤ bufferSize ∧
          read ≤ flow.unread.length then
        let buffer := buffer.fill (flow.unread.take read)
        let given := buffer.bytes.take read
        some (⟨flow.unread.drop read, flow.written ++ given.take wrote, false⟩, buffer)
      else none
  | .eof => if flow.finished = false ∧ flow.unread = [] then
      some (⟨[], flow.written, true⟩, buffer) else none

/-- The two directions on the arrays of the session. -/
structure Relay where
  session : Session
  /-- client to remote host -/
  upload : Flow
  /-- remote host to client -/
  download : Flow

/-- Which of the two handlers runs. -/
inductive RelayEvent where
  | readRemote (transfer : Transfer)
  | writeRemote (transfer : Transfer)
  deriving DecidableEq

namespace RelayEvent

def transfer : RelayEvent → Transfer
  | .readRemote transfer => transfer
  | .writeRemote transfer => transfer

/-- `write_some` takes everything it is given. -/
def Whole (event : RelayEvent) : Prop :=
  ∀ read wrote, event.transfer = .copy read wrote → wrote = read

end RelayEvent

namespace Relay

/-- `readRemote` (`np_project4/socks4server/socks4_handler.cpp:128-134`). -/
def step (r : Relay) : RelayEvent → Option Relay
  | .readRemote transfer =>
      match asyncReadWrite r.download r.session.remoteRecvBuffer transfer with
      | none => none
      | some (download, remoteRecvBuffer) =>
          some { r with download, session := { r.session with remoteRecvBuffer } }
  | .writeRemote transfer =>
      match asyncReadWrite r.upload r.session.remoteSendBuffer transfer with
      | none => none
      | some (upload, remoteSendBuffer) =>
          some { r with upload, session := { r.session with remoteSendBuffer } }

/-- `relayTraffic` (`np_project4/socks4server/socks4_handler.cpp:136-139`). -/
def run (r : Relay) : List RelayEvent → Option Relay
  | [] => some r
  | event :: events => (r.step event).bind (fun r => run r events)

/-- The relay of a connection whose first `read_some` returned `first` of the bytes that the client
sends, if they were a CONNECT request that was granted. -/
def start (w : World) (s : Session) (first : Nat) (clientSent remoteSent : List UInt8) :
    Option Relay :=
  let s := s.receive (clientSent.take first)
  match s.handleRead w with
  | .error _ => none
  | .ok s' =>
      if s.header.command = socks4CmdConnect ∧ .relay ∈ s'.actions ∧
          (replies s'.actions).map replyCode = [socks4ReplyGranted] then
        some ⟨s', ⟨clientSent.drop first, [], false⟩, ⟨remoteSent, [], false⟩⟩
      else none

end Relay

/-- A direction has delivered a beginning of what was sent, and all of it once it is shut down. -/
def Flow.Delivers (flow : Flow) (sent : List UInt8) : Prop :=
  flow.written <+: sent ∧ (flow.finished = true → flow.written = sent)

/-- Nothing is lost between what was written and what is still to be read. -/
def Flow.Complete (flow : Flow) (sent : List UInt8) : Prop :=
  flow.written ++ flow.unread = sent ∧ (flow.finished = true → flow.unread = [])

theorem Flow.Complete.delivers {flow : Flow} {sent : List UInt8} (h : flow.Complete sent) :
    flow.Delivers sent := by
  obtain ⟨whole, finished⟩ := h
  refine ⟨⟨flow.unread, whole⟩, ?_⟩
  intro done
  rw [finished done, List.append_nil] at whole
  exact whole

/-- A step whose write is whole keeps a direction complete. -/
theorem asyncReadWrite_complete {flow flow' : Flow} {buffer buffer' : Buffer}
    {transfer : Transfer} {sent : List UInt8} (h : flow.Complete sent)
    (whole : ∀ read wrote, transfer = .copy read wrote → wrote = read)
    (stepped : asyncReadWrite flow buffer transfer = some (flow', buffer')) :
    flow'.Complete sent := by
  obtain ⟨all, -⟩ := h
  cases transfer with
  | copy read wrote =>
      obtain rfl := whole read wrote rfl
      simp only [asyncReadWrite, Option.ite_none_right_eq_some, Option.some.injEq,
        Prod.mk.injEq] at stepped
      obtain ⟨⟨-, -, -, fits, available⟩, rfl, -⟩ := stepped
      have length : (flow.unread.take wrote).length = wrote := by
        rw [List.length_take]
        omega
      have given : ((buffer.fill (flow.unread.take wrote)).bytes.take wrote) =
          flow.unread.take wrote := by
        rw [Buffer.fill_bytes _ (by omega)]
        exact List.take_left' length
      refine ⟨?_, by simp⟩
      rw [given, List.take_take, Nat.min_self, List.append_assoc, List.take_append_drop]
      exact all
  | eof =>
      simp only [asyncReadWrite, Option.ite_none_right_eq_some, Option.some.injEq,
        Prod.mk.injEq] at stepped
      obtain ⟨⟨-, empty⟩, rfl, -⟩ := stepped
      rw [empty] at all
      exact ⟨all, fun _ => rfl⟩

namespace Relay

variable {r r' : Relay} {clientData remoteData : List UInt8}

/-- Both directions are complete. -/
def Complete (r : Relay) (clientData remoteData : List UInt8) : Prop :=
  r.upload.Complete clientData ∧ r.download.Complete remoteData

theorem step_complete {event : RelayEvent} (h : r.Complete clientData remoteData)
    (whole : event.Whole) (stepped : r.step event = some r') :
    r'.Complete clientData remoteData := by
  obtain ⟨up, down⟩ := h
  cases event with
  | readRemote transfer =>
      simp only [step] at stepped
      cases done : asyncReadWrite r.download r.session.remoteRecvBuffer transfer with
      | none =>
          rw [done] at stepped
          cases stepped
      | some result =>
          rw [done] at stepped
          cases stepped
          exact ⟨up, asyncReadWrite_complete down whole done⟩
  | writeRemote transfer =>
      simp only [step] at stepped
      cases done : asyncReadWrite r.upload r.session.remoteSendBuffer transfer with
      | none =>
          rw [done] at stepped
          cases stepped
      | some result =>
          rw [done] at stepped
          cases stepped
          exact ⟨asyncReadWrite_complete up whole done, down⟩

theorem run_complete {events : List RelayEvent} (h : r.Complete clientData remoteData)
    (whole : ∀ event ∈ events, event.Whole) (ran : r.run events = some r') :
    r'.Complete clientData remoteData := by
  induction events generalizing r with
  | nil =>
      cases ran
      exact h
  | cons event events ih =>
      obtain ⟨next, stepped, rest⟩ := Option.bind_eq_some_iff.mp ran
      exact ih (step_complete h (whole event List.mem_cons_self) stepped)
        (fun event' member => whole event' (List.mem_cons_of_mem _ member)) rest

end Relay

/-- The bytes of one SOCKS4 or SOCKS4A request. -/
inductive SocksRequest : List UInt8 → Prop
  | socks4 (hdr : Socks4Header) (userid : List UInt8) (named : ¬ Nameless (ntohl hdr.dstaddr))
      (useridPlain : 0 ∉ userid) : SocksRequest (hdr.store ++ (userid ++ [0]))
  | socks4a (r : Socks4aRequest) : SocksRequest r.bytes

/-- What a client sends: its request, and then data. -/
structure ClientStream where
  request : List UInt8
  data : List UInt8
  isRequest : SocksRequest request

def ClientStream.sent (client : ClientStream) : List UInt8 := client.request ++ client.data

theorem Relay.start_spec {w : World} {s : Session} {first : Nat} {clientSent remoteSent : List UInt8}
    {r : Relay} (started : Relay.start w s first clientSent remoteSent = some r) :
    r.upload = ⟨clientSent.drop first, [], false⟩ ∧ r.download = ⟨remoteSent, [], false⟩ := by
  simp only [Relay.start] at started
  split at started
  · cases started
  · split at started
    · cases started
      exact ⟨rfl, rfl⟩
    · cases started

/-- When the first read returns the request alone and every write is whole, both streams arrive. -/
theorem relay_delivers {w : World} {s : Session} {first : Nat} {client : ClientStream}
    {remoteSent : List UInt8} {r r' : Relay} {events : List RelayEvent}
    (started : Relay.start w s first client.sent remoteSent = some r)
    (ran : r.run events = some r') (alone : first = client.request.length)
    (whole : ∀ event ∈ events, event.Whole) :
    r'.upload.Delivers client.data ∧ r'.download.Delivers remoteSent := by
  obtain ⟨upload, download⟩ := Relay.start_spec started
  have rest : client.sent.drop first = client.data := List.drop_left' alone.symm
  have complete : r.Complete client.data remoteSent := by
    rw [Relay.Complete, upload, download, rest]
    exact ⟨⟨rfl, by simp⟩, ⟨rfl, by simp⟩⟩
  obtain ⟨up, down⟩ := Relay.run_complete complete whole ran
  exact ⟨up.delivers, down.delivers⟩

/-- The request of the console for 140.113.0.1, and the data `hi`. -/
def eagerClient : ClientStream where
  request := connectRequest ⟨0x8C710001, 80⟩
  data := [104, 105]
  isRequest := .socks4 ⟨4, 1, htons 80, htonl 0x8C710001⟩ [77, 69, 79, 87] (by decide) (by decide)

/-- `hi` is read and written on its own after the request. -/
theorem relay_delivers_hi : ∃ r r',
    Relay.start permittingWorld (.fresh .zeros .zeros) 13 eagerClient.sent [] = some r ∧
    r.run [.writeRemote (.copy 2 2), .writeRemote .eof] = some r' ∧
    r'.upload.Delivers eagerClient.data ∧ r'.download.Delivers [] := by
  have started : (Relay.start permittingWorld (.fresh .zeros .zeros) 13 eagerClient.sent
      []).isSome := by decide +kernel
  obtain ⟨r, started⟩ := Option.isSome_iff_exists.mp started
  have upload := (Relay.start_spec started).1
  obtain ⟨r', ran⟩ : ∃ r', r.run [.writeRemote (.copy 2 2), .writeRemote .eof] = some r' := by
    simp only [Relay.run, Relay.step, asyncReadWrite, upload]
    exact ⟨_, rfl⟩
  have whole : ∀ event ∈ [RelayEvent.writeRemote (.copy 2 2), .writeRemote .eof], event.Whole := by
    intro event member
    rcases List.mem_pair.mp member with rfl | rfl
    · rintro _ _ ⟨⟩
      rfl
    · rintro _ _ ⟨⟩
  exact ⟨r, r', started, ran, relay_delivers started ran (by decide) whole⟩

/-- `hi` comes with the request, and the client closes its side: nothing reaches the remote
host. -/
theorem early_data_lost : ∃ r r',
    Relay.start permittingWorld (.fresh .zeros .zeros) 15 eagerClient.sent [] = some r ∧
    r.run [.writeRemote .eof] = some r' ∧ ¬ r'.upload.Delivers eagerClient.data := by
  have started : (Relay.start permittingWorld (.fresh .zeros .zeros) 15 eagerClient.sent
      []).isSome := by decide +kernel
  obtain ⟨r, started⟩ := Option.isSome_iff_exists.mp started
  have upload := (Relay.start_spec started).1
  refine ⟨r, { r with upload := ⟨[], [], true⟩ }, started, ?_, ?_⟩
  · simp only [Relay.run, Relay.step, asyncReadWrite, upload]
    rfl
  · intro delivers
    cases delivers.2 rfl

end NetProg
