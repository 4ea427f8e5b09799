import NetProg.Lib.Regex
import NetProg.Socks.Header

/-!
# SOCKS requests

`Socks4Handler::resolveEndpoint`, which takes the destination out of the bytes of the first read,
and `CGI::Application::connectProxy`, which builds such bytes.  The resolver is not part of the
repository: `World` stands for what it and the other calls of a run answer.
-/

namespace NetProg

/-- `BUFFER_SIZE` (`np_project4/socks4server/socks4_handler.hpp:9`). -/
def bufferSize : Nat := 1024

/-- `std::array<char, BUFFER_SIZE>`. -/
structure Buffer where
  bytes : List UInt8
  size : bytes.length = bufferSize

namespace Buffer

/-- An array of zeros. -/
def zeros : Buffer := ⟨List.replicate bufferSize 0, List.length_replicate⟩

/-- `read_some(buffer)`: the bytes that came, over the first ones of the array. -/
def fill (b : Buffer) (received : List UInt8) : Buffer where
  bytes := received.take bufferSize ++ b.bytes.drop received.length
  size := by
    have whole := b.size
    rw [List.length_append, List.length_take, List.length_drop]
    omega

theorem fill_bytes (b : Buffer) {received : List UInt8} (fits : received.length ≤ bufferSize) :
    (b.fill received).bytes = received ++ b.bytes.drop received.length := by
  have whole := List.take_of_length_le fits
  exact congrArg (· ++ b.bytes.drop received.length) whole

/-- `std::string(data + offset)`; without a NUL it reads past the end of the array. -/
def cStringAt (b : Buffer) (offset : Nat) : Option (List UInt8) :=
  let data := b.bytes.drop offset
  if 0 ∈ data then some (data.takeWhile (· ≠ 0)) else none

/-- A string that was written with its NUL is read back. -/
theorem cStringAt_eq {b : Buffer} {offset : Nat} {before string rest : List UInt8}
    (split : b.bytes = before ++ (string ++ 0 :: rest)) (length : before.length = offset)
    (plain : 0 ∉ string) : b.cStringAt offset = some string := by
  have data : b.bytes.drop offset = string ++ 0 :: rest := by
    rw [split]
    exact List.drop_left' length
  have stop : (string ++ 0 :: rest).takeWhile (· ≠ 0) = string := by
    rw [List.takeWhile_append_of_pos]
    · simp
    · intro c member
      have nonzero : c ≠ 0 := by
        rintro rfl
        exact plain member
      simpa using nonzero
  rw [cStringAt, data, if_pos (by simp), stop]

end Buffer

/-- What a run of the handler does on the outside. -/
inductive Action where
  | resolve (domainName : List UInt8) (service : Text)
  | print (text : Text)
  | write (bytes : List UInt8)
  | connect (ep : Endpoint)
  | accept (peer : Endpoint)
  | shutdown
  | relay
  deriving DecidableEq, Repr

/-- What the calls of one run answer; `none` is an exception or, for `connect`, an error code. -/
structure World where
  /-- the first endpoint that the resolver finds -/
  resolve : List UInt8 → Text → Option Endpoint
  /-- the text of `socks.conf`, if the file can be opened -/
  conf : Option Text
  /-- `std::regex_match(text, std::regex(pattern))` -/
  regexMatch : Text → Text → Option Bool
  connect : Endpoint → Bool
  /-- the port after `open`, `bind` and `listen` -/
  bind : Option UInt16
  /-- the host that connects to the bound port -/
  accept : Option Endpoint
  /-- `localSocket.remote_endpoint()` -/
  client : Endpoint

/-- The members of `Socks4Handler`, with the `static` header of `reply`
(`np_project4/socks4server/socks4_handler.hpp:16-50`). -/
structure Session where
  remoteSendBuffer : Buffer
  remoteRecvBuffer : Buffer
  hdr : Option Socks4Header
  /-- the host at the other end of `remoteSocket` -/
  remoteSocket : Option Endpoint
  actions : List Action

/-- A handler that has just been made, on uninitialised arrays. -/
def Session.fresh (remoteSendBuffer remoteRecvBuffer : Buffer) : Session :=
  ⟨remoteSendBuffer, remoteRecvBuffer, none, none, []⟩

/-- How a run is cut off: by an exception, or by a read outside an array. -/
inductive Thrown where
  | systemError
  | regexError
  | undefined
  deriving DecidableEq, Repr

/-- A step of the handler; an exception leaves the session as it was when it was thrown. -/
abbrev Handled (α : Type) := Except (Thrown × Session) α

/-- One more action. -/
def Session.act (s : Session) (action : Action) : Session :=
  { s with actions := s.actions ++ [action] }

/-- `localSocket.read_some(asio::buffer(remoteSendBuffer))`
(`np_project4/socks4server/socks4_handler.cpp:8-15`). -/
def Session.receive (s : Session) (received : List UInt8) : Session :=
  { s with remoteSendBuffer := s.remoteSendBuffer.fill received }

/-- The regular expression `0\.0\.0\.[1-9][0-9]{0,2}`
(`np_project4/socks4server/socks4_util.hpp:13`). -/
def socks4a : RegularExpression Char :=
  Regex.literal "0.0.0.".toList *
    (Regex.oneOf "123456789".toList * Regex.upTo 2 (Regex.oneOf "0123456789".toList))

/-- `Socks4Handler::resolveEndpoint` (`np_project4/socks4server/socks4_handler.cpp:41-59`). -/
def resolveEndpoint (w : World) (hdr : Socks4Header) (s : Session) : Handled (Endpoint × Session) :=
  let addr := ntohl hdr.dstaddr
  if socks4a.rmatch (dotted addr) then
    match s.remoteSendBuffer.cStringAt Socks4Header.size with
    | none => .error (.undefined, s)
    | some userid =>
        match s.remoteSendBuffer.cStringAt (Socks4Header.size + userid.length + 1) with
        | none => .error (.undefined, s)
        | some domainName =>
            let service := Text.decimal (ntohs hdr.dstport).toNat
            let s := s.act (.resolve domainName service)
            match w.resolve domainName service with
            | none => .error (.systemError, s)
            | some remoteEndpoint => .ok (remoteEndpoint, s)
  else .ok (⟨addr, ntohs hdr.dstport⟩, s)

/-- The request that `connectProxy` writes for an endpoint: the header laid over an array
(`np_project4/cgiserver/cgi_application.cpp:66-86`). -/
def connectRequest (ep : Endpoint) : List UInt8 :=
  let socks4Request : List UInt8 := [4, 1, 0, 0, 0, 0, 0, 0, 77, 69, 79, 87, 0]
  let hdr := Socks4Header.load socks4Request
  let hdr := { hdr with dstport := htons ep.port }
  let hdr := { hdr with dstaddr := htonl ep.address }
  hdr.store ++ socks4Request.drop Socks4Header.size

/-- The address is 0.0.0.x with x not 0: the client leaves the name to the proxy. -/
def Nameless (address : UInt32) : Prop := 1 ≤ address.toNat ∧ address.toNat ≤ 255

instance (address : UInt32) : Decidable (Nameless address) := by
  unfold Nameless
  infer_instance

/-- Which characters a number below 256 is printed with. -/
theorem decimal_octet (o : Fin 256) :
    '.' ∉ Text.decimal o.val ∧ (∀ c ∈ Text.decimal o.val, c ∈ "0123456789".toList) ∧
      (Text.decimal o.val).length ≤ 3 ∧ (Text.decimal o.val = ['0'] ↔ o = 0) ∧
      ((Text.decimal o.val).head?.any (· ∈ "123456789".toList) ↔ o ≠ 0) := by
  have digits : ∀ o : Fin 256,
      ((Text.decimal o.val).all fun c => decide (c ∈ "0123456789".toList)) = true := by
    decide +kernel
  have rest : ∀ o : Fin 256, '.' ∉ Text.decimal o.val ∧ (Text.decimal o.val).length ≤ 3 ∧
      (Text.decimal o.val = ['0'] ↔ o = 0) ∧
      ((Text.decimal o.val).head?.any (· ∈ "123456789".toList) ↔ o ≠ 0) := by
    decide +kernel
  have member : ∀ c ∈ Text.decimal o.val, c ∈ "0123456789".toList := fun c inside =>
    of_decide_eq_true (List.all_eq_true.mp (digits o) c inside)
  exact ⟨(rest o).1, member, (rest o).2⟩

theorem mem_socks4a (x : Text) : x ∈ socks4a.matches' ↔
    ∃ y, x = "0.0.0.".toList ++ y ∧ y.head?.any (· ∈ "123456789".toList) ∧ y.length ≤ 3 ∧
      ∀ c ∈ y.tail, c ∈ "0123456789".toList := by
  simp only [socks4a, RegularExpression.matches'_mul, Language.mem_mul, Regex.mem_literal,
    Regex.mem_oneOf, Regex.mem_upTo_oneOf]
  constructor
  · intro parts
    obtain ⟨_, rfl, _, ⟨_, ⟨d, first, rfl⟩, rest, ⟨short, digits⟩, rfl⟩, rfl⟩ := parts
    exact ⟨d :: rest, rfl, decide_eq_true first, Nat.succ_le_succ short, digits⟩
  · intro parts
    obtain ⟨y, rfl, leading, short, digits⟩ := parts
    cases y with
    | nil => cases leading
    | cons d rest =>
        exact ⟨_, rfl, d :: rest, ⟨[d], ⟨d, of_decide_eq_true leading, rfl⟩, rest,
          ⟨Nat.le_of_succ_le_succ short, digits⟩, rfl⟩, rfl⟩

/-- The pattern recognises exactly the addresses without a name. -/
theorem socks4a_dotted (address : UInt32) :
    socks4a.rmatch (dotted address) = true ↔ Nameless address := by
  have sum := octet_sum address
  have last := (octet address 3).isLt
  have zero : ∀ i, octet address i = 0 ↔ (octet address i).val = 0 := fun i => Fin.ext_iff
  have dotless : ∀ i, '.' ∉ Text.decimal (octet address i).val := fun i =>
    (decimal_octet (octet address i)).1
  have only : ∀ i, Text.decimal (octet address i).val = ['0'] ↔ (octet address i).val = 0 :=
    fun i => (decimal_octet (octet address i)).2.2.2.1.trans (zero i)
  obtain ⟨-, digits, short, -, leading⟩ := decimal_octet (octet address 3)
  rw [Ne, zero] at leading
  rw [RegularExpression.rmatch_iff_matches', mem_socks4a]
  unfold Nameless
  constructor
  · intro parts
    obtain ⟨y, same, first, -, -⟩ := parts
    have split : dotted address = ['0'] ++ '.' :: (['0'] ++ '.' :: (['0'] ++ '.' :: y)) := same
    obtain ⟨first₀, split⟩ := Text.split_unique (dotless 0) (by decide) split
    obtain ⟨first₁, split⟩ := Text.split_unique (dotless 1) (by decide) split
    obtain ⟨first₂, split⟩ := Text.split_unique (dotless 2) (by decide) split
    have zero₀ := (only 0).mp first₀
    have zero₁ := (only 1).mp first₁
    have zero₂ := (only 2).mp first₂
    have positive := leading.mp (split ▸ first)
    omega
  · intro nameless
    have zero₀ := (only 0).mpr (by omega)
    have zero₁ := (only 1).mpr (by omega)
    have zero₂ := (only 2).mpr (by omega)
    refine ⟨Text.decimal (octet address 3).val, ?_, leading.mpr (by omega), short, ?_⟩
    · rw [dotted, zero₀, zero₁, zero₂]
      rfl
    · intro c member
      exact digits c (List.mem_of_mem_tail member)

/-- A SOCKS4A request: the header with an address 0.0.0.x, a user id and a domain name, each with
its NUL. -/
structure Socks4aRequest where
  version : UInt8
  command : UInt8
  port : UInt16
  address : UInt32
  userid : List UInt8
  domainName : List UInt8
  nameless : Nameless address
  useridPlain : 0 ∉ userid
  domainPlain : 0 ∉ domainName

namespace Socks4aRequest

def header (r : Socks4aRequest) : Socks4Header :=
  ⟨r.version, r.command, htons r.port, htonl r.address⟩

/-- The bytes of the request. -/
def bytes (r : Socks4aRequest) : List UInt8 :=
  r.header.store ++ (r.userid ++ 0 :: (r.domainName ++ [0]))

/-- `resolveEndpoint` asks for the domain name and the port, and does as the resolver says. -/
theorem resolves (r : Socks4aRequest) (w : World) (s : Session) (fits : r.bytes.length ≤ bufferSize) :
    resolveEndpoint w r.header (s.receive r.bytes) =
      match w.resolve r.domainName (Text.decimal r.port.toNat) with
      | none => .error (.systemError,
          (s.receive r.bytes).act (.resolve r.domainName (Text.decimal r.port.toNat)))
      | some ep => .ok (ep,
          (s.receive r.bytes).act (.resolve r.domainName (Text.decimal r.port.toNat))) := by
  have found : socks4a.rmatch (dotted (ntohl r.header.dstaddr)) = true := by
    rw [header, ntohl_htonl]
    exact (socks4a_dotted r.address).mpr r.nameless
  have port : ntohs r.header.dstport = r.port := ntohs_htons r.port
  have whole : (s.receive r.bytes).remoteSendBuffer.bytes = r.bytes ++ _ :=
    s.remoteSendBuffer.fill_bytes fits
  have userid : (s.receive r.bytes).remoteSendBuffer.cStringAt Socks4Header.size =
      some r.userid := by
    apply Buffer.cStringAt_eq _ r.header.store_length r.useridPlain
    · exact r.domainName ++ 0 :: s.remoteSendBuffer.bytes.drop r.bytes.length
    · rw [whole, bytes]
      simp only [List.append_assoc, List.cons_append, List.nil_append]
  have domain : (s.receive r.bytes).remoteSendBuffer.cStringAt
      (Socks4Header.size + r.userid.length + 1) = some r.domainName := by
    have length : (r.header.store ++ r.userid ++ [0]).length =
        Socks4Header.size + r.userid.length + 1 := by
      rw [List.length_append, List.length_append, Socks4Header.store_length, List.length_singleton]
    apply Buffer.cStringAt_eq _ length r.domainPlain
    · exact s.remoteSendBuffer.bytes.drop r.bytes.length
    · rw [whole, bytes]
      simp only [List.append_assoc, List.cons_append, List.nil_append]
  simp only [resolveEndpoint, found, if_true, userid, domain, port]

end Socks4aRequest

/-- The header at the front of what was received. -/
theorem load_connectRequest (ep : Endpoint) (s : Session) :
    Socks4Header.load (s.receive (connectRequest ep)).remoteSendBuffer.bytes =
      ⟨4, socks4CmdConnect, htons ep.port, htonl ep.address⟩ := by
  have fits : (connectRequest ep).length ≤ bufferSize := by
    rw [connectRequest, List.length_append, Socks4Header.store_length]
    decide
  have whole : (s.receive (connectRequest ep)).remoteSendBuffer.bytes = connectRequest ep ++ _ :=
    s.remoteSendBuffer.fill_bytes fits
  rw [whole, connectRequest, List.append_assoc, Socks4Header.load_store]
  rfl

/-- An address that has a name of its own is taken from the header. -/
theorem resolveEndpoint_address (w : World) (hdr : Socks4Header) (s : Session)
    (named : ¬ Nameless (ntohl hdr.dstaddr)) :
    resolveEndpoint w hdr s = .ok (⟨ntohl hdr.dstaddr, ntohs hdr.dstport⟩, s) := by
  rw [← socks4a_dotted] at named
  rw [resolveEndpoint, if_neg named]

/-- Decoding undoes encoding, for the requests of the console and for requests with a name. -/
theorem request_roundTrip :
    (∀ (w : World) (s : Session) (ep : Endpoint), ¬ Nameless ep.address →
      let s' := s.receive (connectRequest ep)
      let hdr := Socks4Header.load s'.remoteSendBuffer.bytes
      hdr.command = socks4CmdConnect ∧ resolveEndpoint w hdr s' = .ok (ep, s')) ∧
    (∀ (w : World) (s : Session) (r : Socks4aRequest), r.bytes.length ≤ bufferSize →
      let s' := s.receive r.bytes
      let hdr := Socks4Header.load s'.remoteSendBuffer.bytes
      let asked := s'.act (.resolve r.domainName (Text.decimal r.port.toNat))
      resolveEndpoint w hdr s' =
        match w.resolve r.domainName (Text.decimal r.port.toNat) with
        | none => .error (.systemError, asked)
        | some ep => .ok (ep, asked)) := by
  constructor
  · intro w s ep named
    simp only [load_connectRequest, true_and]
    rw [resolveEndpoint_address _ _ _ (by rw [ntohl_htonl]; exact named), ntohl_htonl, ntohs_htons]
  · intro w s r fits
    have whole : (s.receive r.bytes).remoteSendBuffer.bytes = r.bytes ++ _ :=
      s.remoteSendBuffer.fill_bytes fits
    have header : Socks4Header.load (s.receive r.bytes).remoteSendBuffer.bytes = r.header := by
      rw [whole, Socks4aRequest.bytes, List.append_assoc, Socks4Header.load_store]
    simp only [header]
    exact r.resolves w s fits

/-- The request of user `u` for the name `n` at port 80. -/
def shortRequest : Socks4aRequest :=
  ⟨4, 1, 80, 1, [117], [110], by decide, by decide, by decide⟩

/-- A world in which every name belongs to 140.113.0.1. -/
def quietWorld : World :=
  ⟨fun _ _ => some ⟨0x8C710001, 80⟩, none, fun _ _ => some true, fun _ => true, some 5000, none,
    ⟨0x7F000001, 5001⟩⟩

/-- The shipped `socks.conf` permits everything. -/
def permittingWorld : World :=
  { quietWorld with conf := some "permit c *.*.*.*\npermit b *.*.*.*\n".toList }

theorem request_roundTrip_short :
    resolveEndpoint quietWorld ⟨4, socks4CmdConnect, htons 80, htonl 0x8C710001⟩
        ((Session.fresh .zeros .zeros).receive (connectRequest ⟨0x8C710001, 80⟩)) =
      .ok (⟨0x8C710001, 80⟩,
        (Session.fresh .zeros .zeros).receive (connectRequest ⟨0x8C710001, 80⟩)) ∧
    resolveEndpoint quietWorld
        (Socks4Header.load
          ((Session.fresh .zeros .zeros).receive shortRequest.bytes).remoteSendBuffer.bytes)
        ((Session.fresh .zeros .zeros).receive shortRequest.bytes) =
      .ok (⟨0x8C710001, 80⟩,
        ((Session.fresh .zeros .zeros).receive shortRequest.bytes).act
          (.resolve [110] (Text.decimal 80))) := by
  constructor
  · have decoded := request_roundTrip.1 quietWorld (.fresh .zeros .zeros) ⟨0x8C710001, 80⟩ (by decide)
    simp only [load_connectRequest] at decoded
    exact decoded.2
  · exact request_roundTrip.2 quietWorld (.fresh .zeros .zeros) shortRequest (by decide)

end NetProg
