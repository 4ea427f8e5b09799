import NetProg.Lib.Outcome
import NetProg.Socks.Handler

/-!
# Which bytes of the buffer are used

The constructor leaves `remoteSendBuffer` uninitialised, and `handleRead` does not look at how many
bytes `read_some` returned.  `Tracked` is the same code on an array whose elements know whether
they were received: every use of another element faults, and a run without a fault is a run of the
handler.
-/

namespace NetProg

/-- An array; the elements that were not received have no value. -/
abbrev Cells := List (Option UInt8)

/-- What a use of the buffer can do wrong. -/
inductive Fault where
  | unreceived
  | outside
  deriving DecidableEq, Repr

/-- `remoteSendBuffer` after the first `read_some`. -/
def receivedCells (segment : List UInt8) : Cells :=
  segment.map some ++ List.replicate (bufferSize - segment.length) none

namespace Tracked

/-- The first `n` elements. -/
def array : Nat → Cells → Except Fault (List UInt8)
  | 0, _ => .ok []
  | _ + 1, [] => .error .outside
  | _ + 1, none :: _ => .error .unreceived
  | n + 1, some c :: cells => (array n cells).map (c :: ·)

/-- `std::string(data)`. -/
def cString : Cells → Except Fault (List UInt8)
  | [] => .error .outside
  | none :: _ => .error .unreceived
  | some c :: cells => if c = 0 then .ok [] else (cString cells).map (c :: ·)

/-- `resolveEndpoint`. -/
def resolveEndpoint (w : World) (hdr : Socks4Header) (cells : Cells) (s : Session) :
    Except Fault (Handled (Endpoint × Session)) :=
  let addr := ntohl hdr.dstaddr
  if socks4a.rmatch (dotted addr) then do
    let userid ← cString (cells.drop Socks4Header.size)
    let domainName ← cString (cells.drop (Socks4Header.size + userid.length + 1))
    let service := Text.decimal (ntohs hdr.dstport).toNat
    let s := s.act (.resolve domainName service)
    match w.resolve domainName service with
    | none => .ok (.error (.systemError, s))
    | some remoteEndpoint => .ok (.ok (remoteEndpoint, s))
  else .ok (.ok (⟨addr, ntohs hdr.dstport⟩, s))

/-- `handleRead` after `resolveEndpoint`, which uses the buffer no more. -/
def afterResolve (w : World) (hdr : Socks4Header) (resolved : Endpoint × Session) :
    Handled Session :=
  let s := resolved.2.logConnectionDetails w hdr resolved.1
  match w.isDestinationIPAddressAllowed (dotted resolved.1.address)
      (hdr.command == socks4CmdConnect) with
  | none => .error (.regexError, s)
  | some true => s.handleCommand w hdr.command resolved.1
  | some false => .ok s.reject

/-- `handleRead` (`np_project4/socks4server/socks4_handler.cpp:17-39`). -/
def handleRead (w : World) (cells : Cells) (s : Session) : Except Fault (Handled Session) := do
  let hdr ← array Socks4Header.size cells
  let resolved ← resolveEndpoint w (Socks4Header.load hdr) cells s
  .ok (resolved >>= afterResolve w (Socks4Header.load hdr))

end Tracked

theorem handleRead_eq (w : World) (s : Session) :
    s.handleRead w = resolveEndpoint w s.header s >>= Tracked.afterResolve w s.header := rfl

/-- The bytes hold all that is looked at: a header, and after an address 0.0.0.x two strings with
their NULs. -/
def Complete (bytes : List UInt8) : Prop :=
  Socks4Header.size ≤ bytes.length ∧
    (Nameless (ntohl (Socks4Header.load bytes).dstaddr) → ∃ userid domainName rest,
      bytes.drop Socks4Header.size = userid ++ 0 :: (domainName ++ 0 :: rest) ∧
        0 ∉ userid ∧ 0 ∉ domainName)

/-- The endpoint that `resolveEndpoint` gives, or its exception. -/
def Session.endpoint (w : World) (s : Session) : Except Thrown Endpoint :=
  match resolveEndpoint w s.header s with
  | .ok resolved => .ok resolved.1
  | .error thrown => .error thrown.1

/-- The endpoint that the bytes of a request ask for. -/
def requestEndpoint (w : World) (bytes : List UInt8) : Except Thrown Endpoint :=
  let hdr := Socks4Header.load bytes
  if Nameless (ntohl hdr.dstaddr) then
    let domainName :=
      (((bytes.drop Socks4Header.size).dropWhile (· ≠ 0)).drop 1).takeWhile (· ≠ 0)
    match w.resolve domainName (Text.decimal (ntohs hdr.dstport).toNat) with
    | none => .error .systemError
    | some ep => .ok ep
  else .ok ⟨ntohl hdr.dstaddr, ntohs hdr.dstport⟩

/-- A run whose first `read_some` returns `segment` of a stream that goes on with `more`: only
received bytes are used, and the endpoint is that of the request. -/
structure ReceivedOnly (w : World) (segment more : List UInt8) : Prop where
  used : ∀ s : Session, ∃ r, Tracked.handleRead w (receivedCells segment) (s.receive segment) = .ok r
  endpoint : Complete (segment ++ more) → ∀ s : Session,
    (s.receive segment).endpoint w = requestEndpoint w (segment ++ more)

namespace Tracked

theorem array_ok {n k : Nat} {segment x : List UInt8} :
    array n (segment.map some ++ List.replicate k none) = .ok x ↔
      n ≤ segment.length ∧ x = segment.take n := by
  induction n generalizing segment x with
  | zero =>
      rw [array, List.take_zero]
      constructor
      · rintro ⟨⟩
        exact ⟨Nat.zero_le _, rfl⟩
      · intro both
        rw [both.2]
  | succ n ih =>
      cases segment with
      | nil => cases k <;> simp [array, List.replicate_succ]
      | cons c segment =>
          rw [List.map_cons, List.cons_append, array, List.length_cons, List.take_succ_cons]
          cases read : array n (segment.map some ++ List.replicate k none) with
          | error fault =>
              have short : ¬ n ≤ segment.length := by
                intro enough
                rw [ih.mpr ⟨enough, rfl⟩] at read
                cases read
              simp only [Except.map, reduceCtorEq, false_iff, not_and]
              omega
          | ok y =>
              obtain ⟨enough, rfl⟩ := ih.mp read
              simp only [Except.map, Except.ok.injEq]
              constructor
              · intro same
                exact ⟨by omega, same.symm⟩
              · intro both
                exact both.2.symm

/-- A string is read without a fault exactly when it was received with its NUL. -/
theorem cString_ok {k : Nat} {segment string : List UInt8} :
    cString (segment.map some ++ List.replicate k none) = .ok string ↔
      ∃ rest, segment = string ++ 0 :: rest ∧ 0 ∉ string := by
  induction segment generalizing string with
  | nil => cases k <;> simp [cString, List.replicate_succ]
  | cons c segment ih =>
      rw [List.map_cons, List.cons_append, cString]
      by_cases nul : c = 0
      · subst nul
        rw [if_pos rfl, Except.ok.injEq]
        constructor
        · intro empty
          exact ⟨segment, by rw [← empty]; rfl, by simp [← empty]⟩
        · intro found
          obtain ⟨rest, split, plain⟩ := found
          cases string with
          | nil => rfl
          | cons d string =>
              have first : 0 = d := (List.cons.inj split).1
              exact absurd (first ▸ List.mem_cons_self) plain
      · rw [if_neg nul]
        constructor
        · intro read
          cases tail : cString (segment.map some ++ List.replicate k none) with
          | error fault =>
              rw [tail] at read
              cases read
          | ok string' =>
              obtain ⟨rest, rfl, plain⟩ := ih.mp tail
              rw [tail] at read
              cases read
              refine ⟨rest, rfl, ?_⟩
              rw [List.mem_cons, not_or]
              exact ⟨Ne.symm nul, plain⟩
        · intro found
          obtain ⟨rest, split, plain⟩ := found
          cases string with
          | nil => exact absurd (List.cons.inj split).1 nul
          | cons d string =>
              obtain ⟨rfl, tail⟩ := List.cons.inj split
              have read := ih.mpr ⟨rest, tail, fun member => plain (List.mem_cons_of_mem _ member)⟩
              rw [read]
              rfl

theorem receivedCells_drop (segment : List UInt8) (n : Nat) : ∃ k,
    (receivedCells segment).drop n = (segment.drop n).map some ++ List.replicate k none := by
  rw [receivedCells, List.drop_append, ← List.map_drop, List.drop_replicate]
  exact ⟨_, rfl⟩

/-- The two strings of a request with a name, as the code finds them. -/
theorem strings_ok {segment userid domainName : List UInt8} :
    cString ((receivedCells segment).drop Socks4Header.size) = .ok userid ∧
      cString ((receivedCells segment).drop (Socks4Header.size + userid.length + 1)) =
        .ok domainName ↔
      ∃ rest, segment.drop Socks4Header.size = userid ++ 0 :: (domainName ++ 0 :: rest) ∧
        0 ∉ userid ∧ 0 ∉ domainName := by
  obtain ⟨k, first⟩ := receivedCells_drop segment Socks4Header.size
  obtain ⟨k', second⟩ := receivedCells_drop segment (Socks4Header.size + userid.length + 1)
  have behind : ∀ rest, segment.drop Socks4Header.size = userid ++ 0 :: rest →
      segment.drop (Socks4Header.size + userid.length + 1) = rest := by
    intro rest split
    rw [Nat.add_assoc, ← List.drop_drop, split, ← List.drop_drop, List.drop_left]
    rfl
  rw [first, second, cString_ok, cString_ok]
  constructor
  · intro both
    obtain ⟨⟨rest, split, plain⟩, rest', split', plain'⟩ := both
    rw [behind rest split] at split'
    exact ⟨rest', by rw [split, split'], plain, plain'⟩
  · intro found
    obtain ⟨rest, split, plain, plain'⟩ := found
    exact ⟨⟨_, split, plain⟩, rest, behind _ split, plain'⟩

/-- `resolveEndpoint` uses received bytes only when it needs no string or both were received. -/
theorem resolveEndpoint_ok (w : World) (hdr : Socks4Header) (segment : List UInt8) (s : Session) :
    (∃ r, resolveEndpoint w hdr (receivedCells segment) s = .ok r) ↔
      (Nameless (ntohl hdr.dstaddr) → ∃ userid domainName rest,
        segment.drop Socks4Header.size = userid ++ 0 :: (domainName ++ 0 :: rest) ∧
          0 ∉ userid ∧ 0 ∉ domainName) := by
  by_cases nameless : Nameless (ntohl hdr.dstaddr)
  · have pattern := (socks4a_dotted _).mpr nameless
    simp only [resolveEndpoint, if_pos pattern, nameless, forall_const]
    constructor
    · intro found
      obtain ⟨r, run⟩ := found
      obtain ⟨userid, first, run⟩ := bind_eq_ok.mp run
      obtain ⟨domainName, second, run⟩ := bind_eq_ok.mp run
      obtain ⟨rest, strings⟩ := strings_ok.mp ⟨first, second⟩
      exact ⟨userid, domainName, rest, strings⟩
    · intro found
      obtain ⟨userid, domainName, rest, strings⟩ := found
      obtain ⟨first, second⟩ := strings_ok.mpr ⟨rest, strings⟩
      rw [first]
      simp only [Bind.bind, Except.bind, second]
      cases w.resolve domainName (Text.decimal (ntohs hdr.dstport).toNat) with
      | none => exact ⟨_, rfl⟩
      | some ep => exact ⟨_, rfl⟩
  · have pattern : ¬ socks4a.rmatch (dotted (ntohl hdr.dstaddr)) = true :=
      mt (socks4a_dotted _).mp nameless
    simp only [resolveEndpoint, if_neg pattern]
    exact iff_of_true ⟨_, rfl⟩ (fun yes => absurd yes nameless)

/-- A header looks at its own bytes only. -/
theorem load_take {bytes : List UInt8} (enough : Socks4Header.size ≤ bytes.length) :
    Socks4Header.load (bytes.take Socks4Header.size) = Socks4Header.load bytes := by
  have enough' : 8 ≤ bytes.length := enough
  obtain ⟨b₀, b₁, b₂, b₃, b₄, b₅, b₆, b₇, rest, rfl⟩ : ∃ b₀ b₁ b₂ b₃ b₄ b₅ b₆ b₇ rest,
      bytes = b₀ :: b₁ :: b₂ :: b₃ :: b₄ :: b₅ :: b₆ :: b₇ :: rest := by
    match bytes, enough' with
    | b₀ :: b₁ :: b₂ :: b₃ :: b₄ :: b₅ :: b₆ :: b₇ :: rest, _ =>
        exact ⟨b₀, b₁, b₂, b₃, b₄, b₅, b₆, b₇, rest, rfl⟩
  rfl

/-- More bytes behind a header leave it as it is. -/
theorem load_append {bytes : List UInt8} (enough : Socks4Header.size ≤ bytes.length)
    (more : List UInt8) : Socks4Header.load (bytes ++ more) = Socks4Header.load bytes := by
  have longer : Socks4Header.size ≤ (bytes ++ more).length := by
    rw [List.length_append]
    omega
  rw [← load_take longer, List.take_append_of_le_length enough, load_take enough]

/-- The handler uses received bytes only exactly when they are complete. -/
theorem handleRead_ok (w : World) (segment : List UInt8) (s : Session) :
    (∃ r, handleRead w (receivedCells segment) s = .ok r) ↔ Complete segment := by
  constructor
  · intro found
    obtain ⟨r, run⟩ := found
    obtain ⟨hdr, read, run⟩ := bind_eq_ok.mp run
    obtain ⟨resolved, ran, -⟩ := bind_eq_ok.mp run
    obtain ⟨enough, rfl⟩ := array_ok.mp read
    rw [load_take enough] at ran
    exact ⟨enough, (resolveEndpoint_ok w _ segment s).mp ⟨resolved, ran⟩⟩
  · intro complete
    obtain ⟨enough, strings⟩ := complete
    obtain ⟨resolved, ran⟩ := (resolveEndpoint_ok w _ segment s).mpr strings
    have read : array Socks4Header.size (receivedCells segment) = .ok (segment.take _) :=
      array_ok.mpr ⟨enough, rfl⟩
    rw [← load_take enough] at ran
    exact ⟨_, bind_eq_ok.mpr ⟨_, read, bind_eq_ok.mpr ⟨resolved, ran, rfl⟩⟩⟩

end Tracked

section Sound

variable {w : World} {s : Session} {segment : List UInt8}

/-- What was received stands at the front of the array. -/
theorem receive_bytes (s : Session) {segment : List UInt8} (fits : segment.length ≤ bufferSize) :
    ∃ garbage, (s.receive segment).remoteSendBuffer.bytes = segment ++ garbage :=
  ⟨_, s.remoteSendBuffer.fill_bytes fits⟩

/-- A string that was received is the string that the array holds. -/
theorem cStringAt_received (fits : segment.length ≤ bufferSize) {n : Nat} {string : List UInt8}
    (read : Tracked.cString ((receivedCells segment).drop n) = .ok string) :
    (s.receive segment).remoteSendBuffer.cStringAt n = some string := by
  obtain ⟨k, dropped⟩ := Tracked.receivedCells_drop segment n
  rw [dropped] at read
  obtain ⟨rest, split, plain⟩ := Tracked.cString_ok.mp read
  obtain ⟨garbage, bytes⟩ := receive_bytes s fits
  have inside : n ≤ segment.length := by
    have length := congrArg List.length split
    simp only [List.length_drop, List.length_append, List.length_cons] at length
    omega
  have whole : (s.receive segment).remoteSendBuffer.bytes =
      segment.take n ++ (string ++ 0 :: (rest ++ garbage)) := by
    rw [bytes]
    conv_lhs => rw [← List.take_append_drop n segment, split]
    simp
  exact Buffer.cStringAt_eq whole (List.length_take_of_le inside) plain

theorem resolveEndpoint_sound (fits : segment.length ≤ bufferSize) {hdr : Socks4Header}
    {r : Handled (Endpoint × Session)}
    (run : Tracked.resolveEndpoint w hdr (receivedCells segment) (s.receive segment) = .ok r) :
    resolveEndpoint w hdr (s.receive segment) = r := by
  unfold resolveEndpoint
  unfold Tracked.resolveEndpoint at run
  by_cases pattern : socks4a.rmatch (dotted (ntohl hdr.dstaddr)) = true
  · simp only [if_pos pattern] at run ⊢
    obtain ⟨userid, first, run⟩ := bind_eq_ok.mp run
    obtain ⟨domainName, second, run⟩ := bind_eq_ok.mp run
    rw [cStringAt_received fits first]
    simp only [cStringAt_received fits second]
    cases answer : w.resolve domainName (Text.decimal (ntohs hdr.dstport).toNat) with
    | none =>
        rw [answer] at run
        exact Except.ok.inj run
    | some ep =>
        rw [answer] at run
        exact Except.ok.inj run
  · simp only [if_neg pattern] at run ⊢
    exact Except.ok.inj run

theorem header_receive (fits : segment.length ≤ bufferSize)
    (enough : Socks4Header.size ≤ segment.length) :
    (s.receive segment).header = Socks4Header.load segment := by
  obtain ⟨garbage, bytes⟩ := receive_bytes s fits
  rw [Session.header, bytes, Tracked.load_append enough]

/-- A run that uses received bytes only is the run of the handler, whatever was in the array. -/
theorem handleRead_sound (fits : segment.length ≤ bufferSize) {r : Handled Session}
    (run : Tracked.handleRead w (receivedCells segment) (s.receive segment) = .ok r) :
    (s.receive segment).handleRead w = r := by
  obtain ⟨hdr, read, run⟩ := bind_eq_ok.mp run
  obtain ⟨resolved, ran, run⟩ := bind_eq_ok.mp run
  obtain ⟨enough, rfl⟩ := Tracked.array_ok.mp read
  rw [handleRead_eq, header_receive fits enough, ← Tracked.load_take enough,
    resolveEndpoint_sound fits ran]
  exact Except.ok.inj run

/-- The domain name stands between the two NULs. -/
theorem domainName_eq {bytes userid domainName rest : List UInt8} (plain : 0 ∉ userid)
    (plain' : 0 ∉ domainName) (split : bytes = userid ++ 0 :: (domainName ++ 0 :: rest)) :
    ((bytes.dropWhile (· ≠ 0)).drop 1).takeWhile (· ≠ 0) = domainName := by
  have nonzero : ∀ {string : List UInt8}, 0 ∉ string → ∀ c ∈ string, decide (c ≠ 0) = true := by
    intro string plain c member
    exact decide_eq_true (fun same => plain (same ▸ member))
  rw [split, List.dropWhile_append_of_pos (nonzero plain), List.dropWhile_cons_of_neg (by simp),
    List.drop_succ_cons, List.drop_zero, List.takeWhile_append_of_pos (nonzero plain'),
    List.takeWhile_cons_of_neg (by simp), List.append_nil]

/-- The endpoint of a complete request is decoded from its own bytes. -/
theorem endpoint_complete (fits : segment.length ≤ bufferSize) (complete : Complete segment) :
    (s.receive segment).endpoint w = requestEndpoint w segment := by
  obtain ⟨enough, strings⟩ := complete
  rw [Session.endpoint, header_receive fits enough, requestEndpoint]
  by_cases nameless : Nameless (ntohl (Socks4Header.load segment).dstaddr)
  · obtain ⟨userid, domainName, rest, split, plain, plain'⟩ := strings nameless
    obtain ⟨first, second⟩ := Tracked.strings_ok.mpr ⟨rest, split, plain, plain'⟩
    have pattern := (socks4a_dotted _).mpr nameless
    simp only [resolveEndpoint, if_pos pattern, if_pos nameless, cStringAt_received fits first,
      cStringAt_received fits second, domainName_eq plain plain' split]
    cases w.resolve domainName (Text.decimal (ntohs (Socks4Header.load segment).dstport).toNat) with
    | none => rfl
    | some ep => rfl
  · have pattern : ¬ socks4a.rmatch (dotted (ntohl (Socks4Header.load segment).dstaddr)) = true :=
      mt (socks4a_dotted _).mp nameless
    simp only [resolveEndpoint, if_neg pattern, if_neg nameless]

/-- What follows a complete request does not change its endpoint. -/
theorem requestEndpoint_append (complete : Complete segment) (more : List UInt8) :
    requestEndpoint w (segment ++ more) = requestEndpoint w segment := by
  obtain ⟨enough, strings⟩ := complete
  simp only [requestEndpoint, Tracked.load_append enough]
  by_cases nameless : Nameless (ntohl (Socks4Header.load segment).dstaddr)
  · obtain ⟨userid, domainName, rest, split, plain, plain'⟩ := strings nameless
    have longer : (segment ++ more).drop Socks4Header.size =
        userid ++ 0 :: (domainName ++ 0 :: (rest ++ more)) := by
      rw [List.drop_append_of_le_length enough, split]
      simp
    rw [domainName_eq plain plain' split, domainName_eq plain plain' longer]
  · rw [if_neg nameless, if_neg nameless]

end Sound

/-- Only received bytes are used exactly when the first segment is a complete request. -/
theorem receivedOnly_iff (w : World) {segment : List UInt8} (more : List UInt8)
    (fits : segment.length ≤ bufferSize) : ReceivedOnly w segment more ↔ Complete segment := by
  constructor
  · intro only
    exact (Tracked.handleRead_ok w segment _).mp (only.used (.fresh .zeros .zeros))
  · intro complete
    refine ⟨fun s => (Tracked.handleRead_ok w segment _).mpr complete, fun _ s => ?_⟩
    rw [endpoint_complete fits complete, requestEndpoint_append complete]

theorem receivedOnly_whole :
    ReceivedOnly quietWorld (connectRequest ⟨0x8C710001, 80⟩) [] ↔
      Complete (connectRequest ⟨0x8C710001, 80⟩) :=
  receivedOnly_iff quietWorld [] (by decide)

/-- The first segment holds three bytes of the request. -/
theorem cut_header_used :
    ¬ ReceivedOnly quietWorld [4, 1, 0] [80, 140, 113, 0, 1, 77, 69, 79, 87, 0] := by
  intro only
  have complete := (Tracked.handleRead_ok quietWorld _ _).mp (only.used (.fresh .zeros .zeros))
  exact absurd complete.1 (by decide)

end NetProg
