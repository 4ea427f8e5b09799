import NetProg.Socks.Request

/-!
# `Socks4Handler`

`socks4server/socks4_handler.cpp` up to the start of the relay: one request, its firewall check,
the replies and the connection to the other host.  `<regex>` is a parameter of the world; the
patterns it gets are made as `socks4_util.cpp` makes them.
-/

namespace NetProg

namespace Firewall

/-- One loop of `convertToRegexPattern`: `str.find(c, start_pos)`, then the character replaced and
`start_pos` moved past the two that took its place. -/
def replaceFrom (c : Char) (replacement : Char × Char) (startPos : Nat) (str : Text) : Text :=
  let offset := (str.drop startPos).findIdx (· = c)
  if startPos + offset < str.length then
    replaceFrom c replacement (startPos + offset + 2)
      (str.take (startPos + offset) ++ replacement.1 :: replacement.2 ::
        str.drop (startPos + offset + 1))
  else str
termination_by str.length - startPos
decreasing_by
  simp only [List.length_append, List.length_take, List.length_cons, List.length_drop]
  omega

/-- `convertToRegexPattern` (`np_project4/socks4server/socks4_util.cpp:4-20`). -/
def convertToRegexPattern (str : Text) : Text :=
  replaceFrom '*' ('.', '*') 0 (replaceFrom '.' ('\\', '.') 0 str)

/-- The triples that the loop over the file reads; `count` bounds their number. -/
def readRules (count : Nat) (text : Text) : List (Text × Char × Text) :=
  match count with
  | 0 => []
  | count + 1 =>
      match Text.readWord text with
      | none => []
      | some (permit, text) =>
          match Text.readChar text with
          | none => []
          | some (type, text) =>
              match Text.readWord text with
              | none => []
              | some (rule, text) => (permit, type, rule) :: readRules count text

end Firewall

namespace World

/-- `matchFirewallRule` (`np_project4/socks4server/socks4_util.cpp:22-29`). -/
def matchFirewallRule (w : World) (operation : Char) (rule : Text) (socks4Command : Bool)
    (dstIP : Text) : Option Bool :=
  let configCommand := operation == 'c'
  if (socks4Command && configCommand) || (!socks4Command && !configCommand) then
    w.regexMatch (Firewall.convertToRegexPattern rule) dstIP
  else some false

/-- The body of the loop over the rules; the first word of a rule is read and not used. -/
def someRule (w : World) (ip : Text) (command : Bool) : List (Text × Char × Text) → Option Bool
  | [] => some false
  | (_, type, rule) :: rules =>
      match w.matchFirewallRule type rule command ip with
      | none => none
      | some true => some true
      | some false => someRule w ip command rules

/-- `Socks4Handler::isDestinationIPAddressAllowed`
(`np_project4/socks4server/socks4_handler.cpp:142-152`). -/
def isDestinationIPAddressAllowed (w : World) (ip : Text) (command : Bool) : Option Bool :=
  match w.conf with
  | none => some false
  | some text => w.someRule ip command (Firewall.readRules text.length text)

end World

namespace Session

/-- `reply` (`np_project4/socks4server/socks4_handler.cpp:103-106`): the header is a `static`
variable, made when the first reply is. -/
def reply (port : UInt16) (s : Session) : Session :=
  let hdr := s.hdr.getD ⟨socks4Version, socks4ReplyGranted, htons port, 0⟩
  { s with hdr := some hdr }.act (.write hdr.store)

/-- `connect` (`np_project4/socks4server/socks4_handler.cpp:85-91`). -/
def connect (w : World) (ep : Endpoint) (s : Session) : Session :=
  let s := s.act (.connect ep)
  if w.connect ep then { s with remoteSocket := some ep }.reply 0 else s

/-- `bind` (`np_project4/socks4server/socks4_handler.cpp:93-100`). -/
def bind (w : World) (s : Session) : Handled Session :=
  match w.bind with
  | none => .error (.systemError, s)
  | some port =>
      let s := s.reply port
      match w.accept with
      | none => .error (.systemError, s)
      | some peer => .ok (({ s with remoteSocket := some peer }.act (.accept peer)).reply port)

/-- `relayTraffic` (`np_project4/socks4server/socks4_handler.cpp:136-139`); what follows is the
subject of `Relay`. -/
def relayTraffic (s : Session) : Session := s.act .relay

/-- `handleCommand` (`np_project4/socks4server/socks4_handler.cpp:69-83`). -/
def handleCommand (w : World) (command : UInt8) (remoteEndpoint : Endpoint) (s : Session) :
    Handled Session :=
  let s := s.act (.print "<Reply>: Accept\n".toList)
  if command = socks4CmdConnect then .ok (s.connect w remoteEndpoint).relayTraffic
  else if command = socks4CmdBind then do
    let s ← s.bind w
    .ok s.relayTraffic
  else .ok s

/-- `logConnectionDetails` (`np_project4/socks4server/socks4_handler.cpp:61-67`). -/
def logConnectionDetails (w : World) (hdr : Socks4Header) (remoteEndpoint : Endpoint)
    (s : Session) : Session :=
  ((((s.act (.print ("<S_IP>: ".toList ++ dotted w.client.address ++ "\n".toList))).act
    (.print ("<S_PORT>: ".toList ++ Text.decimal w.client.port.toNat ++ "\n".toList))).act
    (.print ("<D_IP>: ".toList ++ dotted remoteEndpoint.address ++ "\n".toList))).act
    (.print ("<D_PORT>: ".toList ++ Text.decimal remoteEndpoint.port.toNat ++ "\n".toList))).act
    (.print ("<Command>: ".toList ++
      (if hdr.command = socks4CmdConnect then "CONNECT".toList else "BIND".toList) ++ "\n".toList))

/-- The header that `handleRead` takes from the front of the buffer. -/
def header (s : Session) : Socks4Header := Socks4Header.load s.remoteSendBuffer.bytes

/-- The branch of `handleRead` for a destination that is not allowed. -/
def reject (s : Session) : Session :=
  ((s.act (.print "<Reply>: Reject\n".toList)).act
    (.write (Socks4Header.store ⟨0, socks4ReplyRejected, 0, 0⟩))).act .shutdown

/-- `handleRead` (`np_project4/socks4server/socks4_handler.cpp:17-39`), once `read_some` has
returned. -/
def handleRead (w : World) (s : Session) : Handled Session := do
  let (remoteEndpoint, s') ← resolveEndpoint w s.header s
  let s' := s'.logConnectionDetails w s.header remoteEndpoint
  match w.isDestinationIPAddressAllowed (dotted remoteEndpoint.address)
      (s.header.command == socks4CmdConnect) with
  | none => .error (.regexError, s')
  | some true => s'.handleCommand w s.header.command remoteEndpoint
  | some false => .ok s'.reject

end Session

end NetProg
