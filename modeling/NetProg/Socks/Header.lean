import NetProg.Lib.Bytes
import NetProg.Lib.Text

/-!
# SOCKS4 headers and addresses

`socks4server/socks4_util.hpp` and the byte order of the fields.  The header is a packed struct
that both programs lay over their buffers, so its numbers are read as the machine stores them and
turned with `htons` and its relatives.
-/

namespace NetProg

/-- `SOCKS4_VERSION` (`np_project4/socks4server/socks4_util.hpp:6`). -/
def socks4Version : UInt8 := 0

/-- `SOCKS4_CMD_CONNECT` (`np_project4/socks4server/socks4_util.hpp:7`). -/
def socks4CmdConnect : UInt8 := 1

/-- `SOCKS4_CMD_BIND` (`np_project4/socks4server/socks4_util.hpp:8`). -/
def socks4CmdBind : UInt8 := 2

/-- `SOCKS4_REPLY_GRANTED` (`np_project4/socks4server/socks4_util.hpp:9`). -/
def socks4ReplyGranted : UInt8 := 90

/-- `SOCKS4_REPLY_REJECTED` (`np_project4/socks4server/socks4_util.hpp:10`). -/
def socks4ReplyRejected : UInt8 := 91

/-- `tcp::endpoint` of an IPv4 address; both numbers are in the order of the machine. -/
structure Endpoint where
  address : UInt32
  port : UInt16
  deriving DecidableEq, Repr

/-- `Socks4Header` (`np_project4/socks4server/socks4_util.hpp:17-22`); the numbers are those that
the machine reads. -/
structure Socks4Header where
  version : UInt8
  command : UInt8
  dstport : UInt16
  dstaddr : UInt32
  deriving DecidableEq, Repr

def htons (x : UInt16) : UInt16 := UInt16.ofNat (swapBytes 2 x.toNat)

def ntohs (x : UInt16) : UInt16 := UInt16.ofNat (swapBytes 2 x.toNat)

def htonl (x : UInt32) : UInt32 := UInt32.ofNat (swapBytes 4 x.toNat)

def ntohl (x : UInt32) : UInt32 := UInt32.ofNat (swapBytes 4 x.toNat)

@[simp] theorem ntohs_htons (x : UInt16) : ntohs (htons x) = x := by
  have bound := swapBytes_lt 2 x.toNat
  have stored : (htons x).toNat = swapBytes 2 x.toNat := by
    rw [htons, UInt16.toNat_ofNat']
    exact Nat.mod_eq_of_lt bound
  rw [ntohs, stored, swapBytes_swapBytes x.toNat_lt, UInt16.ofNat_toNat]

@[simp] theorem ntohl_htonl (x : UInt32) : ntohl (htonl x) = x := by
  have bound := swapBytes_lt 4 x.toNat
  have stored : (htonl x).toNat = swapBytes 4 x.toNat := by
    rw [htonl, UInt32.toNat_ofNat']
    exact Nat.mod_eq_of_lt bound
  rw [ntohl, stored, swapBytes_swapBytes x.toNat_lt, UInt32.ofNat_toNat]

namespace Socks4Header

/-- `sizeof(Socks4Header)`. -/
def size : Nat := 8

/-- `*reinterpret_cast<Socks4Header*>(data)`. -/
def load (data : List UInt8) : Socks4Header where
  version := data.getD 0 0
  command := data.getD 1 0
  dstport := UInt16.ofNat (loadLE ((data.drop 2).take 2))
  dstaddr := UInt32.ofNat (loadLE ((data.drop 4).take 4))

/-- The bytes of the struct. -/
def store (hdr : Socks4Header) : List UInt8 :=
  hdr.version :: hdr.command :: (storeLE 2 hdr.dstport.toNat ++ storeLE 4 hdr.dstaddr.toNat)

@[simp] theorem store_length (hdr : Socks4Header) : hdr.store.length = size := by
  simp [store, size]

@[simp] theorem load_store (hdr : Socks4Header) (rest : List UInt8) :
    load (hdr.store ++ rest) = hdr := by
  have port : loadLE (storeLE 2 hdr.dstport.toNat) = hdr.dstport.toNat :=
    loadLE_storeLE hdr.dstport.toNat_lt
  have addr : loadLE (storeLE 4 hdr.dstaddr.toNat) = hdr.dstaddr.toNat :=
    loadLE_storeLE hdr.dstaddr.toNat_lt
  have middle : (storeLE 2 hdr.dstport.toNat ++ (storeLE 4 hdr.dstaddr.toNat ++ rest)).take 2 =
      storeLE 2 hdr.dstport.toNat := List.take_left' (storeLE_length 2 _)
  have last : (storeLE 2 hdr.dstport.toNat ++ (storeLE 4 hdr.dstaddr.toNat ++ rest)).drop 2 =
      storeLE 4 hdr.dstaddr.toNat ++ rest := List.drop_left' (storeLE_length 2 _)
  simp only [load, store, List.cons_append, List.append_assoc, List.getD_cons_zero,
    List.getD_cons_succ, List.drop_succ_cons, List.drop_zero, middle, last,
    List.take_left' (storeLE_length 4 _), port, addr, UInt16.ofNat_toNat, UInt32.ofNat_toNat]

end Socks4Header

/-- The four numbers of an IPv4 address. -/
def octet (address : UInt32) (i : Nat) : Fin 256 :=
  ⟨address.toNat / 256 ^ (3 - i) % 256, Nat.mod_lt _ (by decide)⟩

/-- `address_v4::to_string`. -/
def dotted (address : UInt32) : Text :=
  Text.decimal (octet address 0) ++ '.' :: (Text.decimal (octet address 1) ++
    '.' :: (Text.decimal (octet address 2) ++ '.' :: Text.decimal (octet address 3)))

/-- An address is made of its octets. -/
theorem octet_sum (address : UInt32) : address.toNat =
    ((octet address 0 * 256 + octet address 1) * 256 + octet address 2) * 256 +
      octet address 3 := by
  have bound := address.toNat_lt
  simp only [octet]
  omega

example : dotted 0x8C710001 = "140.113.0.1".toList := by decide

end NetProg
