import MsysGit.Library.CString

/-!
# The SOCKS5 packet layouts

The three client packets of a SOCKS5 dialogue and the reply, after RFC 1928 and
RFC 1929:

* the method offer `05 n m₁ … mₙ` with at least one method;
* the user/password request `01 ulen uname plen passwd` with both names one to
  255 bytes long;
* requests and replies `05 code 00 atyp address port`, with an IPv4 address, a
  name of at most 255 bytes behind its length, or an IPv6 address.

The length limits are fields of the structures, so a decoded value always meets
them.  Each decoder takes a whole packet and refuses one with bytes left over.
-/

namespace MsysGit.Library.Rfc1928

/-- The big-endian pair of a port number. -/
def portBytes (port : UInt16) : Bytes :=
  [UInt8.ofNat (port.toNat / 256), UInt8.ofNat (port.toNat % 256)]

/-- The port number of a big-endian pair. -/
def portOf (hi lo : UInt8) : UInt16 := UInt16.ofNat (256 * hi.toNat + lo.toNat)

theorem portOf_portBytes (port : UInt16) :
    portOf (UInt8.ofNat (port.toNat / 256)) (UInt8.ofNat (port.toNat % 256)) = port := by
  have bound : port.toNat < 65536 := port.toNat_lt
  apply UInt16.toNat_inj.mp
  rw [portOf, UInt16.toNat_ofNat', UInt8.toNat_ofNat', UInt8.toNat_ofNat']
  omega

/-- The length byte of a field of `n` bytes. -/
theorem toNat_ofNat_length {n : ℕ} (short : n ≤ 255) : (UInt8.ofNat n).toNat = n := by
  rw [UInt8.toNat_ofNat']
  exact Nat.mod_eq_of_lt (by omega)

/-! ### The method offer -/

/-- The methods of an offer packet. -/
def decodeOffer : Bytes → Option (List UInt8)
  | 5 :: n :: methods => if methods ≠ [] ∧ methods.length = n.toNat then some methods else none
  | _ => none

/-- The offer of these methods. -/
def encodeOffer (methods : List UInt8) : Bytes :=
  5 :: UInt8.ofNat methods.length :: methods

theorem decodeOffer_encodeOffer {methods : List UInt8} (some_method : methods ≠ [])
    (short : methods.length ≤ 255) : decodeOffer (encodeOffer methods) = some methods := by
  rw [encodeOffer, decodeOffer, toNat_ofNat_length short, if_pos ⟨some_method, rfl⟩]

/-! ### User name and password -/

/-- What a user/password request carries. -/
structure Credentials where
  user : Bytes
  passwd : Bytes
  user_length : 1 ≤ user.length ∧ user.length ≤ 255
  passwd_length : 1 ≤ passwd.length ∧ passwd.length ≤ 255

namespace Credentials

/-- The packet these credentials are sent in. -/
def encode (c : Credentials) : Bytes :=
  1 :: UInt8.ofNat c.user.length :: c.user ++ UInt8.ofNat c.passwd.length :: c.passwd

/-- The credentials of a user/password packet. -/
def decode : Bytes → Option Credentials
  | 1 :: ulen :: rest =>
      match rest.drop ulen.toNat with
      | plen :: passwd =>
          if h : (1 ≤ (rest.take ulen.toNat).length ∧ (rest.take ulen.toNat).length ≤ 255) ∧
              (1 ≤ passwd.length ∧ passwd.length ≤ 255) ∧ passwd.length = plen.toNat then
            some ⟨rest.take ulen.toNat, passwd, h.1, h.2.1⟩
          else none
      | [] => none
  | _ => none

/-- **Round trip** of the user/password packet. -/
theorem decode_encode (c : Credentials) : decode c.encode = some c := by
  obtain ⟨user, passwd, user_length, passwd_length⟩ := c
  have ulen := toNat_ofNat_length user_length.2
  have plen := toNat_ofNat_length passwd_length.2
  simp only [encode, decode, List.cons_append, ulen, plen, List.drop_left, List.take_left]
  rw [dif_pos ⟨user_length, passwd_length, trivial⟩]

end Credentials

/-! ### Requests and replies -/

/-- The address field of a request or reply. -/
inductive Address
  | ipv4 (a b c d : UInt8)
  | domain (name : Bytes) (short : name.length ≤ 255)
  | ipv6 (octets : Bytes) (whole : octets.length = 16)

namespace Address

/-- The address type and the address. -/
def encode : Address → Bytes
  | ipv4 a b c d => [1, a, b, c, d]
  | domain name _ => 3 :: UInt8.ofNat name.length :: name
  | ipv6 octets _ => 4 :: octets

/-- How long the name is that the address consists of, if it is a name. -/
def nameLength : Address → ℕ
  | domain name _ => name.length
  | _ => 0

/-- The address at the front of a byte string, and what follows it. -/
def decode : Bytes → Option (Address × Bytes)
  | 1 :: a :: b :: c :: d :: rest => some (ipv4 a b c d, rest)
  | 3 :: n :: rest =>
      if n.toNat ≤ rest.length then
        some (domain (rest.take n.toNat)
          (Nat.le_trans (List.length_take_le _ _) (Nat.le_of_lt_succ n.toNat_lt)),
          rest.drop n.toNat)
      else none
  | 4 :: rest =>
      if h : 16 ≤ rest.length then
        some (ipv6 (rest.take 16) (List.length_take_of_le h), rest.drop 16)
      else none
  | _ => none

theorem decode_encode_append (address : Address) (rest : Bytes) :
    decode (address.encode ++ rest) = some (address, rest) := by
  cases address with
  | ipv4 a b c d => rfl
  | domain name short =>
      have nlen := toNat_ofNat_length short
      simp [encode, decode, nlen]
  | ipv6 octets whole => simp [encode, decode, ← whole]

end Address

/-- A request (`code` is the command) or a reply (`code` is the reply code). -/
structure Message where
  code : UInt8
  address : Address
  port : UInt16

namespace Message

/-- The packet of a message. -/
def encode (m : Message) : Bytes := 5 :: m.code :: 0 :: m.address.encode ++ portBytes m.port

/-- The message of a packet. -/
def decode : Bytes → Option Message
  | 5 :: code :: 0 :: rest =>
      match Address.decode rest with
      | some (address, [hi, lo]) => some ⟨code, address, portOf hi lo⟩
      | _ => none
  | _ => none

/-- **Round trip** of requests and replies. -/
theorem decode_encode (m : Message) : decode m.encode = some m := by
  simp only [encode, decode, List.cons_append, Address.decode_encode_append, portBytes,
    portOf_portBytes]

end Message

end MsysGit.Library.Rfc1928
