import MsysGit.Library.Rfc1928

/-!
# SOCKS4 requests

A SOCKS4 request for a connection is `04 01 port address user 00`, with the port and the
IPv4 address in network order.  In SOCKS4A an address `0.0.0.x` with `x` other than zero
means that the name of the host follows the user name, with a zero behind it.

A user name or host name is a C string; a request whose names have no zero can be told
from its encoding if its address is not one of those that announce a name.
-/

namespace MsysGit.Library.Socks4

open Rfc1928 (portBytes portOf portOf_portBytes)

/-- Where a request asks to connect to. -/
inductive Destination where
  | address (a b c d : UInt8)
  | name (host : Bytes)
  deriving DecidableEq

structure Request where
  port : UInt16
  destination : Destination
  user : Bytes
  deriving DecidableEq

/-- The C string at the front of a byte string, and what follows its terminator. -/
def cString (s : Bytes) : Option (Bytes × Bytes) :=
  match s.dropWhile (· ≠ 0) with
  | [] => none
  | _ :: rest => some (s.takeWhile (· ≠ 0), rest)

theorem cString_append {s : Bytes} (no_zero : 0 ∉ s) (rest : Bytes) :
    cString (s ++ 0 :: rest) = some (s, rest) := by
  rw [cString, dropWhile_ne_append_cons no_zero, takeWhile_ne_append_cons no_zero]

/-- The address means that a host name follows. -/
def Announces (a b c d : UInt8) : Prop := a = 0 ∧ b = 0 ∧ c = 0 ∧ d ≠ 0

instance (a b c d : UInt8) : Decidable (Announces a b c d) :=
  inferInstanceAs (Decidable (_ ∧ _))

/-- The request that makes up a whole packet. -/
def decode : Bytes → Option Request
  | 4 :: 1 :: hi :: lo :: a :: b :: c :: d :: rest =>
      match cString rest with
      | none => none
      | some (user, rest) =>
          if Announces a b c d then
            match cString rest with
            | some (host, []) => some ⟨portOf hi lo, .name host, user⟩
            | _ => none
          else if rest = [] then some ⟨portOf hi lo, .address a b c d, user⟩
          else none
  | _ => none

/-- The eight bytes in front. -/
def header (port : UInt16) (a b c d : UInt8) : Bytes :=
  4 :: 1 :: portBytes port ++ [a, b, c, d]

/-- The packet of a request; a host name is announced by `0.0.0.1`. -/
def Request.encode (r : Request) : Bytes :=
  match r.destination with
  | .address a b c d => header r.port a b c d ++ (r.user ++ [0])
  | .name host => header r.port 0 0 0 1 ++ (r.user ++ 0 :: (host ++ [0]))

/-- The names are C strings, and the address announces no name. -/
def Request.Encodable (r : Request) : Prop :=
  0 ∉ r.user ∧
    match r.destination with
    | .address a b c d => ¬ Announces a b c d
    | .name host => 0 ∉ host

theorem decode_header {port : UInt16} {a b c d : UInt8} {user rest : Bytes} (no_zero : 0 ∉ user) :
    decode (header port a b c d ++ (user ++ 0 :: rest)) =
      if Announces a b c d then
        match cString rest with
        | some (host, []) => some ⟨port, .name host, user⟩
        | _ => none
      else if rest = [] then some ⟨port, .address a b c d, user⟩
      else none := by
  simp only [header, portBytes, List.cons_append, List.nil_append, decode,
    cString_append no_zero, portOf_portBytes]

/-- **Round trip.** -/
theorem decode_encode {r : Request} (encodable : r.Encodable) : decode r.encode = some r := by
  obtain ⟨port, destination, user⟩ := r
  obtain ⟨no_zero, destination_ok⟩ := encodable
  cases destination with
  | address a b c d =>
      rw [Request.encode]
      dsimp only
      rw [decode_header no_zero, if_neg destination_ok, if_pos rfl]
  | name host =>
      rw [Request.encode]
      dsimp only
      rw [decode_header no_zero, if_pos (by decide), cString_append destination_ok]

end MsysGit.Library.Socks4
