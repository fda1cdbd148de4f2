import MsysGit.Connect.Globals
import MsysGit.Library.FirstMatch
import MsysGit.Library.SeparatedText

/-!
# Hosts to be connected to directly

The list in `HTTP_DIRECT` and its like names the hosts to go to around the proxy.
`initialize_direct_addr` splits it at the commas and stores each entry in one table,
as an address with a mask when `parse_addr_pair` accepts it and as a name otherwise;
`check_direct` reads the table from its beginning.

`Grants` (`Library.FirstMatch`) is the verdict of such a list.  It is taken over the
entries as they were written (`ListEntry.Matches`), and again over what the table
holds (`AddrPair.Hits`).  The two differ on an entry without text: as an address it
is read as `0.0.0.0/0`, which matches every address.
-/

namespace MsysGit.Connect

open MsysGit.Library MsysGit.Library.CString

/-! ### The table -/

/-- `INADDR_NONE`, what `inet_addr` returns for a text that is not an address. -/
def InAddr.none : InAddr := ⟨255, 255, 255, 255⟩

/-- `mask_addr` -/
def maskAddr (addr mask : InAddr) : InAddr :=
  ⟨addr.a &&& mask.a, addr.b &&& mask.b, addr.c &&& mask.c, addr.d &&& mask.d⟩

/-- `struct ADDRPAIR` -/
structure AddrPair where
  addr : InAddr
  mask : InAddr
  name : Option Bytes
  negative : Bool
  deriving DecidableEq

/-- `MAX_DIRECT_ADDR_LIST` -/
abbrev maxDirectAddrList : ℕ := 256

/-- `direct_addr_list`, up to `n_direct_addr_list`. -/
structure DirectAddrList where
  entries : List AddrPair
  bounded : entries.length ≤ maxDirectAddrList

namespace DirectAddrList

/-- `n_direct_addr_list = 0` -/
def empty : DirectAddrList := ⟨[], Nat.zero_le _⟩

/-- Store one more entry; a full table reports an error. -/
def push (table : DirectAddrList) (pair : AddrPair) : Option DirectAddrList :=
  if full : maxDirectAddrList ≤ table.entries.length then none
  else some ⟨table.entries ++ [pair], by rw [List.length_append]; exact Nat.not_le.mp full⟩

/-- `add_direct_addr` -/
def addDirectAddr (table : DirectAddrList) (addr mask : InAddr) (negative : Bool) :
    Option DirectAddrList :=
  table.push { addr := maskAddr addr mask, mask := mask, name := none, negative := negative }

end DirectAddrList

/-- The name `add_direct_host` stores: without a leading `*` and then a leading dot. -/
def hostName (name : Bytes) : Bytes :=
  let name := if name.head? = some 42 then name.tail else name
  let name := if name.head? = some 46 then name.tail else name
  name.map tolower

/-- `add_direct_host`; address and mask of the entry stay zero. -/
def DirectAddrList.addDirectHost (table : DirectAddrList) (name : Bytes) (negative : Bool) :
    Option DirectAddrList :=
  table.push { addr := .any, mask := .any, name := some (hostName name), negative := negative }

/-! ### Reading an entry -/

/-- The loops of `parse_addr_pair`: at most `n` numbers with dots between, as bytes, and
what is left.  The loop for the address may end with the text in front of a number, the
one for the mask may not. -/
def octetLoop (mayEnd : Bool) : ℕ → Bytes → Option (Bytes × Bytes)
  | 0, ptr => some ([], ptr)
  | n + 1, ptr =>
      if mayEnd = true ∧ ptr = [] then some ([], [])
      else if isdigit (ptr.headD 0) = false then none
      else
        let octet := UInt8.ofInt (atoi ptr)
        let ptr := ptr.dropWhile isdigit
        if ptr.head? = some 46 then
          (octetLoop mayEnd n ptr.tail).map fun (octets, rest) => (octet :: octets, rest)
        else some ([octet], ptr)

/-- The first bytes of an address; the others are zero. -/
def InAddr.ofOctets (octets : Bytes) : InAddr :=
  ⟨octets.getD 0 0, octets.getD 1 0, octets.getD 2 0, octets.getD 3 0⟩

/-- `htonl (0xFFFFFFFF << (32 - n))`, and zero for `n == 0`. -/
def InAddr.ofPrefixLength (n : ℕ) : InAddr :=
  let mask : UInt32 := if n = 0 then 0 else 0xFFFFFFFF <<< UInt32.ofNat (32 - n)
  ⟨(mask >>> 24).toUInt8, (mask >>> 16).toUInt8, (mask >>> 8).toUInt8, mask.toUInt8⟩

/-- `parse_addr_pair`; `none` is the format error. -/
def parseAddrPair (str : Bytes) : Option (InAddr × InAddr) := do
  let (octets, ptr) ← octetLoop true 4 str
  match ptr with
  | [] => some (.ofOctets octets, .ofOctets (octets.map fun _ => 255))
  | c :: ptr =>
      if c ≠ 47 then none
      else if 46 ∈ ptr then do
        let (mask, _) ← octetLoop false 4 ptr
        some (.ofOctets octets, .ofOctets mask)
      else if isdigit (ptr.headD 0) = false then none
      else
        let n := atoi ptr
        if n < 0 ∨ 32 < n then none
        else some (.ofOctets octets, .ofPrefixLength n.toNat)

/-- The three ways to write one network. -/
example : ["12.34.56.78/255.255.255.0", "12.34.56.78/24", "12.34.56."].map (fun entry =>
    (parseAddrPair (text entry)).map fun (addr, mask) => (maskAddr addr mask, mask)) =
      List.replicate 3 (some (⟨12, 34, 56, 0⟩, ⟨255, 255, 255, 0⟩)) := by decide

/-- One round of the loop of `initialize_direct_addr`: an entry up to its comma. -/
def DirectAddrList.addEntry (table : DirectAddrList) (beg : Bytes) : DirectAddrList :=
  let negative : Bool := beg.head? = some 33
  let beg := if negative then beg.tail else beg
  match parseAddrPair beg with
  | some (addr, mask) => (table.addDirectAddr addr mask negative).getD table
  | none => (table.addDirectHost beg negative).getD table

/-- The loop of `initialize_direct_addr`.  Its check of `n_entries` never holds: nothing
counts them. -/
def DirectAddrList.addEntries (table : DirectAddrList) (beg : Bytes) : DirectAddrList :=
  match _found : strchr beg 44 with
  | none => table.addEntry beg
  | some next => (table.addEntry (beg.takeWhile (· ≠ 44))).addEntries next.tail
termination_by beg.length
decreasing_by
  rw [strchr] at _found
  split_ifs at _found with inside
  · obtain rfl := Option.some.inj _found
    have shorter := (List.dropWhile_suffix (fun c : UInt8 => decide (c ≠ 44)) (l := beg)).length_le
    have nonempty := List.length_pos_of_mem inside
    rw [List.length_tail]
    omega

/-- The text of the list: the variable for the method, then `CONNECT_DIRECT`. -/
def Globals.directList (g : Globals) : Option Bytes :=
  let env : Option Bytes :=
    match g.relayMethod with
    | .socks =>
        (g.getparam (if g.socksVersion = 5 then "SOCKS5_DIRECT" else "SOCKS4_DIRECT")).or
          (g.getparam "SOCKS_DIRECT")
    | .http => g.getparam "HTTP_DIRECT"
    | _ => none
  env.or (g.getparam "CONNECT_DIRECT")

/-- `initialize_direct_addr` -/
def initializeDirectAddr (g : Globals) : DirectAddrList :=
  match g.directList with
  | none => .empty
  | some env => DirectAddrList.empty.addEntries env

/-! ### Checking a host -/

/-- The loop of `is_direct_address`. -/
def isDirectAddress (addr : InAddr) : List AddrPair → Bool
  | [] => false
  | pair :: pairs =>
      if pair.name ≠ none then isDirectAddress addr pairs
      else if maskAddr addr pair.mask = pair.addr then !pair.negative
      else isDirectAddress addr pairs

/-- The loop of `domain_match`, on the strings read from their tails: what is left of
both where it ends. -/
def domainLoop : Bytes → Bytes → Bytes × Bytes
  | c₁ :: tail₁, c₂ :: tail₂ => if c₁ ≠ c₂ then (tail₁, c₂ :: tail₂) else domainLoop tail₁ tail₂
  | tail₁, tail₂ => (tail₁, tail₂)

/-- `domain_match` -/
def domainMatch (s₁ s₂ : Bytes) : Bool :=
  if s₁.length < s₂.length ∨ s₁.length = 0 ∨ s₂.length = 0 then false
  else
    let (tail₁, tail₂) := domainLoop s₁.reverse s₂.reverse
    if tail₂.length ≠ 0 then false
    else tail₁.head? = none || tail₁.head? = some 46

/-- The loop of `is_direct_name`. -/
def directNameLoop (name : Bytes) : List AddrPair → Bool
  | [] => false
  | pair :: pairs =>
      match pair.name with
      | none => directNameLoop name pairs
      | some dname =>
          if domainMatch name dname then !pair.negative else directNameLoop name pairs

/-- `is_direct_name` -/
def isDirectName (name : Bytes) (pairs : List AddrPair) : Bool :=
  let name := name.map tolower
  if name.length < 1 then false else directNameLoop name pairs

/-- `check_direct`, with `inet_addr` as a parameter. -/
def checkDirect (inetAddr : Bytes → InAddr) (table : DirectAddrList) (host : Bytes) : Bool :=
  let addr := inetAddr host
  if addr ≠ .none then isDirectAddress addr table.entries else isDirectName host table.entries

end MsysGit.Connect
