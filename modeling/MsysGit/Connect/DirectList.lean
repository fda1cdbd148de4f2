import MsysGit.Connect.Direct

/-!
# The verdict of the direct list

`ListEntry.Matches` says which hosts an entry of the list stands for, and the list
lets a host around the proxy when its first matching entry is a positive one.  The
table is the list entry by entry (`entries_initializeDirectAddr`), and an entry of the
table is hit by the hosts its text matches, or by every address when it has no text
(`hits_pair_iff`).  So `check_direct` follows the list exactly when the first entry
without text that is reached decides as the entries behind it.
-/

namespace MsysGit.Connect

open MsysGit.Library MsysGit.Library.CString

/-! ### The list as it is written -/

/-- An entry between two commas: a sign and a text. -/
structure ListEntry where
  negative : Bool
  text : Bytes
  deriving DecidableEq

/-- A leading `!` is the sign. -/
def ListEntry.ofPiece (piece : Bytes) : ListEntry :=
  if piece.head? = some 33 then ⟨true, piece.tail⟩ else ⟨false, piece⟩

/-- The entries in force: those that find room in the table. -/
def Globals.listEntries (g : Globals) : List ListEntry :=
  match g.directList with
  | none => []
  | some list => ((list.splitOn 44).map ListEntry.ofPiece).take maxDirectAddrList

/-- A host as the list sees it: an IPv4 address or a name. -/
inductive Host
  | address (addr : InAddr)
  | name (name : Bytes)

/-- What `inet_addr` reads as an address is one. -/
def Host.read (inetAddr : Bytes → InAddr) (host : Bytes) : Host :=
  if inetAddr host = .none then .name host else .address (inetAddr host)

/-- The host is the domain, or ends with a dot and the domain. -/
def InDomain (host domain : Bytes) : Prop :=
  domain ≠ [] ∧ (host = domain ∨ 46 :: domain <:+ host)

/-- The hosts an entry stands for.  An address stands for its network, a name for the
domain of that name in any case, and an entry without text for no host. -/
def ListEntry.Matches (host : Host) (e : ListEntry) : Prop :=
  e.text ≠ [] ∧
    match parseAddrPair e.text, host with
    | some (addr, mask), .address ip => maskAddr ip mask = maskAddr addr mask
    | none, .name name => InDomain (name.map tolower) (hostName e.text)
    | _, _ => False

/-! ### The table holds the list -/

/-- What is stored for an entry. -/
def ListEntry.pair (e : ListEntry) : AddrPair :=
  match parseAddrPair e.text with
  | some (addr, mask) =>
      { addr := maskAddr addr mask, mask := mask, name := none, negative := e.negative }
  | none =>
      { addr := .any, mask := .any, name := some (hostName e.text), negative := e.negative }

theorem ListEntry.negative_pair (e : ListEntry) : e.pair.negative = e.negative := by
  unfold ListEntry.pair
  split <;> rfl

/-- What was cut off before more was added does not come back. -/
theorem take_take_append {α : Type*} (n : ℕ) (xs ys : List α) :
    (xs.take n ++ ys).take n = (xs ++ ys).take n := by
  rw [List.take_append, List.take_append, List.take_take, Nat.min_self, List.length_take]
  congr 2
  omega

namespace DirectAddrList

variable (table : DirectAddrList)

/-- A full table ignores what is added. -/
theorem entries_push_getD (pair : AddrPair) :
    ((table.push pair).getD table).entries =
      (table.entries ++ [pair]).take maxDirectAddrList := by
  have bounded := table.bounded
  rw [push]
  split_ifs with full
  · have exactly : table.entries.length = maxDirectAddrList := Nat.le_antisymm bounded full
    rw [Option.getD_none, ← exactly, List.take_left]
  · rw [Option.getD_some, List.take_of_length_le]
    rw [List.length_append]
    exact Nat.not_le.mp full

/-- One round of the loop stores one entry. -/
theorem addEntry_eq (beg : Bytes) :
    table.addEntry beg = (table.push (ListEntry.ofPiece beg).pair).getD table := by
  rw [addEntry, ListEntry.ofPiece]
  by_cases signed : beg.head? = some 33
  · cases parsed : parseAddrPair beg.tail with
    | none => simp [signed, ListEntry.pair, parsed, addDirectHost]
    | some networks => simp [signed, ListEntry.pair, parsed, addDirectAddr]
  · cases parsed : parseAddrPair beg with
    | none => simp [signed, ListEntry.pair, parsed, addDirectHost]
    | some networks => simp [signed, ListEntry.pair, parsed, addDirectAddr]

theorem entries_addEntry (beg : Bytes) :
    (table.addEntry beg).entries =
      (table.entries ++ [(ListEntry.ofPiece beg).pair]).take maxDirectAddrList := by
  rw [addEntry_eq, entries_push_getD]

/-- The loop stores the pieces between the commas as long as there is room. -/
theorem entries_addEntries (beg : Bytes) :
    (table.addEntries beg).entries =
      (table.entries ++ (beg.splitOn 44).map fun piece => (ListEntry.ofPiece piece).pair).take
        maxDirectAddrList := by
  induction table, beg using addEntries.induct with
  | case1 table beg last =>
      have no_comma : 44 ∉ beg := fun inside => by simp [strchr, inside] at last
      rw [addEntries]
      split
      · rw [entries_addEntry, List.splitOn_eq_singleton no_comma, List.map_singleton]
      · rename_i next found
        rw [last] at found
        cases found
  | case2 table beg next found ih =>
      have inside : 44 ∈ beg := by
        by_contra none
        simp [strchr, none] at found
      have rest : beg.dropWhile (· ≠ 44) = next := by simpa [strchr, inside] using found
      rw [addEntries]
      split
      · rename_i last
        rw [last] at found
        cases found
      · rename_i other same
        obtain rfl := Option.some.inj (found.symm.trans same)
        rw [ih, entries_addEntry, take_take_append, List.append_assoc, List.singleton_append,
          splitOn_of_mem inside, rest, List.map_cons]

end DirectAddrList

/-- **The table is the list**, entry by entry. -/
theorem entries_initializeDirectAddr (g : Globals) :
    (initializeDirectAddr g).entries = g.listEntries.map ListEntry.pair := by
  rw [initializeDirectAddr, Globals.listEntries]
  cases g.directList with
  | none => rfl
  | some list =>
      show (DirectAddrList.empty.addEntries list).entries = _
      rw [DirectAddrList.entries_addEntries, List.map_take, List.map_map]
      rfl

/-! ### The table is read -/

/-- The hosts an entry of the table is for. -/
def AddrPair.Hits (host : Host) (pair : AddrPair) : Prop :=
  match host with
  | .address ip => pair.name = none ∧ maskAddr ip pair.mask = pair.addr
  | .name name => ∃ dname, pair.name = some dname ∧ InDomain (name.map tolower) dname

/-- The loop of `domain_match` comes to the end of the second string exactly when it is how
the first one ends. -/
theorem domainLoop_of_ends {tail₁ tail₂ : Bytes} (ends : tail₂ <+: tail₁) :
    domainLoop tail₁ tail₂ = (tail₁.drop tail₂.length, []) := by
  obtain ⟨front, rfl⟩ := ends
  induction tail₂ with
  | nil => simp [domainLoop]
  | cons c tail₂ ih => simpa [domainLoop] using ih

theorem domainLoop_of_not_ends {tail₁ tail₂ : Bytes} (other : ¬ tail₂ <+: tail₁) :
    (domainLoop tail₁ tail₂).2 ≠ [] := by
  induction tail₁, tail₂ using domainLoop.induct with
  | case1 c₁ tail₁ c₂ tail₂ differ =>
      rw [domainLoop, if_pos differ]
      exact List.cons_ne_nil _ _
  | case2 c₁ tail₁ c₂ tail₂ same ih =>
      obtain rfl := not_not.mp same
      rw [domainLoop, if_neg (not_not.mpr rfl)]
      exact ih fun inside => other ((List.prefix_cons_inj c₁).mpr inside)
  | case3 tail₁ tail₂ ended =>
      rw [domainLoop]
      · rintro rfl
        exact other List.nil_prefix
      · exact ended

/-- What stands in front of the domain is nothing or ends with a dot. -/
theorem inDomain_append_iff {front domain : Bytes} : InDomain (front ++ domain) domain ↔
    domain ≠ [] ∧ (front = [] ∨ front.reverse.head? = some 46) := by
  rw [InDomain, List.append_left_eq_self, List.head?_reverse]
  refine and_congr_right fun _ => or_congr_right ?_
  constructor
  · rintro ⟨host, split⟩
    rw [List.append_cons] at split
    rw [← List.append_cancel_right split, List.getLast?_append, List.getLast?_singleton]
    rfl
  · intro dot
    obtain ⟨host, rfl⟩ := List.getLast?_eq_some_iff.mp dot
    exact ⟨host, by rw [List.append_assoc]; rfl⟩

/-- **`domain_match`** -/
theorem domainMatch_iff (host domain : Bytes) :
    domainMatch host domain = true ↔ InDomain host domain := by
  by_cases blank : domain = []
  · simp [domainMatch, InDomain, blank]
  · by_cases ends : domain <:+ host
    · obtain ⟨front, rfl⟩ := ends
      have loop : domainLoop (front ++ domain).reverse domain.reverse = (front.reverse, []) := by
        rw [domainLoop_of_ends (List.reverse_prefix.mpr (List.suffix_append _ _)),
          List.reverse_append, List.drop_left]
      rw [inDomain_append_iff, domainMatch, loop]
      simp [blank]
    · have loop := domainLoop_of_not_ends (mt List.reverse_prefix.mp ends)
      have unlike : ¬ InDomain host domain := by
        rintro ⟨-, rfl | ⟨front, rfl⟩⟩
        · exact ends List.suffix_rfl
        · exact ends ⟨front ++ [46], by simp⟩
      rw [domainMatch]
      simp [loop, unlike]

theorem isDirectAddress_iff (ip : InAddr) (pairs : List AddrPair) :
    isDirectAddress ip pairs = true ↔
      Grants (AddrPair.Hits (.address ip)) (fun pair => pair.negative = false) pairs := by
  induction pairs with
  | nil => simp [isDirectAddress, Grants]
  | cons pair pairs ih =>
      by_cases named : pair.name = none
      · by_cases same : maskAddr ip pair.mask = pair.addr
        · rw [grants_of_applies ⟨named, same⟩, isDirectAddress]
          simp [named, same]
        · rw [grants_of_not_applies (fun hit => same hit.2), isDirectAddress, ← ih]
          simp [named, same]
      · rw [grants_of_not_applies (fun hit => named hit.1), isDirectAddress, ← ih]
        simp [named]

theorem directNameLoop_iff (name : Bytes) (pairs : List AddrPair) :
    directNameLoop (name.map tolower) pairs = true ↔
      Grants (AddrPair.Hits (.name name)) (fun pair => pair.negative = false) pairs := by
  induction pairs with
  | nil => simp [directNameLoop, Grants]
  | cons pair pairs ih =>
      cases named : pair.name with
      | none =>
          have other : ¬ pair.Hits (.name name) := by simp [AddrPair.Hits, named]
          rw [grants_of_not_applies other, directNameLoop, ← ih, named]
      | some dname =>
          have hits : pair.Hits (.name name) ↔ domainMatch (name.map tolower) dname = true := by
            simp [AddrPair.Hits, named, domainMatch_iff]
          by_cases same : domainMatch (name.map tolower) dname = true
          · rw [grants_of_applies (hits.mpr same), directNameLoop, named]
            simp [same]
          · rw [grants_of_not_applies (mt hits.mp same), directNameLoop, named, ← ih]
            simp [same]

/-- No entry of the table is for a host without a name. -/
theorem not_grants_nil (pairs : List AddrPair) :
    ¬ Grants (AddrPair.Hits (.name [])) (fun pair => pair.negative = false) pairs := by
  rw [grants_iff]
  rintro ⟨-, pair, -, -, -, ⟨dname, -, nonempty, same | ⟨front, split⟩⟩, -⟩
  · exact nonempty same.symm
  · cases front <;> cases split

/-- **`check_direct` reads the table** entry by entry. -/
theorem checkDirect_iff_grants (inetAddr : Bytes → InAddr) (table : DirectAddrList)
    (host : Bytes) : checkDirect inetAddr table host = true ↔
      Grants (AddrPair.Hits (.read inetAddr host)) (fun pair => pair.negative = false)
        table.entries := by
  rw [checkDirect, Host.read]
  by_cases named : inetAddr host = .none
  · rw [if_pos named, if_neg (not_not.mpr named), isDirectName, List.length_map]
    by_cases blank : host = []
    · subst blank
      simp [not_grants_nil]
    · rw [if_neg (by have := List.length_pos_iff.mpr blank; omega), directNameLoop_iff]
  · rw [if_pos named, if_neg named, isDirectAddress_iff]

/-! ### Entries without text -/

/-- An entry without text, where the host is an address. -/
def ListEntry.BlankFor (host : Host) (e : ListEntry) : Prop :=
  e.text = [] ∧ ∃ ip, host = .address ip

theorem ListEntry.hits_pair_iff (host : Host) (e : ListEntry) :
    e.pair.Hits host ↔ e.Matches host ∨ e.BlankFor host := by
  obtain ⟨negative, text⟩ := e
  by_cases blank : text = []
  · -- Read as an address, no text is the network of every address.
    subst blank
    have every : parseAddrPair [] = some (.any, .any) := rfl
    cases host with
    | address ip =>
        simp [ListEntry.pair, every, AddrPair.Hits, Matches, BlankFor, maskAddr, InAddr.any]
    | name name => simp [ListEntry.pair, every, AddrPair.Hits, Matches, BlankFor]
  · cases parsed : parseAddrPair text with
    | none =>
        cases host with
        | address ip => simp [ListEntry.pair, parsed, AddrPair.Hits, Matches, BlankFor, blank]
        | name name => simp [ListEntry.pair, parsed, AddrPair.Hits, Matches, BlankFor, blank]
    | some network =>
        cases host with
        | address ip => simp [ListEntry.pair, parsed, AddrPair.Hits, Matches, BlankFor, blank]
        | name name => simp [ListEntry.pair, parsed, AddrPair.Hits, Matches, BlankFor, blank]

/-- The list lets a host around the proxy: the first entry that matches it is positive. -/
def ListEntry.Allow (host : Host) (entries : List ListEntry) : Prop :=
  ∃ before e after, entries = before ++ e :: after ∧
    (∀ earlier ∈ before, ¬ earlier.Matches host) ∧ e.Matches host ∧ e.negative = false

theorem ListEntry.grants_iff_allow (host : Host) (entries : List ListEntry) :
    Grants (ListEntry.Matches host) (fun e => e.negative = false) entries ↔ Allow host entries :=
  grants_iff

/-- Where the host is an address, the first entry without text that is reached decides as
the entries behind it. -/
def ListEntry.BlanksAgree (host : Host) (entries : List ListEntry) : Prop :=
  ∀ ip, host = .address ip → ∀ before blank after, entries = before ++ blank :: after →
    (∀ earlier ∈ before, ¬ earlier.Matches host ∧ earlier.text ≠ []) → blank.text = [] →
      (Allow host after ↔ blank.negative = false)

theorem ListEntry.extraAgrees_iff (host : Host) (entries : List ListEntry) :
    ExtraAgrees (ListEntry.Matches host) (ListEntry.BlankFor host) (fun e => e.negative = false)
      entries ↔ BlanksAgree host entries := by
  constructor
  · intro agrees ip address before blank after split none empty
    rw [← grants_iff_allow]
    exact agrees before blank after split
      (fun earlier inside =>
        ⟨(none earlier inside).1, fun stray => (none earlier inside).2 stray.1⟩)
      ⟨empty, ip, address⟩
  · rintro agrees before blank after split none ⟨empty, ip, address⟩
    rw [grants_iff_allow]
    exact agrees ip address before blank after split
      (fun earlier inside => ⟨(none earlier inside).1,
        fun stray => (none earlier inside).2 ⟨stray, ip, address⟩⟩) empty

/-- **`check_direct` follows the list** exactly when, for an address, the first entry without
text that is reached decides as the entries behind it. -/
theorem checkDirect_follows_iff (g : Globals) (inetAddr : Bytes → InAddr) (host : Bytes) :
    (checkDirect inetAddr (initializeDirectAddr g) host = true ↔
      ListEntry.Allow (.read inetAddr host) g.listEntries) ↔
    ListEntry.BlanksAgree (.read inetAddr host) g.listEntries := by
  rw [checkDirect_iff_grants, entries_initializeDirectAddr, grants_map,
    ← ListEntry.grants_iff_allow, ← ListEntry.extraAgrees_iff]
  simp only [ListEntry.hits_pair_iff, ListEntry.negative_pair]
  exact grants_widened_iff _ fun e blank matched => matched.1 blank.1

/-- A comma at the end of `HTTP_DIRECT` sends every address around the proxy. -/
theorem not_checkDirect_follows :
    ¬ ∀ (g : Globals) (inetAddr : Bytes → InAddr) (host : Bytes),
      checkDirect inetAddr (initializeDirectAddr g) host = true ↔
        ListEntry.Allow (.read inetAddr host) g.listEntries := by
  intro always
  let g : Globals := { Globals.initial with
    relayMethod := .http
    getenv := fun name => if name = "HTTP_DIRECT" then some (text "localhost,") else none }
  let inetAddr : Bytes → InAddr := fun host =>
    if host = text "192.0.2.1" then ⟨192, 0, 2, 1⟩ else .none
  have list : g.listEntries = [⟨false, text "localhost"⟩, ⟨false, []⟩] := by decide
  have direct : checkDirect inetAddr (initializeDirectAddr g) (text "192.0.2.1") = true := by
    rw [checkDirect, entries_initializeDirectAddr, list]
    decide
  have address : Host.read inetAddr (text "192.0.2.1") = .address ⟨192, 0, 2, 1⟩ := by
    rw [Host.read, if_neg (by decide)]
    rfl
  obtain ⟨before, e, after, split, -, matched, -⟩ := (always g inetAddr _).mp direct
  have listed : e ∈ g.listEntries := by rw [split]; simp
  rw [list, List.mem_cons, List.mem_singleton] at listed
  rw [address] at matched
  rcases listed with rfl | rfl
  · have named : parseAddrPair (text "localhost") = none := by decide
    simp [ListEntry.Matches, named] at matched
  · exact matched.1 rfl

end MsysGit.Connect
