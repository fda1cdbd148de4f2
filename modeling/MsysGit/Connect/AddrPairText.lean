import MsysGit.Connect.Direct
import MsysGit.Library.Numeral

/-!
# Which texts are networks

`parse_addr_pair` documents three ways to write a network, with a dotted mask, with a
number of bits, and as its first octets (`Denotes`); it is also the test that tells
addresses from names.  `parses_iff` says for which texts its answer is the documented one;
the others are the kinds of `Misread`.
-/

namespace MsysGit.Connect

open MsysGit.Library MsysGit.Library.CString

/-! ### The documented texts -/

/-- Numbers with dots between them. -/
abbrev dotted (ds : List Bytes) : Bytes := join 46 ds

/-- The numbers of an address: one to four, and a dot may follow. -/
structure Front (ds : List Bytes) (dot : Bytes) : Prop where
  some_number : ds ≠ []
  few : ds.length ≤ 4
  numerals : ∀ d ∈ ds, Numeral d
  dot : dot = [] ∨ dot = [46]

/-- The numbers fit into a byte each. -/
def Octets (ds : List Bytes) : Prop := ∀ d ∈ ds, digits d ≤ 255

/-- Octets, followed by zero octets. -/
def addrOf (ds : List Bytes) : InAddr := .ofOctets (ds.map fun d => UInt8.ofNat (digits d))

/-- An address of 32 bits. -/
def InAddr.ofNat (n : ℕ) : InAddr :=
  ⟨UInt8.ofNat (n / 2 ^ 24), UInt8.ofNat (n / 2 ^ 16), UInt8.ofNat (n / 2 ^ 8), UInt8.ofNat n⟩

/-- The first `n` bits of an address. -/
def firstBits (n : ℕ) : InAddr := .ofNat (2 ^ 32 - 2 ^ (32 - n))

/-- The masks behind a slash: a number of bits, or dotted octets. -/
inductive MaskText : Bytes → InAddr → Prop
  | bits {d : Bytes} : Numeral d → digits d ≤ 32 → MaskText d (firstBits (digits d))
  | dotted {ms : List Bytes} : 2 ≤ ms.length → ms.length ≤ 4 → (∀ m ∈ ms, Numeral m) →
      Octets ms → MaskText (dotted ms) (addrOf ms)

/-- The address and mask that a text stands for. -/
inductive Denotes : Bytes → InAddr × InAddr → Prop
  | octets {ds : List Bytes} {dot : Bytes} : Front ds dot → Octets ds →
      Denotes (dotted ds ++ dot) (addrOf ds, .ofOctets (ds.map fun _ => 255))
  | masked {ds : List Bytes} {dot tail : Bytes} {mask : InAddr} : Front ds dot → Octets ds →
      MaskText tail mask → Denotes (dotted ds ++ dot ++ 47 :: tail) (addrOf ds, mask)

/-- The texts behind a slash that are taken as a mask, whether they are one or not. -/
inductive MaskTaken : Bytes → Prop
  /-- A number of bits that is small modulo `2 ^ 32`, and anything without dots behind it. -/
  | bits {d r : Bytes} : Numeral d → Stops r → 46 ∉ r → digits d % 2 ^ 32 ≤ 32 → MaskTaken (d ++ r)
  /-- Numbers with dots between them, and anything but a dot behind them.  There is a dot
  somewhere. -/
  | dotted {ms : List Bytes} {r : Bytes} : ms ≠ [] → ms.length ≤ 4 → (∀ m ∈ ms, Numeral m) →
      Stops r → r.head? ≠ some 46 → 46 ∈ dotted ms ++ r → MaskTaken (dotted ms ++ r)
  /-- Four numbers, and anything behind another dot. -/
  | full {ms : List Bytes} {r : Bytes} : ms.length = 4 → (∀ m ∈ ms, Numeral m) →
      MaskTaken (dotted ms ++ 46 :: r)

/-- The texts whose reading is another one. -/
inductive Misread : Bytes → Prop
  /-- The empty text is read as an address. -/
  | empty : Misread []
  /-- A number is taken modulo 256. -/
  | large {ds : List Bytes} {dot : Bytes} : Front ds dot → ¬ Octets ds →
      Misread (dotted ds ++ dot)
  /-- What is behind the slash is read as a mask without being one, or a number in front of
  it is taken modulo 256. -/
  | masked {ds : List Bytes} {dot tail : Bytes} : Front ds dot → dot = [] ∨ ds.length = 4 →
      MaskTaken tail → ¬ Octets ds ∨ (∀ mask, ¬ MaskText tail mask) →
      Misread (dotted ds ++ dot ++ 47 :: tail)
  /-- Fewer than four numbers and a dot are refused in front of a mask. -/
  | refused {ds : List Bytes} {tail : Bytes} {mask : InAddr} : Front ds [46] → Octets ds →
      ds.length < 4 → MaskText tail mask → Misread (dotted ds ++ [46] ++ 47 :: tail)

/-- **The three ways** to write a network of 24 bits. -/
theorem denotes_three_ways {a b c : Bytes} (numerals : ∀ d ∈ [a, b, c], Numeral d)
    (octets : Octets [a, b, c]) :
    Denotes (dotted [a, b, c] ++ [46]) (addrOf [a, b, c], ⟨255, 255, 255, 0⟩) ∧
      Denotes (dotted [a, b, c, text "0"] ++ [] ++ 47 :: text "24")
        (addrOf [a, b, c], ⟨255, 255, 255, 0⟩) ∧
      Denotes (dotted [a, b, c, text "0"] ++ [] ++
          47 :: dotted [text "255", text "255", text "255", text "0"])
        (addrOf [a, b, c], ⟨255, 255, 255, 0⟩) := by
  have numerals₀ : ∀ d ∈ [a, b, c] ++ [text "0"], Numeral d :=
    List.forall_mem_append.mpr ⟨numerals, List.forall_mem_singleton.mpr (by decide)⟩
  have octets₀ : Octets ([a, b, c] ++ [text "0"]) :=
    List.forall_mem_append.mpr ⟨octets, List.forall_mem_singleton.mpr (by decide)⟩
  have front : Front [a, b, c, text "0"] [] :=
    ⟨List.cons_ne_nil _ _, Nat.le_refl 4, numerals₀, Or.inl rfl⟩
  have bits : MaskText (text "24") ⟨255, 255, 255, 0⟩ := .bits (by decide) (by decide)
  refine ⟨.octets ⟨List.cons_ne_nil _ _, by simp, numerals, Or.inr rfl⟩ octets, ?_, ?_⟩
  · exact .masked front octets₀ bits
  · exact .masked front octets₀ (.dotted (by simp) (by simp) (by decide) (by
      unfold Octets
      decide))

/-! ### The numbers that are read -/

/-- The loops of `parse_addr_pair` with the numbers as they are written. -/
def octetTexts (mayEnd : Bool) : ℕ → Bytes → Option (List Bytes × Bytes)
  | 0, ptr => some ([], ptr)
  | n + 1, ptr =>
      if mayEnd = true ∧ ptr = [] then some ([], [])
      else if isdigit (ptr.headD 0) = false then none
      else if (ptr.dropWhile isdigit).head? = some 46 then
        (octetTexts mayEnd n (ptr.dropWhile isdigit).tail).map fun (ds, rest) =>
          (ptr.takeWhile isdigit :: ds, rest)
      else some ([ptr.takeWhile isdigit], ptr.dropWhile isdigit)

/-- The bytes are the numbers modulo 256. -/
theorem octetLoop_eq (mayEnd : Bool) (n : ℕ) (ptr : Bytes) :
    octetLoop mayEnd n ptr = (octetTexts mayEnd n ptr).map fun (ds, rest) =>
      (ds.map fun d => UInt8.ofNat (digits d), rest) := by
  induction n generalizing ptr with
  | zero => rfl
  | succ n ih =>
      rw [octetLoop, octetTexts]
      by_cases ended : mayEnd = true ∧ ptr = []
      · rw [if_pos ended, if_pos ended]
        rfl
      rw [if_neg ended, if_neg ended]
      by_cases other : isdigit (ptr.headD 0) = false
      · rw [if_pos other, if_pos other]
        rfl
      rw [if_neg other, if_neg other]
      have first : isdigit (ptr.headD 0) = true := by simpa using other
      obtain ⟨d, r, rfl, numeral, stops⟩ := exists_numeral first
      have octet : UInt8.ofInt (atoi (d ++ r)) = UInt8.ofNat (digits d) := by
        rw [numeral.atoi stops, ofInt_bmod_uint8]
      dsimp only
      rw [octet, numeral.dropWhile_append stops, numeral.takeWhile_append stops, ih]
      split_ifs
      · cases octetTexts mayEnd n r.tail with
        | none => rfl
        | some read => rfl
      · rfl

section Reading

variable {mayEnd : Bool} {n : ℕ} {d r : Bytes} {ds : List Bytes}

/-- One number. -/
theorem octetTexts_numeral (numeral : Numeral d) (stops : Stops r) :
    octetTexts mayEnd (n + 1) (d ++ r) =
      if r.head? = some 46 then
        (octetTexts mayEnd n r.tail).map fun (ds, rest) => (d :: ds, rest)
      else some ([d], r) := by
  have some_left : d ++ r ≠ [] := List.append_ne_nil_of_left_ne_nil numeral.nonempty r
  rw [octetTexts, if_neg fun ended => some_left ended.2,
    if_neg (by rw [numeral.headD r]; exact Bool.noConfusion),
    numeral.dropWhile_append stops, numeral.takeWhile_append stops]

theorem stops_dot (r : Bytes) : Stops (46 :: r) := by
  show isdigit 46 = false
  decide

/-- Numbers with a dot behind them, and what follows. -/
theorem octetTexts_dotted (numerals : ∀ d ∈ ds, Numeral d) (some_number : ds ≠ []) :
    octetTexts mayEnd (ds.length + n) (dotted ds ++ 46 :: r) =
      (octetTexts mayEnd n r).map fun (more, rest) => (ds ++ more, rest) := by
  induction ds with
  | nil => exact absurd rfl some_number
  | cons d ds ih =>
      have numeral := numerals d List.mem_cons_self
      rw [List.length_cons, Nat.add_right_comm]
      by_cases last : ds = []
      · subst last
        rw [dotted, join_singleton, List.length_nil, Nat.zero_add,
          octetTexts_numeral numeral (stops_dot r), List.head?_cons, if_pos rfl]
        rfl
      · rw [dotted, join_cons last, List.append_assoc, List.cons_append,
          octetTexts_numeral numeral (stops_dot _), List.head?_cons, if_pos rfl, List.tail_cons,
          ih (fun other inside => numerals other (List.mem_cons_of_mem _ inside)) last,
          Option.map_map]
        rfl

/-- Numbers, and something else behind them. -/
theorem octetTexts_last (numerals : ∀ d ∈ ds, Numeral d) (some_number : ds ≠ [])
    (few : ds.length ≤ n) (stops : Stops r) (no_dot : r.head? ≠ some 46) :
    octetTexts mayEnd n (dotted ds ++ r) = some (ds, r) := by
  induction ds generalizing n with
  | nil => exact absurd rfl some_number
  | cons d ds ih =>
      have numeral := numerals d List.mem_cons_self
      obtain ⟨m, rfl⟩ : ∃ m, n = m + 1 := ⟨n - 1, by rw [List.length_cons] at few; omega⟩
      by_cases last : ds = []
      · subst last
        rw [dotted, join_singleton, octetTexts_numeral numeral stops, if_neg no_dot]
      · rw [dotted, join_cons last, List.append_assoc, List.cons_append,
          octetTexts_numeral numeral (stops_dot _), List.head?_cons, if_pos rfl, List.tail_cons,
          ih (fun other inside => numerals other (List.mem_cons_of_mem _ inside)) last
            (Nat.le_of_succ_le_succ few)]
        rfl

/-- As many numbers as are looked for, and a dot. -/
theorem octetTexts_full (numerals : ∀ d ∈ ds, Numeral d) (some_number : ds ≠ []) (r : Bytes) :
    octetTexts mayEnd ds.length (dotted ds ++ 46 :: r) = some (ds, r) := by
  have read : octetTexts mayEnd (ds.length + 0) (dotted ds ++ 46 :: r) =
      (octetTexts mayEnd 0 r).map fun (more, rest) => (ds ++ more, rest) :=
    octetTexts_dotted numerals some_number
  rw [Nat.add_zero] at read
  rw [read, octetTexts]
  exact congrArg some (Prod.ext (List.append_nil ds) rfl)

/-- Fewer numbers, and a dot at the end. -/
theorem octetTexts_ended (numerals : ∀ d ∈ ds, Numeral d) (some_number : ds ≠ [])
    (few : ds.length < n) : octetTexts true n (dotted ds ++ [46]) = some (ds, []) := by
  obtain ⟨m, rfl⟩ := Nat.exists_eq_add_of_lt few
  rw [Nat.add_assoc, octetTexts_dotted numerals some_number, octetTexts, if_pos ⟨rfl, rfl⟩]
  exact congrArg some (Prod.ext (List.append_nil ds) rfl)

/-- Fewer numbers, a dot, and something that is no number. -/
theorem octetTexts_refused (numerals : ∀ d ∈ ds, Numeral d) (some_number : ds ≠ [])
    (few : ds.length < n) (some_left : r ≠ []) (stops : Stops r) :
    octetTexts mayEnd n (dotted ds ++ 46 :: r) = none := by
  obtain ⟨m, rfl⟩ := Nat.exists_eq_add_of_lt few
  rw [Nat.add_assoc, octetTexts_dotted numerals some_number, octetTexts,
    if_neg fun ended => some_left ended.2, if_pos (show isdigit (r.headD 0) = false from stops)]
  rfl

/-- The texts that are read: nothing, or numbers with something else behind them, or with a
dot behind them at the end or behind the last that is looked for. -/
theorem octetTexts_some {s : Bytes} (read : octetTexts mayEnd n s = some (ds, r)) :
    ds = [] ∧ s = r ∧ (n = 0 ∨ mayEnd = true ∧ s = []) ∨
    ds ≠ [] ∧ ds.length ≤ n ∧ (∀ d ∈ ds, Numeral d) ∧
      (s = dotted ds ++ r ∧ Stops r ∧ r.head? ≠ some 46 ∨
        s = dotted ds ++ 46 :: r ∧ (ds.length = n ∨ mayEnd = true ∧ r = [])) := by
  induction n generalizing s ds with
  | zero =>
      obtain ⟨rfl, rfl⟩ := Prod.mk.inj (Option.some.inj read)
      exact Or.inl ⟨rfl, rfl, Or.inl rfl⟩
  | succ n ih =>
      by_cases ended : mayEnd = true ∧ s = []
      · rw [octetTexts, if_pos ended] at read
        obtain ⟨rfl, rfl⟩ := Prod.mk.inj (Option.some.inj read)
        exact Or.inl ⟨rfl, ended.2, Or.inr ended⟩
      by_cases first : isdigit (s.headD 0) = true
      · obtain ⟨d, r', rfl, numeral, stops⟩ := exists_numeral first
        rw [octetTexts_numeral numeral stops] at read
        by_cases dot : r'.head? = some 46
        · obtain ⟨more, rfl⟩ := List.head?_eq_some_iff.mp dot
          rw [if_pos dot, List.tail_cons, Option.map_eq_some_iff] at read
          obtain ⟨⟨ds', rest⟩, read, same⟩ := read
          obtain ⟨rfl, rfl⟩ := Prod.mk.inj same
          have numerals {ds' : List Bytes} (others : ∀ d ∈ ds', Numeral d) :
              ∀ d' ∈ d :: ds', Numeral d' := List.forall_mem_cons.mpr ⟨numeral, others⟩
          rcases ih read with ⟨rfl, rfl, stop⟩ | ⟨others, few, clean, shape⟩
          · refine Or.inr ⟨List.cons_ne_nil _ _, Nat.succ_le_succ (Nat.zero_le n),
              numerals (by simp), Or.inr ⟨by rw [dotted, join_singleton], ?_⟩⟩
            exact stop.imp (fun zero => by rw [zero]; rfl) id
          · refine Or.inr ⟨List.cons_ne_nil _ _, Nat.succ_le_succ few, numerals clean, ?_⟩
            rw [dotted, join_cons others, List.append_assoc, List.append_assoc, List.cons_append,
              List.cons_append]
            refine shape.imp (fun ⟨text, behind⟩ => ⟨by rw [text], behind⟩)
              fun ⟨text, stop⟩ => ⟨by rw [text], ?_⟩
            exact stop.imp_left fun full => by rw [List.length_cons, full]
        · rw [if_neg dot] at read
          obtain ⟨rfl, rfl⟩ := Prod.mk.inj (Option.some.inj read)
          exact Or.inr ⟨List.cons_ne_nil _ _, Nat.succ_le_succ (Nat.zero_le n),
            by simpa using numeral, Or.inl ⟨by rw [dotted, join_singleton], stops, dot⟩⟩
      · rw [octetTexts, if_neg ended, if_pos (by simpa using first)] at read
        cases read

end Reading

/-! ### The mask -/

/-- What `parse_addr_pair` makes of the text behind the slash. -/
def readMask (tail : Bytes) : Option InAddr :=
  if 46 ∈ tail then (octetLoop false 4 tail).map fun (octets, _) => .ofOctets octets
  else if isdigit (tail.headD 0) = false then none
  else if atoi tail < 0 ∨ 32 < atoi tail then none
  else some (.ofPrefixLength (atoi tail).toNat)

/-- The bits of a mask, both ways. -/
theorem ofPrefixLength_eq : ∀ n ≤ 32, InAddr.ofPrefixLength n = firstBits n := by decide

/-- A documented mask is read as one. -/
theorem readMask_of_maskText {tail : Bytes} {mask : InAddr} (documented : MaskText tail mask) :
    readMask tail = some mask := by
  cases documented with
  | bits numeral small =>
      have no_dot : 46 ∉ tail := fun inside => absurd (numeral.digits 46 inside) (by decide)
      have value : atoi tail = (digits tail : ℤ) := by
        have read := numeral.atoi stops_nil
        rw [List.append_nil] at read
        rw [read, Int.bmod_eq_of_le (by omega) (by omega)]
      have first := numeral.headD []
      rw [List.append_nil] at first
      rw [readMask, if_neg no_dot, if_neg (by rw [first]; exact Bool.noConfusion), value,
        if_neg (by omega), Int.toNat_natCast, ofPrefixLength_eq _ small]
  | @dotted ms two four numerals octets =>
      have some_number : ms ≠ [] := by
        rintro rfl
        exact absurd two (by decide)
      have has_dot : 46 ∈ dotted ms := by
        obtain ⟨first, others, rfl⟩ := List.exists_cons_of_ne_nil some_number
        have more : others ≠ [] := by
          rintro rfl
          exact absurd two (Nat.not_succ_le_self 1)
        rw [dotted, join_cons more]
        exact List.mem_append_right _ List.mem_cons_self
      have read : octetTexts false 4 (dotted ms ++ []) = some (ms, []) :=
        octetTexts_last numerals some_number four stops_nil nofun
      rw [List.append_nil] at read
      rw [readMask, if_pos has_dot, octetLoop_eq, read]
      rfl

/-- The numbers of bits that are not refused. -/
theorem atoi_small_iff {d r : Bytes} (numeral : Numeral d) (stops : Stops r) :
    ¬ (atoi (d ++ r) < 0 ∨ 32 < atoi (d ++ r)) ↔ digits d % 2 ^ 32 ≤ 32 := by
  rw [numeral.atoi stops, Int.bmod_def]
  split_ifs <;> omega

/-- What is taken is one of these texts. -/
theorem maskTaken_of_readMask {tail : Bytes} (taken : readMask tail ≠ none) : MaskTaken tail := by
  rw [readMask] at taken
  by_cases dot : 46 ∈ tail
  · rw [if_pos dot, octetLoop_eq, Option.map_map, Ne, Option.map_eq_none_iff, ← Ne,
      Option.ne_none_iff_exists'] at taken
    obtain ⟨⟨ms, r⟩, read⟩ := taken
    rcases octetTexts_some read with ⟨-, -, stop⟩ | ⟨some_number, few, numerals, shape⟩
    · rcases stop with zero | ended
      · cases zero
      · cases ended.1
    · rcases shape with ⟨rfl, stops, no_dot⟩ | ⟨rfl, stop⟩
      · exact .dotted some_number few numerals stops no_dot dot
      · rcases stop with full | ended
        · exact .full full numerals
        · cases ended.1
  · rw [if_neg dot] at taken
    by_cases other : isdigit (tail.headD 0) = false
    · rw [if_pos other] at taken
      exact absurd rfl taken
    · rw [if_neg other] at taken
      have first : isdigit (tail.headD 0) = true := by simpa using other
      obtain ⟨d, r, rfl, numeral, stops⟩ := exists_numeral first
      refine .bits numeral stops (fun inside => dot (List.mem_append_right _ inside)) ?_
      refine (atoi_small_iff numeral stops).mp fun refused => ?_
      rw [if_pos refused] at taken
      exact taken rfl

/-- **What is taken as a mask.** -/
theorem readMask_ne_none_iff {tail : Bytes} : readMask tail ≠ none ↔ MaskTaken tail := by
  refine ⟨maskTaken_of_readMask, ?_⟩
  rintro (@⟨d, r, numeral, stops, no_dot, small⟩ |
    @⟨ms, r, some_number, few, numerals, stops, no_dot, dot⟩ | @⟨ms, r, full, numerals⟩)
  · have no_dots : 46 ∉ d ++ r := by
      rw [List.mem_append, not_or]
      exact ⟨fun inside => absurd (numeral.digits 46 inside) (by decide), no_dot⟩
    rw [readMask, if_neg no_dots, if_neg (by rw [numeral.headD]; exact Bool.noConfusion),
      if_neg ((atoi_small_iff numeral stops).mpr small)]
    exact Option.some_ne_none _
  · rw [readMask, if_pos dot, octetLoop_eq, octetTexts_last numerals some_number few stops no_dot]
    exact Option.some_ne_none _
  · have some_number : ms ≠ [] := by
      rintro rfl
      cases full
    rw [readMask, if_pos (List.mem_append_right _ List.mem_cons_self), octetLoop_eq, ← full,
      octetTexts_full numerals some_number]
    exact Option.some_ne_none _

/-! ### The whole text -/

/-- `parse_addr_pair`, in terms of the numbers it reads. -/
theorem parseAddrPair_eq (str : Bytes) :
    parseAddrPair str = (octetTexts true 4 str).bind fun (ds, ptr) =>
      match ptr with
      | [] => some (addrOf ds, .ofOctets (ds.map fun _ => 255))
      | c :: tail =>
          if c ≠ 47 then none else (readMask tail).map fun mask => (addrOf ds, mask) := by
  rw [parseAddrPair, octetLoop_eq]
  cases octetTexts true 4 str with
  | none => rfl
  | some read =>
      obtain ⟨ds, ptr⟩ := read
      cases ptr with
      | nil =>
          simp only [Option.map_some, Option.bind_eq_bind, Option.bind_some, List.map_map]
          rfl
      | cons c tail =>
          simp only [Option.map_some, Option.bind_eq_bind, Option.bind_some, readMask]
          split_ifs
          · rfl
          · cases octetLoop false 4 tail with
            | none => rfl
            | some mask => rfl
          · rfl
          · rfl
          · rfl

section Texts

variable {ds : List Bytes} {dot tail : Bytes}

theorem stops_slash (tail : Bytes) : Stops (47 :: tail) := by
  show isdigit 47 = false
  decide

/-- Numbers alone are read. -/
theorem Front.read (front : Front ds dot) :
    octetTexts true 4 (dotted ds ++ dot) = some (ds, []) := by
  rcases front.dot with rfl | rfl
  · exact octetTexts_last front.numerals front.some_number front.few stops_nil nofun
  · rcases Nat.lt_or_eq_of_le front.few with few | full
    · exact octetTexts_ended front.numerals front.some_number few
    · rw [← full]
      exact octetTexts_full front.numerals front.some_number []

/-- Numbers with a slash behind them are read, unless there are fewer than four and a dot. -/
theorem Front.read_slash (front : Front ds dot) (whole : dot = [] ∨ ds.length = 4)
    (tail : Bytes) :
    octetTexts true 4 (dotted ds ++ dot ++ 47 :: tail) = some (ds, 47 :: tail) := by
  rcases front.dot with rfl | rfl
  · rw [List.append_nil]
    exact octetTexts_last front.numerals front.some_number front.few (stops_slash tail) (by simp)
  · have full := whole.resolve_left (List.cons_ne_nil _ _)
    rw [List.append_assoc, ← full]
    exact octetTexts_full front.numerals front.some_number (47 :: tail)

theorem Front.refused (front : Front ds [46]) (few : ds.length < 4) (tail : Bytes) :
    octetTexts true 4 (dotted ds ++ [46] ++ 47 :: tail) = none := by
  rw [List.append_assoc]
  exact octetTexts_refused front.numerals front.some_number few (List.cons_ne_nil _ _)
    (stops_slash tail)

/-- The address and mask are those that are documented. -/
theorem parseAddrPair_octets (front : Front ds dot) :
    parseAddrPair (dotted ds ++ dot) = some (addrOf ds, .ofOctets (ds.map fun _ => 255)) := by
  rw [parseAddrPair_eq, front.read]
  rfl

theorem parseAddrPair_masked (front : Front ds dot) (whole : dot = [] ∨ ds.length = 4)
    (tail : Bytes) : parseAddrPair (dotted ds ++ dot ++ 47 :: tail) =
      (readMask tail).map fun mask => (addrOf ds, mask) := by
  rw [parseAddrPair_eq, front.read_slash whole]
  rfl

end Texts

/-- A documented text is read, unless there are fewer than four numbers and a dot in front of a
mask. -/
theorem Denotes.read {str : Bytes} {pair : InAddr × InAddr} (denotes : Denotes str pair) :
    octetTexts true 4 str = none ∨ ∃ ds ptr, octetTexts true 4 str = some (ds, ptr) ∧ ds ≠ [] ∧
      Octets ds ∧ ∀ tail, ptr = 47 :: tail → MaskText tail pair.2 := by
  rcases denotes with ⟨front, octets⟩ | @⟨ds, dot, tail, mask, front, octets, documented⟩
  · exact Or.inr ⟨_, [], front.read, front.some_number, octets, nofun⟩
  · by_cases whole : dot = [] ∨ ds.length = 4
    · refine Or.inr ⟨ds, 47 :: tail, front.read_slash whole tail, front.some_number, octets, ?_⟩
      rintro tail' same
      obtain rfl := (List.cons.inj same).2
      exact documented
    · obtain ⟨some_dot, few⟩ := not_or.mp whole
      obtain rfl := front.dot.resolve_left some_dot
      exact Or.inl (front.refused (Nat.lt_of_le_of_ne front.few few) tail)

theorem not_denotes_nil {pair : InAddr × InAddr} : ¬ Denotes [] pair := by
  intro denotes
  rcases denotes.read with none | ⟨ds, ptr, read, some_number, -⟩
  · cases none
  · exact some_number (congrArg Prod.fst (Option.some.inj read)).symm

/-- The text that was read, and the numbers in it. -/
theorem front_of_read {str ptr : Bytes} {ds : List Bytes} (some_left : str ≠ [])
    (read : octetTexts true 4 str = some (ds, ptr)) :
    ∃ dot, Front ds dot ∧ str = dotted ds ++ dot ++ ptr ∧
      (ptr = [] ∨ dot = [] ∨ ds.length = 4) := by
  rcases octetTexts_some read with ⟨-, -, stop⟩ | ⟨some_number, few, numerals, shape⟩
  · rcases stop with zero | ⟨-, empty⟩
    · cases zero
    · exact absurd empty some_left
  · rcases shape with ⟨rfl, -, -⟩ | ⟨rfl, stop⟩
    · exact ⟨[], ⟨some_number, few, numerals, Or.inl rfl⟩, by rw [List.append_nil],
        Or.inr (Or.inl rfl)⟩
    · refine ⟨[46], ⟨some_number, few, numerals, Or.inr rfl⟩, by rw [List.append_assoc]; rfl, ?_⟩
      exact stop.symm.imp (fun ended => ended.2) Or.inr

/-- What is read without being one of the exceptions is documented. -/
theorem denotes_of_parse {str : Bytes} {pair : InAddr × InAddr} (proper : ¬ Misread str)
    (parsed : parseAddrPair str = some pair) : Denotes str pair := by
  have some_left : str ≠ [] := by
    rintro rfl
    exact proper .empty
  rw [parseAddrPair_eq, Option.bind_eq_some_iff] at parsed
  obtain ⟨⟨ds, ptr⟩, read, parsed⟩ := parsed
  obtain ⟨dot, front, rfl, whole⟩ := front_of_read some_left read
  cases ptr with
  | nil =>
      obtain rfl := Option.some.inj parsed
      rw [List.append_nil] at proper ⊢
      exact .octets front (by_contra fun large => proper (.large front large))
  | cons c tail =>
      dsimp only at parsed
      split_ifs at parsed with slash
      obtain rfl := not_not.mp slash
      obtain ⟨mask, masked, rfl⟩ := Option.map_eq_some_iff.mp parsed
      have right : ¬ (¬ Octets ds ∨ ∀ mask, ¬ MaskText tail mask) := fun wrong =>
        proper (.masked front (whole.resolve_left (List.cons_ne_nil _ _))
          (readMask_ne_none_iff.mp (by rw [masked]; exact Option.some_ne_none _)) wrong)
      obtain ⟨octets, documented⟩ := not_or.mp right
      obtain ⟨mask', documented⟩ := not_forall_not.mp documented
      obtain rfl := Option.some.inj (masked.symm.trans (readMask_of_maskText documented))
      exact .masked front (not_not.mp octets) documented

/-- **Which texts are read as documented**: all but those of `Misread`. -/
theorem parses_iff (str : Bytes) :
    (∀ pair, parseAddrPair str = some pair ↔ Denotes str pair) ↔ ¬ Misread str := by
  constructor
  · rintro right (_ | ⟨front, large⟩ | ⟨front, whole, taken, wrong⟩ | ⟨front, octets, few, mask⟩)
    · exact not_denotes_nil ((right (.any, .any)).mp rfl)
    · rcases ((right _).mp (parseAddrPair_octets front)).read with
        none | ⟨ds', ptr, read, -, octets, -⟩
      · rw [front.read] at none
        cases none
      · rw [front.read] at read
        obtain ⟨rfl, rfl⟩ := Prod.mk.inj (Option.some.inj read)
        exact large octets
    · obtain ⟨mask, masked⟩ := Option.ne_none_iff_exists'.mp (readMask_ne_none_iff.mpr taken)
      have parsed := (parseAddrPair_masked front whole _).trans (congrArg (Option.map _) masked)
      rcases ((right _).mp parsed).read with none | ⟨ds', ptr, read, -, octets, documented⟩
      · rw [front.read_slash whole] at none
        cases none
      · rw [front.read_slash whole] at read
        obtain ⟨rfl, rfl⟩ := Prod.mk.inj (Option.some.inj read)
        rcases wrong with large | undocumented
        · exact large octets
        · exact undocumented _ (documented _ rfl)
    · have parsed := (right _).mpr (.masked front octets mask)
      rw [parseAddrPair_eq, front.refused few] at parsed
      cases parsed
  · intro proper pair
    refine ⟨denotes_of_parse proper, ?_⟩
    rintro (⟨front, octets⟩ | @⟨ds, dot, tail, mask, front, octets, documented⟩)
    · exact parseAddrPair_octets front
    · have whole : dot = [] ∨ ds.length = 4 := by
        by_contra short
        obtain ⟨some_dot, few⟩ := not_or.mp short
        obtain rfl := front.dot.resolve_left some_dot
        exact proper (.refused front octets (Nat.lt_of_le_of_ne front.few few) documented)
      rw [parseAddrPair_masked front whole, readMask_of_maskText documented]
      rfl

/-- The empty text is read as the address `0.0.0.0` with the mask `0.0.0.0`. -/
theorem not_parses_empty : parseAddrPair [] = some (.any, .any) ∧
    ¬ ∀ pair, parseAddrPair [] = some pair ↔ Denotes [] pair := by
  exact ⟨rfl, fun right => not_denotes_nil ((right (.any, .any)).mp rfl)⟩

end MsysGit.Connect
