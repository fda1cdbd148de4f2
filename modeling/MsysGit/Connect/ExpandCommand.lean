import MsysGit.Connect.Strings
import MsysGit.Library.Numeral

/-!
# `expand_host_and_port`

The allocation has room for the format, one host and a number.  The memory is modelled
with its contents: a store outside of it, or a `strlen` that finds no terminator in it,
is no result (`none`).  What has been written so far is a beginning of the memory
(`Written`), and after the first pass of the loop a terminator follows it; only then can
the end of the text be found again.
-/

namespace MsysGit.Connect

open MsysGit.Library MsysGit.Library.CString

variable {size : ℕ}

/-! ### The code -/

/-- What `%d` prints. -/
def decimal (n : Int32) : Bytes := text (toString n.toInt)

/-- Stores from `dst` on, which must stay in the memory. -/
def put (buf : Buffer UInt8 size) (dst : ℕ) (bytes : Bytes) : Option (Buffer UInt8 size) :=
  if dst + bytes.length ≤ size then some (buf.store dst bytes) else none

/-- `strlen (buf)`, which must find a terminator in the memory. -/
def strlen (buf : Buffer UInt8 size) : Option ℕ :=
  if 0 ∈ buf.cells then some (cstr buf.cells 0).length else none

/-- The loop of `expand_host_and_port`, with `src` the rest of the format. -/
def expandLoop (host : Bytes) (port : Int32) :
    Bytes → Buffer UInt8 size → ℕ → Option (Buffer UInt8 size)
  | [], buf, _ => some buf
  | 37 :: 104 :: src, buf, dst => do
      let buf ← put buf dst (host ++ [0])
      let dst ← strlen buf
      expandLoop host port src (← put buf dst [0]) dst
  | 37 :: 112 :: src, buf, dst => do
      -- `snprintf` is given all of `len`, wherever `dst` is.
      let buf ← put buf dst ((decimal port).take (size - 1) ++ [0])
      let dst ← strlen buf
      expandLoop host port src (← put buf dst [0]) dst
  | 37 :: src, buf, _ => do
      let dst ← strlen buf
      expandLoop host port src (← put buf dst [0]) dst
  | 92 :: 114 :: src, buf, dst => do
      let buf ← put buf dst [13]
      expandLoop host port src (← put buf (dst + 1) [0]) (dst + 1)
  | 92 :: 110 :: src, buf, dst => do
      let buf ← put buf dst [10]
      expandLoop host port src (← put buf (dst + 1) [0]) (dst + 1)
  | 92 :: 116 :: src, buf, dst => do
      let buf ← put buf dst [9]
      expandLoop host port src (← put buf (dst + 1) [0]) (dst + 1)
  | 92 :: src, buf, dst => do
      expandLoop host port src (← put buf dst [0]) dst
  | c :: src, buf, dst => do
      let buf ← put buf dst [c]
      expandLoop host port src (← put buf (dst + 1) [0]) (dst + 1)

/-- `expand_host_and_port`, with the memory as `xmalloc` gives it. -/
def expandHostAndPort (fmt host : Bytes) (port : Int32)
    (buf : Buffer UInt8 (fmt.length + host.length + 20)) : Option Bytes := do
  let buf ← expandLoop host port fmt buf 0
  let length ← strlen buf
  if length < fmt.length + host.length + 20 then some (cstr buf.cells 0) else none

/-! ### The text that is meant -/

/-- What a format is made of. -/
inductive Piece where
  | host
  | port
  | byte (c : UInt8)
  /-- An introducing character that is dropped. -/
  | dropped
  deriving DecidableEq

/-- The pieces of a format. -/
def pieces : Bytes → List Piece
  | [] => []
  | 37 :: 104 :: fmt => .host :: pieces fmt
  | 37 :: 112 :: fmt => .port :: pieces fmt
  | 37 :: fmt => .dropped :: pieces fmt
  | 92 :: 114 :: fmt => .byte 13 :: pieces fmt
  | 92 :: 110 :: fmt => .byte 10 :: pieces fmt
  | 92 :: 116 :: fmt => .byte 9 :: pieces fmt
  | 92 :: fmt => .dropped :: pieces fmt
  | c :: fmt => .byte c :: pieces fmt

/-- The text for a piece. -/
def Piece.text (host : Bytes) (port : Int32) : Piece → Bytes
  | .host => host
  | .port => decimal port
  | .byte c => [c]
  | .dropped => []

/-- The text for a format. -/
def expand (host : Bytes) (port : Int32) (fmt : Bytes) : Bytes :=
  (pieces fmt).flatMap (Piece.text host port)

example : expand (text "example.com") 23 (text "open %h:%p\\r\\n 100%\\q") =
    text "open example.com:23\r\n 100q" := by decide +kernel

/-! ### Memory that has been written -/

/-- The memory begins with `out`. -/
def Written (buf : Buffer UInt8 size) (out : Bytes) : Prop := buf.front out.length = out

/-- What a loop that writes `out` and a terminator ends with: the memory has room for both,
or there is no result. -/
def Yields (result : Option (Buffer UInt8 size)) (out : Bytes) : Prop :=
  if out.length < size then ∃ buf, result = some buf ∧ Written buf (out ++ [0]) else result = none

section Writing

variable {buf : Buffer UInt8 size} {out bytes all : Bytes}

theorem Written.nil : Written buf [] := rfl

theorem Written.left (written : Written buf (out ++ bytes)) : Written buf out := by
  have shorter := congrArg (List.take out.length) written
  rw [Buffer.front, List.take_take, List.length_append, Nat.min_eq_left (Nat.le_add_right _ _),
    List.take_left] at shorter
  exact shorter

theorem Written.store (written : Written buf out) (fits : out.length + bytes.length ≤ size) :
    Written (buf.store out.length bytes) (out ++ bytes) := by
  rw [Written, List.length_append, Buffer.front_store _ _ _ fits, written]

theorem Written.cells (written : Written buf (out ++ bytes)) :
    ∃ rest, buf.cells = out ++ bytes ++ rest := by
  refine ⟨buf.cells.drop (out ++ bytes).length, ?_⟩
  have split := List.take_append_drop (out ++ bytes).length buf.cells
  rw [← Buffer.front, written] at split
  exact split.symm

theorem Written.length_le (written : Written buf out) : out.length ≤ size := by
  have covered := congrArg List.length written
  rw [Buffer.front, List.length_take, buf.length_cells] at covered
  omega

/-- The text up to the terminator. -/
theorem Written.cstr (written : Written buf (out ++ [0])) (clean : 0 ∉ out) :
    CString.cstr buf.cells 0 = out := by
  obtain ⟨rest, cells⟩ := written.cells
  rw [cells, List.append_assoc, List.singleton_append, cstr_terminated, CString.cstr,
    List.drop_zero, takeWhile_ne_of_notMem clean]

theorem Written.strlen (written : Written buf (out ++ [0])) (clean : 0 ∉ out) :
    Connect.strlen buf = some out.length := by
  obtain ⟨rest, cells⟩ := written.cells
  rw [Connect.strlen, if_pos (by rw [cells]; simp), written.cstr clean]

/-- Memory without a terminator has no text. -/
theorem strlen_filled {b : UInt8} (other : 0 ≠ b) : strlen (.filled b size) = none :=
  if_neg fun inside => other (List.eq_of_mem_replicate inside)

/-- **One store**: it stays in the memory if what is yet to come does. -/
theorem yields_put {next : Buffer UInt8 size → Option (Buffer UInt8 size)}
    (written : Written buf out) (few : out.length + bytes.length ≤ all.length + 1)
    (rest : ∀ buf, Written buf (out ++ bytes) → Yields (next buf) all) :
    Yields (put buf out.length bytes >>= next) all := by
  rw [put]
  split_ifs with fits
  · exact rest _ (written.store fits)
  · rw [Yields, if_neg (by omega)]
    rfl

theorem yields_strlen {next : ℕ → Option (Buffer UInt8 size)}
    (written : Written buf (out ++ [0])) (clean : 0 ∉ out) (rest : Yields (next out.length) all) :
    Yields (strlen buf >>= next) all := by
  rw [written.strlen clean]
  exact rest

end Writing

/-! ### Decimals -/

/-- A number, or a sign and a number. -/
theorem decimal_eq (n : Int32) :
    ∃ k < 10 ^ 10, decimal n = text (toString k) ∨ decimal n = 45 :: text (toString k) := by
  have low := n.le_toInt
  have high := n.toInt_lt
  rw [decimal, Int.toString_eq_repr, Int.repr_eq_if]
  split_ifs
  · exact ⟨n.toInt.toNat, by omega, .inl rfl⟩
  · refine ⟨(-n.toInt).toNat, by omega, .inr ?_⟩
    rw [text, String.toList_append, List.map_append]
    rfl

theorem zero_notMem_decimal (n : Int32) : 0 ∉ decimal n := by
  obtain ⟨k, -, plain | signed⟩ := decimal_eq n
  · rw [plain]
    exact (numeral_toString k).zero_notMem
  · rw [signed, List.mem_cons, not_or]
    exact ⟨by decide, (numeral_toString k).zero_notMem⟩

theorem length_decimal_le (n : Int32) : (decimal n).length ≤ 11 := by
  obtain ⟨k, small, plain | signed⟩ := decimal_eq n
  · rw [plain]
    exact (length_toString_le (by decide) small).trans (by decide)
  · rw [signed, List.length_cons]
    exact Nat.succ_le_succ (length_toString_le (by decide) small)

/-! ### The loop -/

/-- The first pass of the loop looks for the end of what has been written. -/
def ReadsEnd (fmt : Bytes) : Prop :=
  fmt = [] ∨ fmt.head? = some 37 ∧ fmt.tail.head? ≠ some 104 ∧ fmt.tail.head? ≠ some 112

instance (fmt : Bytes) : Decidable (ReadsEnd fmt) := inferInstanceAs (Decidable (_ ∨ _))

section Loop

variable {host : Bytes} {port : Int32}

theorem expand_cons (piece : Piece) {fmt rest : Bytes} (first : pieces fmt = piece :: pieces rest) :
    expand host port fmt = piece.text host port ++ expand host port rest := by
  rw [expand, first, List.flatMap_cons, ← expand]

theorem length_byte (out : Bytes) (c : UInt8) :
    out.length + 1 = (out ++ (Piece.byte c).text host port).length := by
  rw [List.length_append]
  rfl

/-- No piece writes a zero, unless the host or the format has one. -/
theorem zero_notMem_expand (clean_host : 0 ∉ host) {fmt : Bytes} (clean : 0 ∉ fmt) :
    0 ∉ expand host port fmt := by
  have byte : ∀ c, .byte c ∈ pieces fmt → c ≠ 0 := by
    fun_induction pieces fmt with
    | case1 => simp
    | case2 fmt ih | case3 fmt ih => simpa using ih (by simp_all)
    | case4 fmt _ _ ih => simpa using ih (by simp_all)
    | case5 fmt ih | case6 fmt ih | case7 fmt ih => simpa using ih (by simp_all)
    | case8 fmt _ _ _ ih => simpa using ih (by simp_all)
    | case9 c fmt _ _ _ _ _ _ _ ih =>
        have other : c ≠ 0 := fun zero => clean (zero ▸ List.mem_cons_self)
        simpa [other] using ih fun inside => clean (List.mem_cons_of_mem _ inside)
  rw [expand, List.mem_flatMap]
  rintro ⟨piece, inside, zero⟩
  cases piece with
  | host => exact clean_host zero
  | port => exact zero_notMem_decimal port zero
  | byte c => exact byte c inside (List.mem_singleton.mp zero).symm
  | dropped => exact List.not_mem_nil zero

/-- A pass that copies a text, finds its end again and terminates it. -/
theorem yields_text {buf : Buffer UInt8 size} {out copied all : Bytes}
    {next : Buffer UInt8 size → ℕ → Option (Buffer UInt8 size)} (written : Written buf out)
    (clean : 0 ∉ out ++ copied) (few : (out ++ copied).length ≤ all.length)
    (rest : ∀ buf, Written buf (out ++ copied ++ [0]) →
      Yields (next buf (out ++ copied).length) all) :
    Yields (do
      let buf ← put buf out.length (copied ++ [0])
      let dst ← strlen buf
      next (← put buf dst [0]) dst) all := by
  rw [List.length_append] at few
  refine yields_put written ?_ fun buf ended => ?_
  · rw [List.length_append, List.length_singleton]
    omega
  · rw [← List.append_assoc] at ended
    refine yields_strlen ended clean (yields_put ended.left ?_ rest)
    rw [List.length_append, List.length_singleton]
    omega

/-- A pass that stores one byte, and a terminator behind it. -/
theorem yields_byte {buf : Buffer UInt8 size} {out all : Bytes} {c : UInt8}
    {next : Buffer UInt8 size → Option (Buffer UInt8 size)} (written : Written buf out)
    (few : (out ++ [c]).length ≤ all.length)
    (rest : ∀ buf, Written buf (out ++ [c] ++ [0]) → Yields (next buf) all) :
    Yields (put buf out.length [c] >>= fun buf => put buf (out.length + 1) [0] >>= next) all := by
  have length : (out ++ [c]).length = out.length + 1 := List.length_append
  rw [length] at few
  refine yields_put written ?_ fun buf stored => ?_
  · rw [List.length_singleton]
    omega
  · rw [← length]
    refine yields_put stored ?_ rest
    rw [length, List.length_singleton]
    omega

/-- **The run**: whatever is left of the format, its text is written behind what is there
already, which is terminated if the first pass needs it to be. -/
theorem yields_loop (clean_host : 0 ∉ host) (room : 12 < size) (src : Bytes)
    (buf : Buffer UInt8 size) (dst : ℕ) (out : Bytes) (clean : 0 ∉ src) (clean_out : 0 ∉ out)
    (at_end : dst = out.length) (written : Written buf out)
    (ended : ReadsEnd src → Written buf (out ++ [0])) :
    Yields (expandLoop host port src buf dst) (out ++ expand host port src) := by
  have behind {out' : Bytes} (rest : Bytes) :
      out'.length ≤ (out' ++ expand host port rest).length := by
    rw [List.length_append]
    exact Nat.le_add_right _ _
  fun_induction expandLoop host port src buf dst generalizing out with
  | case1 buf dst =>
      have written := ended (.inl rfl)
      have inside : out.length < size := by
        have covered := written.length_le
        rwa [List.length_append, List.length_singleton] at covered
      rw [Yields, expand, pieces, List.flatMap_nil, List.append_nil, if_pos inside]
      exact ⟨buf, rfl, written⟩
  | case2 src buf dst ih =>
      subst at_end
      rw [expand_cons .host rfl, ← List.append_assoc]
      have clean_src : 0 ∉ src := by simp_all
      have clean_out : 0 ∉ out ++ host := by simp [clean_out, clean_host]
      exact yields_text written clean_out (behind src) fun buf ended =>
        ih _ buf _ clean_src clean_out rfl ended.left fun _ => ended
  | case3 src buf dst ih =>
      subst at_end
      rw [expand_cons .port rfl, ← List.append_assoc]
      have clean_src : 0 ∉ src := by simp_all
      have clean_out : 0 ∉ out ++ decimal port := by simp [clean_out, zero_notMem_decimal]
      have short := length_decimal_le port
      rw [List.take_of_length_le (by omega)]
      exact yields_text written clean_out (behind src) fun buf ended =>
        ih _ buf _ clean_src clean_out rfl ended.left fun _ => ended
  | case4 src buf dst not_host not_port ih =>
      subst at_end
      have drop : pieces (37 :: src) = .dropped :: pieces src := by rw [pieces] <;> assumption
      rw [expand_cons .dropped drop, Piece.text, List.nil_append]
      have clean_src : 0 ∉ src := by simp_all
      have other {c : UInt8} (not_next : ∀ rest, src = c :: rest → False) : src.head? ≠ some c :=
        fun next => (List.head?_eq_some_iff.mp next).elim not_next
      have written := ended (.inr ⟨rfl, other not_host, other not_port⟩)
      refine yields_strlen written clean_out (yields_put written.left ?_ fun buf ended =>
        ih _ buf _ clean_src clean_out rfl ended.left fun _ => ended)
      exact Nat.succ_le_succ (behind src)
  | case5 src buf dst ih | case6 src buf dst ih | case7 src buf dst ih =>
      subst at_end
      rw [expand_cons (.byte _) rfl, ← List.append_assoc]
      have clean_src : 0 ∉ src := by simp_all
      exact yields_byte written (behind src) fun buf ended =>
        ih buf _ clean_src (by simp [clean_out, Piece.text]) (length_byte out _) ended.left
          fun _ => ended
  | case8 src buf dst not_cr not_lf not_tab ih =>
      subst at_end
      have drop : pieces (92 :: src) = .dropped :: pieces src := by rw [pieces] <;> assumption
      rw [expand_cons .dropped drop, Piece.text, List.nil_append]
      have clean_src : 0 ∉ src := by simp_all
      refine yields_put written ?_ fun buf ended =>
        ih buf _ clean_src clean_out rfl ended.left fun _ => ended
      exact Nat.succ_le_succ (behind src)
  | case9 c src buf dst _ _ _ _ _ _ _ ih =>
      subst at_end
      have plain : pieces (c :: src) = .byte c :: pieces src := by rw [pieces] <;> assumption
      rw [expand_cons (.byte c) plain, ← List.append_assoc]
      have clean_src : 0 ∉ src := fun inside => clean (List.mem_cons_of_mem _ inside)
      have other : 0 ≠ c := fun zero => clean (zero ▸ List.mem_cons_self)
      exact yields_byte written (behind src) fun buf ended =>
        ih buf _ clean_src (by simp [clean_out, other, Piece.text]) (length_byte out c) ended.left
          fun _ => ended

/-- The first pass finds no end in memory without a zero. -/
theorem expandLoop_readsEnd {b : UInt8} (other : 0 ≠ b) {fmt : Bytes} (reads : ReadsEnd fmt) :
    expandLoop host port fmt (.filled b size) 0 >>= strlen = none := by
  obtain rfl | ⟨percent, not_host, not_port⟩ := reads
  · exact strlen_filled other
  · obtain ⟨fmt, rfl⟩ := List.head?_eq_some_iff.mp percent
    rw [List.tail_cons] at not_host not_port
    rw [expandLoop, strlen_filled other]
    · rfl
    · rintro rest rfl
      exact not_host rfl
    · rintro rest rfl
      exact not_port rfl

/-- A piece that is written as a byte of its own. -/
def Piece.isByte : Piece → Bool
  | .byte _ => true
  | _ => false

/-- How long the text for a format is: it has the host and the number as often as the format
asks for them. -/
def textLength (fmt host : Bytes) (port : Int32) : ℕ :=
  (pieces fmt).count .host * host.length + (pieces fmt).count .port * (decimal port).length +
    (pieces fmt).countP Piece.isByte

theorem length_expand (fmt : Bytes) :
    (expand host port fmt).length = textLength fmt host port := by
  rw [expand, textLength]
  induction pieces fmt with
  | nil => simp
  | cons piece rest ih =>
      rw [List.flatMap_cons, List.length_append, ih]
      cases piece <;> simp [Piece.text, Piece.isByte, List.countP_cons, Nat.add_mul] <;>
        omega

end Loop

/-! ### The result -/

/-- Whatever the memory holds, the result is the text for the format, and every store stays
in the memory. -/
def Expands (fmt host : Bytes) (port : Int32) : Prop :=
  ∀ buf, expandHostAndPort fmt host port buf = some (expand host port fmt)

section Result

variable {fmt host : Bytes} {port : Int32}

/-- All of the text fits into the memory, and the first pass writes a terminator. -/
theorem expandHostAndPort_eq (clean : 0 ∉ fmt) (clean_host : 0 ∉ host) (starts : ¬ReadsEnd fmt)
    (fits : textLength fmt host port < fmt.length + host.length + 20)
    (buf : Buffer UInt8 (fmt.length + host.length + 20)) :
    expandHostAndPort fmt host port buf = some (expand host port fmt) := by
  have written : Yields (expandLoop host port fmt buf 0) ([] ++ expand host port fmt) :=
    yields_loop clean_host (by omega) fmt buf 0 [] clean List.not_mem_nil rfl .nil
      fun reads => absurd reads starts
  rw [← length_expand] at fits
  rw [Yields, List.nil_append, if_pos fits] at written
  obtain ⟨buf', result, written⟩ := written
  have clean : 0 ∉ expand host port fmt := zero_notMem_expand clean_host clean
  rw [expandHostAndPort, result]
  show (strlen buf' >>= _) = _
  rw [written.strlen clean]
  show (if _ then _ else _) = _
  rw [if_pos fits, written.cstr clean]

/-- Otherwise there is no result in memory that holds no zero. -/
theorem expandHostAndPort_filled (clean : 0 ∉ fmt) (clean_host : 0 ∉ host)
    (bad : ¬(¬ReadsEnd fmt ∧ textLength fmt host port < fmt.length + host.length + 20)) :
    expandHostAndPort fmt host port (.filled 1 _) = none := by
  rw [expandHostAndPort]
  by_cases reads : ReadsEnd fmt
  · have stuck : expandLoop host port fmt
        (.filled 1 (fmt.length + host.length + 20)) 0 >>= strlen = none :=
      expandLoop_readsEnd (by decide) reads
    cases loop : expandLoop host port fmt (.filled 1 _) 0 with
    | none => rfl
    | some buf =>
        rw [loop] at stuck
        change strlen buf = none at stuck
        show (strlen buf >>= _) = _
        rw [stuck]
        rfl
  · have long : ¬textLength fmt host port < fmt.length + host.length + 20 :=
      fun fits => bad ⟨reads, fits⟩
    have none : Yields (expandLoop host port fmt (.filled 1 _) 0) ([] ++ expand host port fmt) :=
      yields_loop clean_host (by omega) fmt (.filled 1 (fmt.length + host.length + 20)) 0 [] clean
        List.not_mem_nil rfl .nil fun reads' => absurd reads' reads
    rw [← length_expand] at long
    rw [Yields, List.nil_append, if_neg long] at none
    rw [none]
    rfl

end Result

/-- **`expand_host_and_port`** writes what the format says, if it begins with something to be
written, and the text with its hosts and numbers leaves room for a terminator. -/
theorem expands_iff {fmt host : Bytes} (port : Int32) (clean : 0 ∉ fmt) (clean_host : 0 ∉ host) :
    Expands fmt host port ↔
      ¬ReadsEnd fmt ∧ textLength fmt host port < fmt.length + host.length + 20 := by
  constructor
  · intro expands
    by_contra bad
    have result := expands (.filled 1 _)
    rw [expandHostAndPort_filled clean clean_host bad] at result
    cases result
  · rintro ⟨starts, fits⟩
    exact expandHostAndPort_eq clean clean_host starts fits

/-- The command that is used when none is given. -/
theorem expands_default : Expands (text "telnet %h %p") (text "example.com") 23 :=
  (expands_iff 23 (by decide +kernel) (by decide +kernel)).mpr
    ⟨by decide +kernel, by decide +kernel⟩

/-- Three hosts do not fit. -/
theorem not_expands_hosts : ¬Expands (text "%h%h%h") (text "proxy.example.com") 23 := by
  intro expands
  have result := expands (.filled 0 _)
  revert result
  decide +kernel

end MsysGit.Connect
