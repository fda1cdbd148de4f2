import MsysGit.Connect.HttpResponse
import MsysGit.Connect.RetryBound

/-!
# Where a redirection leads

A `Location:` line is cut into tokens three times, each time from its beginning, and
`relay_host` is left pointing into the line buffer, into which the lines behind are read.
When the header has ended, what stands there is the text behind the line's first slashes,
as far as no line was read over it (`textAt`); the port is the number between the colon of
`Location:` and the first slash (`relayPortOf`).  For `Location: http://host:port/` that
is the number in ` http:`, zero.

The buffer is gone when the next connection is opened.  So whatever was in it, a retry is
opened to a given host only if no `Location:` line was read (`retriesAt_iff`).
-/

namespace MsysGit.Connect

open MsysGit.Library MsysGit.Library.CString

/-! ### A header and its pieces -/

/-- The connection delivers an answer with this status and these header lines. -/
structure World.Answers (w : World) (result : ℤ) (headers : List Bytes) : Prop where
  status : w.status = some result
  block : ∃ rest, (nextLine w.stream).2 = Response.lines headers ++ crlf ++ rest
  lines : ∀ line ∈ headers, line ≠ [] ∧ newline ∉ line

/-- The pieces a header is read in, up to the one that is taken for the empty line. -/
abbrev headerPieces (stream : Bytes) : List Bytes := piecesTo newline 1023 blankLine stream

/-- A piece as a string, in lower case. -/
def lowerCase (piece : Bytes) : Bytes := (cstr piece 0).map tolower

/-- The header has an end. -/
theorem World.Answers.ends {w : World} {result : ℤ} {headers : List Bytes}
    (answer : w.Answers result headers) :
    (after newline 1023 blankLine (nextLine w.stream).2).isSome := by
  obtain ⟨rest, block⟩ := answer.block
  obtain ⟨left, ends, -⟩ := after_lines headers rest fun line inside => (answer.lines line inside).2
  rw [block, ends]
  rfl

/-- There is more behind the status line, so it is read. -/
theorem World.Answers.statusRead {w : World} {result : ℤ} {headers : List Bytes}
    (answer : w.Answers result headers) : StatusRead w := by
  intro _
  by_contra torn
  obtain ⟨single, short⟩ := not_or.mp torn
  obtain ⟨rest, block⟩ := answer.block
  have empty := takeLine_short single
    (Nat.lt_of_le_of_ne (length_nextLine_le w.stream) short)
  have length := congrArg List.length (block.symm.trans empty)
  simp at length

/-! ### A `Location:` line -/

/-- A piece that is taken for a `Location:` line. -/
def locationLine (piece : Bytes) : Bool := expect (lowerCase piece) (text "Location: ")

/-- Where `relay_host` points to: behind the first slashes. -/
def hostStart (piece : Bytes) : ℕ :=
  strcspn (lowerCase piece) (text "//") +
    strspn ((lowerCase piece).dropWhile (· ∉ text "//")) (text "//")

/-- The number between the first colon and the first slash. -/
def relayPortOf (piece : Bytes) : UInt16 :=
  UInt16.ofInt (atoi ((((lowerCase piece).takeWhile (· ∉ text "//")).dropWhile
    (· ∉ text ":")).dropWhile (· ∈ text ":")))

/-- What stands at an offset of the buffer after more pieces were read into it. -/
def textAt (o : ℕ) (t : Bytes) (pieces : List Bytes) : Bytes :=
  pieces.foldl (fun t piece => if o ≤ piece.length then cstr piece o else t) t

/-- The last `Location:` line of some pieces, and the pieces behind it. -/
def lastLocation : List Bytes → Option (Bytes × List Bytes)
  | [] => none
  | piece :: pieces =>
      match lastLocation pieces with
      | some found => some found
      | none => if locationLine piece then some (piece, pieces) else none

/-- Names of hosts are compared without regard to case. -/
def SameName (a b : Bytes) : Prop := a.map tolower = b.map tolower

/-! ### Strings in the buffer -/

section Buffers

variable {size : ℕ}

/-- `downcase` changes nothing but the case. -/
theorem cells_downcase (buf : Buffer UInt8 size) :
    (downcase buf).cells.map tolower = buf.cells.map tolower := by
  have fits : 0 + ((cstr buf.cells 0).map tolower).length ≤ size := by
    have := cstr_length_le buf 0
    rw [List.length_map]
    omega
  obtain ⟨rest, split, -⟩ := drop_eq_cstr_append buf.cells 0
  rw [List.drop_zero] at split
  rw [downcase, Buffer.cells_store _ _ _ fits, List.take_zero, List.nil_append, List.length_map,
    Nat.zero_add]
  generalize cstr buf.cells 0 = s at split ⊢
  have same : (s.map tolower).map tolower = s.map tolower := by
    rw [List.map_map]
    exact List.map_congr_left fun c _ => tolower_tolower c
  rw [split, List.drop_left, List.map_append, List.map_append, same]

theorem cstr_downcase_at (buf : Buffer UInt8 size) (o : ℕ) :
    SameName (cstr (downcase buf).cells o) (cstr buf.cells o) := by
  rw [SameName, ← cstr_map_tolower, ← cstr_map_tolower, cells_downcase]

/-- A string behind what is stored is left as it is. -/
theorem cstr_store_above (buf : Buffer UInt8 size) {off : ℕ} {bytes : Bytes} {o : ℕ}
    (fits : off + bytes.length ≤ size) (above : off + bytes.length ≤ o) :
    cstr (buf.store off bytes).cells o = cstr buf.cells o := by
  obtain ⟨k, rfl⟩ := Nat.exists_eq_add_of_le above
  have behind := congrArg (List.drop k) (buf.drop_store off bytes fits)
  rw [List.drop_drop, List.drop_drop] at behind
  rw [cstr, cstr, behind]

/-- What stands at an offset after a piece was stored at the start. -/
theorem cstr_store_at (buf : Buffer UInt8 size) {piece : Bytes} (fits : piece.length < size)
    (o : ℕ) : cstr (buf.store 0 (piece ++ [0])).cells o =
      if o ≤ piece.length then cstr piece o else cstr buf.cells o := by
  have room : 0 + (piece ++ [0]).length ≤ size := by
    rw [List.length_append, List.length_singleton]
    omega
  by_cases inside : o ≤ piece.length
  · rw [if_pos inside, Buffer.cells_store _ _ _ room, List.take_zero, List.nil_append, cstr,
      List.append_assoc, List.drop_append_of_le_length inside]
    have ended := cstr_terminated (piece.drop o)
      (buf.cells.drop (0 + (piece ++ [0]).length))
    rw [cstr, List.drop_zero] at ended
    exact ended
  · rw [if_neg inside, cstr_store_above buf room (by
      rw [List.length_append, List.length_singleton]
      omega)]

end Buffers

/-! ### The loop -/

section Loop

variable {w : World} {buf : LineBuffer} {E : Halt → World → Prop}

/-- A string that begins with a letter has a token. -/
theorem strcspn_letter {c : UInt8} {s delim : Bytes} (first : s.head? = some c) (letter : 65 ≤ c)
    (low : ∀ d ∈ delim, d < 65) : 0 < strcspn s delim := by
  obtain ⟨rest, rfl⟩ := List.head?_eq_some_iff.mp first
  rw [strcspn, List.takeWhile_cons_of_pos (by simpa using letter_notMem letter low)]
  exact Nat.succ_pos _

/-- A string without delimiters is a token, and nothing is cut off. -/
theorem cutToken_whole {t delim : Bytes} (string : cstr buf.cells 0 = t) (some_left : t ≠ [])
    (clean : ∀ c ∈ t, c ∉ delim) : cutToken buf 0 delim = (buf, some t.length) := by
  have clean : ∀ c ∈ t, decide (c ∉ delim) = true := by simpa using clean
  have token : strcspn (cstr buf.cells 0) delim = t.length := by
    rw [string, strcspn, List.takeWhile_eq_self_iff.mpr clean]
  have behind : strspn ((cstr buf.cells 0).dropWhile (· ∉ delim)) delim = 0 := by
    rw [string, List.dropWhile_eq_nil_iff.mpr clean]
    rfl
  rw [cutToken_cut (by rw [token]; exact List.length_pos_iff.mpr some_left), behind, token]
  rw [Nat.zero_add, Nat.add_zero]
  rfl

/-- What is in front of the first slash begins as the string does. -/
theorem head?_front {piece : Bytes} {c : UInt8}
    (front : cstr buf.cells 0 = (lowerCase piece).takeWhile (· ∉ text "//"))
    (head : buf.cells.head? = some c) (letter : 65 ≤ c) :
    ((lowerCase piece).takeWhile (· ∉ text "//")).head? = some c := by
  obtain ⟨rest, cells⟩ := List.head?_eq_some_iff.mp head
  have nonzero : c ≠ 0 := by
    rintro rfl
    exact absurd letter (by decide)
  rw [← front, cells, cstr, List.drop_zero, List.takeWhile_cons_of_pos (by simpa using nonzero)]
  rfl

/-- The first cut leaves what is in front of the first slash. -/
theorem host_cut {piece : Bytes} {c : UInt8} {more : Bytes}
    (string : cstr buf.cells 0 = lowerCase piece) (begins : lowerCase piece = c :: more)
    (letter : 65 ≤ c) :
    ∃ buf₁, cutToken buf 0 (text "//") = (buf₁, some (hostStart piece)) ∧
      cstr buf₁.cells 0 = (lowerCase piece).takeWhile (· ∉ text "//") ∧
      cstr buf₁.cells (hostStart piece) = cstr buf.cells (hostStart piece) ∧
      buf₁.cells.head? = some c := by
  have token : 0 < strcspn (cstr buf.cells 0) (text "//") :=
    strcspn_letter (by rw [string, begins]; rfl) letter (forall_mem_of_all rfl)
  have inside := strcspn_add_strspn_le (cstr buf.cells 0) (text "//")
  have head := (cutToken_head? buf 0 (text "//")).trans (head?_of_cstr (string.trans begins))
  have front := cstr_cutToken_self buf 0 token
  have cut := cutToken_cut token
  rcases first : cutToken buf 0 (text "//") with ⟨buf₁, host⟩
  rw [first] at head front cut
  rw [string, Nat.zero_add] at cut
  rw [string] at front inside
  obtain ⟨rfl, rfl⟩ := Prod.mk.inj cut
  refine ⟨_, rfl, front, ?_, head⟩
  have room := cstr_length_le buf 0
  rw [string] at room
  exact cstr_store_above buf (by rw [List.length_replicate]; omega)
    (by rw [List.length_replicate, hostStart])

/-- The last cut finds the port there. -/
theorem port_cut {piece : Bytes} {c : UInt8}
    (front : cstr buf.cells 0 = (lowerCase piece).takeWhile (· ∉ text "//"))
    (head : buf.cells.head? = some c) (letter : 65 ≤ c) :
    ∃ buf₁ port, cutToken buf 0 (text ":") = (buf₁, some port) ∧
      UInt16.ofInt (atoi (cstr buf₁.cells port)) = relayPortOf piece ∧
      cstr buf₁.cells (hostStart piece) = cstr buf.cells (hostStart piece) ∧
      buf₁.cells.head? = some c := by
  have token : 0 < strcspn (cstr buf.cells 0) (text ":") :=
    strcspn_letter (front ▸ head?_front front head letter) letter (forall_mem_of_all rfl)
  have inside := strcspn_add_strspn_le (cstr buf.cells 0) (text ":")
  have cut := cutToken_cut token
  have head₁ := (cutToken_head? buf 0 (text ":")).trans head
  have number := cstr_cutToken buf (congrArg Prod.snd cut)
  have room := cstr_length_le buf 0
  rcases found : cutToken buf 0 (text ":") with ⟨buf₁, port⟩
  rw [found] at cut head₁ number
  rw [front] at cut number inside room
  obtain ⟨rfl, rfl⟩ := Prod.mk.inj cut
  refine ⟨_, _, rfl, by rw [number, relayPortOf], ?_, head₁⟩
  have behind : ((lowerCase piece).takeWhile (· ∉ text "//")).length ≤ hostStart piece :=
    Nat.le_add_right _ _
  exact cstr_store_above buf (by rw [List.length_replicate]; omega)
    (by rw [List.length_replicate]; omega)

/-- The three cuts of a `Location:` line. -/
theorem location_cuts {piece : Bytes} {c : UInt8} {more : Bytes}
    (string : cstr buf.cells 0 = lowerCase piece) (begins : lowerCase piece = c :: more)
    (letter : 65 ≤ c) :
    ∃ buf₁ path buf₃ port, cutToken buf 0 (text "//") = (buf₁, some (hostStart piece)) ∧
      cutToken buf₁ 0 (text "/") = (buf₁, path) ∧
      cutToken buf₁ 0 (text ":") = (buf₃, some port) ∧
      UInt16.ofInt (atoi (cstr buf₃.cells port)) = relayPortOf piece ∧
      cstr buf₃.cells (hostStart piece) = cstr buf.cells (hostStart piece) ∧
      buf₃.cells.head? = some c := by
  obtain ⟨buf₁, first, front, host₁, head₁⟩ := host_cut string begins letter
  obtain ⟨buf₃, port, third, number, host₃, head₃⟩ := port_cut front head₁ letter
  -- The string is cut at its first slash now, so the second cut finds none.
  have no_slash : ∀ d ∈ (lowerCase piece).takeWhile (· ∉ text "//"), d ∉ text "/" := by
    intro d inside slash
    have not_slash := List.mem_takeWhile_imp inside
    obtain rfl : d = 47 := List.mem_singleton.mp slash
    exact absurd not_slash (by decide)
  have some_left : (lowerCase piece).takeWhile (· ∉ text "//") ≠ [] := by
    intro empty
    have begun := head?_front front head₁ letter
    rw [empty] at begun
    cases begun
  exact ⟨buf₁, _, buf₃, port, first, cutToken_whole front some_left no_slash, third, number,
    host₃.trans host₁, head₃⟩

/-- A `Location:` line leaves a pointer into the buffer and a port. -/
theorem wp_location_cuts {Q : LineBuffer × Option ℕ → World → Prop} {piece : Bytes}
    (string : cstr buf.cells 0 = lowerCase piece) (found : locationLine piece)
    (cut : ∀ buf' c, buf'.cells.head? = some c → 65 ≤ c →
      cstr buf'.cells (hostStart piece) = cstr buf.cells (hostStart piece) →
      Q (buf', some (hostStart piece))
        { w with globals := { w.globals with relayPort := relayPortOf piece } }) :
    (location buf).wp w Q E := by
  rw [locationLine, location_letter] at found
  obtain ⟨c, more, begins, letter⟩ := expect_letter (by decide) found
  obtain ⟨buf₁, path, buf₃, port, first, second, third, number, host, head⟩ :=
    location_cuts string begins letter
  simp only [location, first, second, third, modifyGlobals, Program.wp_bind, Program.wp_update,
    Program.wp_pure, number]
  exact cut buf₃ c head letter host

/-! #### Whole headers -/

/-- The host that the pointer leads to, or the one there was. -/
def hostAfter (old : Option Bytes) (now : Option (ℕ × Bytes)) (pieces : List Bytes) :
    Option Bytes :=
  match lastLocation pieces with
  | some (piece, behind) =>
      some (textAt (hostStart piece) (cstr piece (hostStart piece)) behind)
  | none => match now with
      | some (o, t) => some (textAt o t pieces)
      | none => old

/-- The port of the last `Location:` line, or the one there was. -/
def portAfter (old : UInt16) (pieces : List Bytes) : UInt16 :=
  match lastLocation pieces with
  | some (piece, _) => relayPortOf piece
  | none => old

/-- The host is in the buffer: of this call if a pointer into it is there or comes with a piece, or
of an earlier one. -/
def goneAfter (old : Bool) (now : Option (ℕ × Bytes)) (pieces : List Bytes) : Bool :=
  old || (now.isSome || pieces.any locationLine)

/-- Hosts that are the same but for their case, or none. -/
def SameHost (a b : Option Bytes) : Prop := a.map (·.map tolower) = b.map (·.map tolower)

theorem textAt_congr {o : ℕ} {t t' : Bytes} (same : SameName t t') (pieces : List Bytes) :
    SameName (textAt o t pieces) (textAt o t' pieces) := by
  induction pieces generalizing t t' with
  | nil => exact same
  | cons piece pieces ih =>
      simp only [textAt, List.foldl_cons] at ih ⊢
      split_ifs
      · rfl
      · exact ih same

/-- Texts at the same offset, but for their case. -/
inductive SamePlace : Option (ℕ × Bytes) → Option (ℕ × Bytes) → Prop
  | none : SamePlace none none
  | some {o : ℕ} {t t' : Bytes} : SameName t t' → SamePlace (some (o, t)) (some (o, t'))

theorem hostAfter_congr {old : Option Bytes} {now now' : Option (ℕ × Bytes)}
    (same : SamePlace now now') (pieces : List Bytes) :
    SameHost (hostAfter old now pieces) (hostAfter old now' pieces) := by
  unfold hostAfter
  cases lastLocation pieces with
  | some found => rfl
  | none =>
      cases same with
      | none => rfl
      | some texts => exact congrArg some (textAt_congr texts pieces)

/-- The loop has ended: only the relay is another one, as the pieces say. -/
def RedirectedTo (g : Globals) (now : Option (ℕ × Bytes)) (pieces : List Bytes) (r : ℤ)
    (w' : World) : Prop :=
  r = startRetry ∧ ∃ host,
    w'.globals = { g with
      relayHost := host
      relayHostGone := goneAfter g.relayHostGone now pieces
      relayPort := portAfter g.relayPort pieces } ∧
      SameHost host (hostAfter g.relayHost now pieces)

/-- What a pointer into the buffer leads to. -/
def pointsTo (buf : LineBuffer) (host : Option ℕ) : Option (ℕ × Bytes) :=
  host.map fun o => (o, cstr buf.cells o)

/-- What it leads to when another piece was read. -/
def readOver (piece : Bytes) (now : Option (ℕ × Bytes)) : Option (ℕ × Bytes) :=
  now.map fun (o, t) => (o, if o ≤ piece.length then cstr piece o else t)

/-! One piece more. -/

theorem portAfter_cons (old : UInt16) (piece : Bytes) (pieces : List Bytes) :
    portAfter old (piece :: pieces) =
      portAfter (if locationLine piece then relayPortOf piece else old) pieces := by
  unfold portAfter
  rw [lastLocation]
  cases lastLocation pieces with
  | some found => rfl
  | none =>
      by_cases found : locationLine piece
      · simp [found]
      · simp [found]

theorem hostAfter_location {piece : Bytes} (found : locationLine piece) (old : Option Bytes)
    (now : Option (ℕ × Bytes)) (pieces : List Bytes) :
    hostAfter old now (piece :: pieces) =
      hostAfter old (some (hostStart piece, cstr piece (hostStart piece))) pieces := by
  unfold hostAfter
  rw [lastLocation]
  cases lastLocation pieces with
  | some found => rfl
  | none => simp [found]

theorem hostAfter_other {piece : Bytes} (other : ¬ locationLine piece) (old : Option Bytes)
    (now : Option (ℕ × Bytes)) (pieces : List Bytes) :
    hostAfter old now (piece :: pieces) = hostAfter old (readOver piece now) pieces := by
  unfold hostAfter
  rw [lastLocation]
  cases lastLocation pieces with
  | some found => rfl
  | none =>
      cases now with
      | none => simp [other, readOver]
      | some place => simp [other, readOver, textAt]

theorem goneAfter_nil (old : Bool) : goneAfter old none [] = old := by
  rw [goneAfter, Option.isSome_none, List.any_nil, Bool.or_false, Bool.or_false]

theorem goneAfter_some (old : Bool) (place : ℕ × Bytes) (pieces : List Bytes) :
    goneAfter old (some place) pieces = true := by
  rw [goneAfter, Option.isSome_some, Bool.true_or, Bool.or_true]

theorem goneAfter_location {piece : Bytes} (found : locationLine piece) (old : Bool)
    (now : Option (ℕ × Bytes)) (place : ℕ × Bytes) (pieces : List Bytes) :
    goneAfter old now (piece :: pieces) = goneAfter old (some place) pieces := by
  rw [goneAfter_some, goneAfter, List.any_cons, found, Bool.true_or, Bool.or_true, Bool.or_true]

theorem goneAfter_other {piece : Bytes} (other : ¬ locationLine piece) (old : Bool)
    (now : Option (ℕ × Bytes)) (pieces : List Bytes) :
    goneAfter old now (piece :: pieces) = goneAfter old (readOver piece now) pieces := by
  rw [goneAfter, goneAfter, List.any_cons, Bool.eq_false_iff.mpr other, Bool.false_or, readOver,
    Option.isSome_map]

section Piece

variable {stream : Bytes}

/-- The piece in the buffer. -/
theorem cstr_read (buf : LineBuffer) (stream : Bytes) :
    cstr (downcase (buf.store 0 ((nextLine stream).1 ++ [0]))).cells 0 =
      lowerCase (nextLine stream).1 := by
  rw [cstr_downcase, cstr_store _ (Nat.lt_succ_of_le (length_nextLine_le _)), lowerCase]

theorem pointsTo_read (buf : LineBuffer) (stream : Bytes) (host : Option ℕ) :
    SamePlace (pointsTo (downcase (buf.store 0 ((nextLine stream).1 ++ [0]))) host)
      (readOver (nextLine stream).1 (pointsTo buf host)) := by
  cases host with
  | none => exact .none
  | some o =>
      have same := cstr_downcase_at (buf.store 0 ((nextLine stream).1 ++ [0])) o
      rw [cstr_store_at _ (Nat.lt_succ_of_le (length_nextLine_le _))] at same
      exact .some same

/-- The host that a `Location:` line names. -/
theorem cstr_hostStart (buf : LineBuffer) (stream : Bytes) :
    SameName (cstr (downcase (buf.store 0 ((nextLine stream).1 ++ [0]))).cells
      (hostStart (nextLine stream).1)) (cstr (nextLine stream).1
        (hostStart (nextLine stream).1)) := by
  have same := cstr_downcase_at (buf.store 0 ((nextLine stream).1 ++ [0]))
    (hostStart (nextLine stream).1)
  have inside : hostStart (nextLine stream).1 ≤ (nextLine stream).1.length := by
    have front := strcspn_add_strspn_le (lowerCase (nextLine stream).1) (text "//")
    have string := (List.takeWhile_prefix (fun c : UInt8 => decide (c ≠ 0))
      (l := (nextLine stream).1.drop 0)).length_le
    rw [lowerCase, List.length_map] at front
    exact front.trans string
  rwa [cstr_store_at _ (Nat.lt_succ_of_le (length_nextLine_le _)), if_pos inside] at same

end Piece

theorem SameHost.trans {a b c : Option Bytes} (h : SameHost a b) (h' : SameHost b c) :
    SameHost a c := Eq.trans h h'

/-- Wherever the loop is entered in front of this header, it ends as the pieces say. -/
def LoopRedirects (stream : Bytes) : Prop :=
  ∀ (fuel : ℕ) (buf : LineBuffer) (host : Option ℕ) (w : World), stream.length < fuel →
    w.stream = stream → (redirect fuel buf (host.map some)).wp w
      (RedirectedTo w.globals (pointsTo buf host) (headerPieces stream))
      (fun _ _ => False)

/-- Leaving the loop. -/
theorem wp_finishRedirect_to {Q : ℤ → World → Prop} {host : Option ℕ}
    (h : ∀ w' : World, RedirectedTo w.globals (pointsTo buf host) [] startRetry w' →
      Q startRetry w') :
    (finishRedirect buf (host.map some)).wp w Q E := by
  cases host with
  | none =>
      refine h w ⟨rfl, w.globals.relayHost, ?_, rfl⟩
      rw [pointsTo, Option.map_none, goneAfter_nil]
      rfl
  | some o =>
      refine h _ ⟨rfl, some (cstr buf.cells o), ?_, rfl⟩
      have gone : goneAfter w.globals.relayHostGone (pointsTo buf (some o)) [] = true :=
        goneAfter_some _ _ _
      rw [gone]
      rfl

/-- The piece that ends the header. -/
theorem loopRedirects_blank {stream : Bytes} (some_left : stream ≠ [])
    (stops : blankLine (nextLine stream).1 = true) : LoopRedirects stream := by
  rintro (_ | fuel) buf host w enough rfl
  · exact absurd enough (Nat.not_lt_zero _)
  have blank : (nextLine w.stream).1 = crlf := of_decide_eq_true stops
  have pieces : headerPieces w.stream = [crlf] := by
    rw [headerPieces, piecesTo_of_ne_nil (by decide) some_left, if_pos stops]
    exact congrArg (· :: []) blank
  have string := cstr_read buf w.stream
  have place := pointsTo_read buf w.stream host
  have not_location : ¬ expect (lowerCase crlf) (text "Location: ") := by decide
  have is_blank : lowerCase crlf = crlf := by decide
  rw [redirect, Program.wp_bind]
  refine wp_lineInput_store (fun _ w' same _ _ => ?_) fun _ _ none_left => ?_
  · dsimp only
    rw [if_neg (by decide), string, blank, if_neg not_location, Program.wp_bind, Program.wp_pure]
    dsimp only
    rw [← blank, string, blank, if_pos is_blank, pieces]
    rw [blank] at place
    refine wp_finishRedirect_to fun w'' redirected => ?_
    obtain ⟨retry, host', changed, left⟩ := redirected
    refine ⟨retry, host', ?_, left.trans ?_⟩
    · rw [changed, portAfter_cons, goneAfter_other (by decide), same]
      cases host <;> rfl
    · rw [same, hostAfter_other (by decide)]
      exact hostAfter_congr place []
  · rw [blank] at none_left
    exact absurd (by decide) none_left

/-- A piece, and those behind it. -/
theorem loopRedirects_more {stream : Bytes} (some_left : stream ≠ [])
    (goes_on : blankLine (nextLine stream).1 = false)
    (ends : (after newline 1023 blankLine (nextLine stream).2).isSome)
    (ih : LoopRedirects (nextLine stream).2) : LoopRedirects stream := by
  rintro (_ | fuel) buf host w enough rfl
  · exact absurd enough (Nat.not_lt_zero _)
  have pieces : headerPieces w.stream =
      (nextLine w.stream).1 :: headerPieces (nextLine w.stream).2 := by
    rw [headerPieces, piecesTo_of_ne_nil (by decide) some_left, goes_on]
    rfl
  have shorter : (nextLine w.stream).2.length < fuel := by
    have := LineLoop.nextLine_shorter some_left
    omega
  have string := cstr_read buf w.stream
  rw [redirect, Program.wp_bind, pieces]
  refine wp_lineInput_store (fun _ w' same _ rest => ?_) fun _ empty _ => ?_
  · dsimp only
    rw [if_neg (by decide)]
    by_cases found : locationLine (nextLine w.stream).1
    · rw [if_pos (by rw [string]; exact found), Program.wp_bind]
      refine wp_location_cuts string found fun buf' c head letter host' => ?_
      rw [Program.wp_bind, Program.wp_pure]
      dsimp only
      rw [if_neg (cstr_ne_crlf head letter)]
      refine Program.wp_mono (ih fuel buf' (some (hostStart (nextLine w.stream).1)) _ shorter rest)
        ?_ fun _ _ never => never
      rintro r w'' ⟨retry, relay, changed, left⟩
      rw [same] at changed left
      refine ⟨retry, relay, ?_, left.trans ?_⟩
      · rw [changed, portAfter_cons, if_pos found,
          goneAfter_location found _ _ (hostStart (nextLine w.stream).1, cstr buf'.cells _)]
        rfl
      · rw [hostAfter_location found, pointsTo, Option.map_some, host']
        exact hostAfter_congr (.some (cstr_hostStart buf w.stream)) _
    · have not_blank : ¬ cstr (downcase (buf.store 0 ((nextLine w.stream).1 ++ [0]))).cells 0 =
          crlf := by
        rw [cstr_downcase_eq_crlf
          (cstr_store _ (Nat.lt_succ_of_le (length_nextLine_le w.stream)))]
        exact of_decide_eq_false goes_on
      rw [if_neg (by rw [string]; exact found), Program.wp_bind, Program.wp_pure]
      dsimp only
      rw [if_neg not_blank]
      refine Program.wp_mono (ih fuel _ host w' shorter rest) ?_ fun _ _ never => never
      rintro r w'' ⟨retry, relay, changed, left⟩
      rw [same] at changed left
      refine ⟨retry, relay, ?_, left.trans ?_⟩
      · rw [changed, portAfter_cons, if_neg found, goneAfter_other found]
        cases host <;> rfl
      · rw [hostAfter_other found]
        exact hostAfter_congr (pointsTo_read buf w.stream host) _
  · -- The header would have no end.
    rw [empty, after_nil] at ends
    cases ends

/-- **The loop after 302**, when the header has an end. -/
theorem loopRedirects {stream : Bytes} (ends : (after newline 1023 blankLine stream).isSome) :
    LoopRedirects stream :=
  after_induction (P := LoopRedirects) (by decide) (fun _ => loopRedirects_blank)
    (fun _ => loopRedirects_more) stream ends

/-- **An answer with status 302** leaves the relay that its pieces say. -/
theorem wp_beginHttpRelay_redirected {headers : List Bytes} {fuel : ℕ}
    (sent : RequestSent w) (answer : w.Answers 302 headers) (enough : w.stream.length < fuel) :
    (beginHttpRelay fuel buf).wp w
      (RedirectedTo w.globals.afterRequest none (headerPieces (nextLine w.stream).2))
      (fun _ _ => False) := by
  rw [beginHttpRelay, Program.wp_bind]
  refine wp_sendRequest (fun _ w₁ g₁ b₁ s₁ => ?_) (fun unsent => absurd sent unsent)
    fun unsent => absurd sent unsent
  have status : statusCode (cstr (nextLine w₁.stream).1 0) = some 302 := by
    rw [s₁]
    exact answer.status
  rw [if_neg (by decide), readAnswer, Program.wp_bind]
  refine wp_lineInput (fun _ b w₂ line g₂ _ s₂ => ?_) fun torn _ single _ _ short _ => ?_
  · have enough₂ : (nextLine w.stream).2.length < fuel := by
      have := nextLine_le w.stream
      omega
    dsimp only
    rw [if_neg (by decide), line, status]
    dsimp only
    rw [if_neg (by decide), if_pos rfl, ← g₁, ← g₂]
    exact loopRedirects answer.ends fuel b none w₂ enough₂ (by rw [s₂, s₁])
  · rw [b₁] at torn
    rw [s₁] at single short
    rcases answer.statusRead torn with whole | long
    · exact absurd whole single
    · exact absurd long (Nat.ne_of_lt short)

end Loop

/-! ### The next connection -/

namespace Session

variable (s : Session)

/-- What `open_connection` is called with behind the label.  A name in a buffer that is gone is
none: nothing says what stands there by then. -/
def target (g : Globals) : Option Bytes × UInt16 :=
  if (s.chooseMethod g).relayMethod = .direct then (some g.destHost, g.destPort)
  else (if g.relayHostGone then none else g.relayHost, g.relayPort)

/-- The attempt on connection `n` leads to another one, to this host and port. -/
def RetriesAt (n : ℕ) (g : Globals) (host : Bytes) (port : UInt16) : Prop :=
  ∃ enough, ∀ fuel, enough ≤ fuel → ∃ g', s.pass fuel n g = .retry g' ∧
    SameHost (s.target g').1 (some host) ∧ (s.target g').2 = port

end Session

/-- The pieces of a header lead to this host and port: none is a `Location:` line, now or in an
answer before, and the relay is there already. -/
structure LeadsTo (g : Globals) (pieces : List Bytes) (host : Bytes) (port : UInt16) : Prop where
  unlocated : ∀ piece ∈ pieces, ¬ locationLine piece
  kept : g.relayHostGone = false
  host : SameHost g.relayHost (some host)
  port : g.relayPort = port

theorem lastLocation_of_unlocated {pieces : List Bytes}
    (unlocated : ∀ piece ∈ pieces, ¬ locationLine piece) : lastLocation pieces = none := by
  induction pieces with
  | nil => rfl
  | cons piece pieces ih =>
      rw [List.forall_mem_cons] at unlocated
      rw [lastLocation, ih unlocated.2]
      exact if_neg unlocated.1

theorem goneAfter_eq_false_iff {old : Bool} {pieces : List Bytes} :
    goneAfter old none pieces = false ↔ old = false ∧ ∀ piece ∈ pieces, ¬ locationLine piece := by
  rw [goneAfter, Option.isSome_none, Bool.false_or, Bool.or_eq_false_iff, List.any_eq_false]

/-- What the pieces leave leads there, when the host is no longer in a buffer. -/
theorem leadsTo_iff {g : Globals} {pieces : List Bytes} {host : Bytes} {port : UInt16} :
    LeadsTo g pieces host port ↔ goneAfter g.relayHostGone none pieces = false ∧
      SameHost (hostAfter g.relayHost none pieces) (some host) ∧
      portAfter g.relayPort pieces = port := by
  rw [goneAfter_eq_false_iff]
  constructor
  · rintro ⟨unlocated, kept, to_host, to_port⟩
    rw [hostAfter, portAfter, lastLocation_of_unlocated unlocated]
    exact ⟨⟨kept, unlocated⟩, to_host, to_port⟩
  · rintro ⟨⟨kept, unlocated⟩, to_host, to_port⟩
    rw [hostAfter, lastLocation_of_unlocated unlocated] at to_host
    rw [portAfter, lastLocation_of_unlocated unlocated] at to_port
    exact ⟨unlocated, kept, to_host, to_port⟩

namespace Session

variable {s : Session} {n : ℕ} {g : Globals} {c : Connection} {headers : List Bytes}

theorem target_http (http : (s.chooseMethod g).relayMethod = .http) :
    s.target g = (if g.relayHostGone then none else g.relayHost, g.relayPort) := by
  rw [target, if_neg (by rw [http]; decide)]

/-- **A redirected attempt** leaves the relay that the pieces of its header say. -/
theorem pass_redirected (http : (s.chooseMethod g).relayMethod = .http)
    (opened : s.connections n = some c) (sent : RequestSent (c.world g))
    (answer : (c.world g).Answers 302 headers) {fuel : ℕ}
    (enough : (c.world g).stream.length < fuel) :
    ∃ g', s.pass fuel n g = .retry g' ∧ (s.chooseMethod g').relayMethod = .http ∧
      g'.relayHostGone =
        goneAfter g.relayHostGone none (headerPieces (nextLine (c.world g).stream).2) ∧
      SameHost g'.relayHost
        (hostAfter g.relayHost none (headerPieces (nextLine (c.world g).stream).2)) ∧
      g'.relayPort = portAfter g.relayPort (headerPieces (nextLine (c.world g).stream).2) := by
  have method := http
  rw [chooseMethod_http http] at method
  have ended : (beginHttpRelay fuel c.buf).wp _ _ _ :=
    wp_beginHttpRelay_redirected sent answer enough
  rw [pass, opened]
  dsimp only
  rw [chooseMethod_http http, negotiate, method]
  dsimp only
  unfold Program.wp at ended
  cases result : beginHttpRelay fuel c.buf (c.world g) with
  | halted why w' =>
      rw [result] at ended
      exact ended.elim
  | returned r w' =>
      rw [result] at ended
      obtain ⟨retry, host, changed, left⟩ := ended
      obtain ⟨getenv, table, request⟩ : ∃ getenv table,
          g.afterRequest = { g with getenv := getenv, parameterTable := table } := by
        unfold Globals.afterRequest
        split_ifs
        · exact g.erasePassword_eq
        · exact ⟨_, _, rfl⟩
      rw [show (c.world g).globals = g from rfl, request] at changed left
      refine ⟨w'.globals, ?_, ?_, ?_, ?_, ?_⟩
      · dsimp only
        rw [retry, if_neg (by decide), if_pos rfl]
      · rw [← http]
        exact chooseMethod_congr (by rw [changed]) (by rw [changed])
      · rw [changed]
      · rw [changed]
        exact left
      · rw [changed]

/-- **Where a redirection leads**: the next connection is opened to this host and port exactly
when no `Location:` line was read, and the relay is there already. -/
theorem retriesAt_iff (http : (s.chooseMethod g).relayMethod = .http)
    (opened : s.connections n = some c) (sent : RequestSent (c.world g))
    (answer : (c.world g).Answers 302 headers) (host : Bytes) (port : UInt16) :
    s.RetriesAt n g host port ↔
      LeadsTo g (headerPieces (nextLine (c.world g).stream).2) host port := by
  rw [leadsTo_iff]
  constructor
  · rintro ⟨enough, retries⟩
    obtain ⟨g', again, to_host, to_port⟩ :=
      retries (max enough ((c.world g).stream.length + 1)) (Nat.le_max_left _ _)
    obtain ⟨g'', again', still, gone, host', port'⟩ :=
      pass_redirected http opened sent answer (Nat.le_max_right enough _)
    obtain rfl := Pass.retry.inj (again.symm.trans again')
    rw [target_http still] at to_host to_port
    dsimp only at to_host to_port
    cases lost : g'.relayHostGone with
    | true =>
        rw [lost, if_pos rfl] at to_host
        cases to_host
    | false =>
        rw [lost, if_neg Bool.false_ne_true] at to_host
        exact ⟨gone.symm.trans lost, Eq.trans host'.symm to_host, port'.symm.trans to_port⟩
  · rintro ⟨kept, to_host, to_port⟩
    refine ⟨(c.world g).stream.length + 1, fun fuel enough => ?_⟩
    obtain ⟨g', again, still, gone, host', port'⟩ := pass_redirected http opened sent answer enough
    refine ⟨g', again, ?_⟩
    rw [target_http still, gone.trans kept, if_neg Bool.false_ne_true]
    exact ⟨host'.trans to_host, port'.trans to_port⟩

end Session

/-! ### Headers with URLs -/

/-- The pieces of a header without long lines are its lines. -/
theorem headerPieces_short {headers : List Bytes} (lines : ∀ line ∈ headers, line ≠ [] ∧
    newline ∉ line) (short : ∀ line ∈ headers, line.length ≤ 1021) (rest : Bytes) :
    headerPieces (Response.lines headers ++ crlf ++ rest) = headers.map (· ++ crlf) ++ [crlf] := by
  induction headers with
  | nil =>
      have blank : takeLine newline 1023 (crlf ++ rest) = (crlf, rest) :=
        @nextLine_crlf [] rest List.not_mem_nil (Nat.zero_le _)
      show piecesTo newline 1023 blankLine (crlf ++ rest) = [crlf]
      rw [piecesTo_of_ne_nil (by decide) (by simp), blank]
      rfl
  | cons line headers ih =>
      have split : Response.lines (line :: headers) ++ crlf ++ rest =
          line ++ crlf ++ (Response.lines headers ++ crlf ++ rest) := by
        simp [Response.lines]
      have first := lines line List.mem_cons_self
      have whole (more : Bytes) : takeLine newline 1023 (line ++ crlf ++ more) =
          (line ++ crlf, more) := nextLine_crlf first.2 (short line List.mem_cons_self)
      have not_blank : blankLine (line ++ crlf) = false := by
        apply blankLine_of_length
        have := List.length_pos_iff.mpr first.1
        rw [List.length_append, show crlf.length = 2 from rfl]
        omega
      have behind := ih (fun other inside => lines other (List.mem_cons_of_mem _ inside))
        fun other inside => short other (List.mem_cons_of_mem _ inside)
      rw [split, headerPieces, piecesTo_of_ne_nil (by decide) (by simp),
        whole]
      dsimp only
      rw [not_blank, if_neg Bool.false_ne_true]
      exact congrArg _ behind

/-- A line that names a URL, in any case. -/
def NamesUrl (line : Bytes) : Prop := text "location: http://" <+: line.map tolower

/-- The number in front of the first slash of such a line is none. -/
theorem relayPortOf_url {line : Bytes} (url : NamesUrl line) (rest : Bytes) :
    relayPortOf (line ++ rest) = 0 := by
  obtain ⟨more, split⟩ := url
  have string : ∃ m, lowerCase (line ++ rest) = text "location: http://" ++ m := by
    rw [lowerCase, ← cstr_map_tolower, List.map_append, ← split, List.append_assoc]
    exact ⟨_, rfl⟩
  obtain ⟨m, string⟩ := string
  have front : (text "location: http://" ++ m).takeWhile (· ∉ text "//") =
    text "location: http:" := rfl
  rw [relayPortOf, string, front]
  decide

/-- Once the port is zero, it stays zero. -/
theorem portAfter_zero {old : UInt16} {pieces : List Bytes}
    (urls : ∀ piece ∈ pieces, locationLine piece → relayPortOf piece = 0)
    (zero : old = 0 ∨ ∃ piece ∈ pieces, locationLine piece) : portAfter old pieces = 0 := by
  induction pieces generalizing old with
  | nil => exact zero.resolve_right (by simp)
  | cons piece pieces ih =>
      rw [portAfter_cons]
      refine ih (fun other inside => urls other (List.mem_cons_of_mem _ inside)) ?_
      by_cases found : locationLine piece
      · rw [if_pos found]
        exact Or.inl (urls piece List.mem_cons_self found)
      · rw [if_neg found]
        refine zero.imp_right ?_
        rintro ⟨other, inside, located⟩
        rcases List.mem_cons.mp inside with rfl | inside
        · exact absurd located found
        · exact ⟨other, inside, located⟩

namespace Session

variable {s : Session} {n : ℕ} {g : Globals} {c : Connection} {headers : List Bytes}

/-- Where no line is long, and every `Location:` line names a URL, the port is zero. -/
theorem not_retriesAt_url (http : (s.chooseMethod g).relayMethod = .http)
    (opened : s.connections n = some c) (sent : RequestSent (c.world g))
    (answer : (c.world g).Answers 302 headers) (short : ∀ line ∈ headers, line.length ≤ 1021)
    (urls : ∀ line ∈ headers, locationLine (line ++ crlf) → NamesUrl line)
    (located : ∃ line ∈ headers, locationLine (line ++ crlf)) {host : Bytes} {port : UInt16}
    (proper : port ≠ 0) : ¬ s.RetriesAt n g host port := by
  rintro ⟨enough, retries⟩
  obtain ⟨g', again, -, to_port⟩ :=
    retries (max enough ((c.world g).stream.length + 1)) (Nat.le_max_left _ _)
  obtain ⟨g'', again', still, -, -, port'⟩ :=
    pass_redirected http opened sent answer (Nat.le_max_right enough _)
  obtain rfl := Pass.retry.inj (again.symm.trans again')
  rw [target_http still] at to_port
  obtain ⟨rest, block⟩ := answer.block
  rw [block, headerPieces_short answer.lines short, portAfter_zero ?_ (Or.inr ?_)] at port'
  · exact proper (to_port.symm.trans port')
  · intro piece inside found
    rcases List.mem_append.mp inside with inside | last
    · obtain ⟨line, member, rfl⟩ := List.mem_map.mp inside
      exact relayPortOf_url (urls line member found) crlf
    · rw [List.mem_singleton.mp last] at found
      exact absurd found (by decide)
  · obtain ⟨line, inside, found⟩ := located
    exact ⟨_, List.mem_append_left _ (List.mem_map_of_mem inside), found⟩

/-- A proxy that redirects to `http://proxy:3128/x`. -/
def redirectingConnection : Connection where
  incoming := [text "HTTP/1.0 302 Found" ++ crlf ++ text "Location: http://proxy:3128/x" ++ crlf ++
    crlf]
  broken := false
  accepts := []
  buf := Buffer.filled 0 1024
  negotiated := false

/-- A run with that proxy. -/
def toProxy : Session where
  inetAddr := fun _ => .none
  globals := { Globals.initial with relayMethod := .http }
  connections := fun _ => some redirectingConnection

theorem toProxy_sent : RequestSent (redirectingConnection.world toProxy.globals) := by
  refine ⟨?_, nofun⟩
  show none ∉ List.take _ []
  rw [List.take_nil]
  exact List.not_mem_nil

theorem toProxy_answers : (redirectingConnection.world toProxy.globals).Answers 302
    [text "Location: http://proxy:3128/x"] where
  status := by
    show statusCode (cstr (nextLine (text "HTTP/1.0 302 Found" ++ crlf ++
      text "Location: http://proxy:3128/x" ++ crlf ++ crlf)).1 0) = some 302
    decide
  block := ⟨[], by decide⟩
  lines := by decide

/-- The next connection is not opened to port 3128. -/
theorem not_retriesAt_toProxy : ¬ toProxy.RetriesAt 0 toProxy.globals (text "proxy") 3128 := by
  refine not_retriesAt_url rfl rfl toProxy_sent toProxy_answers (by decide) ?_ ?_ (by decide)
  · intro line inside _
    rw [List.mem_singleton.mp inside]
    exact List.prefix_iff_eq_take.mpr (by decide)
  · exact ⟨_, List.mem_singleton_self _, by decide⟩

/-- The lines of a header, the first of which is too long: the end of it is taken for the empty
line, and the `Location:` line is not read. -/
def longFirst : List Bytes := [List.replicate 1023 120, text "Location: http://relay:8080/"]

/-- A proxy that answers with that header. -/
def longConnection : Connection where
  incoming := [text "HTTP/1.0 302 Found" ++ crlf ++ Response.lines longFirst ++ crlf]
  broken := false
  accepts := []
  buf := Buffer.filled 0 1024
  negotiated := false

/-- A run with that proxy, at the place that the line names. -/
def overlooked : Session where
  inetAddr := fun _ => .none
  globals := { Globals.initial with
    relayMethod := .http
    relayHost := some (text "relay")
    relayPort := 8080 }
  connections := fun _ => some longConnection

theorem overlooked_nextLine : nextLine (longConnection.world overlooked.globals).stream =
    (text "HTTP/1.0 302 Found" ++ crlf, Response.lines longFirst ++ crlf) := by
  have stream : (longConnection.world overlooked.globals).stream =
      text "HTTP/1.0 302 Found" ++ crlf ++ (Response.lines longFirst ++ crlf) := by
    rw [← List.append_assoc]
    exact List.flatten_singleton
  rw [stream]
  exact nextLine_crlf (by decide) (by decide)

theorem overlooked_answers : (longConnection.world overlooked.globals).Answers 302 longFirst where
  status := by
    rw [World.status, overlooked_nextLine]
    decide
  block := ⟨[], by rw [overlooked_nextLine, List.append_nil]⟩
  lines := by
    intro line inside
    rcases List.mem_pair.mp inside with rfl | rfl
    · exact ⟨List.cons_ne_nil _ _, fun inside =>
        absurd (List.eq_of_mem_replicate inside) (by decide)⟩
    · decide

/-- Two pieces are read: as much as there is room for, and the end of that line. -/
theorem overlooked_pieces :
    headerPieces (Response.lines longFirst ++ crlf) = [List.replicate 1023 120, crlf] := by
  have single : newline ∉ List.replicate 1023 (120 : UInt8) :=
    fun inside => absurd (List.eq_of_mem_replicate inside) (by decide)
  have length : (List.replicate 1023 (120 : UInt8)).length = 1023 := List.length_replicate
  have block : Response.lines longFirst ++ crlf = List.replicate 1023 120 ++
      (crlf ++ (text "Location: http://relay:8080/" ++ crlf ++ crlf)) := by
    rw [Response.lines, longFirst]
    simp only [List.map_cons, List.map_nil, List.flatten_cons, List.flatten_nil, List.append_assoc,
      List.append_nil]
  rw [block]
  generalize List.replicate 1023 (120 : UInt8) = front at single length
  have first : takeLine newline 1023 (front ++ (crlf ++ (text "Location: http://relay:8080/" ++
      crlf ++ crlf))) = (front, crlf ++ (text "Location: http://relay:8080/" ++ crlf ++ crlf)) := by
    rw [← length]
    exact takeLine_full single
  have second (rest : Bytes) : takeLine newline 1023 (crlf ++ rest) = (crlf, rest) :=
    @nextLine_crlf [] rest List.not_mem_nil (Nat.zero_le _)
  rw [headerPieces, piecesTo_of_ne_nil (by decide) (List.append_ne_nil_of_right_ne_nil _ (by simp)),
    first]
  dsimp only
  rw [blankLine_of_length (by rw [length]; decide), if_neg Bool.false_ne_true,
    piecesTo_of_ne_nil (by decide) (by simp), second]
  rfl

/-- There the next connection is opened to that place.  With the other proxy it is not even
opened to what stood behind the slashes. -/
theorem retriesAt_overlooked :
    overlooked.RetriesAt 0 overlooked.globals (text "relay") 8080 ∧
      ¬ toProxy.RetriesAt 0 toProxy.globals (text "proxy:3128/x" ++ crlf) 0 := by
  have sent : RequestSent (longConnection.world overlooked.globals) := by
    refine ⟨?_, nofun⟩
    show none ∉ List.take _ []
    rw [List.take_nil]
    exact List.not_mem_nil
  constructor
  · refine (retriesAt_iff rfl rfl sent overlooked_answers _ _).mpr ⟨?_, rfl, rfl, rfl⟩
    rw [overlooked_nextLine, overlooked_pieces]
    decide +kernel
  · intro retries
    have leads := (retriesAt_iff rfl rfl toProxy_sent toProxy_answers _ _).mp retries
    have block : (nextLine (redirectingConnection.world toProxy.globals).stream).2 =
        Response.lines [text "Location: http://proxy:3128/x"] ++ crlf ++ [] := by decide
    rw [block, headerPieces_short toProxy_answers.lines (by decide)] at leads
    exact leads.unlocated _ List.mem_cons_self (by decide)

end Session

end MsysGit.Connect
