import MsysGit.Connect.HttpAnswer

/-!
# Well-formed answers with status 200

A response is a status line, header lines and an empty line; whatever follows it
belongs to the tunnel.  Lines are read in pieces of 1023 bytes, and a line whose
text is a multiple of that leaves exactly its line end for the last piece, which
then looks like the empty line (`after_text`).
-/

namespace MsysGit.Connect

open MsysGit.Library MsysGit.Library.CString

/-- A response with status 200. -/
structure Response where
  major : Bytes
  minor : Bytes
  /-- What follows the status code: nothing, or a space and a reason phrase. -/
  reason : Bytes
  headers : List Bytes
  major_digits : major ≠ [] ∧ ∀ c ∈ major, isdigit c
  minor_digits : minor ≠ [] ∧ ∀ c ∈ minor, isdigit c
  reason_blank : reason = [] ∨ reason.head? = some 32
  reason_line : newline ∉ reason
  headers_lines : ∀ line ∈ headers, line ≠ [] ∧ newline ∉ line

namespace Response

/-- `HTTP/`major`.`minor -/
def version (r : Response) : Bytes := text "HTTP/" ++ r.major ++ text "." ++ r.minor

/-- The status line up to the status code. -/
def code (r : Response) : Bytes := r.version ++ text " 200"

/-- The text of the status line. -/
def statusLine (r : Response) : Bytes := r.code ++ r.reason

/-- Lines with their ends. -/
def lines (texts : List Bytes) : Bytes := (texts.map (· ++ crlf)).flatten

/-- The whole response. -/
def bytes (r : Response) : Bytes := r.statusLine ++ crlf ++ lines r.headers ++ crlf

/-- The status code is in the first piece, and no line but the last leaves only its
line end for a piece. -/
def Fits (r : Response) : Prop :=
  r.code.length ≤ 1023 ∧ ∀ line ∈ r.statusLine :: r.headers, ¬ 1023 ∣ line.length

end Response

/-! ### Lines in pieces -/

theorem blankLine_of_length {piece : Bytes} (long : piece.length ≠ 2) :
    blankLine piece = false := by
  rw [blankLine, decide_eq_false_iff_not]
  rintro rfl
  exact long rfl

/-- A line that is not too long is read whole. -/
theorem nextLine_crlf {line rest : Bytes} (single : newline ∉ line) (short : line.length ≤ 1021) :
    nextLine (line ++ crlf ++ rest) = (line ++ crlf, rest) := by
  have clean : newline ∉ line ++ [13] := by
    rw [List.mem_append, not_or]
    exact ⟨single, by decide⟩
  have whole : takeLine newline 1023 (line ++ [13] ++ newline :: rest) =
      (line ++ [13] ++ [newline], rest) := takeLine_line clean (by
    rw [List.length_append, List.length_singleton]
    omega)
  simpa using whole

/-- **Reading past a line.**  It is taken for the empty line exactly when the length
of its text is a multiple of 1023. -/
theorem after_text (content rest : Bytes) (single : newline ∉ content) :
    after newline 1023 blankLine (content ++ crlf ++ rest) =
      if 1023 ∣ content.length then some rest else after newline 1023 blankLine rest := by
  induction length : content.length using Nat.strong_induction_on generalizing content with
  | _ k ih =>
    have shape : ∀ s : Bytes, s ++ crlf ++ rest = (s ++ [13]) ++ newline :: rest := by simp
    have clean : newline ∉ content ++ [13] := by
      simp only [List.mem_append, not_or]
      exact ⟨single, by decide⟩
    rw [shape, after_line (by decide) rest clean, List.length_append, List.length_singleton, length]
    by_cases short : k + 1 < 1023
    · rw [if_pos short]
      by_cases empty : content = []
      · subst empty
        obtain rfl : k = 0 := length.symm
        rfl
      · have positive := List.length_pos_iff.mpr empty
        have not_blank : blankLine (content ++ [13] ++ [newline]) = false := by
          apply blankLine_of_length
          rw [List.length_append, List.length_append, List.length_singleton, List.length_singleton]
          omega
        have not_dvd : ¬ 1023 ∣ k := by omega
        simp only [not_blank, not_dvd, if_false, Bool.false_eq_true]
    · have not_blank : blankLine ((content ++ [13]).take 1023) = false := by
        apply blankLine_of_length
        rw [List.length_take, List.length_append, List.length_singleton]
        omega
      simp only [short, not_blank, if_false, Bool.false_eq_true]
      by_cases exact_fit : k = 1022
      · have nothing : (content ++ [13]).drop 1023 = [] :=
          List.drop_eq_nil_of_le (by rw [List.length_append, List.length_singleton]; omega)
        have not_dvd : ¬ 1023 ∣ k := by omega
        have not_blank : blankLine ([] ++ [newline]) = false := rfl
        rw [nothing, if_neg not_dvd, after_line (by decide) rest List.not_mem_nil,
          if_pos (by decide)]
        simp only [not_blank, if_false, Bool.false_eq_true]
      · have longer : 1023 ≤ content.length := by omega
        have same : 1023 ∣ k - 1023 ↔ 1023 ∣ k := by omega
        rw [List.drop_append_of_le_length longer, ← shape,
          ih (k - 1023) (by omega) (content.drop 1023)
            (fun inside => single (List.mem_of_mem_drop inside))
            (by rw [List.length_drop, length]), if_congr same rfl rfl]

/-- **Reading past the header.**  It ends at the payload unless one of its lines is
taken for the empty line; then it ends before. -/
theorem after_lines (texts : List Bytes) (payload : Bytes)
    (single : ∀ line ∈ texts, newline ∉ line) :
    ∃ rest, after newline 1023 blankLine (Response.lines texts ++ crlf ++ payload) = some rest ∧
      (rest = payload ↔ ∀ line ∈ texts, ¬ 1023 ∣ line.length) := by
  induction texts with
  | nil =>
      have ends := after_text [] payload List.not_mem_nil
      rw [if_pos (by simp)] at ends
      exact ⟨payload, ends, by simp⟩
  | cons line texts ih =>
      obtain ⟨rest, ends, iff⟩ := ih fun line inside => single line (List.mem_cons_of_mem _ inside)
      have split : Response.lines (line :: texts) ++ crlf ++ payload =
          line ++ crlf ++ (Response.lines texts ++ crlf ++ payload) := by
        simp [Response.lines]
      rw [split, after_text line _ (single line List.mem_cons_self)]
      by_cases taken : 1023 ∣ line.length
      · rw [if_pos taken]
        refine ⟨_, rfl, ?_⟩
        constructor
        · -- At least the empty line is still in front of the payload.
          intro same
          have length := congrArg List.length same
          simp only [List.length_append, List.length_cons] at length
          omega
        · exact fun none_taken => absurd taken (none_taken line List.mem_cons_self)
      · rw [if_neg taken]
        refine ⟨rest, ends, iff.trans ?_⟩
        simp [taken]

/-! ### The status code -/

theorem Response.version_printable (r : Response) : ∀ c ∈ r.version, 46 ≤ c := by
  intro c inside
  simp only [version, List.mem_append] at inside
  have digit : ∀ {d : UInt8}, isdigit d = true → 46 ≤ d := by
    intro d h
    simp only [isdigit, Bool.and_eq_true, decide_eq_true_eq] at h
    exact UInt8.le_trans (by decide) h.1
  have name : ∀ d ∈ text "HTTP/", 46 ≤ d := forall_mem_of_all rfl
  have dot : ∀ d ∈ text ".", 46 ≤ d := forall_mem_of_all rfl
  rcases inside with ((inside | inside) | inside) | inside
  · exact name c inside
  · exact digit (r.major_digits.2 c inside)
  · exact dot c inside
  · exact digit (r.minor_digits.2 c inside)

theorem statusCode_space {front : Bytes} (rest : Bytes) (printable : ∀ c ∈ front, 46 ≤ c) :
    statusCode (cstr (front ++ 32 :: rest) 0) = some (atoi (32 :: cstr rest 0)) := by
  have string : cstr (front ++ 32 :: rest) 0 = front ++ 32 :: cstr rest 0 := by
    have no_zero : 0 ∉ front := fun inside => absurd (printable 0 inside) (by decide)
    rw [cstr, List.drop_zero, takeWhile_ne_append no_zero,
      List.takeWhile_cons_of_pos (by decide)]
    rfl
  have no_space : 32 ∉ front := fun inside => absurd (printable 32 inside) (by decide)
  rw [string, statusCode, strchr_append no_space]
  rfl

theorem statusCode_none {line : Bytes} (printable : ∀ c ∈ line, 46 ≤ c) :
    statusCode (cstr line 0) = none := by
  have no_space : 32 ∉ cstr line 0 := by
    intro inside
    have inside := (List.takeWhile_prefix _).subset inside
    exact absurd (printable 32 inside) (by decide)
  rw [statusCode, strchr, if_neg no_space]
  rfl

/-- `atoi` stops at the first byte that is not a digit. -/
theorem atoi_200 {rest : Bytes} (stops : ∀ c, rest.head? = some c → isdigit c = false) :
    atoi (32 :: 50 :: 48 :: 48 :: rest) = 200 := by
  have none_more : rest.takeWhile isdigit = [] := by
    cases rest with
    | nil => rfl
    | cons c rest => rw [List.takeWhile_cons_of_neg (by simp [stops c rfl])]
  have read : (50 :: 48 :: 48 :: rest).takeWhile isdigit = [50, 48, 48] := by
    rw [List.takeWhile_cons_of_pos (by decide), List.takeWhile_cons_of_pos (by decide),
      List.takeWhile_cons_of_pos (by decide), none_more]
  have value : digits (50 :: 48 :: 48 :: rest) = 200 := by
    rw [digits, read]
    rfl
  rw [atoi, List.dropWhile_cons_of_pos (by decide), List.dropWhile_cons_of_neg (by decide)]
  rw [List.head?_cons, if_neg (by decide), if_neg (by decide), value]
  decide

namespace Response

variable (r : Response) (payload : Bytes)

theorem version_line : newline ∉ r.version := fun inside =>
  absurd (r.version_printable _ inside) (by decide)

theorem code_line : newline ∉ r.code := by
  rw [code, List.mem_append, not_or]
  exact ⟨r.version_line, by decide⟩

theorem statusLine_line : newline ∉ r.statusLine := by
  rw [statusLine, List.mem_append, not_or]
  exact ⟨r.code_line, r.reason_line⟩

/-- What follows the status code on the wire. -/
theorem bytes_eq : r.bytes ++ payload =
    r.code ++ (r.reason ++ crlf ++ (lines r.headers ++ crlf ++ payload)) := by
  simp [bytes, statusLine]

theorem bytes_eq_lines : r.bytes ++ payload =
    lines (r.statusLine :: r.headers) ++ crlf ++ payload := by
  simp [bytes, lines]

/-- When the first piece holds the status code, it is read as 200. -/
theorem statusCode_of_fits (fits : r.code.length ≤ 1023) :
    statusCode (cstr (nextLine (r.bytes ++ payload)).1 0) = some 200 := by
  let rest := r.reason ++ crlf ++ (lines r.headers ++ crlf ++ payload)
  let piece := (takeLine newline (1023 - r.code.length) rest).1
  have read : (nextLine (r.bytes ++ payload)).1 = r.version ++ 32 :: (50 :: 48 :: 48 :: piece) := by
    rw [bytes_eq, nextLine, takeLine_front r.code_line fits]
    show r.version ++ text " 200" ++ piece = _
    rw [List.append_assoc]
    rfl
  have begins : ∀ c, rest.head? = some c → c = 32 ∨ c = 13 := by
    intro c first
    rcases r.reason_blank with empty | blank
    · simp only [rest, empty, List.nil_append, List.cons_append, List.head?_cons,
        Option.some.injEq] at first
      exact Or.inr first.symm
    · obtain ⟨more, reason⟩ := List.head?_eq_some_iff.mp blank
      simp only [rest, reason, List.cons_append, List.head?_cons, Option.some.injEq] at first
      exact Or.inl first.symm
  have stops : ∀ c, (cstr piece 0).head? = some c → isdigit c = false := by
    intro c first
    have first : rest.head? = some c := by
      have head := head?_of_cstr (List.head?_eq_some_iff.mp first).choose_spec
      obtain ⟨more, piece_eq⟩ := List.head?_eq_some_iff.mp head
      have whole := takeLine_append newline (1023 - r.code.length) rest
      change piece ++ _ = rest at whole
      rw [← whole, piece_eq]
      rfl
    rcases begins c first with rfl | rfl
    · decide
    · decide
  have string : cstr (50 :: 48 :: 48 :: piece) 0 = 50 :: 48 :: 48 :: cstr piece 0 := rfl
  rw [read, statusCode_space _ r.version_printable, string, atoi_200 stops]

/-- When it does not, a number below 200 is read, or none. -/
theorem statusCode_of_long (long : ¬ r.code.length ≤ 1023) :
    ∀ result, statusCode (cstr (nextLine (r.bytes ++ payload)).1 0) = some result →
      result < 200 := by
  have full : (r.code.take 1023).length = 1023 :=
    List.length_take_of_le (Nat.le_of_not_le long)
  have read : (nextLine (r.bytes ++ payload)).1 = r.code.take 1023 := by
    have cut : takeLine newline (r.code.take 1023).length (r.code.take 1023 ++ (r.code.drop 1023 ++
        (r.reason ++ crlf ++ (lines r.headers ++ crlf ++ payload)))) = (r.code.take 1023, _) :=
      takeLine_full fun inside => r.code_line (List.mem_of_mem_take inside)
    rw [full, ← List.append_assoc, List.take_append_drop, ← bytes_eq] at cut
    rw [nextLine, cut]
  intro result status
  rw [read, code, List.take_append] at status
  by_cases whole : r.version.length < 1023
  · have size : r.code.length = r.version.length + 4 := by
      rw [code, List.length_append]
      rfl
    -- The piece ends after the space or after one or two of the three digits.
    have digits_cut : ∃ piece, (text " 200").take (1023 - r.version.length) = 32 :: piece ∧
        atoi (32 :: cstr piece 0) < 200 := by
      have short : 1023 - r.version.length = 1 ∨ 1023 - r.version.length = 2 ∨
          1023 - r.version.length = 3 := by omega
      rcases short with one | two | three
      · exact ⟨[], by rw [one]; rfl, by decide⟩
      · exact ⟨[50], by rw [two]; rfl, by decide⟩
      · exact ⟨[50, 48], by rw [three]; rfl, by decide⟩
    obtain ⟨piece, cut, low⟩ := digits_cut
    rw [List.take_of_length_le (Nat.le_of_lt whole), cut,
      statusCode_space _ r.version_printable] at status
    obtain rfl := Option.some.inj status
    exact low
  · rw [Nat.sub_eq_zero_of_le (Nat.le_of_not_lt whole), List.take_zero, List.append_nil,
      statusCode_none fun c inside => r.version_printable c (List.mem_of_mem_take inside)] at status
    cases status

end Response

/-! ### Reading a response -/

/-- The connection is set up: the function returns `START_OK`, and exactly the
payload is left. -/
def Connects (w : World) (buf : LineBuffer) (payload : Bytes) : Prop :=
  ∃ enough, ∀ fuel, enough ≤ fuel →
    (beginHttpRelay fuel buf).wp w (fun r w' => r = startOk ∧ w'.stream = payload)
      (fun _ _ => False)

section Connect

variable {w : World} {r : Response} {payload : Bytes}

/-- The status line never counts as the empty line. -/
theorem after_statusLine (r : Response) (payload : Bytes) :
    after newline 1023 blankLine (r.bytes ++ payload) =
      after newline 1023 blankLine (nextLine (r.bytes ++ payload)).2 := by
  have starts : ∃ more, r.bytes ++ payload = 72 :: more := ⟨_, rfl⟩
  obtain ⟨more, starts⟩ := starts
  refine LineLoop.after_nextLine (by rw [starts]; exact List.cons_ne_nil _ _) ?_
  rw [blankLine, decide_eq_false_iff_not]
  intro blank
  have whole := takeLine_append newline 1023 (r.bytes ++ payload)
  change (nextLine (r.bytes ++ payload)).1 ++ _ = _ at whole
  rw [blank, starts] at whole
  exact absurd (List.cons.inj whole).1 (by decide)

/-- However the reading of a response ends, it ends well exactly when it fits. -/
theorem wp_readAnswer_response {fuel : ℕ} {buf : LineBuffer} (enough : w.stream.length < fuel)
    (stream : w.stream = r.bytes ++ payload) :
    (readAnswer fuel buf).wp w (fun x w' => (x = startOk ∧ w'.stream = payload) ↔ r.Fits)
      (fun _ _ => False ↔ r.Fits) := by
  rw [readAnswer, Program.wp_bind]
  refine wp_lineInput (fun _ b w₁ line g₁ b₁ s₁ => ?_) fun _ empty none_left _ w₁ _ _ => ?_
  · dsimp only
    rw [if_neg (by decide), line, stream]
    by_cases fits : r.code.length ≤ 1023
    · rw [r.statusCode_of_fits payload fits]
      dsimp only
      rw [if_pos rfl]
      have single : ∀ text ∈ r.statusLine :: r.headers, newline ∉ text := by
        intro text inside
        rcases List.mem_cons.mp inside with rfl | inside
        · exact r.statusLine_line
        · exact (r.headers_lines text inside).2
      obtain ⟨rest, ends, iff⟩ := after_lines (r.statusLine :: r.headers) payload single
      rw [← r.bytes_eq_lines, after_statusLine, ← stream, ← s₁] at ends
      have enough₁ : w₁.stream.length < fuel := by
        have := nextLine_le w.stream
        rw [s₁]
        omega
      have whole_line : ∀ line, blankLine line → newline ∈ line := by
        intro line blank
        rw [of_decide_eq_true blank]
        decide
      refine Program.wp_mono (skipHeaders_lineLoop.stops whole_line fuel b w₁ rest enough₁ ends)
        (fun x w' held => ?_) fun _ _ never => never.elim
      rw [held.1, held.2, iff]
      exact ⟨fun done => ⟨fits, done.2⟩, fun done => ⟨rfl, done.2⟩⟩
    · -- Without the status code in the first piece the function gives up.
      have not_fits : ¬ r.Fits := fun all => fits all.1
      cases status : statusCode (cstr (nextLine (r.bytes ++ payload)).1 0) with
      | none => exact ⟨fun done => absurd done.1 (by decide), fun all => absurd all not_fits⟩
      | some result =>
          have low := r.statusCode_of_long payload fits result status
          dsimp only
          rw [if_neg (by omega), if_neg (by omega), if_neg (by omega)]
          exact ⟨fun done => absurd done.1 (by decide), fun all => absurd all not_fits⟩
  · have whole := takeLine_append newline 1023 w.stream
    change (nextLine w.stream).1 ++ (nextLine w.stream).2 = _ at whole
    rw [empty, List.append_nil, stream] at whole
    rw [stream, whole] at none_left
    exact absurd (by simp [Response.bytes]) none_left

theorem wp_beginHttpRelay_response {fuel : ℕ} {buf : LineBuffer}
    (enough : w.stream.length < fuel) (sent : RequestSent w)
    (stream : w.stream = r.bytes ++ payload) :
    (beginHttpRelay fuel buf).wp w (fun x w' => (x = startOk ∧ w'.stream = payload) ↔ r.Fits)
      (fun _ _ => False ↔ r.Fits) := by
  rw [beginHttpRelay, Program.wp_bind]
  refine wp_sendRequest (fun _ w' _ _ s' => ?_) (fun unsent => absurd sent unsent)
    fun unsent => absurd sent unsent
  rw [if_neg (by decide)]
  exact wp_readAnswer_response (by rw [s']; exact enough) (s'.trans stream)

theorem fits_of_connects {buf : LineBuffer} (sent : RequestSent w)
    (stream : w.stream = r.bytes ++ payload) (connects : Connects w buf payload) : r.Fits := by
  obtain ⟨enough, connects⟩ := connects
  have more := Nat.le_max_left enough (w.stream.length + 1)
  have room := Nat.le_max_right enough (w.stream.length + 1)
  exact (Program.wp_iff_of (wp_beginHttpRelay_response room sent stream)).mp (connects _ more)

/-- **Which responses connect**: those whose status code is within the first 1023
bytes and none of whose lines has a length that is a multiple of 1023. -/
theorem connects_iff {buf : LineBuffer} (sent : RequestSent w)
    (stream : w.stream = r.bytes ++ payload) : Connects w buf payload ↔ r.Fits := by
  constructor
  · exact fits_of_connects sent stream
  · intro fits
    refine ⟨w.stream.length + 1, fun fuel enough => ?_⟩
    exact (Program.wp_iff_of (wp_beginHttpRelay_response enough sent stream)).mpr fits

end Connect

namespace Response

/-- A response without a reason phrase, with these header lines. -/
def plain (headers : List Bytes)
    (headers_lines : ∀ line ∈ headers, line ≠ [] ∧ newline ∉ line) : Response where
  major := text "1"
  minor := text "0"
  reason := []
  headers := headers
  major_digits := ⟨List.cons_ne_nil _ _, forall_mem_of_all rfl⟩
  minor_digits := ⟨List.cons_ne_nil _ _, forall_mem_of_all rfl⟩
  reason_blank := Or.inl rfl
  reason_line := List.not_mem_nil
  headers_lines := headers_lines

/-- Two header lines. -/
def twoLines : Response := plain [text "Via: p", text "Age: 0"] (by decide)

/-- A header line of 1023 bytes. -/
def longLine : Response := plain [List.replicate 1023 97] (by
  intro line inside
  rw [List.mem_singleton] at inside
  rw [inside]
  refine ⟨by rw [Ne, List.replicate_eq_nil_iff]; decide, fun newline_in => ?_⟩
  exact absurd (List.eq_of_mem_replicate newline_in) (by decide))

end Response

/-- A world in which the whole request is sent and these bytes are received. -/
def World.answering (stream : Bytes) : World := World.start Globals.initial stream

theorem requestSent_answering (stream : Bytes) : RequestSent (World.answering stream) := by
  refine ⟨?_, fun basic => ?_⟩
  · show none ∉ List.take _ []
    rw [List.take_nil]
    exact List.not_mem_nil
  · cases basic

theorem connects_twoLines :
    Connects (World.answering (Response.twoLines.bytes ++ text "SSH")) (Buffer.filled 0 1024)
      (text "SSH") :=
  (connects_iff (requestSent_answering _) (List.append_nil _)).mpr ⟨by decide, by decide⟩

/-- After the line of 1023 bytes, its end is taken for the empty line, and the empty
line is left in front of the payload. -/
theorem not_connects_longLine :
    ¬ Connects (World.answering (Response.longLine.bytes ++ text "SSH")) (Buffer.filled 0 1024)
      (text "SSH") := by
  intro connects
  have fits := fits_of_connects (requestSent_answering _) (List.append_nil _) connects
  refine fits.2 (List.replicate 1023 97) (List.mem_cons_of_mem _ List.mem_cons_self) ?_
  have length : (List.replicate 1023 (97 : UInt8)).length = 1023 := List.length_replicate
  exact ⟨1, length.trans (Nat.mul_one 1023).symm⟩

end MsysGit.Connect
