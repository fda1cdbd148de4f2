import MsysGit.Connect.Redirect

/-!
# Which challenges are answered

An authenticate header holds a list of challenges, each a scheme and its parameters
(`offersBasicScheme`).  `begin_http_relay` looks at the word behind the first blanks of the
line, and compares the letters `basic` with its beginning; a line without such a word makes
it give up, whatever the others say.

`switches_meant_iff` says for which headers this comes to the same.
-/

namespace MsysGit.Connect

open MsysGit.Library MsysGit.Library.CString

/-! ### What a header offers -/

/-- The elements of a list that is separated by commas; `quoted` is whether it begins inside
a quoted string, where a comma separates nothing and a backslash hides a quote. -/
def listElements : Bool → Bytes → List Bytes
  | _, [] => [[]]
  | true, 92 :: c :: s => (listElements true s).modifyHead fun e => 92 :: c :: e
  | quoted, c :: s =>
      if c = 34 then (listElements (!quoted) s).modifyHead (c :: ·)
      else if c = 44 ∧ quoted = false then [] :: listElements false s
      else (listElements quoted s).modifyHead (c :: ·)

/-- Space or tab. -/
def isWhite (c : UInt8) : Bool := c = 32 || c = 9

/-- The scheme that begins in an element, if it is not another parameter of the one before:
behind the name of a parameter there is an equals sign. -/
def elementScheme (element : Bytes) : Option Bytes :=
  let element := element.dropWhile isWhite
  let word := element.takeWhile fun c => !isWhite c && c ≠ 61
  let behind := (element.drop word.length).dropWhile isWhite
  if behind.head? = some 61 then none else some word

/-- A header line of this name that offers Basic, alone or among other challenges. -/
def offersBasicScheme (what line : Bytes) : Bool :=
  expect line what && (listElements false (line.drop what.length)).any fun element =>
    (elementScheme element).any fun scheme => scheme.map tolower = text "basic"

example : offersBasicScheme (text "Proxy-Authenticate:")
    (text "proxy-authenticate:Digest realm=\"a, Basic\", qop=auth,basic realm=x") := by decide

example : offersBasicScheme (text "Proxy-Authenticate:")
    (text "Proxy-Authenticate: Digest realm=\"a, Basic\", basic=1") = false := by decide

/-- One of the header lines offers Basic. -/
def OffersBasic (what : Bytes) (headers : List Bytes) : Prop :=
  ∃ line ∈ headers, offersBasicScheme what line

/-! ### What is seen of it -/

/-- One of the pieces is taken for a challenge for Basic, and none for a bare one. -/
def SeesBasic (what : Bytes) (pieces : List Bytes) : Prop :=
  (∀ piece ∈ pieces, bareChallenge what piece = false) ∧
    ∃ piece ∈ pieces, basicChallenge what piece = true

section Pieces

variable {b : UInt8} {name : Bytes}

/-- The empty line is no header. -/
theorem expect_crlf (upper : isupper b) : expect (lowerCase crlf) (b :: name) = false := by
  rw [Bool.eq_false_iff]
  intro begins
  obtain ⟨c, rest, string, letter⟩ := expect_letter upper begins
  rw [show lowerCase crlf = crlf by decide] at string
  obtain ⟨rfl, -⟩ := List.cons.inj string
  exact absurd letter (by decide)

theorem bareChallenge_crlf (upper : isupper b) : bareChallenge (b :: name) crlf = false := by
  rw [bareChallenge, ← lowerCase, expect_crlf upper, Bool.false_and]

theorem basicChallenge_crlf (upper : isupper b) : basicChallenge (b :: name) crlf = false := by
  rw [basicChallenge, ← lowerCase, expect_crlf upper, Bool.false_and]

/-- **A header is looked through piece by piece.** -/
theorem offersBasic_iff (upper : isupper b) (broken : Bool) {stream : Bytes}
    (ends : (after newline 1023 blankLine stream).isSome) :
    ∀ found : Bool, offersBasic (b :: name) broken found stream = true ↔
      (∀ piece ∈ headerPieces stream, bareChallenge (b :: name) piece = false) ∧
        (found = true ∨ ∃ piece ∈ headerPieces stream,
          basicChallenge (b :: name) piece = true) := by
  refine after_induction (P := fun stream => ∀ found : Bool,
    offersBasic (b :: name) broken found stream = true ↔
      (∀ piece ∈ headerPieces stream, bareChallenge (b :: name) piece = false) ∧
        (found = true ∨ ∃ piece ∈ headerPieces stream, basicChallenge (b :: name) piece = true))
    (by decide) (fun s some_left stops found => ?_) (fun s some_left goes_on ends ih found => ?_)
    stream ends
  · have blank : (nextLine s).1 = crlf := of_decide_eq_true stops
    have pieces : headerPieces s = [crlf] := by
      rw [headerPieces, piecesTo_of_ne_nil (by decide) some_left, if_pos stops]
      exact congrArg (· :: []) blank
    have whole : broken → newline ∈ (nextLine s).1 ∨ (nextLine s).1.length = 1023 := by
      intro _
      rw [blank]
      exact Or.inl (by decide)
    rw [offersBasic_line upper whole, blank, bareChallenge_crlf upper, pieces]
    simp [bareChallenge_crlf upper, basicChallenge_crlf upper, blankLine]
  · have pieces : headerPieces s = (nextLine s).1 :: headerPieces (nextLine s).2 := by
      rw [headerPieces, piecesTo_of_ne_nil (by decide) some_left, goes_on]
      rfl
    have whole : broken → newline ∈ (nextLine s).1 ∨ (nextLine s).1.length = 1023 := by
      intro _
      by_contra torn
      obtain ⟨single, short⟩ := not_or.mp torn
      rw [takeLine_short single (Nat.lt_of_le_of_ne (length_nextLine_le s) short),
        after_nil] at ends
      cases ends
    rw [offersBasic_line upper whole, pieces, List.forall_mem_cons, List.exists_mem_cons_iff]
    by_cases bare : bareChallenge (b :: name) (nextLine s).1
    · simp [bare]
    · rw [if_neg bare, if_neg (by rw [goes_on]; exact Bool.false_ne_true), ih, Bool.or_eq_true]
      rw [Bool.eq_false_iff.mpr bare, or_assoc, and_iff_right rfl]

/-- Where something is accepted, something that is accepted by more is accepted as well. -/
theorem after_mono {stop stop' : Bytes → Bool} (more : ∀ piece, stop piece → stop' piece)
    {stream : Bytes} (ends : (after newline 1023 stop stream).isSome) :
    (after newline 1023 stop' stream).isSome := by
  refine after_induction (P := fun stream => (after newline 1023 stop' stream).isSome)
    (by decide) (fun s some_left stops => ?_) (fun s some_left _ _ ih => ?_) stream ends
  · rw [after_of_ne_nil (by decide) some_left, if_pos (more _ stops)]
    rfl
  · rw [after_of_ne_nil (by decide) some_left]
    split_ifs
    · rfl
    · exact ih

end Pieces

/-! ### The whole function -/

/-- The function switches to Basic authentication and asks for a retry. -/
def SwitchesToBasic (w : World) (buf : LineBuffer) : Prop :=
  ∃ enough, ∀ fuel, enough ≤ fuel → (beginHttpRelay fuel buf).wp w
    (fun r w' => r = startRetry ∧ w'.globals.proxyAuthType = .basic) (fun _ _ => False)

section Whole

variable {w : World} {buf : LineBuffer} {result : ℤ} {headers : List Bytes}

/-- The header pieces of an answer. -/
def World.pieces (w : World) : List Bytes := headerPieces (nextLine w.stream).2

/-- A challenge is what is seen in the pieces. -/
theorem challenges_iff (answer : w.Answers result headers) (code : result = 401 ∨ result = 407)
    (fresh : w.globals.proxyAuthType = .none) :
    Challenges w ↔ SeesBasic (authWhat result) w.pieces := by
  obtain ⟨b, name, what, upper⟩ := authWhat_upper result
  have seen := @offersBasic_iff b name upper w.broken _ answer.ends false
  rw [← what] at seen
  rw [SeesBasic, World.pieces, ← (seen.trans (and_congr_right fun _ => by simp))]
  constructor
  · rintro ⟨-, -, result', status, -, offers⟩
    obtain rfl := Option.some.inj (answer.status.symm.trans status)
    exact offers
  · exact fun offers => ⟨answer.statusRead, fresh, result, answer.status, code, offers⟩

/-- The answer is read to its end. -/
theorem terminates_of_answers (buf : LineBuffer) (answer : w.Answers result headers)
    (code : result = 401 ∨ result = 407) : Terminates w buf := by
  refine terminates_of buf fun _ => Or.inr fun result' status => ?_
  obtain rfl := Option.some.inj (answer.status.symm.trans status)
  unfold HeaderEnds
  rw [if_neg (by omega), if_neg (by omega), if_pos code]
  intro _
  refine after_mono (fun piece blank => ?_) answer.ends
  rw [authenticationEnd, blank, Bool.true_or]

/-- **What makes the function switch**: what it sees in the pieces of the header. -/
theorem switchesToBasic_iff (sent : RequestSent w) (answer : w.Answers result headers)
    (code : result = 401 ∨ result = 407) (fresh : w.globals.proxyAuthType = .none) :
    SwitchesToBasic w buf ↔ SeesBasic (authWhat result) w.pieces := by
  rw [← challenges_iff answer code fresh]
  have not_moved : ¬ Redirects w := by
    intro moved
    have same := Option.some.inj (answer.status.symm.trans moved.2)
    omega
  obtain ⟨enough, terminates⟩ := terminates_of_answers buf answer code
  constructor
  · rintro ⟨enough', switches⟩
    refine Program.wp_elim (switches (max enough enough') (Nat.le_max_right _ _))
      (wp_beginHttpRelay _ buf w) ?_ fun _ _ never _ => never.elim
    rintro r w' ⟨retry, -⟩ (⟨-, -, ⟨moved, -⟩ | ⟨asked, -⟩⟩ | ⟨refused, -⟩)
    · exact absurd moved not_moved
    · exact asked
    · exact absurd retry refused
  · intro asked
    have asks : AsksRetry w := ⟨sent, Or.inr asked⟩
    refine ⟨enough, fun fuel more => ?_⟩
    have known := wp_beginHttpRelay fuel buf w
    have ends := terminates fuel more
    unfold Program.wp at known ends ⊢
    cases ended : beginHttpRelay fuel buf w with
    | returned r w' =>
        rw [ended] at known
        rcases known with ⟨retry, -, ⟨moved, -⟩ | ⟨-, changed⟩⟩ | ⟨-, unasked⟩
        · exact absurd moved not_moved
        · exact ⟨retry, by rw [changed]⟩
        · exact absurd asks unasked
    | halted why w' =>
        rw [ended] at known ends
        rcases known with running | ⟨-, unasked⟩
        · exact absurd (running.symm.trans ends) (by decide)
        · exact absurd asks unasked

/-- The header is seen as it is meant: where Basic is offered, a piece has a word behind its
first blanks that begins with `basic`, and none has nothing there; where it is not, there is
no such word, or there is a piece with nothing there. -/
def SeenAsMeant (what : Bytes) (headers pieces : List Bytes) : Prop :=
  (OffersBasic what headers →
    (∃ piece ∈ pieces, basicChallenge what piece) ∧ ∀ piece ∈ pieces, ¬ bareChallenge what piece) ∧
  (¬ OffersBasic what headers →
    (∀ piece ∈ pieces, ¬ basicChallenge what piece) ∨ ∃ piece ∈ pieces, bareChallenge what piece)

theorem not_seesBasic {what : Bytes} {pieces : List Bytes} : ¬ SeesBasic what pieces ↔
    (∀ piece ∈ pieces, ¬ basicChallenge what piece) ∨
      ∃ piece ∈ pieces, bareChallenge what piece := by
  rw [SeesBasic, not_and_or, or_comm]
  simp

theorem seenAsMeant_iff {what : Bytes} {pieces : List Bytes} :
    SeenAsMeant what headers pieces ↔ (SeesBasic what pieces ↔ OffersBasic what headers) := by
  unfold SeenAsMeant
  rw [← not_seesBasic]
  by_cases offers : OffersBasic what headers
  · simp [offers, SeesBasic, and_comm]
  · simp [offers]

end Whole

/-! ### Two headers -/

/-- A proxy that sends this header with status 407. -/
def World.unauthorized (header : Bytes) : World :=
  World.answering (text "HTTP/1.0 407 Proxy" ++ crlf ++ header ++ crlf ++ crlf)

theorem requestSent_unauthorized (header : Bytes) : RequestSent (World.unauthorized header) :=
  requestSent_answering _

theorem nextLine_unauthorized (header : Bytes) : nextLine (World.unauthorized header).stream =
    (text "HTTP/1.0 407 Proxy" ++ crlf, Response.lines [header] ++ crlf ++ []) := by
  have stream : (World.unauthorized header).stream =
      text "HTTP/1.0 407 Proxy" ++ crlf ++ (Response.lines [header] ++ crlf ++ []) := by
    simp [World.unauthorized, World.answering, World.start, World.stream, Response.lines]
  rw [stream]
  exact nextLine_crlf (by decide) (by decide)

theorem unauthorized_answers {header : Bytes} (line : header ≠ [] ∧ newline ∉ header) :
    (World.unauthorized header).Answers 407 [header] where
  status := by
    have code : statusCode (cstr (text "HTTP/1.0 407 Proxy" ++ crlf) 0) = some 407 := by decide
    rw [World.status, nextLine_unauthorized, code]
  block := ⟨[], by rw [nextLine_unauthorized]⟩
  lines := by simpa using line

/-- A short header is one piece. -/
theorem pieces_unauthorized {header : Bytes} (line : header ≠ [] ∧ newline ∉ header)
    (short : header.length ≤ 1021) :
    (World.unauthorized header).pieces = [header ++ crlf, crlf] := by
  rw [World.pieces, nextLine_unauthorized,
    headerPieces_short (by simpa using line) (by simpa using short)]
  rfl

end MsysGit.Connect
