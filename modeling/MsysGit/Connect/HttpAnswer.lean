import MsysGit.Connect.HttpHeader

/-!
# When the reading of an HTTP answer ends

The three loops of `begin_http_relay` as `LineLoop`s, and from that exactly which
answers the function gets to the end of (`terminates_iff`).
-/

namespace MsysGit.Connect

open MsysGit.Library MsysGit.Library.CString

/-! ### What stops the loops -/

/-- `strcmp (buf, "\r\n") == 0` -/
def blankLine (line : Bytes) : Bool := line = crlf

/-- An authenticate header without anything behind its first blanks. -/
def bareChallenge (what line : Bytes) : Bool :=
  let lower := (cstr line 0).map tolower
  expect lower what && (lower.dropWhile (· ∉ text " ")).dropWhile (· ∈ text " ") = []

/-- What stops the loop after 401 and 407. -/
def authenticationEnd (what line : Bytes) : Bool := blankLine line || bareChallenge what line

/-- A piece of the stream that is a blank line is one as a string, and the other way
round: its line feed is its end. -/
theorem cstr_nextLine_eq_crlf (stream : Bytes) :
    cstr (nextLine stream).1 0 = crlf ↔ (nextLine stream).1 = crlf := by
  constructor
  · intro blank
    obtain ⟨more, split⟩ := List.takeWhile_prefix (fun c : UInt8 => decide (c ≠ 0))
      (l := (nextLine stream).1.drop 0)
    rw [List.drop_zero] at split
    change cstr (nextLine stream).1 0 ++ more = _ at split
    rw [blank] at split
    have read : (nextLine stream).1 = [13] ++ newline :: more := split.symm
    rw [← split, takeLine_last read, List.append_nil]
  · intro blank
    rw [blank]
    rfl

theorem map_tolower_eq_crlf (s : Bytes) : s.map tolower = crlf ↔ s = crlf := by
  constructor
  · intro same
    obtain ⟨c, d, rfl⟩ := List.length_eq_two.mp (by simpa using congrArg List.length same)
    simp only [List.map_cons, List.map_nil, List.cons.injEq, and_true] at same
    rw [(tolower_eq_iff (by decide)).mp same.1, (tolower_eq_iff (by decide)).mp same.2]
  · rintro rfl
    decide

/-- A string that begins with an expected letter begins with something that is
neither a blank nor punctuation. -/
theorem expect_letter {str what : Bytes} {b : UInt8} (upper : isupper b)
    (begins : expect str (b :: what)) : ∃ c rest, str = c :: rest ∧ 65 ≤ c := by
  rw [expect, Bool.and_eq_true, decide_eq_true_eq] at begins
  have same := begins.1
  have not_lower : toupper b = b := by
    unfold toupper islower
    unfold isupper at upper
    simp only [Bool.and_eq_true, decide_eq_true_eq] at upper
    have top : b.toNat ≤ 90 := upper.2
    rw [if_neg]
    simp only [Bool.and_eq_true, decide_eq_true_eq]
    rintro ⟨lower, -⟩
    have : 97 ≤ b.toNat := lower
    omega
  rw [not_lower] at same
  simp only [isupper, Bool.and_eq_true, decide_eq_true_eq] at upper
  have letter : 65 ≤ str.headD 0 := by
    unfold toupper islower at same
    split_ifs at same with lower
    · simp only [Bool.and_eq_true, decide_eq_true_eq] at lower
      have : 97 ≤ (str.headD 0).toNat := lower.1
      show 65 ≤ (str.headD 0).toNat
      omega
    · rw [same]
      exact upper.1
  cases str with
  | nil => exact absurd letter (by decide)
  | cons c rest => exact ⟨c, rest, rfl, letter⟩

theorem letter_notMem {c : UInt8} {delim : Bytes} (letter : 65 ≤ c) (low : ∀ d ∈ delim, d < 65) :
    c ∉ delim := by
  intro inside
  have below := low c inside
  exact absurd (Nat.lt_of_lt_of_le below letter) (Nat.lt_irrefl _)

theorem head?_of_cstr {mem : Bytes} {c : UInt8} {rest : Bytes} (h : cstr mem 0 = c :: rest) :
    mem.head? = some c := by
  obtain ⟨more, split, -⟩ := drop_eq_cstr_append mem 0
  rw [List.drop_zero, h] at split
  rw [split]
  rfl

theorem cstr_ne_crlf {mem : Bytes} {c : UInt8} (head : mem.head? = some c) (letter : 65 ≤ c) :
    cstr mem 0 ≠ crlf := by
  intro blank
  have first := head?_of_cstr blank
  rw [head] at first
  obtain rfl := Option.some.inj first
  exact absurd letter (by decide)

/-! ### The loops -/

section Loops

variable {w : World} {buf : LineBuffer} {E : Halt → World → Prop}

/-- After 200. -/
theorem skipHeaders_lineLoop : LineLoop skipHeaders blankLine (· = startOk) where
  zero _ := rfl
  step fuel buf w Q E failed stopped goes_on := by
    rw [skipHeaders, Program.wp_bind]
    refine wp_lineInput (fun torn b w' line _ broken rest => ?_)
      fun broken empty none_left _ w' _ _ => failed broken empty none_left _ w'
    dsimp only
    rw [if_neg (by decide)]
    have same : cstr b.cells 0 = crlf ↔ (nextLine w.stream).1 = crlf := by
      rw [line, cstr_nextLine_eq_crlf]
    by_cases blank : (nextLine w.stream).1 = crlf
    · rw [if_pos (same.mpr blank)]
      exact stopped (decide_eq_true blank) startOk w' rfl rest
    · rw [if_neg (same.not.mpr blank)]
      exact goes_on (decide_eq_false blank) torn b w' broken rest

/-- A `Location:` line is parsed without following a null pointer, and is not blank
afterwards. -/
theorem wp_location {Q : LineBuffer × Option ℕ → World → Prop} {c : UInt8}
    (head : buf.cells.head? = some c) (letter : 65 ≤ c)
    (parsed : ∀ buf' host port, buf'.cells.head? = some c →
      Q (buf', host) { w with globals := { w.globals with relayPort := port } }) :
    (location buf).wp w Q E := by
  have nonzero : c ≠ 0 := by
    rintro rfl
    exact absurd letter (by decide)
  have head₁ := (cutToken_head? buf 0 (text "//")).trans head
  rcases first : cutToken buf 0 (text "//") with ⟨buf₁, host⟩
  rw [first] at head₁
  have head₂ := (cutToken_head? buf₁ 0 (text "/")).trans head₁
  rcases second : cutToken buf₁ 0 (text "/") with ⟨buf₂, path⟩
  rw [second] at head₂
  have head₃ := (cutToken_head? buf₂ 0 (text ":")).trans head₂
  have next : ∃ stop, (cutToken buf₂ 0 (text ":")).2 = some stop :=
    cutToken_isSome buf₂ head₂ nonzero (letter_notMem letter (forall_mem_of_all rfl))
  rcases third : cutToken buf₂ 0 (text ":") with ⟨buf₃, port⟩
  rw [third] at head₃ next
  cases port with
  | none => simp at next
  | some port =>
      simp only [location, first, second, third, modifyGlobals, Program.wp_bind,
        Program.wp_update, Program.wp_pure]
      exact parsed buf₃ host _ head₃

theorem wp_finishRedirect {Q : ℤ → World → Prop} {host : Option (Option ℕ)}
    (h : ∀ host gone, Q startRetry
      { w with globals := { w.globals with relayHost := host, relayHostGone := gone } }) :
    (finishRedirect buf host).wp w Q E := by
  cases host with
  | none => exact h w.globals.relayHost w.globals.relayHostGone
  | some pointer => exact h _ _

/-- The string of a line, in lower case. -/
theorem cstr_downcase_eq_crlf {stream : Bytes}
    (line : cstr buf.cells 0 = cstr (nextLine stream).1 0) :
    cstr (downcase buf).cells 0 = crlf ↔ (nextLine stream).1 = crlf := by
  rw [cstr_downcase, line, map_tolower_eq_crlf, cstr_nextLine_eq_crlf]

theorem location_letter : text "Location: " = 76 :: text "ocation: " := rfl

/-- Only the relay is another one. -/
def Globals.Redirected (g g' : Globals) : Prop :=
  ∃ host gone port, g' = { g with relayHost := host, relayHostGone := gone, relayPort := port }

/-- One round of the loop after 302. -/
theorem wp_redirect_round {fuel : ℕ} {host : Option (Option ℕ)} {Q : ℤ → World → Prop}
    (failed : w.broken → (nextLine w.stream).2 = [] → newline ∉ (nextLine w.stream).1 →
      ∀ w', w.globals.Redirected w'.globals → Q startRetry w')
    (stopped : blankLine (nextLine w.stream).1 → ∀ w', w.globals.Redirected w'.globals →
      w'.stream = (nextLine w.stream).2 → Q startRetry w')
    (goes_on : blankLine (nextLine w.stream).1 = false →
      (w.broken → newline ∈ (nextLine w.stream).1 ∨ (nextLine w.stream).1.length = 1023) →
      ∀ buf' host' w', w.globals.Redirected w'.globals → w'.broken = w.broken →
      w'.stream = (nextLine w.stream).2 → (redirect fuel buf' host').wp w' Q E) :
    (redirect (fuel + 1) buf host).wp w Q E := by
  rw [redirect, Program.wp_bind]
  refine wp_lineInput (fun torn b w' line same broken rest => ?_)
    fun broken empty none_left b w' _ same => ?_
  · dsimp only
    rw [if_neg (by decide)]
    by_cases found : expect (cstr (downcase b).cells 0) (text "Location: ")
    · obtain ⟨c, more, string, letter⟩ := expect_letter (by decide) (location_letter ▸ found)
      have first : (downcase b).cells.head? = some c := head?_of_cstr string
      have not_blank : (nextLine w.stream).1 ≠ crlf := fun blank =>
        cstr_ne_crlf first letter ((cstr_downcase_eq_crlf line).mpr blank)
      rw [if_pos found, Program.wp_bind]
      refine wp_location first letter fun b' pointer port head => ?_
      -- Cut into tokens, the line still begins with its letter.
      rw [Program.wp_bind, Program.wp_pure]
      dsimp only
      rw [if_neg (cstr_ne_crlf head letter)]
      exact goes_on (decide_eq_false not_blank) torn b' (some pointer) _
        ⟨w.globals.relayHost, w.globals.relayHostGone, port, by rw [same]⟩ broken rest
    · rw [if_neg found, Program.wp_bind, Program.wp_pure]
      dsimp only
      by_cases blank : (nextLine w.stream).1 = crlf
      · rw [if_pos ((cstr_downcase_eq_crlf line).mpr blank)]
        exact wp_finishRedirect fun host' gone =>
          stopped (decide_eq_true blank) _ ⟨host', gone, w.globals.relayPort, by rw [same]⟩ rest
      · rw [if_neg fun same => blank ((cstr_downcase_eq_crlf line).mp same)]
        exact goes_on (decide_eq_false blank) torn _ host w'
          ⟨w.globals.relayHost, w.globals.relayHostGone, w.globals.relayPort, same⟩ broken rest
  · dsimp only
    rw [if_pos rfl]
    exact wp_finishRedirect fun host' gone =>
      failed broken empty none_left _ ⟨host', gone, w.globals.relayPort, by rw [same]⟩

/-- After 302. -/
theorem redirect_lineLoop :
    LineLoop (fun fuel (s : LineBuffer × Option (Option ℕ)) => redirect fuel s.1 s.2) blankLine
      (fun _ => True) where
  zero _ := rfl
  step _ _ _ _ _ failed stopped goes_on :=
    wp_redirect_round (fun torn empty none_left w' _ => failed torn empty none_left _ w')
      (fun blank w' _ rest => stopped blank _ w' trivial rest)
      fun other whole buf' host' w' _ broken rest =>
        goes_on other whole (buf', host') w' broken rest

/-- Nothing is left to be the scheme. -/
def NoScheme (header : Bytes) : Prop :=
  (header.dropWhile (· ∉ text " ")).dropWhile (· ∈ text " ") = []

/-- A string that does not begin with a delimiter has a token unless it is empty. -/
theorem strcspn_dropWhile_eq_zero (s delim : Bytes) :
    strcspn (s.dropWhile (· ∈ delim)) delim = 0 ↔ s.dropWhile (· ∈ delim) = [] := by
  constructor
  · intro none_read
    by_contra some_left
    have first := List.head_dropWhile_not (fun c => decide (c ∈ delim)) some_left
    cases left : s.dropWhile (· ∈ delim) with
    | nil => exact some_left left
    | cons c rest =>
        simp only [left, List.head_cons, decide_eq_false_iff_not] at first
        rw [left, strcspn, List.takeWhile_cons_of_pos (by simpa using first)] at none_read
        cases none_read
  · intro empty
    rw [empty]
    rfl

/-- The word behind the name of an authenticate header. -/
def schemeOf (header : Bytes) : Bytes :=
  ((header.dropWhile (· ∉ text " ")).dropWhile (· ∈ text " ")).takeWhile (· ∉ text " ")

/-- A challenge for Basic authentication. -/
def isBasic (header : Bytes) : Bool := expect (schemeOf header) (text "basic")

/-- A header line that offers Basic authentication. -/
def basicChallenge (what line : Bytes) : Bool :=
  let lower := (cstr line 0).map tolower
  expect lower what && isBasic lower

/-- An authenticate header is refused when nothing follows its name; it is not
blank afterwards. -/
theorem wp_challenge {Q : Option LineBuffer → World → Prop} {c : UInt8}
    (head : buf.cells.head? = some c) (letter : 65 ≤ c)
    (bare : NoScheme (cstr buf.cells 0) → Q none w)
    (parsed : ¬ NoScheme (cstr buf.cells 0) → ∀ buf', buf'.cells.head? = some c →
      Q (some buf') { w with globals := { w.globals with
        proxyAuthType := if isBasic (cstr buf.cells 0) then .basic
          else w.globals.proxyAuthType } }) :
    (challenge buf).wp w Q E := by
  have nonzero : c ≠ 0 := by
    rintro rfl
    exact absurd letter (by decide)
  have head₁ := (cutToken_head? buf 0 (text " ")).trans head
  have next : ∃ stop, (cutToken buf 0 (text " ")).2 = some stop :=
    cutToken_isSome buf head nonzero (letter_notMem letter (forall_mem_of_all rfl))
  obtain ⟨scheme, next⟩ := next
  have token := cstr_cutToken buf next
  rcases first : cutToken buf 0 (text " ") with ⟨buf₁, scheme'⟩
  rw [first] at head₁ next token
  cases next
  simp only [challenge, first]
  rcases Nat.eq_zero_or_pos (strcspn (cstr buf₁.cells scheme) (text " ")) with stuck | cut
  · rw [cutToken_stuck stuck]
    rw [token, strcspn_dropWhile_eq_zero] at stuck
    exact bare stuck
  · have head₂ := (cutToken_head? buf₁ scheme (text " ")).trans head₁
    have some_realm := congrArg Prod.snd (cutToken_cut cut)
    have word := cstr_cutToken_self buf₁ scheme cut
    rcases second : cutToken buf₁ scheme (text " ") with ⟨buf₂, realm⟩
    rw [second] at head₂ some_realm word
    have basic : expect (cstr buf₂.cells scheme) (text "basic") = isBasic (cstr buf.cells 0) := by
      rw [word, token]
      rfl
    have not_bare : ¬ NoScheme (cstr buf.cells 0) := by
      intro none_left
      rw [token, (strcspn_dropWhile_eq_zero _ _).mpr none_left] at cut
      exact Nat.lt_irrefl 0 cut
    have some_realm' : realm ≠ none := by
      intro null
      rw [null] at some_realm
      cases some_realm
    have known := parsed not_bare buf₂ head₂
    simp only [if_neg some_realm', basic]
    split_ifs at known ⊢
    · exact known
    · exact known

theorem wp_finishAuthentication {Q : ℤ → World → Prop}
    (h : Q (if w.globals.proxyAuthType = .none then startError else startRetry) w) :
    finishAuthentication.wp w Q E := by
  simp only [finishAuthentication, globals, Program.wp_bind, Program.wp_read]
  split_ifs at h ⊢
  · exact h
  · exact h

/-- One round of the loop after 401 and 407. -/
theorem wp_findAuthentication_round {b : UInt8} {name : Bytes} (upper : isupper b) {fuel : ℕ}
    {Q : ℤ → World → Prop}
    (failed : w.broken → (nextLine w.stream).2 = [] → newline ∉ (nextLine w.stream).1 →
      (nextLine w.stream).1.length < 1023 → ∀ w', w'.globals = w.globals →
      Q (if w.globals.proxyAuthType = .none then startError else startRetry) w')
    (bare : (w.broken → newline ∈ (nextLine w.stream).1 ∨ (nextLine w.stream).1.length = 1023) →
      bareChallenge (b :: name) (nextLine w.stream).1 → ∀ w',
      w'.stream = (nextLine w.stream).2 → Q startError w')
    (blank : (w.broken → newline ∈ (nextLine w.stream).1 ∨ (nextLine w.stream).1.length = 1023) →
      bareChallenge (b :: name) (nextLine w.stream).1 = false →
      blankLine (nextLine w.stream).1 → ∀ w', w'.globals = w.globals →
      w'.stream = (nextLine w.stream).2 →
      Q (if w.globals.proxyAuthType = .none then startError else startRetry) w')
    (goes_on : (w.broken → newline ∈ (nextLine w.stream).1 ∨
        (nextLine w.stream).1.length = 1023) →
      bareChallenge (b :: name) (nextLine w.stream).1 = false →
      blankLine (nextLine w.stream).1 = false → ∀ buf' w',
      w'.globals = { w.globals with
        proxyAuthType := if basicChallenge (b :: name) (nextLine w.stream).1 then .basic
          else w.globals.proxyAuthType } →
      w'.broken = w.broken → w'.stream = (nextLine w.stream).2 →
      (findAuthentication (b :: name) fuel buf').wp w' Q E) :
    (findAuthentication (b :: name) (fuel + 1) buf).wp w Q E := by
  rw [findAuthentication, Program.wp_bind]
  refine wp_lineInput (fun whole buf w' line same broken rest => ?_)
    fun torn empty none_left buf w' short same => ?_
  · dsimp only
    rw [if_neg (by decide)]
    have lower : cstr (downcase buf).cells 0 = (cstr (nextLine w.stream).1 0).map tolower := by
      rw [cstr_downcase, line]
    have blank_iff := cstr_downcase_eq_crlf line
    by_cases header : expect (cstr (downcase buf).cells 0) (b :: name)
    · obtain ⟨c, more, string, letter⟩ := expect_letter upper header
      have first : (downcase buf).cells.head? = some c := head?_of_cstr string
      have not_blank : (nextLine w.stream).1 ≠ crlf := fun blank =>
        cstr_ne_crlf first letter (blank_iff.mpr blank)
      have bare_iff : bareChallenge (b :: name) (nextLine w.stream).1 = true ↔
          NoScheme (cstr (downcase buf).cells 0) := by
        rw [lower] at header ⊢
        simp [bareChallenge, header, NoScheme]
      have basic : basicChallenge (b :: name) (nextLine w.stream).1 =
          isBasic (cstr (downcase buf).cells 0) := by
        rw [lower] at header ⊢
        simp [basicChallenge, header]
      rw [if_pos header, Program.wp_bind]
      refine wp_challenge first letter (fun none_left => ?_) fun some_scheme buf' head => ?_
      · exact bare whole (bare_iff.mpr none_left) w' rest
      · dsimp only
        rw [if_neg (cstr_ne_crlf head letter)]
        exact goes_on whole (Bool.eq_false_iff.mpr (bare_iff.not.mpr some_scheme))
          (decide_eq_false not_blank) buf' _ (by rw [same, basic]) broken rest
    · have other : bareChallenge (b :: name) (nextLine w.stream).1 = false ∧
          basicChallenge (b :: name) (nextLine w.stream).1 = false := by
        rw [lower] at header
        simp [bareChallenge, basicChallenge, header]
      rw [if_neg header, Program.wp_bind, Program.wp_pure]
      dsimp only
      by_cases ended : (nextLine w.stream).1 = crlf
      · rw [if_pos (blank_iff.mpr ended)]
        apply wp_finishAuthentication
        rw [same]
        exact blank whole other.1 (decide_eq_true ended) w' same rest
      · rw [if_neg (blank_iff.not.mpr ended)]
        refine goes_on whole other.1 (decide_eq_false ended) _ w' ?_ broken rest
        rw [other.2, if_neg Bool.false_ne_true, same]
  · dsimp only
    rw [if_pos rfl]
    apply wp_finishAuthentication
    rw [same]
    exact failed torn empty none_left short w' same

/-- After 401 or 407. -/
theorem findAuthentication_lineLoop {b : UInt8} {name : Bytes} (upper : isupper b) :
    LineLoop (findAuthentication (b :: name)) (authenticationEnd (b :: name)) (fun _ => True) where
  zero _ := rfl
  step _ _ _ _ _ failed stopped goes_on :=
    wp_findAuthentication_round upper
      (fun torn empty none_left _ w' _ => failed torn empty none_left _ w')
      (fun _ bare w' rest =>
        stopped (by rw [authenticationEnd, bare, Bool.or_true]) _ w' trivial rest)
      (fun _ _ blank w' _ rest =>
        stopped (by rw [authenticationEnd, blank, Bool.true_or]) _ w' trivial rest)
      fun whole bare blank buf' w' _ broken rest =>
        goes_on (by rw [authenticationEnd, bare, blank, Bool.or_false]) whole buf' w' broken rest

/-- No loop stops at an empty piece. -/
theorem authenticationEnd_nil {b : UInt8} {name : Bytes} (upper : isupper b) :
    authenticationEnd (b :: name) [] = false := by
  have empty : expect [] (b :: name) = false := by
    rw [Bool.eq_false_iff]
    intro begins
    obtain ⟨c, rest, string, -⟩ := expect_letter upper begins
    cases string
  have lower : (cstr [] 0).map tolower = [] := rfl
  simp [authenticationEnd, blankLine, bareChallenge, lower, empty]

/-- Both header names begin with a capital letter. -/
theorem authWhat_upper (result : ℤ) : ∃ b name, authWhat result = b :: name ∧ isupper b := by
  unfold authWhat
  split_ifs
  · exact ⟨87, text "WW-Authenticate:", rfl, by decide⟩
  · exact ⟨80, text "roxy-Authenticate:", rfl, by decide⟩

end Loops

/-! ### The whole function -/

/-- Everything of the request is accepted by `send`, and what it needs is there. -/
def RequestSent (w : World) : Prop :=
  none ∉ w.accepts.take (if w.globals.proxyAuthType = .basic then 3 else 2) ∧
    (w.globals.proxyAuthType = .basic → w.globals.relayUser ≠ none ∧ w.globals.password ≠ none)

/-- The header lines of an answer with this status code have an end: the line at
which the code stops reading is there. -/
def HeaderEnds (g : Globals) (result : ℤ) (lines : Bytes) : Prop :=
  if result = 200 then (after newline 1023 blankLine lines).isSome = true
  else if result = 302 then (after newline 1023 blankLine lines).isSome = true
  else if result = 401 ∨ result = 407 then
    g.proxyAuthType = .none →
      (after newline 1023 (authenticationEnd (authWhat result)) lines).isSome = true
  else True

/-- Nothing more is read, or the header lines have an end. -/
def AnswerEnds (g : Globals) (stream : Bytes) : Prop :=
  ∀ result, statusCode (cstr (nextLine stream).1 0) = some result →
    HeaderEnds g result (nextLine stream).2

/-- With enough fuel the function returns, or the process ends. -/
def Terminates (w : World) (buf : LineBuffer) : Prop :=
  ∃ enough, ∀ fuel, enough ≤ fuel →
    (beginHttpRelay fuel buf).wp w (fun _ _ => True) (fun why _ => why = .fatal)

section Whole

variable {w : World} {E : Halt → World → Prop}

theorem notMem_take_succ {α : Type} {a : α} {l : List α} {n : ℕ} :
    a ∉ l.take (n + 1) ↔ l.head? ≠ some a ∧ a ∉ l.tail.take n := by
  cases l with
  | nil => simp
  | cons b l => simp [eq_comm]

theorem proxyAuthType_erasePassword (g : Globals) :
    g.erasePassword.proxyAuthType = g.proxyAuthType := by
  obtain ⟨getenv, table, same⟩ := g.erasePassword_eq
  rw [same]

theorem wp_sendf {Q : ℤ → World → Prop} {formatted : Bytes}
    (ok : w.accepts.head? ≠ some none → ∀ w', w'.accepts = w.accepts.tail →
      w'.globals = w.globals → w'.broken = w.broken → w'.stream = w.stream → Q 0 w')
    (failed : w.accepts.head? = some none → ∀ w', Q (-1) w') :
    (sendf formatted).wp w Q E := by
  rw [sendf, Program.wp_bind]
  exact wp_send (fun first => failed first _) fun first _ _ _ => ok first _ rfl rfl rfl rfl

/-- The empty line at the end of the request. -/
theorem wp_endRequest {Q : ℤ → World → Prop}
    (ok : w.accepts.head? ≠ some none → ∀ w', w'.globals = w.globals → w'.broken = w.broken →
      w'.stream = w.stream → Q 0 w')
    (failed : w.accepts.head? = some none → ∀ w', Q startError w') :
    (do let ended ← sendf crlf
        if ended < 0 then pure startError else pure 0 : Io ℤ).wp w Q E := by
  rw [Program.wp_bind]
  refine wp_sendf (fun first w' _ g b s => ?_) fun first w' => ?_
  · rw [if_neg (by decide)]
    exact ok first w' g b s
  · rw [if_pos (by decide)]
    exact failed first w'

/-- What sending the request leaves in the global variables. -/
def Globals.afterRequest (g : Globals) : Globals :=
  if g.proxyAuthType = .basic then g.erasePassword else g

theorem Globals.proxyAuthType_afterRequest (g : Globals) :
    g.afterRequest.proxyAuthType = g.proxyAuthType := by
  unfold Globals.afterRequest
  split_ifs
  · exact proxyAuthType_erasePassword g
  · rfl

/-- The request is sent whole, call by call, or the function does not go on. -/
theorem wp_sendRequest {Q : ℤ → World → Prop}
    (sent : RequestSent w → ∀ w', w'.globals = w.globals.afterRequest →
      w'.broken = w.broken → w'.stream = w.stream → Q 0 w')
    (unsent : ¬ RequestSent w → ∀ w', Q startError w')
    (refused : ¬ RequestSent w → ∀ w', E .fatal w') : sendRequest.wp w Q E := by
  simp only [sendRequest, globals, Program.wp_bind, Program.wp_read]
  refine wp_sendf (fun first w₁ a₁ g₁ b₁ s₁ => ?_) fun first w₁ => ?_
  · rw [if_neg (by decide)]
    by_cases basic : w.globals.proxyAuthType = .basic
    · -- One call is done; two are left, and the credentials are needed.
      have split : RequestSent w ↔ w₁.accepts.head? ≠ some none ∧
          w₁.accepts.tail.head? ≠ some none ∧
          w₁.globals.relayUser ≠ none ∧ w₁.globals.password ≠ none := by
        simp [RequestSent, basic, notMem_take_succ, first, a₁, g₁, and_assoc]
      rw [if_pos basic, Program.wp_bind]
      simp only [basicAuth, globals, Program.wp_bind, Program.wp_read]
      cases user : w₁.globals.relayUser with
      | none => exact refused (fun all => (split.mp all).2.2.1 user) w₁
      | some name =>
          cases pass : w₁.globals.password with
          | none => exact refused (fun all => (split.mp all).2.2.2 pass) w₁
          | some word =>
              simp only [modifyGlobals, Program.wp_bind, Program.wp_update]
              refine wp_sendf (fun second w₂ a₂ g₂ b₂ s₂ => ?_) fun second w₂ => ?_
              · rw [if_neg (by decide)]
                refine wp_endRequest (fun third w₃ g₃ b₃ s₃ => ?_) fun third w₃ => ?_
                · have whole : RequestSent w :=
                    split.mpr ⟨second, a₂ ▸ third, by simp [user], by simp [pass]⟩
                  refine sent whole w₃ ?_ (b₃.trans (b₂.trans b₁)) (s₃.trans (s₂.trans s₁))
                  rw [g₃, g₂, ← g₁, Globals.afterRequest, if_pos (g₁ ▸ basic)]
                · exact unsent (fun all => (split.mp all).2.1 (a₂ ▸ third)) w₃
              · rw [if_pos (by decide)]
                exact unsent (fun all => (split.mp all).1 second) w₂
    · have split : RequestSent w ↔ w₁.accepts.head? ≠ some none := by
        simp [RequestSent, basic, notMem_take_succ, first, a₁]
      rw [if_neg basic, Program.wp_bind, Program.wp_pure, if_neg (by decide)]
      refine wp_endRequest (fun second w₂ g₂ b₂ s₂ => ?_) fun second w₂ => ?_
      · have same : w₂.globals = w.globals.afterRequest := by
          rw [g₂, g₁, Globals.afterRequest, if_neg basic]
        exact sent (split.mpr second) w₂ same (b₂.trans b₁) (s₂.trans s₁)
      · exact unsent (fun all => split.mp all second) w₂
  · rw [if_pos (by decide)]
    refine unsent (fun all => ?_) w₁
    have all := all.1
    split_ifs at all
    · exact (notMem_take_succ.mp all).1 first
    · exact (notMem_take_succ.mp all).1 first

theorem nextLine_le (stream : Bytes) : (nextLine stream).2.length ≤ stream.length := by
  have whole := congrArg List.length (takeLine_append newline 1023 stream)
  rw [List.length_append] at whole
  exact Nat.le.intro (Nat.add_comm _ _ ▸ whole)

/-- An answer that ends, or breaks off, is read to its end. -/
theorem readAnswer_returns {fuel : ℕ} {buf : LineBuffer} (enough : w.stream.length < fuel)
    (ends : w.broken ∨ AnswerEnds w.globals w.stream) :
    (readAnswer fuel buf).wp w (fun _ _ => True) (fun _ _ => False) := by
  rw [readAnswer, Program.wp_bind]
  refine wp_lineInput (fun torn b w₁ line g₁ b₁ s₁ => ?_) fun broken empty none_left b w₁ _ _ => ?_
  · have enough₁ : w₁.stream.length < fuel := by
      have := nextLine_le w.stream
      rw [s₁]
      omega
    dsimp only
    rw [if_neg (by decide)]
    cases status : statusCode (cstr b.cells 0) with
    | none => trivial
    | some result =>
        have ends₁ : w₁.broken ∨ HeaderEnds w₁.globals result w₁.stream := by
          rw [b₁, g₁, s₁]
          exact ends.imp_right fun all => all result (line ▸ status)
        unfold HeaderEnds at ends₁
        dsimp only
        by_cases ok : result = 200
        · rw [if_pos ok] at ends₁ ⊢
          exact skipHeaders_lineLoop.returns fuel b w₁ enough₁ ends₁
        rw [if_neg ok] at ends₁ ⊢
        by_cases moved : result = 302
        · rw [if_pos moved] at ends₁ ⊢
          exact redirect_lineLoop.returns fuel (b, none) w₁ enough₁ ends₁
        rw [if_neg moved] at ends₁ ⊢
        by_cases required : result = 401 ∨ result = 407
        · rw [if_pos required] at ends₁ ⊢
          simp only [globals, Program.wp_bind, Program.wp_read]
          by_cases unauthorized : w₁.globals.proxyAuthType = .none
          · rw [if_neg (not_not.mpr unauthorized)]
            obtain ⟨first, name, what, upper⟩ := authWhat_upper result
            rw [what] at ends₁ ⊢
            exact (findAuthentication_lineLoop upper).returns fuel b w₁ enough₁
              (ends₁.imp_right fun all => all unauthorized)
          · rw [if_pos unauthorized]
            trivial
        · rw [if_neg required]
          trivial
  · trivial

/-- An answer without an end is read for ever. -/
theorem readAnswer_runs {fuel : ℕ} {buf : LineBuffer} (whole : w.broken = false)
    (never : ¬ AnswerEnds w.globals w.stream) :
    (readAnswer fuel buf).wp w (fun _ _ => False) (fun why _ => why = .running) := by
  obtain ⟨result, status, never⟩ : ∃ result,
      statusCode (cstr (nextLine w.stream).1 0) = some result ∧
        ¬ HeaderEnds w.globals result (nextLine w.stream).2 := by
    simpa [AnswerEnds] using never
  rw [readAnswer, Program.wp_bind]
  refine wp_lineInput (fun torn b w₁ line g₁ b₁ s₁ => ?_)
    fun broken => absurd broken (by simp [whole])
  have whole₁ := b₁.trans whole
  rw [← g₁, ← s₁] at never
  unfold HeaderEnds at never
  dsimp only
  rw [if_neg (by decide), line, status]
  dsimp only
  by_cases ok : result = 200
  · rw [if_pos ok] at never ⊢
    exact skipHeaders_lineLoop.runs rfl fuel b w₁ whole₁ (by simpa using never)
  rw [if_neg ok] at never ⊢
  by_cases moved : result = 302
  · rw [if_pos moved] at never ⊢
    exact redirect_lineLoop.runs rfl fuel (b, none) w₁ whole₁ (by simpa using never)
  rw [if_neg moved] at never ⊢
  by_cases required : result = 401 ∨ result = 407
  · rw [if_pos required] at never ⊢
    obtain ⟨unauthorized, never⟩ := Classical.not_imp.mp never
    simp only [globals, Program.wp_bind, Program.wp_read]
    rw [if_neg (not_not.mpr unauthorized)]
    obtain ⟨first, name, what, upper⟩ := authWhat_upper result
    rw [what] at never ⊢
    exact (findAuthentication_lineLoop upper).runs (authenticationEnd_nil upper) fuel b w₁ whole₁
      (by simpa using never)
  · -- No header is read for any other status.
    rw [if_neg required] at never
    exact absurd trivial never

/-- Sending the request changes nothing that the reading depends on. -/
theorem answerEnds_congr {w' : World} (after : w'.globals = w.globals.afterRequest)
    (stream : w'.stream = w.stream) :
    AnswerEnds w'.globals w'.stream ↔ AnswerEnds w.globals w.stream := by
  unfold AnswerEnds HeaderEnds
  rw [after, Globals.proxyAuthType_afterRequest, stream]

/-- After the request, an answer without an end is read for ever. -/
theorem beginHttpRelay_runs {buf : LineBuffer} (fuel : ℕ) (sent : RequestSent w)
    (whole : w.broken = false) (never : ¬ AnswerEnds w.globals w.stream) :
    (beginHttpRelay fuel buf).wp w (fun _ _ => False) (fun why _ => why = .running) := by
  rw [beginHttpRelay, Program.wp_bind]
  refine wp_sendRequest (fun _ w' a' b' s' => ?_) (fun unsent => absurd sent unsent)
    fun unsent => absurd sent unsent
  rw [if_neg (by decide)]
  exact readAnswer_runs (b'.trans whole) ((answerEnds_congr a' s').not.mpr never)

theorem not_terminates {buf : LineBuffer} (sent : RequestSent w) (whole : w.broken = false)
    (never : ¬ AnswerEnds w.globals w.stream) : ¬ Terminates w buf := by
  rintro ⟨enough, terminates⟩
  refine Program.wp_elim (terminates enough (Nat.le_refl _))
    (beginHttpRelay_runs enough sent whole never) (fun _ _ _ never => never)
    fun why _ fatal running => ?_
  rw [fatal] at running
  cases running

/-- An answer with an end is read to its end. -/
theorem terminates_of (buf : LineBuffer)
    (ends : RequestSent w → w.broken = true ∨ AnswerEnds w.globals w.stream) :
    Terminates w buf := by
  refine ⟨w.stream.length + 1, fun fuel enough => ?_⟩
  rw [beginHttpRelay, Program.wp_bind]
  refine wp_sendRequest (fun sent w' a' b' s' => ?_) (fun _ w' => ?_) fun _ w' => rfl
  · rw [if_neg (by decide)]
    refine Program.wp_mono (readAnswer_returns (by rw [s']; exact enough) ?_)
      (fun _ _ _ => trivial)
      fun _ _ never => never.elim
    rw [b', answerEnds_congr a' s']
    exact ends sent
  · rw [if_pos (by decide)]
    trivial

end Whole

end MsysGit.Connect
