import MsysGit.Library.Base64
import MsysGit.Connect.RetryBound

/-!
# The `Proxy-Authorization` header

`basic_auth` encodes the user's name and the password (`makeBase64String_eq`), and
erases the password where it is stored, in the environment or in the table of
parameters.  An attempt after that finds an empty password there (`stored_retry`).

So in a run with several headers the first one carries the password, if `sendf` has
room for it and its call of `send` takes it whole, and the others carry none (`headers_iff`).
-/

namespace MsysGit.Connect

open MsysGit.Library MsysGit.Library.CString

/-! ### `make_base64_string` -/

/-- The symbols of `base64_table`. -/
def base64Alphabet : Base64.Alphabet UInt8 where
  digit n := base64Table.getD n 0
  value c := base64Table.idxOf c
  pad := 61
  value_digit := by decide
  digit_ne_pad := by decide

/-- The digit that is taken from the bits above `bits`. -/
theorem sextet_toNat (data : UInt32) {bits : ℕ} (few : bits < 32) :
    (0x3F &&& data >>> UInt32.ofNat bits).toNat = data.toNat / 2 ^ bits % 64 := by
  rw [UInt32.toNat_and, UInt32.toNat_shiftRight]
  have small : (UInt32.ofNat bits).toNat % 32 = bits := by
    rw [UInt32.toNat_ofNat_of_lt' (by simp [UInt32.size]; omega)]
    omega
  rw [small, Nat.and_comm]
  show data.toNat >>> bits &&& 2 ^ 6 - 1 = _
  rw [Nat.and_two_pow_sub_one_eq_mod, Nat.shiftRight_eq_div_pow]

/-- The next byte is put behind the bits there are. -/
theorem pushByte_toNat (data : UInt32) (b : UInt8) :
    (data <<< 8 ||| b.toUInt32).toNat = (data.toNat * 256 + b.toNat) % 2 ^ 32 := by
  have byte := b.toNat_lt
  have above : data.toNat * 256 % 2 ^ 32 = 2 ^ 8 * (data.toNat % 2 ^ 24) := by omega
  rw [UInt32.toNat_or, UInt32.toNat_shiftLeft]
  show data.toNat <<< 8 % 2 ^ 32 ||| b.toNat = _
  rw [Nat.shiftLeft_eq, show 2 ^ 8 = 256 from rfl, above, show 256 = 2 ^ 8 from rfl,
    ← Nat.two_pow_add_eq_or_of_lt byte]
  omega

/-- The bytes of padding. -/
def base64Padding (s : Bytes) : ℕ :=
  match s.length % 3 with
  | 1 => 2
  | 2 => 1
  | _ => 0

/-- One digit, when there are bits enough for it. -/
theorem base64Loop_enough {n bits : ℕ} (data : UInt32) (src : Bytes) (enough : 6 ≤ bits)
    (few : bits < 32) :
    base64Loop (n + 1) data bits src =
      base64Alphabet.digit (data.toNat / 2 ^ (bits - 6) % 64) ::
        base64Loop n data (bits - 6) src := by
  rw [base64Loop, if_neg (by omega), sextet_toNat _ (by omega)]
  rfl

/-- One digit, when there are not: the next byte is used, or a zero behind the last. -/
theorem base64Loop_push {n bits : ℕ} (data : UInt32) (src : Bytes) (few : bits < 6) :
    base64Loop (n + 1) data bits src =
      base64Alphabet.digit
          ((data <<< 8 ||| (src.headD 0).toUInt32).toNat / 2 ^ (bits + 2) % 64) ::
        base64Loop n (data <<< 8 ||| (src.headD 0).toUInt32) (bits + 2) src.tail := by
  rw [base64Loop, if_pos few]
  dsimp only
  rw [sextet_toNat _ (by omega)]
  rfl

/-- The four digits of three bytes that are put behind `v`. -/
theorem sextets {v v₁ v₂ v₃ a b c : ℕ} (ha : a < 256) (hb : b < 256) (hc : c < 256)
    (h₁ : v₁ = (v * 256 + a) % 2 ^ 32) (h₂ : v₂ = (v₁ * 256 + b) % 2 ^ 32)
    (h₃ : v₃ = (v₂ * 256 + c) % 2 ^ 32) :
    v₁ / 2 ^ 2 % 64 = a / 4 ∧ v₂ / 2 ^ 4 % 64 = a % 4 * 16 + b / 16 ∧
      v₃ / 2 ^ 6 % 64 = b % 16 * 4 + c / 64 ∧ v₃ / 2 ^ 0 % 64 = c % 64 := by
  refine ⟨?_, ?_, ?_, ?_⟩
  · omega
  · omega
  · omega
  · omega

/-- Four rounds use three bytes, or zeros behind the last, whatever was in `data` before. -/
theorem base64Loop_four (n : ℕ) (data : UInt32) (src : Bytes) :
    let a := (src.headD 0).toNat
    let b := (src.tail.headD 0).toNat
    let c := (src.tail.tail.headD 0).toNat
    ∃ data', base64Loop (n + 4) data 0 src =
      base64Alphabet.digit (a / 4) :: base64Alphabet.digit (a % 4 * 16 + b / 16) ::
        base64Alphabet.digit (b % 16 * 4 + c / 64) :: base64Alphabet.digit (c % 64) ::
          base64Loop n data' 0 src.tail.tail.tail := by
  intro a b c
  let data₁ := data <<< 8 ||| (src.headD 0).toUInt32
  let data₂ := data₁ <<< 8 ||| (src.tail.headD 0).toUInt32
  let data₃ := data₂ <<< 8 ||| (src.tail.tail.headD 0).toUInt32
  obtain ⟨first, second, third, fourth⟩ := sextets (UInt8.toNat_lt _) (UInt8.toNat_lt _)
    (UInt8.toNat_lt _) (pushByte_toNat data (src.headD 0)) (pushByte_toNat data₁ (src.tail.headD 0))
    (pushByte_toNat data₂ (src.tail.tail.headD 0))
  refine ⟨data₃, ?_⟩
  rw [base64Loop_push data src (by decide), base64Loop_push data₁ src.tail (by decide),
    base64Loop_push data₂ src.tail.tail (by decide),
    base64Loop_enough data₃ src.tail.tail.tail (by decide) (by decide)]
  simp only [Nat.zero_add, Nat.reduceAdd, Nat.sub_self]
  rw [first, second, third, fourth]

/-- The loop encodes three bytes in four rounds; the rounds for what is left over are cut off
where the padding begins. -/
theorem base64Loop_eq (s : Bytes) (data : UInt32) :
    (base64Loop ((s.length + 2) / 3 * 4) data 0 s).take
        ((s.length + 2) / 3 * 4 - base64Padding s) ++ List.replicate (base64Padding s) 61 =
      Base64.encode base64Alphabet s := by
  induction s using Base64.encode.induct generalizing data with
  | case1 a b c rest ih =>
      obtain ⟨data', rounds⟩ :=
        base64Loop_four ((rest.length + 2) / 3 * 4) data (a :: b :: c :: rest)
      have size : ((a :: b :: c :: rest).length + 2) / 3 * 4 = (rest.length + 2) / 3 * 4 + 4 := by
        simp only [List.length_cons]
        omega
      have padding : base64Padding (a :: b :: c :: rest) = base64Padding rest := by
        simp only [base64Padding, List.length_cons, Nat.add_assoc, Nat.reduceAdd, Nat.add_mod_right]
      have room : (rest.length + 2) / 3 * 4 + 4 - base64Padding rest =
          (rest.length + 2) / 3 * 4 - base64Padding rest + 1 + 1 + 1 + 1 := by
        unfold base64Padding
        split
        · omega
        · omega
        · omega
      rw [size, padding, rounds, room, Base64.encode, ← ih data']
      rfl
  | case2 a b =>
      obtain ⟨data', rounds⟩ := base64Loop_four 0 data [a, b]
      have size : ([a, b].length + 2) / 3 * 4 = 0 + 4 := by simp
      have padding : base64Padding [a, b] = 1 := by simp [base64Padding]
      rw [size, padding, rounds]
      simp [Base64.encode, base64Loop, base64Alphabet]
  | case3 a =>
      obtain ⟨data', rounds⟩ := base64Loop_four 0 data [a]
      have size : ([a].length + 2) / 3 * 4 = 0 + 4 := by simp
      have padding : base64Padding [a] = 2 := by simp [base64Padding]
      rw [size, padding, rounds]
      simp [Base64.encode, base64Loop, base64Alphabet]
  | case4 => rfl

/-- **`make_base64_string`** -/
theorem makeBase64String_eq (s : Bytes) :
    makeBase64String s = Base64.encode base64Alphabet s :=
  base64Loop_eq s 0

/-! ### The header -/

/-- The header that the claimed credentials make. -/
def authorizationHeader (user pass : Bytes) : Bytes :=
  text "Proxy-Authorization: Basic " ++
    Base64.encode base64Alphabet (user ++ text ":" ++ pass) ++ crlf

/-- The first line of the request. -/
def connectLine (g : Globals) : Bytes :=
  text "CONNECT " ++ g.destHost ++ text ":" ++ text (toString g.destPort.toNat) ++
    text " HTTP/1.0" ++ crlf

/-- How much of a text one `sendf` puts on the wire, when `send` answers so. -/
def room : Option (Option ℕ) → ℕ
  | some (some k) => min (k + 1) 10239
  | _ => 10239

namespace Connection

variable (c : Connection) (g : Globals)

/-- What is sent of the first line. -/
def sentLine : Bytes :=
  if c.accepts.head? = some none then [] else (connectLine g).take (room c.accepts.head?)

/-- How much of a header can be sent: it is the second text of the request. -/
def headerRoom : ℕ := room c.accepts.tail.head?

/-- The header that `begin_http_relay` sends, if it sends one, as far as it is sent. -/
def headers : List Bytes :=
  if c.accepts.head? = some none ∨ g.proxyAuthType ≠ .basic ∨ c.accepts.tail.head? = some none then
    []
  else
    match g.relayUser, g.password with
    | some user, some pass => [(authorizationHeader user pass).take c.headerRoom]
    | _, _ => []

/-- All that a request sends: what is behind the header belongs to the empty line. -/
def Sends (sent : Bytes) : Prop :=
  ∃ last, last <+: crlf ∧ sent = c.sentLine g ++ (c.headers g).flatten ++ last

end Connection

section Request

variable {w : World} {E : Halt → World → Prop}

/-- One call of `sendf`: it fails, or puts on the wire what there is room for. -/
theorem wp_sendf_room {Q : ℤ → World → Prop} {formatted : Bytes}
    (failed : w.accepts.head? = some none → ∀ w', w'.sent = w.sent → Q (-1) w')
    (puts : w.accepts.head? ≠ some none → ∀ w',
      w'.sent = w.sent ++ formatted.take (room w.accepts.head?) →
      w'.accepts = w.accepts.tail → w'.globals = w.globals → Q 0 w') :
    (sendf formatted).wp w Q E := by
  rw [sendf, Program.wp_bind]
  cases answers : w.accepts with
  | nil =>
      have got : send (formatted.take 10239) w = .returned (some (formatted.take 10239).length)
          { w with sent := w.sent ++ formatted.take 10239 } := by
        simp [send, answers]
      rw [answers] at puts
      exact Program.wp_of_returned got (puts (by simp) _ rfl answers rfl)
  | cons answer rest =>
      rw [answers] at failed puts
      cases answer with
      | none =>
          have got : send (formatted.take 10239) w = .returned none { w with accepts := rest } := by
            simp [send, answers]
          exact Program.wp_of_returned got (failed rfl _ rfl)
      | some k =>
          have got : send (formatted.take 10239) w =
              .returned (some (min (k + 1) (formatted.take 10239).length))
                { w with
                  accepts := rest
                  sent := w.sent ++ (formatted.take 10239).take (k + 1) } := by
            simp [send, answers]
          rw [List.take_take] at got
          exact Program.wp_of_returned got (puts (by simp) _ rfl rfl rfl)

/-- The empty line behind the texts. -/
theorem wp_endRequest_sent :
    (do let ended ← sendf crlf
        if ended < 0 then pure startError else pure 0 : Io ℤ).wp w
      (fun _ w' => ∃ last, last <+: crlf ∧ w'.sent = w.sent ++ last) E := by
  rw [Program.wp_bind]
  refine wp_sendf_room (fun _ w' same => ?_) fun _ w' sent _ _ => ?_
  · rw [if_pos (by decide)]
    exact ⟨[], List.nil_prefix, by rw [same, List.append_nil]⟩
  · rw [if_neg (by decide)]
    exact ⟨_, List.take_prefix _ _, sent⟩

/-- `basic_auth` sends its header, as far as the call takes it, or does not return. -/
theorem wp_basicAuth_sent {Q : ℤ → World → Prop}
    (refused : w.globals.relayUser = none ∨ w.globals.password = none → E .fatal w)
    (failed : w.accepts.head? = some none → ∀ w', w'.sent = w.sent → Q (-1) w')
    (puts : ∀ user pass, w.globals.relayUser = some user → w.globals.password = some pass →
      w.accepts.head? ≠ some none → ∀ w',
      w'.sent = w.sent ++ (authorizationHeader user pass).take (room w.accepts.head?) → Q 0 w') :
    basicAuth.wp w Q E := by
  simp only [basicAuth, globals, Program.wp_bind, Program.wp_read]
  cases user : w.globals.relayUser with
  | none => exact refused (Or.inl user)
  | some name =>
      cases pass : w.globals.password with
      | none => exact refused (Or.inr pass)
      | some word =>
          simp only [modifyGlobals, Program.wp_bind, Program.wp_update, makeBase64String_eq]
          exact wp_sendf_room failed fun takes w' sent _ _ => puts name word user pass takes w' sent

/-- **What a request puts on the wire**: the line, the header and the empty line, each as far
as its call of `send` takes it. -/
theorem wp_sendRequest_sent (c : Connection) (g : Globals) :
    sendRequest.wp (c.world g) (fun _ w' => c.Sends g w'.sent) (fun _ w' => c.Sends g w'.sent) := by
  simp only [sendRequest, globals, Program.wp_bind, Program.wp_read]
  refine wp_sendf_room (fun failed w₁ same => ?_) fun first w₁ sent a₁ g₁ => ?_
  · change c.accepts.head? = some none at failed
    have line : c.sentLine g = [] := if_pos failed
    have none : c.headers g = [] := if_pos (Or.inl failed)
    rw [if_pos (by decide)]
    exact ⟨[], List.nil_prefix, by rw [same, line, none]; rfl⟩
  · change c.accepts.head? ≠ some none at first
    have line : w₁.sent = c.sentLine g := sent.trans (if_neg first).symm
    replace g₁ : w₁.globals = g := g₁
    replace a₁ : w₁.accepts = c.accepts.tail := a₁
    -- Without a header the line is all that stands in front of the rest.
    have stopped (none : c.headers g = []) {rest : Bytes} (front : rest <+: crlf) {w' : World}
        (after : w'.sent = w₁.sent ++ rest) : c.Sends g w'.sent :=
      ⟨rest, front, by rw [after, line, none, List.flatten_nil, List.append_nil]⟩
    rw [if_neg (by decide)]
    by_cases basic : (c.world g).globals.proxyAuthType = .basic
    · rw [if_pos basic, Program.wp_bind]
      replace basic : g.proxyAuthType = .basic := basic
      refine wp_basicAuth_sent (fun refused => ?_) (fun failed w₂ same => ?_)
        fun user pass user_of pass_of second w₂ sent₂ => ?_
      · have none : c.headers g = [] := by
          rw [g₁] at refused
          rw [Connection.headers]
          split_ifs
          · rfl
          · rcases refused with missing | missing
            · rw [missing]
            · rw [missing]
              cases g.relayUser with
              | none => rfl
              | some user => rfl
        exact stopped none List.nil_prefix (List.append_nil _).symm
      · rw [a₁] at failed
        have none : c.headers g = [] := if_pos (Or.inr (Or.inr failed))
        rw [if_pos (by decide)]
        exact stopped none List.nil_prefix (same.trans (List.append_nil _).symm)
      · rw [g₁] at user_of pass_of
        rw [a₁] at second sent₂
        have one : c.headers g = [(authorizationHeader user pass).take c.headerRoom] := by
          have sends := not_or.mpr ⟨not_not.mpr basic, second⟩
          rw [Connection.headers, if_neg (not_or.mpr ⟨first, sends⟩), user_of, pass_of]
        rw [if_neg (by decide)]
        refine Program.wp_mono wp_endRequest_sent ?_ fun _ _ never => never
        rintro r w₃ ⟨last, front, after⟩
        refine ⟨last, front, ?_⟩
        rw [after, sent₂, line, one, List.flatten_singleton]
        rfl
    · have none : c.headers g = [] := if_pos (Or.inr (Or.inl basic))
      rw [if_neg basic, Program.wp_bind, Program.wp_pure, if_neg (by decide)]
      refine Program.wp_mono wp_endRequest_sent ?_ fun _ _ never => never
      rintro r w₂ ⟨last, front, after⟩
      exact stopped none front after

end Request

/-! ### The headers of a run -/

namespace Session

variable (s : Session)

/-- The headers of the attempt that opens connection `n`. -/
def headers (n : ℕ) (g : Globals) : List Bytes :=
  match s.connections n with
  | none => []
  | some c =>
      if (s.chooseMethod g).relayMethod = .http then c.headers (s.chooseMethod g) else []

/-- How much of a header attempt `n` can send. -/
def headerRoom (n : ℕ) : ℕ :=
  match s.connections n with
  | none => 0
  | some c => c.headerRoom

/-- Attempt `n` authorizes itself when it begins in `g`: it uses HTTP, with Basic
authentication, over a connection on which neither `send` fails that comes to the header. -/
def Authorizes (n : ℕ) (g : Globals) : Prop :=
  (s.chooseMethod g).relayMethod = .http ∧ g.proxyAuthType = .basic ∧
    ∃ c, s.connections n = some c ∧ c.accepts.head? ≠ some none ∧
      c.accepts.tail.head? ≠ some none

/-- `main` makes the attempts up to `n`; attempt `m` begins in `states m`. -/
structure Attempts (n : ℕ) (states : ℕ → Globals) : Prop where
  start : states 0 = s.globals
  again : ∀ m < n, ∃ fuel, s.pass fuel m (states m) = .retry (states (m + 1))

/-- The state in which attempt `n` begins, computed with fuel for each attempt before. -/
def follow (fuel : ℕ) : ℕ → Option Globals
  | 0 => some s.globals
  | n + 1 =>
      match follow fuel n with
      | none => none
      | some g =>
          match s.pass fuel n g with
          | .retry g' => some g'
          | _ => none

variable {s} {g g' : Globals} {user pass : Bytes} {name : String} {n : ℕ} {states : ℕ → Globals}

/-- Each attempt begins where `main` comes to its label. -/
theorem Attempts.reaches (attempts : s.Attempts n states) {m : ℕ} (made : m ≤ n) :
    s.Reaches m (states m) := by
  induction m with
  | zero =>
      rw [attempts.start]
      exact .start
  | succ m ih =>
      obtain ⟨fuel, again⟩ := attempts.again m made
      exact (ih (Nat.le_of_succ_le made)).again again

theorem follow_succ {fuel : ℕ} (followed : s.follow fuel (n + 1) = some g') :
    ∃ g, s.follow fuel n = some g ∧ s.pass fuel n g = .retry g' := by
  rw [follow] at followed
  cases before : s.follow fuel n with
  | none =>
      rw [before] at followed
      cases followed
  | some g =>
      rw [before] at followed
      dsimp only at followed
      split at followed
      · rename_i again
        obtain rfl := Option.some.inj followed
        exact ⟨g, rfl, again⟩
      · cases followed

/-- The states computed are those of a run. -/
theorem attempts_follow {fuel : ℕ} (followed : s.follow fuel n = some g) :
    s.Attempts n fun m => (s.follow fuel m).getD s.globals := by
  induction n generalizing g with
  | zero => exact ⟨rfl, fun m none => absurd none (Nat.not_lt_zero m)⟩
  | succ n ih =>
      obtain ⟨g₀, before, again⟩ := follow_succ followed
      refine ⟨rfl, fun m earlier => ?_⟩
      rcases Nat.lt_succ_iff_lt_or_eq.mp earlier with earlier | rfl
      · exact (ih before).again m earlier
      · exact ⟨fuel, by rw [before, followed]; exact again⟩

/-- The user's name and what is stored as the password. -/
structure Stored (user : Bytes) (name : String) (pass : Bytes) (g : Globals) : Prop where
  user : g.relayUser = some user
  chosen : g.determineRelayPassword = some name
  value : g.getparam name = some pass

theorem Stored.password (stored : Stored user name pass g) : g.password = some pass := by
  rw [Globals.password, stored.chosen]
  exact stored.value

/-- Erased, the password is an empty one. -/
theorem Stored.erasePassword (stored : Stored user name pass g) :
    Stored user name [] g.erasePassword where
  user := by
    obtain ⟨getenv, table, same⟩ := g.erasePassword_eq
    rw [same]
    exact stored.user
  chosen := by
    rw [Globals.erasePassword, stored.chosen]
    exact (g.determineRelayPassword_erase name).trans stored.chosen
  value := by
    rw [Globals.erasePassword, stored.chosen]
    show (g.erase name).getparam name = _
    rw [Globals.getparam_erase, if_pos rfl, stored.value]
    rfl

/-- **The header of an attempt** is made of what is stored. -/
theorem headers_stored (stored : Stored user name pass g) (n : ℕ) :
    s.Authorizes n g ∧ s.headers n g = [(authorizationHeader user pass).take (s.headerRoom n)] ∨
      ¬ s.Authorizes n g ∧ s.headers n g = [] := by
  unfold Authorizes headers headerRoom
  by_cases http : (s.chooseMethod g).relayMethod = .http
  · cases opened : s.connections n with
    | none => exact Or.inr ⟨by rintro ⟨-, -, c, ⟨⟩, -⟩, rfl⟩
    | some c =>
        dsimp only
        rw [if_pos http, chooseMethod_http http, Connection.headers]
        rw [chooseMethod_http http] at http
        by_cases quiet : c.accepts.head? = some none ∨ g.proxyAuthType ≠ .basic ∨
            c.accepts.tail.head? = some none
        · refine Or.inr ⟨?_, if_pos quiet⟩
          rintro ⟨-, basic, c', same, first, second⟩
          obtain rfl := Option.some.inj same
          exact quiet.elim first fun rest => rest.elim (fun other => other basic) second
        · obtain ⟨first, rest⟩ := not_or.mp quiet
          obtain ⟨basic, second⟩ := not_or.mp rest
          refine Or.inl ⟨⟨http, not_not.mp basic, c, rfl, first, second⟩, ?_⟩
          rw [if_neg quiet, stored.user, stored.password]
  · refine Or.inr ⟨fun authorizes => http authorizes.1, ?_⟩
    cases s.connections n with
    | none => rfl
    | some c => exact if_neg http

/-- **A retry** after an attempt with a header finds the password erased. -/
theorem stored_retry (stored : Stored user name pass g) {fuel : ℕ}
    (again : s.pass fuel n g = .retry g') :
    ¬ s.Authorizes n g ∧ Stored user name pass g' ∨ s.Authorizes n g ∧ Stored user name [] g' := by
  obtain ⟨http, c, opened, sent, retries⟩ := pass_retry again
  by_cases basic : g.proxyAuthType = .basic
  · have all : none ∉ c.accepts.take (if g.proxyAuthType = .basic then 3 else 2) := sent.1
    rw [if_pos basic] at all
    obtain ⟨first, rest⟩ := notMem_take_succ.mp all
    have second := (notMem_take_succ.mp rest).1
    refine Or.inr ⟨⟨http, basic, c, opened, first, second⟩, ?_⟩
    rcases retries with ⟨-, host, gone, port, changed⟩ | ⟨⟨-, fresh, -⟩, -⟩
    · have erased := stored.erasePassword
      rw [changed]
      show Stored user name []
        { g.afterRequest with relayHost := host, relayHostGone := gone, relayPort := port }
      rw [Globals.afterRequest, if_pos basic]
      exact ⟨erased.user, erased.chosen, erased.value⟩
    · exact absurd (basic.symm.trans fresh) (by decide)
  · refine Or.inl ⟨fun authorizes => basic authorizes.2.1, ?_⟩
    rcases retries with ⟨-, host, gone, port, changed⟩ | ⟨-, changed⟩
    · rw [changed]
      show Stored user name pass
        { g.afterRequest with relayHost := host, relayHostGone := gone, relayPort := port }
      rw [Globals.afterRequest, if_neg basic]
      exact ⟨stored.user, stored.chosen, stored.value⟩
    · rw [changed]
      exact ⟨stored.user, stored.chosen, stored.value⟩

/-- An attempt before `n` authorized itself. -/
def Authorized (s : Session) (states : ℕ → Globals) (n : ℕ) : Prop :=
  ∃ m < n, s.Authorizes m (states m)

/-- **What is stored when attempt `n` begins**: the configured password, or an empty one. -/
theorem Attempts.stored (stored : Stored user name pass s.globals)
    (attempts : s.Attempts n states) {m : ℕ} (made : m ≤ n) :
    ¬ s.Authorized states m ∧ Stored user name pass (states m) ∨
      s.Authorized states m ∧ Stored user name [] (states m) := by
  induction m with
  | zero =>
      refine Or.inl ⟨?_, attempts.start ▸ stored⟩
      rintro ⟨m, none, -⟩
      exact Nat.not_lt_zero m none
  | succ m ih =>
      obtain ⟨fuel, again⟩ := attempts.again m made
      rcases ih (Nat.le_of_succ_le made) with ⟨fresh, left⟩ | ⟨⟨k, earlier, authorized⟩, left⟩
      · rcases stored_retry left again with ⟨quiet, left⟩ | ⟨authorizes, left⟩
        · refine Or.inl ⟨?_, left⟩
          rintro ⟨k, before, authorized⟩
          rcases Nat.lt_succ_iff_lt_or_eq.mp before with earlier | rfl
          · exact fresh ⟨k, earlier, authorized⟩
          · exact quiet authorized
        · exact Or.inr ⟨⟨m, Nat.lt_succ_self m, authorizes⟩, left⟩
      · refine Or.inr ⟨⟨k, Nat.lt_succ_of_lt earlier, authorized⟩, ?_⟩
        rcases stored_retry left again with ⟨-, left⟩ | ⟨-, left⟩
        · exact left
        · exact left

/-- Different passwords make different headers. -/
theorem authorizationHeader_inj {pass' : Bytes}
    (same : authorizationHeader user pass = authorizationHeader user pass') : pass = pass' := by
  have encoded := List.append_cancel_left (List.append_cancel_right same)
  exact List.append_cancel_left (Base64.encode_injective base64Alphabet encoded)

/-- A header with an empty password is not longer. -/
theorem length_authorizationHeader_nil (user pass : Bytes) :
    (authorizationHeader user []).length ≤ (authorizationHeader user pass).length := by
  simp only [authorizationHeader, List.length_append, Base64.length_encode, List.length_nil]
  omega

section Cut

variable {pass' : Bytes} {n : ℕ}

/-- A header that is cut is no header. -/
theorem length_of_take_header
    (whole : (authorizationHeader user pass').take n = authorizationHeader user pass) :
    (authorizationHeader user pass).length ≤ n := by
  rw [← whole, List.length_take]
  exact Nat.min_le_left _ _

/-- The header made of an erased password is right when the password was empty. -/
theorem take_header_nil_iff (fits : (authorizationHeader user pass).length ≤ n) :
    (authorizationHeader user []).take n = authorizationHeader user pass ↔ pass = [] := by
  have short := (length_authorizationHeader_nil user pass).trans fits
  rw [List.take_of_length_le short]
  exact ⟨fun same => (authorizationHeader_inj same).symm, fun empty => by rw [empty]⟩

end Cut

/-- **Every header of a run carries the configured password** exactly when, at each attempt
that authorizes itself, the header is sent whole by its one call, and the password is empty
or no attempt before authorized itself. -/
theorem headers_iff (stored : Stored user name pass s.globals) (attempts : s.Attempts n states) :
    (∀ m ≤ n, ∀ header ∈ s.headers m (states m), header = authorizationHeader user pass) ↔
      ∀ m ≤ n, s.Authorizes m (states m) →
        (authorizationHeader user pass).length ≤ s.headerRoom m ∧
          (pass = [] ∨ ∀ k < m, ¬ s.Authorizes k (states k)) := by
  refine forall₂_congr fun m made => ?_
  have fresh_iff : (∀ k < m, ¬ s.Authorizes k (states k)) ↔ ¬ s.Authorized states m := by
    simp [Authorized]
  rw [fresh_iff]
  rcases attempts.stored stored made with ⟨fresh, left⟩ | ⟨authorized, left⟩
  · rcases headers_stored (s := s) left m with ⟨authorizes, one⟩ | ⟨quiet, none⟩
    · simp only [one, authorizes, fresh, List.mem_singleton, forall_eq, forall_const,
        not_false_eq_true, or_true, and_true]
      exact ⟨length_of_take_header, List.take_of_length_le⟩
    · simp [none, quiet]
  · rcases headers_stored (s := s) left m with ⟨authorizes, one⟩ | ⟨quiet, none⟩
    · simp only [one, authorizes, authorized, List.mem_singleton, forall_eq, forall_const,
        not_true_eq_false, or_false]
      refine ⟨fun right => ?_, fun ⟨fits, empty⟩ => (take_header_nil_iff fits).mpr empty⟩
      have fits := length_of_take_header right
      exact ⟨fits, (take_header_nil_iff fits).mp right⟩
    · simp [none, quiet]

/-- A user `u` with the password `pw` in the environment, whose proxy wants Basic
authentication first and then redirects every request. -/
def erasing : Session where
  inetAddr := fun _ => .none
  globals := { Globals.initial with
    relayMethod := .http
    relayUser := some (text "u")
    getenv := fun name => if name = "HTTP_PROXY_PASSWORD" then some (text "pw") else none }
  connections := fun n => some
    { incoming := [if n = 0 then
        text "HTTP/1.0 407 Authenticate" ++ crlf ++ text "Proxy-Authenticate: Basic" ++ crlf ++ crlf
        else text "HTTP/1.0 302 Found" ++ crlf ++ crlf]
      broken := false
      accepts := []
      buf := Buffer.filled 0 1024
      negotiated := false }

/-- The first header of that run is right. -/
theorem headers_erasing_first : ∃ states, erasing.Attempts 1 states ∧
    erasing.headers 1 (states 1) = [authorizationHeader (text "u") (text "pw")] ∧
    ∀ m ≤ 1, ∀ header ∈ erasing.headers m (states m),
      header = authorizationHeader (text "u") (text "pw") := by
  have computed : (erasing.follow 10 1).map (erasing.headers 1) =
      some [authorizationHeader (text "u") (text "pw")] := by decide +kernel
  obtain ⟨g, followed, headers⟩ := Option.map_eq_some_iff.mp computed
  have attempts := attempts_follow followed
  have last : ((erasing.follow 10 1).getD erasing.globals) = g := by rw [followed]; rfl
  refine ⟨_, attempts, by rw [last]; exact headers, (headers_iff ⟨rfl, rfl, rfl⟩ attempts).mpr ?_⟩
  intro m made _
  have fits : (authorizationHeader (text "u") (text "pw")).length ≤ 10239 := by decide
  refine ⟨fits, Or.inr fun k before => ?_⟩
  obtain rfl : k = 0 := Nat.lt_one_iff.mp (before.trans_le made)
  rintro ⟨-, basic, -⟩
  cases basic

/-- The second one has an empty password. -/
theorem not_headers_erasing :
    ¬ ∀ (s : Session) (user pass : Bytes) (name : String), Stored user name pass s.globals →
      ∀ (n : ℕ) (states : ℕ → Globals), s.Attempts n states →
        ∀ m ≤ n, ∀ header ∈ s.headers m (states m), header = authorizationHeader user pass := by
  intro always
  have computed : (erasing.follow 10 2).map (erasing.headers 2) =
      some [authorizationHeader (text "u") []] := by decide +kernel
  obtain ⟨g, followed, headers⟩ := Option.map_eq_some_iff.mp computed
  have last : ((erasing.follow 10 2).getD erasing.globals) = g := by rw [followed]; rfl
  have right := always erasing (text "u") (text "pw") "HTTP_PROXY_PASSWORD" ⟨rfl, rfl, rfl⟩ 2 _
    (attempts_follow followed) 2 (Nat.le_refl 2) (authorizationHeader (text "u") []) (by
      rw [last, headers]
      exact List.mem_singleton_self _)
  have same : [] = text "pw" := authorizationHeader_inj right
  exact absurd same (by decide)

end Session

end MsysGit.Connect
