import MsysGit.Connect.ExpandCommand
import MsysGit.Connect.HttpAnswer
import MsysGit.Connect.Redirect

/-!
# Telnet relaying

`begin_telnet_relay` sends a command and reads what the proxy answers, until it finds
`connected to` or one of four words for a failure.  It means to look at lines, but sees
pieces: at most 1023 bytes, and of these what is in front of the first zero.  A piece that
begins with a zero looks like the end of the stream (`noticed`).

`wp_beginTelnetRelay` is the outcome in terms of the pieces, `Connected` what is meant in terms of
the lines; `tells_iff` says when the two agree.
-/

namespace MsysGit.Connect

open MsysGit.Library MsysGit.Library.CString

/-! ### The code -/

/-- `good_phrase` -/
def goodPhrase : Bytes := text "connected to"

/-- `bad_phrase_list` -/
def badPhraseList : List Bytes :=
  [text " failed", text " refused", text " rejected", text " closed"]

/-- `dest_port`, as it is passed on. -/
def portNumber (g : Globals) : Int32 := Int32.ofInt g.destPort.toNat

/-- Process answer from proxy until good or bad phrase is detected. -/
def telnetAnswer : ℕ → LineBuffer → Io ℤ
  | 0, _ => Program.halt .running
  | fuel + 1, buf => do
      let (ok, buf) ← lineInput buf
      if ok = false ∨ cstr buf.cells 0 = [] then pure startError
      else
        let buf := downcase buf
        if (strstr (cstr buf.cells 0) goodPhrase).isSome then pure startOk
        else if badPhraseList.any fun phrase => (strstr (cstr buf.cells 0) phrase).isSome then
          pure startError
        else telnetAnswer fuel buf

/-- `begin_telnet_relay`, with the memory for the command and the line buffer as they are
found. -/
def beginTelnetRelay (telnetCommand : Bytes)
    (memory : ∀ n, Buffer UInt8 n) (fuel : ℕ) (buf : LineBuffer) : Io ℤ := do
  let g ← globals
  match expandHostAndPort telnetCommand g.destHost (portNumber g) (memory _) with
  | none => Program.halt .packetOverflow
  | some cmd => do
      let sent ← sendf (cmd ++ crlf)
      if sent < 0 then pure startError else telnetAnswer fuel buf

/-! ### What the loop sees -/

/-- A phrase in what `downcase` and `strstr` see of a piece. -/
def shows (phrase piece : Bytes) : Bool := (strstr (lowerCase piece) phrase).isSome

/-- A piece that is received: in a torn connection the last one is not, unless it is whole. -/
def received (torn : Bool) (piece : Bytes) : Bool :=
  !torn || newline ∈ piece || piece.length = 1023

/-- A piece that ends the loop. -/
def noticed (torn : Bool) (piece : Bytes) : Bool :=
  received torn piece &&
    (cstr piece 0 = [] || shows goodPhrase piece || badPhraseList.any (shows · piece))

/-- The first piece that ends the loop, and what follows it. -/
def noticedPiece (w : World) : Option (Bytes × Bytes) :=
  firstPiece newline 1023 (noticed w.broken) w.stream

/-! ### What is meant -/

/-- A line with a phrase, ignoring case. -/
def contains (phrase line : Bytes) : Prop := phrase <:+: line.map tolower

instance (phrase line : Bytes) : Decidable (contains phrase line) :=
  inferInstanceAs (Decidable (phrase <:+: line.map tolower))

/-- A line that decides. -/
def decisive (line : Bytes) : Bool :=
  contains goodPhrase line || badPhraseList.any (contains · line)

/-- The first line that decides, of whatever length, and what follows it. -/
def decisiveLine (stream : Bytes) : Option (Bytes × Bytes) :=
  firstPiece newline (stream.length + 1) decisive stream

/-- The first line with a phrase has the good one, and `rest` follows it. -/
def Connected (w : World) (rest : Bytes) : Prop :=
  ∃ line, decisiveLine w.stream = some (line, rest) ∧ contains goodPhrase line

/-! ### What the loop does -/

section Run

variable {w w' : World}

theorem noticedPiece_of_nil (ended : w.stream = []) : noticedPiece w = none := by
  rw [noticedPiece, ended, firstPiece_nil]

theorem noticedPiece_of_noticed (some_left : w.stream ≠ [])
    (stops : noticed w.broken (nextLine w.stream).1 = true) :
    noticedPiece w = some (nextLine w.stream) :=
  firstPiece_of_stop (by decide) some_left stops

theorem noticedPiece_of_not (goes_on : noticed w.broken (nextLine w.stream).1 = false)
    (broken : w'.broken = w.broken) (rest : w'.stream = (nextLine w.stream).2) :
    noticedPiece w = noticedPiece w' := by
  by_cases ended : w.stream = []
  · rw [noticedPiece_of_nil ended, noticedPiece_of_nil (by rw [rest, ended]; rfl)]
  · rw [noticedPiece, firstPiece_of_ne_nil (by decide) ended, goes_on, if_neg Bool.false_ne_true,
      noticedPiece, broken, rest]

/-- The first piece that ends the loop shows the good phrase, and `rest` follows it. -/
def Heard (w : World) (rest : Bytes) : Prop :=
  ∃ piece, noticedPiece w = some (piece, rest) ∧ shows goodPhrase piece

theorem Heard.unique {rest rest' : Bytes} (heard : Heard w rest) (heard' : Heard w rest') :
    rest = rest' := by
  obtain ⟨piece, seen, -⟩ := heard
  obtain ⟨piece', seen', -⟩ := heard'
  rw [seen] at seen'
  exact congrArg Prod.snd (Option.some.inj seen')

/-- Success is heard if the next piece shows it. -/
theorem heard_of_first (some_left : w.stream ≠ [])
    (whole : received w.broken (nextLine w.stream).1 = true)
    (good : shows goodPhrase (nextLine w.stream).1) : Heard w (nextLine w.stream).2 :=
  ⟨_, noticedPiece_of_noticed some_left (by simp [noticed, whole, good]), good⟩

/-- No success is heard if the next piece ends the loop without showing it. -/
theorem not_heard (stops : noticed w.broken (nextLine w.stream).1 = true)
    (bad : shows goodPhrase (nextLine w.stream).1 = false) (rest : Bytes) : ¬Heard w rest := by
  rintro ⟨piece, seen, good⟩
  by_cases ended : w.stream = []
  · rw [noticedPiece_of_nil ended] at seen
    cases seen
  · rw [noticedPiece_of_noticed ended stops] at seen
    obtain rfl := congrArg Prod.fst (Option.some.inj seen)
    rw [bad] at good
    cases good

/-- Nor if the next piece is torn off. -/
theorem not_heard_torn (torn : w.broken) (ended : (nextLine w.stream).2 = [])
    (single : newline ∉ (nextLine w.stream).1) (short : (nextLine w.stream).1.length < 1023)
    (rest : Bytes) : ¬Heard w rest := by
  have goes_on : noticed w.broken (nextLine w.stream).1 = false := by
    simp [noticed, received, torn, single, Nat.ne_of_lt short]
  rintro ⟨piece, seen, -⟩
  have left : noticedPiece w = noticedPiece { w with incoming := [] } :=
    noticedPiece_of_not goes_on rfl ended.symm
  rw [left, noticedPiece_of_nil rfl] at seen
  cases seen

theorem shows_of_string {buf : LineBuffer} {piece : Bytes}
    (string : cstr buf.cells 0 = cstr piece 0) (phrase : Bytes) :
    (strstr (cstr (downcase buf).cells 0) phrase).isSome = shows phrase piece := by
  rw [cstr_downcase, string, shows, lowerCase]

/-- **The run.**  The loop returns, with success if that is what it hears. -/
theorem wp_telnetAnswer (fuel : ℕ) : ∀ (buf : LineBuffer) (w : World), w.stream.length < fuel →
    (telnetAnswer fuel buf).wp w
      (fun r w' => r = startOk ∧ Heard w w'.stream ∨ r = startError ∧ ∀ rest, ¬Heard w rest)
      (fun _ _ => False) := by
  induction fuel with
  | zero =>
      intro buf w enough
      exact absurd enough (Nat.not_lt_zero _)
  | succ fuel ih =>
      intro buf w enough
      rw [telnetAnswer, Program.wp_bind]
      refine wp_lineInput (fun whole b w' string _ broken rest => ?_)
        fun torn ended single b w' short _ => ?_
      · have whole : received w.broken (nextLine w.stream).1 = true := by
          cases torn : w.broken with
          | false => rfl
          | true => simpa [received] using whole torn
        dsimp only
        rw [string, shows_of_string string]
        simp only [shows_of_string string]
        by_cases empty : cstr (nextLine w.stream).1 0 = []
        · rw [if_pos (Or.inr empty)]
          refine Or.inr ⟨rfl, not_heard (by simp [noticed, whole, empty]) ?_⟩
          rw [shows, lowerCase, empty]
          rfl
        have some_left : w.stream ≠ [] := by
          intro ended
          rw [ended] at empty
          exact empty rfl
        rw [if_neg (by simp [empty])]
        by_cases good : shows goodPhrase (nextLine w.stream).1
        · rw [if_pos good]
          exact Or.inl ⟨rfl, rest ▸ heard_of_first some_left whole good⟩
        rw [if_neg good]
        by_cases bad : badPhraseList.any (shows · (nextLine w.stream).1)
        · rw [if_pos bad]
          exact Or.inr ⟨rfl, not_heard (by rw [noticed, whole, bad]; simp)
            (Bool.eq_false_iff.mpr good)⟩
        rw [if_neg bad]
        have goes_on : noticed w.broken (nextLine w.stream).1 = false := by
          rw [noticed, Bool.eq_false_iff.mpr good, Bool.eq_false_iff.mpr bad]
          simp [empty]
        have shorter : w'.stream.length < fuel := by
          rw [rest]
          exact Nat.lt_of_lt_of_le (LineLoop.nextLine_shorter some_left) (Nat.le_of_lt_succ enough)
        have same (left : Bytes) : Heard w left ↔ Heard w' left := by
          rw [Heard, noticedPiece_of_not goes_on broken rest, Heard]
        simpa only [same] using ih _ w' shorter
      · dsimp only
        rw [if_pos (Or.inl rfl)]
        exact Or.inr ⟨rfl, not_heard_torn torn ended single short⟩

/-- What is heard depends on what is still to be read. -/
theorem heard_congr (broken : w'.broken = w.broken) (same : w'.stream = w.stream) (rest : Bytes) :
    Heard w' rest ↔ Heard w rest := by
  rw [Heard, noticedPiece, broken, same, Heard, noticedPiece]

/-- The command has room in its memory. -/
def Writable (telnetCommand : Bytes) (g : Globals) : Prop :=
  ¬ReadsEnd telnetCommand ∧
    textLength telnetCommand g.destHost (portNumber g) <
      telnetCommand.length + g.destHost.length + 20

/-- The whole negotiation, for a command that is written. -/
theorem wp_beginTelnetRelay {telnetCommand : Bytes} (clean : 0 ∉ telnetCommand)
    (clean_host : 0 ∉ w.globals.destHost) (writable : Writable telnetCommand w.globals)
    (memory : ∀ n, Buffer UInt8 n) {fuel : ℕ} (buf : LineBuffer)
    (enough : w.stream.length < fuel) :
    (beginTelnetRelay telnetCommand memory fuel buf).wp w
      (fun r w' => r = startOk ∧ w.accepts.head? ≠ some none ∧ Heard w w'.stream ∨
        r = startError ∧ (w.accepts.head? ≠ some none → ∀ rest, ¬Heard w rest))
      (fun _ _ => False) := by
  rw [beginTelnetRelay, Program.wp_bind, globals, Program.wp_read,
    expandHostAndPort_eq clean clean_host writable.1 writable.2, Program.wp_bind]
  refine wp_sendf (fun takes w' _ _ broken same => ?_) fun fails w' => ?_
  · rw [if_neg (by decide)]
    refine Program.wp_mono (wp_telnetAnswer fuel buf w' (same ▸ enough)) (fun r w'' ended => ?_)
      fun _ _ stuck => stuck
    simp only [heard_congr broken same] at ended
    rcases ended with ⟨ok, heard⟩ | ⟨error, silent⟩
    · exact Or.inl ⟨ok, takes, heard⟩
    · exact Or.inr ⟨error, fun _ => silent⟩
  · rw [if_pos (by decide)]
    exact Or.inr ⟨rfl, fun takes => absurd fails takes⟩

end Run

/-! ### When the answer is the one that is meant -/

/-- The relay returns, with success exactly if the first line with a phrase has the good one,
and then has read up to the end of that line. -/
def Tells (telnetCommand : Bytes) (w : World) : Prop :=
  ∀ memory fuel buf, w.stream.length < fuel →
    (beginTelnetRelay telnetCommand memory fuel buf).wp w
      (fun r w' => (r = startOk ↔ ∃ rest, Connected w rest) ∧
        (r = startOk → Connected w w'.stream))
      (fun _ _ => False)

/-- What a piece shows, its line contains. -/
theorem contains_of_shows {phrase piece line : Bytes} (part : piece <:+: line)
    (shown : shows phrase piece) : contains phrase line := by
  rw [shows, strstr_isSome, lowerCase] at shown
  have front : cstr piece 0 <:+: piece := (List.takeWhile_prefix _).isInfix
  exact shown.trans ((front.trans part).map tolower)

/-- The first line says it already. -/
theorem connected_of_first {w : World} (some_left : w.stream ≠ [])
    (good : contains goodPhrase (takeLine newline (w.stream.length + 1) w.stream).1) :
    Connected w (takeLine newline (w.stream.length + 1) w.stream).2 :=
  ⟨_, firstPiece_of_stop (Nat.succ_pos _) some_left (by simp [decisive, good]), good⟩

/-- Success is heard only where some line decides. -/
theorem decisiveLine_of_heard {w : World} {rest : Bytes} (heard : Heard w rest) :
    ∃ line rest', decisiveLine w.stream = some (line, rest') := by
  obtain ⟨piece, seen, good⟩ := heard
  obtain ⟨line, inside, part⟩ := exists_line_of_firstPiece seen
  have decides : decisive line = true := by
    simp [decisive, contains_of_shows part good]
  obtain ⟨⟨line, rest'⟩, first⟩ := Option.isSome_iff_exists.mp
    (firstPiece_isSome_of_mem inside decides)
  exact ⟨line, rest', first⟩

section Tells

variable {telnetCommand : Bytes} {w : World}

theorem Tells.writable (tells : Tells telnetCommand w) (clean : 0 ∉ telnetCommand)
    (clean_host : 0 ∉ w.globals.destHost) : Writable telnetCommand w.globals := by
  by_contra bad
  have ended := tells (.filled 1) (w.stream.length + 1) (.filled 0 _) (Nat.lt_succ_self _)
  rw [beginTelnetRelay, Program.wp_bind, globals, Program.wp_read,
    expandHostAndPort_filled clean clean_host bad] at ended
  exact ended

/-- What is heard is what is meant. -/
def Agrees (w : World) : Prop :=
  ∀ line rest, decisiveLine w.stream = some (line, rest) →
    if contains goodPhrase line then w.accepts.head? ≠ some none ∧ Heard w rest
    else w.accepts.head? ≠ some none → ∀ rest', ¬Heard w rest'

theorem Tells.agrees (tells : Tells telnetCommand w) (clean : 0 ∉ telnetCommand)
    (clean_host : 0 ∉ w.globals.destHost) : Agrees w := by
  intro line rest first
  have run := wp_beginTelnetRelay clean clean_host (tells.writable clean clean_host) (.filled 1)
    (.filled 0 _) (Nat.lt_succ_self w.stream.length)
  refine Program.wp_elim (tells _ _ _ (Nat.lt_succ_self _)) run (fun r w' told ended => ?_)
    fun _ _ stuck _ => stuck.elim
  have only {line' rest' : Bytes} (first' : decisiveLine w.stream = some (line', rest')) :
      line' = line ∧ rest' = rest := by
    rwa [first, Option.some.injEq, Prod.mk.injEq, eq_comm, @eq_comm _ rest] at first'
  split_ifs with good
  · have ok := told.1.mpr ⟨rest, line, first, good⟩
    obtain ⟨line', first', -⟩ := told.2 ok
    rcases ended with ⟨-, takes, heard⟩ | ⟨error, -⟩
    · exact ⟨takes, (only first').2 ▸ heard⟩
    · rw [error] at ok
      exact absurd ok (by decide)
  · intro takes rest' heard
    rcases ended with ⟨ok, -⟩ | ⟨-, silent⟩
    · obtain ⟨_, line', first', good'⟩ := told.1.mp ok
      exact good ((only first').1 ▸ good')
    · exact silent takes rest' heard

theorem Agrees.tells (agrees : Agrees w) (clean : 0 ∉ telnetCommand)
    (clean_host : 0 ∉ w.globals.destHost) (writable : Writable telnetCommand w.globals) :
    Tells telnetCommand w := by
  intro memory fuel buf enough
  refine Program.wp_mono (wp_beginTelnetRelay clean clean_host writable memory buf enough)
    (fun r w' ended => ?_) fun _ _ stuck => stuck
  rcases ended with ⟨rfl, takes, heard⟩ | ⟨rfl, silent⟩
  · obtain ⟨line, rest, first⟩ := decisiveLine_of_heard heard
    have agrees := agrees line rest first
    split_ifs at agrees with good
    · have connected : Connected w w'.stream :=
        ⟨line, heard.unique agrees.2 ▸ first, good⟩
      exact ⟨⟨fun _ => ⟨_, connected⟩, fun _ => rfl⟩, fun _ => connected⟩
    · exact absurd heard (agrees takes _)
  · have none : ¬∃ rest, Connected w rest := by
      rintro ⟨rest, line, first, good⟩
      have agrees := agrees line rest first
      rw [if_pos good] at agrees
      exact silent agrees.1 rest agrees.2
    exact ⟨⟨fun ok => absurd ok (by decide), fun met => absurd met none⟩,
      fun ok => absurd ok (by decide)⟩

end Tells

/-- **Lines against pieces.**  The relay says what the proxy answered if the command has room,
and for the first line with a phrase: when it has the good one, the first piece that begins
with a zero or shows a phrase is the end of that line and shows the good phrase; when it has
not, that piece does not show it. -/
theorem tells_iff {telnetCommand : Bytes} {w : World} (clean : 0 ∉ telnetCommand)
    (clean_host : 0 ∉ w.globals.destHost) :
    Tells telnetCommand w ↔ Writable telnetCommand w.globals ∧ Agrees w :=
  ⟨fun tells => ⟨tells.writable clean clean_host, tells.agrees clean clean_host⟩,
    fun ⟨writable, agrees⟩ => agrees.tells clean clean_host writable⟩

/-- A proxy that says in its first line that it is connected. -/
theorem tells_first_line :
    Tells (text "telnet %h %p") (.start .initial (text "Connected to h\r\nlogin: ")) := by
  have room : Writable (text "telnet %h %p") .initial := ⟨by decide +kernel, by decide +kernel⟩
  rw [tells_iff (by decide +kernel) (by decide +kernel)]
  refine ⟨room, fun line rest first => ?_⟩
  rw [decisiveLine, firstPiece_of_stop (by decide) (by decide +kernel) (by decide +kernel)] at first
  obtain ⟨rfl, rfl⟩ := Prod.mk.inj (Option.some.inj first)
  have same : (takeLine newline 25 (text "Connected to h\r\nlogin: ")).2 =
      (nextLine (text "Connected to h\r\nlogin: ")).2 := by decide +kernel
  rw [if_pos (by decide +kernel)]
  exact ⟨by decide, same ▸ heard_of_first (by decide +kernel) (by decide +kernel)
    (by decide +kernel)⟩

/-- The telnet option "binary" is a zero, and hides the rest of its line. -/
theorem not_tells_option :
    ¬Tells (text "telnet %h %p") (.start .initial ([255, 251, 0] ++ text "connected to h\n")) := by
  intro tells
  set w : World := .start .initial ([255, 251, 0] ++ text "connected to h\n") with start
  obtain ⟨line, first, good⟩ := connected_of_first (w := w) (by decide +kernel) (by decide +kernel)
  have agrees := tells.agrees (by decide +kernel) (by decide +kernel) line _ first
  rw [if_pos good] at agrees
  obtain ⟨-, piece, seen, -⟩ := agrees
  have left : noticedPiece w = noticedPiece { w with incoming := [] } :=
    noticedPiece_of_not (by decide +kernel) rfl (by decide +kernel)
  rw [left, noticedPiece_of_nil rfl] at seen
  cases seen

end MsysGit.Connect
