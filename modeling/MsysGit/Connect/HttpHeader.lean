import MsysGit.Connect.HttpRelay

/-!
# Reading the lines of an HTTP header

What `line_input` leaves in the buffer is one piece of the stream (`takeLine`), and
the three loops of `begin_http_relay` only differ in the pieces that make them
stop and in what they do with the others.  `LineLoop` is what they share: each
round reads a piece and goes on unless `stop` accepts it.  Whether such a loop
ends is a question about the stream alone (`LineLoop.returns`, `LineLoop.runs`):
at the end of the stream it reads empty pieces for ever.
-/

namespace MsysGit.Connect

open MsysGit.Library MsysGit.Library.CString

/-! ### `line_input` -/

/-- The next piece, and what follows it. -/
abbrev nextLine (stream : Bytes) : Bytes × Bytes := takeLine newline 1023 stream

/-- `recv` of one byte. -/
theorem wp_recv_one {w : World} {Q : Option Bytes → World → Prop} {E : Halt → World → Prop}
    (ended : w.stream = [] → w.broken = false → ∀ chunks, chunks.flatten = [] →
      Q (some []) { w with incoming := chunks })
    (failed : w.stream = [] → w.broken = true → ∀ chunks, Q none { w with incoming := chunks })
    (byte : ∀ c rest chunks, w.stream = c :: rest → chunks.flatten = rest →
      Q (some [c]) { w with incoming := chunks }) :
    (recv 1).wp w Q E := by
  refine wp_recv Nat.one_pos ended failed fun c bytes chunks bound whole => ?_
  obtain rfl : bytes = [] :=
    List.length_eq_zero_iff.mp (Nat.le_zero.mp (Nat.le_of_succ_le_succ bound))
  exact byte c _ chunks whole.symm rfl

theorem wp_lineInputLoop {E : Halt → World → Prop} (size : ℕ) :
    ∀ (dst : ℕ) (buf : LineBuffer) (w : World) (Q : Bool × LineBuffer → World → Prop),
      ((w.broken → newline ∈ (takeLine newline size w.stream).1 ∨
          (takeLine newline size w.stream).1.length = size) →
        ∀ chunks, chunks.flatten = (takeLine newline size w.stream).2 →
        Q (true, buf.store dst ((takeLine newline size w.stream).1 ++ [0]))
          { w with incoming := chunks }) →
      (w.broken → (takeLine newline size w.stream).2 = [] →
        newline ∉ (takeLine newline size w.stream).1 →
        (takeLine newline size w.stream).1.length < size →
        ∀ b chunks, Q (false, b) { w with incoming := chunks }) →
      (lineInputLoop size dst buf).wp w Q E := by
  induction size with
  | zero =>
      intro dst buf w Q read _
      exact read (fun _ => Or.inr rfl) w.incoming rfl
  | succ size ih =>
      intro dst buf w Q read failed
      rw [lineInputLoop, Program.wp_bind]
      refine wp_recv_one (fun ended whole chunks empty => ?_) (fun ended torn chunks => ?_)
        fun c rest chunks stream split => ?_
      · rw [ended] at read
        exact read (fun torn => absurd torn (by simp [whole])) chunks empty
      · rw [ended] at failed
        exact failed torn rfl List.not_mem_nil (Nat.succ_pos size) buf chunks
      · rw [stream, takeLine] at read failed
        dsimp only
        by_cases last : c = newline
        · rw [if_pos last] at read failed ⊢
          exact read (fun _ => Or.inl (last ▸ List.mem_cons_self)) chunks split
        · rw [if_neg last] at read failed ⊢
          have rest_of : World.stream { w with incoming := chunks } = rest := split
          refine ih _ _ _ _ (fun torn chunks' split' => ?_)
            fun broken empty none_left short b chunks' => ?_
          · rw [rest_of] at torn split' ⊢
            refine read (fun broken => ?_) chunks' split'
            rcases torn broken with inside | long
            · exact Or.inl (List.mem_cons_of_mem _ inside)
            · exact Or.inr (by rw [List.length_cons, long])
          · rw [rest_of] at empty none_left short
            refine failed broken empty (fun inside => ?_) (Nat.succ_lt_succ short) b chunks'
            rcases List.mem_cons.mp inside with same | inside
            · exact last same.symm
            · exact none_left inside

/-- **Reading a line** stores the next piece and a terminator.  It fails only where
the connection breaks inside the line. -/
theorem wp_lineInput_store {w : World} {buf : LineBuffer} {Q : Bool × LineBuffer → World → Prop}
    {E : Halt → World → Prop}
    (read : (w.broken → newline ∈ (nextLine w.stream).1 ∨ (nextLine w.stream).1.length = 1023) →
      ∀ w', w'.globals = w.globals → w'.broken = w.broken → w'.stream = (nextLine w.stream).2 →
      Q (true, buf.store 0 ((nextLine w.stream).1 ++ [0])) w')
    (failed : w.broken → (nextLine w.stream).2 = [] → newline ∉ (nextLine w.stream).1 →
      ∀ b w', (nextLine w.stream).1.length < 1023 → w'.globals = w.globals → Q (false, b) w') :
    (lineInput buf).wp w Q E :=
  wp_lineInputLoop 1023 0 buf w Q (fun torn _ split => read torn _ rfl rfl split)
    fun broken empty none_left short b _ => failed broken empty none_left b _ short rfl

theorem length_nextLine_le (stream : Bytes) : (nextLine stream).1.length ≤ 1023 :=
  takeLine_length_le _ _ _

/-- What is read is the string in the buffer, whatever was in the buffer before. -/
theorem wp_lineInput {w : World} {buf : LineBuffer} {Q : Bool × LineBuffer → World → Prop}
    {E : Halt → World → Prop}
    (read : (w.broken → newline ∈ (nextLine w.stream).1 ∨ (nextLine w.stream).1.length = 1023) →
      ∀ b w', cstr b.cells 0 = cstr (nextLine w.stream).1 0 →
      w'.globals = w.globals → w'.broken = w.broken → w'.stream = (nextLine w.stream).2 →
      Q (true, b) w')
    (failed : w.broken → (nextLine w.stream).2 = [] → newline ∉ (nextLine w.stream).1 →
      ∀ b w', (nextLine w.stream).1.length < 1023 → w'.globals = w.globals → Q (false, b) w') :
    (lineInput buf).wp w Q E :=
  wp_lineInput_store
    (fun torn w' same broken rest =>
      read torn _ w' (cstr_store buf (Nat.lt_succ_of_le (length_nextLine_le _))) same broken rest)
    failed

/-! ### Loops over lines -/

/-- A loop that reads a line in each round, until `stop` accepts one; it then
returns with a value in `ok`.  It also returns, with any value, where the
connection breaks. -/
structure LineLoop {σ : Type} (loop : ℕ → σ → Io ℤ) (stop : Bytes → Bool) (ok : ℤ → Prop) :
    Prop where
  zero : ∀ s, loop 0 s = Program.halt .running
  step : ∀ (fuel : ℕ) (s : σ) (w : World) (Q : ℤ → World → Prop) (E : Halt → World → Prop),
    (w.broken → (nextLine w.stream).2 = [] → newline ∉ (nextLine w.stream).1 →
      ∀ r w', Q r w') →
    (stop (nextLine w.stream).1 → ∀ r w', ok r → w'.stream = (nextLine w.stream).2 → Q r w') →
    (stop (nextLine w.stream).1 = false →
      (w.broken → newline ∈ (nextLine w.stream).1 ∨ (nextLine w.stream).1.length = 1023) →
      ∀ s' w', w'.broken = w.broken → w'.stream = (nextLine w.stream).2 →
      (loop fuel s').wp w' Q E) →
    (loop (fuel + 1) s).wp w Q E

namespace LineLoop

variable {σ : Type} {loop : ℕ → σ → Io ℤ} {stop : Bytes → Bool} {ok : ℤ → Prop}

theorem nextLine_shorter {stream : Bytes} (some_left : stream ≠ []) :
    (nextLine stream).2.length < stream.length :=
  takeLine_length_lt (by decide) some_left

theorem after_nextLine {stream : Bytes} (some_left : stream ≠ [])
    (goes_on : stop (nextLine stream).1 = false) :
    after newline 1023 stop stream = after newline 1023 stop (nextLine stream).2 := by
  rw [after_of_ne_nil (by decide) some_left, goes_on]
  rfl

/-- **The loop ends** when a piece that stops it comes, or the connection breaks. -/
theorem returns (h : LineLoop loop stop ok) (fuel : ℕ) :
    ∀ (s : σ) (w : World), w.stream.length < fuel →
      w.broken ∨ (after newline 1023 stop w.stream).isSome →
      (loop fuel s).wp w (fun _ _ => True) (fun _ _ => False) := by
  induction fuel with
  | zero =>
      intro s w enough
      exact absurd enough (Nat.not_lt_zero _)
  | succ fuel ih =>
      intro s w enough ends
      refine h.step fuel s w _ _ (fun _ _ _ _ _ => trivial) (fun _ _ _ _ _ => trivial)
        fun goes_on torn s' w' broken rest => ?_
      have some_left : w.stream ≠ [] := by
        intro empty
        rw [empty] at torn ends
        rw [after_nil] at ends
        rcases torn (ends.resolve_right (by simp)) with inside | long
        · cases inside
        · cases long
      refine ih s' w' ?_ ?_
      · rw [rest]
        have := nextLine_shorter some_left
        omega
      · rw [broken, rest, ← after_nextLine some_left goes_on]
        exact ends

/-- **The loop runs for ever** when the stream ends without such a piece: it goes on
reading empty lines. -/
theorem runs (h : LineLoop loop stop ok) (empty_line : stop [] = false) (fuel : ℕ) :
    ∀ (s : σ) (w : World), w.broken = false → after newline 1023 stop w.stream = none →
      (loop fuel s).wp w (fun _ _ => False) (fun why _ => why = .running) := by
  induction fuel with
  | zero =>
      intro s w _ _
      rw [h.zero]
      rfl
  | succ fuel ih =>
      intro s w whole never
      refine h.step fuel s w _ _ (fun torn => absurd torn (by simp [whole])) (fun stops => ?_)
        fun goes_on _ s' w' broken rest => ih s' w' (broken.trans whole) ?_
      · by_cases some_left : w.stream = []
        · rw [some_left] at stops
          exact absurd stops (by simp [nextLine, takeLine, empty_line])
        · rw [after_of_ne_nil (by decide) some_left, if_pos stops] at never
          cases never
      · rw [rest]
        by_cases some_left : w.stream = []
        · rw [some_left]
          exact after_nil
        · exact (after_nextLine some_left goes_on).symm.trans never

/-- **Where the loop stops**: right behind the first piece that stops it. -/
theorem stops (h : LineLoop loop stop ok) (whole_line : ∀ line, stop line → newline ∈ line)
    (fuel : ℕ) :
    ∀ (s : σ) (w : World) (rest : Bytes), w.stream.length < fuel →
      after newline 1023 stop w.stream = some rest →
      (loop fuel s).wp w (fun r w' => ok r ∧ w'.stream = rest) (fun _ _ => False) := by
  induction fuel with
  | zero =>
      intro s w rest enough
      exact absurd enough (Nat.not_lt_zero _)
  | succ fuel ih =>
      intro s w rest enough ends
      have some_left : w.stream ≠ [] := by
        intro empty
        rw [empty, after_nil] at ends
        cases ends
      by_cases stops : stop (nextLine w.stream).1
      · rw [after_of_ne_nil (by decide) some_left, if_pos stops] at ends
        obtain rfl := Option.some.inj ends
        refine h.step fuel s w _ _ (fun _ _ none_left => ?_) (fun _ r w' good left => ⟨good, left⟩)
          fun goes_on => ?_
        · exact absurd (whole_line _ stops) none_left
        · exact absurd stops (by simp [goes_on])
      · have goes_on := Bool.eq_false_iff.mpr stops
        rw [after_nextLine some_left goes_on] at ends
        refine h.step fuel s w _ _ (fun _ empty => ?_) (fun stops' => absurd stops' stops)
          fun _ _ s' w' _ left => ih s' w' rest ?_ (left ▸ ends)
        · rw [empty, after_nil] at ends
          cases ends
        · rw [left]
          have := nextLine_shorter some_left
          omega

end LineLoop

end MsysGit.Connect
