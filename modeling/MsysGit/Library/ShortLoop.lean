import Mathlib.Order.Filter.AtTopBot.Basic
import Mathlib.Order.Filter.Finite
import Mathlib.Tactic.Common
import MsysGit.Library.Program

/-!
# Loops with a 16 bit counter

`shortLoop` counts from zero up to a limit that may be larger than the counter: from there on
the counter begins again.  A loop takes fuel, and so may its body, so what a loop comes to is
said of all amounts of fuel at once: it is still running, or it has ended, and with enough
fuel it has ended (`Ends`).  A program that never ends comes to that, too.

`ends_returned`, `ends_halted` and `ends_running` are the three ways of such a loop whose
body leaves the state as it is, until it halts.
-/

namespace MsysGit.Library

open Filter

universe u

variable {σ ε α : Type u} {running : ε}

variable (running) in
/-- With little fuel the program is still running; with enough, it comes to `ending`. -/
structure Ends (program : ℕ → Program σ ε α) (s : σ) (ending : Ending σ ε α) : Prop where
  early : ∀ fuel, program fuel s = .halted running s ∨ program fuel s = ending
  late : ∀ᶠ fuel in atTop, program fuel s = ending

namespace Ends

variable {program : ℕ → Program σ ε α} {s : σ} {ending ending' : Ending σ ε α}

theorem unique (ends : Ends running program s ending) (ends' : Ends running program s ending') :
    ending = ending' := by
  obtain ⟨fuel, same, same'⟩ := (ends.late.and ends'.late).exists
  exact same.symm.trans same'

/-- A program that takes no fuel. -/
theorem const {p : Program σ ε α} (result : p s = ending) : Ends running (fun _ => p) s ending :=
  ⟨fun _ => Or.inr result, .of_forall fun _ => result⟩

/-- A program that never ends. -/
theorem forever (runs : ∀ fuel, program fuel s = .halted running s) :
    Ends running program s (.halted running s) :=
  ⟨fun fuel => Or.inl (runs fuel), .of_forall runs⟩

/-- Some amount of fuel is enough to see how the program ends. -/
theorem ne_running_iff (ends : Ends running program s ending) :
    (∃ fuel, program fuel s ≠ .halted running s) ↔ ending ≠ .halted running s := by
  constructor
  · rintro ⟨fuel, ended⟩ same
    exact ended ((ends.early fuel).elim id fun other => other.trans same)
  · intro ended
    obtain ⟨fuel, same⟩ := ends.late.exists
    exact ⟨fuel, fun runs => ended (same.symm.trans runs)⟩

end Ends

variable (running) in
/-- `for (k = 0; k < limit; k++)`, from `k` on. -/
def shortLoop (limit : ℕ) (body : UInt16 → Program σ ε PUnit) : ℕ → UInt16 → Program σ ε PUnit
  | 0, _ => Program.halt running
  | fuel + 1, k =>
      if k.toNat < limit then do
        body k
        shortLoop limit body fuel (k + 1)
      else pure .unit

/-! ### One round -/

section Round

variable {limit : ℕ} {body : UInt16 → Program σ ε PUnit} {s s' : σ} {k : UInt16}

theorem shortLoop_of_le (ended : limit ≤ k.toNat) (fuel : ℕ) :
    shortLoop running limit body (fuel + 1) k s = .returned .unit s := by
  rw [shortLoop, if_neg (Nat.not_lt.mpr ended)]
  rfl

theorem shortLoop_of_returned (inside : k.toNat < limit)
    (quiet : body k s = .returned .unit s) (fuel : ℕ) :
    shortLoop running limit body (fuel + 1) k s =
      shortLoop running limit body fuel (k + 1) s := by
  rw [shortLoop, if_pos inside, Program.bind_of_returned quiet]

theorem shortLoop_of_halted {why : ε} (inside : k.toNat < limit)
    (halts : body k s = .halted why s') (fuel : ℕ) :
    shortLoop running limit body (fuel + 1) k s = .halted why s' := by
  rw [shortLoop, if_pos inside, Program.bind_of_halted halts]

/-- Rounds that change nothing pass, as long as there is fuel. -/
theorem shortLoop_pass {n fuel : ℕ} (below : n ≤ limit) (low : n < 2 ^ 16)
    (quiet : ∀ k : UInt16, k.toNat < n → body k s = .returned .unit s) (enough : n ≤ fuel) :
    shortLoop running limit body fuel 0 s =
      shortLoop running limit body (fuel - n) (.ofNat n) s := by
  induction n with
  | zero => rfl
  | succ n ih =>
      have at_n : (UInt16.ofNat n).toNat = n := UInt16.toNat_ofNat_of_lt' (Nat.lt_of_succ_lt low)
      rw [ih (by omega) (by omega) (fun k less => quiet k (by omega)) (by omega),
        show fuel - n = fuel - (n + 1) + 1 by omega,
        shortLoop_of_returned (by omega) (quiet _ (by omega)), UInt16.ofNat_add]
      rfl

end Round

/-- There is a first counter with a property, if there is any. -/
theorem exists_first {P : UInt16 → Prop} {k : UInt16} (here : P k) :
    ∃ first, P first ∧ ∀ k : UInt16, k.toNat < first.toNat → ¬P k := by
  classical
  have some_number : ∃ n, ∃ k : UInt16, k.toNat = n ∧ P k := ⟨_, k, rfl, here⟩
  obtain ⟨first, at_first, holds⟩ := Nat.find_spec some_number
  exact ⟨first, holds, fun k below holds' =>
    Nat.find_min some_number (at_first ▸ below) ⟨k, rfl, holds'⟩⟩

/-! ### The three ways -/

section Ways

variable {limit : ℕ} (body : ℕ → UInt16 → Program σ ε PUnit) {s s' : σ}

/-- What finitely many rounds do with enough fuel, they all do with enough fuel. -/
theorem eventually_quiet {n : ℕ} (low : n ≤ 2 ^ 16)
    (quiet : ∀ k : UInt16, k.toNat < n → Ends running (body · k) s (.returned .unit s)) :
    ∀ᶠ fuel in atTop, ∀ k : UInt16, k.toNat < n → body fuel k s = .returned .unit s := by
  have each : ∀ᶠ fuel in atTop, ∀ k ∈ Finset.range n,
      body fuel (.ofNat k) s = .returned .unit s := by
    refine (eventually_all_finset _).mpr fun k inside => (quiet _ ?_).late
    have below := Finset.mem_range.mp inside
    rwa [UInt16.toNat_ofNat_of_lt' (Nat.lt_of_lt_of_le below low)]
  refine each.mono fun fuel same k below => ?_
  have here := same k.toNat (Finset.mem_range.mpr below)
  rwa [UInt16.ofNat_toNat] at here

/-- Every round passes, and the counter reaches the limit. -/
theorem ends_returned (short : limit < 2 ^ 16)
    (quiet : ∀ k : UInt16, k.toNat < limit → Ends running (body · k) s (.returned .unit s)) :
    Ends running (fun fuel => shortLoop running limit (body fuel) fuel 0) s
      (.returned .unit s) where
  early fuel := by
    have all (fuel' : ℕ) (k : UInt16) :
        shortLoop running limit (body fuel) fuel' k s = .halted running s ∨
          shortLoop running limit (body fuel) fuel' k s = .returned .unit s := by
      induction fuel' generalizing k with
      | zero => exact Or.inl rfl
      | succ fuel' ih =>
          by_cases inside : k.toNat < limit
          · rcases (quiet k inside).early fuel with runs | passes
            · exact Or.inl (shortLoop_of_halted inside runs fuel')
            · rw [shortLoop_of_returned inside passes]
              exact ih (k + 1)
          · exact Or.inr (shortLoop_of_le (Nat.le_of_not_lt inside) fuel')
    exact all fuel 0
  late := by
    filter_upwards [eventually_quiet body (Nat.le_of_lt short) quiet, eventually_gt_atTop limit]
      with fuel passes enough
    rw [shortLoop_pass (Nat.le_refl _) short passes (Nat.le_of_lt enough),
      show fuel - limit = fuel - limit - 1 + 1 by omega]
    exact shortLoop_of_le (Nat.le_of_eq (UInt16.toNat_ofNat_of_lt' short).symm) _

/-- The first round that does not pass halts, or never ends. -/
theorem ends_halted {why : ε} {k₀ : UInt16} (inside : k₀.toNat < limit)
    (quiet : ∀ k : UInt16, k.toNat < k₀.toNat → Ends running (body · k) s (.returned .unit s))
    (halts : Ends running (body · k₀) s (.halted why s')) :
    Ends running (fun fuel => shortLoop running limit (body fuel) fuel 0) s (.halted why s') where
  early fuel := by
    have all (fuel' : ℕ) (k : UInt16) (le : k.toNat ≤ k₀.toNat) :
        shortLoop running limit (body fuel) fuel' k s = .halted running s ∨
          shortLoop running limit (body fuel) fuel' k s = .halted why s' := by
      induction fuel' generalizing k with
      | zero => exact Or.inl rfl
      | succ fuel' ih =>
          rcases Nat.lt_or_eq_of_le le with below | same
          · rcases (quiet k below).early fuel with runs | passes
            · exact Or.inl (shortLoop_of_halted (by omega) runs fuel')
            · rw [shortLoop_of_returned (by omega) passes]
              have top := k₀.toNat_lt
              refine ih (k + 1) ?_
              rw [UInt16.toNat_add]
              change (k.toNat + 1) % 2 ^ 16 ≤ _
              omega
          · obtain rfl := UInt16.toNat_inj.mp same
            exact (halts.early fuel).imp (fun runs => shortLoop_of_halted inside runs fuel')
              fun stops => shortLoop_of_halted inside stops fuel'
    exact all fuel 0 (Nat.zero_le _)
  late := by
    filter_upwards [eventually_quiet body (Nat.le_of_lt k₀.toNat_lt) quiet, halts.late,
      eventually_gt_atTop k₀.toNat] with fuel passes stops enough
    rw [shortLoop_pass (Nat.le_of_lt inside) k₀.toNat_lt passes (Nat.le_of_lt enough),
      UInt16.ofNat_toNat, show fuel - k₀.toNat = fuel - k₀.toNat - 1 + 1 by omega]
    exact shortLoop_of_halted inside stops _

/-- **The counter never reaches the limit**: if every round passes, the loop never ends. -/
theorem ends_running (wide : 2 ^ 16 ≤ limit)
    (quiet : ∀ k : UInt16, Ends running (body · k) s (.returned .unit s)) :
    Ends running (fun fuel => shortLoop running limit (body fuel) fuel 0) s
      (.halted running s) := by
  refine .forever fun fuel => ?_
  have all (fuel' : ℕ) (k : UInt16) :
      shortLoop running limit (body fuel) fuel' k s = .halted running s := by
    induction fuel' generalizing k with
    | zero => rfl
    | succ fuel' ih =>
        have inside : k.toNat < limit := Nat.lt_of_lt_of_le k.toNat_lt wide
        rcases (quiet k).early fuel with runs | passes
        · exact shortLoop_of_halted inside runs fuel'
        · rw [shortLoop_of_returned inside passes]
          exact ih (k + 1)
  exact all fuel 0

end Ways

end MsysGit.Library
