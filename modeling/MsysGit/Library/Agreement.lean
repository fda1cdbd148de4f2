import MsysGit.Library.Program

/-!
# Programs that cannot tell two states apart

`m.Respects R H` says that a program started in two states related by `R` ends in the
same way from both: with the same value and states related by `R` again, or halted for
the same reason in states related by `H`.  It is a statement about two runs of one
program, where `wp` is about one.

The rules follow the syntax.  A statement that reads the state has to read what `R`
preserves; one that changes it has to preserve `R`; `bind` passes the relation on.  A
program that does several reads whose values differ can still respect `R` as a whole:
such a program is proved through `matches_of_wp`, from what it is known to do.
-/

namespace MsysGit.Library

universe u

variable {σ ε α β : Type u}

/-- Two endings that agree: the same value or reason, and related states. -/
def Ending.Matches (R H : σ → σ → Prop) : Ending σ ε α → Ending σ ε α → Prop
  | .returned a s, .returned b t => a = b ∧ R s t
  | .halted why s, .halted why' t => why = why' ∧ H s t
  | _, _ => False

/-- Less may be asked of the two final states. -/
theorem Ending.Matches.mono {R R' H H' : σ → σ → Prop} {x y : Ending σ ε α}
    (same : x.Matches R H y) (returns : ∀ s t, R s t → R' s t) (halts : ∀ s t, H s t → H' s t) :
    x.Matches R' H' y := by
  cases x with
  | returned a s =>
      cases y with
      | returned b t => exact ⟨same.1, returns s t same.2⟩
      | halted why t => exact same.elim
  | halted why s =>
      cases y with
      | returned b t => exact same.elim
      | halted why' t => exact ⟨same.1, halts s t same.2⟩

namespace Program

/-- The program ends in the same way from any two related states. -/
def Respects (R H : σ → σ → Prop) (m : Program σ ε α) : Prop :=
  ∀ s t, R s t → (m s).Matches R H (m t)

variable {R H : σ → σ → Prop} {m : Program σ ε α} {f : α → Program σ ε β}

theorem respects_pure (a : α) : Respects R H (pure a : Program σ ε α) :=
  fun _ _ related => ⟨rfl, related⟩

/-- Halting where it stands. -/
theorem respects_halt (weaker : ∀ s t, R s t → H s t) (why : ε) :
    Respects R H (halt why : Program σ ε α) :=
  fun s t related => ⟨rfl, weaker s t related⟩

/-- What is read is the same in related states. -/
theorem respects_read {g : σ → α} (same : ∀ s t, R s t → g s = g t) :
    Respects R H (read g : Program σ ε α) :=
  fun s t related => ⟨same s t related, related⟩

/-- The change keeps states related. -/
theorem respects_update {g : σ → σ} (kept : ∀ s t, R s t → R (g s) (g t)) :
    Respects R H (update g : Program σ ε PUnit) :=
  fun s t related => ⟨rfl, kept s t related⟩

/-- **Sequencing.**  Behind the same value the two runs do the same again. -/
theorem Respects.bind (first : Respects R H m) (rest : ∀ a, Respects R H (f a)) :
    Respects R H (m >>= f) := by
  intro s t related
  have ends := first s t related
  cases left : m s with
  | returned a s' =>
      cases right : m t with
      | returned b t' =>
          rw [left, right] at ends
          obtain ⟨rfl, after⟩ := ends
          rw [bind_of_returned left, bind_of_returned right]
          exact rest a s' t' after
      | halted why t' =>
          rw [left, right] at ends
          exact ends.elim
  | halted why s' =>
      cases right : m t with
      | returned b t' =>
          rw [left, right] at ends
          exact ends.elim
      | halted why' t' =>
          rw [left, right] at ends
          rw [bind_of_halted left, bind_of_halted right]
          exact ends

/-- A branch on something that is no part of the state. -/
theorem Respects.ite {c : Prop} [Decidable c] {m' : Program σ ε α} (yes : c → Respects R H m)
    (no : ¬ c → Respects R H m') : Respects R H (if c then m else m') := by
  by_cases h : c
  · rw [if_pos h]
    exact yes h
  · rw [if_neg h]
    exact no h

/-- **From two runs to both.**  If each of the two runs is known to end in `Q` or `E`, and
what these say of two related states fits together, then the runs agree. -/
theorem matches_of_wp {s t : σ} {Q Q' : α → σ → Prop} {E E' : ε → σ → Prop}
    (left : wp m s Q E) (right : wp m t Q' E')
    (ok : ∀ a s' b t', Q a s' → Q' b t' → a = b ∧ R s' t')
    (bad : ∀ why s' why' t', E why s' → E' why' t' → why = why' ∧ H s' t')
    (mixed : ∀ a s' why t', (Q a s' → E' why t' → False) ∧ (E why s' → Q' a t' → False)) :
    (m s).Matches R H (m t) := by
  unfold wp at left right
  cases ended : m s with
  | returned a s' =>
      rw [ended] at left
      cases ended' : m t with
      | returned b t' =>
          rw [ended'] at right
          exact ok a s' b t' left right
      | halted why t' =>
          rw [ended'] at right
          exact (mixed a s' why t').1 left right
  | halted why s' =>
      rw [ended] at left
      cases ended' : m t with
      | returned b t' =>
          rw [ended'] at right
          exact (mixed b s' why t').2 left right
      | halted why' t' =>
          rw [ended'] at right
          exact bad why s' why' t' left right

end Program

end MsysGit.Library
