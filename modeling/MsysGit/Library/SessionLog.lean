import Mathlib.Data.List.Basic

/-!
# Sessions in a log

A client opens sessions and closes them by their handles.  The log of its calls, read
from the left, says which sessions are open after each of them.  A log is well kept if
never more than one session is open and none is open at its end.
-/

namespace MsysGit.Library

universe u

/-- What a call does to the sessions with handles in `ι`. -/
inductive SessionEvent (ι : Type u) where
  | opened (handle : ι)
  | closed (handle : ι)
  deriving DecidableEq

namespace SessionEvent

variable {ι : Type u} [DecidableEq ι]

/-- The open sessions after one event.  To close what is not open changes nothing. -/
def apply (sessions : List ι) : SessionEvent ι → List ι
  | opened handle => sessions ++ [handle]
  | closed handle => sessions.erase handle

/-- The sessions that a log leaves open. -/
def stillOpen (log : List (SessionEvent ι)) : List ι := log.foldl apply []

/-- At no time is more than one session open. -/
def OneAtATime (log : List (SessionEvent ι)) : Prop :=
  ∀ earlier, earlier <+: log → (stillOpen earlier).length ≤ 1

/-- Never more than one session is open, and in the end none is. -/
def WellKept (log : List (SessionEvent ι)) : Prop := OneAtATime log ∧ stillOpen log = []

theorem stillOpen_append (log later : List (SessionEvent ι)) :
    stillOpen (log ++ later) = later.foldl apply (stillOpen log) := by
  rw [stillOpen, List.foldl_append]
  rfl

/-- A log that opens sessions only leaves all of them open. -/
theorem stillOpen_map_opened (handles : List ι) : stillOpen (handles.map opened) = handles := by
  suffices general : ∀ sessions, (handles.map opened).foldl apply sessions = sessions ++ handles by
    exact general []
  induction handles with
  | nil =>
      intro sessions
      exact (List.append_nil sessions).symm
  | cons handle handles ih =>
      intro sessions
      rw [List.map_cons, List.foldl_cons, ih, apply, List.append_assoc]
      rfl

theorem foldl_apply_closed_sublist (handles sessions : List ι) :
    ((handles.map closed).foldl apply sessions).Sublist sessions := by
  induction handles generalizing sessions with
  | nil => exact List.Sublist.refl sessions
  | cons handle handles ih => exact (ih _).trans List.erase_sublist

theorem foldl_apply_closed_singleton (handles : List ι) (session : ι) :
    (handles.map closed).foldl apply [session] = [] ↔ session ∈ handles := by
  induction handles with
  | nil => simp
  | cons handle handles ih =>
      rw [List.map_cons, List.foldl_cons, apply, List.mem_cons]
      by_cases same : handle = session
      · subst same
        have nothing := foldl_apply_closed_sublist handles ([] : List ι)
        rw [List.erase_cons_head, List.sublist_nil.mp nothing]
        simp
      · rw [List.erase_cons_tail (by simpa using Ne.symm same), List.erase_nil, ih]
        simp [Ne.symm same]

/-- While sessions are only opened, at most one of them may be. -/
theorem oneAtATime_opened_closed_iff (handles closing : List ι) :
    OneAtATime (handles.map opened ++ closing.map closed) ↔ handles.length ≤ 1 := by
  constructor
  · intro one
    have opening := one _ (List.prefix_append (handles.map opened) _)
    rwa [stillOpen_map_opened] at opening
  · rintro few earlier ⟨rest, split⟩
    rcases List.append_eq_append_iff.mp split with ⟨unread, opening, -⟩ | ⟨later, rfl, closings⟩
    · obtain ⟨handles', begins', rfl⟩ := List.prefix_map_iff.mp ⟨unread, opening.symm⟩
      rw [stillOpen_map_opened]
      exact Nat.le_trans begins'.length_le few
    · obtain ⟨closing', -, rfl⟩ := List.prefix_map_iff.mp ⟨rest, closings.symm⟩
      rw [stillOpen_append, stillOpen_map_opened]
      exact Nat.le_trans (foldl_apply_closed_sublist closing' handles).length_le few

/-- **Open first, close later.**  Such a log is well kept if and only if it opens no session,
or a single one that it closes. -/
theorem wellKept_opened_closed_iff (handles closing : List ι) :
    WellKept (handles.map opened ++ closing.map closed) ↔
      handles = [] ∨ ∃ session, handles = [session] ∧ session ∈ closing := by
  rw [WellKept, oneAtATime_opened_closed_iff, stillOpen_append, stillOpen_map_opened]
  match handles with
  | [] =>
      have nothing := foldl_apply_closed_sublist closing ([] : List ι)
      simp [List.sublist_nil.mp nothing]
  | [session] =>
      rw [foldl_apply_closed_singleton]
      simp
  | _ :: _ :: _ => simp

end SessionEvent

end MsysGit.Library
