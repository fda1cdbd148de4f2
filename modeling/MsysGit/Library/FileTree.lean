import Mathlib.Data.List.Basic
import Mathlib.Tactic.Common

/-!
# Trees of files

A `FileTree` gives contents to finitely many paths.  A path is the list of names on
the way from the root, and where there is a file there can be no directory: no path
of a tree lies below another one (`apart`).

* `restrict` keeps the files of some paths.
* `overlay` puts the files of one tree over another and drops what is in their way.
* `tryJoin` puts them together and refuses when they are in each other's way.
-/

namespace MsysGit.Library

universe u v

variable {N : Type u} {V : Type v} [DecidableEq N]

/-- One path lies below the other, so there cannot be files at both. -/
def conflict (p q : List N) : Bool := p ≠ q && (p.isPrefixOf q || q.isPrefixOf p)

theorem conflict_comm (p q : List N) : conflict p q = conflict q p := by
  rw [conflict, conflict, Bool.or_comm]
  congr 1
  rw [decide_eq_decide]
  exact ne_comm

theorem conflict_self (p : List N) : conflict p p = false := by simp [conflict]

/-- Files by their paths, none of which lies below another. -/
structure FileTree (N : Type u) (V : Type v) [DecidableEq N] where
  entries : List (List N × V)
  apart : ∀ e ∈ entries, ∀ e' ∈ entries, conflict e.1 e'.1 = false

/-- Looking up in a filtered table. -/
theorem lookup_filter (keep : List N → Bool) (p : List N) (entries : List (List N × V)) :
    (entries.filter fun e => keep e.1).lookup p = if keep p then entries.lookup p else none := by
  induction entries with
  | nil => simp
  | cons e entries ih =>
      obtain ⟨q, c⟩ := e
      by_cases here : p = q
      · subst here
        by_cases kept : keep p = true
        · simp [kept]
        · simp [kept, ih]
      · have other : (p == q) = false := beq_false_of_ne here
        by_cases kept : keep q = true
        · simp [kept, List.lookup_cons, other, ih]
        · simp [kept, List.lookup_cons, other, ih]

namespace FileTree

variable (t : FileTree N V)

/-- The content at a path. -/
def get (p : List N) : Option V := t.entries.lookup p

/-- Some file is in the way of one at this path. -/
def hits (p : List N) : Bool := t.entries.any fun e => conflict p e.1

variable {t}

theorem mem_of_get {p : List N} {c : V} (found : t.get p = some c) : (p, c) ∈ t.entries := by
  obtain ⟨first, rest, split, _⟩ := List.lookup_eq_some_iff.mp found
  rw [split]
  exact List.mem_append_right _ List.mem_cons_self

/-- Where a file is in the way, there is none. -/
theorem get_of_hits {p : List N} (hits : t.hits p = true) : t.get p = none := by
  obtain ⟨e, inside, conflicts⟩ := List.any_eq_true.mp hits
  rw [Option.eq_none_iff_forall_ne_some]
  intro c found
  rw [t.apart (p, c) (mem_of_get found) e inside] at conflicts
  cases conflicts

theorem hits_eq_false {p : List N} :
    t.hits p = false ↔ ∀ e ∈ t.entries, conflict p e.1 = false := by
  rw [hits, List.any_eq_false]
  simp

/-- The files at some of the paths. -/
def restrict (keep : List N → Bool) (t : FileTree N V) : FileTree N V where
  entries := t.entries.filter fun e => keep e.1
  apart := fun e inside e' inside' =>
    t.apart e (List.mem_of_mem_filter inside) e' (List.mem_of_mem_filter inside')

@[simp] theorem get_restrict (keep : List N → Bool) (p : List N) :
    (t.restrict keep).get p = if keep p then t.get p else none :=
  lookup_filter keep p t.entries

theorem hits_of_restrict {keep : List N → Bool} {p : List N}
    (hits : (t.restrict keep).hits p = true) : t.hits p = true := by
  obtain ⟨e, inside, conflicts⟩ := List.any_eq_true.mp hits
  exact List.any_eq_true.mpr ⟨e, List.mem_of_mem_filter inside, conflicts⟩

/-- Two lists of files that are not in each other's way are a tree together. -/
theorem apart_append {a b : List (List N × V)}
    (first : ∀ e ∈ a, ∀ e' ∈ a, conflict e.1 e'.1 = false)
    (second : ∀ e ∈ b, ∀ e' ∈ b, conflict e.1 e'.1 = false)
    (across : ∀ e ∈ a, ∀ e' ∈ b, conflict e.1 e'.1 = false) :
    ∀ e ∈ a ++ b, ∀ e' ∈ a ++ b, conflict e.1 e'.1 = false := by
  intro e inside e' inside'
  rcases List.mem_append.mp inside with left | right
  · rcases List.mem_append.mp inside' with left' | right'
    · exact first e left e' left'
    · exact across e left e' right'
  · rcases List.mem_append.mp inside' with left' | right'
    · rw [conflict_comm]
      exact across e' left' e right
    · exact second e right e' right'

/-- The files of `top` over those of `base`, without those that are in their way. -/
def overlay (top base : FileTree N V) : FileTree N V where
  entries := top.entries ++ base.entries.filter fun e => !top.hits e.1
  apart := by
    refine apart_append top.apart ?_ ?_
    · exact (base.restrict fun p => !top.hits p).apart
    · intro e inside e' inside'
      have free : top.hits e'.1 = false := by simpa using (List.mem_filter.mp inside').2
      rw [conflict_comm]
      exact hits_eq_false.mp free e inside

@[simp] theorem get_overlay (top base : FileTree N V) (p : List N) :
    (top.overlay base).get p = (top.get p).or (if top.hits p then none else base.get p) := by
  rw [get, overlay, List.lookup_append, lookup_filter fun p => !top.hits p]
  cases top.hits p <;> rfl

/-- Both trees, unless a file of one is in the way of the other. -/
def tryJoin (a b : FileTree N V) : Option (FileTree N V) :=
  if clear : ∀ e ∈ a.entries, b.hits e.1 = false then
    some ⟨a.entries ++ b.entries, apart_append a.apart b.apart fun e inside =>
      hits_eq_false.mp (clear e inside)⟩
  else none

theorem get_tryJoin {a b joined : FileTree N V} (both : a.tryJoin b = some joined) (p : List N) :
    joined.get p = (a.get p).or (b.get p) := by
  rw [tryJoin] at both
  split at both
  · obtain rfl := Option.some.inj both
    exact List.lookup_append
  · cases both

variable [DecidableEq V]

/-- The same content at every path. -/
def same (a b : FileTree N V) : Bool :=
  (a.entries ++ b.entries).all fun e => a.get e.1 = b.get e.1

theorem same_iff {a b : FileTree N V} : a.same b = true ↔ ∀ p, a.get p = b.get p := by
  rw [same, List.all_eq_true]
  constructor
  · intro agree p
    cases left : a.get p with
    | some c =>
        have here := agree (p, c) (List.mem_append_left _ (mem_of_get left))
        rw [← left]
        exact of_decide_eq_true here
    | none =>
        cases right : b.get p with
        | none => rfl
        | some c =>
            have here := agree (p, c) (List.mem_append_right _ (mem_of_get right))
            rw [← left, ← right]
            exact of_decide_eq_true here
  · intro agree e _
    exact decide_eq_true (agree e.1)

end FileTree

end MsysGit.Library
