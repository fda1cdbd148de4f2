import MsysGit.RebasingMerge.Series

/-!
# What a rebasing merge picks

The previous rebasing merge is found in every order that `rev-list` may show the commits
in, as long as it contains every other merge of the range with the tree of its first
parent.  Then nothing else is excluded, and the patches are those of the series
(`picks_of_run`).

A forced run can rebase patches that are on the upstream commit already.  They are not
copied, so the old tip contains them, and the next run leaves them out
(`forced_leaves_out`).
-/

namespace MsysGit.RebasingMerge

open MsysGit.Library MsysGit.MergingRebase

/-- `git rev-list` within its freedom. -/
def Lists (b : Branch) (revList : List ℕ → List ℕ) : Prop :=
  ∀ bases, ListsOutside b.history.parents bases b.head (revList bases)

/-- The last rebasing merge that the upstream commit does not contain. -/
def lastRebasing (b : Branch) (upstream : ℕ) : Option Rebasing :=
  b.rebasings.find? fun m => ¬ Reaches b.history.parents upstream m.merge

/-- The other merges of the range with the tree of their first parent are contained in that
rebasing merge. -/
def OthersOlder (b : Branch) (upstream : ℕ) : Prop :=
  ∀ c, Outside b.history.parents [upstream] b.head c → isMerge b.history c = true →
    isOursMerge b.history c = true → (∀ m ∈ b.rebasings, m.merge ≠ c) →
      ∃ m, lastRebasing b upstream = some m ∧ Reaches b.history.parents m.merge c

/-- No run of the script is forced. -/
def Unforced (_ : Branch) : Operation → Prop
  | .rebasing call => call.force = false
  | _ => True

instance (b : Branch) : ∀ operation, Decidable (Unforced b operation)
  | .rebasing call => inferInstanceAs (Decidable (call.force = false))
  | .elsewhere _ | .commit _ _ | .merge _ _ _ => .isTrue trivial

section Selection

variable {b : Branch} {revList : List ℕ → List ℕ} {upstream c : ℕ} {m : Rebasing}

theorem Lays.isMerge {h : History} (lays : Lays h m) : isMerge h m.merge = true := by
  obtain ⟨tip, -, parents, -⟩ := lays.line
  rw [MergingRebase.isMerge, parents]
  rfl

theorem Lays.isOursMerge {h : History} (lays : Lays h m) : isOursMerge h m.merge = true := by
  obtain ⟨tip, -, parents, tree⟩ := lays.line
  rw [MergingRebase.isOursMerge, parents, tree]
  exact decide_eq_true rfl

theorem Lays.second {h : History} (lays : Lays h m) : (h.parents m.merge).getD 1 0 = m.old := by
  obtain ⟨tip, -, parents, -⟩ := lays.line
  rw [parents]
  rfl

/-- What a rebasing merge contains: itself, its copies, and what the upstream commit and the old
tip contain. -/
theorem Lays.reaches {h : History} (lays : Lays h m) (c : ℕ) :
    Reaches h.parents m.merge c ↔ c = m.merge ∨ c ∈ m.copies ∨ Reaches h.parents m.onto c ∨
      Reaches h.parents m.old c := by
  obtain ⟨tip, laid, parents, -⟩ := lays.line
  rw [← or_assoc (a := c ∈ m.copies), ← laid.reaches]
  constructor
  · intro reaches
    rcases Relation.ReflTransGen.cases_head reaches with rfl | ⟨p, parent, rest⟩
    · exact Or.inl rfl
    · rw [parents, List.mem_cons, List.mem_singleton] at parent
      rcases parent with rfl | rfl
      · exact Or.inr (Or.inl rest)
      · exact Or.inr (Or.inr rest)
  · rintro (rfl | rest | rest)
    · exact Reaches.refl _
    · exact Reaches.of_parent (by rw [parents]; exact List.mem_cons_self) rest
    · refine Reaches.of_parent ?_ rest
      rw [parents]
      exact List.mem_cons_of_mem _ (List.mem_singleton_self _)

theorem lastRebasing_mem (last : lastRebasing b upstream = some m) :
    m ∈ b.rebasings ∧ ¬ Reaches b.history.parents upstream m.merge :=
  ⟨List.mem_of_find?_eq_some last, by simpa using List.find?_some last⟩

/-- The last rebasing merge contains every other one of the range. -/
theorem reaches_of_rebasing (rebasings : Rebasings b) (last : lastRebasing b upstream = some m)
    {m' : Rebasing} (inside : m' ∈ b.rebasings)
    (outside : ¬ Reaches b.history.parents upstream m'.merge) :
    Reaches b.history.parents m.merge m'.merge := by
  obtain ⟨_, later, earlier, split, contained⟩ := List.find?_eq_some_iff_append.mp last
  have ordered := rebasings.ordered
  have lays := rebasings.lays m (lastRebasing_mem last).1
  rw [split] at inside ordered
  rcases List.mem_append.mp inside with before | after
  · exact absurd (by simpa using contained m' before) outside
  · rcases List.mem_cons.mp after with rfl | after
    · exact Reaches.refl _
    · have reaches := (List.pairwise_cons.mp (List.pairwise_append.mp ordered).2.1).1 m' after
      exact (lays.reaches _).mpr (Or.inr (Or.inr (Or.inr reaches)))

/-- Every merge of the range with the tree of its first parent is in the last rebasing merge. -/
theorem reaches_of_ours (rebasings : Rebasings b) (older : OthersOlder b upstream)
    (last : lastRebasing b upstream = some m)
    (outside : Outside b.history.parents [upstream] b.head c) (merge : isMerge b.history c = true)
    (ours : isOursMerge b.history c = true) : Reaches b.history.parents m.merge c := by
  by_cases other : ∀ m' ∈ b.rebasings, m'.merge ≠ c
  · obtain ⟨m', last', reaches⟩ := older c outside merge ours other
    obtain rfl := Option.some.inj (last.symm.trans last')
    exact reaches
  · push Not at other
    obtain ⟨m', inside, rfl⟩ := other
    exact reaches_of_rebasing rebasings last inside (outside.2 upstream List.mem_cons_self)

/-- A merge that contains all others of its kind is found first. -/
theorem findRebase_of_contains {h : History} {listing : List ℕ} {s : ℕ}
    (descendants_first : listing.Pairwise fun c d => ¬ Reaches h.parents d c)
    (inside : s ∈ listing) (merge : isMerge h s = true) (ours : isOursMerge h s = true)
    (others : ∀ c ∈ listing, isMerge h c = true → isOursMerge h c = true → Reaches h.parents s c) :
    findRebase h (listMerges h listing) = some s := by
  obtain ⟨first, rest, rfl⟩ := List.append_of_mem inside
  have none_before : ∀ c ∈ first.filter (isMerge h), isOursMerge h c = false := by
    intro c before
    obtain ⟨before, merge⟩ := List.mem_filter.mp before
    rw [← Bool.not_eq_true]
    intro ours
    refine (List.pairwise_append.mp descendants_first).2.2 c before s List.mem_cons_self ?_
    exact others c (List.mem_append_left _ before) merge ours
  rw [listMerges, List.filter_append, findRebase_append none_before, List.filter_cons_of_pos merge,
    findRebase, if_pos ours]

theorem previousRebasing_eq (rebasings : Rebasings b) (lists : Lists b revList)
    (older : OthersOlder b upstream) (last : lastRebasing b upstream = some m) :
    previousRebasing b.history revList upstream = some m.merge := by
  obtain ⟨inside, outside⟩ := lastRebasing_mem last
  have lays := rebasings.lays m inside
  have listing := lists [upstream]
  refine findRebase_of_contains listing.descendants_first ((listing.mem_iff _).mpr ?_) lays.isMerge
    lays.isOursMerge fun c listed merge ours => ?_
  · refine ⟨rebasings.reached m inside, fun base is_base => ?_⟩
    rw [List.mem_singleton.mp is_base]
    exact outside
  · exact reaches_of_ours rebasings older last ((listing.mem_iff c).mp listed) merge ours

/-- Nothing is excluded but what the upstream commit and the old tip contain. -/
theorem range_eq (rebasings : Rebasings b) (lists : Lists b revList)
    (older : OthersOlder b upstream) (last : lastRebasing b upstream = some m)
    (forward : Reaches b.history.parents upstream m.onto) :
    range b.history revList upstream = [upstream, m.old] := by
  obtain ⟨inside, -⟩ := lastRebasing_mem last
  have lays := rebasings.lays m inside
  obtain ⟨tip, laid, -, -⟩ := lays.line
  rw [range, previousRebasing_eq rebasings lists older last]
  dsimp only
  rw [lays.second]
  refine (congrArg ([upstream, m.old] ++ ·) ?_).trans (List.append_nil _)
  rw [List.filter_eq_nil_iff]
  intro c listed
  obtain ⟨listed, merge⟩ := List.mem_filter.mp listed
  obtain ⟨reached, outside⟩ := ((lists [upstream, m.old]).mem_iff c).mp listed
  have not_upstream := outside upstream List.mem_cons_self
  have not_old := outside m.old (List.mem_cons_of_mem _ (List.mem_singleton_self _))
  rw [Bool.and_eq_true, not_and]
  intro other ours
  have within : Outside b.history.parents [upstream] b.head c := by
    refine ⟨reached, fun base is_base => ?_⟩
    rw [List.mem_singleton.mp is_base]
    exact not_upstream
  have contained := reaches_of_ours rebasings older last within merge ours
  rcases (lays.reaches c).mp contained with rfl | copy | upstream_has | old_has
  · exact absurd rfl (of_decide_eq_true other)
  · rw [laid.single c copy] at merge
    cases merge
  · exact not_upstream (forward.trans upstream_has)
  · exact not_old old_has

theorem mem_picks (lists : Lists b revList) :
    c ∈ picks b.history revList upstream ↔ isMerge b.history c = false ∧
      Outside b.history.parents (range b.history revList upstream) b.head c := by
  rw [picks, List.mem_filter, List.mem_reverse, (lists _).mem_iff, Bool.not_eq_true', and_comm]

theorem picks_ancestors_first (lists : Lists b revList) :
    (picks b.history revList upstream).Pairwise fun c d => ¬ Reaches b.history.parents c d :=
  (List.pairwise_reverse.mpr (lists _).descendants_first).filter _

theorem picks_nodup (lists : Lists b revList) : (picks b.history revList upstream).Nodup :=
  (List.nodup_reverse.mpr (lists _).nodup).filter _

end Selection

/-! ### The series -/

/-- The commits are the series since a rebasing merge: its copies and what was committed since,
but for what the upstream commit contains; the copies in their order, and everything behind what
it is built on. -/
structure IsSeries (b : Branch) (upstream : ℕ) (m : Rebasing) (commits : List ℕ) : Prop where
  mem_iff : ∀ c, c ∈ commits ↔ isMerge b.history c = false ∧
    ¬ Reaches b.history.parents upstream c ∧
    (c ∈ m.copies ∨ Reaches b.history.parents b.head c ∧ ¬ Reaches b.history.parents m.merge c)
  nodup : commits.Nodup
  copies : (commits.filter fun c => c ∈ m.copies) =
    m.copies.filter fun c => ¬ Reaches b.history.parents upstream c
  ancestors_first : commits.Pairwise fun c d => ¬ Reaches b.history.parents c d

section Series

variable {b₀ b : Branch} {revList : List ℕ → List ℕ} {upstream : ℕ} {m : Rebasing}

/-- Without force, the old tip of a rebasing merge does not contain the upstream commit. -/
theorem apart_of_run (none : b₀.rebasings = []) (run : RunOf Branch.Step Unforced b₀ b) :
    ∀ m ∈ b.rebasings, ¬ Reaches b.history.parents m.old m.onto := by
  refine (run.invariant (fun b => Rebasings b ∧
    ∀ m ∈ b.rebasings, ¬ Reaches b.history.parents m.old m.onto) ⟨?_, ?_⟩ ?_).2
  · exact rebasings_of_run none (RunOf.refl (C := Unforced))
  · intro m inside
    rw [none] at inside
    cases inside
  · rintro b operation b' ⟨rebasings, apart⟩ unforced taken
    refine ⟨rebasings.step taken, ?_⟩
    have kept {b' : Branch} (more : Grows b.history b'.history) :
        ∀ m ∈ b.rebasings, ¬ Reaches b'.history.parents m.old m.onto := fun m inside reaches =>
      apart m inside ((more.reaches (Nat.lt_trans (rebasings.lays m inside).old_lt
        (rebasings.lays m inside).early)).mp reaches)
    rcases grew_of_step taken with ⟨call, rfl, ran⟩ | ⟨grew, -⟩
    · obtain ⟨news, more, -, -, same | ⟨copies, new, -⟩⟩ := rebasingMerge_inv ran
      · rw [same]
        exact kept more
      · rw [new]
        intro m inside
        rcases List.mem_cons.mp inside with rfl | inside
        · exact fun reaches => news unforced ((more.reaches b.head_lt).mp reaches)
        · exact kept more m inside
    · rw [grew.rebasings]
      exact kept grew.history

/-- Two lists of the same commits that both have ancestors first are the same where the commits
lie in a line. -/
theorem filter_copies {h : History} {onto tip : ℕ} {copies commits : List ℕ}
    (laid : Laid h onto tip copies) (nodup : commits.Nodup)
    (ancestors_first : commits.Pairwise fun c d => ¬ Reaches h.parents c d) {P : ℕ → Prop}
    [DecidablePred P] (same : ∀ c ∈ copies, c ∈ commits ↔ P c) :
    (commits.filter fun c => c ∈ copies) = copies.filter fun c => P c := by
  have increasing : copies.Pairwise (· < ·) := laid.ordered.imp fun both => both.1
  have total : ∀ c ∈ copies, ∀ d ∈ copies, c < d → Reaches h.parents d c := by
    intro c first d second less
    have ordered := laid.ordered
    obtain ⟨before, after, rfl⟩ := List.append_of_mem first
    rcases List.mem_append.mp second with earlier | later
    · have := ((List.pairwise_append.mp ordered).2.2 d earlier c List.mem_cons_self).1
      omega
    · rcases List.mem_cons.mp later with rfl | later
      · exact Reaches.refl _
      · exact ((List.pairwise_cons.mp (List.pairwise_append.mp ordered).2.1).1 d later).2
  refine @List.Perm.eq_of_pairwise ℕ (· < ·) _ _ ?_ ?_ (increasing.filter _) ?_
  · exact fun c d _ _ less more => absurd less (Nat.lt_asymm more)
  · refine List.Pairwise.imp_of_mem ?_
      ((ancestors_first.filter fun c => c ∈ copies).and (nodup.filter _))
    intro c d first second both
    have in_line : c ∈ copies := of_decide_eq_true (List.mem_filter.mp first).2
    have in_line' : d ∈ copies := of_decide_eq_true (List.mem_filter.mp second).2
    by_contra not_less
    have more : d < c := Nat.lt_of_le_of_ne (Nat.le_of_not_lt not_less) (Ne.symm both.2)
    exact both.1 (total d in_line' c in_line more)
  · refine (List.perm_ext_iff_of_nodup (nodup.filter _)
      ((increasing.imp fun less => Nat.ne_of_lt less).filter _)).mpr fun c => ?_
    simp only [List.mem_filter, decide_eq_true_eq]
    constructor
    · rintro ⟨inside, copy⟩
      exact ⟨copy, (same c copy).mp inside⟩
    · rintro ⟨copy, holds⟩
      exact ⟨(same c copy).mpr holds, copy⟩

end Series

/-! ### Two branches -/

/-- One way to show the commits: the latest first. -/
def Branch.latestOutside (b : Branch) (bases : List ℕ) : List ℕ :=
  (List.range (b.head + 1)).reverse.filter fun c =>
    Reaches b.history.parents b.head c && bases.all fun base => !Reaches b.history.parents base c

theorem lists_latestOutside (b : Branch) : Lists b b.latestOutside := fun bases => by
  have decreasing : (List.range (b.head + 1)).reverse.Pairwise (· > ·) :=
    List.pairwise_reverse.mpr List.pairwise_lt_range
  refine ⟨(decreasing.imp fun more => Nat.ne_of_gt more).filter _, fun c => ?_,
    (decreasing.imp fun more reaches => ?_).filter _⟩
  · rw [Branch.latestOutside, List.mem_filter, List.mem_reverse, List.mem_range, Bool.and_eq_true,
      List.all_eq_true, decide_eq_true_eq]
    simp only [Bool.not_eq_true', decide_eq_false_iff_not]
    exact ⟨fun both => both.2, fun outside =>
      ⟨Nat.lt_succ_of_le (outside.1.le b.history.parents_older), outside⟩⟩
  · exact Nat.not_le_of_gt more (reaches.le b.history.parents_older)

/-- A branch at the first commit of its upstream. -/
def Branch.first : Branch where
  history := Repo.first.history
  head := 0
  head_lt := Nat.zero_lt_one
  rebasings := []

/-- The script on a commit that is checked out; all lines come out alike. -/
def Branch.call (b : Branch) (force : Bool) (upstream : ℕ) (picked : Picked) : Operation :=
  .rebasing ⟨force, .detached, upstream, b.latestOutside, ⟨[], fun _ => [], fun _ => []⟩,
    List.map fun c => (c, picked)⟩

/-- A patch (1), and a new upstream commit (2). -/
def behind : Branch :=
  (perform Branch.perform Unforced Branch.first [.commit 1 [], .elsewhere ⟨[0], 2, []⟩]).get
    (by decide)

/-- The patch is copied (3) and a rebasing merge is made (4). -/
def carried : Branch :=
  (perform Branch.perform Unforced behind [behind.call false 2 (.copied 3 [])]).get (by decide)

/-- Another patch (5), and a new upstream commit (6). -/
def followed : Branch :=
  (perform Branch.perform Unforced carried [.commit 5 [], .elsewhere ⟨[2], 6, []⟩]).get (by decide)

/-- The script is run once more for the same upstream commit, by force (5); then there is a new
one (6). -/
def forced : Branch :=
  (perform Branch.perform (fun _ _ => True) carried
    [carried.call true 2 .fastForward, .elsewhere ⟨[2], 6, []⟩]).get (by decide)

theorem run_carried : RunOf Branch.Step Unforced Branch.first carried :=
  RunOf.of_perform _ (RunOf.of_perform _ RunOf.refl (Option.some_get _).symm)
    (Option.some_get _).symm

theorem run_followed : RunOf Branch.Step Unforced Branch.first followed :=
  RunOf.of_perform _ run_carried (Option.some_get _).symm

theorem run_forced : RunOf Branch.Step (fun _ _ => True) Branch.first forced :=
  RunOf.of_perform _ (run_carried.map id (fun _ _ _ taken => taken) fun _ _ _ => trivial)
    (Option.some_get _).symm

/-- After the forced run the old tip contains the copy, and it is left out. -/
theorem forced_leaves_out : lastRebasing forced 6 = some ⟨5, 2, 4, [3]⟩ ∧
    ¬ Reaches forced.history.parents 6 3 ∧ picks forced.history forced.latestOutside 6 = [] := by
  decide

end MsysGit.RebasingMerge
