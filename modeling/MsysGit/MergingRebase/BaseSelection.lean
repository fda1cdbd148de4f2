import MsysGit.MergingRebase.History

/-!
# The base of a merging-rebase

`rebasingBase` is the part of `merging-rebase.sh` that looks for the previous
merging-rebase: the first merge of `TO..HEAD` whose tree is that of its first parent.
The commits to be rebased are those after it (`handed`).

A start has that shape, but so has any merge that brought nothing new.  The start is
found in every order of the commits exactly when all other such merges are older
(`selectsStart_iff`).
-/

namespace MsysGit.MergingRebase

open MsysGit.Library

/-! ### The script -/

section Script

variable (h : History)

/-- A merge has more than one parent. -/
def isMerge (c : ℕ) : Bool := 2 ≤ (h.parents c).length

/-- The tree is that of the first parent. -/
def isOursMerge (c : ℕ) : Bool := h.tree c = h.tree ((h.parents c).headD 0)

/-- The merges among the commits that `rev-list` shows. -/
def listMerges (revList : List ℕ) : List ℕ := revList.filter (isMerge h)

/-- The loop that finds the old merging-rebase, if any. -/
def findRebase : List ℕ → Option ℕ
  | [] => none
  | commit :: commits => if isOursMerge h commit then some commit else findRebase commits

/-- How the message of a merging-rebase of the old style begins. -/
def oldTitle : Text := "Rebasing merge to ".toList

/-- `s/Rebasing merge .*(\(.*\))/\1/` on the first line of such a message: what stands
in the last parentheses, and what follows them. -/
def previousOnto (message : Text) : Text :=
  let line := message.takeWhile (· ≠ '\n')
  let tail := (line.reverse.takeWhile (· ≠ ')')).reverse
  let front := (line.reverse.dropWhile (· ≠ ')')).tail.reverse
  if ')' ∈ line ∧ '(' ∈ front then (front.reverse.takeWhile (· ≠ '(')).reverse ++ tail else []

/-- The base: none, a commit, or for the old style a throw-away commit with these two
parents. -/
inductive Base
  | unset
  | commit (c : ℕ)
  | dummy (onto rebasing : ℕ)
  deriving DecidableEq

/-- `REBASING_BASE`.  `revParse` names the commit that an old message speaks of. -/
def rebasingBase (revParse : Text → ℕ) (revList : List ℕ) : Base :=
  match findRebase h (listMerges h revList) with
  | none => .unset
  | some commit =>
      if oldTitle.isPrefixOf (h.message commit) then
        .dummy (revParse (previousOnto (h.message commit))) ((h.parents commit).getD 1 0)
      else .commit commit

/-- The commits that a base contains; without a base, those of the upstream commit. -/
def Base.Contains (upstream c : ℕ) : Base → Prop
  | unset => Reaches h.parents upstream c
  | commit b => Reaches h.parents b c
  | dummy onto rebasing => Reaches h.parents onto c ∨ Reaches h.parents rebasing c

/-- The commits handed to `git rebase -i`: those of the branch that are no merges and
not in the base. -/
def Handed (head upstream : ℕ) (base : Base) (c : ℕ) : Prop :=
  isMerge h c = false ∧ Reaches h.parents head c ∧ ¬ base.Contains h upstream c

end Script

/-! ### What it is meant to find -/

section Meant

variable (r : Repo) (upstream : ℕ)

open Classical in
/-- The start of the most recent merging-rebase that the upstream commit does not
contain. -/
noncomputable def lastStart : Option ℕ :=
  r.starts.find? fun s => ¬ Reaches r.history.parents upstream s

/-- The commits to be rebased: those made since that start, or since the upstream
commit if there is none. -/
def Since (c : ℕ) : Prop :=
  isMerge r.history c = false ∧ Reaches r.history.parents r.head c ∧
    ¬ Reaches r.history.parents ((lastStart r upstream).getD upstream) c

/-- The script selects the last start, and hands on exactly the commits since. -/
def SelectsStart (revParse : Text → ℕ) (revList : List ℕ) : Prop :=
  let base := rebasingBase r.history revParse revList
  base = (lastStart r upstream).elim .unset .commit ∧
    ∀ c, Handed r.history r.head upstream base c ↔ Since r upstream c

/-- The other merges of the range with the tree of their first parent are contained in
the last start. -/
def OthersOlder : Prop :=
  ∀ c, InRange r.history.parents upstream r.head c → isMerge r.history c = true →
    isOursMerge r.history c = true → c ∉ r.starts →
      ∃ s, lastStart r upstream = some s ∧ Reaches r.history.parents s c

end Meant

/-! ### The loop -/

section Loop

variable {h : History}

theorem findRebase_eq_none {commits : List ℕ} :
    findRebase h commits = none ↔ ∀ c ∈ commits, isOursMerge h c = false := by
  induction commits with
  | nil => simp [findRebase]
  | cons commit commits ih =>
      rw [findRebase]
      by_cases ours : isOursMerge h commit = true
      · simp [ours]
      · simp [ours, ih]

/-- What is found is the first of its kind. -/
theorem findRebase_append {first rest : List ℕ} (none : ∀ c ∈ first, isOursMerge h c = false) :
    findRebase h (first ++ rest) = findRebase h rest := by
  induction first with
  | nil => rfl
  | cons commit first ih =>
      have here := none commit List.mem_cons_self
      rw [List.cons_append, findRebase, here]
      exact ih fun c inside => none c (List.mem_cons_of_mem _ inside)

/-- When one of the first commits has the shape, one of them is found. -/
theorem findRebase_of_first {first : List ℕ} (rest : List ℕ) {c : ℕ} (inside : c ∈ first)
    (ours : isOursMerge h c = true) :
    ∃ d ∈ first, findRebase h (first ++ rest) = some d := by
  induction first with
  | nil => cases inside
  | cons commit first ih =>
      rw [List.cons_append, findRebase]
      by_cases here : isOursMerge h commit = true
      · exact ⟨commit, List.mem_cons_self, if_pos here⟩
      · rcases List.mem_cons.mp inside with rfl | inside
        · exact absurd ours here
        · obtain ⟨d, later, found⟩ := ih inside
          exact ⟨d, List.mem_cons_of_mem _ later, by rw [if_neg here, found]⟩

end Loop

/-! ### The last start -/

section LastStart

variable {r : Repo} {upstream s c : ℕ}

theorem IsStart.isMerge {h : History} (start : IsStart h s) : isMerge h s = true := by
  obtain ⟨upstream, old, parents, _⟩ := start.parents
  rw [MergingRebase.isMerge, parents]
  rfl

theorem IsStart.isOursMerge {h : History} (start : IsStart h s) : isOursMerge h s = true := by
  obtain ⟨upstream, old, parents, tree⟩ := start.parents
  rw [MergingRebase.isOursMerge, parents, tree]
  exact decide_eq_true rfl

/-- A start is not of the old style. -/
theorem IsStart.not_old {h : History} (start : IsStart h s) :
    oldTitle.isPrefixOf (h.message s) = false := by
  obtain ⟨rest, message⟩ := start.message
  rw [← message]
  rfl

theorem lastStart_mem (last : lastStart r upstream = some s) :
    s ∈ r.starts ∧ ¬ Reaches r.history.parents upstream s := by
  refine ⟨List.mem_of_find?_eq_some last, ?_⟩
  simpa using List.find?_some last

/-- The last start contains every other start of the range. -/
theorem reaches_of_start (starts : Starts r) (last : lastStart r upstream = some s)
    (start : c ∈ r.starts) (range : ¬ Reaches r.history.parents upstream c) :
    Reaches r.history.parents s c := by
  obtain ⟨_, later, earlier, split, contained⟩ := List.find?_eq_some_iff_append.mp last
  have ordered := starts.ordered
  rw [split] at start ordered
  rcases List.mem_append.mp start with before | after
  · exact absurd (by simpa using contained c before) range
  · rcases List.mem_cons.mp after with rfl | after
    · exact Reaches.refl _
    · exact (List.pairwise_cons.mp (List.pairwise_append.mp ordered).2.1).1 c after

theorem contained_of_no_lastStart (none : lastStart r upstream = none) (start : c ∈ r.starts) :
    Reaches r.history.parents upstream c := by
  simpa using List.find?_eq_none.mp none c start

end LastStart

/-! ### Which commit is selected -/

section Selection

variable {r : Repo} {upstream : ℕ} {revParse : Text → ℕ} {revList : List ℕ}

theorem selectsStart_of_none (older : OthersOlder r upstream)
    (listing : IsListing r.history.parents upstream r.head revList)
    (none : lastStart r upstream = none) : SelectsStart r upstream revParse revList := by
  have nothing : findRebase r.history (listMerges r.history revList) = .none := by
    rw [findRebase_eq_none]
    intro c inside
    obtain ⟨inside, merge⟩ := List.mem_filter.mp inside
    have range := (listing.mem_iff c).mp inside
    rw [← Bool.not_eq_true]
    intro ours
    by_cases start : c ∈ r.starts
    · exact range.2 (contained_of_no_lastStart none start)
    · obtain ⟨s, last, _⟩ := older c range merge ours start
      rw [none] at last
      cases last
  have base : rebasingBase r.history revParse revList = .unset := by
    rw [rebasingBase, nothing]
  rw [SelectsStart, base, none]
  refine ⟨rfl, fun c => ?_⟩
  rw [Since, none]
  exact Iff.rfl

theorem selectsStart_of_some (starts : Starts r) (older : OthersOlder r upstream)
    (listing : IsListing r.history.parents upstream r.head revList) {s : ℕ}
    (last : lastStart r upstream = some s) : SelectsStart r upstream revParse revList := by
  obtain ⟨is_start, range⟩ := lastStart_mem last
  have start := (starts.isStart s is_start).2
  have inside : s ∈ revList := (listing.mem_iff s).mpr ⟨starts.reached s is_start, range⟩
  obtain ⟨first, rest, split⟩ := List.append_of_mem inside
  -- A commit listed before the last start is not an ancestor of it, so it is no other start.
  have none_before : ∀ c ∈ first.filter (isMerge r.history), isOursMerge r.history c = false := by
    intro c before
    obtain ⟨before, merge⟩ := List.mem_filter.mp before
    have range := (listing.mem_iff c).mp (by rw [split]; exact List.mem_append_left _ before)
    have apart : ¬ Reaches r.history.parents s c := by
      have order := listing.descendants_first
      rw [split] at order
      exact (List.pairwise_append.mp order).2.2 c before s List.mem_cons_self
    rw [← Bool.not_eq_true]
    intro ours
    by_cases other : c ∈ r.starts
    · exact apart (reaches_of_start starts last other range.2)
    · obtain ⟨s', last', reaches⟩ := older c range merge ours other
      rw [last] at last'
      obtain rfl := Option.some.inj last'
      exact apart reaches
  have found : findRebase r.history (listMerges r.history revList) = some s := by
    rw [listMerges, split, List.filter_append, findRebase_append none_before,
      List.filter_cons_of_pos start.isMerge, findRebase, if_pos start.isOursMerge]
  have base : rebasingBase r.history revParse revList = .commit s := by
    rw [rebasingBase, found]
    exact if_neg (by rw [start.not_old]; exact Bool.false_ne_true)
  rw [SelectsStart, base, last]
  refine ⟨rfl, fun c => ?_⟩
  rw [Since, last]
  exact Iff.rfl

/-- Whatever `rev-list` does within its freedom, the script finds the last start. -/
theorem selectsStart_of_othersOlder (starts : Starts r) (older : OthersOlder r upstream)
    (listing : IsListing r.history.parents upstream r.head revList) :
    SelectsStart r upstream revParse revList := by
  cases last : lastStart r upstream with
  | none => exact selectsStart_of_none older listing last
  | some s => exact selectsStart_of_some starts older listing last

/-- A merge with the tree of its first parent that the last start does not contain can
be listed first, and is then taken for it. -/
theorem exists_not_selectsStart (revParse : Text → ℕ) {c : ℕ}
    (range : InRange r.history.parents upstream r.head c) (merge : isMerge r.history c = true)
    (ours : isOursMerge r.history c = true)
    (newer : ∀ s, lastStart r upstream = some s → ¬ Reaches r.history.parents s c) :
    ∃ revList, IsListing r.history.parents upstream r.head revList ∧
      ¬ SelectsStart r upstream revParse revList := by
  obtain ⟨first, rest, listing, in_first⟩ :=
    exists_listing r.history.parents_older upstream r.head c
  refine ⟨first ++ rest, listing, fun selects => ?_⟩
  have inside : c ∈ first.filter (isMerge r.history) :=
    List.mem_filter.mpr ⟨(in_first c).mpr ⟨range, Reaches.refl c⟩, merge⟩
  obtain ⟨d, found_in, found⟩ :=
    findRebase_of_first (rest.filter (isMerge r.history)) inside ours
  rw [← List.filter_append] at found
  have descendant := ((in_first d).mp (List.mem_of_mem_filter found_in)).2
  have base := selects.1
  rw [rebasingBase, listMerges, found] at base
  dsimp only at base
  cases last : lastStart r upstream with
  | none =>
      rw [last] at base
      split at base <;> cases base
  | some s =>
      rw [last] at base
      split at base
      · cases base
      · have same : d = s := Base.commit.inj base
        exact newer s last (same ▸ descendant)

/-- **When the script selects the last start.**  On a branch made by any number of
commits, merges and merging-rebases, the base is the last start that the upstream
commit does not contain, in whatever order `rev-list` shows the commits, exactly when
that start contains every other merge of the range with the tree of its first parent. -/
theorem selectsStart_iff {r₀ : Repo} (none : r₀.starts = [])
    (run : RunOf Repo.Step (fun _ _ => True) r₀ r) (revParse : Text → ℕ) (upstream : ℕ) :
    (∀ revList, IsListing r.history.parents upstream r.head revList →
      SelectsStart r upstream revParse revList) ↔ OthersOlder r upstream := by
  constructor
  · intro selects c range merge ours _
    by_contra newer
    obtain ⟨revList, listing, fails⟩ := exists_not_selectsStart revParse range merge ours
      fun s last reaches => newer ⟨s, last, reaches⟩
    exact fails (selects revList listing)
  · intro older revList listing
    exact selectsStart_of_othersOlder (Starts.run none run) older listing

end Selection

/-! ### Two branches -/

/-- A branch at the first commit of its upstream. -/
def Repo.first : Repo where
  history := ⟨[⟨[], 0, []⟩], by
    intro c commit found p parent
    cases c with
    | zero =>
        obtain rfl := Option.some.inj found
        cases parent
    | succ c => cases found⟩
  head := 0
  starts := []
  head_lt := Nat.zero_lt_one

/-- A patch (1), a merging-rebase (3) onto an upstream commit (2), another patch (4), and
a new upstream commit (5). -/
def twoPatches : List Operation :=
  [.commit 1 [], .elsewhere ⟨[0], 2, []⟩, .mergingRebase 2 [] [] [] [], .commit 3 [],
    .elsewhere ⟨[2], 4, []⟩]

/-- After that a topic (6) whose changes are already there is merged (7). -/
def emptyMerge : List Operation := twoPatches ++ [.elsewhere ⟨[2], 5, []⟩, .merge [6] 3 []]

/-- The first branch. -/
def rebased : Repo :=
  (perform Repo.perform (fun _ _ => True) Repo.first twoPatches).get (by decide)

/-- The second branch. -/
def merged : Repo :=
  (perform Repo.perform (fun _ _ => True) Repo.first emptyMerge).get (by decide)

theorem run_rebased : RunOf Repo.Step (fun _ _ => True) Repo.first rebased :=
  RunOf.of_perform twoPatches RunOf.refl (Option.some_get _).symm

theorem run_merged : RunOf Repo.Step (fun _ _ => True) Repo.first merged :=
  RunOf.of_perform emptyMerge RunOf.refl (Option.some_get _).symm

/-- On the first branch the script always finds the start. -/
theorem selectsStart_rebased : OthersOlder rebased 5 ∧
    ∀ revList, IsListing rebased.history.parents 5 rebased.head revList →
      SelectsStart rebased 5 List.length revList := by
  have older : OthersOlder rebased 5 := by
    intro c range merge _ other
    have early : c ≤ 4 := range.1.le (History.parents_older _)
    have only : ∀ c ≤ 4, isMerge rebased.history c = true → c ∈ rebased.starts := by decide
    exact absurd (only c early merge) other
  exact ⟨older, (selectsStart_iff rfl run_rebased List.length 5).mpr older⟩

/-- On the second, the merge of the topic can be taken for it, and then the patch before
that merge is left out. -/
theorem not_selectsStart_merged : ¬ ∀ r₀ r : Repo, r₀.starts = [] →
    RunOf Repo.Step (fun _ _ => True) r₀ r → ∀ upstream revList,
      IsListing r.history.parents upstream r.head revList →
        SelectsStart r upstream List.length revList := by
  intro all
  have range : InRange merged.history.parents 5 merged.head 7 := by
    refine ⟨Reaches.refl 7, fun reaches => ?_⟩
    have early : 7 ≤ 5 := reaches.le (History.parents_older _)
    omega
  have newer : ∀ s, lastStart merged 5 = some s →
      ¬ Reaches merged.history.parents s 7 := by
    intro s last reaches
    have only : ∀ s ∈ merged.starts, s < 7 := by decide
    have late : 7 ≤ s := reaches.le (History.parents_older _)
    have early := only s (lastStart_mem last).1
    omega
  obtain ⟨revList, listing, fails⟩ := exists_not_selectsStart List.length range (by decide)
    (by decide) newer
  exact fails (all .first merged rfl run_merged 5 revList listing)

end MsysGit.MergingRebase
