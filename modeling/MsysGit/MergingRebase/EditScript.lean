import MsysGit.MergingRebase.BaseSelection

/-!
# The edit script of a merging-rebase

`merging-rebase.sh` puts two `exec` lines in front of the patches that
`git rebase -i` lists: reset to the upstream commit, and merge the old tip with the
strategy `ours`.  The user may then drop, reorder, meld or edit the patches in any
way.

The old tip is written as an abbreviated number, but the upstream commit by the name that
was given.  When the line is run the shell reads that name again, and git looks it up
again, after `HEAD` has moved to the base.  If it still is the upstream commit, the result
contains both, whatever is done to the patches: every patch leaves a tip *beyond* both,
one of whose parents contains them, so that even amending it cannot lose them.
`keepsBoth_iff` says what the line may lead to otherwise.

What git does to the graph is modelled as documented.  The upstream commit is the one
that `TO` names when the script is run.
-/

namespace MsysGit.MergingRebase

open MsysGit.Library

instance (h : History) (c d : ℕ) : Decidable (Reaches h.parents c d) :=
  decidable_of_iff (reachesWithin h.parents c c d = true)
    (reachesWithin_iff h.parents_older (Nat.le_refl c))

instance (h : History) (base head c : ℕ) : Decidable (InRange h.parents base head c) :=
  inferInstanceAs (Decidable (Reaches h.parents head c ∧ ¬ Reaches h.parents base c))

/-! ### The lines -/

/-- What a patch does to the tip: it is already on it, it is committed, or what is there
is amended (`fixup`, `squash`, `edit`), each with any resulting tree.  A patch that is
skipped or dropped does nothing. -/
inductive Outcome
  | fastForward
  | commit (tree : ℕ) (message : Text)
  | amend (tree : ℕ) (message : Text)

/-- A line of the edit script.  The name behind `git reset --hard` is not read yet. -/
inductive Line
  | execReset (target : Text)
  | execMerge (message : Text) (other : ℕ)
  | patch (commit : ℕ) (outcomes : List Outcome)

/-- A patch of the list, with what comes of it. -/
structure Patch where
  commit : ℕ
  outcomes : List Outcome

/-- The lines that the script puts in front. -/
def todoExtra (target message : Text) (old : ℕ) : List Line :=
  [.execReset target, .execMerge message old]

/-- Only letters, digits and characters of paths: nothing that the shell would change. -/
def isPlainName (name : Text) : Bool :=
  name ≠ [] && name.all fun c => c.isAlphanum || c ∈ ['/', '.', '_', '-']

/-- How the shell and git read a name. -/
structure Tools where
  /-- `git rev-parse`, which may look at `HEAD`. -/
  revParse : Repo → Text → Option ℕ
  /-- The commit to which the shell's `git reset --hard` with this text behind it comes, if it
  does not fail.  The shell may change the text, divide it or take a part of it for another
  command. -/
  target : Repo → Text → Option ℕ
  plain : ∀ r name, isPlainName name = true → target r name = revParse r name

namespace Repo

variable (r : Repo)

/-- `git reset --hard`. -/
def resetHard (c : ℕ) : Option Repo :=
  if known : c < r.history.size then some { r with head := c, head_lt := known } else none

/-- `git merge -s ours`: nothing is done when the other commit is already contained. -/
def mergeOurs (message : Text) (other : ℕ) : Option Repo :=
  if Reaches r.history.parents r.head other then some r
  else if known : ∀ p ∈ [r.head, other], p < r.history.size then
    some (r.advance ⟨[r.head, other], r.history.tree r.head, message⟩ known)
  else none

/-- One outcome of a patch.  A patch is on the tip already when the tip is its parent. -/
def outcome (patch : ℕ) : Outcome → Option Repo
  | .fastForward => if r.history.parents patch = [r.head] then r.resetHard patch else none
  | .commit tree message =>
      some (r.advance ⟨[r.head], tree, message⟩ (r.head_known tree message))
  | .amend tree message =>
      some (r.advance ⟨r.history.parents r.head, tree, message⟩ fun p parent =>
        Nat.lt_trans (r.history.parents_older r.head p parent) r.head_lt)

/-- One line. -/
def line (tools : Tools) (r : Repo) : Line → Option Repo
  | .execReset target => (tools.target r target).bind r.resetHard
  | .execMerge message other => r.mergeOurs message other
  | .patch commit outcomes => outcomes.foldlM (fun r => r.outcome commit) r

/-- The base is checked out before the first line.  For a merging-rebase of the old style
it is made first, with the tree of the upstream commit. -/
def checkoutBase (upstream : ℕ) : Base → Option Repo
  | .unset => r.resetHard upstream
  | .commit base => r.resetHard base
  | .dummy onto rebasing =>
      if known : ∀ p ∈ [onto, rebasing], p < r.history.size then
        some (r.advance ⟨[onto, rebasing], r.history.tree upstream, "Dummy\n".toList⟩ known)
      else none

end Repo

/-! ### The script -/

/-- How commits are named in messages. -/
structure Names where
  /-- `$TO`, as it was given. -/
  target : Text
  short : ℕ → Text
  full : ℕ → Text
  /-- What `git rev-parse` makes of the name in an old message. -/
  revParse : Text → ℕ

section Script

variable (tools : Tools) (names : Names) (r : Repo) (upstream : ℕ) (revList : List ℕ)

/-- `BASE_MESSAGE`. -/
def baseMessage : Text :=
  match findRebase r.history (listMerges r.history revList) with
  | none => []
  | some commit =>
      if oldTitle.isPrefixOf (r.history.message commit) then
        "using the rebasing merge ".toList ++ names.full commit ++ ".".toList
      else "using ".toList ++ names.full commit ++ " as base.".toList

/-- The message of the commit that the second line makes. -/
def todoMessage : Text :=
  startMessage names.target (names.short r.head) (names.short upstream)
    (baseMessage names r revList)

/-- The branch when the lines in front have been run: what the first patch is applied to. -/
def prepare : Option Repo :=
  (r.checkoutBase upstream (rebasingBase r.history names.revParse revList)).bind
    ((todoExtra names.target (todoMessage names r upstream revList) r.head).foldlM
      (Repo.line tools))

/-- The patches that are left, in the order in which they are left. -/
def applyPatches (patches : List Patch) (r : Repo) : Option Repo :=
  (patches.map fun patch => .patch patch.commit patch.outcomes).foldlM (Repo.line tools) r

/-- Only patches that `git rebase -i` listed are applied. -/
def Listed (patches : List Patch) : Prop :=
  ∀ patch ∈ patches, Handed r.history r.head upstream
    (rebasingBase r.history names.revParse revList) patch.commit

/-- Some patch can be listed. -/
def SomeHanded : Prop :=
  ∃ c, Handed r.history r.head upstream (rebasingBase r.history names.revParse revList) c

/-- **A merging-rebase can be fast-forwarded to.**  Whatever is done to the listed patches,
the first of them is applied to a commit with the tree of the upstream commit, and the
tip in the end contains the old tip and the upstream commit. -/
def KeepsBoth : Prop :=
  ∀ first patches tip, Listed names r upstream revList patches →
    prepare tools names r upstream revList = some first →
    applyPatches tools patches first = some tip →
    first.history.tree first.head = r.history.tree upstream ∧
      Reaches tip.history.parents tip.head r.head ∧
      Reaches tip.history.parents tip.head upstream

end Script

/-! ### Beyond a commit -/

/-- A parent of `x` contains the commit. -/
def History.Beyond (h : History) (x c : ℕ) : Prop := ∃ p ∈ h.parents x, Reaches h.parents p c

/-- A parent of the tip contains the commit. -/
def Repo.Beyond (r : Repo) (c : ℕ) : Prop := r.history.Beyond r.head c

/-- A commit that the first line may lead to, when the base has been checked out.  Beside the
old tip, it is merged; if it contains the old tip it is not, and the first patch can amend it. -/
structure SafeTarget (s : Repo) (old upstream : ℕ) (handed : Prop) (x : ℕ) : Prop where
  tree : s.history.tree x = s.history.tree upstream
  contained : Reaches s.history.parents x old → Reaches s.history.parents x upstream ∧
    (handed → s.history.Beyond x old ∧ s.history.Beyond x upstream)
  beside : ¬ Reaches s.history.parents x old →
    Reaches s.history.parents x upstream ∨ Reaches s.history.parents old upstream

namespace Repo

variable {tools : Tools} {r s : Repo} {c d : ℕ}

theorem Beyond.reaches (beyond : r.Beyond c) : Reaches r.history.parents r.head c := by
  obtain ⟨p, parent, reaches⟩ := beyond
  exact Reaches.of_parent parent reaches

section Advance

variable {commit : Commit} {known : ∀ p ∈ commit.parents, p < r.history.size}

/-- A new tip is beyond what its parents contained. -/
theorem beyond_advance_iff :
    (r.advance commit known).Beyond c ↔ ∃ p ∈ commit.parents, Reaches r.history.parents p c := by
  have parents : (r.advance commit known).history.parents (r.advance commit known).head =
      commit.parents := History.parents_add_size known
  rw [Beyond, History.Beyond, parents]
  refine exists_congr fun p => and_congr_right fun parent => ?_
  exact History.reaches_add known (known p parent)

theorem Beyond.of_advance {p : ℕ} (parent : p ∈ commit.parents)
    (reaches : Reaches r.history.parents p c) : (r.advance commit known).Beyond c :=
  beyond_advance_iff.mpr ⟨p, parent, reaches⟩

/-- It contains nothing else that was there. -/
theorem exists_parent_of_advance (early : c < r.history.size)
    (reaches : Reaches (r.advance commit known).history.parents (r.advance commit known).head c) :
    ∃ p ∈ commit.parents, Reaches r.history.parents p c := by
  rcases Relation.ReflTransGen.cases_head reaches with same | ⟨p, parent, rest⟩
  · have new : (r.advance commit known).head = r.history.size := rfl
    exact absurd (new.symm.trans same) (Nat.ne_of_gt early)
  · exact beyond_advance_iff.mp ⟨p, parent, rest⟩

end Advance

theorem resetHard_eq (known : c < r.history.size) :
    r.resetHard c = some { r with head := c, head_lt := known } := dif_pos known

/-- **The step lemma**: whatever becomes of a patch, the tip stays beyond. -/
theorem Beyond.outcome (beyond : r.Beyond c) {patch : ℕ} {what : Outcome}
    (taken : r.outcome patch what = some s) : s.Beyond c := by
  cases what with
  | fastForward =>
      rw [Repo.outcome] at taken
      split at taken
      · rename_i onto
        rw [resetHard] at taken
        split at taken
        · obtain rfl := Option.some.inj taken
          refine ⟨r.head, ?_, beyond.reaches⟩
          show r.head ∈ r.history.parents patch
          rw [onto]
          exact List.mem_singleton_self _
        · cases taken
      · cases taken
  | commit tree message =>
      obtain rfl := Option.some.inj taken
      exact Beyond.of_advance (List.mem_singleton_self _) beyond.reaches
  | amend tree message =>
      obtain rfl := Option.some.inj taken
      obtain ⟨p, parent, reaches⟩ := beyond
      exact Beyond.of_advance parent reaches

/-- All the patches together. -/
theorem Beyond.applyPatches (beyond : r.Beyond c) {patches : List Patch}
    (applied : applyPatches tools patches r = some s) : s.Beyond c := by
  rw [MergingRebase.applyPatches, List.foldlM_map] at applied
  refine foldlM_invariant (fun r => r.Beyond c) (fun r patch s beyond taken => ?_) beyond applied
  exact foldlM_invariant (fun r => r.Beyond c)
    (fun r what s beyond taken => beyond.outcome taken) beyond taken

end Repo

/-! ### The lines in front -/

/-- A history with more commits. -/
structure History.Extends (h h' : History) : Prop where
  size : h.size ≤ h'.size
  parents : ∀ c < h.size, h'.parents c = h.parents c
  tree : ∀ c < h.size, h'.tree c = h.tree c

namespace History

variable {h h' : History}

theorem Extends.refl (h : History) : h.Extends h := ⟨Nat.le_refl _, fun _ _ => rfl, fun _ _ => rfl⟩

theorem Extends.add {commit : Commit} (known : ∀ p ∈ commit.parents, p < h.size) :
    h.Extends (h.add commit known) where
  size := by
    rw [size_add]
    exact Nat.le_succ _
  parents := fun _ early => parents_add_of_lt known early
  tree := fun _ early => tree_add_of_lt known early

theorem Extends.reaches (more : h.Extends h') {c d : ℕ} (early : c < h.size) :
    Reaches h'.parents c d ↔ Reaches h.parents c d :=
  reaches_congr h.parents_older more.parents early

end History

section Prepare

variable {tools : Tools} {names : Names} {r s first : Repo} {upstream x c : ℕ} {revList : List ℕ}
  {patches : List Patch}

theorem Repo.checkoutBase_extends {base : Base} {s : Repo}
    (done : r.checkoutBase upstream base = some s) : r.history.Extends s.history := by
  have reset : ∀ c, r.resetHard c = some s → r.history.Extends s.history := by
    intro c done
    rw [resetHard] at done
    split at done
    · obtain rfl := Option.some.inj done
      exact History.Extends.refl _
    · cases done
  cases base with
  | unset => exact reset upstream done
  | commit base => exact reset base done
  | dummy onto rebasing =>
      rw [checkoutBase] at done
      split at done
      · rename_i known
        obtain rfl := Option.some.inj done
        exact History.Extends.add known
      · cases done

/-- The old tip is still there. -/
theorem head_lt_of_checkout {base : Base} (checkedOut : r.checkoutBase upstream base = some s) :
    r.head < s.history.size :=
  Nat.lt_of_lt_of_le r.head_lt (Repo.checkoutBase_extends checkedOut).size

/-- The repository in which the first line has moved the tip. -/
def Repo.moved (s : Repo) (x : ℕ) (known : x < s.history.size) : Repo :=
  { s with head := x, head_lt := known }

/-- The first line moves the tip, the second is a merge into it. -/
theorem todoExtra_eq_some_iff {name message : Text} {old : ℕ} :
    (todoExtra name message old).foldlM (Repo.line tools) s = some first ↔
      ∃ x, tools.target s name = some x ∧ ∃ known : x < s.history.size,
        (s.moved x known).mergeOurs message old = some first := by
  rw [todoExtra, List.foldlM_cons, Repo.line]
  cases target : tools.target s name with
  | none => exact iff_of_false (fun ran => by cases ran) fun ⟨_, found, _⟩ => by cases found
  | some x =>
      by_cases known : x < s.history.size
      · have moved : (some x).bind s.resetHard = some (s.moved x known) := Repo.resetHard_eq known
        rw [moved]
        simp [Repo.line, known]
      · have stopped : (some x).bind s.resetHard = none := dif_neg known
        rw [stopped]
        refine iff_of_false (fun ran => by cases ran) ?_
        rintro ⟨y, same, there, -⟩
        obtain rfl := Option.some.inj same
        exact known there

theorem prepare_eq_some_iff :
    prepare tools names r upstream revList = some first ↔
      ∃ s, r.checkoutBase upstream (rebasingBase r.history names.revParse revList) = some s ∧
        ∃ x, tools.target s names.target = some x ∧ ∃ there : x < s.history.size,
          (s.moved x there).mergeOurs (todoMessage names r upstream revList) r.head =
            some first := by
  rw [prepare, Option.bind_eq_some_iff]
  exact exists_congr fun s => and_congr_right fun _ => todoExtra_eq_some_iff

section Merged

variable {known : x < s.history.size} {message : Text} {old : ℕ}

theorem mergeOurs_contained (contained : Reaches s.history.parents x old) :
    (s.moved x known).mergeOurs message old = some (s.moved x known) := if_pos contained

/-- The merge of the old tip, with the tree of the new one. -/
theorem mergeOurs_beside (beside : ¬ Reaches s.history.parents x old)
    (both : ∀ p ∈ [x, old], p < s.history.size) :
    (s.moved x known).mergeOurs message old =
      some ((s.moved x known).advance ⟨[x, old], s.history.tree x, message⟩ both) := by
  rw [Repo.mergeOurs]
  exact (if_neg beside).trans (dif_pos both)

end Merged

/-- **Whatever is done to the patches**, both commits are kept behind a safe target. -/
theorem keeps_of_safeTarget {tip : Repo} (known : upstream < r.history.size)
    (checkedOut :
      r.checkoutBase upstream (rebasingBase r.history names.revParse revList) = some s)
    {there : x < s.history.size}
    (safe : SafeTarget s r.head upstream (SomeHanded names r upstream revList) x)
    (listed : Listed names r upstream revList patches)
    (merged :
      (s.moved x there).mergeOurs (todoMessage names r upstream revList) r.head = some first)
    (applied : applyPatches tools patches first = some tip) :
    first.history.tree first.head = r.history.tree upstream ∧
      Reaches tip.history.parents tip.head r.head ∧
      Reaches tip.history.parents tip.head upstream := by
  have tree : s.history.tree x = r.history.tree upstream :=
    safe.tree.trans ((Repo.checkoutBase_extends checkedOut).tree upstream known)
  by_cases contained : Reaches s.history.parents x r.head
  · rw [mergeOurs_contained contained] at merged
    obtain rfl := Option.some.inj merged
    obtain ⟨reaches, amended⟩ := safe.contained contained
    refine ⟨tree, ?_⟩
    cases patches with
    | nil =>
        obtain rfl := Option.some.inj applied
        exact ⟨contained, reaches⟩
    | cons patch patches =>
        obtain ⟨old, new⟩ := amended ⟨patch.commit, listed patch List.mem_cons_self⟩
        have old : (s.moved x there).Beyond r.head := old
        have new : (s.moved x there).Beyond upstream := new
        exact ⟨(old.applyPatches applied).reaches, (new.applyPatches applied).reaches⟩
  · have both : ∀ p ∈ [x, r.head], p < s.history.size := by
      simp [there, head_lt_of_checkout checkedOut]
    rw [mergeOurs_beside contained both] at merged
    obtain rfl := Option.some.inj merged
    refine ⟨(History.tree_add_size both).trans tree, ?_⟩
    have kept {p c : ℕ} (parent : p ∈ [x, r.head]) (reaches : Reaches s.history.parents p c) :
        Reaches tip.history.parents tip.head c := by
      have beyond : ((s.moved x there).advance ⟨[x, r.head], s.history.tree x,
          todoMessage names r upstream revList⟩ both).Beyond c :=
        Repo.Beyond.of_advance parent reaches
      exact (beyond.applyPatches applied).reaches
    have second : r.head ∈ [x, r.head] := List.mem_cons_of_mem _ List.mem_cons_self
    exact ⟨kept second (Reaches.refl r.head),
      (safe.beside contained).elim (kept List.mem_cons_self) (kept second)⟩

/-- Where both are kept, the first line leads to a safe target. -/
theorem safeTarget_of_keeps (known : upstream < r.history.size)
    (checkedOut :
      r.checkoutBase upstream (rebasingBase r.history names.revParse revList) = some s)
    (target : tools.target s names.target = some x) (there : x < s.history.size)
    (keeps : KeepsBoth tools names r upstream revList) :
    SafeTarget s r.head upstream (SomeHanded names r upstream revList) x := by
  have more := Repo.checkoutBase_extends checkedOut
  have same_tree := more.tree upstream known
  have runs {first : Repo} (merged : (s.moved x there).mergeOurs
      (todoMessage names r upstream revList) r.head = some first) :
      prepare tools names r upstream revList = some first :=
    prepare_eq_some_iff.mpr ⟨s, checkedOut, x, target, there, merged⟩
  by_cases contained : Reaches s.history.parents x r.head
  · have ran := runs (mergeOurs_contained contained)
    obtain ⟨tree, -, reaches⟩ := keeps _ [] _ nofun ran rfl
    refine ⟨tree.trans same_tree.symm, fun _ => ⟨reaches, ?_⟩,
      fun beside => absurd contained beside⟩
    -- The first patch that is listed may amend the tip.
    rintro ⟨c, handed⟩
    obtain ⟨-, old, new⟩ := keeps _ [⟨c, [.amend 0 []]⟩] _ (List.forall_mem_singleton.mpr handed)
      ran rfl
    exact ⟨Repo.exists_parent_of_advance (head_lt_of_checkout checkedOut) old,
      Repo.exists_parent_of_advance (Nat.lt_of_lt_of_le known more.size) new⟩
  · have both : ∀ p ∈ [x, r.head], p < s.history.size := by
      simp [there, head_lt_of_checkout checkedOut]
    have ran := runs (mergeOurs_beside contained both)
    obtain ⟨tree, -, new⟩ := keeps _ [] _ nofun ran rfl
    refine ⟨(History.tree_add_size both).symm.trans (tree.trans same_tree.symm),
      fun reaches => absurd reaches contained, fun _ => ?_⟩
    obtain ⟨p, parent, reaches⟩ :=
      Repo.exists_parent_of_advance (Nat.lt_of_lt_of_le known more.size) new
    rcases List.mem_pair.mp parent with rfl | rfl
    · exact Or.inl reaches
    · exact Or.inr reaches

/-- Behind safe targets both are kept. -/
theorem keepsBoth_of_safeTarget (known : upstream < r.history.size)
    (safe : ∀ s, r.checkoutBase upstream (rebasingBase r.history names.revParse revList) = some s →
      ∀ x < s.history.size, tools.target s names.target = some x →
        SafeTarget s r.head upstream (SomeHanded names r upstream revList) x) :
    KeepsBoth tools names r upstream revList := by
  intro first patches tip listed prepared applied
  obtain ⟨s, checkedOut, x, target, there, merged⟩ := prepare_eq_some_iff.mp prepared
  exact keeps_of_safeTarget known checkedOut (safe s checkedOut x there target) listed merged
    applied

/-- **When both commits are kept**: exactly when the first line, if it resets at all, leads to
a safe target. -/
theorem keepsBoth_iff (known : upstream < r.history.size) :
    KeepsBoth tools names r upstream revList ↔
      ∀ s, r.checkoutBase upstream (rebasingBase r.history names.revParse revList) = some s →
        ∀ x < s.history.size, tools.target s names.target = some x →
          SafeTarget s r.head upstream (SomeHanded names r upstream revList) x := by
  refine ⟨fun keeps s checkedOut x there target => ?_, keepsBoth_of_safeTarget known⟩
  exact safeTarget_of_keeps known checkedOut target there keeps

/-! ### Names that keep their meaning -/

/-- When the upstream commit contains the old tip, there is nothing to rebase. -/
theorem not_someHanded (listing : IsListing r.history.parents upstream r.head revList)
    (contained : Reaches r.history.parents upstream r.head) :
    ¬ SomeHanded names r upstream revList := by
  rintro ⟨c, -, mine, since⟩
  have empty : revList = [] := by
    rw [List.eq_nil_iff_forall_not_mem]
    intro c inside
    have range := (listing.mem_iff c).mp inside
    exact range.2 (contained.trans range.1)
  have base : rebasingBase r.history names.revParse revList = .unset := by
    rw [empty]
    rfl
  rw [base] at since
  exact since (contained.trans mine)

/-- The upstream commit is a safe target. -/
theorem safeTarget_upstream (known : upstream < r.history.size)
    (listing : IsListing r.history.parents upstream r.head revList)
    (more : r.history.Extends s.history) :
    SafeTarget s r.head upstream (SomeHanded names r upstream revList) upstream where
  tree := rfl
  contained contained :=
    ⟨Reaches.refl upstream,
      fun handed => absurd handed (not_someHanded listing ((more.reaches known).mp contained))⟩
  beside _ := Or.inl (Reaches.refl upstream)

/-- **A plain name that still means the upstream commit** when the base has been checked out. -/
theorem keepsBoth_of_plain (known : upstream < r.history.size)
    (listing : IsListing r.history.parents upstream r.head revList)
    (plain : isPlainName names.target = true)
    (still : ∀ s, r.history.Extends s.history → tools.revParse s names.target = some upstream) :
    KeepsBoth tools names r upstream revList := by
  refine keepsBoth_of_safeTarget known fun s checkedOut x there target => ?_
  have more := Repo.checkoutBase_extends checkedOut
  rw [tools.plain s _ plain] at target
  obtain rfl := Option.some.inj ((still s more).symm.trans target)
  exact safeTarget_upstream known listing more

/-- What the operation of a merging-rebase does to the graph is what the two lines do, when
the name leads to the upstream commit, unless this contains the old tip. -/
theorem todoExtra_eq_rebase {name message : Text} (target : tools.target r name = some upstream)
    (new : ¬ Reaches r.history.parents upstream r.head)
    (known : ∀ p ∈ (r.start upstream message).parents, p < r.history.size)
    (done : (todoExtra name message r.head).foldlM (Repo.line tools) r = some first) :
    first.history = (r.rebase upstream message known).history ∧
      first.head = (r.rebase upstream message known).head := by
  obtain ⟨x, reset, there, merged⟩ := todoExtra_eq_some_iff.mp done
  obtain rfl := Option.some.inj (target.symm.trans reset)
  rw [mergeOurs_beside new known] at merged
  obtain rfl := Option.some.inj merged
  exact ⟨rfl, rfl⟩

end Prepare

/-! ### Two runs -/

/-- An upstream commit (1) and a patch (2) beside it; the patch is the tip. -/
def besideUpstream : List Operation := [.elsewhere ⟨[0], 1, []⟩, .commit 2 []]

/-- The tip with that patch. -/
def patched : Repo :=
  (perform Repo.perform (fun _ _ => True) Repo.first besideUpstream).get (by decide)

/-- Two commits on top of each other. -/
def linear : Repo :=
  (perform Repo.perform (fun _ _ => True) Repo.first [.commit 1 [], .commit 2 []]).get (by decide)

/-- Commits that go by no name; only the upstream commit is given one. -/
def Names.given (target : Text) : Names := ⟨target, fun _ => [], fun _ => [], List.length⟩

/-- The branch `next` is the commit 1, and `HEAD~1` is the parent of `HEAD`. -/
def twoRevisions (r : Repo) (name : Text) : Option ℕ :=
  if name = "next".toList then some 1
  else if name = "HEAD~1".toList then (r.history.parents r.head).head?
  else none

/-- Neither name means anything to the shell. -/
def twoNames : Tools where
  revParse := twoRevisions
  target := twoRevisions
  plain _ _ _ := rfl

/-- In both, the commit 2 is what 1 does not contain. -/
theorem isListing_two {r : Repo} (head : r.head = 2)
    (small : ∀ c ≤ 2, c ∈ [2] ↔ InRange r.history.parents 1 2 c) :
    IsListing r.history.parents 1 r.head [2] := by
  refine ⟨List.nodup_singleton 2, fun c => ?_, List.pairwise_singleton _ _⟩
  rw [head]
  constructor
  · intro inside
    obtain rfl := List.mem_singleton.mp inside
    exact (small 2 (Nat.le_refl 2)).mp inside
  · intro range
    exact (small c (range.1.le r.history.parents_older)).mpr range

/-- With `next`, the patch is committed on top of the start and then amended. -/
theorem keepsBoth_amended :
    ∃ first tip : Repo, prepare twoNames (.given "next".toList) patched 1 [2] = some first ∧
      applyPatches twoNames [⟨2, [.commit 3 [], .amend 4 []]⟩] first = some tip ∧ tip.head = 5 ∧
      first.history.tree first.head = 1 ∧ Reaches tip.history.parents tip.head 2 ∧
      Reaches tip.history.parents tip.head 1 := by
  have listing : IsListing patched.history.parents 1 patched.head [2] :=
    isListing_two rfl (by decide)
  have known : 1 < patched.history.size := by decide
  have keeps : KeepsBoth twoNames (.given "next".toList) patched 1 [2] := by
    refine (keepsBoth_iff known).mpr fun s checkedOut x there target => ?_
    obtain rfl : 1 = x := Option.some.inj target
    exact safeTarget_upstream known listing (Repo.checkoutBase_extends checkedOut)
  have listed : Listed (.given "next".toList) patched 1 [2] [⟨2, [.commit 3 [], .amend 4 []]⟩] := by
    intro patch inside
    obtain rfl := List.mem_singleton.mp inside
    have apart : ¬ Reaches patched.history.parents 1 2 := by decide
    exact ⟨by decide, Reaches.refl 2, apart⟩
  obtain ⟨first, prepared⟩ :
      ∃ first, prepare twoNames (.given "next".toList) patched 1 [2] = some first := ⟨_, rfl⟩
  obtain ⟨tip, applied, head⟩ :
      ∃ tip, applyPatches twoNames [⟨2, [.commit 3 [], .amend 4 []]⟩]
        ((prepare twoNames (.given "next".toList) patched 1 [2]).get (by rw [prepared]; rfl)) =
          some tip ∧ tip.head = 5 :=
    ⟨_, rfl, rfl⟩
  rw [Option.get_of_eq_some _ prepared] at applied
  exact ⟨first, tip, prepared, applied, head, keeps first _ tip listed prepared applied⟩

/-- With `HEAD~1`, which is the upstream commit to begin with, the first line resets to the
parent of the base. -/
theorem not_keepsBoth_parent :
    twoNames.revParse linear "HEAD~1".toList = some 1 ∧
      IsListing linear.history.parents 1 linear.head [2] ∧
      ¬ KeepsBoth twoNames (.given "HEAD~1".toList) linear 1 [2] := by
  refine ⟨rfl, isListing_two rfl (by decide), fun keeps => ?_⟩
  obtain ⟨first, prepared, tree⟩ :
      ∃ first, prepare twoNames (.given "HEAD~1".toList) linear 1 [2] = some first ∧
        first.history.tree first.head = 0 :=
    ⟨_, rfl, rfl⟩
  obtain ⟨same, -, -⟩ := keeps first [] first nofun prepared rfl
  rw [tree] at same
  cases same

end MsysGit.MergingRebase
