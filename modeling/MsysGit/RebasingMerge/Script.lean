import MsysGit.MergingRebase.EditScript

/-!
# Rebasing merges

`rebasing-merge.sh` is the older of the two scripts.  It rebases the patches of the
branch onto an upstream commit first, and merges the old tip into the result with the
strategy `ours` last, so that the merge has the tree of its first parent, the rebased
tip, and its second parent is the old tip.

The next time, the patches are found again: the first merge of `TO..` with the tree of
its first parent is taken for the previous rebasing merge, and everything its second
parent contains is left out (`range`).  The rebased patches are not, so the series is
the rebased one with what was committed since.

What `git rev-list` shows is a parameter, a function of what is excluded; what git does
to the graph is modelled as documented.
-/

namespace MsysGit.RebasingMerge

open MsysGit.Library MsysGit.MergingRebase

/-! ### The selection -/

section Selection

variable (h : History) (revList : List ℕ → List ℕ) (upstream : ℕ)

/-- `PREVIOUS_REBASING`. -/
def previousRebasing : Option ℕ := findRebase h (listMerges h (revList [upstream]))

/-- `RANGE`, as the commits that are excluded. -/
def range : List ℕ :=
  match previousRebasing h revList upstream with
  | none => [upstream]
  | some previous =>
      let excluded := [upstream, (h.parents previous).getD 1 0]
      excluded ++ (listMerges h (revList excluded)).filter fun commit =>
        commit ≠ previous && isOursMerge h commit

/-- The commits to rebase: `git rev-list --reverse --no-merges $RANGE`. -/
def picks : List ℕ :=
  (revList (range h revList upstream)).reverse.filter fun commit => !isMerge h commit

end Selection

/-! ### The branch -/

/-- A rebasing merge, and how it came about. -/
structure Rebasing where
  merge : ℕ
  onto : ℕ
  /-- `ORIG_HEAD`. -/
  old : ℕ
  /-- The commits that the patches have become, in order. -/
  copies : List ℕ
  deriving DecidableEq

/-- A history and a branch in it.  The rebasing merges made on the branch are remembered,
the latest first. -/
structure Branch where
  history : History
  head : ℕ
  head_lt : head < history.size
  rebasings : List Rebasing

/-- What comes of a patch: its parent is the tip already, it is committed, it is melded into
the one before it (`fixup!`, `squash!`), or it is skipped. -/
inductive Picked
  | fastForward
  | copied (tree : ℕ) (message : Text)
  | melded (tree : ℕ) (message : Text)
  | skipped

namespace Branch

variable (b : Branch)

/-- A new tip. -/
def advance (commit : Commit) (known : ∀ p ∈ commit.parents, p < b.history.size) : Branch where
  history := b.history.add commit known
  head := b.history.size
  head_lt := by
    rw [History.size_add]
    exact Nat.lt_succ_self _
  rebasings := b.rebasings

theorem head_known (tree : ℕ) (message : Text) :
    ∀ p ∈ (⟨[b.head], tree, message⟩ : Commit).parents, p < b.history.size := fun _ parent =>
  List.mem_singleton.mp parent ▸ b.head_lt

theorem parents_known (tree : ℕ) (message : Text) :
    ∀ p ∈ (⟨b.history.parents b.head, tree, message⟩ : Commit).parents, p < b.history.size :=
  fun p parent => Nat.lt_trans (b.history.parents_older b.head p parent) b.head_lt

/-- `git reset --hard`. -/
def resetHard (c : ℕ) : Option Branch :=
  if known : c < b.history.size then some { b with head := c, head_lt := known } else none

/-- A `pick` line, with the copies so far.  Nothing can be melded into the upstream commit. -/
def pick (b : Branch) (copies : List ℕ) (commit : ℕ) : Picked → Option (Branch × List ℕ)
  | .fastForward =>
      if b.history.parents commit = [b.head] then
        (b.resetHard commit).map fun b' => (b', copies ++ [commit])
      else none
  | .copied tree message =>
      some (b.advance ⟨[b.head], tree, message⟩ (b.head_known tree message),
        copies ++ [b.history.size])
  | .melded tree message =>
      if copies = [] then none
      else some (b.advance ⟨b.history.parents b.head, tree, message⟩
        (b.parents_known tree message), copies.dropLast ++ [b.history.size])
  | .skipped => some (b, copies)

/-- The `pick` lines, one after the other. -/
def pickAll : Branch → List ℕ → List (ℕ × Picked) → Option (Branch × List ℕ)
  | b, copies, [] => some (b, copies)
  | b, copies, (commit, picked) :: rest =>
      (b.pick copies commit picked).bind fun next => pickAll next.1 next.2 rest

/-- `git rebase -i --onto $TO HEAD^`, with the lines that the editor leaves; an empty list is
refused. -/
def rebase (upstream : ℕ) (lines : List (ℕ × Picked)) : Option (Branch × List ℕ) :=
  if lines.isEmpty then none
  else (b.resetHard upstream).bind fun b' => b'.pickAll [] lines

/-- `git merge -s ours`: nothing is done when the other commit is already contained. -/
def mergeOurs (message : Text) (onto old : ℕ) (copies : List ℕ) : Option Branch :=
  if Reaches b.history.parents b.head old then some b
  else if known : ∀ p ∈ [b.head, old], p < b.history.size then
    some { b.advance ⟨[b.head, old], b.history.tree b.head, message⟩ known with
      rebasings := ⟨b.history.size, onto, old, copies⟩ :: b.rebasings }
  else none

end Branch

/-! ### The script -/

/-- What `HEAD` is: `master`, with the commit of its upstream branch and the one it had before; a
commit that is checked out; another branch. -/
inductive HeadName
  | master (upstream before : Option ℕ)
  | detached
  | other
  deriving DecidableEq

/-- The checks on `HEAD`. -/
def HeadName.upToDate (head : ℕ) : HeadName → Bool
  | master none _ => false
  | master (some upstream) before => head = upstream || before = some upstream
  | detached => true
  | other => false

/-- How commits are named in messages. -/
structure Naming where
  /-- `$TO`, as it was given. -/
  target : Text
  short : ℕ → Text
  full : ℕ → Text

/-- `MESSAGE` -/
def message (names : Naming) (upstream : ℕ) (previous : Option ℕ) : Text :=
  let title := oldTitle ++ (names.target ++ " (".toList ++ names.short upstream ++ ")".toList)
  match previous with
  | none => title
  | some commit => title ++ ("\n\nPrevious rebasing merge: ".toList ++ names.full commit)

/-- What the script is called with and finds around it. -/
structure Call where
  /-- `--force` -/
  force : Bool
  name : HeadName
  upstream : ℕ
  revList : List ℕ → List ℕ
  names : Naming
  /-- What the user makes of the list of the script in the editor, and what comes of each line. -/
  edit : List ℕ → List (ℕ × Picked)

/-- The script, up to the end of the rebasing and the merge after it.  Where the rebasing stops in
between, the merge is left to the user in a script of its own. -/
def rebasingMerge (b : Branch) (call : Call) : Option Branch :=
  -- `git rev-list .."$TO"` shows something unless the branch contains `TO`.
  if call.force = false ∧ Reaches b.history.parents b.head call.upstream then none
  else if call.name.upToDate b.head = false then none
  else
    let previous := previousRebasing b.history call.revList call.upstream
    let commits := picks b.history call.revList call.upstream
    (b.rebase call.upstream (call.edit commits)).bind fun rebased =>
      rebased.1.mergeOurs (message call.names call.upstream previous) call.upstream b.head rebased.2

/-- What happens to a branch and around it. -/
inductive Operation
  /-- A commit or merge next to the branch. -/
  | elsewhere (commit : Commit)
  | commit (tree : ℕ) (message : Text)
  /-- A merge of other commits into the branch, with any resulting tree. -/
  | merge (others : List ℕ) (tree : ℕ) (message : Text)
  | rebasing (call : Call)

namespace Branch

/-- One operation; it fails when it names a commit that is not there. -/
def perform (b : Branch) : Operation → Option Branch
  | .elsewhere commit =>
      if known : ∀ p ∈ commit.parents, p < b.history.size then
        some { b with
          history := b.history.add commit known
          head_lt := by
            rw [History.size_add]
            exact Nat.lt_succ_of_lt b.head_lt }
      else none
  | .commit tree message =>
      some (b.advance ⟨[b.head], tree, message⟩ (b.head_known tree message))
  | .merge others tree message =>
      if known : ∀ p ∈ b.head :: others, p < b.history.size then
        some (b.advance ⟨b.head :: others, tree, message⟩ known)
      else none
  | .rebasing call => rebasingMerge b call

/-- One operation, as a relation. -/
def Step (b : Branch) (operation : Operation) (b' : Branch) : Prop := b.perform operation = some b'

end Branch

end MsysGit.RebasingMerge
