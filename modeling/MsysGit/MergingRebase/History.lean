import MsysGit.Library.CommitGraph
import MsysGit.Library.Transition

/-!
# Histories made by merging-rebases

A branch grows by ordinary commits, by ordinary merges and by merging-rebases; other
commits come into being next to it.  A merging-rebase resets the branch to an upstream
commit and merges the old tip with the strategy `ours`, so the start commit has the
tree of its first parent and contains everything that was there before
(`Starts`).
-/

namespace MsysGit.MergingRebase

open MsysGit.Library

abbrev Text := List Char

/-- A commit; trees are compared by their names only. -/
structure Commit where
  parents : List ℕ
  tree : ℕ
  message : Text

/-- Commits in the order in which they came into being.  A commit is named by its
position, and its parents were there before it. -/
structure History where
  commits : List Commit
  older : ∀ (c : ℕ) (commit : Commit), commits[c]? = some commit → ∀ p ∈ commit.parents, p < c

namespace History

variable (h : History)

def size : ℕ := h.commits.length

def parents (c : ℕ) : List ℕ := (h.commits[c]?).elim [] Commit.parents

def tree (c : ℕ) : ℕ := (h.commits[c]?).elim 0 Commit.tree

def message (c : ℕ) : Text := (h.commits[c]?).elim [] Commit.message

theorem parents_older : Older h.parents := by
  intro c p parent
  rw [parents] at parent
  cases commit : h.commits[c]? with
  | none =>
      rw [commit] at parent
      cases parent
  | some commit' =>
      rw [commit] at parent
      exact h.older c commit' commit p parent

variable {h}

/-- A history with one more commit. -/
def add (h : History) (commit : Commit) (known : ∀ p ∈ commit.parents, p < h.size) : History where
  commits := h.commits ++ [commit]
  older := by
    intro c commit' found p parent
    rcases Nat.lt_or_ge c h.commits.length with early | late
    · rw [List.getElem?_append_left early] at found
      exact h.older c commit' found p parent
    · rw [List.getElem?_append_right late] at found
      obtain ⟨within, rfl⟩ := List.getElem?_eq_some_iff.mp found
      have only : c - h.commits.length = 0 := by simpa using within
      simp only [only, List.getElem_cons_zero] at parent
      have := known p parent
      rw [size] at this
      omega

section Add

variable {commit : Commit} (known : ∀ p ∈ commit.parents, p < h.size) {c : ℕ}

@[simp] theorem size_add : (h.add commit known).size = h.size + 1 := List.length_append

theorem getElem?_add_of_lt (early : c < h.size) :
    (h.add commit known).commits[c]? = h.commits[c]? :=
  List.getElem?_append_left early

theorem getElem?_add_size : (h.add commit known).commits[h.size]? = some commit := by
  rw [add, size, List.getElem?_append_right (Nat.le_refl _), Nat.sub_self]
  rfl

theorem parents_add_of_lt (early : c < h.size) : (h.add commit known).parents c = h.parents c := by
  rw [parents, getElem?_add_of_lt known early, parents]

theorem tree_add_of_lt (early : c < h.size) : (h.add commit known).tree c = h.tree c := by
  rw [tree, getElem?_add_of_lt known early, tree]

theorem message_add_of_lt (early : c < h.size) : (h.add commit known).message c = h.message c := by
  rw [message, getElem?_add_of_lt known early, message]

theorem parents_add_size : (h.add commit known).parents h.size = commit.parents := by
  rw [parents, getElem?_add_size known]
  rfl

theorem tree_add_size : (h.add commit known).tree h.size = commit.tree := by
  rw [tree, getElem?_add_size known]
  rfl

theorem message_add_size : (h.add commit known).message h.size = commit.message := by
  rw [message, getElem?_add_size known]
  rfl

/-- What an earlier commit reaches is not changed by a later one. -/
theorem reaches_add (early : c < h.size) {d : ℕ} :
    Reaches (h.add commit known).parents c d ↔ Reaches h.parents c d :=
  reaches_congr h.parents_older (fun _ early => parents_add_of_lt known early) early

end Add

end History

/-! ### Repositories -/

/-- How the message of a start begins. -/
def startTitle : Text := "Start the merging-rebase to ".toList

/-- The message of the commit that starts a merging-rebase. -/
def startMessage (target fromSha toSha baseMessage : Text) : Text :=
  startTitle ++ (target ++ "\n\nThis commit starts the rebase of ".toList ++ fromSha ++
    " to ".toList ++ toSha ++ "\n".toList ++ baseMessage)

/-- A history and a branch in it.  The starts of the merging-rebases made on the branch
are remembered, the latest first. -/
structure Repo where
  history : History
  head : ℕ
  starts : List ℕ
  head_lt : head < history.size

/-- What happens to a repository. -/
inductive Operation
  /-- A commit or merge next to the branch. -/
  | elsewhere (commit : Commit)
  | commit (tree : ℕ) (message : Text)
  /-- A merge of other commits into the branch, with any resulting tree. -/
  | merge (others : List ℕ) (tree : ℕ) (message : Text)
  /-- Reset to an upstream commit, and merge the old tip with the strategy `ours`. -/
  | mergingRebase (upstream : ℕ) (target fromSha toSha baseMessage : Text)

namespace Repo

variable (r : Repo)

/-- A new tip. -/
def advance (commit : Commit) (known : ∀ p ∈ commit.parents, p < r.history.size) : Repo where
  history := r.history.add commit known
  head := r.history.size
  starts := r.starts
  head_lt := by
    rw [History.size_add]
    exact Nat.lt_succ_self _

/-- The commit that starts a merging-rebase. -/
def start (upstream : ℕ) (message : Text) : Commit where
  parents := [upstream, r.head]
  tree := r.history.tree upstream
  message := message

/-- The branch after the commit that starts a merging-rebase. -/
def rebase (upstream : ℕ) (message : Text)
    (known : ∀ p ∈ (r.start upstream message).parents, p < r.history.size) : Repo :=
  { r.advance (r.start upstream message) known with starts := r.history.size :: r.starts }

/-- The parent of a commit on the branch is there. -/
theorem head_known (tree : ℕ) (message : Text) :
    ∀ p ∈ (⟨[r.head], tree, message⟩ : Commit).parents, p < r.history.size := fun _ parent =>
  List.mem_singleton.mp parent ▸ r.head_lt

/-- One operation; it fails when it names a commit that is not there. -/
def perform : Operation → Option Repo
  | .elsewhere commit =>
      if known : ∀ p ∈ commit.parents, p < r.history.size then
        some { r with
          history := r.history.add commit known
          head_lt := by
            rw [History.size_add]
            exact Nat.lt_succ_of_lt r.head_lt }
      else none
  | .commit tree message =>
      some (r.advance ⟨[r.head], tree, message⟩ (r.head_known tree message))
  | .merge others tree message =>
      if known : ∀ p ∈ r.head :: others, p < r.history.size then
        some (r.advance ⟨r.head :: others, tree, message⟩ known)
      else none
  | .mergingRebase upstream target fromSha toSha baseMessage =>
      let message := startMessage target fromSha toSha baseMessage
      if known : ∀ p ∈ (r.start upstream message).parents, p < r.history.size then
        some (r.rebase upstream message known)
      else none

/-- One operation, as a relation. -/
def Step (r : Repo) (operation : Operation) (r' : Repo) : Prop := r.perform operation = some r'

end Repo

/-! ### The starts -/

/-- The start of a merging-rebase: the tree is that of the first of its two parents. -/
structure IsStart (h : History) (s : ℕ) : Prop where
  parents : ∃ upstream old, h.parents s = [upstream, old] ∧ h.tree s = h.tree upstream
  message : startTitle <+: h.message s

/-- What is known of the starts: the branch contains them, and the later ones contain
the earlier. -/
structure Starts (r : Repo) : Prop where
  isStart : ∀ s ∈ r.starts, s < r.history.size ∧ IsStart r.history s
  reached : ∀ s ∈ r.starts, Reaches r.history.parents r.head s
  ordered : r.starts.Pairwise fun later earlier => Reaches r.history.parents later earlier

namespace Starts

variable {r r' : Repo} {commit : Commit} {known : ∀ p ∈ commit.parents, p < r.history.size}

theorem isStart_add {h : History} {commit : Commit}
    (known : ∀ p ∈ commit.parents, p < h.size) {s : ℕ} (early : s < h.size)
    (start : IsStart h s) : IsStart (h.add commit known) s where
  parents := by
    obtain ⟨upstream, old, parents, tree⟩ := start.parents
    have earlier : upstream < h.size := by
      have first : upstream ∈ h.parents s := by
        rw [parents]
        exact List.mem_cons_self
      exact Nat.lt_trans (h.parents_older s upstream first) early
    refine ⟨upstream, old, ?_, ?_⟩
    · rw [History.parents_add_of_lt known early, parents]
    · rw [History.tree_add_of_lt known early, History.tree_add_of_lt known earlier, tree]
  message := by
    rw [History.message_add_of_lt known early]
    exact start.message

/-- The starts stay what they are when a commit is added, wherever the branch goes from
its tip. -/
theorem add (starts : Starts r) {head : ℕ} {head_lt : head < (r.history.add commit known).size}
    (onward : Reaches (r.history.add commit known).parents head r.head) :
    Starts ⟨r.history.add commit known, head, r.starts, head_lt⟩ where
  isStart := fun s is_start => by
    obtain ⟨early, start⟩ := starts.isStart s is_start
    exact ⟨Nat.lt_of_lt_of_eq (Nat.lt_succ_of_lt early) (History.size_add known).symm,
      isStart_add known early start⟩
  reached := fun s is_start =>
    onward.trans ((History.reaches_add known r.head_lt).mpr (starts.reached s is_start))
  ordered := by
    refine starts.ordered.imp_of_mem fun {later earlier} is_start _ reaches => ?_
    exact (History.reaches_add known (starts.isStart later is_start).1).mpr reaches

theorem reaches_new (parent : r.head ∈ commit.parents) :
    Reaches (r.history.add commit known).parents r.history.size r.head := by
  refine Reaches.of_parent ?_ (Reaches.refl _)
  rw [History.parents_add_size known]
  exact parent

theorem advance (starts : Starts r) (parent : r.head ∈ commit.parents) :
    Starts (r.advance commit known) :=
  starts.add (reaches_new parent)

/-- A merging-rebase adds a start that contains all the earlier ones. -/
theorem rebase (starts : Starts r) {upstream : ℕ} {message : Text}
    {known : ∀ p ∈ (r.start upstream message).parents, p < r.history.size}
    (begins : startTitle <+: message) :
    Starts (r.rebase upstream message known) := by
  have second : r.head ∈ (r.start upstream message).parents :=
    List.mem_cons_of_mem _ List.mem_cons_self
  have before : Starts (r.advance (r.start upstream message) known) := starts.advance second
  have earlier : upstream < r.history.size := known upstream List.mem_cons_self
  have new : IsStart (r.history.add (r.start upstream message) known) r.history.size := by
    refine ⟨⟨upstream, r.head, History.parents_add_size known, ?_⟩, ?_⟩
    · rw [History.tree_add_size, History.tree_add_of_lt known earlier]
      rfl
    · rw [History.message_add_size]
      exact begins
  refine ⟨fun s is_start => ?_, fun s is_start => ?_, ?_⟩
  · rcases List.mem_cons.mp is_start with rfl | is_start
    · exact ⟨Nat.lt_of_lt_of_eq (Nat.lt_succ_self _) (History.size_add known).symm, new⟩
    · exact before.isStart s is_start
  · rcases List.mem_cons.mp is_start with rfl | is_start
    · exact Reaches.refl _
    · exact before.reached s is_start
  · exact List.pairwise_cons.mpr ⟨before.reached, before.ordered⟩

theorem startMessage_begins (target fromSha toSha baseMessage : Text) :
    startTitle <+: startMessage target fromSha toSha baseMessage :=
  List.prefix_append _ _

/-- One operation. -/
theorem step (starts : Starts r) {operation : Operation} (taken : r.Step operation r') :
    Starts r' := by
  cases operation with
  | elsewhere commit =>
      rw [Repo.Step, Repo.perform] at taken
      split at taken
      · obtain rfl := Option.some.inj taken
        exact starts.add (Reaches.refl _)
      · cases taken
  | commit tree message =>
      obtain rfl := Option.some.inj taken
      exact starts.advance (List.mem_singleton_self _)
  | merge others tree message =>
      rw [Repo.Step, Repo.perform] at taken
      split at taken
      · obtain rfl := Option.some.inj taken
        exact starts.advance List.mem_cons_self
      · cases taken
  | mergingRebase upstream target fromSha toSha baseMessage =>
      rw [Repo.Step, Repo.perform] at taken
      split at taken
      · obtain rfl := Option.some.inj taken
        exact starts.rebase (startMessage_begins ..)
      · cases taken

/-- **Any number of operations**, on a branch that began without merging-rebases. -/
theorem run {r₀ : Repo} (none : r₀.starts = []) (run : RunOf Repo.Step (fun _ _ => True) r₀ r) :
    Starts r := by
  refine run.invariant Starts ?_ fun _ _ _ starts _ taken => starts.step taken
  refine ⟨?_, ?_, ?_⟩
  · rw [none]
    exact fun s is_start => nomatch is_start
  · rw [none]
    exact fun s is_start => nomatch is_start
  · rw [none]
    exact List.Pairwise.nil

end Starts

end MsysGit.MergingRebase
