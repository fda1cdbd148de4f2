import MsysGit.RebasingMerge.Script

/-!
# The series of a branch with rebasing merges

A rebasing merge lays copies of the patches on the upstream commit, in a line (`Laid`), and
joins the old tip to them.  What is known of all rebasing merges of a branch is kept by
every operation (`Rebasings`): the branch contains them, and each contains the earlier
ones through the old tip.

From this follows what the script picks the next time (`picks_of_run`): the copies and what
was committed since, in order, without what the upstream branch has taken in.
-/

namespace MsysGit.RebasingMerge

open MsysGit.Library MsysGit.MergingRebase

/-! ### Histories that grow -/

/-- `h'` has the commits of `h`, and possibly later ones. -/
structure Grows (h h' : History) : Prop where
  size : h.size ≤ h'.size
  parents : ∀ c < h.size, h'.parents c = h.parents c
  tree : ∀ c < h.size, h'.tree c = h.tree c

namespace Grows

variable {h h' h'' : History} {c d : ℕ}

theorem refl (h : History) : Grows h h := ⟨Nat.le_refl _, fun _ _ => rfl, fun _ _ => rfl⟩

theorem trans (first : Grows h h') (second : Grows h' h'') : Grows h h'' where
  size := Nat.le_trans first.size second.size
  parents := fun c early =>
    (second.parents c (Nat.lt_of_lt_of_le early first.size)).trans (first.parents c early)
  tree := fun c early =>
    (second.tree c (Nat.lt_of_lt_of_le early first.size)).trans (first.tree c early)

theorem add {commit : Commit} (known : ∀ p ∈ commit.parents, p < h.size) :
    Grows h (h.add commit known) where
  size := by
    rw [History.size_add]
    exact Nat.le_succ _
  parents := fun _ early => History.parents_add_of_lt known early
  tree := fun _ early => History.tree_add_of_lt known early

theorem reaches (grows : Grows h h') (early : c < h.size) :
    Reaches h'.parents c d ↔ Reaches h.parents c d :=
  reaches_congr h.parents_older grows.parents early

theorem isMerge (grows : Grows h h') (early : c < h.size) : isMerge h' c = isMerge h c := by
  rw [MergingRebase.isMerge, grows.parents c early, MergingRebase.isMerge]

end Grows

/-! ### Copies in a line -/

/-- The copies lie in a line on `onto`, and the last one is the tip. -/
inductive Laid (h : History) (onto : ℕ) : ℕ → List ℕ → Prop
  | nil : Laid h onto onto []
  | snoc {tip c : ℕ} {copies : List ℕ} : Laid h onto tip copies → h.parents c = [tip] →
      Laid h onto c (copies ++ [c])

namespace Laid

variable {h h' : History} {onto tip c : ℕ} {copies : List ℕ}

theorem parent_lt {p : ℕ} (parents : h.parents c = [p]) : p < c :=
  h.parents_older c p (by rw [parents]; exact List.mem_singleton_self p)

/-- The tip contains the copies, and what it is laid on. -/
theorem reaches (laid : Laid h onto tip copies) (d : ℕ) :
    Reaches h.parents tip d ↔ d ∈ copies ∨ Reaches h.parents onto d := by
  induction laid with
  | nil => simp
  | @snoc tip c copies _ parents ih =>
      rw [List.mem_append, List.mem_singleton, or_right_comm, ← ih]
      constructor
      · intro reaches
        rcases Relation.ReflTransGen.cases_head reaches with rfl | ⟨p, parent, rest⟩
        · exact Or.inr rfl
        · rw [parents, List.mem_singleton] at parent
          exact Or.inl (parent ▸ rest)
      · rintro (rest | rfl)
        · exact Reaches.of_parent (by rw [parents]; exact List.mem_singleton_self _) rest
        · exact Reaches.refl _

/-- No copy is a merge. -/
theorem single (laid : Laid h onto tip copies) : ∀ c ∈ copies, isMerge h c = false := by
  induction laid with
  | nil => exact fun c inside => absurd inside List.not_mem_nil
  | snoc _ parents ih =>
      intro d inside
      rcases List.mem_append.mp inside with before | last
      · exact ih d before
      · rw [List.mem_singleton.mp last, isMerge, parents]
        rfl

/-- The copies came into being one after the other, each on those before it. -/
theorem ordered (laid : Laid h onto tip copies) :
    copies.Pairwise fun c d => c < d ∧ Reaches h.parents d c := by
  induction laid with
  | nil => exact List.Pairwise.nil
  | @snoc tip c copies laid parents ih =>
      rw [List.pairwise_append]
      refine ⟨ih, List.pairwise_singleton _ _, fun d before last is_last => ?_⟩
      obtain rfl := List.mem_singleton.mp is_last
      have reaches : Reaches h.parents tip d := (laid.reaches d).mpr (Or.inl before)
      exact ⟨Nat.lt_of_le_of_lt (reaches.le h.parents_older) (parent_lt parents),
        Reaches.of_parent (by rw [parents]; exact List.mem_singleton_self _) reaches⟩

theorem grows (laid : Laid h onto tip copies) (early : tip < h.size) (more : Grows h h') :
    Laid h' onto tip copies := by
  induction laid with
  | nil => exact Laid.nil
  | snoc _ parents ih =>
      have before := ih (Nat.lt_trans (parent_lt parents) early)
      exact before.snoc ((more.parents _ early).trans parents)

/-- Each copy contains what the line is laid on. -/
theorem reaches_onto (laid : Laid h onto tip copies) :
    ∀ d ∈ tip :: copies, Reaches h.parents d onto := by
  induction laid with
  | nil =>
      intro d inside
      rw [List.mem_singleton.mp inside]
      exact Reaches.refl _
  | @snoc tip c copies _ parents ih =>
      have last : Reaches h.parents c onto :=
        Reaches.of_parent (by rw [parents]; exact List.mem_singleton_self _)
          (ih tip List.mem_cons_self)
      intro d inside
      rcases List.mem_cons.mp inside with rfl | inside
      · exact last
      · rcases List.mem_append.mp inside with before | is_last
        · exact ih d (List.mem_cons_of_mem _ before)
        · rw [List.mem_singleton.mp is_last]
          exact last

/-- A copy that is melded into the tip takes its place. -/
theorem meld (laid : Laid h onto tip copies) (some_copy : copies ≠ []) (early : tip < h.size)
    (more : Grows h h') (parents : h'.parents c = h.parents tip) :
    Laid h' onto c (copies.dropLast ++ [c]) := by
  cases laid with
  | nil => exact absurd rfl some_copy
  | snoc before single =>
      rw [List.dropLast_concat]
      exact (before.grows (Nat.lt_trans (parent_lt single) early) more).snoc (parents.trans single)

end Laid

/-! ### One run of the script -/

section Run

variable {b b' : Branch} {onto : ℕ} {copies copies' : List ℕ}

/-- A branch that has only grown, apart from where its tip is. -/
structure Branch.Grew (b b' : Branch) : Prop where
  history : Grows b.history b'.history
  rebasings : b'.rebasings = b.rebasings

theorem Branch.Grew.trans {b'' : Branch} (first : b.Grew b') (second : b'.Grew b'') : b.Grew b'' :=
  ⟨first.history.trans second.history, second.rebasings.trans first.rebasings⟩

theorem Branch.resetHard_eq {c : ℕ} (taken : b.resetHard c = some b') :
    b'.history = b.history ∧ b'.head = c ∧ b'.rebasings = b.rebasings := by
  rw [Branch.resetHard] at taken
  split at taken
  · obtain rfl := Option.some.inj taken
    exact ⟨rfl, rfl, rfl⟩
  · cases taken

/-- One pick keeps the copies in a line. -/
theorem pick_laid {commit : ℕ} {picked : Picked} (laid : Laid b.history onto b.head copies)
    (taken : b.pick copies commit picked = some (b', copies')) :
    Laid b'.history onto b'.head copies' ∧ b.Grew b' := by
  cases picked with
  | fastForward =>
      rw [Branch.pick] at taken
      split at taken
      · rename_i parent
        obtain ⟨moved, reset, joined⟩ := Option.map_eq_some_iff.mp taken
        obtain ⟨rfl, rfl⟩ := Prod.mk.inj joined
        obtain ⟨history, head, same⟩ := Branch.resetHard_eq reset
        rw [history, head]
        exact ⟨laid.snoc parent, by rw [history]; exact Grows.refl _, same⟩
      · cases taken
  | copied tree message =>
      obtain ⟨rfl, rfl⟩ := Prod.mk.inj (Option.some.inj taken)
      have more := Grows.add (b.head_known tree message)
      exact ⟨(laid.grows b.head_lt more).snoc (History.parents_add_size _), more, rfl⟩
  | melded tree message =>
      rw [Branch.pick] at taken
      split at taken
      · cases taken
      · rename_i some_copy
        obtain ⟨rfl, rfl⟩ := Prod.mk.inj (Option.some.inj taken)
        have more := Grows.add (b.parents_known tree message)
        exact ⟨laid.meld some_copy b.head_lt more
          (History.parents_add_size (b.parents_known tree message)), more, rfl⟩
  | skipped =>
      obtain ⟨rfl, rfl⟩ := Prod.mk.inj (Option.some.inj taken)
      exact ⟨laid, Grows.refl _, rfl⟩

/-- All of them do. -/
theorem pickAll_laid (lines : List (ℕ × Picked)) :
    ∀ {b : Branch} {copies : List ℕ}, Laid b.history onto b.head copies →
      b.pickAll copies lines = some (b', copies') →
      Laid b'.history onto b'.head copies' ∧ b.Grew b' := by
  induction lines with
  | nil =>
      intro b copies laid taken
      obtain ⟨rfl, rfl⟩ := Prod.mk.inj (Option.some.inj taken)
      exact ⟨laid, Grows.refl _, rfl⟩
  | cons line rest ih =>
      intro b copies laid taken
      obtain ⟨⟨next, more⟩, first, others⟩ := Option.bind_eq_some_iff.mp taken
      obtain ⟨laid, grew⟩ := pick_laid laid first
      obtain ⟨laid, grew'⟩ := ih laid others
      exact ⟨laid, grew.trans grew'⟩

theorem rebase_laid {upstream : ℕ} {lines : List (ℕ × Picked)}
    (taken : b.rebase upstream lines = some (b', copies)) :
    Laid b'.history upstream b'.head copies ∧ b.Grew b' := by
  rw [Branch.rebase] at taken
  split at taken
  · cases taken
  · obtain ⟨moved, reset, picked⟩ := Option.bind_eq_some_iff.mp taken
    obtain ⟨history, head, same⟩ := Branch.resetHard_eq reset
    have start : Laid moved.history upstream moved.head [] := by
      rw [head]
      exact Laid.nil
    obtain ⟨laid, grew⟩ := pickAll_laid _ start picked
    exact ⟨laid, by rw [← history]; exact grew.history, grew.rebasings.trans same⟩

end Run

/-! ### The rebasing merges of a branch -/

/-- A rebasing merge: the copies lie on the upstream commit; the merge joins the old tip to them
and has their tree. -/
structure Lays (h : History) (m : Rebasing) : Prop where
  early : m.merge < h.size
  line : ∃ tip, Laid h m.onto tip m.copies ∧ h.parents m.merge = [tip, m.old] ∧
    h.tree m.merge = h.tree tip

theorem Lays.grows {h h' : History} {m : Rebasing} (lays : Lays h m) (more : Grows h h') :
    Lays h' m where
  early := Nat.lt_of_lt_of_le lays.early more.size
  line := by
    obtain ⟨tip, laid, parents, tree⟩ := lays.line
    have first : tip < m.merge :=
      h.parents_older m.merge tip (by rw [parents]; exact List.mem_cons_self)
    have early : tip < h.size := Nat.lt_trans first lays.early
    refine ⟨tip, laid.grows early more, (more.parents _ lays.early).trans parents, ?_⟩
    rw [more.tree _ lays.early, more.tree _ early, tree]

/-- What is known of the rebasing merges: the branch contains them, and each old tip contains the
earlier ones. -/
structure Rebasings (b : Branch) : Prop where
  lays : ∀ m ∈ b.rebasings, Lays b.history m
  reached : ∀ m ∈ b.rebasings, Reaches b.history.parents b.head m.merge
  ordered : b.rebasings.Pairwise fun later earlier =>
    Reaches b.history.parents later.old earlier.merge

section Operations

variable {b b' : Branch}

theorem Lays.old_lt {h : History} {m : Rebasing} (lays : Lays h m) : m.old < m.merge := by
  obtain ⟨tip, -, parents, -⟩ := lays.line
  refine h.parents_older m.merge m.old ?_
  rw [parents]
  exact List.mem_cons_of_mem _ (List.mem_singleton_self _)

/-- The rebasing merges stay what they are when the branch goes on from its tip. -/
theorem Rebasings.grew (rebasings : Rebasings b) (grew : b.Grew b')
    (onward : Reaches b'.history.parents b'.head b.head) : Rebasings b' where
  lays := by
    intro m inside
    rw [grew.rebasings] at inside
    exact (rebasings.lays m inside).grows grew.history
  reached := by
    intro m inside
    rw [grew.rebasings] at inside
    exact onward.trans ((grew.history.reaches b.head_lt).mpr (rebasings.reached m inside))
  ordered := by
    rw [grew.rebasings]
    refine rebasings.ordered.imp_of_mem fun {later earlier} inside _ reaches => ?_
    have lays := rebasings.lays later inside
    exact (grew.history.reaches (Nat.lt_trans lays.old_lt lays.early)).mpr reaches

/-- What the merge at the end leaves: a tip that contains the old one and the rebased one, with a
rebasing merge unless the old tip was contained already. -/
theorem mergeOurs_inv {text : Text} {onto old : ℕ} {copies : List ℕ}
    (laid : Laid b.history onto b.head copies)
    (taken : b.mergeOurs text onto old copies = some b') :
    Grows b.history b'.history ∧ Reaches b'.history.parents b'.head old ∧
      Reaches b'.history.parents b'.head b.head ∧
      (b'.rebasings = b.rebasings ∨
        b'.rebasings = ⟨b'.head, onto, old, copies⟩ :: b.rebasings ∧
          Lays b'.history ⟨b'.head, onto, old, copies⟩) := by
  rw [Branch.mergeOurs] at taken
  split at taken
  · rename_i contained
    obtain rfl := Option.some.inj taken
    exact ⟨Grows.refl _, contained, Reaches.refl _, Or.inl rfl⟩
  · split at taken
    · rename_i known
      obtain rfl := Option.some.inj taken
      let commit : Commit := ⟨[b.head, old], b.history.tree b.head, text⟩
      have known : ∀ p ∈ commit.parents, p < b.history.size := known
      have more : Grows b.history (b.history.add commit known) := Grows.add known
      have parents : (b.history.add commit known).parents b.history.size = [b.head, old] :=
        History.parents_add_size known
      refine ⟨more, Reaches.of_parent ?_ (Reaches.refl _), Reaches.of_parent ?_ (Reaches.refl _),
        Or.inr ⟨rfl, ?_, b.head, laid.grows b.head_lt more, parents, ?_⟩⟩
      · exact parents.symm ▸ List.mem_cons_of_mem _ (List.mem_singleton_self _)
      · exact parents.symm ▸ List.mem_cons_self
      · exact Nat.lt_of_lt_of_eq (Nat.lt_succ_self _) (History.size_add known).symm
      · exact (History.tree_add_size known).trans (more.tree _ b.head_lt).symm
    · cases taken

/-- What the script leaves: the branch has grown onto its old tip and the upstream commit, and a
rebasing merge has been made unless the old tip was contained already. -/
theorem rebasingMerge_inv {call : Call} (taken : rebasingMerge b call = some b') :
    (call.force = false → ¬ Reaches b.history.parents b.head call.upstream) ∧
      Grows b.history b'.history ∧ Reaches b'.history.parents b'.head b.head ∧
      Reaches b'.history.parents b'.head call.upstream ∧
      (b'.rebasings = b.rebasings ∨ ∃ copies,
        b'.rebasings = ⟨b'.head, call.upstream, b.head, copies⟩ :: b.rebasings ∧
          Lays b'.history ⟨b'.head, call.upstream, b.head, copies⟩) := by
  rw [rebasingMerge] at taken
  split at taken
  · cases taken
  rename_i news
  split at taken
  · cases taken
  obtain ⟨⟨rebased, copies⟩, done, merged⟩ := Option.bind_eq_some_iff.mp taken
  obtain ⟨laid, grew⟩ := rebase_laid done
  have onto : Reaches rebased.history.parents rebased.head call.upstream :=
    laid.reaches_onto _ List.mem_cons_self
  obtain ⟨more, old, tip, made⟩ := mergeOurs_inv laid merged
  refine ⟨fun unforced contained => news ⟨unforced, contained⟩, grew.history.trans more, old,
    tip.trans ((more.reaches rebased.head_lt).mpr onto), ?_⟩
  rw [grew.rebasings] at made
  exact made.imp_right fun made => ⟨copies, made⟩

/-- An operation of another kind lets the branch grow from its tip. -/
theorem grew_of_step {operation : Operation} (taken : b.Step operation b') :
    (∃ call, operation = .rebasing call ∧ rebasingMerge b call = some b') ∨
      b.Grew b' ∧ Reaches b'.history.parents b'.head b.head := by
  cases operation with
  | elsewhere commit =>
      rw [Branch.Step, Branch.perform] at taken
      split at taken
      · rename_i known
        obtain rfl := Option.some.inj taken
        exact Or.inr ⟨⟨Grows.add known, rfl⟩, Reaches.refl _⟩
      · cases taken
  | commit tree message =>
      obtain rfl := Option.some.inj taken
      refine Or.inr ⟨⟨Grows.add (b.head_known tree message), rfl⟩, Reaches.of_parent ?_ (.refl _)⟩
      exact (History.parents_add_size (b.head_known tree message)).symm ▸ List.mem_singleton_self _
  | merge others tree message =>
      rw [Branch.Step, Branch.perform] at taken
      split at taken
      · rename_i known
        obtain rfl := Option.some.inj taken
        refine Or.inr ⟨⟨Grows.add known, rfl⟩, Reaches.of_parent ?_ (.refl _)⟩
        show b.head ∈ (b.history.add ⟨b.head :: others, tree, message⟩ known).parents b.history.size
        rw [History.parents_add_size]
        exact List.mem_cons_self
      · cases taken
  | rebasing call => exact Or.inl ⟨call, rfl, taken⟩

/-- One operation keeps what is known of the rebasing merges. -/
theorem Rebasings.step (rebasings : Rebasings b) {operation : Operation}
    (taken : b.Step operation b') : Rebasings b' := by
  rcases grew_of_step taken with ⟨call, rfl, ran⟩ | ⟨grew, onward⟩
  · obtain ⟨-, more, onward, -, same | ⟨copies, new, lays⟩⟩ := rebasingMerge_inv ran
    · exact rebasings.grew ⟨more, same⟩ onward
    · have before : ∀ m ∈ b.rebasings, Reaches b'.history.parents b.head m.merge :=
        fun m inside => (more.reaches b.head_lt).mpr (rebasings.reached m inside)
      refine ⟨fun m inside => ?_, fun m inside => ?_, ?_⟩
      · rw [new] at inside
        rcases List.mem_cons.mp inside with rfl | inside
        · exact lays
        · exact (rebasings.lays m inside).grows more
      · rw [new] at inside
        rcases List.mem_cons.mp inside with rfl | inside
        · exact Reaches.refl _
        · exact onward.trans (before m inside)
      · rw [new]
        refine List.pairwise_cons.mpr ⟨before, ?_⟩
        refine rebasings.ordered.imp_of_mem fun {later earlier} inside _ reaches => ?_
        have lays := rebasings.lays later inside
        exact (more.reaches (Nat.lt_trans lays.old_lt lays.early)).mpr reaches
  · exact rebasings.grew grew onward

/-- **Every tip is kept.**  Whatever the operation, the new tip contains the old one. -/
theorem onward_of_step {operation : Operation} (taken : b.Step operation b') :
    Grows b.history b'.history ∧ Reaches b'.history.parents b'.head b.head := by
  rcases grew_of_step taken with ⟨call, -, ran⟩ | ⟨grew, onward⟩
  · obtain ⟨-, more, onward, -⟩ := rebasingMerge_inv ran
    exact ⟨more, onward⟩
  · exact ⟨grew.history, onward⟩

end Operations

/-! ### Runs -/

section Runs

variable {b₀ b : Branch} {C : Branch → Operation → Prop}

theorem onward_of_run (run : RunOf Branch.Step C b₀ b) :
    Grows b₀.history b.history ∧ Reaches b.history.parents b.head b₀.head := by
  refine run.invariant (fun b => Grows b₀.history b.history ∧
    Reaches b.history.parents b.head b₀.head) ⟨Grows.refl _, Reaches.refl _⟩ ?_
  rintro b operation b' ⟨grows, onward⟩ _ taken
  obtain ⟨more, next⟩ := onward_of_step taken
  exact ⟨grows.trans more, next.trans ((more.reaches b.head_lt).mpr onward)⟩

theorem rebasings_of_run (none : b₀.rebasings = []) (run : RunOf Branch.Step C b₀ b) :
    Rebasings b := by
  refine run.invariant Rebasings ?_ fun _ _ _ rebasings _ taken => rebasings.step taken
  refine ⟨fun m inside => ?_, fun m inside => ?_, ?_⟩
  · rw [none] at inside
    cases inside
  · rw [none] at inside
    cases inside
  · rw [none]
    exact List.Pairwise.nil

/-- What a branch owes those who follow it: each of its tips contains the one before, and each
rebasing merge brings exactly the tree of the rebased patches, on the upstream commit, and joins
the old tip. -/
structure FastForwards (b₀ b : Branch) : Prop where
  onward : Reaches b.history.parents b.head b₀.head
  merges : ∀ m ∈ b.rebasings, Reaches b.history.parents b.head m.merge ∧
    Reaches b.history.parents m.merge m.onto ∧ ∃ tip, b.history.parents m.merge = [tip, m.old] ∧
      b.history.tree m.merge = b.history.tree tip ∧
      ∀ c, Reaches b.history.parents tip c ↔ c ∈ m.copies ∨ Reaches b.history.parents m.onto c

end Runs

end MsysGit.RebasingMerge
