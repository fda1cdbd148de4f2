import MsysGit.Depends.SearchList

/-!
# Closing a directory

`DirectoryClose` walks the list of a directory from the last node to the first, releases each
path and each node, and then the `DIRECTORY_INFO`.

The memory of `Depends/SearchList` gets a record of what is released.  A block that was not
allocated, or has been released, cannot be released, and a node that has been released may
hold anything from then on.  A list whose nodes all have their paths is released as a whole
(`wp_directoryClose`); at a node without one, the code stops at an assertion, or releases what
`malloc` has left there.
-/

namespace MsysGit.Depends

open MsysGit.Library MsysGit.Library.CString

/-! ### The memory -/

/-- What is allocated: the path of a node, a node, a `DIRECTORY_INFO`. -/
inductive Block
  | path (p : ℕ)
  | node (p : ℕ)
  | directory (d : ℕ)
  deriving DecidableEq

structure Heap where
  memory : Memory
  /-- How many directories have been opened. -/
  opened : ℕ
  released : List Block
  /-- What is found in a node that has been released. -/
  remains : ℕ → Node

/-- The block has been allocated at some time. -/
def Block.Allocated (h : Heap) : Block → Prop
  | .path p | .node p => p < h.memory.nodes.length
  | .directory d => d < h.opened

instance (h : Heap) : (block : Block) → Decidable (block.Allocated h)
  | .path _ | .node _ | .directory _ => inferInstanceAs (Decidable (_ < _))

/-- A computation over the memory with its releases. -/
abbrev Closing := Program Heap Fault

/-- What the functions of `Depends/SearchList` do. -/
def inMemory {α : Type} (m : Search α) : Closing α :=
  Program.within Heap.memory (fun memory h => { h with memory := memory }) m

/-- What is in the memory when the block has been released. -/
def Heap.release (h : Heap) : Block → Heap
  | .node p => { h with
      released := h.released ++ [.node p]
      memory.nodes := h.memory.nodes.set p (h.remains p) }
  | block => { h with released := h.released ++ [block] }

/-- `free` -/
def free (block : Block) : Closing Unit := fun h =>
  if block ∈ h.released ∨ ¬ block.Allocated h then .halted .pointer h
  else .returned () (h.release block)

/-! ### The code -/

/-- `assert (p->FilePath)`, `free (p->FilePath)` and `p->FilePath = NULL`. -/
def freePath (p : ℕ) : Closing Unit := do
  match (← inMemory (load p)).value with
  | .string _ => do
      free (.path p)
      inMemory (setFilePath p .null)
  | .null => Program.halt .assertion
  | .unset => Program.halt .pointer

/-- `free (p)`, which does nothing for a null pointer. -/
def freeNode (p : Option ℕ) : Closing Unit :=
  match p with
  | none => pure ()
  | some p => free (.node p)

/-- The loop of `DirectoryClose`; it returns the last `pLast`. -/
def closeLoop : ℕ → ℕ → Closing ℕ
  | 0, _ => Program.halt .running
  | fuel + 1, last => do
      match (← inMemory (load last)).previous with
      | none => pure last
      | some _ => do
          freePath last
          match (← inMemory (load last)).previous with
          | none => Program.halt .pointer
          | some last => do
              freeNode (← inMemory (load last)).next
              inMemory (setNext last none)
              closeLoop fuel last

/-- `DirectoryClose`: the search results. -/
def closeResults (fuel : ℕ) (directory : DirectoryInfo) : Closing Unit :=
  match directory.searchResults with
  | none => pure ()
  | some first => do
      inMemory (assertFirst (some first))
      let last ← inMemory (getLastSearchResult fuel first)
      let last ← closeLoop fuel last
      if first ≠ last then Program.halt .assertion
      else do
        freePath first
        inMemory (setNext first none)
        freeNode (some first)

/-- `DirectoryClose`, of a directory that is open. -/
def directoryClose (fuel d : ℕ) (directory : DirectoryInfo) : Closing Unit := do
  closeResults fuel directory
  free (.directory d)

/-! ### Closing a directory -/

/-- The blocks of the nodes of a list. -/
def blocksOf (cells : List (ℕ × FilePath)) : List Block :=
  cells.flatMap fun c => [.path c.1, .node c.1]

/-- The blocks of a list have not been released. -/
def Unreleased (h : Heap) (cells : List (ℕ × FilePath)) : Prop :=
  ∀ block ∈ blocksOf cells, block ∉ h.released

/-- Each node has a path. -/
def Strings (cells : List (ℕ × FilePath)) : Prop := ∀ c ∈ cells, ∃ path, c.2 = .string path

/-- What closing a list changes: its blocks are released, from the last node to the first, and
no other node is touched. -/
structure Closed (h h' : Heap) (touched closed : List (ℕ × FilePath)) : Prop where
  released : h'.released = h.released ++ blocksOf closed.reverse
  frame : ∀ c, c ∉ touched.map Prod.fst → h'.memory.nodes[c]? = h.memory.nodes[c]?
  length : h'.memory.nodes.length = h.memory.nodes.length
  mallocs : h'.memory.mallocs = h.memory.mallocs
  directory : h'.memory.directory = h.memory.directory
  opened : h'.opened = h.opened

section Closing

variable {h : Heap} {E : Fault → Heap → Prop}

theorem wp_inMemory {α : Type} {m : Search α} {Q : α → Heap → Prop} :
    (inMemory m).wp h Q E ↔
      m.wp h.memory (fun a memory => Q a { h with memory := memory })
        fun why memory => E why { h with memory := memory } :=
  Program.wp_within _ _

theorem wp_free {block : Block} {Q : Unit → Heap → Prop} (unreleased : block ∉ h.released)
    (allocated : block.Allocated h) (ok : Q () (h.release block)) : (free block).wp h Q E := by
  refine Program.wp_of_returned ?_ ok
  rw [free, if_neg]
  exact not_or.mpr ⟨unreleased, not_not.mpr allocated⟩

/-- Releasing the path of a node. -/
theorem wp_freePath {p : ℕ} {before next : Option ℕ} {path : Bytes} {Q : Unit → Heap → Prop}
    (here : h.memory.nodes[p]? = some ⟨before, next, .string path⟩)
    (unreleased : .path p ∉ h.released)
    (ok : Q () { h with
      released := h.released ++ [.path p]
      memory.nodes := h.memory.nodes.modify p fun node => { node with value := .null } }) :
    (freePath p).wp h Q E := by
  have inside : p < h.memory.nodes.length := (List.getElem?_eq_some_iff.mp here).1
  rw [freePath, Program.wp_bind, wp_inMemory]
  refine wp_load here ?_
  dsimp only
  rw [Program.wp_bind]
  refine wp_free unreleased inside ?_
  rw [wp_inMemory]
  exact wp_change inside ok

theorem mem_blocksOf {cells : List (ℕ × FilePath)} {block : Block} :
    block ∈ blocksOf cells ↔ ∃ p ∈ cells.map Prod.fst, block = .path p ∨ block = .node p := by
  simp only [blocksOf, List.mem_flatMap, List.mem_cons, List.not_mem_nil, or_false,
    List.mem_map, exists_exists_and_eq_and]

theorem blocksOf_append (cells cells' : List (ℕ × FilePath)) :
    blocksOf (cells ++ cells') = blocksOf cells ++ blocksOf cells' := List.flatMap_append

/-- A round of the loop releases the last node. -/
theorem wp_closeLoop_round {start : Option ℕ} {front : List (ℕ × FilePath)} {prev last : ℕ}
    {v : FilePath} {path : Bytes} {Q : ℕ → Heap → Prop} {fuel : ℕ}
    (chain : Chain h.memory.nodes none start (front ++ [(prev, v)] ++ [(last, .string path)]))
    (unreleased : Unreleased h [(last, .string path)])
    (ok : ∀ h', Closed h h' [(prev, v), (last, .string path)] [(last, .string path)] →
      Chain h'.memory.nodes none start (front ++ [(prev, v)]) → (closeLoop fuel prev).wp h' Q E) :
    (closeLoop (fuel + 1) last).wp h Q E := by
  obtain ⟨⟨before, there⟩, here⟩ := chain.getElem?_last_two
  have inside : last < h.memory.nodes.length := (List.getElem?_eq_some_iff.mp here).1
  have inside' : prev < h.memory.nodes.length := (List.getElem?_eq_some_iff.mp there).1
  have distinct := chain.nodup
  rw [List.map_append, List.map_append, List.nodup_append] at distinct
  have apart : prev ≠ last := distinct.2.2 prev (by simp) last (by simp)
  have fresh (block : Block) (own : block = .path last ∨ block = .node last) :
      block ∉ h.released :=
    unreleased block (mem_blocksOf.mpr ⟨last, List.mem_singleton_self _, own⟩)
  rw [closeLoop, Program.wp_bind, wp_inMemory]
  refine wp_load here ?_
  dsimp only
  rw [Program.wp_bind]
  refine wp_freePath here (fresh _ (Or.inl rfl)) ?_
  rw [Program.wp_bind, wp_inMemory]
  refine wp_load (by rw [List.getElem?_modify_eq, here]; rfl) ?_
  dsimp only
  rw [Program.wp_bind, wp_inMemory]
  refine wp_load ((List.getElem?_modify_ne _ _ apart.symm).trans there) ?_
  rw [Program.wp_bind]
  refine wp_free ?_ (by simpa [Block.Allocated] using inside) ?_
  · rw [List.mem_append, List.mem_singleton, not_or]
    exact ⟨fresh _ (Or.inr rfl), nofun⟩
  rw [Program.wp_bind, wp_inMemory]
  refine wp_change (by simpa [Heap.release] using inside') ?_
  have elsewhere (c : ℕ) (off : c ≠ last) (off' : c ≠ prev) :
      (((h.memory.nodes.modify last fun node => { node with value := .null }).set last
        (h.remains last)).modify prev fun node => { node with next := none })[c]? =
          h.memory.nodes[c]? := by
    rw [List.getElem?_modify_ne _ _ off'.symm, List.getElem?_set_ne off.symm,
      List.getElem?_modify_ne _ _ off.symm]
  have unlinked : (((h.memory.nodes.modify last fun node => { node with value := .null }).set last
      (h.remains last)).modify prev fun node => { node with next := none })[prev]? =
        some ⟨before, none, v⟩ := by
    rw [List.getElem?_modify_eq, List.getElem?_set_ne apart.symm,
      List.getElem?_modify_ne _ _ apart.symm, there]
    rfl
  refine ok _ ⟨by simp [Heap.release, blocksOf], fun c off => ?_, by simp [Heap.release], rfl, rfl,
    rfl⟩ ?_
  · refine elsewhere c (fun same => off ?_) fun same => off ?_
    · simp [same]
    · simp [same]
  · refine chain.remove_last (fun c on => elsewhere c ?_ ?_) there ?_
    · exact distinct.2.2 c (List.mem_append_left _ on) last (by simp)
    · exact (List.nodup_append.mp distinct.1).2.2 c on prev (by simp)
    · exact unlinked

theorem Closed.refl (touched : List (ℕ × FilePath)) : Closed h h touched [] where
  released := (List.append_nil _).symm
  frame _ _ := rfl
  length := rfl
  mallocs := rfl
  directory := rfl
  opened := rfl

/-- First the last nodes, then those before them. -/
theorem Closed.trans {h' h'' : Heap} {touched touched' all closed closed' : List (ℕ × FilePath)}
    (closing : Closed h h' touched closed) (closing' : Closed h' h'' touched' closed')
    (more : touched ⊆ all) (more' : touched' ⊆ all) : Closed h h'' all (closed' ++ closed) where
  released := by
    rw [closing'.released, closing.released, List.reverse_append, blocksOf_append,
      List.append_assoc]
  frame c off := by
    rw [closing'.frame c fun on => off (List.map_subset _ more' on),
      closing.frame c fun on => off (List.map_subset _ more on)]
  length := closing'.length.trans closing.length
  mallocs := closing'.mallocs.trans closing.mallocs
  directory := closing'.directory.trans closing.directory
  opened := closing'.opened.trans closing.opened

theorem unreleased_append {cells cells' : List (ℕ × FilePath)} :
    Unreleased h (cells ++ cells') ↔ Unreleased h cells ∧ Unreleased h cells' := by
  rw [Unreleased, blocksOf_append, List.forall_mem_append]
  exact Iff.rfl

/-- Another list is not released. -/
theorem Closed.unreleased {h' : Heap} {touched closed cells : List (ℕ × FilePath)}
    (closing : Closed h h' touched closed) (unreleased : Unreleased h cells)
    (apart : ∀ p ∈ cells.map Prod.fst, p ∉ closed.map Prod.fst) : Unreleased h' cells := by
  intro block own again
  rw [closing.released, List.mem_append] at again
  refine again.elim (unreleased block own) fun now => ?_
  obtain ⟨p, on, own⟩ := mem_blocksOf.mp own
  obtain ⟨p', on', now⟩ := mem_blocksOf.mp now
  have same : p = p' := by
    rcases own with rfl | rfl <;> rcases now with now | now <;> cases now <;> rfl
  rw [List.map_reverse, List.mem_reverse] at on'
  exact apart p on (same ▸ on')

/-- **The loop.**  It releases all nodes but the first. -/
theorem wp_closeLoop (fuel : ℕ) : ∀ {h : Heap} {start : Option ℕ} {front : List (ℕ × FilePath)}
    {last : ℕ} {v : FilePath} {Q : ℕ → Heap → Prop}, front.length < fuel →
    Chain h.memory.nodes none start (front ++ [(last, v)]) → Strings (front ++ [(last, v)]) →
    Unreleased h (front ++ [(last, v)]) →
    (∀ h' first w rest, front ++ [(last, v)] = (first, w) :: rest →
      Closed h h' (front ++ [(last, v)]) rest → Chain h'.memory.nodes none start [(first, w)] →
      Q first h') →
    (closeLoop fuel last).wp h Q E := by
  induction fuel with
  | zero => exact fun enough => absurd enough (Nat.not_lt_zero _)
  | succ fuel ih =>
      intro h start front last v Q enough chain strings unreleased ok
      rcases List.eq_nil_or_concat' front with rfl | ⟨front, ⟨prev, u⟩, rfl⟩
      · obtain ⟨same, next, here, rfl⟩ := id chain
        rw [closeLoop, Program.wp_bind, wp_inMemory]
        refine wp_load here ?_
        exact ok h last v [] rfl (Closed.refl _) chain
      · obtain ⟨path, rfl⟩ := strings (last, v) (by simp)
        obtain ⟨unreleased, own⟩ := unreleased_append.mp unreleased
        refine wp_closeLoop_round chain own fun h' closing shorter => ?_
        have distinct := chain.nodup
        rw [List.map_append, List.nodup_append] at distinct
        refine ih (by simpa using enough) shorter
          (fun c on => strings c (List.mem_append_left _ on))
          (closing.unreleased unreleased fun p on on' => distinct.2.2 p on p on' rfl)
          fun h'' first w rest split closing' alone => ?_
        refine ok h'' first w (rest ++ [(last, .string path)]) ?_ ?_ alone
        · rw [split, List.cons_append]
        · refine closing.trans closing' ?_ (List.subset_append_left _ _)
          intro c on
          simp only [List.mem_cons, List.not_mem_nil, or_false] at on
          simp only [List.mem_append, List.mem_singleton]
          exact on.imp_left Or.inr

/-- The first node points back nowhere. -/
theorem wp_assertFirst_some {m : Memory} {first : ℕ} {cells : List (ℕ × FilePath)}
    {Q : Unit → Memory → Prop} {E : Fault → Memory → Prop}
    (chain : Chain m.nodes none (some first) cells) (ok : Q () m) :
    (assertFirst (some first)).wp m Q E := by
  cases cells with
  | nil => cases chain
  | cons c rest =>
      obtain ⟨start, next, here, -⟩ := chain
      obtain rfl := Option.some.inj start
      rw [assertFirst, Program.wp_bind]
      refine wp_load here ?_
      rw [if_pos rfl]
      exact ok

/-- The first node is released behind the loop. -/
theorem wp_freeFirst {first : ℕ} {w : FilePath} {Q : Unit → Heap → Prop} {start : Option ℕ}
    (chain : Chain h.memory.nodes none start [(first, w)]) (strings : Strings [(first, w)])
    (unreleased : Unreleased h [(first, w)])
    (ok : ∀ h', Closed h h' [(first, w)] [(first, w)] → Q () h') :
    (do
      freePath first
      inMemory (setNext first none)
      freeNode (some first) : Closing Unit).wp h Q E := by
  obtain ⟨path, rfl⟩ : ∃ path, w = .string path := strings _ (List.mem_singleton_self _)
  obtain ⟨-, next, here, rfl⟩ := chain
  have inside : first < h.memory.nodes.length := (List.getElem?_eq_some_iff.mp here).1
  have fresh (block : Block) (own : block = .path first ∨ block = .node first) :
      block ∉ h.released :=
    unreleased block (mem_blocksOf.mpr ⟨first, List.mem_singleton_self _, own⟩)
  rw [Program.wp_bind]
  refine wp_freePath here (fresh _ (Or.inl rfl)) ?_
  rw [Program.wp_bind, wp_inMemory]
  refine wp_change (by simpa using inside) ?_
  refine wp_free ?_ (by simpa [Block.Allocated] using inside) ?_
  · rw [List.mem_append, List.mem_singleton, not_or]
    exact ⟨fresh _ (Or.inr rfl), nofun⟩
  · refine ok _ ⟨by simp [Heap.release, blocksOf], fun c off => ?_, by simp [Heap.release], rfl,
      rfl, rfl⟩
    have differs : c ≠ first := fun same => off (by simp [same])
    simp [Heap.release, differs.symm]

/-- All nodes are released. -/
theorem wp_closeResults {fuel : ℕ} {directory : DirectoryInfo} {cells : List (ℕ × FilePath)}
    {Q : Unit → Heap → Prop} (enough : cells.length ≤ fuel)
    (chain : Chain h.memory.nodes none directory.searchResults cells) (strings : Strings cells)
    (unreleased : Unreleased h cells) (ok : ∀ h', Closed h h' cells cells → Q () h') :
    (closeResults fuel directory).wp h Q E := by
  rw [closeResults]
  rcases List.eq_nil_or_concat' cells with rfl | ⟨front, ⟨last, v⟩, rfl⟩
  · have empty : directory.searchResults = none := chain
    rw [empty]
    exact ok h (Closed.refl _)
  cases start : directory.searchResults with
  | none =>
      rw [start] at chain
      exact absurd chain.start_eq_none (by simp)
  | some first =>
      rw [start] at chain
      have distinct := chain.nodup
      have enough : front.length < fuel := Nat.lt_of_succ_le (by simpa using enough)
      dsimp only
      rw [Program.wp_bind, wp_inMemory]
      refine wp_assertFirst_some chain ?_
      rw [Program.wp_bind, wp_inMemory]
      refine wp_getLastSearchResult enough chain ?_
      rw [Program.wp_bind]
      refine wp_closeLoop fuel enough chain strings unreleased
        fun h' first' w rest split closing alone => ?_
      rw [split] at chain strings unreleased distinct
      obtain rfl : first = first' := Option.some.inj chain.1
      rw [if_neg (not_not.mpr rfl)]
      rw [← List.singleton_append, unreleased_append] at unreleased
      refine wp_freeFirst alone (fun c on => strings c ?_) (closing.unreleased unreleased.1 ?_)
        fun h'' closing' => ok h'' ?_
      · rw [List.mem_singleton.mp on]
        exact List.mem_cons_self
      · rintro p on
        rw [List.mem_singleton.mp on]
        exact (List.nodup_cons.mp distinct).1
      · rw [split]
        refine closing.trans closing' (by rw [split]; exact List.Subset.refl _) ?_
        simp

/-- **Closing.**  All nodes are released, and then the directory. -/
theorem wp_directoryClose {fuel d : ℕ} {directory : DirectoryInfo} {cells : List (ℕ × FilePath)}
    {Q : Unit → Heap → Prop} (enough : cells.length ≤ fuel)
    (chain : Chain h.memory.nodes none directory.searchResults cells) (strings : Strings cells)
    (unreleased : Unreleased h cells) (opened : d < h.opened)
    (unclosed : .directory d ∉ h.released)
    (ok : ∀ h', Closed h h' cells cells → Q () (h'.release (.directory d))) :
    (directoryClose fuel d directory).wp h Q E := by
  rw [directoryClose, Program.wp_bind]
  refine wp_closeResults enough chain strings unreleased fun h' closing => ?_
  refine wp_free ?_ (closing.opened.symm ▸ opened : d < h'.opened) (ok h' closing)
  rw [closing.released, List.mem_append, not_or]
  refine ⟨unclosed, fun now => ?_⟩
  obtain ⟨p, -, own | own⟩ := mem_blocksOf.mp now
  · cases own
  · cases own

end Closing

end MsysGit.Depends
