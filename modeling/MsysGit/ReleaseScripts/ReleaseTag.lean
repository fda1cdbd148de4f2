import Mathlib.Data.List.Count
import Mathlib.Data.List.TakeWhile
import Mathlib.Data.Set.Finite.Basic
import Mathlib.Order.Nat
import MsysGit.Library.CountingSearch
import MsysGit.Library.FirstOccurrence
import MsysGit.Library.SuffixRemoval

/-!
# The tag of a release

`create_msysgit_tag` uses the tag that is already there, or makes the next one of the
version.  It takes the version from `git describe HEAD`: what is in front of the first dash,
and in front of the last `.msysgit.`.  A version with a dash in it is cut short that way, and
so is one in which something else than a number follows `.msysgit.` (`tagsAsMeant_iff`).

The shell splits `$tag` into no words here, since there are no blanks and no pattern
characters in the name of a tag.
-/

namespace MsysGit.ReleaseScripts

open MsysGit.Library

namespace ReleaseTag

/-! ### The repository -/

abbrev Str := List Char

/-- The repository in which a release is tagged. -/
structure Checkout where
  /-- What `git describe --exact-match --match "*.msysgit.*" HEAD` prints, if it succeeds. -/
  exactMatch : Option Str
  /-- The tag that `git describe HEAD` finds. -/
  nearest : Str
  /-- The number of commits since then and the abbreviated name of `HEAD`, if there are any. -/
  behind : Option (ℕ × Str)
  tags : List Str
  /-- Nothing but a tag of that name keeps `git tag` from making it. -/
  accepts : Str → Bool

/-- A number in the shell. -/
def decimal (n : ℕ) : Str := Nat.toDigits 10 n

/-- `.msysgit.` -/
def mark : Str := ".msysgit.".toList

/-- `$tag.msysgit.$i` -/
def numbered (tag : Str) (i : ℕ) : Str := tag ++ mark ++ decimal i

namespace Checkout

variable (r : Checkout)

/-- `git describe HEAD` -/
def describe : Str :=
  match r.behind with
  | none => r.nearest
  | some (commits, hash) => r.nearest ++ '-' :: decimal commits ++ '-' :: 'g' :: hash

/-- `git tag -a`: the tags afterwards. -/
def gitTag (name : Str) : Option (List Str) :=
  if name ∈ r.tags ∨ ¬ r.accepts name then none else some (name :: r.tags)

/-- The numbers for which there is no tag yet. -/
def Free (tag : Str) : Set ℕ := {i | numbered tag i ∉ r.tags}

end Checkout

/-! ### The script -/

/-- `cut -d- -f1` -/
def cutDash (line : Str) : Str := line.takeWhile (· ≠ '-')

/-- `${tag%.msysgit.*}` -/
def stripMark (tag : Str) : Str := removeSuffix (fun t => mark <+: t) tag

/-- The tags in the end, and the line that is printed. -/
structure Outcome where
  tags : List Str
  line : Str
  deriving DecidableEq

/-- `create_msysgit_tag`; the loop makes at most `fuel` attempts. -/
def createMsysgitTag (fuel : ℕ) (r : Checkout) : Option Outcome :=
  match r.exactMatch with
  | some tag => some ⟨r.tags, "Using existing tag ".toList ++ tag⟩
  | none =>
      let tag := stripMark (cutDash r.describe)
      (firstFrom (fun i => (r.gitTag (numbered tag i)).isSome) fuel 0).bind fun i =>
        (r.gitTag (numbered tag i)).map fun tags =>
          ⟨tags, "Created tag ".toList ++ numbered tag i⟩

/-! ### What is meant -/

/-- `.msysgit.` and a number. -/
def IsNumber (t : Str) : Bool :=
  mark <+: t ∧ t.drop mark.length ≠ [] ∧ (t.drop mark.length).all Char.isDigit

/-- A tag without its `.msysgit.N`. -/
def version (tag : Str) : Str := removeSuffix IsNumber tag

/-- The script ends, with a tag of `HEAD` that was there, or with one new tag: that of the
version, with the least number that was free. -/
def TagsAsMeant (r : Checkout) : Prop :=
  ∃ fuel outcome, createMsysgitTag fuel r = some outcome ∧
    ((∃ tag, r.exactMatch = some tag ∧
        outcome = ⟨r.tags, "Using existing tag ".toList ++ tag⟩) ∨
      ∃ i, IsLeast (r.Free (version r.nearest)) i ∧
        outcome = ⟨numbered (version r.nearest) i :: r.tags,
          "Created tag ".toList ++ numbered (version r.nearest) i⟩)

/-- What the script takes for granted about the nearest tag: there is no dash in it, and where
`.msysgit.` occurs, a number follows and ends it. -/
structure Regular (tag : Str) : Prop where
  no_dash : '-' ∉ tag
  ends : mark <:+: tag → ∃ t, t <:+ tag ∧ IsNumber t = true

/-! ### Names of tags -/

theorem decimal_injective : Function.Injective decimal := by
  intro i j same
  have read := congrArg (Nat.ofDigitChars 10 · 0) same
  simpa [decimal, Nat.ofDigitChars_ten_toDigits] using read

theorem isNumber_mark_decimal (i : ℕ) : IsNumber (mark ++ decimal i) = true := by
  have digits : (decimal i).all Char.isDigit = true := List.all_eq_true.mpr fun _ inside =>
    Nat.isDigit_of_mem_toDigits (by decide) le_rfl inside
  refine decide_eq_true ⟨List.prefix_append _ _, ?_, ?_⟩
  · rw [List.drop_left]
    exact Nat.toDigits_ne_nil
  · rw [List.drop_left]
    exact digits

/-- A number is found only once: there are just two dots in it. -/
theorem eq_of_mark_prefix {t u : Str} (number : IsNumber t = true) (suffix : u <:+ t)
    (marked : mark <+: u) : u = t := by
  obtain ⟨⟨n, rfl⟩, -, digits⟩ := of_decide_eq_true number
  rw [List.drop_left] at digits
  have dots : n.count '.' = 0 := List.count_eq_zero.mpr fun inside => by
    have digit := List.all_eq_true.mp digits _ inside
    cases digit
  have two : 2 ≤ u.count '.' := marked.sublist.count_le '.'
  have head : mark ++ n = '.' :: ("msysgit.".toList ++ n) := rfl
  rcases List.suffix_cons_iff.mp (head ▸ suffix) with same | shorter
  · exact same
  · have one : u.count '.' ≤ ("msysgit.".toList ++ n).count '.' :=
      shorter.sublist.count_le '.'
    rw [List.count_append, dots] at one
    exact absurd (two.trans one) (by decide)

theorem version_append {t : Str} (number : IsNumber t = true) (front : Str) :
    version (front ++ t) = front := by
  refine removeSuffix_append number (fun u suffix fits => ?_) front
  exact eq_of_mark_prefix number suffix (of_decide_eq_true fits).1

theorem version_numbered (tag : Str) (i : ℕ) : version (numbered tag i) = tag := by
  rw [numbered, List.append_assoc]
  exact version_append (isNumber_mark_decimal i) tag

/-- The name of a tag tells its version and its number. -/
theorem numbered_inj {tag tag' : Str} {i j : ℕ} (same : numbered tag i = numbered tag' j) :
    tag = tag' ∧ i = j := by
  have tags := congrArg version same
  rw [version_numbered, version_numbered] at tags
  subst tags
  exact ⟨rfl, decimal_injective (List.append_cancel_left same)⟩

theorem version_eq_self {tag : Str} (none : ∀ t, t <:+ tag → IsNumber t = false) :
    version tag = tag := removeSuffix_eq_self none

theorem stripMark_of_number {t : Str} (number : IsNumber t = true) (front : Str) :
    stripMark (front ++ t) = front := by
  refine removeSuffix_append (decide_eq_true (of_decide_eq_true number).1)
    (fun u suffix fits => ?_) front
  exact eq_of_mark_prefix number suffix (of_decide_eq_true fits)

theorem stripMark_eq_self_iff {tag : Str} : stripMark tag = tag ↔ ¬ mark <:+: tag := by
  refine (removeSuffix_eq_self_iff (by decide)).trans ?_
  rw [List.infix_iff_prefix_suffix, not_exists]
  refine forall_congr' fun t => ?_
  rw [decide_eq_false_iff_not, not_and]
  exact ⟨fun none marked suffix => none suffix marked, fun none suffix marked => none marked suffix⟩

theorem infix_of_isNumber {tag t : Str} (suffix : t <:+ tag) (number : IsNumber t = true) :
    mark <:+: tag := ((of_decide_eq_true number).1.isInfix).trans suffix.isInfix

/-! ### The version that the script finds -/

theorem cutDash_append {tag : Str} (no_dash : '-' ∉ tag) (more : Str) :
    cutDash (tag ++ '-' :: more) = tag := takeWhile_ne_append_cons no_dash more

theorem cutDash_describe {r : Checkout} (no_dash : '-' ∉ r.nearest) :
    cutDash r.describe = r.nearest := by
  unfold Checkout.describe
  split
  · exact takeWhile_ne_of_notMem no_dash
  · rw [List.append_assoc]
    exact cutDash_append no_dash _

theorem dash_notMem_stripMark (line : Str) : '-' ∉ stripMark (cutDash line) := by
  intro inside
  have cut := (prefix_of_removeSuffix _ _).subset inside
  exact notMem_takeWhile_ne '-' line cut

/-- A dash in a tag is one in its version. -/
theorem dash_mem_version {tag : Str} (dash : '-' ∈ tag) : '-' ∈ version tag := by
  by_cases number : ∃ t, t <:+ tag ∧ IsNumber t = true
  · obtain ⟨t, ⟨front, rfl⟩, number⟩ := number
    rw [version_append number]
    refine (List.mem_append.mp dash).resolve_right fun inside => ?_
    obtain ⟨⟨n, rfl⟩, -, digits⟩ := of_decide_eq_true number
    rw [List.drop_left] at digits
    rcases List.mem_append.mp inside with here | here
    · revert here
      decide
    · cases List.all_eq_true.mp digits _ here
  · rw [version_eq_self]
    · exact dash
    · intro t suffix
      rw [Bool.eq_false_iff]
      exact fun here => number ⟨t, suffix, here⟩

/-- **The version is found** in a regular tag, and in no other. -/
theorem stripMark_cutDash_describe_iff (r : Checkout) :
    stripMark (cutDash r.describe) = version r.nearest ↔ Regular r.nearest := by
  constructor
  · intro same
    have no_dash : '-' ∉ r.nearest := fun dash =>
      dash_notMem_stripMark r.describe (same ▸ dash_mem_version dash)
    refine ⟨no_dash, fun marked => ?_⟩
    rw [cutDash_describe no_dash] at same
    by_contra none
    refine stripMark_eq_self_iff.mp (same.trans (version_eq_self fun t suffix => ?_)) marked
    rw [Bool.eq_false_iff]
    exact fun number => none ⟨t, suffix, number⟩
  · rintro ⟨no_dash, ends⟩
    rw [cutDash_describe no_dash]
    by_cases marked : mark <:+: r.nearest
    · obtain ⟨t, ⟨front, split⟩, number⟩ := ends marked
      rw [← split, stripMark_of_number number, version_append number]
    · rw [stripMark_eq_self_iff.mpr marked, version_eq_self]
      intro t suffix
      rw [Bool.eq_false_iff]
      exact fun number => marked (infix_of_isNumber suffix number)

/-! ### When the tag is right -/

section Tags

variable {r : Checkout} {tag : Str}

theorem isSome_gitTag (name : Str) :
    (r.gitTag name).isSome = true ↔ name ∉ r.tags ∧ r.accepts name = true := by
  unfold Checkout.gitTag
  split_ifs with refused
  · refine iff_of_false Bool.false_ne_true fun ⟨free, accepted⟩ => ?_
    exact refused.elim free fun other => other accepted
  · rw [not_or, not_not] at refused
    exact iff_of_true rfl refused

theorem gitTag_of_accepts {name : Str} (free : name ∉ r.tags) (accepted : r.accepts name = true) :
    r.gitTag name = some (name :: r.tags) :=
  if_neg fun refused => refused.elim free fun other => other accepted

/-- There is always a free number. -/
theorem exists_isLeast_free (r : Checkout) (tag : Str) : ∃ i, IsLeast (r.Free tag) i := by
  have injective : Function.Injective (numbered tag) := fun i j same => (numbered_inj same).2
  have many := (Set.infinite_range_of_injective injective).sdiff r.tags.finite_toSet
  obtain ⟨_, ⟨i, rfl⟩, free⟩ := many.nonempty
  have some_free : ∃ i, numbered tag i ∉ r.tags := ⟨i, free⟩
  exact ⟨_, Nat.isLeast_find some_free⟩

/-- What the script does where no tag of `HEAD` is there yet. -/
theorem exists_createMsysgitTag_iff (fresh : r.exactMatch = none)
    (found : stripMark (cutDash r.describe) = tag) {outcome : Outcome} :
    (∃ fuel, createMsysgitTag fuel r = some outcome) ↔
      ∃ i, IsLeast {i | i ∈ r.Free tag ∧ r.accepts (numbered tag i) = true} i ∧
        outcome = ⟨numbered tag i :: r.tags, "Created tag ".toList ++ numbered tag i⟩ := by
  have attempts : {i | (r.gitTag (numbered tag i)).isSome = true} =
      {i | i ∈ r.Free tag ∧ r.accepts (numbered tag i) = true} :=
    Set.ext fun i => isSome_gitTag (numbered tag i)
  unfold createMsysgitTag
  rw [fresh]
  dsimp only
  rw [found, ← attempts]
  constructor
  · rintro ⟨fuel, run⟩
    obtain ⟨i, stopped, made⟩ := Option.bind_eq_some_iff.mp run
    have least := exists_firstFrom_iff.mp ⟨fuel, stopped⟩
    obtain ⟨free, accepted⟩ := (isSome_gitTag _).mp least.1
    rw [gitTag_of_accepts free accepted, Option.map_some] at made
    exact ⟨i, least, (Option.some.inj made).symm⟩
  · rintro ⟨i, least, rfl⟩
    obtain ⟨fuel, stopped⟩ := exists_firstFrom_iff.mpr least
    obtain ⟨free, accepted⟩ := (isSome_gitTag _).mp least.1
    refine ⟨fuel, ?_⟩
    rw [stopped, Option.bind_some, gitTag_of_accepts free accepted]
    rfl

end Tags

/-- **When the tag is the one that is meant**: there is one already, or the nearest tag is
regular and git makes the next one. -/
theorem tagsAsMeant_iff (r : Checkout) :
    TagsAsMeant r ↔ r.exactMatch.isSome = true ∨ Regular r.nearest ∧
      ∀ i, IsLeast (r.Free (version r.nearest)) i →
        r.accepts (numbered (version r.nearest) i) = true := by
  cases exact_match : r.exactMatch with
  | some tag =>
      refine iff_of_true ⟨0, _, ?_, Or.inl ⟨tag, exact_match, rfl⟩⟩ (Or.inl rfl)
      rw [createMsysgitTag, exact_match]
  | none =>
      rw [Option.isSome_none, or_iff_right Bool.false_ne_true]
      constructor
      · rintro ⟨fuel, outcome, run, ⟨tag, there, -⟩ | ⟨i, least, made⟩⟩
        · rw [exact_match] at there
          cases there
        · obtain ⟨j, ⟨⟨-, accepted⟩, -⟩, same⟩ :=
            (exists_createMsysgitTag_iff exact_match rfl).mp ⟨fuel, run⟩
          have names := congrArg Outcome.tags (made.symm.trans same)
          obtain ⟨versions, rfl⟩ := numbered_inj (List.cons.inj names).1
          refine ⟨(stripMark_cutDash_describe_iff r).mp versions.symm, fun k least' => ?_⟩
          rw [least'.unique least, versions]
          exact accepted
      · rintro ⟨regular, accepted⟩
        have found := (stripMark_cutDash_describe_iff r).mpr regular
        obtain ⟨i, least⟩ := exists_isLeast_free r (version r.nearest)
        have first : IsLeast {i | i ∈ r.Free (version r.nearest) ∧
            r.accepts (numbered (version r.nearest) i) = true} i :=
          ⟨⟨least.1, accepted i least⟩, fun k free => least.2 free.1⟩
        obtain ⟨fuel, run⟩ :=
          (exists_createMsysgitTag_iff exact_match found).mpr ⟨i, first, rfl⟩
        exact ⟨fuel, _, run, Or.inr ⟨i, least, rfl⟩⟩

/-- A release candidate. -/
theorem not_tagsAsMeant :
    ¬ TagsAsMeant ⟨none, "v1.8.0-rc1".toList, some (3, "1a2b3c4".toList), ["v1.8.0-rc1".toList],
      fun _ => true⟩ := by
  rintro ⟨fuel, outcome, run, ⟨tag, there, -⟩ | ⟨i, -, made⟩⟩
  · cases there
  · obtain ⟨j, -, same⟩ := (exists_createMsysgitTag_iff rfl rfl).mp ⟨fuel, run⟩
    have names := congrArg Outcome.tags (made.symm.trans same)
    obtain ⟨versions, -⟩ := numbered_inj (List.cons.inj names).1
    revert versions
    decide +kernel

end ReleaseTag

end MsysGit.ReleaseScripts
