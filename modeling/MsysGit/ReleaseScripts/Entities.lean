import MsysGit.Library.Replacement

/-!
# Entities in the titles of issues

`googlecode-changes.perl` reads the titles of issues from pages in which `&`, `<`, `>` and `"`
are written as entities.  `decode_entities` undoes that with four replacements, `&amp;` last:
while the others are replaced, every `&` still begins the entity of one character
(`replaceAll_partlyEncoded`), so the text comes back as it was, whatever it looks like.
-/

namespace MsysGit.ReleaseScripts

open MsysGit.Library

/-! ### The script -/

/-- The four substitutions of `decode_entities`, in the order of the script. -/
def substitutions : List (String × String) :=
  [("&quot;", "\""), ("&lt;", "<"), ("&gt;", ">"), ("&amp;", "&")]

/-- `s/pattern/value/g`, for a pattern without special characters. -/
def substitute (html : List Char) (s : String × String) : List Char :=
  replaceAll s.1.toList s.2.toList html

def decodeEntities (html : List Char) : List Char := substitutions.foldl substitute html

/-! ### Writing entities -/

/-- How a character is written. -/
def entity : Char → List Char
  | '&' => "&amp;".toList
  | '<' => "&lt;".toList
  | '>' => "&gt;".toList
  | '"' => "&quot;".toList
  | c => [c]

/-- Every `&`, `<`, `>` and `"` as its entity. -/
def encodeEntities (s : List Char) : List Char := s.flatMap entity

/-- The text in which some of the characters are not entities any more. -/
def partlyEncoded (plain : Char → Bool) (s : List Char) : List Char :=
  s.flatMap fun c => if plain c then [c] else entity c

/-- The characters that are written as an entity. -/
def IsSpecial (c : Char) : Prop := c = '&' ∨ c = '<' ∨ c = '>' ∨ c = '"'

theorem entity_of_not_special {c : Char} (other : ¬ IsSpecial c) : entity c = [c] := by
  simp only [IsSpecial, not_or] at other
  obtain ⟨amp, lt, gt, quot⟩ := other
  unfold entity
  split <;> first | contradiction | rfl

theorem head?_entity {c : Char} (special : IsSpecial c) : (entity c).head? = some '&' := by
  rcases special with rfl | rfl | rfl | rfl <;> rfl

/-- The letter behind the `&` tells the entities apart. -/
theorem not_prefix_entity {c d : Char} (special : IsSpecial c) (pattern : IsSpecial d)
    (different : c ≠ d) (s : List Char) : ¬ entity d <+: entity c ++ s := by
  rintro ⟨more, same⟩
  have second : (entity d)[1]? = (entity c)[1]? := by
    have here := congrArg (fun t => t[1]?) same
    rcases special with rfl | rfl | rfl | rfl <;> rcases pattern with rfl | rfl | rfl | rfl <;>
      exact here
  rcases special with rfl | rfl | rfl | rfl <;> rcases pattern with rfl | rfl | rfl | rfl <;>
    first
    | exact different rfl
    | exact absurd second (by decide)

theorem partlyEncoded_of_plain {plain : Char → Bool} (all : ∀ c, IsSpecial c → plain c = true)
    (s : List Char) : partlyEncoded plain s = s := by
  have each : (fun c => if plain c = true then [c] else entity c) = fun c => [c] := by
    funext c
    by_cases here : plain c = true
    · rw [if_pos here]
    · rw [if_neg here, entity_of_not_special fun special => here (all c special)]
  rw [partlyEncoded, each]
  exact List.flatMap_singleton' s

/-! ### Decoding -/

/-- The entity of one character is passed over while another one is replaced. -/
theorem replaceAll_entity_append {c d : Char} {value : List Char} (special : IsSpecial c)
    (pattern : IsSpecial d) (different : c ≠ d) (s : List Char) :
    replaceAll (entity d) value (entity c ++ s) =
      entity c ++ replaceAll (entity d) value s := by
  have begins := head?_entity pattern
  have none := not_prefix_entity special pattern different s
  obtain ⟨name, spelled, free⟩ : ∃ name, entity c = '&' :: name ∧ '&' ∉ name := by
    rcases special with rfl | rfl | rfl | rfl <;> exact ⟨_, rfl, by decide⟩
  rw [spelled, List.cons_append] at none ⊢
  rw [replaceAll_cons none, replaceAll_append_of_notMem begins free, List.cons_append]

/-- **One substitution**: it decodes its own character, and no other, as long as every `&` still
begins an entity. -/
theorem replaceAll_partlyEncoded {d : Char} {plain : Char → Bool} (special : IsSpecial d)
    (amp : plain '&' = false) (s : List Char) :
    replaceAll (entity d) [d] (partlyEncoded plain s) =
      partlyEncoded (fun c => plain c || c == d) s := by
  have begins := head?_entity special
  refine replaceAll_flatMap (fun c more => ?_) s
  show replaceAll _ _ ((if plain c then [c] else entity c) ++ more) =
    (if plain c || c == d then [c] else entity c) ++ replaceAll _ _ more
  by_cases decoded : plain c = true
  · have free : '&' ∉ [c] := by
      rw [List.mem_singleton]
      rintro rfl
      rw [amp] at decoded
      cases decoded
    rw [if_pos decoded, decoded, Bool.true_or, if_pos rfl, replaceAll_append_of_notMem begins free]
  · rw [if_neg decoded, Bool.eq_false_iff.mpr decoded, Bool.false_or]
    by_cases same : c = d
    · subst same
      rw [beq_self_eq_true, if_pos rfl, replaceAll_append _ (by rintro none; simp [none] at begins)]
    · rw [beq_false_of_ne same, if_neg Bool.false_ne_true]
      by_cases other : IsSpecial c
      · exact replaceAll_entity_append other special same more
      · rw [entity_of_not_special other]
        refine replaceAll_append_of_notMem begins ?_ more
        rw [List.mem_singleton]
        rintro rfl
        exact other (Or.inl rfl)

/-- **The text comes back.** -/
theorem decodeEntities_encodeEntities (s : List Char) : decodeEntities (encodeEntities s) = s := by
  have quot : IsSpecial '"' := Or.inr (Or.inr (Or.inr rfl))
  have lt : IsSpecial '<' := Or.inr (Or.inl rfl)
  have gt : IsSpecial '>' := Or.inr (Or.inr (Or.inl rfl))
  have amp : IsSpecial '&' := Or.inl rfl
  show replaceAll (entity '&') ['&'] (replaceAll (entity '>') ['>'] (replaceAll (entity '<') ['<']
    (replaceAll (entity '"') ['"'] (partlyEncoded (fun _ => false) s)))) = s
  rw [replaceAll_partlyEncoded quot rfl, replaceAll_partlyEncoded lt,
    replaceAll_partlyEncoded gt, replaceAll_partlyEncoded amp]
  rotate_left
  · rfl
  · rfl
  · rfl
  refine partlyEncoded_of_plain ?_ s
  rintro c (rfl | rfl | rfl | rfl) <;> rfl

/-- "must be last one": with `&amp;` first, a text that looks like an entity is lost. -/
example : (substitutions.rotate 3).foldl substitute (encodeEntities "&lt;".toList) = ['<'] := by
  decide

end MsysGit.ReleaseScripts
