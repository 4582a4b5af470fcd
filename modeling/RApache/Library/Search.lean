import Mathlib.Data.List.Basic
import Mathlib.Data.List.Infix

/-!
# Searching for a pattern in pieces

`List.dropInfix?` gives the text before the first occurrence of a pattern and the text behind it.
A beginning in which no occurrence begins, whatever comes behind, may be set aside.
-/

namespace Incremental

variable {α : Type} [DecidableEq α] {pattern : List α}

/-- No occurrence of the pattern in the text begins in its part `front`. -/
def Skips (pattern front behind : List α) : Prop :=
  ∀ before rest, front ++ behind = before ++ pattern ++ rest → front.length ≤ before.length

theorem dropInfix?_some {text before rest : List α} :
    text.dropInfix? pattern = some (before, rest) ↔
      text = before ++ pattern ++ rest ∧
        ∀ before' rest', text = before' ++ pattern ++ rest' → before.length ≤ before'.length := by
  rw [List.dropInfix?_eq_some_iff]
  constructor
  · rintro ⟨⟨found, whole, same⟩, first⟩
    cases eq_of_beq same
    exact ⟨whole, fun before' rest' whole' => first before' pattern rest' whole' same⟩
  · rintro ⟨whole, first⟩
    refine ⟨⟨pattern, whole, beq_self_eq_true pattern⟩, fun before' found rest' whole' same => ?_⟩
    cases eq_of_beq same
    exact first before' rest' whole'

omit [DecidableEq α] in
/-- An occurrence behind what is skipped is one in the text behind it. -/
theorem Skips.behind {front behind before rest : List α} (skips : Skips pattern front behind)
    (found : front ++ behind = before ++ pattern ++ rest) :
    ∃ before', before = front ++ before' ∧ behind = before' ++ pattern ++ rest := by
  have long := skips before rest found
  have isPrefix : front <+: before := by
    refine List.prefix_of_prefix_length_le (List.prefix_append front behind) ?_ long
    rw [found, List.append_assoc]
    exact List.prefix_append _ _
  rcases isPrefix with ⟨before', rfl⟩
  refine ⟨before', rfl, ?_⟩
  simpa using found

/-- What is skipped is set aside. -/
theorem dropInfix?_skip {front behind : List α} (skips : Skips pattern front behind) :
    (front ++ behind).dropInfix? pattern =
      (behind.dropInfix? pattern).map fun (before, rest) => (front ++ before, rest) := by
  apply Option.ext
  rintro ⟨before, rest⟩
  simp only [Option.map_eq_some_iff, Prod.exists, Prod.mk.injEq, dropInfix?_some]
  constructor
  · rintro ⟨found, first⟩
    rcases skips.behind found with ⟨before', rfl, isBehind⟩
    refine ⟨before', rest, ⟨isBehind, fun other rest' isOther => ?_⟩, rfl, rfl⟩
    have shorter := first (front ++ other) rest' (by simp [isOther])
    simpa using shorter
  · rintro ⟨before', rest', ⟨found, first⟩, rfl, rfl⟩
    refine ⟨by simp [found], fun other rest'' isOther => ?_⟩
    rcases skips.behind isOther with ⟨other', rfl, isBehind⟩
    have shorter := first other' rest'' isBehind
    simpa using shorter

/-- More text behind an occurrence does not matter. -/
theorem dropInfix?_append {text before rest : List α}
    (found : text.dropInfix? pattern = some (before, rest)) (more : List α) :
    (text ++ more).dropInfix? pattern = some (before, rest ++ more) := by
  rw [dropInfix?_some] at found ⊢
  rcases found with ⟨rfl, first⟩
  refine ⟨by simp, fun other rest' isOther => ?_⟩
  -- An occurrence that begins earlier also ends earlier.
  by_contra shorter
  have fits : other ++ pattern <+: before ++ pattern ++ rest := by
    refine List.prefix_of_prefix_length_le ⟨rest', isOther.symm⟩ (List.prefix_append _ more) ?_
    simp only [List.length_append]
    omega
  rcases fits with ⟨rest'', isText⟩
  exact shorter (first other rest'' isText.symm)

omit [DecidableEq α] in
theorem Skips.append {front front' behind : List α}
    (skips : Skips pattern front (front' ++ behind)) (skips' : Skips pattern front' behind) :
    Skips pattern (front ++ front') behind := by
  intro before rest found
  rw [List.append_assoc] at found
  rcases skips.behind found with ⟨before', rfl, isBehind⟩
  have long := skips' before' rest isBehind
  simpa using long

/-- One of two texts is a beginning of the other. -/
def Compatible (left right : List α) : Prop := left <+: right ∨ right <+: left

omit [DecidableEq α] in
/-- A beginning is skipped if the pattern cannot begin at any of its places. -/
theorem skips_of {front behind : List α}
    (differs : ∀ index < front.length, ¬ Compatible pattern ((front ++ behind).drop index))
    (more : List α) : Skips pattern front (behind ++ more) := by
  intro before rest found
  by_contra short
  refine differs before.length (by omega) ?_
  refine List.prefix_or_prefix_of_prefix (List.prefix_append pattern rest) ⟨more, ?_⟩
  have cut := congrArg (List.drop before.length) found
  rw [List.append_assoc before, List.drop_left, ← List.append_assoc, List.drop_append_of_le_length]
    at cut
  · exact cut
  · simp only [List.length_append]
    omega

/-- The first symbol of the pattern is not in the rest of it. -/
def BeginsOnce (pattern : List α) : Prop :=
  ∃ first rest, pattern = first :: rest ∧ first ∉ rest

omit [DecidableEq α] in
theorem BeginsOnce.ne_nil (once : BeginsOnce pattern) : pattern ≠ [] := by
  rcases once with ⟨first, rest, rfl, -⟩
  exact List.cons_ne_nil _ _

omit [DecidableEq α] in
/-- The pattern does not begin with a later symbol of it. -/
theorem BeginsOnce.not_again (once : BeginsOnce pattern) {index : Nat} (positive : 0 < index)
    (inside : index < pattern.length) (more : List α) :
    ¬ Compatible pattern (pattern[index] :: more) := by
  rcases once with ⟨first, rest, rfl, notAgain⟩
  intro compatible
  rcases Nat.exists_eq_succ_of_ne_zero (Nat.ne_of_gt positive) with ⟨index, rfl⟩
  simp only [List.length_cons, Nat.succ_eq_add_one, Nat.add_lt_add_iff_right] at inside
  have same : first = rest[index] := by
    rcases compatible with isPrefix | isPrefix
    · exact (List.cons_prefix_cons.mp isPrefix).1
    · exact (List.cons_prefix_cons.mp isPrefix).1.symm
  exact notAgain (same ▸ List.getElem_mem inside)

omit [DecidableEq α] in
theorem Compatible.of_append {front left right : List α}
    (compatible : Compatible (front ++ left) (front ++ right)) : Compatible left right :=
  compatible.imp (List.prefix_append_right_inj front).mp (List.prefix_append_right_inj front).mp

omit [DecidableEq α] in
theorem Compatible.append {left right : List α} (compatible : Compatible left right)
    (front : List α) : Compatible (front ++ left) (front ++ right) :=
  compatible.imp (List.prefix_append_right_inj front).mpr
    (List.prefix_append_right_inj front).mpr

omit [DecidableEq α] in
theorem Compatible.left {text front behind : List α}
    (compatible : Compatible text (front ++ behind)) : Compatible text front := by
  rcases compatible with isPrefix | isPrefix
  · exact List.prefix_or_prefix_of_prefix isPrefix (List.prefix_append front behind)
  · exact .inr ((List.prefix_append front behind).trans isPrefix)

omit [DecidableEq α] in
/-- A beginning of the pattern is skipped when what comes behind it does not go on with it. -/
theorem skips_take (once : BeginsOnce pattern) {size : Nat} {behind : List α}
    (differs : ¬ Compatible (pattern.drop size) behind) (more : List α) :
    Skips pattern (pattern.take size) (behind ++ more) := by
  refine skips_of (fun index inside compatible => ?_) more
  have short := inside
  rw [List.length_take] at short
  cases index with
  | zero =>
      have whole : Compatible (pattern.take size ++ pattern.drop size)
          (pattern.take size ++ behind) := by
        rwa [List.take_append_drop]
      exact differs whole.of_append
  | succ index =>
      rw [List.drop_append_of_le_length (by omega), List.drop_eq_getElem_cons inside,
        List.getElem_take, List.cons_append] at compatible
      exact once.not_again (Nat.succ_pos index) (by omega) _ compatible

/-- The first occurrence behind a text that does not have one. -/
theorem dropInfix?_of (once : BeginsOnce pattern) {before : List α}
    (none : ¬ pattern <:+: before) (rest : List α) :
    (before ++ pattern ++ rest).dropInfix? pattern = some (before, rest) := by
  rw [dropInfix?_some]
  refine ⟨rfl, fun other rest' isOther => ?_⟩
  by_contra shorter
  by_cases fits : other.length + pattern.length ≤ before.length
  · have isPrefix : other ++ pattern <+: before := by
      refine List.prefix_of_prefix_length_le ⟨rest', isOther.symm⟩ ?_ (by simpa using fits)
      rw [List.append_assoc]
      exact List.prefix_append _ _
    rcases isPrefix with ⟨behind, isBefore⟩
    exact none ⟨other, behind, isBefore⟩
  · -- The later occurrence would begin inside the earlier one.
    have cut := congrArg (List.drop before.length) isOther
    have inside : (other ++ pattern ++ rest').drop before.length =
        pattern.drop (before.length - other.length) ++ rest' := by
      rw [List.append_assoc, List.drop_append, List.drop_of_length_le (by omega), List.nil_append,
        List.drop_append_of_le_length (by omega)]
    rw [inside, List.append_assoc, List.drop_left] at cut
    rw [List.drop_eq_getElem_cons (by omega), List.cons_append] at cut
    have again := once.not_again (show 0 < before.length - other.length by omega) (by omega)
      (pattern.drop (before.length - other.length + 1) ++ rest')
    rw [← cut] at again
    exact again (.inl (List.prefix_append _ _))

end Incremental
