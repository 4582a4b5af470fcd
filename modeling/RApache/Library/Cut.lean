import Mathlib.Data.List.Basic

/-!
# Cutting a text at a separator

`cutAt p` gives the text before the first symbol with a property, and the text behind it.
-/

namespace Incremental

variable {α : Type} {p : α → Bool}

/-- The text before the first symbol with the property and the text behind it, if there is
one. -/
def cutAt (p : α → Bool) : List α → Option (List α × List α)
  | [] => none
  | symbol :: text =>
      if p symbol then some ([], text)
      else (cutAt p text).map fun (before, behind) => (symbol :: before, behind)

/-- A text with a separator behind a beginning that has none. -/
theorem cutAt_of {before : List α} {separator : α} (noSeparator : ∀ symbol ∈ before, ¬ p symbol)
    (isSeparator : p separator) (behind : List α) :
    cutAt p (before ++ separator :: behind) = some (before, behind) := by
  induction before with
  | nil => simp [cutAt, isSeparator]
  | cons symbol before ih =>
      have first := noSeparator symbol List.mem_cons_self
      have rest := ih fun symbol isSymbol => noSeparator symbol (List.mem_cons_of_mem _ isSymbol)
      simp only [List.cons_append, cutAt, rest]
      rw [if_neg first]
      rfl

theorem cutAt_eq_none {text : List α} : cutAt p text = none ↔ ∀ symbol ∈ text, ¬ p symbol := by
  induction text with
  | nil => simp [cutAt]
  | cons symbol text ih =>
      simp only [cutAt]
      split
      next isSeparator => simp [isSeparator]
      next notSeparator => simp [ih, notSeparator]

/-- What a cut says about the text. -/
theorem cutAt_eq_some {text before behind : List α} :
    cutAt p text = some (before, behind) ↔
      ∃ separator, text = before ++ separator :: behind ∧ p separator ∧
        ∀ symbol ∈ before, ¬ p symbol := by
  constructor
  · intro found
    induction text generalizing before with
    | nil => simp [cutAt] at found
    | cons symbol text ih =>
        simp only [cutAt] at found
        split at found
        next isSeparator =>
          cases found
          exact ⟨symbol, rfl, isSeparator, by simp⟩
        next notSeparator =>
          simp only [Option.map_eq_some_iff, Prod.exists, Prod.mk.injEq] at found
          rcases found with ⟨before', behind', found, rfl, rfl⟩
          rcases ih found with ⟨separator, rfl, isSeparator, none⟩
          refine ⟨separator, rfl, isSeparator, ?_⟩
          intro symbol' isSymbol
          rcases List.mem_cons.mp isSymbol with rfl | isSymbol
          · exact notSeparator
          · exact none symbol' isSymbol
  · rintro ⟨separator, rfl, isSeparator, none⟩
    exact cutAt_of none isSeparator behind

/-- A cut does not depend on text behind the separator. -/
theorem cutAt_append {text before behind : List α} (found : cutAt p text = some (before, behind))
    (more : List α) : cutAt p (text ++ more) = some (before, behind ++ more) := by
  rcases cutAt_eq_some.mp found with ⟨separator, rfl, isSeparator, none⟩
  rw [List.append_assoc, List.cons_append]
  exact cutAt_of none isSeparator _

theorem cutAt_length {text before behind : List α}
    (found : cutAt p text = some (before, behind)) :
    text.length = before.length + 1 + behind.length := by
  rcases cutAt_eq_some.mp found with ⟨separator, rfl, -, -⟩
  simp only [List.length_append, List.length_cons]
  omega

end Incremental
