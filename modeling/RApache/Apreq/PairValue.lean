import Mathlib.Data.List.TakeWhile
import RApache.Apreq.Util

/-!
# Values of attributes

`apreq_header_attribute` and `get_pair` read the same two kinds of values: a text up to a symbol
that ends it, and a text between quotes in which a backslash keeps the next symbol.
-/

namespace RApache

/-! ## Quotes -/

theorem lookForEndQuote_append {text value rest : Bytes}
    (found : lookForEndQuote text = some (value, rest)) (more : Bytes) :
    lookForEndQuote (text ++ more) = some (value, rest ++ more) ∧
      ∃ behind, rest = 34 :: behind := by
  fun_induction lookForEndQuote text generalizing value rest with
  | case1 => cases found
  | case2 text =>
      cases found
      exact ⟨rfl, text, rfl⟩
  | case3 symbol text ih =>
      simp only [Option.map_eq_some_iff, Prod.exists, Prod.mk.injEq] at found
      rcases found with ⟨value', rest', found, rfl, rfl⟩
      rcases ih found with ⟨longer, quote⟩
      exact ⟨by simp [lookForEndQuote, longer], quote⟩
  | case4 symbol text notQuote notEscape ih =>
      simp only [Option.map_eq_some_iff, Prod.exists, Prod.mk.injEq] at found
      rcases found with ⟨value', rest', found, rfl, rfl⟩
      rcases ih found with ⟨longer, quote⟩
      refine ⟨?_, quote⟩
      cases text with
      | nil => cases found
      | cons symbol' text =>
          have notBackslash : symbol ≠ 92 := by
            rintro rfl
            exact notEscape symbol' text rfl rfl
          rw [List.cons_append, lookForEndQuote, longer]
          · rfl
          · exact notQuote
          · intro symbol'' text' same
            exact absurd same notBackslash

theorem lookForEndQuote_whole {text value rest : Bytes}
    (found : lookForEndQuote text = some (value, rest)) : text = value ++ rest := by
  fun_induction lookForEndQuote text generalizing value rest with
  | case1 => cases found
  | case2 text =>
      cases found
      rfl
  | case3 symbol text ih =>
      simp only [Option.map_eq_some_iff, Prod.exists, Prod.mk.injEq] at found
      rcases found with ⟨value', rest', found, rfl, rfl⟩
      rw [ih found]
      rfl
  | case4 symbol text _ _ ih =>
      simp only [Option.map_eq_some_iff, Prod.exists, Prod.mk.injEq] at found
      rcases found with ⟨value', rest', found, rfl, rfl⟩
      rw [ih found]
      rfl

/-- A text that may stand between quotes in a header line. -/
inductive QuotedText : Bytes → Prop where
  | nil : QuotedText []
  | plain {symbol : UInt8} {text : Bytes}
      (ordinary : symbol ≠ 34 ∧ symbol ≠ 92 ∧ symbol ≠ 10 ∧ symbol ≠ 0)
      (behind : QuotedText text) : QuotedText (symbol :: text)
  | escaped {symbol : UInt8} {text : Bytes} (ordinary : symbol ≠ 10 ∧ symbol ≠ 0)
      (behind : QuotedText text) : QuotedText (92 :: symbol :: text)

theorem QuotedText.lookForEndQuote {text : Bytes} (quoted : QuotedText text) (rest : Bytes) :
    lookForEndQuote (text ++ 34 :: rest) = some (text, 34 :: rest) := by
  induction quoted with
  | nil => rfl
  | @plain symbol text ordinary behind ih =>
      have step (behind : Bytes) : RApache.lookForEndQuote (symbol :: behind) =
          (RApache.lookForEndQuote behind).map fun found => (symbol :: found.1, found.2) := by
        refine RApache.lookForEndQuote.eq_4 _ _ ?_ ?_
        · exact ordinary.1
        · intro symbol' text' isEscape
          exact absurd isEscape ordinary.2.1
      rw [List.cons_append, step, ih, Option.map_some]
  | escaped ordinary behind ih =>
      simp only [List.cons_append, RApache.lookForEndQuote, ih, Option.map_some]

theorem QuotedText.symbols {text : Bytes} (quoted : QuotedText text) :
    ∀ symbol ∈ text, symbol ≠ 10 ∧ symbol ≠ 0 := by
  induction quoted with
  | nil => simp
  | plain ordinary behind ih =>
      rw [List.forall_mem_cons]
      exact ⟨ordinary.2.2, ih⟩
  | escaped ordinary behind ih =>
      rw [List.forall_mem_cons, List.forall_mem_cons]
      exact ⟨by decide, ordinary, ih⟩

/-! ## Values -/

/-- A value: a text without a symbol that ends it, or a quoted string. -/
inductive PairValue : Bytes → Prop where
  | token {value : Bytes} (symbols : ∀ symbol ∈ value, isTerminator symbol = false)
      (first : ∀ symbol ∈ value.head?, aprIsspace symbol = false ∧ symbol ≠ 34) : PairValue value
  | quoted {text : Bytes} (closed : lookForEndQuote (text ++ [34]) = some (text, [34])) :
      PairValue (34 :: text ++ [34])

/-- What comes behind a pair. -/
def EndsPair (rest : Bytes) : Prop := ∀ symbol ∈ rest.head?, symbol = 59

theorem dropWhile_eq_self {p : UInt8 → Bool} {text : Bytes} :
    text.dropWhile p = text ↔ ∀ symbol ∈ text.head?, p symbol = false := by
  rw [List.dropWhile_eq_self_iff]
  cases text with
  | nil => simp
  | cons symbol text => simp

theorem EndsPair.notBlank {rest : Bytes} (ends : EndsPair rest) :
    ∀ symbol ∈ rest.head?, aprIsspace symbol = false := by
  intro symbol isFirst
  rw [ends symbol isFirst]
  decide

theorem endsPair_flatMap {α : Type} {text : α → Bytes} (begins : ∀ x, (text x).head? = some 59)
    (xs : List α) {rest : Bytes} (ends : EndsPair rest) : EndsPair (xs.flatMap text ++ rest) := by
  cases xs with
  | nil => exact ends
  | cons x xs =>
      intro symbol isFirst
      have first := begins x
      rw [List.flatMap_cons, List.append_assoc, List.head?_append, first] at isFirst
      cases isFirst
      rfl

end RApache
