import Mathlib.Data.List.Basic

/-!
# Writing in pieces

A text that is given in pieces may be written in several calls, each of which writes some of what
is left of it at the place where the call before has ended.
-/

namespace Incremental

variable {α : Type} {file text : List α} {position count : Nat}

/-- The file with a text written at a position. -/
def overwrite (file : List α) (position : Nat) (text : List α) : List α :=
  file.take position ++ (text ++ file.drop (position + text.length))

@[simp] theorem overwrite_nil : overwrite file position [] = file := by
  simp [overwrite]

theorem length_overwrite (inside : position ≤ file.length) :
    (overwrite file position text).length = max file.length (position + text.length) := by
  simp only [overwrite, List.length_append, List.length_take, List.length_drop]
  omega

/-- What stands before the position stays. -/
theorem take_overwrite_before (before : count ≤ position) (inside : position ≤ file.length) :
    (overwrite file position text).take count = file.take count := by
  have short : count ≤ (file.take position).length := by
    rw [List.length_take]
    omega
  rw [overwrite, List.take_append_of_le_length short, List.take_take, Nat.min_eq_left before]

/-- The file up to the end of the text. -/
theorem take_overwrite (inside : position ≤ file.length) :
    (overwrite file position text).take (position + text.length) = file.take position ++ text := by
  have length : (file.take position ++ text).length = position + text.length := by
    rw [List.length_append, List.length_take, Nat.min_eq_left inside]
  rw [overwrite, ← List.append_assoc, List.take_left' length]

/-- Two texts, one behind the other. -/
theorem overwrite_append (inside : position ≤ file.length) (first second : List α) :
    overwrite (overwrite file position first) (position + first.length) second =
      overwrite file position (first ++ second) := by
  have length : (file.take position ++ first).length = position + first.length := by
    rw [List.length_append, List.length_take, Nat.min_eq_left inside]
  have left : (overwrite file position first).drop (position + first.length + second.length) =
      file.drop (position + (first ++ second).length) := by
    rw [overwrite, ← List.append_assoc, ← length, List.drop_length_add_append, List.drop_drop,
      length, List.length_append, Nat.add_assoc]
  rw [overwrite, take_overwrite inside, left, overwrite]
  simp only [List.append_assoc]

/-! ## Pieces -/

/-- How many pieces the first symbols of a text make up, and the pieces that are left of it. -/
def dropWritten : (count : Nat) → (pieces : List (List α)) → Nat × List (List α)
  | _, [] => (0, [])
  | count, piece :: pieces =>
      if piece.length ≤ count then
        let (whole, left) := dropWritten (count - piece.length) pieces
        (whole + 1, left)
      else (0, piece.drop count :: pieces)

theorem dropWritten_flatten (count : Nat) (pieces : List (List α)) :
    (dropWritten count pieces).2.flatten = pieces.flatten.drop count := by
  fun_induction dropWritten count pieces with
  | case1 => simp
  | case2 count piece pieces fits whole left isRest ih =>
      rw [isRest] at ih
      rw [List.flatten_cons, List.drop_append, List.drop_of_length_le fits, List.nil_append, ← ih]
  | case3 count piece pieces longer =>
      have short : count ≤ piece.length := by omega
      rw [List.flatten_cons, List.flatten_cons, List.drop_append_of_le_length short]

theorem dropWritten_length (count : Nat) (pieces : List (List α)) :
    (dropWritten count pieces).1 + (dropWritten count pieces).2.length = pieces.length := by
  fun_induction dropWritten count pieces with
  | case1 => rfl
  | case2 count piece pieces fits whole left isRest ih =>
      rw [isRest] at ih
      simp only [List.length_cons] at ih ⊢
      omega
  | case3 => simp

/-- The first piece that is left still has a symbol. -/
theorem dropWritten_long {whole : Nat} {piece : List α} {left pieces : List (List α)}
    (dropped : dropWritten count pieces = (whole, piece :: left)) : piece ≠ [] := by
  fun_induction dropWritten count pieces generalizing whole with
  | case1 => cases dropped
  | case2 count first pieces fits whole' left' isRest ih =>
      cases dropped
      exact ih isRest
  | case3 count first pieces longer =>
      cases dropped
      intro empty
      have short := congrArg List.length empty
      rw [List.length_drop, List.length_nil] at short
      omega

end Incremental
