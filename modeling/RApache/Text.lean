import Mathlib.Algebra.Ring.Int.Defs
import Mathlib.Algebra.Ring.Nat
import Mathlib.Data.List.Basic

/-!
# C strings and the string functions the module uses

A C string is the list of its bytes before the terminating NUL.  Pointers into a
string are represented by the two parts they separate.
-/

namespace RApache

/-- The bytes of a C string or of a buffer. -/
abbrev Bytes := List UInt8

/-- Bytes of an ASCII text, for the string constants of the source. -/
def bytes (text : String) : Bytes :=
  text.toList.map fun char => UInt8.ofNat char.toNat

/-- The byte of an ASCII character constant. -/
def byte (char : Char) : UInt8 := UInt8.ofNat char.toNat

/-- `sprintf` for the conversions that the source uses, `%s` and `%u`.  Arguments
are given as the bytes that their conversion prints. -/
def sprintf : (format : Bytes) → (arguments : List Bytes) → Bytes
  | 37 :: 115 :: format, argument :: arguments => argument ++ sprintf format arguments
  | 37 :: 117 :: format, argument :: arguments => argument ++ sprintf format arguments
  | symbol :: format, arguments => symbol :: sprintf format arguments
  | [], _ => []

/-- `strstr`: the text before the first occurrence of `needle`, and the text from
that occurrence on. -/
def strstr (needle : Bytes) : (haystack : Bytes) → Option (Bytes × Bytes)
  | [] => if needle = [] then some ([], []) else none
  | symbol :: haystack =>
      if needle.isPrefixOf (symbol :: haystack) then some ([], symbol :: haystack)
      else (strstr needle haystack).map fun (before, found) => (symbol :: before, found)

/-- A pointer returned by `strstr` splits the string it points into. -/
theorem strstr_append {needle haystack before found : Bytes}
    (result : strstr needle haystack = some (before, found)) :
    haystack = before ++ found := by
  induction haystack generalizing before found with
  | nil =>
      simp only [strstr] at result
      split at result
      next => simp_all
      next => simp at result
  | cons symbol haystack ih =>
      simp only [strstr] at result
      split at result
      next => simp_all
      next =>
        simp only [Option.map_eq_some_iff, Prod.exists, Prod.mk.injEq] at result
        obtain ⟨before', found', result', rfl, rfl⟩ := result
        simp [ih result']

/-- A pointer returned by `strstr` points to an occurrence. -/
theorem strstr_prefix {needle haystack before found : Bytes}
    (result : strstr needle haystack = some (before, found)) : needle <+: found := by
  induction haystack generalizing before found with
  | nil =>
      simp only [strstr] at result
      split at result
      next empty =>
        cases result
        subst empty
        exact List.prefix_refl []
      next => cases result
  | cons symbol haystack ih =>
      simp only [strstr] at result
      split at result
      next isPrefix =>
        cases result
        exact List.isPrefixOf_iff_prefix.mp isPrefix
      next =>
        rcases Option.map_eq_some_iff.mp result with ⟨⟨before', found'⟩, later, same⟩
        cases same
        exact ih later

/-- The string a C function sees in a buffer: everything before the first NUL. -/
def cString (buffer : Bytes) : Bytes := buffer.takeWhile (· ≠ 0)

end RApache
