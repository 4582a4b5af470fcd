import RApache.Apreq.Brigade

/-!
# Parameters, tables and header attributes

The data that the body parsers fill in, and the helpers of `libapreq2` they share.
-/

namespace RApache

/-- An `apreq_param_t`.  The bytes of an upload are in a spool file, so of an upload
the parameter keeps its name and its file name. -/
structure Param where
  name : Bytes
  value : Bytes
  /-- `param->upload != NULL`. -/
  upload : Bool
  deriving DecidableEq, Repr

/-- An `apr_table_t` of parameters, in the order in which they were added. -/
abbrev ParamTable := List Param

/-- `apr_tolower` for ASCII. -/
def aprTolower (symbol : UInt8) : UInt8 :=
  if 65 ≤ symbol ∧ symbol ≤ 90 then symbol + 32 else symbol

/-- `strcasecmp(left, right) == 0`. -/
def strcaseeq (left right : Bytes) : Bool :=
  left.map aprTolower = right.map aprTolower

/-- `apr_table_get`: the first entry with that key. -/
def aprTableGet (table : ParamTable) (key : Bytes) : Option Bytes :=
  (table.find? fun param => strcaseeq param.name key).map Param.value

/-- How a call of `apreq_brigade_concat` ends.  With a `brigade_limit` of 0 it always
writes to a spool file; it fails before the given brigade is written, or while it is
written, and only then empties the brigade. -/
inductive Spool where
  | stored
  | refused (error : Nat)
  | lost (error : Nat)
  deriving DecidableEq, Repr

/-- What the parsers ask of the world: decoding of an urlencoded word, and the
outcome of each call of `apreq_brigade_concat` in order. -/
structure Environment where
  decodev : Bytes → Except AprStatus Bytes
  concat : Nat → Spool

/-! ## Header attributes -/

/-- `apr_isspace`. -/
def aprIsspace (symbol : UInt8) : Bool :=
  symbol = 32 || (9 ≤ symbol && symbol ≤ 13)

/-- `is_2616_token`. -/
def is2616Token (symbol : UInt8) : Bool :=
  !(symbol ∈ bytes " ;,\"\t?=@:\\/()<>{}[]" || symbol < 32 || symbol = 127)

/-- The characters that end an attribute value without quotes. -/
def isTerminator (symbol : UInt8) : Bool :=
  symbol ∈ bytes " ;,\t\r\n"

/-- The label `look_for_end_quote`: the text up to the closing quote, and the text
from that quote on. -/
def lookForEndQuote : (text : Bytes) → Option (Bytes × Bytes)
  | [] => none
  | 34 :: text => some ([], 34 :: text)
  | 92 :: symbol :: text =>
      (lookForEndQuote text).map fun (value, rest) => (92 :: symbol :: value, rest)
  | symbol :: text =>
      (lookForEndQuote text).map fun (value, rest) => (symbol :: value, rest)

theorem lookForEndQuote_length {text value rest : Bytes}
    (found : lookForEndQuote text = some (value, rest)) : rest.length ≤ text.length := by
  fun_induction lookForEndQuote text generalizing value rest with
  | case1 => simp at found
  | case2 text =>
      simp only [Option.some.injEq, Prod.mk.injEq] at found
      simp [← found.2]
  | case3 symbol text ih =>
      simp only [Option.map_eq_some_iff, Prod.exists, Prod.mk.injEq] at found
      rcases found with ⟨value', rest', found, -, sameRest⟩
      have shorter := ih found
      simp only [List.length_cons, ← sameRest]
      omega
  | case4 symbol text _ _ ih =>
      simp only [Option.map_eq_some_iff, Prod.exists, Prod.mk.injEq] at found
      rcases found with ⟨value', rest', found, -, sameRest⟩
      have shorter := ih found
      simp only [List.length_cons, ← sameRest]
      omega

/-- The index of the last character of the attribute's key: trailing blanks are
skipped, but not back to the first `nlen` characters behind `hdr`. -/
def keyEnd (seen : Bytes) (limit : Nat) : (index : Nat) → Nat
  | 0 => 0
  | index + 1 =>
      if aprIsspace (seen.getD (index + 1) 0) && limit < index + 1 then
        keyEnd seen limit index
      else index + 1

/-- The key before an equals sign is `name`.  `seen` is the text before the sign and
`hdr` the index at which the search for this attribute began.  A key that would begin
before the text matches nothing. -/
def keyMatches (seen : Bytes) (hdr : Nat) (name : Bytes) : Bool :=
  let last := keyEnd seen (hdr + name.length) (seen.length - 1)
  if last + 1 < name.length then false
  else
    let key := last + 1 - name.length
    strcaseeq ((seen.drop key).take name.length) name &&
      (key = hdr || (0 < key && !is2616Token (seen.getD (key - 1) 0)))

/-- The loop of `apreq_header_attribute`.  `seen` is the text before `hdr`, which
begins with `rest`. -/
def headerAttributeLoop (name seen rest : Bytes) : Except AprStatus Bytes :=
  match _found : rest.dropWhile (· ≠ 61) with
  | [] => .error .noAttr
  | sign :: behind =>
      let before := seen ++ rest.takeWhile (· ≠ 61)
      let blanks := behind.takeWhile aprIsspace
      match _quoted : behind.dropWhile aprIsspace with
      | 34 :: text =>
          match _closed : lookForEndQuote text with
          | none => .error .badSeq
          | some (value, rest') =>
              if keyMatches before seen.length name then .ok value
              else
                headerAttributeLoop name (before ++ sign :: blanks ++ 34 :: value) rest'
      | text =>
          let value := text.takeWhile fun symbol => !isTerminator symbol
          if keyMatches before seen.length name then .ok value
          else
            headerAttributeLoop name (before ++ sign :: blanks ++ value)
              (text.dropWhile fun symbol => !isTerminator symbol)
termination_by rest.length
decreasing_by
  · have found := congrArg List.length _found
    have quoted := congrArg List.length _quoted
    have closed := lookForEndQuote_length _closed
    have shorter := (List.dropWhile_suffix (l := rest) (· ≠ 61)).length_le
    have shorter' := (List.dropWhile_suffix (l := behind) aprIsspace).length_le
    simp only [List.length_cons] at found quoted
    omega
  · have found := congrArg List.length _found
    have quoted := congrArg List.length _quoted
    have shorter := (List.dropWhile_suffix (l := rest) (· ≠ 61)).length_le
    have shorter' := (List.dropWhile_suffix (l := behind) aprIsspace).length_le
    have shorter'' := (List.dropWhile_suffix (l := text)
      fun symbol => !isTerminator symbol).length_le
    simp only [List.length_cons] at found
    omega

/-- `apreq_header_attribute`: the value of the attribute `name`. -/
def apreqHeaderAttribute (hdr name : Bytes) : Except AprStatus Bytes :=
  headerAttributeLoop name [] (hdr.dropWhile (· = 61))

end RApache
