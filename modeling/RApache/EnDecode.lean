import RApache.Apreq.UrlCode
import RApache.Body

/-!
# `urlEncode` and `urlDecode`

The two R functions call `apreq_encode` and `apreq_decode` with buffers of their own and
interpret what these return.
-/

namespace RApache

/-! ## Buffers -/

/-- What a buffer holds after some writes. -/
def memory (old : Nat → UInt8) (writes : List (Nat × UInt8)) : Nat → UInt8 :=
  writes.foldl (fun buf (index, c) => Function.update buf index c) old

/-- `mkChar` of a buffer in which a NUL comes before `size`. -/
def bufferString (buf : Nat → UInt8) (size : Nat) : Bytes :=
  cString ((List.range size).map buf)

/-- The bytes that `encode` allocates; the product and the sum are of type `int`. -/
def encodeSize (len : Int32) : UInt64 := Session.sizeOfInt (3 * len + 1)

/-- `encode`: `none` is `R_NilValue`.  `old` is what the buffer holds before. -/
def encode (locale : UInt8 → Bool) (old : Nat → UInt8) (str : Bytes) : Option Bytes :=
  let (length, writes) := apreqEncode locale str
  if length ≠ 0 then some (bufferString (memory old writes) (length + 1)) else none

/-- `decode`.  `R_alloc` gives no buffer for a length of zero. -/
def decode (old : Nat → UInt8) (str : Bytes) : Option Bytes :=
  if str.length = 0 then none
  else
    let result := apreqDecode str
    if result.value = 0 then some (bufferString (memory old result.writes) (result.dlen + 1))
    else none

/-- `RApache_urlEnDecode`: `SET_STRING_ELT` with `R_NilValue` is an error of R. -/
def urlEnDecode (locale : UInt8 → Bool) (old : Nat → UInt8) (enc : Bool)
    (str : List Bytes) : Option (List Bytes) :=
  str.mapM (if enc then encode locale old else decode old)

/-! ## What a buffer holds -/

namespace UrlState

/-- The output so far, from the beginning of the buffer on. -/
structure Holds (st : UrlState) (output : Bytes) : Prop where
  d : st.d = output.length
  memory : ∀ old, (List.range output.length).map (memory old st.writes) = output

theorem holds_nil : Holds {} [] := ⟨rfl, fun _ => rfl⟩

theorem Holds.put {st : UrlState} {output : Bytes} (holds : st.Holds output) (c : UInt8) :
    (st.put c).Holds (output ++ [c]) := by
  rcases holds with ⟨d, held⟩
  refine ⟨by simp [d], fun old => ?_⟩
  have step : RApache.memory old (st.put c).writes =
      Function.update (RApache.memory old st.writes) output.length c := by
    simp [UrlState.put, RApache.memory, List.foldl_append, d]
  rw [step, List.length_append, List.length_singleton, List.range_succ, List.map_append,
    List.map_singleton, Function.update_self]
  congr 1
  refine (List.map_congr_left ?_).trans (held old)
  intro index isIndex
  exact Function.update_of_ne (Nat.ne_of_lt (List.mem_range.mp isIndex)) _ _

theorem Holds.puts {st : UrlState} {output : Bytes} (holds : st.Holds output)
    (buffer : Bytes) : (st.puts buffer).Holds (output ++ buffer) := by
  induction buffer generalizing st output with
  | nil => simpa [UrlState.puts] using holds
  | cons c buffer ih => simpa using ih (holds.put c)

/-- A string is read back from its buffer up to the NUL behind it. -/
theorem Holds.string {st : UrlState} {output : Bytes} (holds : st.Holds output)
    (noNul : 0 ∉ output) (old : Nat → UInt8) :
    bufferString (RApache.memory old (st.put 0).writes) (output.length + 1) = output := by
  have held := (holds.put 0).memory old
  rw [List.length_append, List.length_singleton] at held
  rw [bufferString, held, cString]
  rw [List.takeWhile_append_of_pos]
  · simp
  · intro c isC
    simp only [ne_eq, decide_not, Bool.not_eq_eq_eq_not, Bool.not_true, decide_eq_false_iff_not]
    exact fun isNul => noNul (isNul ▸ isC)

end UrlState

/-! ## Encoding and decoding one string -/

section Bytes

variable (locale : UInt8 → Bool)

theorem forall_uint8 {P : UInt8 → Prop} (all : ∀ i : Fin 256, P (UInt8.ofNat i)) (c : UInt8) :
    P c := by
  simpa using all ⟨c.toNat, c.toNat_lt⟩

/-- The two digits of a byte are read back. -/
theorem c2xTable_digits (c : UInt8) :
    aprIsxdigit (c2xTable (c >>> 4)) = true ∧ aprIsxdigit (c2xTable (c &&& 0xf)) = true ∧
      hex2ToChar (c2xTable (c >>> 4)) (c2xTable (c &&& 0xf)) = c ∧
      c2xTable (c >>> 4) ≠ 0 ∧ c2xTable (c &&& 0xf) ≠ 0 :=
  forall_uint8 (P := fun c => aprIsxdigit (c2xTable (c >>> 4)) = true ∧
    aprIsxdigit (c2xTable (c &&& 0xf)) = true ∧
      hex2ToChar (c2xTable (c >>> 4)) (c2xTable (c &&& 0xf)) = c ∧
      c2xTable (c >>> 4) ≠ 0 ∧ c2xTable (c &&& 0xf) ≠ 0) (by decide +kernel) c

theorem not_alnum (c : UInt8) (locale : UInt8 → Bool) (mark : c = 37 ∨ c = 43) :
    (aprIsalnum locale c || c ∈ bytes "-._~") = false := by
  rcases mark with same | same
  · subst same
    have notMark : (37 : UInt8) ∉ bytes "-._~" := by decide +kernel
    simp [aprIsalnum, notMark]
  · subst same
    have notMark : (43 : UInt8) ∉ bytes "-._~" := by decide +kernel
    simp [aprIsalnum, notMark]

/-- The output of `apreq_encode`. -/
def encoded (str : Bytes) : Bytes := str.flatMap (encodeByte locale)

theorem apreqEncodeLoop_holds (str : Bytes) :
    (apreqEncodeLoop locale str).Holds (encoded locale str) := by
  have from' (st : UrlState) (output : Bytes) (holds : st.Holds output) :
      (str.foldl (fun st c => st.puts (encodeByte locale c)) st).Holds
        (output ++ encoded locale str) := by
    induction str generalizing st output with
    | nil => simpa [encoded] using holds
    | cons c str ih =>
        have rest := ih _ _ (holds.puts (encodeByte locale c))
        simpa [encoded] using rest
  exact from' {} [] UrlState.holds_nil

theorem encodeByte_length (c : UInt8) :
    0 < (encodeByte locale c).length ∧ (encodeByte locale c).length ≤ 3 := by
  unfold encodeByte
  split
  next => simp
  next => split <;> simp

theorem encodeByte_ne_zero {c : UInt8} (notNul : c ≠ 0) : 0 ∉ encodeByte locale c := by
  unfold encodeByte
  rcases c2xTable_digits c with ⟨-, -, -, first, second⟩
  split
  next => simpa using Ne.symm notNul
  next =>
    split
    next => simp
    next => simp [Ne.symm first, Ne.symm second]

theorem encoded_ne_zero {str : Bytes} (noNul : 0 ∉ str) : 0 ∉ encoded locale str := by
  intro isNul
  rcases List.mem_flatMap.mp isNul with ⟨c, isC, inByte⟩
  exact encodeByte_ne_zero locale (fun zero => noNul (zero ▸ isC)) inByte

theorem encode_eq (old : Nat → UInt8) {str : Bytes} (noNul : 0 ∉ str) :
    encode locale old str = if str = [] then none else some (encoded locale str) := by
  have holds := apreqEncodeLoop_holds locale str
  have length : (apreqEncode locale str).1 = (encoded locale str).length := holds.d
  have string : bufferString (memory old (apreqEncode locale str).2)
      ((encoded locale str).length + 1) = encoded locale str :=
    holds.string (encoded_ne_zero locale noNul) old
  simp only [encode, length, string]
  cases str with
  | nil => simp [encoded]
  | cons c str =>
      have length := (encodeByte_length locale c).1
      have positive : (encoded locale (c :: str)).length ≠ 0 := by
        simp only [encoded, List.flatMap_cons, List.length_append]
        omega
      simp [positive]

/-- A byte that is decoded from its encoding without a change of the charset. -/
def Kept (c : UInt8) : Prop := c < 128 ∨ locale c = true

theorem urlDecode_encodeByte {c : UInt8} (kept : Kept locale c) (rest : Bytes)
    (st : UrlState) :
    urlDecode (encodeByte locale c ++ rest) st = urlDecode rest (st.put c) := by
  unfold encodeByte
  split
  next verbatim =>
    have notPercent : c ≠ 37 := by
      intro same
      rw [not_alnum c locale (.inl same)] at verbatim
      cases verbatim
    have notPlus : c ≠ 43 := by
      intro same
      rw [not_alnum c locale (.inr same)] at verbatim
      cases verbatim
    rw [List.singleton_append, urlDecode_plain notPercent, if_neg notPlus]
  next escaped =>
    split
    next same =>
      subst same
      rw [List.singleton_append, urlDecode_plain (by decide), if_pos rfl]
    next =>
      have ascii : c < 128 := by
        rcases kept with ascii | alnum
        · exact ascii
        · by_contra large
          simp [aprIsalnum, large, alnum] at escaped
      rcases c2xTable_digits c with ⟨first, second, value, -⟩
      have escape : percentEscape ([c2xTable (c >>> 4), c2xTable (c &&& 0xf)] ++ rest) st =
          .inr (st.put c, rest) := by
        simp [percentEscape, first, second, value, hexEscape, ascii]
      rw [List.cons_append, urlDecode_percent, escape]

theorem urlDecode_encoded {str : Bytes} (kept : ∀ c ∈ str, Kept locale c) (st : UrlState) :
    urlDecode (encoded locale str) st = (st.puts str).finish .success := by
  induction str generalizing st with
  | nil =>
      rw [encoded, List.flatMap_nil, urlDecode]
      rfl
  | cons c str ih =>
      rcases List.forall_mem_cons.mp kept with ⟨keptFirst, keptRest⟩
      rw [encoded, List.flatMap_cons, urlDecode_encodeByte locale keptFirst,
        UrlState.puts_cons]
      exact ih keptRest (st.put c)

theorem encoded_eq_nil {str : Bytes} (empty : encoded locale str = []) : str = [] := by
  cases str with
  | nil => rfl
  | cons c str =>
      have length := (encodeByte_length locale c).1
      have isEmpty := congrArg List.length empty
      simp only [encoded, List.flatMap_cons, List.length_append, List.length_nil] at isEmpty
      omega

theorem decode_encoded (old : Nat → UInt8) {str : Bytes} (notEmpty : str ≠ [])
    (noNul : 0 ∉ str) (kept : ∀ c ∈ str, Kept locale c) :
    decode old (encoded locale str) = some str := by
  have holds := UrlState.holds_nil.puts str
  have decoded : apreqDecode (encoded locale str) =
      (UrlState.puts str {}).finish .success := urlDecode_encoded locale kept {}
  have string : bufferString (memory old ((UrlState.puts str {}).put 0).writes)
      (str.length + 1) = str := by
    simpa using holds.string (by simpa using noNul) old
  have length : (encoded locale str).length ≠ 0 := by
    intro empty
    exact notEmpty (encoded_eq_nil locale (List.length_eq_zero_iff.mp empty))
  have value : ((UrlState.puts str {}).finish .success).value = 0 := by
    simp [UrlState.finish, UrlDecoded.value, DecodeStatus.code, Charset.code]
  have dlen : ((UrlState.puts str {}).finish .success).dlen = str.length := by
    simp [UrlState.finish]
  simp only [decode, length, if_false, decoded, value, if_true, dlen]
  exact congrArg some string

/-! ## Strings that are not kept -/

theorem value_ne_zero {result : UrlDecoded}
    (failed : result.status ≠ .success ∨ result.charset ≠ .ascii) : result.value ≠ 0 := by
  rcases result with ⟨status, dlen, charset, writes⟩
  cases status with
  | success =>
      cases charset with
      | ascii => simp at failed
      | latin1 => simp [UrlDecoded.value, DecodeStatus.code, Charset.code]
      | cp1252 => simp [UrlDecoded.value, DecodeStatus.code, Charset.code]
      | utf8 => simp [UrlDecoded.value, DecodeStatus.code, Charset.code]
  | incomplete => simp [UrlDecoded.value, DecodeStatus.code]
  | badSeq => simp [UrlDecoded.value, DecodeStatus.code]

/-- A failure at a percent sign writes at most the text behind it and a NUL. -/
theorem percentEscape_stops {behind : Bytes} {st : UrlState} {result : UrlDecoded}
    (escape : percentEscape behind st = .inl result) :
    result = st.finish .badSeq ∨
      ∃ charset, result = (st.setCharset charset).incomplete (37 :: behind) := by
  have other (escape : otherEscape behind st = .inl result) :
      result = st.finish .badSeq ∨
        ∃ charset, result = (st.setCharset charset).incomplete (37 :: behind) := by
    unfold otherEscape at escape
    split at escape
    next =>
      split at escape
      next => cases escape
      next => cases escape; exact .inl rfl
    next =>
      split at escape
      next => cases escape; exact .inl rfl
      next => cases escape; exact .inr ⟨st.charset, rfl⟩
  unfold percentEscape at escape
  split at escape
  next =>
    split at escape
    next =>
      split at escape
      next => cases escape
      next => cases escape; exact .inr ⟨.utf8, rfl⟩
    next => exact other escape
  next => exact other escape

/-- An escape with no text behind it that it may be is a failure. -/
theorem percentEscape_fails {behind : Bytes} {st : UrlState} {result : UrlDecoded}
    (escape : percentEscape behind st = .inl result) : result.status ≠ .success := by
  rcases percentEscape_stops escape with stopped | ⟨charset, stopped⟩
  · rw [stopped]
    simp [UrlState.finish]
  · rw [stopped]
    simp [UrlState.incomplete]

/-- A charset that has once been detected is reported in the end. -/
theorem urlDecode_charset (s : Bytes) (st : UrlState) (notAscii : st.charset ≠ .ascii) :
    (urlDecode s st).value ≠ 0 := by
  fun_induction urlDecode s st with
  | case1 st => exact value_ne_zero (.inr notAscii)
  | case2 st s ih => exact ih notAscii
  | case3 st s result escape _ => exact value_ne_zero (.inl (percentEscape_fails escape))
  | case4 st s next rest escape _ ih =>
      exact ih ((percentEscape_escaped escape).charset notAscii)
  | case5 st c s _ _ ih => exact ih notAscii

/-- A byte that is not kept gives a failure or a charset other than ASCII. -/
theorem urlDecode_not_kept {str : Bytes} {c : UInt8} (isC : c ∈ str)
    (notKept : ¬ Kept locale c) (st : UrlState) :
    (urlDecode (encoded locale str) st).value ≠ 0 := by
  induction str generalizing st with
  | nil => simp at isC
  | cons first str ih =>
      rw [encoded, List.flatMap_cons]
      by_cases kept : Kept locale first
      · have inRest : c ∈ str := by
          rcases List.mem_cons.mp isC with same | inRest
          · exact (notKept (same ▸ kept)).elim
          · exact inRest
        rw [urlDecode_encodeByte locale kept]
        exact ih inRest (st.put first)
      · have large : ¬ first < 128 := fun small => kept (.inl small)
        have notAlnum : ¬ locale first = true := fun alnum => kept (.inr alnum)
        have notMark : first ∉ bytes "-._~" := by
          intro mark
          have small : ∀ mark ∈ bytes "-._~", mark < 128 := by decide +kernel
          exact large (small first mark)
        have notSpace : first ≠ 32 := by
          intro same
          exact large (same ▸ (by decide))
        have escaped : encodeByte locale first =
            [37, c2xTable (first >>> 4), c2xTable (first &&& 0xf)] := by
          simp [encodeByte, aprIsalnum, large, notAlnum, notMark, notSpace]
        rcases c2xTable_digits first with ⟨digit, digit', value, -⟩
        rw [escaped, List.cons_append, urlDecode_percent]
        cases escape : percentEscape
            ([c2xTable (first >>> 4), c2xTable (first &&& 0xf)] ++
              str.flatMap (encodeByte locale)) st with
        | inl result => exact value_ne_zero (.inl (percentEscape_fails escape))
        | inr next =>
            rcases next with ⟨next, rest⟩
            simp only [List.cons_append, List.nil_append, percentEscape, digit, digit',
              Bool.and_self, if_true, value] at escape
            cases found : hexEscape first (str.flatMap (encodeByte locale)) st with
            | none => simp [found] at escape
            | some isNext =>
                simp only [found, Sum.inr.injEq] at escape
                subst escape
                exact urlDecode_charset rest next
                  ((hexEscape_passes found).2 (.inl (UInt8.not_lt.mp large)))

theorem decode_not_kept (old : Nat → UInt8) {str : Bytes} {c : UInt8} (isC : c ∈ str)
    (notKept : ¬ Kept locale c) : decode old (encoded locale str) = none := by
  have failed := urlDecode_not_kept locale isC notKept {}
  unfold decode
  split
  next => rfl
  next => exact if_neg failed

/-- One string comes back from its encoding exactly when it is not empty and all of its
bytes are kept. -/
theorem encode_decode_iff (old old' : Nat → UInt8) {str : Bytes} (noNul : 0 ∉ str) :
    (encode locale old str).bind (decode old') = some str ↔
      str ≠ [] ∧ ∀ c ∈ str, Kept locale c := by
  rw [encode_eq locale old noNul]
  constructor
  · intro back
    by_cases empty : str = []
    · simp [empty] at back
    · refine ⟨empty, ?_⟩
      by_contra notAll
      push Not at notAll
      rcases notAll with ⟨c, isC, notKept⟩
      simp [empty, decode_not_kept locale old' isC notKept] at back
  · rintro ⟨notEmpty, kept⟩
    simp [notEmpty, decode_encoded locale old' notEmpty noNul kept]

end Bytes

/-! ## Vectors -/

/-- `urlDecode` undoes `urlEncode` exactly when no string is empty and every byte is ASCII,
or a letter or digit of the locale: the length of zero that `apreq_encode` returns for an
empty string, and the charset that `apreq_decode` adds to its status, are taken for
errors. -/
theorem urlEnDecode_round_trip_iff (locale : UInt8 → Bool) (old old' : Nat → UInt8)
    (x : List Bytes) (noNul : ∀ str ∈ x, 0 ∉ str) :
    (∃ y, urlEnDecode locale old true x = some y ∧ y.length = x.length ∧
        urlEnDecode locale old' false y = some x) ↔
      ∀ str ∈ x, str ≠ [] ∧ ∀ c ∈ str, c < 128 ∨ locale c = true := by
  simp only [urlEnDecode, if_true, Bool.false_eq_true, if_false]
  induction x with
  | nil => simp
  | cons str x ih =>
      rcases List.forall_mem_cons.mp noNul with ⟨noNulFirst, noNulRest⟩
      rw [List.forall_mem_cons, ← ih noNulRest]
      have first := encode_decode_iff locale old old' noNulFirst
      simp only [Kept] at first
      rw [← first]
      simp only [List.mapM_cons, Option.pure_def, Option.bind_eq_bind]
      constructor
      · rintro ⟨y, encodes, length, decodes⟩
        simp only [Option.bind_eq_some_iff] at encodes
        rcases encodes with ⟨code, isCode, codes, areCodes, same⟩
        cases same
        simp only [List.mapM_cons, Option.pure_def, Option.bind_eq_bind,
          Option.bind_eq_some_iff, Option.some.injEq, List.cons.injEq] at decodes
        rcases decodes with ⟨back, isBack, backs, areBacks, same, sameRest⟩
        refine ⟨?_, codes, areCodes, by simpa using length, sameRest ▸ areBacks⟩
        rw [isCode, Option.bind_some, isBack, same]
      · rintro ⟨back, codes, areCodes, length, areBacks⟩
        rcases Option.bind_eq_some_iff.mp back with ⟨code, isCode, isBack⟩
        refine ⟨code :: codes, by simp [isCode, areCodes], by simp [length], ?_⟩
        simp [isBack, areBacks]

/-- Two plain strings. -/
theorem plain_strings_round_trip :
    ∃ y, urlEnDecode (fun _ => false) (fun _ => 0) true [bytes "a b", bytes "100%"] = some y ∧
      y.length = 2 ∧
        urlEnDecode (fun _ => false) (fun _ => 0) false y =
          some [bytes "a b", bytes "100%"] :=
  (urlEnDecode_round_trip_iff (fun _ => false) (fun _ => 0) (fun _ => 0)
    [bytes "a b", bytes "100%"] (by decide +kernel)).mpr (by decide +kernel)

/-- The letter `é` in `utf8`. -/
theorem accent_is_an_error :
    ¬ ∃ y, urlEnDecode (fun _ => false) (fun _ => 0) true [[0xC3, 0xA9]] = some y ∧
      y.length = 1 ∧
        urlEnDecode (fun _ => false) (fun _ => 0) false y = some [[0xC3, 0xA9]] := by
  rintro ⟨y, encodes, -, decodes⟩
  have isCode : urlEnDecode (fun _ => false) (fun _ => 0) true [[0xC3, 0xA9]] =
      some [bytes "%C3%A9"] := by decide +kernel
  have failed : urlEnDecode (fun _ => false) (fun _ => 0) false [bytes "%C3%A9"] = none := by
    have isEncoded : bytes "%C3%A9" = encoded (fun _ => false) [0xC3, 0xA9] := by
      decide +kernel
    have failed : decode (fun _ => 0) (bytes "%C3%A9") = none := by
      rw [isEncoded]
      exact decode_not_kept (fun _ => false) _ List.mem_cons_self
        (show ¬ Kept (fun _ => false) 0xC3 by simp [Kept])
    simp [urlEnDecode, failed]
  rw [isCode] at encodes
  cases encodes
  rw [failed] at decodes
  cases decodes

/-! ## The buffers are large enough -/

/-- The bytes that `decode` has written; without a buffer there are none. -/
def decodeWrites (str : Bytes) : List (Nat × UInt8) :=
  if str.length = 0 then [] else (apreqDecode str).writes

/-- All writes for a string lie in the buffers that `encode` and `decode` allocate. -/
structure BuffersHold (locale : UInt8 → Bool) (str : Bytes) : Prop where
  encode : ∀ write ∈ (apreqEncode locale str).2,
    write.1 < (encodeSize (Int32.ofNat str.length)).toNat
  decode : ∀ write ∈ decodeWrites str, write.1 < str.length

/-- The bytes of a sequence in `utf8` that follow its first byte. -/
def followingBytes (c : UInt8) : Nat :=
  if c < 0xE0 then 1
  else if c < 0xF0 then 2
  else if c < 0xF8 then 3
  else if c < 0xFC then 4
  else 5

/-- The text behind the first percent sign is the beginning of an escape that the end of
the string cuts off. -/
def cutsOff : (behind : Bytes) → Bool
  | first :: second :: rest =>
      if aprIsxdigit first && aprIsxdigit second then
        let c := hex2ToChar first second
        0xC0 ≤ c && c < 0xFE && decide (rest.length < 3 * followingBytes c) &&
          decide (fragmentCharset rest = .utf8)
      else (unicodeEscape (first :: second :: rest)).isNone &&
        !badSequence (first :: second :: rest)
  | behind => !badSequence behind

theorem utf8Lead_eq_none (more : Nat) (c : UInt8) (rest : Bytes) (st : UrlState) :
    utf8Lead more c rest st = none ↔
      rest.length < 3 * more ∧ fragmentCharset rest = .utf8 := by
  unfold utf8Lead
  by_cases short : rest.length < 3 * more
  · by_cases utf8 : fragmentCharset rest = .utf8 <;> simp [short, utf8]
  · by_cases escapes : isEnc8 rest more = true <;> simp [short, escapes]

theorem hexEscape_eq_none (c : UInt8) (rest : Bytes) {st : UrlState}
    (ascii : st.charset = .ascii) :
    hexEscape c rest st = none ↔ (0xC0 ≤ c ∧ c < 0xFE) ∧
      rest.length < 3 * followingBytes c ∧ fragmentCharset rest = .utf8 := by
  have below {bound : UInt8} (small : c < bound) (atMost : bound ≤ 0xC0) : ¬ 0xC0 ≤ c :=
    fun large => absurd (UInt8.lt_of_lt_of_le small atMost) (UInt8.not_lt.mpr large)
  have under {bound : UInt8} (small : c < bound) (atMost : bound ≤ 0xFE) : c < 0xFE :=
    UInt8.lt_of_lt_of_le small atMost
  unfold hexEscape followingBytes
  simp only [ascii, reduceCtorEq, or_false, if_false]
  by_cases c80 : c < 0x80
  · simp [c80, below c80 (by decide)]
  by_cases cA0 : c < 0xA0
  · simp [c80, cA0, below cA0 (by decide)]
  by_cases cC0 : c < 0xC0
  · simp [c80, cA0, cC0, below cC0 (by decide)]
  have large : 0xC0 ≤ c := UInt8.not_lt.mp cC0
  simp only [c80, cA0, cC0, large, if_false, true_and]
  by_cases cE0 : c < 0xE0
  · simp [cE0, under cE0 (by decide), utf8Lead_eq_none]
  by_cases cF0 : c < 0xF0
  · simp [cE0, cF0, under cF0 (by decide), utf8Lead_eq_none]
  by_cases cF8 : c < 0xF8
  · simp [cE0, cF0, cF8, under cF8 (by decide), utf8Lead_eq_none]
  by_cases cFC : c < 0xFC
  · simp [cE0, cF0, cF8, cFC, under cFC (by decide), utf8Lead_eq_none]
  by_cases cFE : c < 0xFE
  · simp [cE0, cF0, cF8, cFC, cFE, utf8Lead_eq_none]
  · simp [cE0, cF0, cF8, cFC, cFE]

/-- What happens at the first percent sign. -/
theorem percentEscape_first (behind : Bytes) {st : UrlState} (ascii : st.charset = .ascii) :
    if cutsOff behind then
      ∃ charset, percentEscape behind st = .inl ((st.setCharset charset).incomplete (37 :: behind))
    else
      percentEscape behind st = .inl (st.finish .badSeq) ∨
        ∃ next rest, percentEscape behind st = .inr (next, rest) := by
  have short (behind : Bytes) (none : unicodeEscape behind = none) :
      if !badSequence behind then
        ∃ charset, otherEscape behind st = .inl ((st.setCharset charset).incomplete (37 :: behind))
      else
        otherEscape behind st = .inl (st.finish .badSeq) ∨
          ∃ next rest, otherEscape behind st = .inr (next, rest) := by
    cases bad : badSequence behind with
    | true => simp [otherEscape, none, bad]
    | false => exact ⟨st.charset, by simp [otherEscape, none, bad, UrlState.setCharset]⟩
  match behind with
  | [] => exact short [] rfl
  | [first] => exact short [first] rfl
  | first :: second :: rest =>
      rw [cutsOff, percentEscape]
      cases digits : aprIsxdigit first && aprIsxdigit second with
      | false =>
          simp only [Bool.false_eq_true, if_false]
          cases escape : unicodeEscape (first :: second :: rest) with
          | none => exact short _ escape
          | some found =>
              rcases found with ⟨c, rest'⟩
              simp [otherEscape, escape, ascii]
      | true =>
          have none := hexEscape_eq_none (hex2ToChar first second) rest ascii
          simp only [if_true, Bool.and_eq_true, decide_eq_true_eq, and_assoc] at none ⊢
          split
          next cut =>
            refine ⟨.utf8, ?_⟩
            rw [none.mpr cut]
          next notCut =>
            right
            cases found : hexEscape (hex2ToChar first second) rest st with
            | none => exact (notCut (none.mp found)).elim
            | some next => exact ⟨next.1, next.2, rfl⟩

/-- Once an escape has saved a byte there is room for everything that follows. -/
theorem urlDecode_within {n : Nat} (s : Bytes) (st : UrlState) (room : st.d + s.length < n)
    (within : ∀ write ∈ st.writes, write.1 < n) :
    ∀ write ∈ (urlDecode s st).writes, write.1 < n := by
  have advance {st next : UrlState} (advances : st.Advances next) (room : next.d ≤ n)
      (within : ∀ write ∈ st.writes, write.1 < n) : ∀ write ∈ next.writes, write.1 < n := by
    rcases advances with ⟨-, more, writes, bounds⟩
    rw [writes]
    intro write isWrite
    rcases List.mem_append.mp isWrite with isWrite | isWrite
    · exact within write isWrite
    · exact Nat.lt_of_lt_of_le (bounds write isWrite).2 room
  fun_induction urlDecode s st with
  | case1 st =>
      exact advance (UrlState.advances_put 0 st) (Nat.succ_le_of_lt (by simpa using room)) within
  | case2 st s ih =>
      simp only [List.length_cons] at room
      exact ih (by simp only [UrlState.put_d]; omega)
        (advance (UrlState.advances_put 32 st) (by simp only [UrlState.put_d]; omega) within)
  | case3 st s result escape _ =>
      simp only [List.length_cons] at room
      rcases percentEscape_stops escape with same | ⟨charset, same⟩
      · rw [same]
        exact advance (UrlState.advances_put 0 st) (by simp only [UrlState.put_d]; omega) within
      · have advances : st.Advances (((st.setCharset charset).puts (37 :: s)).put 0) :=
          ((UrlState.advances_puts _ _).trans (UrlState.advances_put 0 _)).setCharset
        rw [same]
        refine advance advances ?_ within
        simp only [UrlState.put_d, UrlState.puts_d, UrlState.setCharset_d, List.length_cons]
        omega
  | case4 st s next rest escape _ ih =>
      have escaped := percentEscape_escaped escape
      simp only [List.length_cons] at room
      have output := escaped.output
      exact ih (by omega) (advance escaped.advances (by omega) within)
  | case5 st c s _ _ ih =>
      simp only [List.length_cons] at room
      exact ih (by simp only [UrlState.put_d]; omega)
        (advance (UrlState.advances_put c st) (by simp only [UrlState.put_d]; omega) within)

/-- Text without a percent sign is copied byte by byte. -/
theorem urlDecode_before {before : Bytes} (plain : 37 ∉ before) (rest : Bytes)
    (st : UrlState) :
    urlDecode (before ++ rest) st =
      urlDecode rest (st.puts (before.map fun c => if c = 43 then 32 else c)) := by
  induction before generalizing st with
  | nil => rfl
  | cons c before ih =>
      rcases not_or.mp (mt List.mem_cons.mpr plain) with ⟨notPercent, plain⟩
      rw [List.cons_append, urlDecode_plain (Ne.symm notPercent), List.map_cons,
        UrlState.puts_cons, ih plain]

/-- The NUL behind the output is among the writes. -/
theorem finish_writes (status : DecodeStatus) (st : UrlState) :
    (st.d, 0) ∈ (st.finish status).writes := by
  simp [UrlState.finish, UrlState.put]

theorem incomplete_writes (s : Bytes) (st : UrlState) :
    (st.d + s.length, 0) ∈ (st.incomplete s).writes := by
  simp [UrlState.incomplete, UrlState.put]

theorem encoded_length (locale : UInt8 → Bool) (str : Bytes) :
    (encoded locale str).length ≤ 3 * str.length := by
  induction str with
  | nil => simp [encoded]
  | cons c str ih =>
      have atMost := (encodeByte_length locale c).2
      simp only [encoded, List.flatMap_cons, List.length_append, List.length_cons] at ih ⊢
      omega

theorem encodeSize_toNat {length : Nat} (short : length < 2 ^ 29) :
    (encodeSize (Int32.ofNat length)).toNat = 3 * length + 1 := by
  have size : (3 * Int32.ofNat length + 1) = Int32.ofNat (3 * length + 1) := by
    rw [Int32.ofNat_add, Int32.ofNat_mul]
    rfl
  have value : (Int32.ofNat (3 * length + 1)).toInt = (3 * length + 1 : Nat) :=
    Int32.toInt_ofNat_of_lt (by omega)
  have positive : 0 < Int32.ofNat (3 * length + 1) := by
    rw [Int32.lt_iff_toInt_lt, value, Int32.toInt_zero]
    omega
  rw [encodeSize, size, Session.sizeOfInt_toNat positive, value]
  omega

theorem advances_encode (locale : UInt8 → Bool) (str : Bytes) (st : UrlState) :
    st.Advances (str.foldl (fun st c => st.puts (encodeByte locale c)) st) := by
  induction str generalizing st with
  | nil => exact .refl st
  | cons c str ih => exact (UrlState.advances_puts _ st).trans (ih _)

/-- From an empty buffer all writes lie before the destination pointer. -/
theorem UrlState.Advances.within {st : UrlState} (advances : UrlState.Advances {} st) :
    ∀ write ∈ st.writes, write.1 < st.d := by
  rcases advances with ⟨-, more, writes, bounds⟩
  intro write isWrite
  have inMore : write ∈ ({} : UrlState).writes ++ more := writes ▸ isWrite
  exact (bounds write (by simpa using inMore)).2

/-- The writes of `apreq_encode`, its NUL included, lie in the buffer. -/
theorem encode_within (locale : UInt8 → Bool) {str : Bytes} (short : str.length < 2 ^ 29) :
    ∀ write ∈ (apreqEncode locale str).2,
      write.1 < (encodeSize (Int32.ofNat str.length)).toNat := by
  have length := encoded_length locale str
  have advances := (advances_encode locale str {}).trans (UrlState.advances_put 0 _)
  have last : (apreqEncodeLoop locale str).d = (encoded locale str).length :=
    (apreqEncodeLoop_holds locale str).d
  intro write isWrite
  have bound : write.1 < (apreqEncodeLoop locale str).d + 1 := advances.within write isWrite
  rw [encodeSize_toNat short]
  omega

/-- The string is empty, or its first percent sign begins no escape that the end of the
string cuts off. -/
def SavesByte (str : Bytes) : Prop :=
  str = [] ∨ ∃ before behind, str = before ++ 37 :: behind ∧ 37 ∉ before ∧
    cutsOff behind = false

theorem decode_within_iff (str : Bytes) :
    (∀ write ∈ decodeWrites str, write.1 < str.length) ↔ SavesByte str := by
  constructor
  · intro within
    by_cases empty : str = []
    · exact .inl empty
    have positive : str.length ≠ 0 := fun zero => empty (List.length_eq_zero_iff.mp zero)
    rw [decodeWrites, if_neg positive, apreqDecode] at within
    by_cases percent : 37 ∈ str
    · rcases List.eq_append_cons_of_mem percent with ⟨before, behind, same, plain⟩
      refine .inr ⟨before, behind, same, plain, ?_⟩
      by_contra cut
      rw [same, urlDecode_before plain, urlDecode_percent] at within
      have ascii : (UrlState.puts (before.map fun c => if c = 43 then 32 else c) {}).charset =
          .ascii := by
        simp
      have first := percentEscape_first behind ascii
      rw [if_pos (by simpa using cut)] at first
      rcases first with ⟨charset, first⟩
      rw [first] at within
      have last := within _ (incomplete_writes _ _)
      simp at last
    · rw [← List.append_nil str, urlDecode_before percent, urlDecode] at within
      have last := within _ (finish_writes _ _)
      simp at last
  · rintro (empty | ⟨before, behind, same, plain, complete⟩)
    · simp [empty, decodeWrites]
    · subst same
      have positive : (before ++ 37 :: behind).length ≠ 0 := by simp
      rw [decodeWrites, if_neg positive, apreqDecode, urlDecode_before plain, urlDecode_percent]
      have ascii : (UrlState.puts (before.map fun c => if c = 43 then 32 else c) {}).charset =
          .ascii := by
        simp
      have first := percentEscape_first behind ascii
      rw [if_neg (by simp [complete])] at first
      have advances := UrlState.advances_puts
        (before.map fun c => if c = 43 then 32 else c) ({} : UrlState)
      have within := advances.within
      simp only [UrlState.puts_d, List.length_map, Nat.zero_add] at within
      rcases first with stopped | ⟨next, rest, escape⟩
      · rw [stopped]
        intro write isWrite
        have bound := (advances.trans (UrlState.advances_put 0 _)).within write isWrite
        simp only [UrlState.put_d, UrlState.puts_d, List.length_map, Nat.zero_add] at bound
        simp only [List.length_append, List.length_cons]
        omega
      · have escaped := percentEscape_escaped escape
        have output := escaped.output
        simp only [UrlState.puts_d, List.length_map, Nat.zero_add] at output
        rw [escape]
        refine urlDecode_within rest next ?_ ?_
        · simp only [List.length_append, List.length_cons]
          omega
        · intro write isWrite
          have bound := (advances.trans escaped.advances).within write isWrite
          simp only [List.length_append, List.length_cons]
          omega

/-- The buffers hold everything that is written exactly for the strings that save a byte:
the buffer of `decode` has no room for a NUL behind the output if this is as long as the
input. -/
theorem buffersHold_iff (locale : UInt8 → Bool) (str : Bytes) (short : str.length < 2 ^ 29) :
    BuffersHold locale str ↔ SavesByte str :=
  ⟨fun holds => (decode_within_iff str).mp holds.decode,
    fun saves => ⟨encode_within locale short, (decode_within_iff str).mpr saves⟩⟩

/-- One escape saves two bytes. -/
theorem escape_saves_bytes : BuffersHold (fun _ => false) (bytes "a%20") :=
  (buffersHold_iff (fun _ => false) (bytes "a%20") (by decide +kernel)).mpr
    (.inr ⟨bytes "a", bytes "20", by decide +kernel, by decide +kernel, by decide +kernel⟩)

/-- A string without an escape leaves no room for the NUL. -/
theorem plain_string_overruns : ¬ BuffersHold (fun _ => false) (bytes "a") := by
  intro holds
  rcases (decode_within_iff (bytes "a")).mp holds.decode with empty | ⟨before, behind, same, -⟩
  · exact absurd empty (by decide +kernel)
  · have isPercent : 37 ∈ bytes "a" := by simp [same]
    exact absurd isPercent (by decide +kernel)

end RApache
