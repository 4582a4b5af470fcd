import RApache.Apreq.Brigade

/-!
# Encoding and decoding of URLs

`apreq_encode` and `apreq_decode`, with every byte that they write to their destination.
The destination lies apart from the source.
-/

namespace RApache

/-- `apreq_charset_t`. -/
inductive Charset where
  | ascii
  | latin1
  | cp1252
  | utf8
  deriving DecidableEq, Repr

/-- The number of a charset. -/
def Charset.code : Charset → Nat
  | ascii => 0
  | latin1 => 1
  | cp1252 => 2
  | utf8 => 8

/-- How `url_decode` ends. -/
inductive DecodeStatus where
  | success
  | incomplete
  | badSeq
  deriving DecidableEq, Repr

/-- `APR_SUCCESS`, `APR_INCOMPLETE` and `APREQ_ERROR_BADSEQ`. -/
def DecodeStatus.code : DecodeStatus → Nat
  | success => 0
  | incomplete => 70008
  | badSeq => 120012

/-! ## Characters -/

/-- `apr_isxdigit`. -/
def aprIsxdigit (c : UInt8) : Bool :=
  (48 ≤ c && c ≤ 57) || (65 ≤ c && c ≤ 70) || (97 ≤ c && c ≤ 102)

/-- `apr_isalnum`.  For bytes that are not ASCII it depends on the locale. -/
def aprIsalnum (locale : UInt8 → Bool) (c : UInt8) : Bool :=
  if c < 128 then (48 ≤ c && c ≤ 57) || (65 ≤ c && c ≤ 90) || (97 ≤ c && c ≤ 122)
  else locale c

/-- The value of a hexadecimal digit. -/
def hexDigit (what : UInt8) : UInt8 :=
  if 65 ≤ what then ((what &&& 0xdf) - 65) + 10 else what - 48

/-- `hex2_to_char`. -/
def hex2ToChar (first second : UInt8) : UInt8 := hexDigit first * 16 + hexDigit second

/-- `hex4_to_bmp`. -/
def hex4ToBmp (a b c d : UInt8) : UInt16 :=
  (((hexDigit a).toUInt16 * 16 + (hexDigit b).toUInt16) * 16 + (hexDigit c).toUInt16) * 16 +
    (hexDigit d).toUInt16

/-- `c2x_table`. -/
def c2xTable (digit : UInt8) : UInt8 := if digit < 10 then digit + 48 else digit + 55

/-- `is_89AB`. -/
def is89AB (c : UInt8) : Bool := c ∈ bytes "89ABab"

/-- `is_enc8`: the text begins with so many escapes of continuation bytes. -/
def isEnc8 : (word : Bytes) → (wlen : Nat) → Bool
  | _, 0 => true
  | percent :: first :: second :: word, wlen + 1 =>
      percent = 37 && is89AB first && aprIsxdigit second && isEnc8 word wlen
  | _, _ + 1 => false

/-- `fragment_charset`: the charset of an escape that the text behind it cuts off. -/
def fragmentCharset (word : Bytes) : Charset :=
  let wlen := word.length / 3
  if !isEnc8 word wlen then .latin1
  else
    match word.drop (3 * wlen) with
    | [percent, first] => if is89AB first && percent = 37 then .utf8 else .latin1
    | [percent] => if percent = 37 then .utf8 else .latin1
    | _ => .utf8

/-! ## Writing -/

/-- Where the destination pointer stands, the charset, and the bytes written so far, each
with its index. -/
structure UrlState where
  d : Nat := 0
  charset : Charset := .ascii
  writes : List (Nat × UInt8) := []
  deriving Repr

namespace UrlState

/-- `*d++ = c`. -/
def put (c : UInt8) (st : UrlState) : UrlState :=
  { st with d := st.d + 1, writes := st.writes ++ [(st.d, c)] }

/-- `++d`. -/
def skip (st : UrlState) : UrlState := { st with d := st.d + 1 }

/-- `*charset = charset`. -/
def setCharset (charset : Charset) (st : UrlState) : UrlState := { st with charset }

/-- Several bytes. -/
def puts (buffer : Bytes) (st : UrlState) : UrlState := buffer.foldl (fun st c => st.put c) st

end UrlState

/-- What `url_decode` leaves: its status, `*dlen`, the charset, and all bytes written. -/
structure UrlDecoded where
  status : DecodeStatus
  dlen : Nat
  charset : Charset
  writes : List (Nat × UInt8)
  deriving Repr

/-- `*d = 0`, and `*dlen` is set. -/
def UrlState.finish (status : DecodeStatus) (st : UrlState) : UrlDecoded where
  status
  dlen := st.d
  charset := st.charset
  writes := (st.put 0).writes

/-- The source from `s` on is moved behind the output, `*dlen` is set before that. -/
def UrlState.incomplete (s : Bytes) (st : UrlState) : UrlDecoded where
  status := .incomplete
  dlen := st.d
  charset := st.charset
  writes := ((st.puts s).put 0).writes

/-! ## `url_decode` -/

/-- The bytes that so many escapes stand for. -/
def escapedBytes : (word : Bytes) → (wlen : Nat) → Bytes
  | _ :: first :: second :: word, wlen + 1 => hex2ToChar first second :: escapedBytes word wlen
  | _, _ => []

/-- The case of a first byte of a sequence in `utf8` with `more` bytes behind it.  There is
no result if the escapes of these bytes are cut off. -/
def utf8Lead (more : Nat) (c : UInt8) (rest : Bytes) (st : UrlState) :
    Option (UrlState × Bytes) :=
  if rest.length < 3 * more then
    if fragmentCharset rest = .utf8 then none
    else some ((st.setCharset (fragmentCharset rest)).put c, rest)
  else if isEnc8 rest more then
    some ((st.setCharset .utf8).puts (c :: escapedBytes rest more), rest.drop (3 * more))
  else some ((st.setCharset .latin1).put c, rest)

/-- The escape of a byte, with the text behind it. -/
def hexEscape (c : UInt8) (rest : Bytes) (st : UrlState) : Option (UrlState × Bytes) :=
  if c < 0x80 ∨ st.charset = .cp1252 then some (st.put c, rest)
  else if c < 0xA0 then some ((st.setCharset .cp1252).put c, rest)
  else if c < 0xC0 then some ((st.setCharset .latin1).put c, rest)
  else if st.charset = .latin1 then some (st.put c, rest)
  else if c < 0xE0 then utf8Lead 1 c rest st
  else if c < 0xF0 then utf8Lead 2 c rest st
  else if c < 0xF8 then utf8Lead 3 c rest st
  else if c < 0xFC then utf8Lead 4 c rest st
  else if c < 0xFE then utf8Lead 5 c rest st
  else some ((st.setCharset .utf8).skip, rest)

/-- The bytes of a character in `utf8`. -/
def utf8Bytes (c : UInt16) : Bytes :=
  let first (lead : UInt16) (shift : UInt16) : UInt8 := (lead ||| (c >>> shift)).toUInt8
  let next (shift : UInt16) : UInt8 := ((0x80 : UInt16) ||| ((c >>> shift) &&& 0x3F)).toUInt8
  if c < 0x80 then [c.toUInt8]
  else if c < 0x800 then [first 0xC0 6, next 0]
  else [first 0xE0 12, next 6, next 0]

/-- A text that begins with `uXXXX`: the character and the text behind it. -/
def unicodeEscape : (behind : Bytes) → Option (UInt16 × Bytes)
  | u :: h1 :: h2 :: h3 :: h4 :: rest =>
      if (u = 117 || u = 85) && aprIsxdigit h1 && aprIsxdigit h2 && aprIsxdigit h3 &&
          aprIsxdigit h4 then
        some (hex4ToBmp h1 h2 h3 h4, rest)
      else none
  | _ => none

/-- The text behind a percent sign can never become an escape. -/
def badSequence : (behind : Bytes) → Bool
  | [] => false
  | [first] => !aprIsxdigit first && first ≠ 117 && first ≠ 85
  | first :: second :: rest =>
      3 ≤ rest.length || !aprIsxdigit second ||
        (!aprIsxdigit first && first ≠ 117 && first ≠ 85)

/-- The case of a percent sign that does not begin the escape of a byte. -/
def otherEscape (behind : Bytes) (st : UrlState) : UrlDecoded ⊕ UrlState × Bytes :=
  match unicodeEscape behind with
  | some (c, rest) =>
      if st.charset = .ascii ∨ st.charset = .utf8 then
        .inr ((st.setCharset .utf8).puts (utf8Bytes c), rest)
      else .inl (st.finish .badSeq)
  | none =>
      if badSequence behind then .inl (st.finish .badSeq)
      else .inl (st.incomplete (37 :: behind))

/-- The case of a percent sign. -/
def percentEscape (behind : Bytes) (st : UrlState) : UrlDecoded ⊕ UrlState × Bytes :=
  match behind with
  | first :: second :: rest =>
      if aprIsxdigit first && aprIsxdigit second then
        match hexEscape (hex2ToChar first second) rest st with
        | some next => .inr next
        | none => .inl ((st.setCharset .utf8).incomplete (37 :: behind))
      else otherEscape behind st
  | _ => otherEscape behind st

/-! ## What an escape writes -/

namespace UrlState

/-- From `st` to `next` some bytes are written, none of them before `st.d` or from `next.d`
on. -/
structure Advances (st next : UrlState) : Prop where
  d : st.d ≤ next.d
  writes : ∃ more, next.writes = st.writes ++ more ∧
    ∀ write ∈ more, st.d ≤ write.1 ∧ write.1 < next.d

theorem Advances.refl (st : UrlState) : st.Advances st :=
  ⟨Nat.le_refl _, [], by simp, by simp⟩

theorem Advances.trans {st next last : UrlState} (first : st.Advances next)
    (second : next.Advances last) : st.Advances last := by
  rcases first with ⟨d, more, writes, bounds⟩
  rcases second with ⟨d', more', writes', bounds'⟩
  refine ⟨Nat.le_trans d d', more ++ more', by simp [writes', writes], ?_⟩
  intro write isWrite
  rcases List.mem_append.mp isWrite with isWrite | isWrite
  · exact ⟨(bounds write isWrite).1, Nat.lt_of_lt_of_le (bounds write isWrite).2 d'⟩
  · exact ⟨Nat.le_trans d (bounds' write isWrite).1, (bounds' write isWrite).2⟩

@[simp] theorem put_d (c : UInt8) (st : UrlState) : (st.put c).d = st.d + 1 := rfl
@[simp] theorem put_charset (c : UInt8) (st : UrlState) : (st.put c).charset = st.charset := rfl
@[simp] theorem skip_d (st : UrlState) : st.skip.d = st.d + 1 := rfl
@[simp] theorem skip_charset (st : UrlState) : st.skip.charset = st.charset := rfl
@[simp] theorem setCharset_d (charset : Charset) (st : UrlState) :
    (st.setCharset charset).d = st.d := rfl
@[simp] theorem setCharset_charset (charset : Charset) (st : UrlState) :
    (st.setCharset charset).charset = charset := rfl

theorem advances_put (c : UInt8) (st : UrlState) : st.Advances (st.put c) :=
  ⟨Nat.le_succ _, [(st.d, c)], rfl, by simp⟩

theorem advances_skip (st : UrlState) : st.Advances st.skip :=
  ⟨Nat.le_succ _, [], by simp [skip], by simp⟩

theorem Advances.setCharset {st next : UrlState} (charset : Charset)
    (advances : (st.setCharset charset).Advances next) : st.Advances next :=
  ⟨advances.d, advances.writes⟩

@[simp] theorem puts_cons (c : UInt8) (buffer : Bytes) (st : UrlState) :
    st.puts (c :: buffer) = (st.put c).puts buffer := rfl

@[simp] theorem puts_d (buffer : Bytes) (st : UrlState) :
    (st.puts buffer).d = st.d + buffer.length := by
  induction buffer generalizing st with
  | nil => rfl
  | cons c buffer ih =>
      simp only [puts_cons, ih, put_d, List.length_cons]
      omega

@[simp] theorem puts_charset (buffer : Bytes) (st : UrlState) :
    (st.puts buffer).charset = st.charset := by
  induction buffer generalizing st with
  | nil => rfl
  | cons c buffer ih => simp only [puts_cons, ih, put_charset]

theorem advances_puts (buffer : Bytes) (st : UrlState) : st.Advances (st.puts buffer) := by
  induction buffer generalizing st with
  | nil => exact .refl st
  | cons c buffer ih => exact (advances_put c st).trans (ih (st.put c))

end UrlState

theorem escapedBytes_length (word : Bytes) (wlen : Nat) :
    (escapedBytes word wlen).length ≤ wlen := by
  fun_induction escapedBytes word wlen with
  | case1 _ first second word wlen ih => simpa using ih
  | case2 => simp

/-- Text behind the beginning of an escape is passed over: at most one byte more is written
than is read. -/
structure Passes (st : UrlState) (behind : Bytes) (next : UrlState) (rest : Bytes) : Prop where
  advances : st.Advances next
  output : next.d + rest.length ≤ st.d + 1 + behind.length
  length : rest.length ≤ behind.length

theorem passes_put (c : UInt8) (charset : Charset) (rest : Bytes) (st : UrlState) :
    Passes st rest ((st.setCharset charset).put c) rest :=
  ⟨(UrlState.advances_put c _).setCharset, by simp, Nat.le_refl _⟩

theorem fragmentCharset_ne_ascii (word : Bytes) : fragmentCharset word ≠ .ascii := by
  unfold fragmentCharset
  simp only
  split
  next => simp
  next => split <;> (try split) <;> simp

theorem utf8Lead_passes {more : Nat} {c : UInt8} {rest rest' : Bytes} {st next : UrlState}
    (escape : utf8Lead more c rest st = some (next, rest')) :
    Passes st rest next rest' ∧ next.charset ≠ .ascii := by
  unfold utf8Lead at escape
  split at escape
  next =>
    split at escape
    next => cases escape
    next =>
      cases escape
      exact ⟨passes_put c _ rest st, fragmentCharset_ne_ascii rest⟩
  next enough =>
    split at escape
    next =>
      cases escape
      have count := escapedBytes_length rest more
      refine ⟨⟨(UrlState.advances_puts _ _).setCharset, ?_, by simp⟩, by simp⟩
      simp only [UrlState.puts_d, UrlState.setCharset_d, List.length_cons, List.length_drop]
      omega
    next =>
      cases escape
      exact ⟨passes_put c _ rest st, by simp⟩

theorem hexEscape_passes {c : UInt8} {rest rest' : Bytes} {st next : UrlState}
    (escape : hexEscape c rest st = some (next, rest')) :
    Passes st rest next rest' ∧ (0x80 ≤ c ∨ st.charset ≠ .ascii → next.charset ≠ .ascii) := by
  have lead {more : Nat} (isLead : utf8Lead more c rest st = some (next, rest')) :
      Passes st rest next rest' ∧ (0x80 ≤ c ∨ st.charset ≠ .ascii → next.charset ≠ .ascii) :=
    ⟨(utf8Lead_passes isLead).1, fun _ => (utf8Lead_passes isLead).2⟩
  have one (charset : Charset) (isNext : some ((st.setCharset charset).put c, rest) =
      some (next, rest')) (notAscii : 0x80 ≤ c ∨ st.charset ≠ .ascii → charset ≠ .ascii) :
      Passes st rest next rest' ∧ (0x80 ≤ c ∨ st.charset ≠ .ascii → next.charset ≠ .ascii) := by
    cases isNext
    exact ⟨passes_put c charset rest st, notAscii⟩
  unfold hexEscape at escape
  split at escape
  next plain =>
    refine one st.charset escape fun notAscii => ?_
    rcases notAscii with large | notAscii
    · rcases plain with small | cp1252
      · exact absurd small (UInt8.not_lt.mpr large)
      · simp [cp1252]
    · exact notAscii
  next =>
    split at escape
    next => exact one _ escape (by simp)
    next =>
      split at escape
      next => exact one _ escape (by simp)
      next =>
        split at escape
        next latin1 => exact one st.charset escape (by simp [latin1])
        next =>
          repeat'
            split at escape
            next => exact lead escape
          cases escape
          exact ⟨⟨(UrlState.advances_skip _).setCharset, by simp, Nat.le_refl _⟩, by simp⟩

theorem utf8Bytes_length (c : UInt16) : (utf8Bytes c).length ≤ 3 := by
  simp only [utf8Bytes]
  split
  next => simp
  next => split <;> simp

theorem unicodeEscape_length {behind rest : Bytes} {c : UInt16}
    (escape : unicodeEscape behind = some (c, rest)) : behind.length = rest.length + 5 := by
  unfold unicodeEscape at escape
  split at escape
  next =>
    split at escape
    next =>
      cases escape
      rfl
    next => cases escape
  next => cases escape

/-- What is left behind a percent sign whose escape is complete. -/
structure Escaped (st : UrlState) (behind : Bytes) (next : UrlState) (rest : Bytes) : Prop where
  advances : st.Advances next
  output : next.d + rest.length < st.d + behind.length
  length : rest.length < behind.length
  charset : st.charset ≠ .ascii → next.charset ≠ .ascii

theorem otherEscape_escaped {behind rest : Bytes} {st next : UrlState}
    (escape : otherEscape behind st = .inr (next, rest)) : Escaped st behind next rest := by
  unfold otherEscape at escape
  split at escape
  next c rest' found =>
    have length := unicodeEscape_length found
    have count := utf8Bytes_length c
    split at escape
    next =>
      cases escape
      refine ⟨(UrlState.advances_puts _ _).setCharset, ?_, by omega, by simp⟩
      simp only [UrlState.puts_d, UrlState.setCharset_d]
      omega
    next => cases escape
  next =>
    split at escape
    next => cases escape
    next => cases escape

theorem percentEscape_escaped {behind rest : Bytes} {st next : UrlState}
    (escape : percentEscape behind st = .inr (next, rest)) : Escaped st behind next rest := by
  unfold percentEscape at escape
  split at escape
  next first second rest' =>
    split at escape
    next =>
      split at escape
      next isNext found =>
        cases escape
        rcases hexEscape_passes found with ⟨⟨advances, output, length⟩, charset⟩
        refine ⟨advances, ?_, ?_, fun notAscii => charset (.inr notAscii)⟩
        · simp only [List.length_cons]
          omega
        · simp only [List.length_cons]
          omega
      next => cases escape
    next => exact otherEscape_escaped escape
  next => exact otherEscape_escaped escape

/-! ## `apreq_decode` and `apreq_encode` -/

/-- `url_decode`. -/
def urlDecode (s : Bytes) (st : UrlState) : UrlDecoded :=
  match s with
  | [] => st.finish .success
  | c :: s =>
      if c = 43 then urlDecode s (st.put 32)
      else if c = 37 then
        match _escape : percentEscape s st with
        | .inl result => result
        | .inr (next, rest) => urlDecode rest next
      else urlDecode s (st.put c)
termination_by s.length
decreasing_by
  · simp
  · have shorter := (percentEscape_escaped _escape).length
    simp only [List.length_cons]
    omega
  · simp

/-- `apreq_decode`. -/
def apreqDecode (s : Bytes) : UrlDecoded := urlDecode s {}

/-- What `apreq_decode` returns. -/
def UrlDecoded.value (result : UrlDecoded) : Nat := result.status.code + result.charset.code

/-- What `apreq_encode` writes for a byte. -/
def encodeByte (locale : UInt8 → Bool) (c : UInt8) : Bytes :=
  if aprIsalnum locale c || c ∈ bytes "-._~" then [c]
  else if c = 32 then [43]
  else [37, c2xTable (c >>> 4), c2xTable (c &&& 0xf)]

/-- The loop of `apreq_encode`. -/
def apreqEncodeLoop (locale : UInt8 → Bool) (src : Bytes) : UrlState :=
  src.foldl (fun st c => st.puts (encodeByte locale c)) {}

/-- `apreq_encode`: the number that it returns, and all bytes written. -/
def apreqEncode (locale : UInt8 → Bool) (src : Bytes) : Nat × List (Nat × UInt8) :=
  let st := apreqEncodeLoop locale src
  (st.d, (st.put 0).writes)

theorem urlDecode_plain {c : UInt8} (plain : c ≠ 37) (s : Bytes) (st : UrlState) :
    urlDecode (c :: s) st = urlDecode s (st.put (if c = 43 then 32 else c)) := by
  rw [urlDecode]
  split
  next => rfl
  next => rfl

theorem urlDecode_percent (s : Bytes) (st : UrlState) :
    urlDecode (37 :: s) st =
      match percentEscape s st with
      | .inl result => result
      | .inr (next, rest) => urlDecode rest next := by
  rw [urlDecode, if_neg (by decide), if_pos rfl]
  split
  next escape => rw [escape]
  next escape => rw [escape]

end RApache
