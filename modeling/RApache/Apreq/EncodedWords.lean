import RApache.Apreq.Decodev

/-!
# Decoding what `apreq_encode` wrote

Bytes that are not ASCII are escaped and come back if every first byte of a sequence in `utf8`
has its continuation bytes behind it.
-/

namespace RApache

/-- A continuation byte. -/
def isContinuation (c : UInt8) : Bool := 0x80 ≤ c && c < 0xC0

/-- How many continuation bytes belong to a first byte. -/
def continuations (c : UInt8) : Nat :=
  if c < 0xC0 then 0
  else if c < 0xE0 then 1
  else if c < 0xF0 then 2
  else if c < 0xF8 then 3
  else if c < 0xFC then 4
  else 5

/-- A text in which no sequence is cut off.  Every text in `utf8` is one. -/
inductive WholeSequences : Bytes → Prop where
  | nil : WholeSequences []
  | cons {c : UInt8} {tail text : Bytes} : c < 0xFE → tail.length = continuations c →
      (∀ b ∈ tail, isContinuation b) → WholeSequences text → WholeSequences (c :: tail ++ text)

variable (locale : UInt8 → Bool)

/-- A byte that is not ASCII is escaped unless the locale has it among its letters. -/
theorem encodeByte_large {c : UInt8} (large : ¬ c < 128) :
    encodeByte locale c =
      if locale c then [c] else [37, c2xTable (c >>> 4), c2xTable (c &&& 0xf)] := by
  have notMark : c ∉ bytes "-._~" := by
    intro mark
    have small : ∀ mark ∈ bytes "-._~", mark < 128 := by decide +kernel
    exact large (small c mark)
  have notSpace : c ≠ 32 := by
    intro same
    exact large (same ▸ (by decide))
  simp [encodeByte, aprIsalnum, large, notMark, notSpace]

theorem isContinuation_bounds {b : UInt8} (continues : isContinuation b) :
    ¬ b < 128 ∧ ¬ b < 0x80 ∧ b < 0xC0 := by
  simp only [isContinuation, Bool.and_eq_true, decide_eq_true_eq] at continues
  exact ⟨UInt8.not_lt.mpr continues.1, UInt8.not_lt.mpr continues.1, continues.2⟩

/-- The escape of a continuation byte is one that `is_enc8` knows. -/
theorem continuation_digits {b : UInt8} (continues : isContinuation b) :
    is89AB (c2xTable (b >>> 4)) = true :=
  forall_uint8 (P := fun b => isContinuation b → is89AB (c2xTable (b >>> 4)) = true)
    (by decide +kernel) b continues

/-! ## One byte -/

theorem urlDecode_escape {c : UInt8} {rest rest' : Bytes} {st next : UrlState}
    (escape : hexEscape c rest st = some (next, rest')) :
    urlDecode (37 :: c2xTable (c >>> 4) :: c2xTable (c &&& 0xf) :: rest) st =
      urlDecode rest' next := by
  rcases c2xTable_digits c with ⟨first, second, value, -⟩
  rw [urlDecode_percent, percentEscape_hex (by rw [first, second]; rfl), value, escape]

/-- Decoding comes behind `str` with the bytes of `str` written. -/
def Decodes (str source : Bytes) : Prop :=
  ∀ (rest : Bytes) (st : UrlState), ∃ charset,
    urlDecode (source ++ rest) st = urlDecode rest ((st.puts str).setCharset charset)

theorem Decodes.nil : Decodes [] [] := fun _ st => ⟨st.charset, rfl⟩

theorem puts_setCharset (charset : Charset) (buffer : Bytes) (st : UrlState) :
    (st.setCharset charset).puts buffer = (st.puts buffer).setCharset charset := by
  induction buffer generalizing st with
  | nil => rfl
  | cons c buffer ih =>
      rw [UrlState.puts_cons, UrlState.puts_cons, ← ih]
      rfl

theorem puts_append (first second : Bytes) (st : UrlState) :
    st.puts (first ++ second) = (st.puts first).puts second := List.foldl_append

theorem Decodes.append {first second source source' : Bytes} (decodes : Decodes first source)
    (decodes' : Decodes second source') : Decodes (first ++ second) (source ++ source') := by
  intro rest st
  rcases decodes (source' ++ rest) st with ⟨charset, sofar⟩
  rcases decodes' rest ((st.puts first).setCharset charset) with ⟨charset', whole⟩
  refine ⟨charset', ?_⟩
  rw [List.append_assoc, sofar, whole, puts_setCharset, puts_append]
  rfl

/-- A raw byte that is not ASCII. -/
theorem decodes_raw {c : UInt8} (large : ¬ c < 128) : Decodes [c] [c] := by
  intro rest st
  have notPercent : c ≠ 37 := by
    intro same
    exact large (same ▸ (by decide))
  have notPlus : c ≠ 43 := by
    intro same
    exact large (same ▸ (by decide))
  exact ⟨st.charset, by rw [List.singleton_append, urlDecode_plain notPercent, if_neg notPlus]; rfl⟩

theorem decodes_ascii {c : UInt8} (ascii : c < 128) : Decodes [c] (encodeByte locale c) :=
  fun rest st => ⟨st.charset, urlDecode_encodeByte locale (.inl ascii) rest st⟩

theorem decodes_continuation {b : UInt8} (continues : isContinuation b) :
    Decodes [b] (encodeByte locale b) := by
  rcases isContinuation_bounds continues with ⟨large, notPlain, small⟩
  rw [encodeByte_large locale large]
  split
  next => exact decodes_raw large
  next =>
    intro rest st
    have escape : ∃ charset, hexEscape b rest st = some ((st.setCharset charset).put b, rest) := by
      unfold hexEscape
      rw [if_pos small]
      split
      next => exact ⟨st.charset, rfl⟩
      next =>
        split
        next => exact ⟨.cp1252, rfl⟩
        next => exact ⟨.latin1, rfl⟩
    rcases escape with ⟨charset, escape⟩
    refine ⟨charset, ?_⟩
    simp only [List.cons_append, List.nil_append]
    rw [urlDecode_escape escape]
    rfl

theorem decodes_continuations {tail : Bytes} (continue_ : ∀ b ∈ tail, isContinuation b) :
    Decodes tail (encoded locale tail) := by
  induction tail with
  | nil => exact .nil
  | cons b tail ih =>
      rcases List.forall_mem_cons.mp continue_ with ⟨first, rest⟩
      rw [encoded, List.flatMap_cons]
      exact (decodes_continuation locale first).append (ih rest)

/-! ## A sequence -/

theorem hexEscape_lead {c : UInt8} (lead : ¬ c < 0xC0) (last : c < 0xFE) (rest : Bytes)
    (st : UrlState) :
    hexEscape c rest st = some (st.put c, rest) ∨
      hexEscape c rest st = utf8Lead (continuations c) c rest st := by
  have notPlain : ¬ c < 0x80 := fun plain =>
    lead (UInt8.lt_trans plain (by decide))
  have notControl : ¬ c < 0xA0 := fun control =>
    lead (UInt8.lt_trans control (by decide))
  unfold hexEscape continuations
  simp only [notPlain, false_or, if_neg notControl, if_neg lead, if_pos last]
  split_ifs <;> simp

/-- Escapes of continuation bytes, as `is_enc8` and `hex2_to_char` read them. -/
theorem isEnc8_encoded {tail : Bytes} (continue_ : ∀ b ∈ tail, isContinuation b)
    (escaped : ∀ b ∈ tail, locale b = false) (rest : Bytes) :
    isEnc8 (encoded locale tail ++ rest) tail.length = true ∧
      escapedBytes (encoded locale tail ++ rest) tail.length = tail ∧
      (encoded locale tail).length = 3 * tail.length := by
  induction tail with
  | nil => simp [encoded, isEnc8, escapedBytes]
  | cons b tail ih =>
      rcases List.forall_mem_cons.mp continue_ with ⟨first, continue_⟩
      rcases List.forall_mem_cons.mp escaped with ⟨firstEscaped, escaped⟩
      rcases ih continue_ escaped with ⟨isEnc, bytes, length⟩
      have code : encodeByte locale b = [37, c2xTable (b >>> 4), c2xTable (b &&& 0xf)] := by
        rw [encodeByte_large locale (isContinuation_bounds first).1, firstEscaped]
        rfl
      rcases c2xTable_digits b with ⟨-, digit, value, -⟩
      rw [encoded] at isEnc bytes length
      rw [encoded, List.flatMap_cons, code]
      simp only [List.cons_append, List.nil_append, List.length_cons, isEnc8, escapedBytes,
        continuation_digits first, digit, value, isEnc, bytes, length]
      refine ⟨by decide, trivial, by omega⟩

/-- A raw byte among the continuation bytes ends the escapes. -/
theorem escapesOnly_encoded {tail : Bytes} {b : UInt8} (continue_ : ∀ b ∈ tail, isContinuation b)
    (escaped : ∀ b ∈ tail, locale b = false) (large : ¬ b < 128) (rest : Bytes) :
    escapesOnly (encoded locale tail ++ b :: rest) = false := by
  induction tail with
  | nil =>
      have notPercent : b ≠ 37 := by
        intro same
        exact large (same ▸ (by decide))
      match rest with
      | [] | [_] | _ :: _ :: _ => simp [encoded, escapesOnly, notPercent]
  | cons b' tail ih =>
      rcases List.forall_mem_cons.mp continue_ with ⟨first, continue_⟩
      rcases List.forall_mem_cons.mp escaped with ⟨firstEscaped, escaped⟩
      have code : encodeByte locale b' = [37, c2xTable (b' >>> 4), c2xTable (b' &&& 0xf)] := by
        rw [encodeByte_large locale (isContinuation_bounds first).1, firstEscaped]
        rfl
      have rest' := ih continue_ escaped
      rw [encoded] at rest'
      rw [encoded, List.flatMap_cons, code]
      simp [escapesOnly, rest']

/-- Behind the first byte of a whole sequence the continuation bytes are all escaped, or a raw
one ends the escapes among them. -/
theorem escaped_or_raw (tail : Bytes) :
    (∀ b ∈ tail, locale b = false) ∨
      ∃ escaped b more, tail = escaped ++ b :: more ∧ locale b = true ∧
        ∀ b ∈ escaped, locale b = false := by
  induction tail with
  | nil => exact .inl (by simp)
  | cons b tail ih =>
      cases isRaw : locale b with
      | true => exact .inr ⟨[], b, tail, rfl, isRaw, by simp⟩
      | false =>
          rcases ih with all | ⟨escaped, b', more, rfl, isRaw', all⟩
          · exact .inl (List.forall_mem_cons.mpr ⟨isRaw, all⟩)
          · refine .inr ⟨b :: escaped, b', more, rfl, isRaw', ?_⟩
            intro b'' isByte
            rcases List.mem_cons.mp isByte with rfl | isByte
            · exact isRaw
            · exact all b'' isByte

/-- `url_decode` at the escape of a first byte, and what is behind it. -/
theorem utf8Lead_encoded {tail : Bytes} (c : UInt8) (continue_ : ∀ b ∈ tail, isContinuation b)
    (rest : Bytes) (st : UrlState) :
    utf8Lead tail.length c (encoded locale tail ++ rest) st =
        some ((st.setCharset .utf8).puts (c :: tail), rest) ∨
      utf8Lead tail.length c (encoded locale tail ++ rest) st =
        some ((st.setCharset .latin1).put c, encoded locale tail ++ rest) := by
  rcases escaped_or_raw locale tail with escaped | ⟨escaped, b, more, rfl, isRaw, all⟩
  · rcases isEnc8_encoded locale continue_ escaped rest with ⟨isEnc, bytes, length⟩
    refine .inl ?_
    have enough : ¬ (encoded locale tail ++ rest).length < 3 * tail.length := by
      rw [List.length_append, length]
      omega
    rw [utf8Lead, if_neg enough, if_pos isEnc, bytes, ← length, List.drop_left]
  · refine .inr ?_
    have continueFirst : ∀ b ∈ escaped, isContinuation b :=
      fun b isByte => continue_ b (List.mem_append_left _ isByte)
    have large := (isContinuation_bounds (continue_ b (by simp))).1
    have code : encodeByte locale b = [b] := by rw [encodeByte_large locale large, if_pos isRaw]
    have text : encoded locale (escaped ++ b :: more) ++ rest =
        encoded locale escaped ++ b :: (encoded locale more ++ rest) := by
      simp [encoded, code]
    have broken := escapesOnly_encoded locale continueFirst all large
      (encoded locale more ++ rest)
    rw [← text] at broken
    have latin1 : fragmentCharset (encoded locale (escaped ++ b :: more) ++ rest) = .latin1 := by
      simp [fragmentCharset_eq, broken]
    unfold utf8Lead
    split
    next => simp [latin1]
    next enough =>
      have length := (isEnc8_encoded locale continueFirst all []).2.2
      have size : 3 * (escaped ++ b :: more).length =
          (encoded locale escaped).length + (3 * more.length + 2 + 1) := by
        rw [length, List.length_append, List.length_cons]
        omega
      have broken' := escapesOnly_encoded locale continueFirst all large
        ((encoded locale more ++ rest).take (3 * more.length + 2))
      rw [← List.take_succ_cons, ← List.take_length_add_append, ← size, ← text] at broken'
      rw [if_neg]
      rw [isEnc8_eq _ _ (Nat.not_lt.mp enough), broken']
      exact Bool.false_ne_true

/-- A whole sequence. -/
theorem decodes_sequence {c : UInt8} {tail : Bytes} (last : c < 0xFE)
    (length : tail.length = continuations c) (continue_ : ∀ b ∈ tail, isContinuation b) :
    Decodes (c :: tail) (encoded locale (c :: tail)) := by
  have tailDecodes := decodes_continuations locale continue_
  have oneByOne (first : Decodes [c] (encodeByte locale c)) :
      Decodes (c :: tail) (encoded locale (c :: tail)) := by
    rw [encoded, List.flatMap_cons]
    exact first.append tailDecodes
  by_cases ascii : c < 128
  · exact oneByOne (decodes_ascii locale ascii)
  by_cases continues : c < 0xC0
  · have isContinuation : isContinuation c = true := by
      simp [isContinuation, continues, UInt8.not_lt.mp ascii]
    exact oneByOne (decodes_continuation locale isContinuation)
  cases isRaw : locale c with
  | true =>
      refine oneByOne ?_
      rw [encodeByte_large locale ascii, if_pos isRaw]
      exact decodes_raw ascii
  | false =>
      intro rest st
      have code : encodeByte locale c = [37, c2xTable (c >>> 4), c2xTable (c &&& 0xf)] := by
        rw [encodeByte_large locale ascii, isRaw]
        rfl
      -- after a single byte the continuation bytes come one by one
      have single (charset : Charset)
          (escape : hexEscape c (encoded locale tail ++ rest) st =
            some ((st.setCharset charset).put c, encoded locale tail ++ rest)) :
          ∃ charset, urlDecode (encoded locale (c :: tail) ++ rest) st =
            urlDecode rest ((st.puts (c :: tail)).setCharset charset) := by
        rcases tailDecodes rest ((st.setCharset charset).put c) with ⟨charset', more⟩
        refine ⟨charset', ?_⟩
        rw [encoded, List.flatMap_cons, code, List.append_assoc]
        refine (urlDecode_escape escape).trans (more.trans ?_)
        rw [← UrlState.puts_cons, puts_setCharset]
        rfl
      rcases hexEscape_lead continues last (encoded locale tail ++ rest) st with put | lead
      · exact single st.charset put
      · rw [← length] at lead
        rcases utf8Lead_encoded locale c continue_ rest st with utf8 | latin1
        · refine ⟨.utf8, ?_⟩
          rw [encoded, List.flatMap_cons, code, List.append_assoc]
          refine (urlDecode_escape (lead.trans utf8)).trans ?_
          rw [puts_setCharset]
        · exact single .latin1 (lead.trans latin1)

/-- What `apreq_encode` wrote is decoded whatever comes behind it. -/
theorem decodes_encoded {text : Bytes} (whole : WholeSequences text) :
    Decodes text (encoded locale text) := by
  induction whole with
  | nil => exact .nil
  | @cons c tail text last length continue_ _ ih =>
      have both := (decodes_sequence locale last length continue_).append ih
      rwa [encoded, encoded, ← List.flatMap_append] at both

end RApache
