import RApache.Apreq.EncodedWords
import RApache.Apreq.FormWords
import Mathlib.Data.List.TakeWhile

/-!
# Query strings

`apreq_param_decode`, `apreq_param_encode` and `apreq_parse_query_string`.  A query string is
parsed where it lies, a body in buckets; where every word has a name and an equals sign, the
two parsers find the same parameters.
-/

namespace RApache

open Incremental

/-- The `apr_status_t` of a number. -/
def AprStatus.ofCode (code : Nat) : AprStatus :=
  if code = 0 then .success
  else if code = 70008 then .incomplete
  else if code = 120012 then .badSeq
  else .other code

/-! ## Parameters -/

/-- The bytes before `*dlen` in a destination.  `old` is what it holds before. -/
def UrlDecoded.bytes (old : Nat → UInt8) (result : UrlDecoded) : Bytes :=
  span (memory old result.writes) 0 result.dlen

/-- A name or a value that `apreq_decode` has read: `APREQ_CHARSET_UTF8` is the largest status
that is not an error. -/
def decodeText (old : Bytes → Nat → UInt8) (text : Bytes) : Except AprStatus Bytes :=
  let result := apreqDecode text
  if result.value ≤ Charset.utf8.code then .ok (result.bytes (old text))
  else .error (.ofCode result.value)

/-- The same in `split_urlword`, where the text lies in several buffers. -/
def decodeBuffers (old : Bytes → Nat → UInt8) (v : List Bytes) : Except AprStatus Bytes :=
  let result := apreqDecodev (old v.flatten) v
  if decodevValue result ≤ Charset.utf8.code then .ok (result.bytes (old v.flatten))
  else .error (.ofCode (decodevValue result))

/-- `apreq_param_decode`: the parameter of a word. -/
def apreqParamDecode (old : Bytes → Nat → UInt8) (word : Bytes) (nlen vlen : Nat) :
    Except AprStatus Param :=
  if nlen = 0 then .error .badArg
  else
    match if 0 < vlen then decodeText old ((word.drop (nlen + 1)).take vlen) else .ok [] with
    | .error status => .error status
    | .ok value => (decodeText old (word.take nlen)).map fun name => ⟨name, value, false⟩

/-- `apreq_param_encode`. -/
def apreqParamEncode (locale : UInt8 → Bool) (param : Param) : Bytes :=
  encoded locale param.name ++ byte '=' :: encoded locale param.value

/-! ## `apreq_parse_query_string` -/

/-- A separator, or the end of the string, behind `word`.  An empty word is passed over. -/
def queryWord (old : Bytes → Nat → UInt8) (t : ParamTable) (word : Bytes) (nlen : Nat) :
    Except AprStatus ParamTable :=
  if word = [] then .ok t
  else
    let (nlen, vlen) := if nlen = 0 then (word.length, 0) else (nlen, word.length - nlen - 1)
    (apreqParamDecode old word nlen vlen).map fun param => t ++ [param]

/-- The loop of `apreq_parse_query_string`.  `word` is the text from `start` to `qs`. -/
def parseQueryLoop (old : Bytes → Nat → UInt8) (t : ParamTable) (word : Bytes) (nlen : Nat) :
    (qs : Bytes) → AprStatus × ParamTable
  | [] =>
      match queryWord old t word nlen with
      | .error status => (status, t)
      | .ok t => (.success, t)
  | symbol :: qs =>
      if symbol = byte '=' then
        parseQueryLoop old t (word ++ [symbol]) (if nlen = 0 then word.length else nlen) qs
      else if symbol = byte '&' ∨ symbol = byte ';' then
        match queryWord old t word nlen with
        | .error status => (status, t)
        | .ok t => parseQueryLoop old t [] 0 qs
      else parseQueryLoop old t (word ++ [symbol]) nlen qs

/-- `apreq_parse_query_string`; the string ends at its first NUL. -/
def apreqParseQueryString (old : Bytes → Nat → UInt8) (t : ParamTable) (qs : Bytes) :
    AprStatus × ParamTable :=
  parseQueryLoop old t [] 0 (cString qs)

/-! ## Forms -/

/-- A name and a value as they stand in a form. -/
structure RawWord where
  name : Bytes
  value : Bytes
  named : name ≠ []
  noEquals : ∀ symbol ∈ name, ¬ isEquals symbol
  nameWhole : ∀ symbol ∈ name, ¬ isSeparator symbol
  valueWhole : ∀ symbol ∈ value, ¬ isSeparator symbol

/-- The text of a word. -/
def RawWord.text (word : RawWord) : Bytes := word.name ++ byte '=' :: word.value

/-- Words with separators between them.  There may be one more behind the last word. -/
inductive FormText : List RawWord → Bytes → Prop where
  | empty : FormText [] []
  | last (word : RawWord) : FormText [word] word.text
  | cons (word : RawWord) {words : List RawWord} {separator : UInt8} {text : Bytes} :
      isSeparator separator → FormText words text →
        FormText (word :: words) (word.text ++ separator :: text)

/-- The parameters of some words up to the first that cannot be decoded. -/
def decodeWords (decode : Bytes → Except AprStatus Bytes) (t : ParamTable) :
    List RawWord → ParamTable
  | [] => t
  | word :: words =>
      match decodePair decode word.name word.value with
      | .ok param => decodeWords decode (t ++ [param]) words
      | .error _ => t

section Query

variable (old : Bytes → Nat → UInt8)

/-- Bytes of a word other than an equals sign and a separator are passed over. -/
theorem parseQueryLoop_plain {t : ParamTable} {nlen : Nat} {plain : Bytes}
    (noEquals : ∀ symbol ∈ plain, ¬ isEquals symbol)
    (whole : ∀ symbol ∈ plain, ¬ isSeparator symbol) (word qs : Bytes) :
    parseQueryLoop old t word nlen (plain ++ qs) =
      parseQueryLoop old t (word ++ plain) nlen qs := by
  induction plain generalizing word with
  | nil => simp
  | cons symbol plain ih =>
      rcases List.forall_mem_cons.mp noEquals with ⟨first, noEquals⟩
      rcases List.forall_mem_cons.mp whole with ⟨firstWhole, whole⟩
      have notEquals : symbol ≠ byte '=' := by simpa [isEquals] using first
      have notSeparator : ¬ (symbol = byte '&' ∨ symbol = byte ';') := by
        simpa [isSeparator] using firstWhole
      rw [List.cons_append, parseQueryLoop, if_neg notEquals, if_neg notSeparator,
        ih noEquals whole, List.append_assoc, List.singleton_append]

/-- Behind the first equals sign all bytes up to a separator are passed over. -/
theorem parseQueryLoop_value {t : ParamTable} {nlen : Nat} (named : nlen ≠ 0) {value : Bytes}
    (whole : ∀ symbol ∈ value, ¬ isSeparator symbol) (word qs : Bytes) :
    parseQueryLoop old t word nlen (value ++ qs) =
      parseQueryLoop old t (word ++ value) nlen qs := by
  induction value generalizing word with
  | nil => simp
  | cons symbol value ih =>
      rcases List.forall_mem_cons.mp whole with ⟨firstWhole, whole⟩
      have notSeparator : ¬ (symbol = byte '&' ∨ symbol = byte ';') := by
        simpa [isSeparator] using firstWhole
      rw [List.cons_append, parseQueryLoop, if_neg named, if_neg notSeparator]
      split
      next =>
        rw [ih whole, List.append_assoc, List.singleton_append]
      next =>
        rw [ih whole, List.append_assoc, List.singleton_append]

/-- The loop comes to the end of a word with the length of its name. -/
theorem parseQueryLoop_word (t : ParamTable) (word : RawWord) (qs : Bytes) :
    parseQueryLoop old t [] 0 (word.text ++ qs) =
      parseQueryLoop old t word.text word.name.length qs := by
  have named : word.name.length ≠ 0 := by simp [word.named]
  rw [RawWord.text, List.append_assoc, parseQueryLoop_plain old word.noEquals word.nameWhole,
    List.nil_append, List.cons_append, parseQueryLoop, if_pos rfl, if_pos rfl,
    parseQueryLoop_value old named word.valueWhole, List.append_assoc, List.singleton_append]

theorem decodeText_nil : decodeText old [] = .ok [] := by
  have decoded : apreqDecode [] = UrlState.finish .success {} := by rw [apreqDecode, urlDecode]
  simp [decodeText, decoded, UrlState.finish, UrlDecoded.value, DecodeStatus.code, Charset.code,
    UrlDecoded.bytes, span]

/-- A word is decoded as its name and its value are. -/
theorem queryWord_text (t : ParamTable) (word : RawWord) :
    queryWord old t word.text word.name.length =
      (decodePair (decodeText old) word.name word.value).map fun param => t ++ [param] := by
  have named : word.name.length ≠ 0 := by simp [word.named]
  have notEmpty : word.text ≠ [] := by simp [RawWord.text]
  have vlen : word.text.length - word.name.length - 1 = word.value.length := by
    simp only [RawWord.text, List.length_append, List.length_cons]
    omega
  have isName : word.text.take word.name.length = word.name := by simp [RawWord.text]
  have isValue : (word.text.drop (word.name.length + 1)).take word.value.length = word.value := by
    rw [RawWord.text, List.drop_length_add_append, List.drop_one, List.tail_cons,
      List.take_length]
  have value : (if 0 < word.value.length then decodeText old word.value else .ok []) =
      decodeText old word.value := by
    split
    next => rfl
    next none =>
      have empty : word.value = [] := by simpa using none
      rw [empty, decodeText_nil]
  unfold queryWord apreqParamDecode decodePair
  simp only [if_neg notEmpty, if_neg named, vlen, isName, isValue, value]
  cases decodeText old word.value with
  | error status => rfl
  | ok value =>
      cases decodeText old word.name with
      | error status => rfl
      | ok name => rfl

theorem parseQueryLoop_form {t : ParamTable} {words : List RawWord} {text : Bytes}
    (form : FormText words text) :
    (parseQueryLoop old t [] 0 text).2 = decodeWords (decodeText old) t words := by
  induction form generalizing t with
  | empty => rfl
  | last word =>
      have loop := parseQueryLoop_word old t word []
      rw [List.append_nil] at loop
      rw [loop, parseQueryLoop, queryWord_text, decodeWords]
      cases decodePair (decodeText old) word.name word.value with
      | error status => rfl
      | ok param => rfl
  | cons word separates _ ih =>
      have notEquals : ∀ {symbol : UInt8}, isSeparator symbol → symbol ≠ byte '=' := by
        intro symbol separates same
        rw [same] at separates
        revert separates
        decide
      rw [parseQueryLoop_word, parseQueryLoop, if_neg (notEquals separates),
        if_pos (by simpa [isSeparator] using separates), queryWord_text, decodeWords]
      cases decodePair (decodeText old) word.name word.value with
      | error status => rfl
      | ok param => exact ih

/-- What a query string gives that is made of words. -/
theorem apreqParseQueryString_form {t : ParamTable} {words : List RawWord} {text : Bytes}
    (form : FormText words text) (noNul : 0 ∉ text) :
    (apreqParseQueryString old t text).2 = decodeWords (decodeText old) t words := by
  have whole : cString text = text := by
    rw [cString, List.takeWhile_eq_self_iff]
    intro symbol isSymbol
    have notNul : symbol ≠ 0 := fun isNul => noNul (isNul ▸ isSymbol)
    simpa using notNul
  rw [apreqParseQueryString, whole]
  exact parseQueryLoop_form old form

end Query

/-! ## Bodies -/

section Body

variable {env : Environment}

/-- The parameter of a word that has a name. -/
theorem wordParam_text (word : RawWord) :
    wordParam env word.name word.value = decodePair env.decodev word.name word.value :=
  if_neg word.named

theorem RawWord.cut (word : RawWord) (behind : Bytes) :
    cutAt isEquals (word.text ++ behind) = some (word.name, word.value ++ behind) := by
  rw [RawWord.text, List.append_assoc]
  exact cutAt_of word.noEquals (by decide) _

/-- What a body gives that is made of words. -/
theorem formReader_form {t : ParamTable} {words : List RawWord} {text : Bytes}
    (form : FormText words text) :
    (formOutcome env ((formReader env).read t text)).2 = decodeWords env.decodev t words := by
  induction form generalizing t with
  | empty =>
      rw [(formReader env).read_wait (show (formReader env).turn t [] = .wait t from rfl)]
      rfl
  | last word =>
      have named := word.cut []
      rw [List.append_nil, List.append_nil] at named
      have none := cutAt_eq_none.mpr word.valueWhole
      have turn : (formReader env).turn t word.text = .wait t := by
        simp only [formReader, wordTurn, named, none]
      rw [(formReader env).read_wait turn]
      simp only [formOutcome, formEnd, named, wordParam_text, decodeWords]
      cases decodePair env.decodev word.name word.value with
      | error status => rfl
      | ok param => rfl
  | @cons word words separator text separates _ ih =>
      have turn : (formReader env).turn t (word.text ++ separator :: text) = _ :=
        wordTurn_of_cut env (word.cut _) (cutAt_of word.valueWhole separates text)
      rw [wordParam_text] at turn
      rw [decodeWords]
      cases isParam : decodePair env.decodev word.name word.value with
      | error status =>
          rw [isParam] at turn
          rw [(formReader env).read_stop turn]
          rfl
      | ok param =>
          rw [isParam] at turn
          rw [(formReader env).read_next turn]
          exact ih

end Body

/-! ## Encoded forms -/

section Encoded

variable (locale : UInt8 → Bool)

/-- A byte that has no meaning in a form. -/
structure Plain (symbol : UInt8) : Prop where
  noEquals : ¬ isEquals symbol
  noSeparator : ¬ isSeparator symbol
  noNul : symbol ≠ 0

instance (symbol : UInt8) : Decidable (Plain symbol) :=
  decidable_of_iff (¬ isEquals symbol ∧ ¬ isSeparator symbol ∧ symbol ≠ 0)
    ⟨fun ⟨equals, separator, nul⟩ => ⟨equals, separator, nul⟩,
      fun plain => ⟨plain.noEquals, plain.noSeparator, plain.noNul⟩⟩

/-- A byte that `apreq_encode` leaves as it is. -/
theorem verbatim_plain {c : UInt8}
    (verbatim : (aprIsalnum locale c || c ∈ bytes "-._~") = true) : Plain c := by
  have notMark : ∀ mark ∈ bytes "-._~", Plain mark := by decide +kernel
  have large : ∀ c : UInt8, ¬ c < 128 → Plain c := forall_uint8 (by decide +kernel)
  have small : ∀ c : UInt8, c < 128 → aprIsalnum (fun _ => false) c = true → Plain c :=
    forall_uint8 (by decide +kernel)
  by_cases ascii : c < 128
  · rcases Bool.or_eq_true_iff.mp verbatim with alnum | mark
    · refine small c ascii ?_
      simpa [aprIsalnum, ascii] using alnum
    · exact notMark c (of_decide_eq_true mark)
  · exact large c ascii

/-- What `apreq_encode` writes holds no symbol with a meaning in forms. -/
theorem encodeByte_plain {c symbol : UInt8} (isSymbol : symbol ∈ encodeByte locale c) :
    Plain symbol := by
  have digits : ∀ c : UInt8, Plain (c2xTable (c >>> 4)) ∧ Plain (c2xTable (c &&& 0xf)) :=
    forall_uint8 (by decide +kernel)
  unfold encodeByte at isSymbol
  split at isSymbol
  next verbatim =>
    rw [List.mem_singleton.mp isSymbol]
    exact verbatim_plain locale verbatim
  next =>
    split at isSymbol
    next =>
      rw [List.mem_singleton.mp isSymbol]
      decide
    next =>
      simp only [List.mem_cons, List.not_mem_nil, or_false] at isSymbol
      rcases isSymbol with rfl | rfl | rfl
      · decide
      · exact (digits c).1
      · exact (digits c).2

theorem encoded_plain {text : Bytes} : ∀ symbol ∈ encoded locale text, Plain symbol := by
  intro symbol isSymbol
  rcases List.mem_flatMap.mp isSymbol with ⟨c, -, inByte⟩
  exact encodeByte_plain locale inByte

/-- A text without cut sequences comes back from its encoding, in every locale. -/
theorem decodeText_encoded (old : Bytes → Nat → UInt8) {text : Bytes}
    (whole : WholeSequences text) : decodeText old (encoded locale text) = .ok text := by
  rcases decodes_encoded locale whole [] {} with ⟨charset, decoded⟩
  rw [List.append_nil, urlDecode] at decoded
  have result : apreqDecode (encoded locale text) =
      ((UrlState.puts text {}).setCharset charset).finish .success := decoded
  have small : charset.code ≤ Charset.utf8.code := by cases charset <;> decide
  have written : span (memory (old (encoded locale text)) (((UrlState.puts text {}).setCharset
      charset).finish .success).writes) 0 text.length = text := by
    have first := span_writesAt (old (encoded locale text)) 0 text
    rw [Nat.zero_add] at first
    refine (span_congr fun index _ before => ?_).trans first
    have writes : (((UrlState.puts text {}).setCharset charset).finish .success).writes =
        writesAt 0 text ++ [(text.length, 0)] := by
      simp [UrlState.finish, UrlState.put, UrlState.setCharset, UrlState.puts_writes]
    rw [writes, memory_append, memory_of_not_written]
    intro write isWrite
    rw [List.mem_singleton.mp isWrite]
    exact Nat.ne_of_gt before
  have dlen : (((UrlState.puts text {}).setCharset charset).finish .success).dlen =
      text.length := by
    simp [UrlState.finish]
  simp only [decodeText, result, UrlDecoded.bytes, dlen, written]
  exact if_pos (by simpa [UrlState.finish, UrlDecoded.value, DecodeStatus.code] using small)

theorem accented_whole : WholeSequences [0xC3, 0xA9] :=
  have lead : (0xC3 : UInt8) < 0xFE := by decide
  have length : List.length [(0xA9 : UInt8)] = continuations 0xC3 := by decide +kernel
  .cons lead length (by decide +kernel) .nil

/-- A letter in `utf8`, in a locale that takes its second byte for a letter. -/
theorem decodeText_encoded_raw :
    decodeText (fun _ _ => 7) (encoded (fun c => c = 0xA9) [0xC3, 0xA9]) = .ok [0xC3, 0xA9] :=
  decodeText_encoded (fun c => c = 0xA9) (fun _ _ => 7)
    accented_whole

/-- A parameter whose name and value can be encoded. -/
structure Encodable (param : Param) : Prop where
  named : param.name ≠ []
  name : WholeSequences param.name
  value : WholeSequences param.value
  field : param.upload = false

/-- The word of a parameter. -/
def encodedWord (param : Param) (named : param.name ≠ []) : RawWord where
  name := encoded locale param.name
  value := encoded locale param.value
  named := fun empty => named (encoded_eq_nil locale empty)
  noEquals := fun symbol isSymbol => (encoded_plain locale symbol isSymbol).noEquals
  nameWhole := fun symbol isSymbol => (encoded_plain locale symbol isSymbol).noSeparator
  valueWhole := fun symbol isSymbol => (encoded_plain locale symbol isSymbol).noSeparator

/-- The text of a form: encoded parameters with `&` between them. -/
def encodedForm : (params : List Param) → Bytes
  | [] => []
  | [param] => apreqParamEncode locale param
  | param :: params => apreqParamEncode locale param ++ byte '&' :: encodedForm params

theorem apreqParamEncode_noNul (param : Param) : 0 ∉ apreqParamEncode locale param := by
  have plain (text : Bytes) : 0 ∉ encoded locale text :=
    fun isNul => (encoded_plain locale 0 isNul).noNul rfl
  simp only [apreqParamEncode, List.mem_append, List.mem_cons, not_or]
  exact ⟨plain _, by decide, plain _⟩

theorem encodedForm_noNul (params : List Param) : 0 ∉ encodedForm locale params := by
  fun_induction encodedForm locale params with
  | case1 => simp
  | case2 param => exact apreqParamEncode_noNul locale param
  | case3 param params _ ih =>
      simp only [List.mem_append, List.mem_cons, not_or]
      exact ⟨apreqParamEncode_noNul locale param, by decide, ih⟩

theorem Encodable.decodePair {param : Param} (encodable : Encodable param)
    {decode : Bytes → Except AprStatus Bytes}
    (back : ∀ text, WholeSequences text → decode (encoded locale text) = .ok text) :
    RApache.decodePair decode (encodedWord locale param encodable.named).name
      (encodedWord locale param encodable.named).value = .ok param := by
  have same : (⟨param.name, param.value, false⟩ : Param) = param := by
    rw [← encodable.field]
  simp only [RApache.decodePair, encodedWord, back _ encodable.name, back _ encodable.value, same]

/-- An encoded form is made of the words of its parameters, and they come back from it. -/
theorem encodedForm_words {params : List Param} (encodable : ∀ param ∈ params, Encodable param) :
    ∃ words, FormText words (encodedForm locale params) ∧
      ∀ (decode : Bytes → Except AprStatus Bytes) (t : ParamTable),
        (∀ text, WholeSequences text → decode (encoded locale text) = .ok text) →
          decodeWords decode t words = t ++ params := by
  fun_induction encodedForm locale params with
  | case1 => exact ⟨[], .empty, fun decode t _ => by simp [decodeWords]⟩
  | case2 param =>
      have first := encodable param List.mem_cons_self
      refine ⟨[encodedWord locale param first.named], .last _, fun decode t back => ?_⟩
      rw [decodeWords, first.decodePair locale back]
      rfl
  | case3 param params more ih =>
      rcases List.forall_mem_cons.mp encodable with ⟨first, rest⟩
      rcases ih rest with ⟨words, form, parsed⟩
      refine ⟨encodedWord locale param first.named :: words, .cons _ (by decide) form,
        fun decode t back => ?_⟩
      rw [decodeWords, first.decodePair locale back, List.append_cons]
      exact parsed decode _ back

end Encoded

end RApache
