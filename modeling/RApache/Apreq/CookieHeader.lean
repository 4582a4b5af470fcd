import RApache.Apreq.PairValue
import RApache.Library.Cut
import Mathlib.Data.List.DropRight

/-!
# Cookie headers

`apreq_parse_cookie_header` with `get_pair` and `apreq_cookie_attr`.  Of a cookie only its name
and its value are kept; of an attribute only whether it is an error.
-/

namespace RApache

open Incremental

/-- `APREQ_ERROR_BADCHAR`, `APREQ_ERROR_NOTOKEN`, `APREQ_ERROR_MISMATCH` and `APR_ENOTIMPL`. -/
def AprStatus.badChar : AprStatus := .other 120011
def AprStatus.noToken : AprStatus := .other 120021
def AprStatus.mismatch : AprStatus := .other 120030
def AprStatus.notImpl : AprStatus := .other 70023

/-! ## Pairs -/

/-- What `get_pair` finds: a name, a value, and the text that it leaves. -/
structure Pair where
  name : Bytes
  value : Bytes
  data : Bytes
  deriving DecidableEq, Repr

/-- The symbols before a name. -/
def skipsName (symbol : UInt8) : Bool := aprIsspace symbol || symbol = 61

/-- The last word of the text before an equals sign, without the blanks behind it. -/
def keyOf (before : Bytes) : Bytes :=
  (before.rdropWhile aprIsspace).rtakeWhile fun symbol => !aprIsspace symbol

/-- A quoted text without its backslashes. -/
def unescape : (text : Bytes) → Bytes
  | [] => []
  | [92] => [34]
  | 92 :: symbol :: text => symbol :: unescape text
  | symbol :: text => symbol :: unescape text

/-- The value behind an equals sign. -/
def pairValue (unquote : Bool) (val : Bytes) : Except AprStatus (Bytes × Bytes) :=
  match val with
  | 34 :: text =>
      match lookForEndQuote text with
      | none => .error .badSeq
      | some (value, rest) =>
          if unquote then .ok (unescape value, rest.drop 1)
          else .ok (34 :: value ++ [34], rest.drop 1)
  | val =>
      .ok (val.takeWhile fun symbol => !isTerminator symbol,
        val.dropWhile fun symbol => !isTerminator symbol)

/-- `get_pair`. -/
def getPair (data : Bytes) (unquote : Bool) : Except AprStatus Pair :=
  match cutAt (fun symbol => decide (symbol = 61)) (data.dropWhile skipsName) with
  | none => .error .noToken
  | some (before, behind) =>
      (pairValue unquote (behind.dropWhile aprIsspace)).map fun (value, data) =>
        ⟨keyOf before, value, data⟩

theorem getPair_error {data : Bytes} {unquote : Bool} {status : AprStatus}
    (failed : getPair data unquote = .error status) : status ≠ .success := by
  unfold getPair at failed
  split at failed
  next =>
    cases failed
    decide
  next before behind cut =>
    unfold pairValue at failed
    split at failed
    next text =>
      split at failed
      next =>
        cases failed
        decide
      next =>
        split at failed
        next => cases failed
        next => cases failed
    next => cases failed

/-- `apr_isdigit`. -/
def aprIsdigit (symbol : UInt8) : Bool := 48 ≤ symbol && symbol ≤ 57

/-- `apreq_cookie_attr`: whether an attribute is an error.  A version needs a digit. -/
def apreqCookieAttr (attr val : Bytes) : AprStatus :=
  if attr.length < 2 then .badArg
  else
    let attr := match attr with
      | 45 :: attr | 36 :: attr => attr
      | attr => attr
    match attr.head?.map aprTolower with
    | some 110 => .notImpl
    | some 118 =>
        if strcaseeq attr (bytes "value") then .notImpl
        else if val.any aprIsdigit then .success
        else .badSeq
    | some 101 | some 109 | some 100 | some 115 => .success
    | some 112 =>
        if strcaseeq attr (bytes "port") || strcaseeq attr (bytes "path") then .success
        else .notImpl
    | some 99 =>
        if strcaseeq (attr.take 10) (bytes "commentURL") ||
            strcaseeq (attr.take 7) (bytes "comment") then .success
        else .notImpl
    | _ => .notImpl

/-! ## `apreq_parse_cookie_header` -/

/-- `NETSCAPE` and `RFC`. -/
inductive CookieVersion where
  | netscape
  | rfc
  deriving DecidableEq, Repr

/-- The symbols between two cookies. -/
def skipsCookie (symbol : UInt8) : Bool := symbol = 59 || aprIsspace symbol

/-- The label `skip_version_string`: the text behind the semicolon, or the text behind a comma
where the header begins anew. -/
def skipVersionString : (hdr : Bytes) → Option (Bytes ⊕ Bytes)
  | [] => none
  | symbol :: hdr =>
      if symbol = 44 then some (.inr hdr)
      else if symbol = 59 then some (.inl hdr)
      else skipVersionString hdr

theorem skipVersionString_length {hdr : Bytes} {rest : Bytes ⊕ Bytes}
    (skipped : skipVersionString hdr = some rest) :
    (rest.elim id id).length < hdr.length := by
  induction hdr with
  | nil => cases skipped
  | cons symbol hdr ih =>
      simp only [skipVersionString] at skipped
      split at skipped
      next =>
        cases skipped
        simp
      next =>
        split at skipped
        next =>
          cases skipped
          simp
        next =>
          have shorter := ih skipped
          simp only [List.length_cons]
          omega

/-- The label `parse_cookie_header`: the version and the text at which its loop begins.  There is
none if the header ends in the version string. -/
def parseCookieStart (hdr : Bytes) : Option (CookieVersion × Bytes) :=
  match _start : hdr.dropWhile aprIsspace with
  | 36 :: text =>
      match _skipped : skipVersionString (36 :: text) with
      | none => none
      | some (.inl behind) => some (.rfc, behind)
      | some (.inr behind) => parseCookieStart behind
  | text => some (.netscape, text)
termination_by hdr.length
decreasing_by
  have shorter := skipVersionString_length _skipped
  have suffix := (List.dropWhile_suffix (l := hdr) aprIsspace).length_le
  rw [_start] at suffix
  simp only [Sum.elim_inr, id_eq] at shorter
  omega

theorem parseCookieStart_length {hdr text : Bytes} {version : CookieVersion}
    (start : parseCookieStart hdr = some (version, text)) : text.length ≤ hdr.length := by
  fun_induction parseCookieStart hdr with
  | case1 => cases start
  | case2 hdr text' isText behind skipped =>
      cases start
      have shorter := skipVersionString_length skipped
      have suffix := (List.dropWhile_suffix (l := hdr) aprIsspace).length_le
      rw [isText] at suffix
      simp only [Sum.elim_inl, id_eq] at shorter
      omega
  | case3 hdr text' isText behind skipped ih =>
      have shorter := skipVersionString_length skipped
      have suffix := (List.dropWhile_suffix (l := hdr) aprIsspace).length_le
      rw [isText] at suffix
      simp only [Sum.elim_inr, id_eq] at shorter
      have rest := ih start
      omega
  | case4 hdr text' =>
      cases start
      exact (List.dropWhile_suffix (l := hdr) aprIsspace).length_le

theorem pairValue_length {unquote : Bool} {val value data : Bytes}
    (found : pairValue unquote val = .ok (value, data)) : data.length ≤ val.length := by
  unfold pairValue at found
  split at found
  next text =>
    split at found
    next => cases found
    next value' rest closed =>
      have shorter := lookForEndQuote_length closed
      split at found
      next =>
        cases found
        simp only [List.length_drop, List.length_cons]
        omega
      next =>
        cases found
        simp only [List.length_drop, List.length_cons]
        omega
  next =>
    cases found
    exact (List.dropWhile_suffix (l := val) _).length_le

theorem getPair_length {data : Bytes} {unquote : Bool} {pair : Pair}
    (found : getPair data unquote = .ok pair) : pair.data.length < data.length := by
  unfold getPair at found
  split at found
  next => cases found
  next before behind cut =>
    cases value : pairValue unquote (behind.dropWhile aprIsspace) with
    | error status =>
        rw [value] at found
        cases found
    | ok result =>
        rw [value] at found
        cases found
        have shorter := pairValue_length value
        have blanks := (List.dropWhile_suffix (l := behind) aprIsspace).length_le
        have skipped := (List.dropWhile_suffix (l := data) skipsName).length_le
        have length := cutAt_length cut
        simp only
        omega

/-- A table of cookies. -/
abbrev CookieTable := ParamTable

/-- `ADD_COOKIE` of a cookie that there may be. -/
def addCookieTo (j : CookieTable) (c : Option Param) : CookieTable := j ++ c.toList

/-- The endless loop of `apreq_parse_cookie_header`. -/
def parseCookieLoop (j : CookieTable) (c : Option Param) (version : CookieVersion)
    (hdr : Bytes) : AprStatus × CookieTable :=
  match _next : hdr.dropWhile skipsCookie with
  | [] => (.success, addCookieTo j c)
  | 44 :: text =>
      match _start : parseCookieStart text with
      | none => (.success, addCookieTo j c)
      | some (version, behind) => parseCookieLoop (addCookieTo j c) none version behind
  | 36 :: text =>
      if c.isNone then (.badChar, j)
      else if version = .netscape then (.mismatch, j)
      else
        match _pair : getPair text true with
        | .error status => (status, j)
        | .ok pair =>
            let status := apreqCookieAttr pair.name pair.value
            if status = .success ∨ status = .notImpl then
              parseCookieLoop j c version pair.data
            else (status, j)
  | text =>
      match _pair : getPair text false with
      | .error status => (status, addCookieTo j c)
      | .ok pair =>
          parseCookieLoop (addCookieTo j c) (some ⟨pair.name, pair.value, false⟩) version pair.data
termination_by hdr.length
decreasing_by
  · have suffix := (List.dropWhile_suffix (l := hdr) skipsCookie).length_le
    have shorter := parseCookieStart_length _start
    rw [_next, List.length_cons] at suffix
    omega
  · have suffix := (List.dropWhile_suffix (l := hdr) skipsCookie).length_le
    have shorter := getPair_length _pair
    rw [_next, List.length_cons] at suffix
    omega
  · have suffix := (List.dropWhile_suffix (l := hdr) skipsCookie).length_le
    have shorter := getPair_length _pair
    rw [_next] at suffix
    omega

/-- `apreq_parse_cookie_header`. -/
def apreqParseCookieHeader (j : CookieTable) (hdr : Bytes) : AprStatus × CookieTable :=
  match parseCookieStart hdr with
  | none => (.success, j)
  | some (version, hdr) => parseCookieLoop j none version hdr

/-! ## Headers merged by a comma -/

theorem dropWhile_append_stop {p : UInt8 → Bool} {stop : UInt8} (stops : p stop = false)
    (text more : Bytes) :
    (text ++ stop :: more).dropWhile p = text.dropWhile p ++ stop :: more := by
  rw [List.dropWhile_append]
  split
  next none => rw [List.isEmpty_iff.mp none, List.dropWhile_cons_of_neg (by simp [stops]),
    List.nil_append]
  next => rfl

theorem takeWhile_append_stop {p : UInt8 → Bool} {stop : UInt8} (stops : p stop = false)
    (text more : Bytes) : (text ++ stop :: more).takeWhile p = text.takeWhile p := by
  induction text with
  | nil => simp [stops]
  | cons symbol text ih =>
      rw [List.cons_append, List.takeWhile_cons, List.takeWhile_cons, ih]

theorem pairValue_append {unquote : Bool} {val value data : Bytes} (more : Bytes)
    (found : pairValue unquote val = .ok (value, data)) :
    pairValue unquote (val ++ 44 :: more) = .ok (value, data ++ 44 :: more) := by
  unfold pairValue at found
  split at found
  next text =>
    split at found
    next => cases found
    next value' rest closed =>
      rcases lookForEndQuote_append closed (44 :: more) with ⟨longer, behind, rfl⟩
      simp only [pairValue, List.cons_append, longer]
      split at found
      next isUnquoted =>
        cases found
        rw [if_pos isUnquoted]
        rfl
      next notUnquoted =>
        cases found
        rw [if_neg notUnquoted]
        rfl
  next notQuoted =>
    cases found
    have stops : (!isTerminator 44) = false := by decide
    unfold pairValue
    split
    next text isText =>
      cases val with
      | nil => cases isText
      | cons symbol val =>
          cases isText
          exact absurd rfl (notQuoted val)
    next =>
      rw [takeWhile_append_stop stops, dropWhile_append_stop stops]

theorem getPair_append {data : Bytes} {unquote : Bool} {pair : Pair} (more : Bytes)
    (found : getPair data unquote = .ok pair) :
    getPair (data ++ 44 :: more) unquote = .ok { pair with data := pair.data ++ 44 :: more } := by
  unfold getPair at found ⊢
  split at found
  next => cases found
  next before behind cut =>
    rw [dropWhile_append_stop (by decide), cutAt_append cut]
    simp only
    rw [dropWhile_append_stop (by decide)]
    cases isValue : pairValue unquote (behind.dropWhile aprIsspace) with
    | error status =>
        rw [isValue] at found
        cases found
    | ok result =>
        rw [isValue] at found
        cases found
        rw [pairValue_append more isValue]
        rfl

theorem skipVersionString_append (hdr more : Bytes) :
    skipVersionString (hdr ++ 44 :: more) =
      match skipVersionString hdr with
      | none => some (.inr more)
      | some rest => some (rest.map (· ++ 44 :: more) (· ++ 44 :: more)) := by
  induction hdr with
  | nil => rfl
  | cons symbol hdr ih =>
      simp only [List.cons_append, skipVersionString]
      by_cases comma : symbol = 44
      · simp [comma]
      · by_cases semicolon : symbol = 59
        · simp [semicolon]
        · simp [comma, semicolon, ih]

theorem comma_notBlank : aprIsspace 44 = false := by decide

theorem comma_notSkipped : skipsCookie 44 = false := by decide

theorem parseCookieStart_version {hdr text : Bytes}
    (dollar : hdr.dropWhile aprIsspace = 36 :: text) :
    parseCookieStart hdr =
      match skipVersionString (36 :: text) with
      | none => none
      | some (.inl behind) => some (.rfc, behind)
      | some (.inr behind) => parseCookieStart behind := by
  rw [parseCookieStart]
  split
  next text' isText =>
    rw [dollar] at isText
    cases isText
    split
    next skipped => rw [skipped]
    next skipped => rw [skipped]
    next skipped => rw [skipped]
  next notDollar => exact absurd dollar (notDollar text)

theorem parseCookieStart_netscape {hdr : Bytes}
    (notDollar : ∀ text, hdr.dropWhile aprIsspace ≠ 36 :: text) :
    parseCookieStart hdr = some (.netscape, hdr.dropWhile aprIsspace) := by
  rw [parseCookieStart]
  split
  next text isText => exact absurd isText (notDollar text)
  next => rfl

/-- Where the loop begins when a comma and more text come behind the header. -/
theorem parseCookieStart_append (hdr more : Bytes) :
    parseCookieStart (hdr ++ 44 :: more) =
      match parseCookieStart hdr with
      | none => parseCookieStart more
      | some (version, text) => some (version, text ++ 44 :: more) := by
  fun_induction parseCookieStart hdr with
  | case1 hdr text isText skipped =>
      have longer := dropWhile_append_stop comma_notBlank hdr more
      rw [isText, List.cons_append] at longer
      have skips := skipVersionString_append (36 :: text) more
      rw [skipped, List.cons_append] at skips
      rw [parseCookieStart_version longer, skips]
  | case2 hdr text isText behind skipped =>
      have longer := dropWhile_append_stop comma_notBlank hdr more
      rw [isText, List.cons_append] at longer
      have skips := skipVersionString_append (36 :: text) more
      rw [skipped, List.cons_append] at skips
      rw [parseCookieStart_version longer, skips]
      rfl
  | case3 hdr text isText behind skipped ih =>
      have longer := dropWhile_append_stop comma_notBlank hdr more
      rw [isText, List.cons_append] at longer
      have skips := skipVersionString_append (36 :: text) more
      rw [skipped, List.cons_append] at skips
      rw [parseCookieStart_version longer, skips]
      exact ih
  | case4 hdr notDollar =>
      have longer := dropWhile_append_stop comma_notBlank hdr more
      rw [parseCookieStart_netscape, longer]
      intro text isText
      rw [longer] at isText
      cases stripped : hdr.dropWhile aprIsspace with
      | nil =>
          rw [stripped] at isText
          cases isText
      | cons symbol rest =>
          rw [stripped] at isText
          cases isText
          exact notDollar rest stripped

/-- The text is at its end. -/
theorem parseCookieLoop_end {hdr : Bytes} (ended : hdr.dropWhile skipsCookie = [])
    (j : CookieTable) (c : Option Param) (version : CookieVersion) :
    parseCookieLoop j c version hdr = (.success, addCookieTo j c) := by
  rw [parseCookieLoop]
  split
  next => rfl
  next isText =>
    rw [ended] at isText
    cases isText
  next isText =>
    rw [ended] at isText
    cases isText
  next notEmpty _ _ => exact absurd ended notEmpty

/-- A comma begins a header. -/
theorem parseCookieLoop_comma {hdr text : Bytes} (comma : hdr.dropWhile skipsCookie = 44 :: text)
    (j : CookieTable) (c : Option Param) (version : CookieVersion) :
    parseCookieLoop j c version hdr = apreqParseCookieHeader (addCookieTo j c) text := by
  rw [parseCookieLoop]
  split
  next isText =>
    rw [comma] at isText
    cases isText
  next text' isText =>
    rw [comma] at isText
    cases isText
    unfold apreqParseCookieHeader
    split
    next start => rw [start]
    next start => rw [start]
  next isText =>
    rw [comma] at isText
    cases isText
  next _ notComma _ => exact absurd comma (notComma text)

/-- An attribute of a cookie. -/
theorem parseCookieLoop_attribute {hdr text : Bytes}
    (dollar : hdr.dropWhile skipsCookie = 36 :: text)
    (j : CookieTable) (c : Option Param) (version : CookieVersion) :
    parseCookieLoop j c version hdr =
      if c.isNone then (.badChar, j)
      else if version = .netscape then (.mismatch, j)
      else
        match getPair text true with
        | .error status => (status, j)
        | .ok pair =>
            if apreqCookieAttr pair.name pair.value = .success ∨
                apreqCookieAttr pair.name pair.value = .notImpl then
              parseCookieLoop j c version pair.data
            else (apreqCookieAttr pair.name pair.value, j) := by
  rw [parseCookieLoop]
  split
  next isText =>
    rw [dollar] at isText
    cases isText
  next isText =>
    rw [dollar] at isText
    cases isText
  next text' isText =>
    rw [dollar] at isText
    cases isText
    split
    next => rfl
    next =>
      split
      next => rfl
      next =>
        split
        next found => rw [found]
        next found => rw [found]
  next _ _ notDollar => exact absurd dollar (notDollar text)

/-- A pair begins the next cookie. -/
theorem parseCookieLoop_pair {hdr : Bytes} {symbol : UInt8} {text : Bytes}
    (pair : hdr.dropWhile skipsCookie = symbol :: text) (notComma : symbol ≠ 44)
    (notDollar : symbol ≠ 36) (j : CookieTable) (c : Option Param) (version : CookieVersion) :
    parseCookieLoop j c version hdr =
      match getPair (symbol :: text) false with
      | .error status => (status, addCookieTo j c)
      | .ok pair =>
          parseCookieLoop (addCookieTo j c) (some ⟨pair.name, pair.value, false⟩) version
            pair.data := by
  rw [parseCookieLoop]
  split
  next isText =>
    rw [pair] at isText
    cases isText
  next isText =>
    rw [pair] at isText
    cases isText
    exact absurd rfl notComma
  next isText =>
    rw [pair] at isText
    cases isText
    exact absurd rfl notDollar
  next =>
    split
    next found =>
      rw [pair] at found
      rw [found]
    next found =>
      rw [pair] at found
      rw [found]

theorem parseCookieLoop_append {j j' : CookieTable} {c : Option Param} {version : CookieVersion}
    {hdr : Bytes} (more : Bytes) (parsed : parseCookieLoop j c version hdr = (.success, j')) :
    parseCookieLoop j c version (hdr ++ 44 :: more) = apreqParseCookieHeader j' more := by
  have longer := dropWhile_append_stop comma_notSkipped hdr more
  fun_induction parseCookieLoop j c version hdr with
  | case1 j c version hdr ended =>
      cases parsed
      rw [ended] at longer
      exact parseCookieLoop_comma longer j c version
  | case2 j c version hdr text isText start =>
      cases parsed
      rw [isText, List.cons_append] at longer
      rw [parseCookieLoop_comma longer, apreqParseCookieHeader, parseCookieStart_append, start]
      rfl
  | case3 j c version hdr text isText version' behind start ih =>
      rw [isText, List.cons_append] at longer
      rw [parseCookieLoop_comma longer, apreqParseCookieHeader, parseCookieStart_append, start]
      exact ih parsed (dropWhile_append_stop comma_notSkipped behind more)
  | case4 => cases parsed
  | case5 => cases parsed
  | case6 j c version hdr text isText isSome isRfc status found =>
      exact absurd (congrArg Prod.fst parsed) (getPair_error found)
  | case7 j c version hdr text isText isSome isRfc pair found status accepted ih =>
      rw [isText, List.cons_append] at longer
      rw [parseCookieLoop_attribute longer, if_neg isSome, if_neg isRfc, getPair_append more found]
      simp only
      rw [if_pos accepted]
      exact ih parsed (dropWhile_append_stop comma_notSkipped pair.data more)
  | case8 j c version hdr text isText isSome isRfc pair found status refused =>
      exact absurd (Or.inl (congrArg Prod.fst parsed)) refused
  | case9 j c version hdr notEmpty notComma notDollar status found =>
      exact absurd (congrArg Prod.fst parsed) (getPair_error found)
  | case10 j c version hdr pair notEmpty notComma notDollar found ih =>
      cases isText : hdr.dropWhile skipsCookie with
      | nil => exact absurd isText notEmpty
      | cons symbol text =>
          rw [isText, List.cons_append] at longer
          rw [isText] at found
          have ahead := getPair_append more found
          rw [List.cons_append] at ahead
          rw [parseCookieLoop_pair longer, ahead]
          · exact ih parsed (dropWhile_append_stop comma_notSkipped pair.data more)
          · rintro rfl
            exact notComma text isText
          · rintro rfl
            exact notDollar text isText

/-- Two headers merged by a comma are parsed one after the other if the first is no error. -/
theorem apreqParseCookieHeader_comma {j j' : CookieTable} {hdr : Bytes} (more : Bytes)
    (parsed : apreqParseCookieHeader j hdr = (.success, j')) :
    apreqParseCookieHeader j (hdr ++ 44 :: more) = apreqParseCookieHeader j' more := by
  have longer := parseCookieStart_append hdr more
  unfold apreqParseCookieHeader at parsed
  cases start : parseCookieStart hdr with
  | none =>
      rw [start] at parsed longer
      cases parsed
      rw [apreqParseCookieHeader, longer]
      rfl
  | some begun =>
      rcases begun with ⟨version, text⟩
      rw [start] at parsed longer
      rw [apreqParseCookieHeader, longer]
      exact parseCookieLoop_append more parsed

/-- What comes behind the comma has a quote that is not closed. -/
theorem apreqParseCookieHeader_comma_unclosed :
    apreqParseCookieHeader [] (bytes "a=1" ++ 44 :: bytes "b=\"2") =
      apreqParseCookieHeader [⟨bytes "a", bytes "1", false⟩] (bytes "b=\"2") := by
  refine apreqParseCookieHeader_comma _ ?_
  have notDollar (text : Bytes) : (bytes "a=1").dropWhile aprIsspace ≠ 36 :: text := by
    intro isText
    cases isText
  have pair : (bytes "a=1").dropWhile skipsCookie = 97 :: bytes "=1" := by decide
  have found : getPair (97 :: bytes "=1") false = .ok ⟨bytes "a", bytes "1", []⟩ := by decide
  have same : (bytes "a=1").dropWhile aprIsspace = bytes "a=1" := by decide
  rw [apreqParseCookieHeader, parseCookieStart_netscape notDollar, same]
  show parseCookieLoop [] none .netscape (bytes "a=1") = _
  rw [parseCookieLoop_pair pair (by decide) (by decide), found]
  exact parseCookieLoop_end rfl _ _ _

end RApache
