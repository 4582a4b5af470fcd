import RApache.Apreq.CookieHeader
import RApache.Session

/-!
# The cookies that a client sends back

A header of names and values without the symbols that separate them is read as exactly these
cookies, and a single name and value are read back only then.
-/

namespace RApache

open Incremental

/-! ## Names and values -/

/-- A name of a cookie or of an attribute: it has no blank and no equals sign. -/
structure PairName (name : Bytes) : Prop where
  notEmpty : name ≠ []
  symbols : ∀ symbol ∈ name, aprIsspace symbol = false ∧ symbol ≠ 61

/-- The value without its quotes. -/
def plainValue : Bytes → Bytes
  | 34 :: text => unescape text.dropLast
  | value => value

theorem PairName.first {name : Bytes} (isName : PairName name) :
    ∃ symbol text, name = symbol :: text ∧ aprIsspace symbol = false ∧ symbol ≠ 61 := by
  cases name with
  | nil => exact absurd rfl isName.notEmpty
  | cons symbol text => exact ⟨symbol, text, rfl, isName.symbols symbol List.mem_cons_self⟩

theorem PairName.keyOf {name : Bytes} (isName : PairName name) : keyOf name = name := by
  have noBlank : ∀ symbol ∈ name, ¬ aprIsspace symbol := by
    intro symbol isSymbol
    simp [(isName.symbols symbol isSymbol).1]
  have kept : name.rdropWhile aprIsspace = name := by
    rw [List.rdropWhile_eq_self_iff]
    intro nonempty
    exact noBlank _ (List.getLast_mem nonempty)
  rw [RApache.keyOf, kept, List.rtakeWhile_eq_self_iff]
  intro symbol isSymbol
  simpa using noBlank symbol isSymbol

theorem plainValue_token {value : Bytes} (notQuote : ∀ symbol ∈ value.head?, symbol ≠ 34) :
    plainValue value = value := by
  unfold plainValue
  split
  next => exact absurd rfl (notQuote 34 rfl)
  next => rfl

theorem pairValue_token {val : Bytes} (notQuote : ∀ symbol ∈ val.head?, symbol ≠ 34)
    (unquote : Bool) :
    pairValue unquote val =
      .ok (val.takeWhile fun symbol => !isTerminator symbol,
        val.dropWhile fun symbol => !isTerminator symbol) := by
  unfold pairValue
  split
  next => exact absurd rfl (notQuote 34 rfl)
  next => rfl

theorem pairValue_of {value rest : Bytes} (isValue : PairValue value) (ends : EndsPair rest)
    (unquote : Bool) :
    pairValue unquote ((value ++ rest).dropWhile aprIsspace) =
      .ok (if unquote then plainValue value else value, rest) := by
  cases isValue with
  | token symbols first =>
      have head : ∀ symbol ∈ (value ++ rest).head?, aprIsspace symbol = false ∧ symbol ≠ 34 := by
        cases value with
        | nil =>
            intro symbol isFirst
            refine ⟨ends.notBlank symbol isFirst, ?_⟩
            rw [ends symbol isFirst]
            decide
        | cons symbol value => exact first
      rw [dropWhile_eq_self.mpr fun symbol isFirst => (head symbol isFirst).1,
        pairValue_token fun symbol isFirst => (head symbol isFirst).2,
        plainValue_token fun symbol isFirst => (first symbol isFirst).2, ite_self,
        List.takeWhile_append_of_pos (by simpa using symbols),
        List.dropWhile_append_of_pos (by simpa using symbols)]
      cases rest with
      | nil => simp
      | cons symbol rest =>
          cases ends symbol rfl
          have stops : isTerminator 59 = true := by decide
          simp [stops]
  | @quoted text closed =>
      have longer := (lookForEndQuote_append closed rest).1
      have quote : (34 :: (text ++ [34] ++ rest)).dropWhile aprIsspace =
          34 :: (text ++ [34] ++ rest) :=
        List.dropWhile_cons_of_neg (by decide)
      rw [List.cons_append, List.cons_append, quote]
      simp only [pairValue, longer]
      cases unquote <;> simp [plainValue]

theorem getPair_of {name value rest : Bytes} (isName : PairName name)
    (isValue : PairValue value) (ends : EndsPair rest) (unquote : Bool) :
    getPair (name ++ 61 :: (value ++ rest)) unquote =
      .ok ⟨name, if unquote then plainValue value else value, rest⟩ := by
  have kept : (name ++ 61 :: (value ++ rest)).dropWhile skipsName =
      name ++ 61 :: (value ++ rest) := by
    rcases isName.first with ⟨symbol, text, rfl, notBlank, notEquals⟩
    rw [dropWhile_eq_self]
    intro symbol' isFirst
    cases isFirst
    simp [skipsName, notBlank, notEquals]
  have cut : cutAt (fun symbol => decide (symbol = 61)) (name ++ 61 :: (value ++ rest)) =
      some (name, value ++ rest) := by
    refine cutAt_of ?_ (by simp) _
    intro symbol isSymbol
    simpa using (isName.symbols symbol isSymbol).2
  simp only [getPair, kept, cut, pairValue_of isValue ends unquote]
  rw [isName.keyOf]
  rfl

/-! ## Headers -/

/-- An attribute that is known, or that is skipped. -/
structure SentAttribute where
  name : Bytes
  value : Bytes
  isName : PairName name
  isValue : PairValue value
  accepted : apreqCookieAttr name (plainValue value) = .success ∨
    apreqCookieAttr name (plainValue value) = .notImpl

/-- A cookie with its attributes. -/
structure SentCookie where
  name : Bytes
  value : Bytes
  attributes : List SentAttribute
  isName : PairName name
  begins : ∀ symbol ∈ name.head?, symbol ≠ 59 ∧ symbol ≠ 44 ∧ symbol ≠ 36
  isValue : PairValue value

/-- The parameter that is put into the table. -/
def SentCookie.param (cookie : SentCookie) : Param := ⟨cookie.name, cookie.value, false⟩

def SentAttribute.text (sent : SentAttribute) : Bytes :=
  59 :: 32 :: 36 :: (sent.name ++ 61 :: sent.value)

def SentCookie.text (cookie : SentCookie) : Bytes :=
  59 :: 32 :: (cookie.name ++ 61 :: (cookie.value ++ cookie.attributes.flatMap SentAttribute.text))

/-- The header for some cookies, with a version if they have attributes. -/
def sentHeader (version : CookieVersion) (cookies : List SentCookie) : Bytes :=
  match version with
  | .rfc => 36 :: (bytes "Version=1" ++ cookies.flatMap SentCookie.text)
  | .netscape => (cookies.flatMap SentCookie.text).drop 2

/-- The symbols before an item are skipped. -/
theorem skipsCookie_item {symbol : UInt8} (notSkipped : skipsCookie symbol = false)
    (text : Bytes) : (59 :: 32 :: symbol :: text).dropWhile skipsCookie = symbol :: text := by
  have semicolon : skipsCookie 59 = true := by decide
  have blank : skipsCookie 32 = true := by decide
  simp [semicolon, blank, notSkipped]

/-- The attributes of a cookie leave it as it is. -/
theorem parseCookieLoop_attributes (j : CookieTable) (c : Param) (sent : List SentAttribute)
    {rest : Bytes} (ends : EndsPair rest) :
    parseCookieLoop j (some c) .rfc (sent.flatMap SentAttribute.text ++ rest) =
      parseCookieLoop j (some c) .rfc rest := by
  induction sent with
  | nil => rfl
  | cons first sent ih =>
      have text : (first :: sent).flatMap SentAttribute.text ++ rest =
          59 :: 32 :: 36 :: (first.name ++ 61 :: (first.value ++
            (sent.flatMap SentAttribute.text ++ rest))) := by
        simp [SentAttribute.text]
      have dollar : skipsCookie 36 = false := by decide
      rw [text, parseCookieLoop_attribute (skipsCookie_item dollar _), if_neg (by simp),
        if_neg (by simp),
        getPair_of first.isName first.isValue (endsPair_flatMap (fun _ => rfl) sent ends)]
      simp only [if_true]
      rw [if_pos first.accepted, ih]

/-- One cookie with its attributes is read. -/
theorem parseCookieLoop_cookie (j : CookieTable) (c : Option Param) {version : CookieVersion}
    (cookie : SentCookie) (attributes : version = .netscape → cookie.attributes = [])
    {rest : Bytes} (ends : EndsPair rest) :
    parseCookieLoop j c version (cookie.text ++ rest) =
      parseCookieLoop (addCookieTo j c) (some cookie.param) version rest := by
  have behind : EndsPair (cookie.attributes.flatMap SentAttribute.text ++ rest) :=
    endsPair_flatMap (fun _ => rfl) _ ends
  have pair := getPair_of cookie.isName cookie.isValue behind false
  have text : cookie.text ++ rest = 59 :: 32 :: (cookie.name ++ 61 :: (cookie.value ++
      (cookie.attributes.flatMap SentAttribute.text ++ rest))) := by
    simp [SentCookie.text]
  rcases cookie.isName.first with ⟨symbol, name, isName, notBlank, notEquals⟩
  have begins := cookie.begins
  rw [isName] at begins
  rcases begins symbol rfl with ⟨notSemicolon, notComma, notDollar⟩
  have notSkipped : skipsCookie symbol = false := by simp [skipsCookie, notSemicolon, notBlank]
  rw [isName, List.cons_append] at pair text
  rw [text, parseCookieLoop_pair (skipsCookie_item notSkipped _) notComma notDollar, pair]
  have found : parseCookieLoop (addCookieTo j c) (some cookie.param) version
      (cookie.attributes.flatMap SentAttribute.text ++ rest) =
        parseCookieLoop (addCookieTo j c) (some cookie.param) version rest := by
    cases version with
    | netscape => rw [attributes rfl, List.flatMap_nil, List.nil_append]
    | rfc => exact parseCookieLoop_attributes _ _ _ ends
  rw [← found, SentCookie.param, isName]
  rfl

/-- A list of cookies is read. -/
theorem parseCookieLoop_cookies (j : CookieTable) (c : Option Param) {version : CookieVersion}
    (cookies : List SentCookie)
    (attributes : version = .netscape → ∀ cookie ∈ cookies, cookie.attributes = []) :
    parseCookieLoop j c version (cookies.flatMap SentCookie.text) =
      (.success, addCookieTo j c ++ cookies.map SentCookie.param) := by
  induction cookies generalizing j c with
  | nil =>
      rw [List.flatMap_nil, parseCookieLoop_end List.dropWhile_nil, List.map_nil, List.append_nil]
  | cons cookie cookies ih =>
      have ends : EndsPair (cookies.flatMap SentCookie.text) := by
        simpa using endsPair_flatMap (fun _ => rfl) cookies (show EndsPair [] by simp [EndsPair])
      have first (isNetscape : version = .netscape) : cookie.attributes = [] :=
        attributes isNetscape cookie List.mem_cons_self
      have others (isNetscape : version = .netscape) :
          ∀ cookie ∈ cookies, cookie.attributes = [] := fun cookie isCookie =>
        attributes isNetscape cookie (List.mem_cons_of_mem _ isCookie)
      rw [List.flatMap_cons, parseCookieLoop_cookie j c cookie first ends, ih _ _ others]
      simp [addCookieTo]

/-- The loop skips what separates two items before the first one. -/
theorem parseCookieLoop_skip {hdr hdr' : Bytes}
    (same : hdr.dropWhile skipsCookie = hdr'.dropWhile skipsCookie) (j : CookieTable)
    (c : Option Param) (version : CookieVersion) :
    parseCookieLoop j c version hdr = parseCookieLoop j c version hdr' := by
  cases isText : hdr'.dropWhile skipsCookie with
  | nil =>
      rw [isText] at same
      rw [parseCookieLoop_end same, parseCookieLoop_end isText]
  | cons symbol text =>
      rw [isText] at same
      by_cases comma : symbol = 44
      · subst comma
        rw [parseCookieLoop_comma same, parseCookieLoop_comma isText]
      · by_cases dollar : symbol = 36
        · subst dollar
          rw [parseCookieLoop_attribute same, parseCookieLoop_attribute isText]
        · rw [parseCookieLoop_pair same comma dollar, parseCookieLoop_pair isText comma dollar]

theorem skipVersionString_of {text : Bytes}
    (noEnd : ∀ symbol ∈ text, symbol ≠ 44 ∧ symbol ≠ 59) (behind : Bytes) :
    skipVersionString (text ++ 59 :: behind) = some (.inl behind) ∧
      skipVersionString text = none := by
  induction text with
  | nil => exact ⟨rfl, rfl⟩
  | cons symbol text ih =>
      rcases noEnd symbol List.mem_cons_self with ⟨notComma, notSemicolon⟩
      have rest := ih fun symbol isSymbol => noEnd symbol (List.mem_cons_of_mem _ isSymbol)
      simp only [List.cons_append, skipVersionString, notComma, notSemicolon, if_false]
      exact rest

/-- A header with a version. -/
theorem apreqParseCookieHeader_version (j : CookieTable) {text : Bytes}
    (noEnd : ∀ symbol ∈ text, symbol ≠ 44 ∧ symbol ≠ 59) (behind : Bytes) :
    apreqParseCookieHeader j (36 :: text) = (.success, j) ∧
      apreqParseCookieHeader j (36 :: (text ++ 59 :: behind)) =
        parseCookieLoop j none .rfc behind := by
  have dollar : aprIsspace 36 = false := by decide
  have skipped := @skipVersionString_of (36 :: text) ?_ behind
  · rcases skipped with ⟨found, ended⟩
    constructor
    · rw [apreqParseCookieHeader, parseCookieStart_version (List.dropWhile_cons_of_neg ?_), ended]
      simp [dollar]
    · rw [apreqParseCookieHeader, parseCookieStart_version (List.dropWhile_cons_of_neg ?_),
        ← List.cons_append, found]
      simp [dollar]
  · intro symbol isSymbol
    rcases List.mem_cons.mp isSymbol with rfl | isSymbol
    · decide
    · exact noEnd symbol isSymbol

/-- A header without a version. -/
theorem apreqParseCookieHeader_netscape (j : CookieTable) {hdr : Bytes}
    (first : ∀ symbol ∈ hdr.head?, aprIsspace symbol = false ∧ symbol ≠ 36) :
    apreqParseCookieHeader j hdr = parseCookieLoop j none .netscape hdr := by
  have same : hdr.dropWhile aprIsspace = hdr :=
    dropWhile_eq_self.mpr fun symbol isFirst => (first symbol isFirst).1
  rw [apreqParseCookieHeader, parseCookieStart_netscape, same]
  rintro text isText
  rw [same] at isText
  subst isText
  exact (first 36 rfl).2 rfl

/-- The text of a cookie begins with what separates it from the others. -/
theorem SentCookie.text_begins (cookie : SentCookie) :
    ∃ symbol text, cookie.text = 59 :: 32 :: symbol :: text ∧ aprIsspace symbol = false ∧
      symbol ≠ 59 ∧ symbol ≠ 36 := by
  rcases cookie.isName.first with ⟨symbol, name, isName, notBlank, -⟩
  have begins := cookie.begins
  rw [isName] at begins
  rcases begins symbol rfl with ⟨notSemicolon, -, notDollar⟩
  refine ⟨symbol, name ++ 61 :: (cookie.value ++ cookie.attributes.flatMap SentAttribute.text),
    ?_, notBlank, notSemicolon, notDollar⟩
  rw [SentCookie.text, isName, List.cons_append]

/-- The cookies that are sent are the ones that are added. -/
theorem apreqParseCookieHeader_sent (j : CookieTable) {version : CookieVersion}
    (cookies : List SentCookie)
    (attributes : version = .netscape → ∀ cookie ∈ cookies, cookie.attributes = []) :
    apreqParseCookieHeader j (sentHeader version cookies) =
      (.success, j ++ cookies.map SentCookie.param) := by
  have read : parseCookieLoop j none version (cookies.flatMap SentCookie.text) =
      (.success, j ++ cookies.map SentCookie.param) := by
    simpa [addCookieTo] using parseCookieLoop_cookies j none cookies attributes
  have noEnd : ∀ symbol ∈ bytes "Version=1", symbol ≠ 44 ∧ symbol ≠ 59 := by decide +kernel
  cases cookies with
  | nil =>
      cases version with
      | rfc =>
          have ended := (apreqParseCookieHeader_version j noEnd []).1
          simpa [sentHeader] using ended
      | netscape =>
          have begins := apreqParseCookieHeader_netscape j
            (show ∀ first ∈ ([] : Bytes).head?, _ by simp)
          exact begins.trans read
  | cons cookie cookies =>
      rcases cookie.text_begins with ⟨symbol, text, isText, notBlank, notSemicolon, notDollar⟩
      have notSkipped : skipsCookie symbol = false := by
        simp [skipsCookie, notSemicolon, notBlank]
      rw [List.flatMap_cons, isText] at read
      have skipped := skipsCookie_item notSkipped (text ++ cookies.flatMap SentCookie.text)
      cases version with
      | rfc =>
          have begins := (apreqParseCookieHeader_version j noEnd
            (32 :: symbol :: (text ++ cookies.flatMap SentCookie.text))).2
          rw [sentHeader, List.flatMap_cons, isText]
          refine begins.trans (Eq.trans (parseCookieLoop_skip ?_ _ _ _) read)
          exact (List.dropWhile_cons_of_pos (by decide)).symm
      | netscape =>
          have begins := apreqParseCookieHeader_netscape j
            (show ∀ first ∈ (symbol :: (text ++ cookies.flatMap SentCookie.text)).head?, _ by
              intro first isFirst
              cases isFirst
              exact ⟨notBlank, notDollar⟩)
          rw [sentHeader, List.flatMap_cons, isText]
          refine begins.trans (Eq.trans (parseCookieLoop_skip ?_ _ _ _) read)
          exact (List.dropWhile_cons_of_neg (by simp [notSkipped])).trans skipped.symm

/-- Header lines as Apache merges them. -/
def mergedHeader : List Bytes → Bytes
  | [] => []
  | [hdr] => hdr
  | hdr :: headers => hdr ++ 44 :: 32 :: mergedHeader headers

theorem mergedHeader_cons (hdr hdr' : Bytes) (headers : List Bytes) :
    mergedHeader (hdr :: hdr' :: headers) = hdr ++ 44 :: 32 :: mergedHeader (hdr' :: headers) := rfl

/-- Blanks before a header are skipped. -/
theorem apreqParseCookieHeader_blank (j : CookieTable) (hdr : Bytes) :
    apreqParseCookieHeader j (32 :: hdr) = apreqParseCookieHeader j hdr := by
  have skipped : (32 :: hdr).dropWhile aprIsspace = hdr.dropWhile aprIsspace :=
    List.dropWhile_cons_of_pos (by decide)
  have same : parseCookieStart (32 :: hdr) = parseCookieStart hdr := by
    by_cases dollar : ∃ text, hdr.dropWhile aprIsspace = 36 :: text
    · rcases dollar with ⟨text, dollar⟩
      rw [parseCookieStart_version dollar, parseCookieStart_version (skipped.trans dollar)]
    · have notDollar (text : Bytes) : hdr.dropWhile aprIsspace ≠ 36 :: text := fun isText =>
        dollar ⟨text, isText⟩
      rw [parseCookieStart_netscape notDollar, parseCookieStart_netscape (by rwa [skipped]),
        skipped]
  simp only [apreqParseCookieHeader, same]

/-- The lines of a request, each with a version of its own, are read one after the other. -/
theorem apreqParseCookieHeader_lines (j : CookieTable)
    (headers : List (CookieVersion × List SentCookie))
    (attributes : ∀ header ∈ headers, header.1 = .netscape →
      ∀ cookie ∈ header.2, cookie.attributes = []) :
    apreqParseCookieHeader j
        (mergedHeader (headers.map fun header => sentHeader header.1 header.2)) =
      (.success, j ++ headers.flatMap fun header => header.2.map SentCookie.param) := by
  induction headers generalizing j with
  | nil =>
      have empty := @apreqParseCookieHeader_sent j .netscape [] (by simp)
      simpa [mergedHeader, sentHeader] using empty
  | cons header headers ih =>
      have first := apreqParseCookieHeader_sent j header.2 (attributes header List.mem_cons_self)
      have rest := ih (j ++ header.2.map SentCookie.param) fun header isHeader =>
        attributes header (List.mem_cons_of_mem _ isHeader)
      cases headers with
      | nil => simpa [mergedHeader] using first
      | cons header' headers =>
          rw [List.map_cons] at rest
          rw [List.map_cons, List.map_cons, mergedHeader_cons, apreqParseCookieHeader_comma _ first,
            apreqParseCookieHeader_blank, rest]
          simp

/-- R sees the cookies of all lines, in order. -/
theorem parseCookies_lines {s : Session} {r : RequestRec} (current : s.request.r = some r)
    (notParsed : s.request.cookiesTable = none)
    (parses : ∀ hdr, r.parseCookieHeader hdr = (apreqParseCookieHeader [] hdr).2)
    (headers : List (CookieVersion × List SentCookie))
    (attributes : ∀ header ∈ headers, header.1 = .netscape →
      ∀ cookie ∈ header.2, cookie.attributes = [])
    (isHeader : aprTableGet r.headersIn (bytes "Cookie") =
      some (mergedHeader (headers.map fun header => sentHeader header.1 header.2))) :
    s.parseCookies.1 = .returned (aprTableToList tableCallback
      (some (headers.flatMap fun header => header.2.map SentCookie.param))) := by
  have read := apreqParseCookieHeader_lines [] headers attributes
  simp only [Session.parseCookies, current, notParsed, isHeader, parses, read, List.nil_append]

def quotedCookie : SentCookie where
  name := bytes "a"
  value := bytes "\"x;y\""
  attributes := [⟨bytes "Path", bytes "/", ⟨by decide +kernel, by decide +kernel⟩,
    .token (by decide +kernel) (by decide +kernel), by decide +kernel⟩]
  isName := ⟨by decide +kernel, by decide +kernel⟩
  begins := by decide +kernel
  isValue := @PairValue.quoted (bytes "x;y") (by decide +kernel)

def plainCookie : SentCookie where
  name := bytes "b"
  value := []
  attributes := []
  isName := ⟨by decide +kernel, by decide +kernel⟩
  begins := by decide +kernel
  isValue := .token (by decide +kernel) (by decide +kernel)

/-- Two lines, the first with a version and an attribute. -/
theorem parseCookies_lines_two :
    ({ request := { r := some {
      address := 0
      handler := bytes "r-handler"
      headersIn := [⟨bytes "Cookie", bytes "$Version=1; a=\"x;y\"; $Path=/, b=", false⟩]
      parseCookieHeader hdr := (apreqParseCookieHeader [] hdr).2 } } } : Session).parseCookies.1 =
        .returned (aprTableToList tableCallback
          (some [⟨bytes "a", bytes "\"x;y\"", false⟩, ⟨bytes "b", [], false⟩])) :=
  parseCookies_lines rfl rfl (fun _ => rfl) [(.rfc, [quotedCookie]), (.netscape, [plainCookie])]
    (by simp [plainCookie]) (by decide +kernel)

/-! ## One cookie -/

/-- The number of bytes of a header that the cookies of a table are read from. -/
def cookieWeight (table : CookieTable) : Nat :=
  (table.map fun param => param.name.length + 1 + param.value.length).sum

theorem cookieWeight_addCookieTo (j : CookieTable) (c : Option Param) :
    cookieWeight (addCookieTo j c) =
      cookieWeight j + (c.elim 0 fun param => param.name.length + 1 + param.value.length) := by
  cases c <;> simp [cookieWeight, addCookieTo]

theorem keyOf_length (before : Bytes) : (keyOf before).length ≤ before.length :=
  ((List.rtakeWhile_suffix _ _).length_le).trans (List.rdropWhile_prefix _ _).length_le

theorem keyOf_of_length {before : Bytes} (same : (keyOf before).length = before.length) :
    keyOf before = before := by
  have trimmed := List.rdropWhile_prefix aprIsspace before
  have word := List.rtakeWhile_suffix (fun symbol => !aprIsspace symbol)
    (before.rdropWhile aprIsspace)
  have trimmed_le := trimmed.length_le
  have word_le := word.length_le
  rw [keyOf] at same ⊢
  rw [word.eq_of_length (by omega), trimmed.eq_of_length (by omega)]

theorem keyOf_noBlank {before : Bytes} {symbol : UInt8} (isSymbol : symbol ∈ keyOf before) :
    aprIsspace symbol = false := by
  simpa using List.mem_rtakeWhile_imp isSymbol

theorem pairValue_weight {val value data : Bytes}
    (found : pairValue false val = .ok (value, data)) :
    value.length + data.length = val.length := by
  unfold pairValue at found
  split at found
  next text =>
    split at found
    next => cases found
    next value' rest closed =>
      rcases lookForEndQuote_append closed [] with ⟨-, behind, rfl⟩
      have whole := lookForEndQuote_whole closed
      cases found
      rw [whole]
      simp
      omega
  next =>
    cases found
    rw [← List.length_append, List.takeWhile_append_dropWhile]

theorem getPair_weight {data : Bytes} {pair : Pair} (found : getPair data false = .ok pair) :
    pair.name.length + 1 + pair.value.length + pair.data.length ≤ data.length := by
  unfold getPair at found
  split at found
  next => cases found
  next before behind cut =>
    cases isValue : pairValue false (behind.dropWhile aprIsspace) with
    | error status =>
        rw [isValue] at found
        cases found
    | ok result =>
        rw [isValue] at found
        cases found
        have value := pairValue_weight isValue
        have blanks := (List.dropWhile_suffix (l := behind) aprIsspace).length_le
        have skipped := (List.dropWhile_suffix (l := data) skipsName).length_le
        have name := keyOf_length before
        have length := cutAt_length cut
        simp only
        omega

/-- Every byte that is put into the table is a byte of the header. -/
theorem parseCookieLoop_weight (j : CookieTable) (c : Option Param) (version : CookieVersion)
    (hdr : Bytes) :
    cookieWeight (parseCookieLoop j c version hdr).2 ≤
      cookieWeight (addCookieTo j c) + hdr.length := by
  have skipped (hdr : Bytes) := (List.dropWhile_suffix (l := hdr) skipsCookie).length_le
  fun_induction parseCookieLoop j c version hdr with
  | case1 | case2 | case9 => exact Nat.le_add_right _ _
  | case3 j c version hdr text isText version' behind start ih =>
      have shorter := parseCookieStart_length start
      have suffix := skipped hdr
      rw [isText, List.length_cons] at suffix
      rw [cookieWeight_addCookieTo] at ih
      simp only [Option.elim_none] at ih
      omega
  | case4 j c | case5 j c | case6 j c | case8 j c =>
      rw [cookieWeight_addCookieTo, Nat.add_assoc]
      exact Nat.le_add_right _ _
  | case7 j c version hdr text isText isSome isRfc pair found status accepted ih =>
      have shorter := getPair_length found
      have suffix := skipped hdr
      rw [isText, List.length_cons] at suffix
      omega
  | case10 j c version hdr pair notEmpty notComma notDollar found ih =>
      have weight := getPair_weight found
      have suffix := skipped hdr
      rw [cookieWeight_addCookieTo] at ih
      simp only [Option.elim_some] at ih
      omega

/-- A cookie that has been read stays. -/
theorem parseCookieLoop_keeps {j j' : CookieTable} {c : Option Param} {version : CookieVersion}
    {hdr : Bytes} (parsed : parseCookieLoop j c version hdr = (.success, j')) :
    addCookieTo j c <+: j' := by
  fun_induction parseCookieLoop j c version hdr with
  | case1 | case2 =>
      cases parsed
      exact List.prefix_rfl
  | case3 j c version hdr text isText version' behind start ih | case10 j c _ _ _ _ _ _ _ ih =>
      exact (List.prefix_append _ _).trans (ih parsed)
  | case4 | case5 => cases parsed
  | case6 j c version hdr text isText isSome isRfc status found | case9 _ _ _ _ _ _ _ status found =>
      exact absurd (congrArg Prod.fst parsed) (getPair_error found)
  | case7 j c version hdr text isText isSome isRfc pair found status accepted ih => exact ih parsed
  | case8 j c version hdr text isText isSome isRfc pair found status refused =>
      exact absurd (Or.inl (congrArg Prod.fst parsed)) refused

/-- A value that is all of a text. -/
theorem pairValue_whole {value data : Bytes} (found : pairValue false value = .ok (value, data))
    (first : ∀ symbol ∈ value.head?, aprIsspace symbol = false) : PairValue value := by
  unfold pairValue at found
  split at found
  next text =>
    split at found
    next => cases found
    next value' rest closed =>
      rcases lookForEndQuote_append closed [] with ⟨-, behind, rfl⟩
      simp only [Bool.false_eq_true, if_false, Except.ok.injEq, Prod.mk.injEq, List.cons_append,
        List.cons.injEq, true_and] at found
      have whole := lookForEndQuote_whole closed
      have nothing : behind = [] := by
        have same := found.1.trans whole
        simpa using same
      subst nothing
      rw [← found.1] at closed ⊢
      exact .quoted closed
  next notQuote =>
    simp only [Except.ok.injEq, Prod.mk.injEq] at found
    refine .token (fun symbol isSymbol => ?_) fun symbol isFirst => ⟨first symbol isFirst, ?_⟩
    · rw [← found.1] at isSymbol
      simpa using List.mem_takeWhile_imp isSymbol
    · rintro rfl
      cases value with
      | nil => cases isFirst
      | cons symbol value =>
          cases isFirst
          exact notQuote value rfl

/-- What is read as a whole pair is a name and a value. -/
theorem getPair_whole {name value data : Bytes}
    (found : getPair (name ++ 61 :: value) false = .ok ⟨name, value, data⟩) :
    PairName name ∧ PairValue value := by
  unfold getPair at found
  split at found
  next => cases found
  next before behind cut =>
    cases isValue : pairValue false (behind.dropWhile aprIsspace) with
    | error status =>
        rw [isValue] at found
        cases found
    | ok result =>
        rw [isValue] at found
        simp only [Except.map, Except.ok.injEq, Pair.mk.injEq] at found
        rcases found with ⟨isKey, sameValue, -⟩
        -- Nothing is left out: no text is skipped, and the name is all that is before the sign.
        have weight := pairValue_weight isValue
        have key := keyOf_length before
        have length := cutAt_length cut
        have blanks := List.dropWhile_suffix (l := behind) aprIsspace
        have skipped := List.dropWhile_suffix (l := name ++ 61 :: value) skipsName
        have blanks_le := blanks.length_le
        have skipped_le := skipped.length_le
        have whole : (name ++ 61 :: value).length = name.length + 1 + value.length := by
          simp only [List.length_append, List.length_cons]
          omega
        rw [isKey] at key
        rw [sameValue] at weight
        have sameText := skipped.eq_of_length (by omega)
        have sameBehind := blanks.eq_of_length (by omega)
        have sameName : keyOf before = before := keyOf_of_length (by rw [isKey]; omega)
        rw [isKey] at sameName
        subst sameName
        rw [sameText] at cut
        rcases cutAt_eq_some.mp cut with ⟨separator, isText, -, noEquals⟩
        cases List.append_cancel_left isText
        rw [sameBehind] at isValue
        subst sameValue
        refine ⟨⟨?_, fun symbol isSymbol => ⟨?_, ?_⟩⟩, pairValue_whole isValue ?_⟩
        · rintro rfl
          have stops := dropWhile_eq_self.mp sameText 61 rfl
          exact absurd stops (by decide)
        · exact keyOf_noBlank (isKey ▸ isSymbol)
        · simpa using noEquals symbol isSymbol
        · exact dropWhile_eq_self.mp sameBehind

/-- The loop begins behind what is skipped, or at the beginning. -/
theorem parseCookieStart_whole {hdr text : Bytes} {version : CookieVersion}
    (start : parseCookieStart hdr = some (version, text)) :
    text.length < hdr.length ∨ version = .netscape ∧ text = hdr := by
  have suffix := List.dropWhile_suffix (l := hdr) aprIsspace
  have suffix_le := suffix.length_le
  by_cases dollar : ∃ text, hdr.dropWhile aprIsspace = 36 :: text
  · rcases dollar with ⟨text', dollar⟩
    rw [parseCookieStart_version dollar] at start
    rw [dollar] at suffix_le
    left
    split at start
    next => cases start
    next behind skipped =>
      cases start
      have shorter := skipVersionString_length skipped
      simp only [Sum.elim_inl, id_eq] at shorter
      omega
    next behind skipped =>
      have shorter := skipVersionString_length skipped
      have rest := parseCookieStart_length start
      simp only [Sum.elim_inr, id_eq] at shorter
      omega
  · rw [parseCookieStart_netscape fun text isText => dollar ⟨text, isText⟩] at start
    cases start
    by_cases same : (hdr.dropWhile aprIsspace).length = hdr.length
    · exact .inr ⟨rfl, suffix.eq_of_length same⟩
    · exact .inl (by omega)

theorem apreqParseCookieHeader_weight (j : CookieTable) (hdr : Bytes) :
    cookieWeight (apreqParseCookieHeader j hdr).2 ≤ cookieWeight j + hdr.length := by
  unfold apreqParseCookieHeader
  split
  next => exact Nat.le_add_right _ _
  next version text start =>
    have shorter := parseCookieStart_length start
    have weight := parseCookieLoop_weight j none version text
    rw [cookieWeight_addCookieTo] at weight
    simp only [Option.elim_none] at weight
    omega

/-- A header that is all read as one cookie is a pair. -/
theorem apreqParseCookieHeader_begins {hdr name value : Bytes}
    (all : hdr.length = name.length + 1 + value.length)
    (parsed : apreqParseCookieHeader [] hdr = (.success, [⟨name, value, false⟩])) :
    (∀ symbol ∈ hdr.head?, symbol ≠ 59 ∧ symbol ≠ 44 ∧ symbol ≠ 36) ∧
      ∃ data, getPair hdr false = .ok ⟨name, value, data⟩ := by
  have weight : cookieWeight [⟨name, value, false⟩] = hdr.length := by
    rw [all]
    rfl
  unfold apreqParseCookieHeader at parsed
  split at parsed
  next => cases parsed
  next version text start =>
    have text_le := parseCookieLoop_weight [] none version text
    rw [parsed, weight] at text_le
    rcases parseCookieStart_whole start with shorter | ⟨rfl, rfl⟩
    · exact absurd text_le (by simpa [addCookieTo, cookieWeight] using shorter)
    · have suffix := List.dropWhile_suffix (l := text) skipsCookie
      have suffix_le := suffix.length_le
      cases isText : text.dropWhile skipsCookie with
      | nil =>
          rw [parseCookieLoop_end isText] at parsed
          cases parsed
      | cons symbol rest =>
          rw [isText] at suffix suffix_le
          rw [List.length_cons] at suffix_le
          by_cases comma : symbol = 44
          · subst comma
            rw [parseCookieLoop_comma isText] at parsed
            have rest_le := apreqParseCookieHeader_weight (addCookieTo [] none) rest
            rw [parsed, weight, cookieWeight_addCookieTo] at rest_le
            simp only [cookieWeight, List.map_nil, List.sum_nil, Option.elim_none] at rest_le
            omega
          · by_cases dollar : symbol = 36
            · subst dollar
              rw [parseCookieLoop_attribute isText, if_pos rfl] at parsed
              cases parsed
            · rw [parseCookieLoop_pair isText comma dollar] at parsed
              split at parsed
              next status found => exact absurd (congrArg Prod.fst parsed) (getPair_error found)
              next pair found =>
                have keeps := parseCookieLoop_keeps parsed
                have whole := keeps.eq_of_length rfl
                simp only [addCookieTo, Option.toList, List.append_nil, List.nil_append,
                  List.cons.injEq, Param.mk.injEq, and_true] at whole
                rcases whole with ⟨rfl, rfl⟩
                have pair_le := getPair_weight found
                have same := suffix.eq_of_length (by rw [List.length_cons] at pair_le ⊢; omega)
                rw [same] at found isText
                refine ⟨?_, pair.data, found⟩
                rintro first isFirst
                have notSkipped := dropWhile_eq_self.mp isText first isFirst
                rw [← same] at isFirst
                cases isFirst
                refine ⟨?_, comma, dollar⟩
                rintro rfl
                exact absurd notSkipped (by decide)

/-- A single name and value are read back as this cookie only if they hold nothing that ends
them. -/
theorem apreqParseCookieHeader_single (name value : Bytes) :
    apreqParseCookieHeader [] (name ++ 61 :: value) = (.success, [⟨name, value, false⟩]) ↔
      PairName name ∧ (∀ symbol ∈ name.head?, symbol ≠ 59 ∧ symbol ≠ 44 ∧ symbol ≠ 36) ∧
        PairValue value := by
  constructor
  · intro parsed
    have all : (name ++ 61 :: value).length = name.length + 1 + value.length := by
      simp only [List.length_append, List.length_cons]
      omega
    rcases apreqParseCookieHeader_begins all parsed with ⟨begins, data, found⟩
    rcases getPair_whole found with ⟨isName, isValue⟩
    refine ⟨isName, ?_, isValue⟩
    rcases isName.first with ⟨symbol, text, rfl, -, -⟩
    exact begins
  · rintro ⟨isName, begins, isValue⟩
    have sent := @apreqParseCookieHeader_sent [] .netscape
      [⟨name, value, [], isName, begins, isValue⟩] (by simp)
    simpa [sentHeader, SentCookie.text, SentCookie.param] using sent

end RApache
