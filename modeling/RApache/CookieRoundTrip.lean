import RApache.Cookies
import RApache.CookiesSent
import RApache.EnDecode

/-!
# Cookies that come back

The cookies that R code sets in one request are those that it sees in a later one, if the client
sends back what is before the attributes of each of them.
-/

namespace RApache

/-! ## The client -/

/-- What a client keeps of a `Set-Cookie` header: the pair before the attributes. -/
def clientPair (header : Bytes) : Bytes := header.takeWhile (· ≠ 59)

/-- The `Cookie` header of a client that was sent these headers. -/
def clientHeader (headers : List Bytes) : Bytes :=
  (headers.flatMap fun header => 59 :: 32 :: clientPair header).drop 2

/-! ## Cookies and their headers -/

/-- A name that begins an item of a `Cookie` header and is kept apart from the attributes. -/
structure ReturnedName (name : Bytes) : Prop where
  isName : PairName name
  begins : ∀ symbol ∈ name.head?, symbol ≠ 44 ∧ symbol ≠ 36
  noSemicolon : 59 ∉ name

/-- A value that is kept apart from the attributes. -/
structure ReturnedValue (value : Bytes) : Prop where
  isValue : PairValue value
  noSemicolon : 59 ∉ value

/-- A cookie of a name and a value that are sent back. -/
structure ReturnedCookie (args : CookieArgs) : Prop where
  plain : args.Plain
  name : ReturnedName args.name.text
  value : ReturnedValue args.value.valueText

/-- The cookie as it is sent back. -/
def ReturnedCookie.sent {args : CookieArgs} (returned : ReturnedCookie args) : SentCookie where
  name := args.name.text
  value := args.value.valueText
  attributes := []
  isName := returned.name.isName
  begins symbol isFirst := by
    refine ⟨?_, returned.name.begins symbol isFirst⟩
    rintro rfl
    exact returned.name.noSemicolon (List.mem_of_mem_head? isFirst)
  isValue := returned.value.isValue

/-- The parameter that R is to see. -/
def CookieArgs.param (args : CookieArgs) : Param := ⟨args.name.text, args.value.valueText, false⟩

theorem EndsPair.append {text rest : Bytes} (ends : EndsPair text) (endsRest : EndsPair rest) :
    EndsPair (text ++ rest) := by
  cases text with
  | nil => exact endsRest
  | cons symbol text =>
      intro first isFirst
      exact ends first isFirst

/-- What comes behind the value of a cookie. -/
def cookieAttributes (w : DateWorld) (args : CookieArgs) : Bytes :=
  cookieHeader.expires w args.expires ++ cookieHeader.member ";path=" args.path ++
    cookieHeader.member ";domain=" args.domain ++ cookieHeader.rest args.rest

theorem endsPair_bytes {start : String} (semicolon : (bytes start).head? = some 59)
    (text : Bytes) : EndsPair (bytes start ++ text) := by
  intro symbol isFirst
  rw [List.head?_append, semicolon] at isFirst
  cases isFirst
  rfl

theorem endsPair_nil : EndsPair [] := nofun

theorem cookieAttributes_ends (w : DateWorld) (args : CookieArgs) :
    EndsPair (cookieAttributes w args) := by
  have expires : EndsPair (cookieHeader.expires w args.expires) := by
    unfold cookieHeader.expires
    split
    next =>
      split
      next => exact endsPair_bytes (by decide +kernel) _
      next => exact endsPair_nil
    next => exact endsPair_nil
  have member (start : String) (semicolon : (bytes start).head? = some 59) (x : RArgument) :
      EndsPair (cookieHeader.member start x) := by
    unfold cookieHeader.member
    split
    next => exact endsPair_bytes semicolon _
    next => exact endsPair_nil
  have rest : EndsPair (cookieHeader.rest args.rest) := by
    unfold cookieHeader.rest
    split
    next => exact endsPair_bytes (by decide +kernel) _
    next => exact endsPair_nil
  exact ((expires.append (member _ (by decide +kernel) _)).append
    (member _ (by decide +kernel) _)).append rest

theorem cookieHeader_eq (w : DateWorld) (args : CookieArgs) :
    cookieHeader w args =
      (args.name.text ++ 61 :: args.value.valueText) ++ cookieAttributes w args := by
  have equals : bytes "=" = [61] := by decide +kernel
  simp [cookieHeader, cookieAttributes, equals]

theorem clientPair_cookieHeader (w : DateWorld) {args : CookieArgs}
    (returned : ReturnedCookie args) :
    clientPair (cookieHeader w args) = args.name.text ++ 61 :: args.value.valueText := by
  have noSemicolon : ∀ symbol ∈ args.name.text ++ 61 :: args.value.valueText,
      decide (symbol ≠ 59) = true := by
    intro symbol isSymbol
    rw [decide_eq_true_iff]
    rintro rfl
    rcases List.mem_append.mp isSymbol with inName | inValue
    · exact returned.name.noSemicolon inName
    · rcases List.mem_cons.mp inValue with same | inValue
      · exact absurd same (by decide)
      · exact returned.value.noSemicolon inValue
  have behind : (cookieAttributes w args).takeWhile (· ≠ 59) = [] := by
    cases isText : cookieAttributes w args with
    | nil => rfl
    | cons symbol text =>
        have semicolon := cookieAttributes_ends w args symbol (by rw [isText]; rfl)
        rw [List.takeWhile_cons_of_neg (by simp [semicolon])]
  rw [clientPair, cookieHeader_eq, List.takeWhile_append_of_pos noSemicolon, behind,
    List.append_nil]

/-- What the client sends is a header of these cookies. -/
theorem clientHeader_sent (w : DateWorld) {calls : List CookieArgs}
    (returned : ∀ args ∈ calls, ReturnedCookie args) :
    ∃ cookies : List SentCookie, (∀ cookie ∈ cookies, cookie.attributes = []) ∧
      cookies.map SentCookie.param = calls.map CookieArgs.param ∧
        clientHeader (calls.map (cookieHeader w)) = sentHeader .netscape cookies := by
  have sent : ∃ cookies : List SentCookie, (∀ cookie ∈ cookies, cookie.attributes = []) ∧
      cookies.map SentCookie.param = calls.map CookieArgs.param ∧
        cookies.flatMap SentCookie.text = (calls.map (cookieHeader w)).flatMap fun header =>
          59 :: 32 :: clientPair header := by
    induction calls with
    | nil => exact ⟨[], by simp⟩
    | cons args calls ih =>
        rcases List.forall_mem_cons.mp returned with ⟨first, others⟩
        rcases ih others with ⟨cookies, attributes, params, text⟩
        refine ⟨first.sent :: cookies, ?_, ?_, ?_⟩
        · exact List.forall_mem_cons.mpr ⟨rfl, attributes⟩
        · rw [List.map_cons, List.map_cons, params]
          rfl
        · rw [List.flatMap_cons, List.map_cons, List.flatMap_cons, text,
            clientPair_cookieHeader w first]
          simp [SentCookie.text, ReturnedCookie.sent]
  rcases sent with ⟨cookies, attributes, params, text⟩
  exact ⟨cookies, attributes, params, by rw [clientHeader, ← text, sentHeader]⟩

/-! ## From one request to another -/

theorem CookieArgs.Plain.named {args : CookieArgs} (plain : args.Plain) :
    args.name.isNull = false := by
  rcases plain.name with ⟨element, elements, isText⟩
  simp [RArgument.isNull, isText]

/-- The headers that the calls add. -/
theorem setCookies_headers (w : DateWorld) {calls : List CookieArgs}
    (plain : ∀ args ∈ calls, args.Plain) {g : Globals} (inRequest : g.session.request.r.isSome) :
    headerValues (bytes "Set-Cookie") (setCookies w calls g).2.headersOut =
      headerValues (bytes "Set-Cookie") g.headersOut ++ calls.map (cookieHeader w) := by
  induction calls generalizing g with
  | nil => simp [setCookies]
  | cons args calls ih =>
      rcases List.forall_mem_cons.mp plain with ⟨first, others⟩
      have isText := (cookieText_eq_iff w args).mpr first
      let g' : Globals := { g with headersOut := addCookie g.headersOut (cookieHeader w args) }
      have called : (setCookies w (args :: calls) g).2 = (setCookies w calls g').2 := by
        rw [setCookies_cons inRequest first.named isText]
      rw [called, ih others (g := g') inRequest, addCookie_setCookie, List.append_assoc]
      rfl

/-- The cookies of one request are those of a later one, in order. -/
theorem setCookies_come_back (w : DateWorld) {calls : List CookieArgs}
    (returned : ∀ args ∈ calls, ReturnedCookie args) {g : Globals}
    (inRequest : g.session.request.r.isSome)
    (noCookies : headerValues (bytes "Set-Cookie") g.headersOut = [])
    {s : Session} {r : RequestRec} (current : s.request.r = some r)
    (notParsed : s.request.cookiesTable = none)
    (parses : ∀ hdr, r.parseCookieHeader hdr = (apreqParseCookieHeader [] hdr).2)
    (isHeader : aprTableGet r.headersIn (bytes "Cookie") = some (clientHeader
      (headerValues (bytes "Set-Cookie") (setCookies w calls g).2.headersOut))) :
    s.parseCookies.1 =
      .returned (aprTableToList tableCallback (some (calls.map CookieArgs.param))) := by
  have plain : ∀ args ∈ calls, args.Plain := fun args isArgs => (returned args isArgs).plain
  rcases clientHeader_sent w returned with ⟨cookies, attributes, params, sent⟩
  rw [setCookies_headers w plain inRequest, noCookies, List.nil_append, sent] at isHeader
  have read := @apreqParseCookieHeader_sent [] .netscape cookies fun _ => attributes
  simp only [Session.parseCookies, current, notParsed, isHeader, parses, read, List.nil_append,
    params]

/-- A cookie for all paths. -/
def pathCookie (name value : String) : CookieArgs where
  name := { data := .character [some (bytes name)] }
  value := { data := .character [some (bytes value)] }
  path := { data := .character [some (bytes "/")] }

theorem pathCookie_plain (name value : String) : (pathCookie name value).Plain where
  name := ⟨_, _, rfl⟩
  value := ⟨⟨1, rfl⟩, nofun⟩
  expires isDate := absurd isDate (by simp [pathCookie, RArgument.IsDate, RArgument.isNull])
  path _ := ⟨_, _, rfl⟩
  domain := nofun
  rest _ := ⟨_, _, rfl⟩

/-- A request with this `Cookie` header. -/
def cookieSession (header : String) : Session where
  request := { r := some {
    address := 0
    handler := bytes "r-handler"
    headersIn := [⟨bytes "Cookie", bytes header, false⟩]
    parseCookieHeader hdr := (apreqParseCookieHeader [] hdr).2 } }

/-- Two cookies, one with a quoted value. -/
theorem setCookies_come_back_two :
    (cookieSession "a=\"x,y\"; b=").parseCookies.1 = .returned (aprTableToList tableCallback
      (some [⟨bytes "a", bytes "\"x,y\"", false⟩, ⟨bytes "b", [], false⟩])) := by
  refine @setCookies_come_back plainDates [pathCookie "a" "\"x,y\"", pathCookie "b" ""] ?_
    cookieRequest rfl rfl _ _ rfl rfl (fun _ => rfl) (by decide +kernel)
  intro args isArgs
  rcases List.mem_cons.mp isArgs with rfl | isSecond
  · have closed : lookForEndQuote (bytes "x,y" ++ [34]) = some (bytes "x,y", [34]) := by
      decide +kernel
    exact ⟨pathCookie_plain _ _,
      ⟨⟨by decide +kernel, by decide +kernel⟩, by decide +kernel, by decide +kernel⟩,
      ⟨.quoted closed, by decide +kernel⟩⟩
  · rw [List.mem_singleton.mp isSecond]
    exact ⟨pathCookie_plain _ _,
      ⟨⟨by decide +kernel, by decide +kernel⟩, by decide +kernel, by decide +kernel⟩,
      ⟨.token (by decide +kernel) (by decide +kernel), by decide +kernel⟩⟩

/-! ## Values of any text -/

/-- A symbol that does not end a value, and with which one can begin. -/
def inValue (symbol : UInt8) : Bool :=
  !(isTerminator symbol || aprIsspace symbol || symbol = 34 || symbol = 59)

theorem inValue_verbatim {locale : UInt8 → Bool} {c : UInt8}
    (verbatim : (aprIsalnum locale c || c ∈ bytes "-._~") = true) : inValue c = true := by
  have every (c : UInt8) : (128 ≤ c ∨ aprIsalnum (fun _ => false) c || c ∈ bytes "-._~") →
      inValue c = true :=
    forall_uint8 (P := fun c => (128 ≤ c ∨ aprIsalnum (fun _ => false) c || c ∈ bytes "-._~") →
      inValue c = true) (by decide +kernel) c
  by_cases ascii : c < 128
  · have same : aprIsalnum locale c = aprIsalnum (fun _ => false) c := by simp [aprIsalnum, ascii]
    exact every c (.inr (same ▸ verbatim))
  · exact every c (.inl (UInt8.not_lt.mp ascii))

theorem inValue_digits (c : UInt8) :
    inValue (c2xTable (c >>> 4)) = true ∧ inValue (c2xTable (c &&& 0xf)) = true :=
  forall_uint8 (P := fun c => inValue (c2xTable (c >>> 4)) = true ∧
    inValue (c2xTable (c &&& 0xf)) = true) (by decide +kernel) c

/-- No symbol of a code ends a value. -/
theorem inValue_encoded (locale : UInt8 → Bool) (str : Bytes) :
    ∀ symbol ∈ encoded locale str, inValue symbol = true := by
  intro symbol isSymbol
  rcases List.mem_flatMap.mp isSymbol with ⟨c, -, inByte⟩
  unfold encodeByte at inByte
  split at inByte
  next verbatim =>
    rw [List.mem_singleton.mp inByte]
    exact inValue_verbatim verbatim
  next =>
    split at inByte
    next =>
      rw [List.mem_singleton.mp inByte]
      decide +kernel
    next =>
      simp only [List.mem_cons, List.not_mem_nil, or_false] at inByte
      rcases inByte with rfl | rfl | rfl
      · decide +kernel
      · exact (inValue_digits c).1
      · exact (inValue_digits c).2

theorem returnedValue_encoded (locale : UInt8 → Bool) (str : Bytes) :
    ReturnedValue (encoded locale str) := by
  have symbols : ∀ symbol ∈ encoded locale str, isTerminator symbol = false ∧
      aprIsspace symbol = false ∧ symbol ≠ 34 ∧ symbol ≠ 59 := by
    intro symbol isSymbol
    simpa [inValue, and_assoc] using inValue_encoded locale str symbol isSymbol
  refine ⟨.token (fun symbol isSymbol => (symbols symbol isSymbol).1) ?_, ?_⟩
  · intro symbol isFirst
    have found := symbols symbol (List.mem_of_mem_head? isFirst)
    exact ⟨found.2.1, found.2.2.1⟩
  · intro isSemicolon
    exact (symbols 59 isSemicolon).2.2.2 rfl

theorem urlEnDecode_codes (locale : UInt8 → Bool) (old old' : Nat → UInt8) {texts : List Bytes}
    (kept : ∀ text ∈ texts, text ≠ [] ∧ 0 ∉ text ∧ ∀ c ∈ text, c < 128 ∨ locale c = true) :
    urlEnDecode locale old true texts = some (texts.map (encoded locale)) ∧
      urlEnDecode locale old' false (texts.map (encoded locale)) = some texts := by
  simp only [urlEnDecode, if_true, Bool.false_eq_true, if_false]
  induction texts with
  | nil => simp
  | cons text texts ih =>
      rcases List.forall_mem_cons.mp kept with ⟨⟨notEmpty, noNul, keptFirst⟩, keptRest⟩
      rcases ih keptRest with ⟨encodes, decodes⟩
      have code := encode_eq locale old noNul
      rw [if_neg notEmpty] at code
      have back := decode_encoded locale old' notEmpty noNul keptFirst
      constructor
      · simp [code, encodes]
      · simp [back, decodes]

/-- Whatever symbols are in the texts, R code that encodes them for its cookies and decodes the
cookies of a later request has them back. -/
theorem encodedCookies_come_back (w : DateWorld) (locale : UInt8 → Bool) (old old' : Nat → UInt8)
    {texts : List Bytes}
    (kept : ∀ text ∈ texts, text ≠ [] ∧ 0 ∉ text ∧ ∀ c ∈ text, c < 128 ∨ locale c = true)
    {calls : List CookieArgs}
    (named : ∀ args ∈ calls, args.Plain ∧ ReturnedName args.name.text)
    (codes : urlEnDecode locale old true texts =
      some (calls.map fun args => args.value.valueText))
    {g : Globals} (inRequest : g.session.request.r.isSome)
    (noCookies : headerValues (bytes "Set-Cookie") g.headersOut = [])
    {s : Session} {r : RequestRec} (current : s.request.r = some r)
    (notParsed : s.request.cookiesTable = none)
    (parses : ∀ hdr, r.parseCookieHeader hdr = (apreqParseCookieHeader [] hdr).2)
    (isHeader : aprTableGet r.headersIn (bytes "Cookie") = some (clientHeader
      (headerValues (bytes "Set-Cookie") (setCookies w calls g).2.headersOut))) :
    ∃ cookies : ParamTable, s.parseCookies.1 =
        .returned (aprTableToList tableCallback (some cookies)) ∧
      cookies.map Param.name = calls.map (fun args => args.name.text) ∧
        urlEnDecode locale old' false (cookies.map Param.value) = some texts := by
  rcases urlEnDecode_codes locale old old' kept with ⟨encodes, decodes⟩
  have values : texts.map (encoded locale) = calls.map fun args => args.value.valueText :=
    Option.some.inj (encodes.symm.trans codes)
  have returned : ∀ args ∈ calls, ReturnedCookie args := by
    intro args isArgs
    have isValue : args.value.valueText ∈ texts.map (encoded locale) := by
      rw [values]
      exact List.mem_map_of_mem isArgs
    rcases List.mem_map.mp isValue with ⟨text, -, isCode⟩
    exact ⟨(named args isArgs).1, (named args isArgs).2, isCode ▸ returnedValue_encoded locale text⟩
  refine ⟨calls.map CookieArgs.param,
    setCookies_come_back w returned inRequest noCookies current notParsed parses isHeader, ?_, ?_⟩
  · rw [List.map_map]
    rfl
  · rw [List.map_map, ← decodes, values]
    rfl

/-- A text with a semicolon and a blank. -/
theorem encodedCookies_come_back_semicolon :
    ∃ cookies : ParamTable, (cookieSession "a=x%3B+y").parseCookies.1 =
        .returned (aprTableToList tableCallback (some cookies)) ∧
      cookies.map Param.name = [bytes "a"] ∧
        urlEnDecode (fun _ => false) (fun _ => 0) false (cookies.map Param.value) =
          some [bytes "x; y"] :=
  @encodedCookies_come_back plainDates (fun _ => false) (fun _ => 0) (fun _ => 0) [bytes "x; y"]
    (by decide +kernel) [pathCookie "a" "x%3B+y"]
    (by
      intro args isArgs
      rw [List.mem_singleton.mp isArgs]
      exact ⟨pathCookie_plain _ _,
        ⟨by decide +kernel, by decide +kernel⟩, by decide +kernel, by decide +kernel⟩)
    (by decide +kernel) cookieRequest rfl rfl _ _ rfl rfl (fun _ => rfl) (by decide +kernel)

end RApache
