import RApache.SendBin

/-!
# Headers of the response

`RApache_setHeader` and `RApache_setCookie` change `headers_out` of the current request.
-/

namespace RApache

/-! ## R objects as arguments -/

/-- The data of an R object: the strings of a character vector, where `NA_STRING` is `none`; the
elements of a double vector as `time_t` and as `coerceVector` makes strings of them; these strings
for any other vector, and for an object that is none if they can be made. -/
inductive RData where
  | null
  | character (elements : List (Option Bytes))
  | real (elements : List (Int × Option Bytes))
  | vector (strings : List (Option Bytes))
  | other (strings : Option (List (Option Bytes)))
  deriving DecidableEq, Repr

/-- An R object and its class attribute. -/
structure RArgument where
  data : RData
  classes : List Bytes := []
  deriving DecidableEq, Repr

/-- The call of R's C functions that does not come back to the module: an error of R, or the
process ends. -/
inductive RFailure where
  | error
  | ended
  deriving DecidableEq, Repr

namespace RArgument

/-- `x == R_NilValue`. -/
def isNull (x : RArgument) : Bool := x.data = .null

/-- `isString`. -/
def isString (x : RArgument) : Bool :=
  match x.data with
  | .character _ => true
  | _ => false

/-- `inherits`. -/
def inherits (x : RArgument) (what : Bytes) : Bool := x.classes.any fun name => name = what

/-- `coerceVector(x, STRSXP)`, if that is no error. -/
def strings (x : RArgument) : Option (List (Option Bytes)) :=
  match x.data with
  | .null => some []
  | .character elements => some elements
  | .real elements => some (elements.map Prod.snd)
  | .vector strings => some strings
  | .other strings => strings

/-- `CHAR` of an element of a character vector. -/
def charText (element : Option Bytes) : Bytes := element.getD (bytes "NA")

/-- `CHAR(STRING_ELT(x, 0))`: an error for other types; there may be no such element. -/
def char (x : RArgument) : Except RFailure Bytes :=
  match x.data with
  | .character (element :: _) => .ok (charText element)
  | .character [] => .error .ended
  | _ => .error .error

/-- `LENGTH`, which is an error for objects that are no vectors and for long vectors. -/
def length (x : RArgument) : Except RFailure Nat :=
  match x.data, x.strings with
  | .other _, _ => .error .error
  | _, some strings => if intMax < strings.length then .error .error else .ok strings.length
  | _, none => .error .error

/-- `REAL(x)[0]` as `time_t`. -/
def time (x : RArgument) : Except RFailure Int :=
  match x.data with
  | .real (element :: _) => .ok element.1
  | .real [] => .error .ended
  | _ => .error .error

end RArgument

/-! ## `headers_out` -/

/-- The globals of the current request with its `headers_out`. -/
structure Globals where
  session : Session := {}
  headersOut : ParamTable := []

/-- `apr_table_unset`. -/
def aprTableUnset (table : ParamTable) (key : Bytes) : ParamTable :=
  table.filter fun param => !strcaseeq param.name key

/-- `apr_table_set`: the first entry with that key gets the value, the others are removed. -/
def aprTableSet : (table : ParamTable) → (key value : Bytes) → ParamTable
  | [], key, value => [{ name := key, value, upload := false }]
  | param :: table, key, value =>
      if strcaseeq param.name key then { param with value } :: aprTableUnset table key
      else param :: aprTableSet table key value

/-- `apr_table_add`. -/
def aprTableAdd (table : ParamTable) (key value : Bytes) : ParamTable :=
  table ++ [{ name := key, value, upload := false }]

/-- How a `.Call` function ends: with a value, with an error of R, or the process ends. -/
inductive DotCallEnd where
  | returned (value : RValue)
  | failed (failure : RFailure)

/-- The end of a call that sets these headers and returns `TRUE` if it does not fail. -/
def withHeaders (g : Globals) : Except RFailure ParamTable → DotCallEnd × Globals
  | .ok headersOut => (.returned (.logical true), { g with headersOut })
  | .error failure => (.failed failure, g)

/-- `RApache_setHeader`. -/
def setHeader (header value : RArgument) (g : Globals) : DotCallEnd × Globals :=
  match header.char with
  | .error failure => (.failed failure, g)
  | .ok key =>
      if g.session.request.r.isNone then (.returned (.logical false), g)
      else if value.isNull then withHeaders g (.ok (aprTableUnset g.headersOut key))
      else
        match value.strings with
        | none => (.failed .error, g)
        | some strings =>
            withHeaders g <| ({ data := .character strings } : RArgument).char.map fun val =>
              aprTableSet g.headersOut key val

/-! ## Cookies -/

/-- What `setCookie` needs of R and APR: `as.POSIXct` and the date of a time in seconds. -/
structure DateWorld where
  asPOSIXct : RArgument → RArgument
  rfc822Date : Int → Bytes

/-- `CallFun1expr("as.POSIXct", arg, R_GlobalEnv, evalError)`: `EvalExprs` ends the process if it
is given no `evalError`. -/
def callAsPOSIXct (w : DateWorld) (arg : RArgument) (evalError : Option Bool) :
    Except RFailure RArgument :=
  match evalError with
  | none => .error .ended
  | some _ => .ok (w.asPOSIXct arg)

/-- The arguments of `RApache_setCookie`. -/
structure CookieArgs where
  name : RArgument
  value : RArgument := { data := .null }
  expires : RArgument := { data := .null }
  path : RArgument := { data := .null }
  domain : RArgument := { data := .null }
  rest : RArgument := { data := .character [some []] }

/-- The text of the value.  The vector that is compared with `NA_STRING` is never the same
object. -/
def cookieValue (value : RArgument) : Except RFailure Bytes :=
  if value.isNull then .ok []
  else do
    if (← value.length) ≠ 1 then .ok []
    else
      match value.strings with
      | some (element :: _) => .ok (RArgument.charText element)
      | _ => .error .error

/-- The text for `expires`.  Without one of the two classes `tmpExpires` is never set. -/
def cookieExpires (w : DateWorld) (expires : RArgument) : Except RFailure Bytes :=
  if !expires.isNull && expires.inherits (bytes "POSIXt") then do
    let tmpExpires ←
      if expires.inherits (bytes "POSIXct") then .ok expires
      else if expires.inherits (bytes "POSIXlt") then callAsPOSIXct w expires none
      else .error .ended
    let texpires ← tmpExpires.time
    .ok (bytes ";expires=" ++ w.rfc822Date texpires)
  else .ok []

/-- The text for `path` or `domain`. -/
def cookieAttribute (start : String) (x : RArgument) : Except RFailure Bytes :=
  if !x.isNull && x.isString then x.char.map fun text => bytes start ++ text else .ok []

/-- The text for `therest`. -/
def cookieRest (rest : RArgument) : Except RFailure Bytes :=
  if !rest.isNull && rest.isString then
    rest.char.map fun text => if text ≠ [] then bytes ";" ++ text else []
  else .ok []

/-- The text of the cookie. -/
def cookieText (w : DateWorld) (args : CookieArgs) : Except RFailure Bytes := do
  let name ← args.name.char
  let value ← cookieValue args.value
  let expires ← cookieExpires w args.expires
  let path ← cookieAttribute ";path=" args.path
  let domain ← cookieAttribute ";domain=" args.domain
  let rest ← cookieRest args.rest
  .ok (name ++ bytes "=" ++ value ++ expires ++ path ++ domain ++ rest)

/-- The changes of `headers_out` for a cookie. -/
def addCookie (headersOut : ParamTable) (cookie : Bytes) : ParamTable :=
  let headersOut :=
    if (aprTableGet headersOut (bytes "Cache-Control")).isNone then
      aprTableSet headersOut (bytes "Cache-Control") (bytes "nocache=\"set-cookie\"")
    else headersOut
  aprTableAdd headersOut (bytes "Set-Cookie") cookie

/-- `RApache_setCookie`. -/
def setCookie (w : DateWorld) (args : CookieArgs) (g : Globals) : DotCallEnd × Globals :=
  if g.session.request.r.isNone then (.returned (.logical false), g)
  else if args.name.isNull then (.returned (.logical false), g)
  else withHeaders g ((cookieText w args).map (addCookie g.headersOut))

/-- Cookies are set one after the other; a call that ends the process is the last one. -/
def setCookies (w : DateWorld) : List CookieArgs → Globals → List DotCallEnd × Globals
  | [], g => ([], g)
  | args :: calls, g =>
      match setCookie w args g with
      | (.failed .ended, g) => ([.failed .ended], g)
      | (callEnd, g) =>
          let (ends, g) := setCookies w calls g
          (callEnd :: ends, g)

/-! ## What is asked for -/

namespace RArgument

/-- A character vector with an element. -/
def HasText (x : RArgument) : Prop :=
  ∃ element elements, x.data = .character (element :: elements)

/-- The text of the first element. -/
def text (x : RArgument) : Bytes :=
  match x.data with
  | .character (element :: _) => charText element
  | _ => []

/-- The text that counts as the value of a cookie: that of a single string that is not `NA`. -/
def valueText (value : RArgument) : Bytes :=
  match value.strings with
  | some [some text] => text
  | _ => []

/-- The instant of a `POSIXct` or `POSIXlt` object. -/
def instant (w : DateWorld) (x : RArgument) : Option Int :=
  match (if x.inherits (bytes "POSIXct") then x else w.asPOSIXct x).data with
  | .real (element :: _) => some element.1
  | _ => none

/-- A date and time is given. -/
def IsDate (x : RArgument) : Prop := x.isNull = false ∧ x.inherits (bytes "POSIXt") = true

instance (x : RArgument) : Decidable x.IsDate := inferInstanceAs (Decidable (_ ∧ _))

end RArgument

/-- The header for these arguments. -/
def cookieHeader (w : DateWorld) (args : CookieArgs) : Bytes :=
  args.name.text ++ bytes "=" ++ args.value.valueText ++ expires w args.expires ++
    member ";path=" args.path ++ member ";domain=" args.domain ++ rest args.rest
where
  expires (w : DateWorld) (x : RArgument) : Bytes :=
    if x.IsDate then
      match x.instant w with
      | some instant => bytes ";expires=" ++ w.rfc822Date instant
      | none => []
    else []
  member (start : String) (x : RArgument) : Bytes :=
    if x.isString then bytes start ++ x.text else []
  rest (x : RArgument) : Bytes := if x.isString ∧ x.text ≠ [] then bytes ";" ++ x.text else []

/-- The value is a vector whose length is an `int`, and no single `NA`; a date is a double vector of
class `POSIXct` with an element; and character vectors have elements. -/
structure CookieArgs.Plain (args : CookieArgs) : Prop where
  name : args.name.HasText
  value : (∃ n, args.value.length = .ok n) ∧ args.value.strings ≠ some [none]
  expires : args.expires.IsDate →
    args.expires.inherits (bytes "POSIXct") = true ∧ ∃ time, args.expires.time = .ok time
  path : args.path.isString = true → args.path.HasText
  domain : args.domain.isString = true → args.domain.HasText
  rest : args.rest.isString = true → args.rest.HasText

/-- The values of the headers with a name, in order. -/
def headerValues (key : Bytes) (table : ParamTable) : List Bytes :=
  (table.filter fun param => strcaseeq param.name key).map Param.value

/-- Every call returns `TRUE`, the headers for the calls come behind the others in order, and a
`Cache-Control` header that is there stays. -/
def AppendsCookies (w : DateWorld) (calls : List CookieArgs) (g : Globals) : Prop :=
  (setCookies w calls g).1 = List.replicate calls.length (.returned (.logical true)) ∧
    headerValues (bytes "Set-Cookie") (setCookies w calls g).2.headersOut =
      headerValues (bytes "Set-Cookie") g.headersOut ++ calls.map (cookieHeader w) ∧
    (headerValues (bytes "Cache-Control") g.headersOut ≠ [] →
      headerValues (bytes "Cache-Control") (setCookies w calls g).2.headersOut =
        headerValues (bytes "Cache-Control") g.headersOut)

/-! ## The parts of the text -/

namespace RArgument

theorem char_ok_iff {x : RArgument} {t : Bytes} : x.char = .ok t ↔ x.HasText ∧ t = x.text := by
  rcases x with ⟨data, classes⟩
  match data with
  | .character (element :: elements) => simp [char, HasText, text, eq_comm]
  | .character [] => simp [char, HasText]
  | .null => simp [char, HasText]
  | .real elements => simp [char, HasText]
  | .vector strings => simp [char, HasText]
  | .other strings => simp [char, HasText]

theorem charMap_ok_iff {x : RArgument} {f : Bytes → Bytes} {t : Bytes} :
    x.char.map f = .ok t ↔ x.HasText ∧ t = f x.text := by
  cases isChar : x.char with
  | error failure =>
      have noText : ¬ x.HasText := fun hasText => by
        have found := char_ok_iff.mpr ⟨hasText, rfl⟩
        rw [isChar] at found
        cases found
      simp [Except.map, noText]
  | ok text =>
      rcases char_ok_iff.mp isChar with ⟨hasText, rfl⟩
      simp [Except.map, hasText, eq_comm]

theorem isNull_of_isString {x : RArgument} (isString : x.isString = true) : x.isNull = false := by
  rcases x with ⟨data, classes⟩
  cases data with
  | null => cases isString
  | _ => rfl

end RArgument

theorem bind_ok_iff {α β : Type} {x : Except RFailure α} {f : α → Except RFailure β} {b : β} :
    (x >>= f) = .ok b ↔ ∃ a, x = .ok a ∧ f a = .ok b := by
  cases x with
  | error failure => simp [bind, Except.bind]
  | ok a => simp [bind, Except.bind]

theorem length_ok {x : RArgument} {n : Nat} (isLength : x.length = .ok n) :
    ∃ strings, x.strings = some strings ∧ strings.length = n := by
  unfold RArgument.length at isLength
  split at isLength
  next => cases isLength
  next strings isStrings _ =>
    split at isLength
    next => cases isLength
    next =>
      cases isLength
      exact ⟨strings, isStrings, rfl⟩
  next => cases isLength

/-- The text that is written for a value. -/
def codeText (value : RArgument) : Bytes :=
  match value.strings with
  | some [element] => RArgument.charText element
  | _ => []

theorem cookieValue_of_length {value : RArgument} {n : Nat} (isLength : value.length = .ok n) :
    cookieValue value = .ok (codeText value) := by
  rcases length_ok isLength with ⟨strings, isStrings, rfl⟩
  have given : cookieValue value = if value.isNull then .ok [] else
      if strings.length ≠ 1 then .ok []
      else
        match value.strings with
        | some (element :: _) => .ok (RArgument.charText element)
        | _ => .error .error := by
    rw [cookieValue, isLength]
    rfl
  rw [given, codeText, isStrings]
  match strings with
  | [] => simp
  | [element] =>
      have notNull : value.isNull = false := by
        rcases value with ⟨data, classes⟩
        cases data with
        | null => cases isStrings
        | _ => rfl
      simp [notNull]
  | first :: second :: strings => simp

theorem cookieValue_ok_iff {value : RArgument} {t : Bytes} :
    cookieValue value = .ok t ↔ (∃ n, value.length = .ok n) ∧ t = codeText value := by
  constructor
  · intro isText
    have hasLength : ∃ n, value.length = .ok n := by
      cases isNull : value.isNull with
      | true =>
          rcases value with ⟨data, classes⟩
          cases of_decide_eq_true isNull
          exact ⟨0, rfl⟩
      | false =>
          rw [cookieValue, isNull, if_neg Bool.false_ne_true, bind_ok_iff] at isText
          exact isText.imp fun _ found => found.1
    rcases hasLength with ⟨n, isLength⟩
    rw [cookieValue_of_length isLength] at isText
    cases isText
    exact ⟨⟨n, isLength⟩, rfl⟩
  · rintro ⟨⟨n, isLength⟩, rfl⟩
    exact cookieValue_of_length isLength

theorem cookieAttribute_ok_iff {start : String} {x : RArgument} {t : Bytes} :
    cookieAttribute start x = .ok t ↔
      (x.isString = true → x.HasText) ∧ t = cookieHeader.member start x := by
  cases isString : x.isString with
  | true =>
      have isText : cookieAttribute start x = x.char.map fun text => bytes start ++ text := by
        simp [cookieAttribute, isString, RArgument.isNull_of_isString isString]
      rw [isText, RArgument.charMap_ok_iff, cookieHeader.member, if_pos isString]
      simp
  | false => simp [cookieAttribute, cookieHeader.member, isString]

theorem cookieRest_ok_iff {x : RArgument} {t : Bytes} :
    cookieRest x = .ok t ↔ (x.isString = true → x.HasText) ∧ t = cookieHeader.rest x := by
  cases isString : x.isString with
  | true =>
      have isText : cookieRest x =
          x.char.map fun text => if text ≠ [] then bytes ";" ++ text else [] := by
        simp [cookieRest, isString, RArgument.isNull_of_isString isString]
      rw [isText, RArgument.charMap_ok_iff, cookieHeader.rest]
      simp [isString]
  | false => simp [cookieRest, cookieHeader.rest, isString]

theorem time_ok {x : RArgument} {time : Int} (isTime : x.time = .ok time) :
    ∃ text elements, x.data = .real ((time, text) :: elements) := by
  unfold RArgument.time at isTime
  split at isTime
  next element elements isData =>
    cases isTime
    exact ⟨element.2, elements, isData⟩
  next => cases isTime
  next => cases isTime

theorem cookieExpires_ok_iff {w : DateWorld} {x : RArgument} {t : Bytes} :
    cookieExpires w x = .ok t ↔
      (x.IsDate → x.inherits (bytes "POSIXct") = true ∧ ∃ time, x.time = .ok time) ∧
        t = cookieHeader.expires w x := by
  by_cases isDate : x.IsDate
  · have given : (!x.isNull && x.inherits (bytes "POSIXt")) = true := by
      simp [isDate.1, isDate.2]
    cases isCt : x.inherits (bytes "POSIXct") with
    | true =>
        have isExpires : cookieExpires w x =
            x.time >>= fun time => .ok (bytes ";expires=" ++ w.rfc822Date time) := by
          simp only [cookieExpires, given, if_true, isCt]
          rfl
        have isInstant (time : Int) (isTime : x.time = .ok time) :
            cookieHeader.expires w x = bytes ";expires=" ++ w.rfc822Date time := by
          rcases time_ok isTime with ⟨text, elements, isData⟩
          simp [cookieHeader.expires, isDate, RArgument.instant, isCt, isData]
        rw [isExpires, bind_ok_iff]
        constructor
        · rintro ⟨time, isTime, isText⟩
          cases isText
          exact ⟨fun _ => ⟨rfl, time, isTime⟩, (isInstant time isTime).symm⟩
        · rintro ⟨found, isText⟩
          rcases found isDate with ⟨-, time, isTime⟩
          exact ⟨time, isTime, by rw [isText, isInstant time isTime]⟩
    | false =>
        have fails : cookieExpires w x = .error .ended := by
          simp only [cookieExpires, given, if_true, isCt, Bool.false_eq_true, if_false,
            callAsPOSIXct]
          split
          next => rfl
          next => rfl
        simp [fails, isDate]
  · have notGiven : (!x.isNull && x.inherits (bytes "POSIXt")) = false := by
      rw [Bool.and_eq_false_iff, Bool.not_eq_false']
      by_contra given
      rw [not_or, Bool.not_eq_true, Bool.not_eq_false] at given
      exact isDate given
    simp [cookieExpires, notGiven, isDate, cookieHeader.expires]

/-- Only a single `NA` is written as another text than the one that counts. -/
theorem codeText_eq_iff {value : RArgument} :
    codeText value = value.valueText ↔ value.strings ≠ some [none] := by
  unfold codeText RArgument.valueText
  match value.strings with
  | none => simp
  | some [] => simp
  | some [none] =>
      simp only [RArgument.charText, Option.getD_none, ne_eq, not_true_eq_false, iff_false]
      decide
  | some [some text] => simp [RArgument.charText]
  | some (first :: second :: strings) => simp

/-- The text of a cookie is that of its header just for these arguments. -/
theorem cookieText_eq_iff (w : DateWorld) (args : CookieArgs) :
    cookieText w args = .ok (cookieHeader w args) ↔ args.Plain := by
  simp only [cookieText, bind_ok_iff, RArgument.char_ok_iff, cookieValue_ok_iff,
    cookieExpires_ok_iff, cookieAttribute_ok_iff, cookieRest_ok_iff, Except.ok.injEq]
  constructor
  · rintro ⟨-, ⟨name, rfl⟩, -, ⟨length, rfl⟩, -, ⟨expires, rfl⟩, -, ⟨path, rfl⟩, -, ⟨domain, rfl⟩,
      -, ⟨rest, rfl⟩, same⟩
    rw [cookieHeader] at same
    simp only [List.append_cancel_right_eq, List.append_cancel_left_eq] at same
    exact ⟨name, ⟨length, codeText_eq_iff.mp same⟩, expires, path, domain, rest⟩
  · rintro ⟨name, ⟨length, notNA⟩, expires, path, domain, rest⟩
    refine ⟨_, ⟨name, rfl⟩, _, ⟨length, rfl⟩, _, ⟨expires, rfl⟩, _, ⟨path, rfl⟩, _, ⟨domain, rfl⟩,
      _, ⟨rest, rfl⟩, ?_⟩
    rw [codeText_eq_iff.mpr notNA, cookieHeader]

/-! ## The headers -/

theorem headerValues_append (key : Bytes) (table table' : ParamTable) :
    headerValues key (table ++ table') = headerValues key table ++ headerValues key table' := by
  rw [headerValues, List.filter_append, List.map_append, headerValues, headerValues]

theorem aprTableGet_eq_none_iff {table : ParamTable} {key : Bytes} :
    aprTableGet table key = none ↔ headerValues key table = [] := by
  simp [aprTableGet, headerValues]

/-- A header that is not there is added behind the others. -/
theorem aprTableSet_absent {table : ParamTable} {key value : Bytes}
    (absent : aprTableGet table key = none) :
    aprTableSet table key value = aprTableAdd table key value := by
  induction table with
  | nil => rfl
  | cons param table ih =>
      rw [aprTableGet, Option.map_eq_none_iff, List.find?_cons] at absent
      split at absent
      next => cases absent
      next other =>
        have later : aprTableGet table key = none := by rw [aprTableGet, absent, Option.map_none]
        rw [aprTableSet, other, if_neg Bool.false_ne_true, ih later]
        rfl

/-- There is one more cookie behind the others. -/
theorem addCookie_setCookie (headersOut : ParamTable) (cookie : Bytes) :
    headerValues (bytes "Set-Cookie") (addCookie headersOut cookie) =
      headerValues (bytes "Set-Cookie") headersOut ++ [cookie] := by
  have isCookie : headerValues (bytes "Set-Cookie")
      [{ name := bytes "Set-Cookie", value := cookie, upload := false }] = [cookie] := by
    have same : strcaseeq (bytes "Set-Cookie") (bytes "Set-Cookie") = true := by decide +kernel
    simp only [headerValues, List.filter_cons, same, if_true, List.filter_nil, List.map_cons,
      List.map_nil]
  unfold addCookie
  simp only [aprTableAdd, headerValues_append, isCookie]
  split
  next absent =>
    rw [aprTableSet_absent (Option.isNone_iff_eq_none.mp absent), aprTableAdd, headerValues_append]
    have noCookie : headerValues (bytes "Set-Cookie")
        [{ name := bytes "Cache-Control", value := bytes "nocache=\"set-cookie\"",
           upload := false }] = [] := by decide +kernel
    rw [noCookie, List.append_nil]
  next => rfl

/-- A `Cache-Control` header that is there stays. -/
theorem addCookie_cacheControl {headersOut : ParamTable} (cookie : Bytes)
    (present : headerValues (bytes "Cache-Control") headersOut ≠ []) :
    headerValues (bytes "Cache-Control") (addCookie headersOut cookie) =
      headerValues (bytes "Cache-Control") headersOut := by
  have found : (aprTableGet headersOut (bytes "Cache-Control")).isNone = false := by
    rw [Option.isNone_eq_false_iff, Option.isSome_iff_ne_none]
    exact fun absent => present (aprTableGet_eq_none_iff.mp absent)
  have isCookie : headerValues (bytes "Cache-Control")
      [{ name := bytes "Set-Cookie", value := cookie, upload := false }] = [] := by
    have other : ¬ strcaseeq (bytes "Set-Cookie") (bytes "Cache-Control") = true := by
      decide +kernel
    simp only [headerValues, List.filter_cons, other, Bool.false_eq_true, if_false,
      List.filter_nil, List.map_nil]
  simp only [addCookie, found, Bool.false_eq_true, if_false, aprTableAdd, headerValues_append,
    isCookie, List.append_nil]

/-! ## Calls one after the other -/

section Calls

variable {w : DateWorld} {args : CookieArgs} {calls : List CookieArgs} {g : Globals}

/-- The headers after a call. -/
theorem setCookie_headersOut (w : DateWorld) (args : CookieArgs) (g : Globals) :
    (setCookie w args g).2 = g ∨
      ∃ cookie, (setCookie w args g).2 = { g with headersOut := addCookie g.headersOut cookie } := by
  unfold setCookie
  split
  next => exact .inl rfl
  next =>
    split
    next => exact .inl rfl
    next =>
      cases cookieText w args with
      | error failure => exact .inl rfl
      | ok cookie => exact .inr ⟨cookie, rfl⟩

/-- What every call keeps is kept by all of them. -/
theorem setCookies_keeps {P : Globals → Prop}
    (step : ∀ g cookie, P g → P { g with headersOut := addCookie g.headersOut cookie })
    (calls : List CookieArgs) (g : Globals) (now : P g) : P (setCookies w calls g).2 := by
  induction calls generalizing g with
  | nil => exact now
  | cons args calls ih =>
      have after : P (setCookie w args g).2 := by
        rcases setCookie_headersOut w args g with same | ⟨cookie, added⟩
        · rw [same]
          exact now
        · rw [added]
          exact step g cookie now
      rw [setCookies]
      split
      next g' ended =>
        rw [ended] at after
        exact after
      next g' _ called =>
        rw [called] at after
        exact ih g' after

/-- No cookie is lost. -/
theorem setCookies_keepsCookies (calls : List CookieArgs) (g : Globals) :
    ∃ more, headerValues (bytes "Set-Cookie") (setCookies w calls g).2.headersOut =
      headerValues (bytes "Set-Cookie") g.headersOut ++ more := by
  refine @setCookies_keeps w (fun g' => ∃ more, headerValues (bytes "Set-Cookie") g'.headersOut =
    headerValues (bytes "Set-Cookie") g.headersOut ++ more) ?_ calls g ⟨[], by rw [List.append_nil]⟩
  rintro g' cookie ⟨more, found⟩
  exact ⟨more ++ [cookie], by rw [addCookie_setCookie, found, List.append_assoc]⟩

theorem setCookies_cacheControl (calls : List CookieArgs)
    (present : headerValues (bytes "Cache-Control") g.headersOut ≠ []) :
    headerValues (bytes "Cache-Control") (setCookies w calls g).2.headersOut =
      headerValues (bytes "Cache-Control") g.headersOut := by
  refine @setCookies_keeps w (fun g' => headerValues (bytes "Cache-Control") g'.headersOut =
    headerValues (bytes "Cache-Control") g.headersOut) ?_ calls g rfl
  intro g' cookie same
  rw [addCookie_cacheControl cookie (same ▸ present), same]

theorem setCookies_cons {cookie : Bytes} (inRequest : g.session.request.r.isSome)
    (named : args.name.isNull = false) (isText : cookieText w args = .ok cookie) :
    setCookies w (args :: calls) g =
      let g' := { g with headersOut := addCookie g.headersOut cookie }
      (.returned (.logical true) :: (setCookies w calls g').1, (setCookies w calls g').2) := by
  have called : setCookie w args g = (.returned (.logical true),
      { g with headersOut := addCookie g.headersOut cookie }) := by
    simp only [setCookie, Option.isNone_eq_false_iff.mpr inRequest, named, Bool.false_eq_true,
      if_false, isText]
    rfl
  rw [setCookies, called]

theorem setCookies_fails {failure : RFailure} (inRequest : g.session.request.r.isSome)
    (named : args.name.isNull = false) (isError : cookieText w args = .error failure) :
    ∃ ends, (setCookies w (args :: calls) g).1 = .failed failure :: ends := by
  have called : setCookie w args g = (.failed failure, g) := by
    simp only [setCookie, Option.isNone_eq_false_iff.mpr inRequest, named, Bool.false_eq_true,
      if_false, isError]
    rfl
  rw [setCookies, called]
  cases failure with
  | error => exact ⟨_, rfl⟩
  | ended => exact ⟨[], rfl⟩

/-- Cookies are appended just for arguments of these kinds. -/
theorem appendsCookies_iff (w : DateWorld) (calls : List CookieArgs) (g : Globals)
    (inRequest : g.session.request.r.isSome) (named : ∀ args ∈ calls, args.name.isNull = false) :
    AppendsCookies w calls g ↔ ∀ args ∈ calls, args.Plain := by
  induction calls generalizing g with
  | nil => simp [AppendsCookies, setCookies]
  | cons args calls ih =>
      have isNamed := named args List.mem_cons_self
      have later (g : Globals) (inRequest : g.session.request.r.isSome) :=
        ih g inRequest fun other isOther => named other (List.mem_cons_of_mem _ isOther)
      rw [List.forall_mem_cons]
      cases isText : cookieText w args with
      | error failure =>
          constructor
          · rintro ⟨ends, -⟩
            rcases @setCookies_fails w args calls g failure inRequest isNamed isText with
              ⟨others, fails⟩
            rw [fails, List.length_cons, List.replicate_succ] at ends
            cases (List.cons.inj ends).1
          · rintro ⟨plain, -⟩
            rw [(cookieText_eq_iff w args).mpr plain] at isText
            cases isText
      | ok cookie =>
          let g' : Globals := { g with headersOut := addCookie g.headersOut cookie }
          have first : setCookies w (args :: calls) g =
              (.returned (.logical true) :: (setCookies w calls g').1, (setCookies w calls g').2) :=
            setCookies_cons inRequest isNamed isText
          have added : headerValues (bytes "Set-Cookie") g'.headersOut =
              headerValues (bytes "Set-Cookie") g.headersOut ++ [cookie] :=
            addCookie_setCookie g.headersOut cookie
          rw [← later g' inRequest, ← cookieText_eq_iff w args, isText, Except.ok.injEq]
          constructor
          · rintro ⟨ends, headers, -⟩
            rw [first] at ends headers
            rcases @setCookies_keepsCookies w calls g' with ⟨more, isMore⟩
            have same : cookie :: more = cookieHeader w args :: calls.map (cookieHeader w) := by
              rw [isMore, added, List.append_assoc] at headers
              exact List.append_cancel_left headers
            rcases List.cons.inj same with ⟨isHeader, areMore⟩
            refine ⟨isHeader, (List.cons.inj ends).2, ?_, setCookies_cacheControl calls⟩
            rw [isMore, areMore]
          · rintro ⟨isHeader, ends, headers, -⟩
            refine ⟨?_, ?_, setCookies_cacheControl (args :: calls)⟩
            · rw [first, ends]
              rfl
            · rw [first, headers, added, isHeader, List.append_assoc]
              rfl

end Calls

/-- `as.POSIXct` keeps what it is given, and a date is its seconds. -/
def plainDates : DateWorld where
  asPOSIXct x := { data := x.data, classes := [bytes "POSIXct", bytes "POSIXt"] }
  rfc822Date seconds := bytes (toString seconds)

/-- The globals of a request without headers. -/
def cookieRequest : Globals :=
  { session := { request := { r := some { address := 0, handler := [] } } } }

/-- The cookie `name` with a value. -/
def namedCookie (value : RData) (expires : RArgument) : CookieArgs where
  name := { data := .character [some (bytes "name")] }
  value := { data := value }
  expires

/-- Two cookies, one of them with a date. -/
theorem two_cookies_are_appended :
    AppendsCookies plainDates
      [namedCookie (.character [some (bytes "a")]) { data := .null },
        namedCookie .null
          { data := .real [(7, some (bytes "7"))], classes := [bytes "POSIXct", bytes "POSIXt"] }]
      cookieRequest := by
  refine (appendsCookies_iff plainDates _ cookieRequest rfl (by decide +kernel)).mpr ?_
  intro args isArgs
  have name : RArgument.HasText { data := .character [some (bytes "name")] } := ⟨_, _, rfl⟩
  rcases List.mem_cons.mp isArgs with rfl | isSecond
  · exact
      { name
        value := ⟨⟨1, rfl⟩, by decide⟩
        expires := fun isDate => absurd isDate (by decide)
        path := nofun
        domain := nofun
        rest := fun _ => ⟨_, _, rfl⟩ }
  · rw [List.mem_singleton.mp isSecond]
    exact
      { name
        value := ⟨⟨0, rfl⟩, by decide⟩
        expires := fun _ => ⟨by decide +kernel, 7, rfl⟩
        path := nofun
        domain := nofun
        rest := fun _ => ⟨_, _, rfl⟩ }

/-- `NA` becomes the value `NA`, and a `POSIXlt` object ends the process. -/
theorem na_is_a_value :
    cookieText plainDates (namedCookie (.character [none]) { data := .null }) =
        .ok (bytes "name=NA") ∧
      cookieHeader plainDates (namedCookie (.character [none]) { data := .null }) =
        bytes "name=" ∧
      (∃ g, setCookie plainDates (namedCookie .null
        { data := .vector [], classes := [bytes "POSIXlt", bytes "POSIXt"] }) cookieRequest =
          (.failed .ended, g)) ∧
      ¬ ∀ (w : DateWorld) (calls : List CookieArgs) (g : Globals), g.session.request.r.isSome →
        (∀ args ∈ calls, args.name.isNull = false) → AppendsCookies w calls g := by
  refine ⟨by decide +kernel, by decide +kernel, ⟨cookieRequest, rfl⟩, fun all => ?_⟩
  have appended := all plainDates [namedCookie (.character [none]) { data := .null }] cookieRequest
    rfl (by decide +kernel)
  have header := appended.2.1
  revert header
  decide +kernel

end RApache
