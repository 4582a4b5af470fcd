import RApache.Cookies

/-!
# The headers of the response

`headers_out` is a table of entries in order.  To R code it is a map from names, whatever the case
of their letters, to lists of values, and each call of `setHeader` or `setCookie` changes this map
in one way or not at all.
-/

namespace RApache

/-! ## The map -/

/-- The values of each name. -/
abbrev HeaderMap := Bytes → List Bytes

/-- What one call is for. -/
inductive HeaderEdit where
  | unset (key : Bytes)
  | set (key value : Bytes)
  | cookie (text : Bytes)

namespace HeaderMap

/-- The map with other values for the name. -/
def update (m : HeaderMap) (key : Bytes) (change : List Bytes → List Bytes) : HeaderMap :=
  fun name => if strcaseeq key name then change (m name) else m name

/-- The map after an edit.  The first cookie forbids caches to keep it. -/
def edit (m : HeaderMap) : HeaderEdit → HeaderMap
  | .unset key => m.update key fun _ => []
  | .set key value => m.update key fun _ => [value]
  | .cookie text =>
      let m := if m (bytes "Cache-Control") = []
        then m.update (bytes "Cache-Control") fun _ => [bytes "nocache=\"set-cookie\""] else m
      m.update (bytes "Set-Cookie") fun values => values ++ [text]

/-- The map of a table. -/
def ofTable (table : ParamTable) : HeaderMap := fun name => headerValues name table

end HeaderMap

/-! ## Calls -/

/-- A call that changes headers. -/
inductive HeaderCall where
  | setHeader (header value : RArgument)
  | setCookie (args : CookieArgs)

namespace HeaderCall

def perform (w : DateWorld) : HeaderCall → Globals → DotCallEnd × Globals
  | .setHeader header value, g => RApache.setHeader header value g
  | .setCookie args, g => RApache.setCookie w args g

/-- Calls one after the other; a call that ends the process is the last one. -/
def performAll (w : DateWorld) : List HeaderCall → Globals → List DotCallEnd × Globals
  | [], g => ([], g)
  | call :: calls, g =>
      match call.perform w g with
      | (.failed .ended, g) => ([.failed .ended], g)
      | (callEnd, g) =>
          let (ends, g) := performAll w calls g
          (callEnd :: ends, g)

/-- The edit that the call is for, in a request. -/
def edit? (w : DateWorld) : HeaderCall → Option HeaderEdit
  | .setHeader header value =>
      match header.char with
      | .error _ => none
      | .ok key =>
          if value.isNull then some (.unset key)
          else
            match value.strings with
            | none => none
            | some strings =>
                match ({ data := .character strings } : RArgument).char with
                | .error _ => none
                | .ok val => some (.set key val)
  | .setCookie args =>
      if args.name.isNull then none
      else
        match cookieText w args with
        | .error _ => none
        | .ok text => some (.cookie text)

end HeaderCall

/-! ## Tables -/

section Tables

variable {key name : Bytes}

theorem headerValues_cons (param : Param) (table : ParamTable) (name : Bytes) :
    headerValues name (param :: table) =
      if strcaseeq param.name name then param.value :: headerValues name table
      else headerValues name table := by
  cases same : strcaseeq param.name name with
  | true => simp [headerValues, same]
  | false => simp [headerValues, same]

/-- Two names of one header are compared alike with every other name. -/
theorem strcaseeq_left {left : Bytes} (same : strcaseeq left key = true) (name : Bytes) :
    strcaseeq left name = strcaseeq key name := by
  rw [strcaseeq, strcaseeq, of_decide_eq_true same]

theorem strcaseeq_right (same : strcaseeq key name = true) (left : Bytes) :
    strcaseeq left key = strcaseeq left name := by
  rw [strcaseeq, strcaseeq, of_decide_eq_true same]

theorem headerValues_unset (table : ParamTable) (key name : Bytes) :
    headerValues name (aprTableUnset table key) =
      if strcaseeq key name then [] else headerValues name table := by
  induction table with
  | nil => simp [aprTableUnset, headerValues]
  | cons param table ih =>
      rw [aprTableUnset, List.filter_cons]
      by_cases removed : strcaseeq param.name key = true
      · have sameName := strcaseeq_left removed name
        rw [if_neg (by simp [removed]), ← aprTableUnset, ih, headerValues_cons, sameName]
        split
        next => rfl
        next => rfl
      · rw [if_pos (by simpa using removed), ← aprTableUnset, headerValues_cons, headerValues_cons,
          ih]
        by_cases same : strcaseeq key name = true
        · rw [strcaseeq_right same] at removed
          simp [same, removed]
        · simp [same]

theorem headerValues_set (table : ParamTable) (key value name : Bytes) :
    headerValues name (aprTableSet table key value) =
      if strcaseeq key name then [value] else headerValues name table := by
  induction table with
  | nil => rw [aprTableSet, headerValues_cons]; rfl
  | cons param table ih =>
      rw [aprTableSet]
      by_cases found : strcaseeq param.name key = true
      · rw [if_pos found, headerValues_cons, headerValues_cons, headerValues_unset,
          strcaseeq_left found name]
        split
        next => rfl
        next => rfl
      · rw [if_neg found, headerValues_cons, headerValues_cons, ih]
        by_cases same : strcaseeq key name = true
        · rw [strcaseeq_right same] at found
          simp [same, found]
        · simp [same]

theorem headerValues_add (table : ParamTable) (key value name : Bytes) :
    headerValues name (aprTableAdd table key value) =
      if strcaseeq key name then headerValues name table ++ [value]
      else headerValues name table := by
  rw [aprTableAdd, headerValues_append, headerValues_cons]
  split
  next => rfl
  next => exact List.append_nil _

theorem ofTable_cookie (table : ParamTable) (text : Bytes) :
    HeaderMap.ofTable (addCookie table text) = (HeaderMap.ofTable table).edit (.cookie text) := by
  funext name
  by_cases absent : HeaderMap.ofTable table (bytes "Cache-Control") = []
  · have isNone := Option.isNone_iff_eq_none.mpr (aprTableGet_eq_none_iff.mpr absent)
    simp only [HeaderMap.ofTable, addCookie, isNone, if_true, headerValues_add, headerValues_set]
    simp only [HeaderMap.ofTable] at absent
    simp only [HeaderMap.edit, HeaderMap.ofTable, absent, if_true, HeaderMap.update]
  · have isSome : ¬ (aprTableGet table (bytes "Cache-Control")).isNone = true := fun none =>
      absent (aprTableGet_eq_none_iff.mp (Option.isNone_iff_eq_none.mp none))
    rw [HeaderMap.ofTable, addCookie, if_neg isSome, headerValues_add, HeaderMap.edit,
      if_neg absent]
    rfl

end Tables

/-! ## Runs -/

namespace HeaderCall

variable {w : DateWorld}

/-- What a call does to the map, and how it ends. -/
theorem perform_spec (call : HeaderCall) {g : Globals}
    (inRequest : g.session.request.r.isSome) :
    (call.perform w g).2.session = g.session ∧
      ((call.perform w g).1 = .returned (.logical true) ↔ (call.edit? w).isSome) ∧
        HeaderMap.ofTable (call.perform w g).2.headersOut =
          (call.edit? w).toList.foldl HeaderMap.edit (HeaderMap.ofTable g.headersOut) := by
  have current : g.session.request.r.isNone = false := Option.isNone_eq_false_iff.mpr inRequest
  cases call with
  | setHeader header value =>
      simp only [perform, edit?, RApache.setHeader]
      cases header.char with
      | error failure => exact ⟨rfl, by simp, rfl⟩
      | ok key =>
          simp only [current, Bool.false_eq_true, if_false]
          split
          next isNull =>
            refine ⟨rfl, by simp [withHeaders], ?_⟩
            funext name
            exact headerValues_unset g.headersOut key name
          next =>
            cases value.strings with
            | none => exact ⟨rfl, by simp, rfl⟩
            | some strings =>
                simp only
                cases ({ data := .character strings } : RArgument).char with
                | error failure => exact ⟨rfl, by simp [withHeaders, Except.map], rfl⟩
                | ok val =>
                    refine ⟨rfl, by simp [withHeaders, Except.map], ?_⟩
                    funext name
                    exact headerValues_set g.headersOut key val name
  | setCookie args =>
      simp only [perform, edit?, RApache.setCookie, current, Bool.false_eq_true, if_false]
      split
      next => exact ⟨rfl, by simp, rfl⟩
      next =>
        cases cookieText w args with
        | error failure => exact ⟨rfl, by simp [withHeaders, Except.map], rfl⟩
        | ok text =>
            refine ⟨rfl, by simp [withHeaders, Except.map], ?_⟩
            exact ofTable_cookie g.headersOut text

/-- Whatever calls R code makes in a request, the headers are what the edits of the calls that are
performed make of the map, one after the other, and the calls that return `TRUE` are those with an
edit. -/
theorem performAll_headers (calls : List HeaderCall) {g : Globals}
    (inRequest : g.session.request.r.isSome) :
    HeaderMap.ofTable (performAll w calls g).2.headersOut =
        ((calls.take (performAll w calls g).1.length).filterMap (edit? w)).foldl HeaderMap.edit
          (HeaderMap.ofTable g.headersOut) ∧
      List.Forall₂ (fun call callEnd => callEnd = .returned (.logical true) ↔ (edit? w call).isSome)
        (calls.take (performAll w calls g).1.length) (performAll w calls g).1 ∧
      ((performAll w calls g).1.length = calls.length ∨
        (performAll w calls g).1.getLast? = some (.failed .ended)) := by
  induction calls generalizing g with
  | nil => exact ⟨rfl, .nil, .inl rfl⟩
  | cons call calls ih =>
      rcases @perform_spec w call g inRequest with ⟨session, answer, headers⟩
      have edits (count : Nat) : ((call :: calls).take (count + 1)).filterMap (edit? w) =
          (edit? w call).toList ++ (calls.take count).filterMap (edit? w) := by
        rw [List.take_succ_cons, List.filterMap_cons]
        cases edit? w call <;> rfl
      rw [performAll]
      split
      next g' ended =>
        rw [ended] at answer headers
        refine ⟨?_, .cons answer .nil, .inr rfl⟩
        rw [List.length_singleton, edits, List.take_zero, List.filterMap_nil, List.append_nil]
        exact headers
      next callEnd g' _ called =>
        rw [called] at session answer headers
        have inRequest' : g'.session.request.r.isSome := by rwa [session]
        rcases ih inRequest' with ⟨headers', answers, finished⟩
        refine ⟨?_, ?_, ?_⟩
        · rw [List.length_cons, edits, List.foldl_append, ← headers]
          exact headers'
        · exact .cons answer answers
        · refine finished.imp (congrArg (· + 1)) fun last => ?_
          rw [List.getLast?_cons, last]
          rfl

/-- A header of one string. -/
def textHeader (header value : String) : HeaderCall :=
  .setHeader { data := .character [some (bytes header)] } { data := .character [some (bytes value)] }

def sampleCalls : List HeaderCall :=
  [textHeader "X-A" "1", .setCookie (namedCookie (.character [some (bytes "b")]) { data := .null }),
    textHeader "x-a" "2", .setHeader { data := .character [] } { data := .null }, textHeader "X-A" "3"]

/-- The last value for a name is sent, and a header that is no string ends the process. -/
theorem performAll_headers_last :
    headerValues (bytes "X-a") (performAll plainDates sampleCalls cookieRequest).2.headersOut =
        [bytes "2"] ∧
      headerValues (bytes "Set-Cookie")
        (performAll plainDates sampleCalls cookieRequest).2.headersOut = [bytes "name=b"] := by
  have headers := (@performAll_headers plainDates sampleCalls cookieRequest rfl).1
  exact ⟨(congrFun headers (bytes "X-a")).trans (by decide +kernel),
    (congrFun headers (bytes "Set-Cookie")).trans (by decide +kernel)⟩

end HeaderCall

end RApache
