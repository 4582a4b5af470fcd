import RApache.Readers

/-!
# Asking for the parsed body

`POST` and `FILES` are two answers of `parsePost`, which parses the body once.  The values
do not depend on how often and in which order R code asks for them.
-/

namespace RApache

/-- A call of R code for the parsed body, or a read of the body. -/
inductive PostCall where
  | post
  | files
  | receiveBin (llen : Int32)

/-- The call of the module. -/
def PostCall.call : PostCall → Call
  | post => .parsePost
  | files => .parseFiles
  | receiveBin llen => .receiveBin llen

namespace Session

/-- The parser that `parsePost` starts for a request, if it has a body to parse. -/
def postParser (r : RequestRec) : Option (Bytes × ParserFunction) :=
  if r.method ≠ bytes "POST" ∧ r.method ≠ bytes "PUT" then none else bodyParser r

/-- The call parses the body. -/
def startsParse (s : Session) : PostCall → Bool
  | .receiveBin _ => false
  | .post | .files =>
      !s.request.readStarted && !s.request.postParsed &&
        (s.request.r.bind postParser).isSome

/-- How often a sequence of calls parses the body. -/
def parses (fuel : Nat) : (calls : List PostCall) → (s : Session) → Nat
  | [], _ => 0
  | call :: calls, s =>
      (if s.startsParse call then 1 else 0) +
        match s.exec fuel call.call with
        | (.returned _, s) => parses fuel calls s
        | _ => 0

/-! ## One call -/

/-- What `parsePost` does with a request. -/
theorem parsePost_eq {r : RequestRec} {s : Session} (current : s.request.r = some r)
    (fuel : Nat) (returnPost : Bool) :
    s.parsePost fuel returnPost =
      if s.request.readStarted then
        returning .null s (s.rApacheError
          (bytes "Oops! Your R code has already started reading the request."))
      else if s.request.postParsed then (.returned (s.postAnswer returnPost), s)
      else
        match postParser r with
        | none =>
            (.returned .null,
              { s with request := { s.request with postTable := none, filesVar := some .null } })
        | some (contentType, pfn) => startParse fuel returnPost r contentType pfn s := by
  unfold parsePost
  rw [current]
  simp only [postParser]
  split
  next => rfl
  next =>
    split
    next => rfl
    next =>
      split
      next => rfl
      next => rfl

/-- What R code's reading of the body does: of `MR_Request` it changes nothing but the flag
`readStarted`, which it does not set once the body is parsed, and only R reads. -/
structure ReadStep (s s' : Session) : Prop where
  request : s'.request = s.request ∨
    s.request.postParsed = false ∧ s'.request = { s.request with readStarted := true }
  reads : ∃ more, s'.reads = s.reads ++ more ∧ ∀ read ∈ more, read.reader = .r

theorem ReadStep.refl (s : Session) : ReadStep s s := ⟨.inl rfl, [], by simp, by simp⟩

theorem ReadStep.trans {s s' s'' : Session} (first : ReadStep s s') (next : ReadStep s' s'') :
    ReadStep s s'' := by
  rcases first with ⟨request, more, reads, byR⟩
  rcases next with ⟨request', more', reads', byR'⟩
  refine ⟨?_, more ++ more', by rw [reads', reads, List.append_assoc], ?_⟩
  · rcases request with same | ⟨notParsed, same⟩
    · rw [same] at request'
      exact request'
    · rw [same] at request'
      rcases request' with same' | ⟨-, same'⟩
      · exact .inr ⟨notParsed, same'⟩
      · exact .inr ⟨notParsed, same'⟩
  · intro read member
    exact (List.mem_append.mp member).elim (byR read) (byR' read)

theorem readRequestBody_readStep {size : Int32} {s s' : Session} {got : Bytes}
    (called : s.readRequestBody size = some (got, s')) : ReadStep s s' := by
  rcases readRequestBody_cases called with
    ⟨-, -, bbErr, same⟩ | ⟨notParsed, bbIn, more, same, byR⟩
  · rw [same]
    exact ⟨.inl rfl, [], by simp, by simp⟩
  · rw [same]
    exact ⟨.inr ⟨notParsed, rfl⟩, more, rfl, byR⟩

theorem receiveAll_readStep (fuel : Nat) (size blen : UInt64) (buf : Bytes) (s : Session) :
    ReadStep s (receiveAll fuel size blen buf s).2 := by
  induction fuel generalizing size blen buf s with
  | zero => exact .refl s
  | succ fuel ih =>
      simp only [receiveAll]
      split
      next => exact .refl s
      next called =>
        split
        next => exact (readRequestBody_readStep called).trans (ih ..)
        next => exact readRequestBody_readStep called

theorem receiveBin_readStep (fuel : Nat) (llen : Int32) (s : Session) :
    ReadStep s (s.receiveBin fuel llen).2 := by
  unfold receiveBin
  split
  next =>
    split
    next => exact .refl s
    next called => exact readRequestBody_readStep called
  next =>
    split
    next => exact receiveAll_readStep ..
    next => exact .refl s

/-- `parsePost` when it does not parse. -/
theorem parsePost_of_not_startsParse (fuel : Nat) (returnPost : Bool) {s : Session}
    (noParse : s.startsParse .post = false) :
    (s.parsePost fuel returnPost).2.reads = s.reads := by
  cases current : s.request.r with
  | none => simp [parsePost, current]
  | some r =>
      rw [parsePost_eq current]
      simp only [startsParse, current, Option.bind_some] at noParse
      split
      next =>
        refine @returning_session .null s _ (fun after => after.reads = s.reads) rfl ?_
        intro s' called
        rcases rApacheError_eq called with ⟨bbErr, same⟩
        rw [same]
      next notStarted =>
        split
        next => rfl
        next notParsed =>
          cases parser : postParser r with
          | none => rfl
          | some found => simp [notStarted, notParsed, parser] at noParse

/-- A call that does not parse the body reads nothing of it with `libapreq2`. -/
theorem reads_of_not_startsParse (fuel : Nat) (call : PostCall) {s : Session}
    (noParse : s.startsParse call = false) :
    ∃ more, (s.exec fuel call.call).2.reads = s.reads ++ more ∧
      ∀ read ∈ more, read.reader = .r := by
  cases call with
  | receiveBin llen => exact (receiveBin_readStep fuel llen s).reads
  | post =>
      refine ⟨[], ?_, by simp⟩
      rw [List.append_nil]
      exact parsePost_of_not_startsParse fuel true noParse
  | files =>
      refine ⟨[], ?_, by simp⟩
      rw [List.append_nil]
      exact parsePost_of_not_startsParse fuel false noParse

/-! ## The values -/

/-- What the calls for the parsed body return from now on. -/
inductive Settled (r : RequestRec) (post files : RValue) (s : Session) : Prop where
  | started (readStarted : s.request.readStarted = true) (isPost : post = .null)
      (isFiles : files = .null)
  | parsed (notStarted : s.request.readStarted = false)
      (postParsed : s.request.postParsed = true) (isPost : post = s.postAnswer true)
      (isFiles : files = s.postAnswer false)
  | noParser (notStarted : s.request.readStarted = false)
      (notParsed : s.request.postParsed = false) (noParser : postParser r = none)
      (isPost : post = .null) (isFiles : files = .null)

/-- The value of a call is one of the two that are settled. -/
def Gives (post files : RValue) : PostCall → RValue → Prop
  | .post, value => value = post
  | .files, value => value = files
  | .receiveBin _, _ => True

/-- Nothing is parsed any more. -/
theorem Settled.noParse {r : RequestRec} {post files : RValue} {s : Session}
    (current : s.request.r = some r) (settled : Settled r post files s) (call : PostCall) :
    s.startsParse call = false := by
  have parser : (!s.request.readStarted && !s.request.postParsed &&
      (s.request.r.bind postParser).isSome) = false := by
    cases settled with
    | started readStarted => simp [readStarted]
    | parsed _ postParsed => simp [postParsed]
    | noParser _ _ noParser => simp [current, noParser]
  cases call with
  | post => exact parser
  | files => exact parser
  | receiveBin llen => rfl

/-- A call keeps what is settled. -/
theorem Settled.step {r : RequestRec} {post files value : RValue} {s s' : Session} {fuel : Nat}
    {call : PostCall} (current : s.request.r = some r) (settled : Settled r post files s)
    (executed : s.exec fuel call.call = (.returned value, s')) :
    Settled r post files s' ∧ s'.request.r = some r ∧ Gives post files call value := by
  have same (s' : Session) (request : s'.request = s.request) : Settled r post files s' := by
    cases settled with
    | started readStarted isPost isFiles =>
        exact .started (by rw [request]; exact readStarted) isPost isFiles
    | parsed notStarted postParsed isPost isFiles =>
        refine .parsed (by rw [request]; exact notStarted) (by rw [request]; exact postParsed)
          ?_ ?_
        · simpa [postAnswer, request] using isPost
        · simpa [postAnswer, request] using isFiles
    | noParser notStarted notParsed noParser isPost isFiles =>
        exact .noParser (by rw [request]; exact notStarted) (by rw [request]; exact notParsed)
          noParser isPost isFiles
  -- `parsePost` finds one of the three states of the settled values
  have answers (returnPost : Bool)
      (executed : s.parsePost fuel returnPost = (.returned value, s')) :
      Settled r post files s' ∧ s'.request.r = some r ∧
        value = (if returnPost then post else files) := by
    rw [parsePost_eq current] at executed
    cases settled with
    | started readStarted isPost isFiles =>
        rw [if_pos readStarted] at executed
        cases error : s.rApacheError
            (bytes "Oops! Your R code has already started reading the request.") with
        | none => simp [error, returning] at executed
        | some after =>
            simp only [error, returning, Prod.mk.injEq, CallEnd.returned.injEq] at executed
            rcases rApacheError_eq error with ⟨bbErr, isAfter⟩
            rcases executed with ⟨isValue, isNext⟩
            subst isNext isAfter
            exact ⟨same _ rfl, current, by simp [← isValue, isPost, isFiles]⟩
    | parsed notStarted postParsed isPost isFiles =>
        simp only [notStarted, postParsed, Bool.false_eq_true, if_false, if_true, Prod.mk.injEq,
          CallEnd.returned.injEq] at executed
        rcases executed with ⟨isValue, isNext⟩
        subst isNext
        refine ⟨same _ rfl, current, ?_⟩
        cases returnPost with
        | true => simp [← isValue, isPost]
        | false => simp [← isValue, isFiles]
    | noParser notStarted notParsed noParser isPost isFiles =>
        simp only [notStarted, notParsed, noParser, Bool.false_eq_true, if_false, Prod.mk.injEq,
          CallEnd.returned.injEq] at executed
        rcases executed with ⟨isValue, isNext⟩
        subst isNext
        exact ⟨.noParser rfl rfl noParser isPost isFiles, current,
          by simp [← isValue, isPost, isFiles]⟩
  cases call with
  | post => exact answers true executed
  | files => exact answers false executed
  | receiveBin llen =>
      have step := (receiveBin_readStep fuel llen s).request
      have isAfter : (s.receiveBin fuel llen).2 = s' := congrArg Prod.snd executed
      rw [isAfter] at step
      rcases step with request | ⟨notParsed, request⟩
      · exact ⟨same s' request, by rw [request]; exact current, trivial⟩
      · refine ⟨?_, by rw [request]; exact current, trivial⟩
        have readStarted : s'.request.readStarted = true := by rw [request]
        cases settled with
        | started _ isPost isFiles => exact .started readStarted isPost isFiles
        | parsed _ postParsed => simp [notParsed] at postParsed
        | noParser _ _ _ isPost isFiles => exact .started readStarted isPost isFiles

/-- The body may still be parsed, and nothing of it has been read. -/
structure Unread (r : RequestRec) (s : Session) : Prop where
  current : s.request.r = some r
  notStarted : s.request.readStarted = false
  notParsed : s.request.postParsed = false

/-- The two answers after a parse, if it comes to an end. -/
def parsedAnswers (fuel : Nat) (r : RequestRec) (s : Session) : Option (RValue × RValue) :=
  (postParser r).bind fun (contentType, pfn) =>
    match startParse fuel true r contentType pfn s, startParse fuel false r contentType pfn s with
    | (.returned post, _), (.returned files, _) => some (post, files)
    | _, _ => none

/-- A parse settles its two answers, whichever is asked for. -/
theorem startParse_settles {r : RequestRec} {s s' : Session} {fuel : Nat} {returnPost : Bool}
    {contentType : Bytes} {pfn : ParserFunction} {value : RValue} (unread : Unread r s)
    (parser : postParser r = some (contentType, pfn))
    (parsed : startParse fuel returnPost r contentType pfn s = (.returned value, s')) :
    ∃ post files, parsedAnswers fuel r s = some (post, files) ∧ Settled r post files s' ∧
      s'.request.r = some r ∧ value = (if returnPost then post else files) := by
  simp only [parsedAnswers, parser, Option.bind_some]
  simp only [startParse] at parsed ⊢
  split at parsed
  next => cases parsed
  next => cases parsed
  next reads run looped =>
    simp only [Prod.mk.injEq, CallEnd.returned.injEq] at parsed
    rcases parsed with ⟨isValue, isNext⟩
    refine ⟨_, _, rfl, ?_, ?_, ?_⟩
    · subst isNext
      exact .parsed unread.notStarted rfl rfl rfl
    · subst isNext
      exact unread.current
    · cases returnPost with
      | true => exact isValue.symm
      | false => exact isValue.symm

/-- The first call for the parsed body settles the answers. -/
theorem Unread.parsePost {r : RequestRec} {s s' : Session} {fuel : Nat} {returnPost : Bool}
    {value : RValue} (unread : Unread r s)
    (executed : s.parsePost fuel returnPost = (.returned value, s')) :
    ∃ post files, (parsedAnswers fuel r s).getD (.null, .null) = (post, files) ∧
      Settled r post files s' ∧ s'.request.r = some r ∧
        value = (if returnPost then post else files) := by
  rw [parsePost_eq unread.current, if_neg (by simp [unread.notStarted]),
    if_neg (by simp [unread.notParsed])] at executed
  cases parser : postParser r with
  | none =>
      simp only [parser, Prod.mk.injEq, CallEnd.returned.injEq] at executed
      rcases executed with ⟨isValue, isNext⟩
      subst isNext
      refine ⟨.null, .null, by simp [parsedAnswers, parser],
        .noParser unread.notStarted unread.notParsed parser rfl rfl, unread.current, ?_⟩
      simp [← isValue]
  | some found =>
      rcases found with ⟨contentType, pfn⟩
      simp only [parser] at executed
      rcases startParse_settles unread parser executed with ⟨post, files, answers, rest⟩
      exact ⟨post, files, by simp [answers], rest⟩

/-! ## Sequences of calls -/

/-- The values of a sequence of calls, each with its call. -/
def valuesOf (fuel : Nat) (calls : List PostCall) (s : Session) : List (PostCall × RValue) :=
  calls.zip (s.execAll fuel (calls.map PostCall.call)).1

/-- The first call of a sequence either gives no value, or its value comes first. -/
theorem valuesOf_cons (fuel : Nat) (call : PostCall) (calls : List PostCall) (s : Session) :
    (valuesOf fuel (call :: calls) s = [] ∧
        parses fuel (call :: calls) s = (if s.startsParse call then 1 else 0)) ∨
      ∃ value s', s.exec fuel call.call = (.returned value, s') ∧
        valuesOf fuel (call :: calls) s = (call, value) :: valuesOf fuel calls s' ∧
        parses fuel (call :: calls) s =
          (if s.startsParse call then 1 else 0) + parses fuel calls s' := by
  rcases executed : s.exec fuel call.call with ⟨callEnd, s'⟩
  cases callEnd with
  | returned value =>
      exact .inr ⟨value, s', rfl, by simp [valuesOf, execAll, executed],
        by simp [parses, executed]⟩
  | unfinished =>
      exact .inl ⟨by simp [valuesOf, execAll, executed], by simp [parses, executed]⟩
  | ended =>
      exact .inl ⟨by simp [valuesOf, execAll, executed], by simp [parses, executed]⟩

/-- Settled answers are the values of all later calls, and there is no parse any more. -/
theorem Settled.run {r : RequestRec} {post files : RValue} {s : Session} {fuel : Nat}
    (current : s.request.r = some r) (settled : Settled r post files s)
    (calls : List PostCall) :
    (∀ pair ∈ valuesOf fuel calls s, Gives post files pair.1 pair.2) ∧
      parses fuel calls s = 0 := by
  induction calls generalizing s with
  | nil => exact ⟨by simp [valuesOf], rfl⟩
  | cons call calls ih =>
      rcases valuesOf_cons fuel call calls s with
        ⟨none, count⟩ | ⟨value, s', executed, values, count⟩
      · rw [none, count, settled.noParse current call]
        exact ⟨by simp, rfl⟩
      · rcases settled.step current executed with ⟨settled', current', gives⟩
        rcases ih current' settled' with ⟨all, noMore⟩
        rw [values, count, settled.noParse current call, noMore]
        refine ⟨?_, rfl⟩
        intro pair isPair
        rcases List.mem_cons.mp isPair with same | isLater
        · rw [same]
          exact gives
        · exact all pair isLater

/-- From an unread body on, all values of one call agree; if R does not read they are the
answers of a parse at once. -/
theorem Unread.run {r : RequestRec} {s : Session} {fuel : Nat} (unread : Unread r s)
    (calls : List PostCall) :
    (∃ post files, (∀ pair ∈ valuesOf fuel calls s, Gives post files pair.1 pair.2) ∧
      ((∀ call ∈ calls, ∀ llen, call ≠ .receiveBin llen) →
        (post, files) = (parsedAnswers fuel r s).getD (.null, .null))) ∧
      parses fuel calls s ≤ 1 := by
  induction calls generalizing s with
  | nil => exact ⟨⟨_, _, by simp [valuesOf], fun _ => rfl⟩, Nat.zero_le 1⟩
  | cons call calls ih =>
      have atMostOne : (if s.startsParse call then 1 else 0) ≤ 1 := by
        split
        next => exact Nat.le_refl 1
        next => exact Nat.zero_le 1
      rcases valuesOf_cons fuel call calls s with
        ⟨none, count⟩ | ⟨value, s', executed, values, count⟩
      · rw [none, count]
        exact ⟨⟨_, _, by simp, fun _ => rfl⟩, atMostOne⟩
      · rw [values, count]
        have answered (post files : RValue) (gives : Gives post files call value)
            (settled : Settled r post files s') (current : s'.request.r = some r)
            (answers : (parsedAnswers fuel r s).getD (.null, .null) = (post, files) ∨
              ∃ llen, call = .receiveBin llen) :
            (∃ post files, (∀ pair ∈ (call, value) :: valuesOf fuel calls s',
                Gives post files pair.1 pair.2) ∧
              ((∀ other ∈ call :: calls, ∀ llen, other ≠ .receiveBin llen) →
                (post, files) = (parsedAnswers fuel r s).getD (.null, .null))) ∧
              (if s.startsParse call then 1 else 0) + parses fuel calls s' ≤ 1 := by
          rcases settled.run current calls with ⟨all, noMore⟩
          refine ⟨⟨post, files, List.forall_mem_cons.mpr ⟨gives, all⟩, ?_⟩, ?_⟩
          · intro noReads
            rcases answers with answers | ⟨llen, isRead⟩
            · exact answers.symm
            · exact (noReads call List.mem_cons_self llen isRead).elim
          · rw [noMore]
            exact atMostOne
        cases call with
        | post =>
            rcases unread.parsePost executed with ⟨post, files, answers, settled, current, same⟩
            exact answered post files same settled current (.inl answers)
        | files =>
            rcases unread.parsePost executed with ⟨post, files, answers, settled, current, same⟩
            exact answered post files same settled current (.inl answers)
        | receiveBin llen =>
            have step := (receiveBin_readStep fuel llen s).request
            have isAfter : (s.receiveBin fuel llen).2 = s' := congrArg Prod.snd executed
            rw [isAfter] at step
            rcases step with request | ⟨-, request⟩
            · have unread' : Unread r s' := by
                constructor
                · rw [request]
                  exact unread.current
                · rw [request]
                  exact unread.notStarted
                · rw [request]
                  exact unread.notParsed
              rcases ih unread' with ⟨⟨post, files, all, -⟩, noMore⟩
              refine ⟨⟨post, files, List.forall_mem_cons.mpr ⟨trivial, all⟩, ?_⟩, ?_⟩
              · intro noReads
                exact (noReads _ List.mem_cons_self llen rfl).elim
              · simpa [startsParse] using noMore
            · have readStarted : s'.request.readStarted = true := by rw [request]
              refine answered .null .null trivial (.started readStarted rfl rfl) ?_
                (.inr ⟨llen, rfl⟩)
              rw [request]
              exact unread.current

/-! ## The uploads -/

/-- Once the body is parsed, `filesVar` is made from the uploads of the table. -/
def HasUploads (s : Session) : Prop :=
  s.request.postParsed = true → s.request.readStarted = false ∧
    ∃ r table, s.request.postTable = some table ∧
      s.request.filesVar = some (if (table.filter Param.upload).isEmpty then .null
        else .list (fileUploads r (table.filter Param.upload)))

theorem fileUploads_names (r : RequestRec) (uploads : ParamTable) :
    (fileUploads r uploads).map Prod.fst = uploads.map fun upload => mkChar upload.name := by
  have names : (fileUploads r uploads).map Prod.fst =
      (uploads.zipIdx.map Prod.fst).map fun upload => mkChar upload.name := by
    rw [fileUploads, List.map_map, List.map_map]
    apply List.map_congr_left
    rintro ⟨upload, index⟩ -
    simp only [Function.comp_apply]
    split
    next => rfl
    next => rfl
  rw [names, List.zipIdx_map_fst]

theorem HasUploads.step {s s' : Session} {fuel : Nat} {call : PostCall} {value : RValue}
    (has : HasUploads s) (executed : s.exec fuel call.call = (.returned value, s')) :
    HasUploads s' := by
  have same (s' : Session) (request : s'.request = s.request) : HasUploads s' := by
    unfold HasUploads
    rw [request]
    exact has
  have parses (returnPost : Bool)
      (executed : s.parsePost fuel returnPost = (.returned value, s')) : HasUploads s' := by
    cases current : s.request.r with
    | none =>
        simp only [Session.parsePost, current, Prod.mk.injEq] at executed
        exact same s' (by rw [executed.2])
    | some r =>
        rw [parsePost_eq current] at executed
        split at executed
        next =>
          cases error : s.rApacheError
              (bytes "Oops! Your R code has already started reading the request.") with
          | none => simp [error, returning] at executed
          | some after =>
              simp only [error, returning, Prod.mk.injEq] at executed
              rcases rApacheError_eq error with ⟨bbErr, isAfter⟩
              exact same s' (by rw [← executed.2, isAfter])
        next notStarted =>
          split at executed
          next =>
            simp only [Prod.mk.injEq] at executed
            exact same s' (by rw [executed.2])
          next notParsed =>
            cases parser : postParser r with
            | none =>
                simp only [parser, Prod.mk.injEq] at executed
                rw [← executed.2]
                intro parsed
                exact (notParsed parsed).elim
            | some found =>
                simp only [parser, startParse] at executed
                split at executed
                next => cases executed
                next => cases executed
                next reads run looped =>
                  simp only [Prod.mk.injEq] at executed
                  rw [← executed.2]
                  intro parsed
                  exact ⟨by simpa [noteParserReads] using notStarted, r, run.t, rfl, rfl⟩
  cases call with
  | post => exact parses true executed
  | files => exact parses false executed
  | receiveBin llen =>
      have step := (receiveBin_readStep fuel llen s).request
      have isAfter : (s.receiveBin fuel llen).2 = s' := congrArg Prod.snd executed
      rw [isAfter] at step
      rcases step with request | ⟨notParsed, request⟩
      · exact same s' request
      · intro parsed
        simp [request, notParsed] at parsed

/-- All calls of the sequence return, and end in this state. -/
def ReturnsIn (fuel : Nat) (calls : List PostCall) (s s' : Session) : Prop :=
  (valuesOf fuel calls s).length = calls.length ∧
    (s.execAll fuel (calls.map PostCall.call)).2 = s'

theorem ReturnsIn.nil {fuel : Nat} {s s' : Session} (returns : ReturnsIn fuel [] s s') :
    s' = s := returns.2.symm

/-- The first call of a sequence whose calls all return returns, and so do the others. -/
theorem ReturnsIn.cons {fuel : Nat} {call : PostCall} {calls : List PostCall} {s s' : Session}
    (returns : ReturnsIn fuel (call :: calls) s s') :
    ∃ value next, s.exec fuel call.call = (.returned value, next) ∧
      ReturnsIn fuel calls next s' := by
  rcases returns with ⟨all, final⟩
  rcases executed : s.exec fuel call.call with ⟨callEnd, next⟩
  cases callEnd with
  | returned value =>
      refine ⟨value, next, rfl, ?_, ?_⟩
      · simpa [valuesOf, execAll, executed] using all
      · simpa [execAll, executed] using final
  | unfinished => simp [valuesOf, execAll, executed] at all
  | ended => simp [valuesOf, execAll, executed] at all

theorem HasUploads.run {s s' : Session} {fuel : Nat} {calls : List PostCall}
    (has : HasUploads s) (returns : ReturnsIn fuel calls s s') : HasUploads s' := by
  induction calls generalizing s with
  | nil =>
      rw [returns.nil]
      exact has
  | cons call calls ih =>
      rcases returns.cons with ⟨value, next, executed, rest⟩
      exact ih (has.step executed) rest

/-- The request stays the current one while its calls return. -/
theorem r_run {s s' : Session} {fuel : Nat} {calls : List PostCall}
    (returns : ReturnsIn fuel calls s s') : s'.request.r = s.request.r := by
  have step := (execAll_callStep fuel (calls.map PostCall.call) s).r
  rw [returns.2] at step
  exact step

/-- After a parse `FILES` has one entry for each upload of the table, under its name. -/
theorem HasUploads.files {s : Session} {r : RequestRec} (current : s.request.r = some r)
    (has : HasUploads s) (parsed : s.request.postParsed = true) (fuel : Nat) :
    ∃ table files, s.request.postTable = some table ∧
      s.parsePost fuel false = (.returned files, s) ∧
      files.listMembers.map Prod.fst =
        (table.filter Param.upload).map fun upload => mkChar upload.name := by
  rcases has parsed with ⟨notStarted, asked, table, isTable, isFiles⟩
  refine ⟨table, s.postAnswer false, isTable, ?_, ?_⟩
  · rw [parsePost_eq current, if_neg (by simp [notStarted]), if_pos parsed]
  · simp only [postAnswer, isFiles, Bool.false_eq_true, if_false, Option.getD_some]
    split
    next empty => simp [RValue.listMembers, List.isEmpty_iff.mp empty]
    next => simpa only [RValue.listMembers] using fileUploads_names asked _

end Session

end RApache
