import RApache.Output

/-!
# The status of the response

Apache sends the status line with the first output that a request hands over, or when the
handler has returned.  `TearDownRequest` hands the output over before the handler assigns the
status that its code has returned.
-/

namespace RApache

open Stepwise
open Stepwise.Program (Every Follows Reaches alone)

/-- The numbers that are HTTP status codes. -/
abbrev IsHttpStatus (status : Int) : Prop := 100 ≤ status ∧ status < 600

/-- What the handler answers to the value of its code, if that is no error. -/
def Response.ofValue : RResult → Option Response
  | .integer result =>
      some { result, status := if result ≠ statusOk then some result else none }
  | .tryError => none
  | .other => some { result := statusDone }

/-- The status that `setStatus` was given last. -/
def lastStatus (initial : Int) (steps : List SessionStep) : Int :=
  steps.foldl (fun last step =>
    match step.op with
    | .call (.setStatus status) => status
    | _ => last) initial

/-- `r->status` when the first output is handed over. -/
def statusAtOutput (steps : List SessionStep) : Option Int :=
  (steps.filterMap fun step =>
    if step.delivered = [] then none else some step.before.status).head?

/-- The status that Apache sends; `final` is `r->status` when the handler has returned. -/
def emittedStatus (steps : List SessionStep) (final : Int) : Int :=
  (statusAtOutput steps).getD final

/-- The status is that of the value, if this is an HTTP status, and else the last one that was
set; and `r->status` is left with an HTTP status or one that was set. -/
def AnswersStatus (value : RResult) (last emitted final : Int) : Prop :=
  emitted = (match value with
    | .integer result => if IsHttpStatus result then result else last
    | _ => last) ∧
  (IsHttpStatus final ∨ final = last)

/-- There is no output to be flushed. -/
def Session.NothingBuffered (s : Session) : Prop := s.bbOut = none ∨ s.bbOut = some []

/-- What has to be so when `TearDownRequest(1)` comes to the output. -/
def StatusCondition (value : RResult) (last : Int) (ended : Session) : Prop :=
  match value with
  | .integer result =>
      if IsHttpStatus result then ended.NothingBuffered ∨ ended.status = result
      else if result = statusOk then ended.status = last
      else result = last ∧ (ended.NothingBuffered ∨ ended.status = last)
  | _ => ended.status = last

/-- `TearDownRequest(1)` comes to the output once, and finds the globals like this. -/
def EndsOutput (steps : List SessionStep) (ended : Session) : Prop :=
  (steps.filter fun step => step.flushes = [true]).map SessionStep.before = [ended]

/-- How the condition and the answer belong together. -/
theorem answersStatus_iff {value : RResult} {response : Response}
    (isValue : Response.ofValue value = some response) (last : Int) {ended : Session}
    {emitted : Int}
    (nothing : ended.NothingBuffered → emitted = response.status.getD ended.status)
    (something : ¬ ended.NothingBuffered → emitted = ended.status) :
    AnswersStatus value last emitted (response.status.getD ended.status) ↔
      StatusCondition value last ended := by
  cases value with
  | tryError => cases isValue
  | other =>
      cases isValue
      have same : emitted = ended.status := by
        by_cases buffered : ended.NothingBuffered
        · exact nothing buffered
        · exact something buffered
      simp only [AnswersStatus, StatusCondition, Option.getD_none, same]
      exact ⟨fun answers => answers.1, fun is => ⟨is, .inr is⟩⟩
  | integer result =>
      cases isValue
      simp only [AnswersStatus, StatusCondition]
      by_cases isOk : result = statusOk
      · have notHttp : ¬ IsHttpStatus result := by
          rw [isOk]
          decide
        have same : emitted = ended.status := by
          by_cases buffered : ended.NothingBuffered
          · simpa [isOk] using nothing buffered
          · exact something buffered
        rw [if_neg notHttp, if_neg notHttp, if_pos isOk, same]
        simp only [isOk, ne_eq, not_true_eq_false, if_false, Option.getD_none]
        exact ⟨fun answers => answers.1, fun is => ⟨is, .inr is⟩⟩
      · simp only [ne_eq, isOk, not_false_eq_true, if_true, Option.getD_some] at nothing ⊢
        by_cases isHttp : IsHttpStatus result
        · rw [if_pos isHttp, if_pos isHttp]
          constructor
          · rintro ⟨answers, -⟩
            by_cases buffered : ended.NothingBuffered
            · exact .inl buffered
            · exact .inr (answers ▸ (something buffered).symm)
          · intro condition
            refine ⟨?_, .inl isHttp⟩
            by_cases buffered : ended.NothingBuffered
            · exact nothing buffered
            · rw [something buffered]
              exact condition.resolve_left buffered
        · simp only [if_neg isHttp, if_false]
          constructor
          · rintro ⟨answers, final⟩
            have isLast := final.resolve_left isHttp
            refine ⟨isLast, ?_⟩
            by_cases buffered : ended.NothingBuffered
            · exact .inl buffered
            · exact .inr (answers ▸ (something buffered).symm)
          · rintro ⟨isLast, condition⟩
            refine ⟨?_, .inr isLast⟩
            by_cases buffered : ended.NothingBuffered
            · rw [nothing buffered]
              exact isLast
            · rw [something buffered]
              exact condition.resolve_left buffered

/-! ## The run of a handler -/

/-- The steps of a request so far, none of which flushes the output. -/
def Unflushed (before : List SessionStep) (s : Child) : Prop :=
  ∃ steps, s.log = before ++ steps ∧ ∀ step ∈ steps, step.flushes ≠ [true]

/-- What is known of the steps of a request when it has been answered without an error. -/
def Answered (before : List SessionStep) (response : Response) (s : Child) : Prop :=
  ∀ value, Response.ofValue value = some response →
    ∃ steps ended, s.log = before ++ steps ∧ EndsOutput steps ended ∧
      s.session.status = ended.status ∧
      (ended.NothingBuffered → statusAtOutput steps = none) ∧
      (¬ ended.NothingBuffered → statusAtOutput steps = some ended.status)

/-- A response that no value has. -/
theorem Answered.of_error {before : List SessionStep} {result : Int}
    (isError : result ≠ statusDone) (s : Child) (isOk : result ≠ statusOk) :
    Answered before { result } s := by
  intro value isValue
  cases value with
  | tryError => cases isValue
  | other =>
      simp only [Response.ofValue, Option.some.injEq, Response.mk.injEq, and_true] at isValue
      exact (isError isValue.symm).elim
  | integer code =>
      simp only [Response.ofValue, Option.some.injEq, Response.mk.injEq] at isValue
      rcases isValue with ⟨same, none⟩
      rw [same, if_pos isOk] at none
      cases none

section Alone

variable {w : World} {me : Owner} {r : RequestRec} {before : List SessionStep}

theorem Unflushed.of_log {s s' : Child} (unflushed : Unflushed before s) (log : s'.log = s.log) :
    Unflushed before s' := by
  rcases unflushed with ⟨steps, isLog, none⟩
  exact ⟨steps, by rw [log, isLog], none⟩

theorem Unflushed.performed {s : Child} {op : SessionOp} {value : RValue} {session : Session}
    (unflushed : Unflushed before s) (ω : Answer)
    (noFlush : SessionStep.flushes ⟨s.session, op, value⟩ ≠ [true]) :
    Unflushed before (s.performed ω op value session) := by
  rcases unflushed with ⟨steps, isLog, none⟩
  refine ⟨steps ++ [⟨s.session, op, value⟩], by simp [Child.performed, isLog], ?_⟩
  intro step isStep
  rcases List.mem_append.mp isStep with earlier | last
  · exact none step earlier
  · rw [List.mem_singleton.mp last]
    exact noFlush

/-- Steps of the module that do not flush the output. -/
theorem perform_unflushed {op : SessionOp}
    (noFlush : ∀ s value, SessionStep.flushes ⟨s, op, value⟩ ≠ [true]) :
    Every always (Code.Stays alone (Unflushed before)) (Code.perform w op) := by
  apply Code.every_atomic
  intro ω s value s' acted unflushed
  split at acted
  next =>
    cases acted
    exact Unflushed.performed unflushed ω (noFlush _ _)
  next => cases acted

theorem allowsWork_unflushed : Code.AllowsWork (Code.Stays alone (Unflushed before)) w where
  work := by
    intro ω s s' step unflushed
    cases step with
    | read => exact Unflushed.of_log unflushed rfl
    | directory cwd => exact Unflushed.of_log unflushed rfl
    | session isWork performed =>
        refine Unflushed.performed unflushed ω ?_
        rw [isWork_flushes isWork]
        nofun

/-- Tearing down without flushing, as a failed `EXEC` does, flushes nothing. -/
theorem tearDownRequest_unflushed :
    Every always (Code.Stays alone (Unflushed before)) (Code.tearDownRequest w me false) := by
  have quiet {change : Child → Child} (log : ∀ s, (change s).log = s.log) :
      Every always (Code.Stays alone (Unflushed before)) (Code.modify change) :=
    Code.every_modify fun ω s unflushed => unflushed.of_log (log _)
  have restored : Every always (Code.Stays alone (Unflushed before))
      (Code.restoreDirectory me) := by
    apply Code.every_atomic
    intro ω s value s' acted unflushed
    cases acted
    exact Unflushed.of_log unflushed rfl
  have cleared : Every always (Code.Stays alone (Unflushed before)) (Code.clearRequest w me) := by
    apply Code.every_modify
    intro ω s unflushed
    exact @Unflushed.performed before s .clear .null { s.session with request := {} } unflushed ω
      (by simp [SessionStep.flushes])
  have unlocked : Every always (Code.Stays alone (Unflushed before)) (Code.unlock me) := by
    apply quiet
    intro s
    split
    next => rfl
    next => rfl
  exact restored.bind fun _ =>
    (Code.clearPushBack_every allowsWork_unflushed).bind fun _ =>
      (perform_unflushed (by simp [SessionStep.flushes])).bind fun _ =>
        (perform_unflushed (by simp [SessionStep.flushes])).bind fun _ =>
          (perform_unflushed (by simp [SessionStep.flushes])).bind fun _ =>
            cleared.bind fun _ => unlocked

theorem allowsHandler_unflushed :
    Code.AllowsHandler always (Code.Stays alone (Unflushed before)) w me where
  toAllowsWork := allowsWork_unflushed
  execFailure := by
    have failed : Every always (Code.Stays alone (Unflushed before)) (Code.modify fun s =>
        { s with lockEvents := .execFailed me :: s.lockEvents }) :=
      Code.every_modify fun ω s unflushed => Unflushed.of_log unflushed rfl
    exact failed.bind fun _ => tearDownRequest_unflushed.bind fun _ => trivial
  caches := by
    intro ω s s' step unflushed
    cases step with
    | change => exact Unflushed.of_log unflushed rfl
    | nullUse => exact Unflushed.of_log unflushed rfl

/-- The steps of a request that has flushed its output, if there was any. -/
def Flushed (before : List SessionStep) (s : Child) : Prop :=
  ∃ steps ended, s.log = before ++ steps ∧ EndsOutput steps ended ∧
    s.session.status = ended.status ∧
    (ended.NothingBuffered → statusAtOutput steps = none) ∧
    (¬ ended.NothingBuffered → statusAtOutput steps = some ended.status)

theorem Flushed.answered {s : Child} (flushed : Flushed before s) (response : Response) :
    Answered before response s := fun _ _ => flushed

/-- Steps that do not flush the output hand nothing over. -/
theorem statusAtOutput_unflushed {steps : List SessionStep}
    (none : ∀ step ∈ steps, step.flushes ≠ [true]) :
    (steps.filterMap fun step =>
      if step.delivered = [] then Option.none else some step.before.status) = [] := by
  rw [List.filterMap_eq_nil_iff]
  intro step isStep
  rw [if_pos]
  unfold SessionStep.delivered
  split
  next isWriting _ =>
    have notFlush := none step isStep
    rw [SessionStep.flushes, isWriting] at notFlush
    exact (notFlush rfl).elim
  next => rfl

/-- The step in which `TearDownRequest(1)` comes to the output. -/
theorem Unflushed.flush {s : Child} {value : RValue} {session : Session}
    (unflushed : Unflushed before s) (ω : Answer)
    (performed : s.session.cleanWriting true = (.returned value, session)) :
    Flushed before (s.performed ω (.cleanWriting true) value session) := by
  rcases unflushed with ⟨steps, isLog, none⟩
  refine ⟨steps ++ [⟨s.session, .cleanWriting true, value⟩], s.session, ?_, ?_, ?_⟩
  · simp [Child.performed, isLog]
  · rw [EndsOutput, List.filter_append, List.filter_eq_nil_iff.mpr]
    · rfl
    · intro step isStep
      simpa using none step isStep
  · rw [statusAtOutput, List.filterMap_append, statusAtOutput_unflushed none, List.nil_append]
    unfold Session.cleanWriting at performed
    split at performed
    next noOutput =>
      cases performed
      exact ⟨rfl, fun _ => rfl, fun some => (some (.inl noOutput)).elim⟩
    next empty =>
      cases performed
      exact ⟨rfl, fun _ => rfl, fun some => (some (.inr empty)).elim⟩
    next buffers notEmpty isOutput =>
      simp only [Bool.not_true, Bool.false_eq_true, if_false] at performed
      split at performed
      next =>
        cases performed
        refine ⟨rfl, ?_, fun _ => rfl⟩
        rintro (nothing | nothing)
        · simp [isOutput] at nothing
        · rw [isOutput, Option.some.injEq] at nothing
          exact (notEmpty nothing).elim
      next => cases performed

/-- Steps behind the output. -/
theorem Flushed.performed {s : Child} {op : SessionOp} {value : RValue} {session : Session}
    (flushed : Flushed before s) (ω : Answer)
    (noFlush : SessionStep.flushes ⟨s.session, op, value⟩ = [])
    (status : session.status = s.session.status) :
    Flushed before (s.performed ω op value session) := by
  rcases flushed with ⟨steps, ended, isLog, ends, sameStatus, output⟩
  refine ⟨steps ++ [⟨s.session, op, value⟩], ended, ?_, ?_, status.trans sameStatus, ?_⟩
  · simp [Child.performed, isLog]
  · simpa [EndsOutput, List.filter_append, noFlush] using ends
  · have none : ([⟨s.session, op, value⟩] : List SessionStep).filterMap (fun step =>
        if step.delivered = [] then Option.none else some step.before.status) = [] := by
      simp [SessionStep.delivered_of_flushes noFlush]
    rw [statusAtOutput, List.filterMap_append, none, List.append_nil]
    exact output

theorem tearDownRequest_flushed :
    Follows always alone (Code.tearDownRequest w me true) (fun _ known => known = Flushed before)
      (Unflushed before) := by
  have restored : Every always (Code.Stays alone (Unflushed before))
      (Code.restoreDirectory me) := by
    apply Code.every_atomic
    intro ω s value s' acted unflushed
    cases acted
    exact Unflushed.of_log unflushed rfl
  have flushed : Follows always alone (Code.perform w (.cleanWriting true))
      (fun _ known => known = Flushed before) (Unflushed before) := by
    apply Code.follows_perform
    intro ω s value session unflushed performed
    exact ⟨Flushed before, Unflushed.flush unflushed ω performed, rfl⟩
  have logged : Follows always alone (Code.perform w .logErrors)
      (fun _ known => known = Flushed before) (Flushed before) := by
    apply Code.follows_perform
    intro ω s value session flushed performed
    have status : session.status = s.session.status := by
      simp only [Session.perform, Session.logErrors] at performed
      split at performed
      next => cases performed; rfl
      next =>
        split at performed
        next => cases performed; rfl
        next => cases performed
    have noFlush : SessionStep.flushes ⟨s.session, .logErrors, value⟩ = [] := rfl
    exact ⟨Flushed before, Flushed.performed flushed ω noFlush status, rfl⟩
  have cleared : Follows always alone (Code.clearRequest w me)
      (fun _ known => known = Flushed before) (Flushed before) := by
    apply Code.follows_modify
    intro ω s flushed
    exact ⟨Flushed before, @Flushed.performed before s .clear .null
      { s.session with request := {} } flushed ω rfl rfl, rfl⟩
  have unlocked : Follows always alone (Code.unlock me)
      (fun _ known => known = Flushed before) (Flushed before) := by
    apply Code.follows_modify
    intro ω s flushed
    refine ⟨Flushed before, ?_, rfl⟩
    change Flushed before _
    split
    next => exact flushed
    next => exact flushed
  apply Code.follows_tearDownRequest (Code.follows_of_every restored)
    (Code.follows_of_every (Code.clearPushBack_every allowsWork_unflushed))
    (Code.follows_of_every (perform_unflushed (by simp [SessionStep.flushes]))) flushed logged
    cleared
  rintro _ rfl
  exact unlocked

/-- An exit with an error is the answer to no value. -/
theorem error_answered (msg : Option Bytes) :
    Follows always alone (Code.rApacheResponseError w me msg)
      (fun result known => ∀ s, known s → Answered before { result } s) (Unflushed before) := by
  have down : Follows always alone (do
        Code.tearDownRequest w me false
        pure httpInternalServerError : Code Int)
      (fun result known => ∀ s, known s → Answered before { result } s) (Unflushed before) :=
    (Code.follows_of_every tearDownRequest_unflushed).bind fun _ _ _ s _ =>
      .of_error (by decide) s (by decide)
  cases msg with
  | none => exact down
  | some msg =>
      refine (Code.follows_of_every (perform_unflushed (by simp [SessionStep.flushes]))).bind ?_
      rintro _ _ rfl
      exact down

/-- Every way through the handler. -/
theorem serving_answered :
    Code.Serving always alone (fun s => s.log = before) (fun _ : Unit => fun s => s.log = before)
      (fun _ => fun s => s.log = before) (fun _ => Unflushed before)
      (fun response known => ∀ s, known s → Answered before response s) w me r where
  working _ :=
    { handler := allowsHandler_unflushed
      traceback := by
        apply Code.follows_of_every
        apply Code.printTraceback_every allowsHandler_unflushed.toAllowsCode
        intro ω s s' step unflushed
        cases step with
        | set writer =>
            exact @Unflushed.performed before s (.setWriter writer) .null
              { s.session with writer } unflushed ω (by simp [SessionStep.flushes])
      error := error_answered
      respond := by
        intro h ret
        have answers (response : Response) :
            Follows always alone (do
              Code.tearDownRequest w me true
              pure response : Code Response)
            (fun response known => ∀ s, known s → Answered before response s)
            (Unflushed before) := by
          refine tearDownRequest_flushed.bind ?_
          rintro _ _ rfl s flushed
          exact flushed.answered response
        cases ret with
        | integer result => exact answers _
        | tryError => exact (error_answered _).bind fun _ _ answered => answered
        | other => exact answers _ }
  refused result notDone notOk s _ := .of_error notDone s notOk
  filepath := by
    apply Code.follows_filepath
    · exact fun ω s log => ⟨fun s => s.log = before, log, rfl⟩
    · exact fun ω s log => ⟨fun s => s.log = before, log, rfl⟩
  lock := by
    apply Code.follows_atomic
    intro ω s value s' log acted _
    refine ⟨fun s => s.log = before, ?_, ?_⟩
    · split at acted
      next =>
        cases acted
        exact log
      next =>
        split at acted
        next =>
          cases acted
          exact log
        next =>
          cases acted
          exact log
      next => cases acted
    · split
      next => exact ⟨(), rfl⟩
      next => rfl
  setRequest _ := Code.follows_modify fun ω s log => ⟨fun s => s.log = before, log, rfl⟩
  createOut := by
    intro _
    have begun {s' : Child} (same : s'.log = before) : Unflushed before s' :=
      ⟨[], by simp [same], by simp⟩
    apply Code.follows_createOut
    · exact fun ω s log => ⟨Unflushed before, begun log, rfl⟩
    · exact fun ω s log => ⟨Unflushed before, begun log, rfl⟩
  setHandler _ _ := Code.follows_modify fun ω s unflushed =>
    ⟨Unflushed before, Unflushed.of_log unflushed rfl, rfl⟩
  refresh := by
    intro _ h
    apply Code.follows_refresh
    exact fun ω s unflushed => ⟨Unflushed before, Unflushed.of_log unflushed rfl, rfl⟩
  tearDown _ := (Code.follows_of_every tearDownRequest_unflushed).mono fun _ _ _ s _ =>
    .of_error (by decide) s (by decide)
  info := by
    intro _
    have allows : Code.AllowsCode always (Code.Stays alone (Unflushed before)) w me :=
      allowsHandler_unflushed.toAllowsCode
    refine (Code.follows_of_every
      (Code.rApacheInfo_every allows fun _ => Code.tryEval_every allows)).bind ?_
    rintro result _ rfl
    refine tearDownRequest_flushed.bind ?_
    rintro _ _ rfl s flushed
    exact flushed.answered { result }

end Alone

/-- A request that is answered without an error gets the status that its code returned or set,
just when the condition holds in the state in which its output is ended. -/
theorem status_is_answered_iff (w : World) (me : Owner) (r : RequestRec) (s s' : Child)
    (value : RResult) (response : Response)
    (returned : Reaches always (Code.apHookRequestHandler w me r) s (.done response) s')
    (isValue : Response.ofValue value = some response) :
    ∃ steps ended, s'.log = s.log ++ steps ∧ EndsOutput steps ended ∧
      (AnswersStatus value (lastStatus r.status steps)
          (emittedStatus steps (response.status.getD s'.session.status))
          (response.status.getD s'.session.status) ↔
        StatusCondition value (lastStatus r.status steps) ended) := by
  have follows := (@serving_answered w me r s.log).apHookRequestHandler
  rcases follows.reaches_alone rfl returned with ⟨known, now, answered⟩
  rcases answered s' now value isValue with
    ⟨steps, ended, isLog, ends, status, nothing, something⟩
  refine ⟨steps, ended, isLog, ends, ?_⟩
  rw [status]
  apply answersStatus_iff isValue
  · intro none
    rw [emittedStatus, nothing none]
    rfl
  · intro some
    rw [emittedStatus, something some]
    rfl

/-- The request of `oneCaller`. -/
def evalRequest : RequestRec where
  address := 0
  handler := bytes "r-handler"
  perDirConfig := some { evalcode := some (bytes "f()"), handlerKey := some (bytes "f()") }

/-- The first steps of a request to code that behaves like this. -/
def answerRequest (behaviour : RBehaviour) (count : Nat) : Option (Code Response × Child) :=
  Program.runWith (fun _ => { behaviour }) count
    (Code.apHookRequestHandler plainWorld { worker := 0, number := 0 } evalRequest)
    (Child.fresh (bytes "/") (some none) fun _ => [])

theorem answerRequest_reaches {behaviour : RBehaviour} {count : Nat} {response : Response}
    {s : Child} (ran : answerRequest behaviour count = some (.done response, s)) :
    Reaches always
      (Code.apHookRequestHandler plainWorld { worker := 0, number := 0 } evalRequest)
      (Child.fresh (bytes "/") (some none) fun _ => []) (.done response) s :=
  Program.runWith_reaches ran

/-- Code that writes nothing and returns a status. -/
def returnsNotFound : RBehaviour := .finish (some (.integer 404))

/-- The status is that of the value. -/
theorem empty_response_is_not_found :
    ∃ s, Reaches always
        (Code.apHookRequestHandler plainWorld { worker := 0, number := 0 } evalRequest)
        (Child.fresh (bytes "/") (some none) fun _ => [])
        (.done { result := 404, status := some 404 }) s ∧
      AnswersStatus (.integer 404) 200 (emittedStatus s.log 404) 404 := by
  have ran : (answerRequest returnsNotFound 23).isSome := rfl
  have reaches := answerRequest_reaches (show answerRequest returnsNotFound 23 =
    some (.done { result := 404, status := some 404 },
      ((answerRequest returnsNotFound 23).get ran).2) from rfl)
  refine ⟨_, reaches, ?_⟩
  rcases status_is_answered_iff plainWorld { worker := 0, number := 0 } evalRequest _ _
    (.integer 404) _ reaches rfl with ⟨steps, ended, isLog, ends, answers⟩
  cases isLog
  have nothing : ended.NothingBuffered := by
    cases ends
    exact .inr rfl
  exact answers.mpr (.inl nothing)

/-- Code that writes a letter and returns a status. -/
def writesAndReturnsNotFound : RBehaviour :=
  .call (.writeConsole (bytes "x") false) fun _ => .finish (some (.integer 404))

/-- The letter goes out with the status that the request had before. -/
theorem written_response_keeps_old_status :
    ∃ s, Reaches always
        (Code.apHookRequestHandler plainWorld { worker := 0, number := 0 } evalRequest)
        (Child.fresh (bytes "/") (some none) fun _ => [])
        (.done { result := 404, status := some 404 }) s ∧
      emittedStatus s.log 404 = 200 ∧
      ¬ AnswersStatus (.integer 404) (lastStatus evalRequest.status s.log)
        (emittedStatus s.log 404) 404 := by
  have ran : (answerRequest writesAndReturnsNotFound 24).isSome := rfl
  have reaches := answerRequest_reaches (show answerRequest writesAndReturnsNotFound 24 =
    some (.done { result := 404, status := some 404 },
      ((answerRequest writesAndReturnsNotFound 24).get ran).2) from rfl)
  refine ⟨_, reaches, rfl, ?_⟩
  rintro ⟨emitted, -⟩
  cases emitted

end RApache
