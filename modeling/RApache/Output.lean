import RApache.Workers

/-!
# The response is all or nothing

What a request writes is kept in `MR_BBout`.  `TearDownRequest` hands it over to the output
filters of the request as a whole, or throws it away.
-/

namespace RApache

open Stepwise
open Stepwise.Program (Every Follows Guard)

namespace Session

/-! ## Steps that do not write -/

/-- Neither the output nor the status is changed. -/
structure KeepsOutput (s s' : Session) : Prop where
  bbOut : s'.bbOut = s.bbOut
  status : s'.status = s.status

theorem KeepsOutput.refl (s : Session) : KeepsOutput s s := ⟨rfl, rfl⟩

theorem KeepsOutput.trans {s s' s'' : Session} (first : KeepsOutput s s')
    (next : KeepsOutput s' s'') : KeepsOutput s s'' :=
  ⟨next.bbOut.trans first.bbOut, next.status.trans first.status⟩

theorem rApacheError_keepsOutput (value : RValue) (msg : Bytes) (s : Session) :
    KeepsOutput s (returning value s (s.rApacheError msg)).2 := by
  refine returning_session (.refl s) ?_
  intro s' called
  rcases rApacheError_eq called with ⟨bbErr, same⟩
  rw [same]
  exact ⟨rfl, rfl⟩

theorem readRequestBody_keepsOutput {size : Int32} {s s' : Session} {got : Bytes}
    (called : s.readRequestBody size = some (got, s')) : KeepsOutput s s' := by
  rcases readRequestBody_cases called with ⟨-, -, bbErr, same⟩ | ⟨-, bbIn, more, same, -⟩
  · rw [same]
    exact ⟨rfl, rfl⟩
  · rw [same]
    exact ⟨rfl, rfl⟩

theorem receiveAll_keepsOutput (fuel : Nat) (size blen : UInt64) (buf : Bytes) (s : Session) :
    KeepsOutput s (receiveAll fuel size blen buf s).2 := by
  induction fuel generalizing size blen buf s with
  | zero => exact .refl s
  | succ fuel ih =>
      simp only [receiveAll]
      split
      next => exact .refl s
      next called =>
        split
        next => exact (readRequestBody_keepsOutput called).trans (ih ..)
        next => exact readRequestBody_keepsOutput called

theorem receiveBin_keepsOutput (fuel : Nat) (llen : Int32) (s : Session) :
    KeepsOutput s (s.receiveBin fuel llen).2 := by
  unfold receiveBin
  split
  next =>
    split
    next => exact .refl s
    next called => exact readRequestBody_keepsOutput called
  next =>
    split
    next => exact receiveAll_keepsOutput ..
    next => exact .refl s

theorem readConsole_keepsOutput (size : Int32) (s : Session) :
    KeepsOutput s (s.readConsole size).2 := by
  unfold readConsole
  split
  next => exact .refl s
  next called => exact readRequestBody_keepsOutput called

theorem startParse_keepsOutput (fuel : Nat) (returnPost : Bool) (r : RequestRec)
    (contentType : Bytes) (pfn : ParserFunction) (s : Session) :
    KeepsOutput s (startParse fuel returnPost r contentType pfn s).2 := by
  simp only [startParse]
  split
  next => exact ⟨rfl, rfl⟩
  next => exact ⟨rfl, rfl⟩
  next => exact ⟨rfl, rfl⟩

theorem parsePost_keepsOutput (fuel : Nat) (returnPost : Bool) (s : Session) :
    KeepsOutput s (s.parsePost fuel returnPost).2 := by
  unfold parsePost
  split
  next => exact .refl s
  next =>
    split
    next => exact rApacheError_keepsOutput ..
    next =>
      split
      next => exact .refl s
      next =>
        split
        next => exact ⟨rfl, rfl⟩
        next =>
          split
          next => exact ⟨rfl, rfl⟩
          next => exact startParse_keepsOutput ..

theorem Remembers.keepsOutput {s s' : Session} (remembers : Remembers s s') :
    KeepsOutput s s' := by
  rcases remembers.request with ⟨argsTable, cookiesTable, serverVar, rfl⟩
  exact ⟨rfl, rfl⟩

theorem force_keepsOutput (fuel : Nat) (var : CgiVar) (s : Session) :
    KeepsOutput s (s.force fuel var).2 := by
  have promise : KeepsOutput s (s.evalPromise fuel var).2 := by
    cases var with
    | get => exact (parseGet_remembers s).keepsOutput
    | post => exact parsePost_keepsOutput fuel true s
    | cookies => exact (parseCookies_remembers s).keepsOutput
    | files => exact parsePost_keepsOutput fuel false s
    | server => exact (getServer_remembers s).keepsOutput
  unfold force
  split
  next =>
    split
    next => exact .refl s
    next =>
      split
      next value s' evaluated =>
        rw [evaluated] at promise
        exact ⟨promise.bbOut, promise.status⟩
      next callEnd s' _ evaluated =>
        rw [evaluated] at promise
        exact promise
  next => exact .refl s

theorem writeConsoleErrorOnly_keepsOutput (buf : Bytes) (s : Session) :
    KeepsOutput s (s.writeConsoleErrorOnly buf).2 := by
  unfold writeConsoleErrorOnly
  split
  next => exact rApacheError_keepsOutput ..
  next => exact .refl s

end Session

/-! ## What a step writes -/

/-- The output that a step writes: console output that is not for errors and goes through
`WriteConsoleEx`, binary output and the texts of `RApacheInfo`. -/
def SessionStep.written (step : SessionStep) : List Bytes :=
  match step.op with
  | .call (.writeConsole buf false) =>
      match step.before.writer with
      | .writeConsoleEx => [buf]
      | .writeConsoleErrorOnly => []
  | .call (.sendBin buffers) => buffers
  | .puts text => [text]
  | _ => []

/-- What a step hands over to the output filters of the request. -/
def SessionStep.delivered (step : SessionStep) : List Bytes :=
  match step.op, step.value with
  | .cleanWriting true, .raw content => [content]
  | _, _ => []

/-- Whether a step that ends the output flushes it. -/
def SessionStep.flushes (step : SessionStep) : List Bool :=
  match step.op with
  | .cleanWriting flush => [flush]
  | _ => []

/-- The buffers that some steps write, in order. -/
def written (steps : List SessionStep) : List Bytes := steps.flatMap SessionStep.written

/-- What some steps hand over, one by one. -/
def delivered (steps : List SessionStep) : List Bytes := steps.flatMap SessionStep.delivered

/-- The ways in which some steps end the output. -/
def flushes (steps : List SessionStep) : List Bool := steps.flatMap SessionStep.flushes

namespace Session

/-- `MR_BBout` holds these buffers, or none could be written so far. -/
def Holds (buffers : List Bytes) (s : Session) : Prop :=
  s.bbOut = some buffers ∨ s.bbOut = none ∧ buffers = []

theorem Holds.keep {buffers : List Bytes} {s s' : Session} (holds : Holds buffers s)
    (keeps : KeepsOutput s s') : Holds (buffers ++ []) s' := by
  rw [List.append_nil, Holds, keeps.bbOut]
  exact holds

/-- A buffer that is written comes behind the others. -/
theorem Holds.write {buffers : List Bytes} {buffer : Bytes} {s s' : Session}
    (holds : Holds buffers s) (called : s.brigadeWrite buffer = some s') :
    Holds (buffers ++ [buffer]) s' := by
  rcases Option.map_eq_some_iff.mp called with ⟨held, isHeld, same⟩
  rcases holds with holds | ⟨none, -⟩
  · rw [isHeld, Option.some.injEq] at holds
    rw [← same, holds]
    exact .inl rfl
  · rw [none] at isHeld
    cases isHeld

theorem Holds.writeAll {buffers more : List Bytes} {s s' : Session} (holds : Holds buffers s)
    (called : more.foldlM (fun s buf => s.brigadeWrite buf) s = some s') :
    Holds (buffers ++ more) s' := by
  induction more generalizing buffers s with
  | nil =>
      cases called
      simpa using holds
  | cons buf more ih =>
      simp only [List.foldlM_cons, Option.bind_eq_bind, Option.bind_eq_some_iff] at called
      rcases called with ⟨next, first, rest⟩
      simpa using ih (holds.write first) rest

theorem returning_some {value value' : RValue} {before s' : Session} {after : Option Session}
    (returned : returning value before after = (.returned value', s')) : after = some s' := by
  cases after with
  | none => cases returned
  | some s =>
      cases returned
      rfl

/-- A call of R code during a request adds what it writes. -/
theorem exec_holds {buffers : List Bytes} {call : Call} {fuel : Nat} {value : RValue}
    {s s' : Session} (holds : Holds buffers s) (present : s.request.r.isSome)
    (executed : s.exec fuel call = (.returned value, s')) :
    Holds (buffers ++ SessionStep.written ⟨s, .call call, value⟩) s' := by
  have after : (s.exec fuel call).2 = s' := congrArg Prod.snd executed
  have kept (keeps : KeepsOutput s (s.exec fuel call).2) : Holds (buffers ++ []) s' := by
    rw [after] at keeps
    exact holds.keep keeps
  cases call with
  | parseGet => exact kept (parseGet_remembers s).keepsOutput
  | parsePost => exact kept (parsePost_keepsOutput fuel true s)
  | parseFiles => exact kept (parsePost_keepsOutput fuel false s)
  | parseCookies => exact kept (parseCookies_remembers s).keepsOutput
  | getServer => exact kept (getServer_remembers s).keepsOutput
  | force var => exact kept (force_keepsOutput fuel var s)
  | assign var value =>
      refine kept ?_
      simp only [exec]
      split
      next => exact ⟨rfl, rfl⟩
      next => exact .refl s
  | receiveBin llen => exact kept (receiveBin_keepsOutput fuel llen s)
  | readConsole size => exact kept (readConsole_keepsOutput size s)
  | writeConsole buf errorFlag =>
      simp only [exec, writeConsole, writeConsoleEx] at executed after kept
      cases writer : s.writer with
      | writeConsoleErrorOnly =>
          have errors := writeConsoleErrorOnly_keepsOutput buf s
          simp only [writer] at kept
          cases errorFlag with
          | true => exact kept errors
          | false => simpa [SessionStep.written, writer] using kept errors
      | writeConsoleEx =>
          have errors := writeConsoleErrorOnly_keepsOutput buf s
          simp only [writer] at kept executed
          cases errorFlag with
          | true => exact kept errors
          | false =>
              simp only [Bool.false_eq_true, if_false, if_pos present] at executed
              simpa [SessionStep.written, writer] using holds.write (returning_some executed)
  | sendBin buffers =>
      simp only [exec, sendBin, if_pos present] at executed
      exact holds.writeAll (returning_some executed)
  | setStatus status =>
      simp only [exec, setStatus, if_pos present, Prod.mk.injEq] at executed
      rw [← executed.2]
      have same : Holds (buffers ++ []) s := by
        rw [List.append_nil]
        exact holds
      exact same
  | setContentType stype =>
      refine kept ?_
      simp only [exec, setContentType]
      split
      next => exact ⟨rfl, rfl⟩
      next => exact .refl s
  | internals str => exact kept (.refl s)
  | detach => exact kept ⟨rfl, rfl⟩

/-- A step that works for a request adds what it writes. -/
theorem perform_holds {buffers : List Bytes} {op : SessionOp} {fuel : Nat} {value : RValue}
    {s s' : Session} (holds : Holds buffers s) (present : s.request.r.isSome)
    (isWork : op.isWork = true) (performed : s.perform fuel op = (.returned value, s')) :
    Holds (buffers ++ SessionStep.written ⟨s, op, value⟩) s' := by
  have after : (s.perform fuel op).2 = s' := congrArg Prod.snd performed
  have kept (keeps : KeepsOutput s (s.perform fuel op).2) : Holds (buffers ++ []) s' := by
    rw [after] at keeps
    exact holds.keep keeps
  cases op with
  | call call => exact exec_holds holds present performed
  | contentType type =>
      refine kept ?_
      simp only [perform, if_pos present]
      exact ⟨rfl, rfl⟩
  | error msg => exact kept (rApacheError_keepsOutput .null msg s)
  | errorInPool msg =>
      refine kept ?_
      simp only [perform, if_pos present]
      exact rApacheError_keepsOutput .null msg s
  | puts text =>
      simp only [perform] at performed
      exact holds.write (returning_some performed)
  | setWriter writer => cases isWork
  | cleanReading => cases isWork
  | cleanWriting flush => cases isWork
  | logErrors => cases isWork
  | clear => cases isWork

/-- What `TearDownRequest` hands over of the buffers. -/
theorem cleanWriting_delivers {buffers : List Bytes} {flush : Bool} {value : RValue}
    {s s' : Session} (holds : Holds buffers s)
    (performed : s.cleanWriting flush = (.returned value, s')) :
    SessionStep.delivered ⟨s, .cleanWriting flush, value⟩ =
      (if flush = true ∧ buffers ≠ [] then [buffers.flatten] else []) ∧
      s'.request = s.request := by
  unfold cleanWriting at performed
  rcases holds with held | ⟨none, empty⟩
  · cases buffers with
    | nil =>
        simp only [held] at performed
        cases performed
        exact ⟨by simp [SessionStep.delivered], rfl⟩
    | cons buffer buffers =>
        simp only [held] at performed
        cases flush with
        | false =>
            cases performed
            exact ⟨by simp [SessionStep.delivered], rfl⟩
        | true =>
            simp only [Bool.not_true, Bool.false_eq_true, if_false] at performed
            split at performed
            next =>
              cases performed
              exact ⟨by simp [SessionStep.delivered], rfl⟩
            next => cases performed
  · simp only [none] at performed
    cases performed
    rw [empty]
    exact ⟨by simp [SessionStep.delivered], rfl⟩

end Session

/-! ## The protocol of the output -/

/-- The steps of a request are over: they have handed over everything that they wrote in one
piece if the output was flushed, and nothing if it was not. -/
def AllOrNothing (steps : List SessionStep) : Prop :=
  (flushes steps = [true] ∧
      delivered steps = if written steps = [] then [] else [(written steps).flatten]) ∨
    (flushes steps = [false] ∧ delivered steps = [])

/-- Steps that were all taken for this request. -/
def TakenFor (r : RequestRec) (steps : List SessionStep) : Prop :=
  ∀ step ∈ steps, step.before.request.r = some r

/-- How far a request is with its output; `past` are the requests before it and their
steps. -/
inductive OutputStage where
  | locked (past : List (RequestRec × List SessionStep))
  | current (past : List (RequestRec × List SessionStep)) (r : RequestRec)
  | writing (past : List (RequestRec × List SessionStep)) (r : RequestRec)
  | written (past : List (RequestRec × List SessionStep)) (r : RequestRec)

/-- The requests that are over, and the log of their steps. -/
def Past (past : List (RequestRec × List SessionStep)) (log : List SessionStep) : Prop :=
  log = past.flatMap Prod.snd ∧
    ∀ request ∈ past, TakenFor request.1 request.2 ∧ AllOrNothing request.2

/-- What is known of the log and of `MR_BBout` at each stage. -/
def OutputStage.Holds (s : Child) : OutputStage → Prop
  | locked past => Past past s.log
  | current past r => Past past s.log ∧ s.session.request.r = some r
  | writing past r => ∃ before steps, s.log = before ++ steps ∧ Past past before ∧
      s.session.request.r = some r ∧ TakenFor r steps ∧
      s.session.Holds (RApache.written steps) ∧ flushes steps = [] ∧ delivered steps = []
  | written past r => ∃ before steps, s.log = before ++ steps ∧ Past past before ∧
      s.session.request.r = some r ∧ TakenFor r steps ∧ AllOrNothing steps

/-- The output that the lock guards. -/
def outputGuard : Guard Answer Child Nat OutputStage where
  mutex s := s.mutex
  rest s := ∃ past, Past past s.log
  holds _ stage s := stage.Holds s
  outside _ _ s s' := s'.mutex = s.mutex ∧ s'.session = s.session ∧ s'.log = s.log

theorem OutputStage.Holds.of_eq {stage : OutputStage} {s s' : Child} (holds : stage.Holds s)
    (request : s'.session.request.r = s.session.request.r)
    (bbOut : s'.session.bbOut = s.session.bbOut) (log : s'.log = s.log) : stage.Holds s' := by
  cases stage with
  | locked past => simpa only [Holds, log] using holds
  | current past r => simpa only [Holds, log, request] using holds
  | writing past r =>
      simpa only [Holds, Session.Holds, log, request, bbOut] using holds
  | written past r => simpa only [Holds, log, request] using holds

theorem outputGuard_lawful : outputGuard.Lawful where
  mutex outside := outside.1
  rest := by
    rintro worker ω s s' ⟨-, -, log⟩ ⟨past, isPast⟩
    exact ⟨past, by rw [log]; exact isPast⟩
  holds := by
    rintro worker other stage ω s s' ⟨-, session, log⟩ - holds
    exact OutputStage.Holds.of_eq holds (by rw [session]) (by rw [session]) log

section Locking

variable {w : World} {me : Owner} {r : RequestRec}
  {past : List (RequestRec × List SessionStep)}

/-- A step in the section that leaves the lock, the request, the output and the log alone. -/
theorem outputGuard_stays {stage : OutputStage} {ω : Answer} {s s' : Child}
    (mutex : s'.mutex = s.mutex) (request : s'.session.request.r = s.session.request.r)
    (bbOut : s'.session.bbOut = s.session.bbOut) (log : s'.log = s.log) :
    Code.Stays (outputGuard.protocol me.worker) (.inside stage) ω s s' :=
  fun relies => ⟨mutex, relies.2.of_eq request bbOut log⟩

theorem takenFor_snoc {steps : List SessionStep} {step : SessionStep}
    (taken : TakenFor r steps) (isFor : step.before.request.r = some r) :
    TakenFor r (steps ++ [step]) := by
  intro found isFound
  rcases List.mem_append.mp isFound with earlier | last
  · exact taken found earlier
  · rw [List.mem_singleton.mp last]
    exact isFor

theorem written_snoc (steps : List SessionStep) (step : SessionStep) :
    written (steps ++ [step]) = written steps ++ step.written := by
  simp [written]

theorem delivered_snoc (steps : List SessionStep) (step : SessionStep) :
    delivered (steps ++ [step]) = delivered steps ++ step.delivered := by
  simp [delivered]

theorem flushes_snoc (steps : List SessionStep) (step : SessionStep) :
    flushes (steps ++ [step]) = flushes steps ++ step.flushes := by
  simp [flushes]

/-- A step that does not end the output hands nothing over. -/
theorem SessionStep.delivered_of_flushes {step : SessionStep} (none : step.flushes = []) :
    step.delivered = [] := by
  unfold delivered
  split
  next isWriting _ =>
    rw [flushes, isWriting] at none
    cases none
  next => rfl

/-- While a request writes, a step of the module for it keeps what is known. -/
theorem writing_performed {ω : Answer} {op : SessionOp} {value : RValue} {session : Session}
    {s : Child} (holds : (OutputStage.writing past r).Holds s)
    (request : session.request.r = s.session.request.r)
    (noFlush : SessionStep.flushes ⟨s.session, op, value⟩ = [])
    (output : ∀ buffers, s.session.Holds buffers →
      session.Holds (buffers ++ SessionStep.written ⟨s.session, op, value⟩)) :
    (OutputStage.writing past r).Holds (s.performed ω op value session) := by
  rcases holds with ⟨before, steps, log, isPast, current, taken, held, noFlushes, noDelivery⟩
  refine ⟨before, steps ++ [⟨s.session, op, value⟩], ?_, isPast, request.trans current,
    takenFor_snoc taken current, ?_, ?_, ?_⟩
  · simp [Child.performed, log]
  · rw [written_snoc]
    exact output _ held
  · rw [flushes_snoc, noFlushes, noFlush]
    rfl
  · rw [delivered_snoc, noDelivery, SessionStep.delivered_of_flushes noFlush]
    rfl

theorem isWork_flushes {op : SessionOp} (isWork : op.isWork = true) (before : Session)
    (value : RValue) : SessionStep.flushes ⟨before, op, value⟩ = [] := by
  cases op <;> first | rfl | cases isWork

theorem outputGuard_allowsHandler :
    Code.AllowsHandler NoExecFailure
      (Code.Stays (outputGuard.protocol me.worker) (.inside (.writing past r))) w me where
  toAllowsCode := by
    apply Code.AllowsWork.code
    constructor
    intro ω s s' step
    cases step with
    | read => exact outputGuard_stays rfl rfl rfl rfl
    | directory cwd => exact outputGuard_stays rfl rfl rfl rfl
    | @session op value session isWork performed =>
        rintro ⟨held, holds⟩
        have request := (Session.perform_keeps w.fuel op s.session).1
          (SessionOp.isWork_notClear isWork)
        rw [performed] at request
        have present : s.session.request.r.isSome := by
          rcases holds with ⟨-, -, -, -, current, -⟩
          simp [current]
        exact ⟨rfl, writing_performed holds request (isWork_flushes isWork _ _)
          fun _ output => Session.perform_holds output present isWork performed⟩
  caches := by
    intro ω s s' step
    cases step with
    | change => exact outputGuard_stays rfl rfl rfl rfl
    | nullUse => exact outputGuard_stays rfl rfl rfl rfl

/-- A step behind the end of the output. -/
theorem AllOrNothing.snoc {steps : List SessionStep} {step : SessionStep}
    (all : AllOrNothing steps) (noFlush : step.flushes = []) (noOutput : step.written = []) :
    AllOrNothing (steps ++ [step]) := by
  rw [AllOrNothing, flushes_snoc, delivered_snoc, written_snoc, noFlush, noOutput,
    SessionStep.delivered_of_flushes noFlush]
  simp only [List.append_nil]
  exact all

/-- `TearDownRequest` ends the output. -/
theorem writing_cleaned {ω : Answer} {flush : Bool} {value : RValue} {session : Session}
    {s : Child} (holds : (OutputStage.writing past r).Holds s)
    (performed : s.session.perform w.fuel (.cleanWriting flush) = (.returned value, session)) :
    (OutputStage.written past r).Holds (s.performed ω (.cleanWriting flush) value session) := by
  rcases holds with ⟨before, steps, log, isPast, current, taken, output, noFlush, noDelivery⟩
  rcases Session.cleanWriting_delivers output performed with ⟨delivers, request⟩
  refine ⟨before, steps ++ [⟨s.session, .cleanWriting flush, value⟩], ?_, isPast, ?_,
    takenFor_snoc taken current, ?_⟩
  · simp [Child.performed, log]
  · simpa only [Child.performed, request] using current
  · rw [AllOrNothing, flushes_snoc, delivered_snoc, written_snoc, noFlush, noDelivery, delivers]
    cases flush with
    | true =>
        left
        simp only [SessionStep.flushes, SessionStep.written, List.append_nil, List.nil_append,
          true_and]
        by_cases none : written steps = []
        · simp [none]
        · simp [none]
    | false =>
        right
        simp [SessionStep.flushes]

/-- Behind the end of the output, a step that does not write keeps what is known. -/
theorem written_performed {ω : Answer} {op : SessionOp} {value : RValue} {session : Session}
    {s : Child} (holds : (OutputStage.written past r).Holds s)
    (request : session.request.r = s.session.request.r)
    (noFlush : SessionStep.flushes ⟨s.session, op, value⟩ = [])
    (noOutput : SessionStep.written ⟨s.session, op, value⟩ = []) :
    (OutputStage.written past r).Holds (s.performed ω op value session) := by
  rcases holds with ⟨before, steps, log, isPast, current, taken, all⟩
  refine ⟨before, steps ++ [⟨s.session, op, value⟩], ?_, isPast, request.trans current,
    takenFor_snoc taken current, all.snoc noFlush noOutput⟩
  simp [Child.performed, log]

/-- A request that is cleared is over. -/
theorem written_cleared {s : Child} (holds : (OutputStage.written past r).Holds s) :
    s.session.request.r = some r ∧ ∃ steps, s.log = past.flatMap Prod.snd ++ steps ∧
      Past (past ++ [(r, steps ++ [⟨s.session, .clear, .null⟩])])
        (s.log ++ [⟨s.session, .clear, .null⟩]) := by
  rcases holds with ⟨before, steps, isLog, ⟨isPast, complete⟩, current, taken, all⟩
  refine ⟨current, steps, isPast ▸ isLog, ?_, ?_⟩
  · simp [isLog, isPast]
  · intro request isRequest
    rcases List.mem_append.mp isRequest with earlier | last
    · exact complete request earlier
    · rw [List.mem_singleton.mp last]
      exact ⟨takenFor_snoc taken current, all.snoc rfl rfl⟩

/-- A request begins to write. -/
theorem writing_begun {s s' : Child} (holds : (OutputStage.current past r).Holds s)
    (output : s'.session.Holds []) (request : s'.session.request.r = s.session.request.r)
    (log : s'.log = s.log) : (OutputStage.writing past r).Holds s' :=
  ⟨s.log, [], by simp [log], holds.1, request.trans holds.2, by simp [TakenFor], output, rfl, rfl⟩

/-- `TearDownRequest` ends the output once and clears the request. -/
theorem outputGuard_tearDown (flush : Bool) :
    Follows NoExecFailure (outputGuard.protocol me.worker) (Code.tearDownRequest w me flush)
      (fun _ place => place = .outside) (.inside (.writing past r)) := by
  have restored : Follows NoExecFailure (outputGuard.protocol me.worker)
      (Code.restoreDirectory me) (fun _ place => place = .inside (.writing past r))
      (.inside (.writing past r)) := by
    apply Code.follows_atomic
    intro ω s value s' relies acted _
    cases acted
    exact ⟨_, outputGuard_stays rfl rfl rfl rfl relies, rfl⟩
  have pushedBack : Follows NoExecFailure (outputGuard.protocol me.worker)
      (Code.clearPushBack w) (fun _ place => place = .inside (.writing past r))
      (.inside (.writing past r)) :=
    Code.follows_of_every (Code.clearPushBack_every outputGuard_allowsHandler.toAllowsWork)
  have readingCleaned : Follows NoExecFailure (outputGuard.protocol me.worker)
      (Code.perform w .cleanReading) (fun _ place => place = .inside (.writing past r))
      (.inside (.writing past r)) := by
    apply Code.follows_perform
    rintro ω s value session ⟨held, holds⟩ performed
    cases performed
    have output (buffers : List Bytes) (output : s.session.Holds buffers) :
        Session.Holds (buffers ++ []) { s.session with bbIn := none } := output.keep ⟨rfl, rfl⟩
    exact ⟨.inside (.writing past r), ⟨rfl, writing_performed holds rfl rfl output⟩, rfl⟩
  have writingCleaned : Follows NoExecFailure (outputGuard.protocol me.worker)
      (Code.perform w (.cleanWriting flush)) (fun _ place => place = .inside (.written past r))
      (.inside (.writing past r)) := by
    apply Code.follows_perform
    rintro ω s value session ⟨held, holds⟩ performed
    exact ⟨.inside (.written past r), ⟨rfl, writing_cleaned holds performed⟩, rfl⟩
  have logged : Follows NoExecFailure (outputGuard.protocol me.worker)
      (Code.perform w .logErrors) (fun _ place => place = .inside (.written past r))
      (.inside (.written past r)) := by
    apply Code.follows_perform
    rintro ω s value session ⟨held, holds⟩ performed
    have request := (Session.perform_keeps w.fuel .logErrors s.session).1 (by nofun)
    rw [performed] at request
    exact ⟨.inside (.written past r), ⟨rfl, written_performed holds request rfl rfl⟩, rfl⟩
  have cleared : Follows NoExecFailure (outputGuard.protocol me.worker)
      (Code.clearRequest w me) (fun _ place => ∃ past, place = .inside (.locked past))
      (.inside (.written past r)) := by
    apply Code.follows_modify
    rintro ω s ⟨held, holds⟩
    rcases written_cleared holds with ⟨-, steps, -, isPast⟩
    refine ⟨.inside (.locked (past ++ [(r, steps ++ [⟨s.session, .clear, .null⟩])])),
      ⟨rfl, ?_⟩, _, rfl⟩
    exact isPast
  have unlocked (past : List (RequestRec × List SessionStep)) :
      Follows NoExecFailure (outputGuard.protocol me.worker) (Code.unlock me)
        (fun _ place => place = .outside) (.inside (.locked past)) :=
    Code.guard_unlock (fun _ => rfl) fun _ _ _ isPast => ⟨past, isPast⟩
  apply Code.follows_tearDownRequest restored pushedBack readingCleaned writingCleaned logged cleared
  rintro _ ⟨past', rfl⟩
  exact unlocked past'

/-- Every request keeps to the protocol of the output. -/
theorem outputGuard_locking :
    Code.Locking NoExecFailure (outputGuard.protocol me.worker) .outside
      (fun past => .inside (.locked past)) (fun past => .inside (.current past r))
      (fun past => .inside (.writing past r)) w me r where
  handler _ := outputGuard_allowsHandler
  writer := by
    intro past ω s s' step
    cases step with
    | set writer =>
        rintro ⟨held, holds⟩
        have output (buffers : List Bytes) (output : s.session.Holds buffers) :
            Session.Holds (buffers ++ []) { s.session with writer } := output.keep ⟨rfl, rfl⟩
        exact ⟨rfl, @writing_performed r past ω (.setWriter writer) .null _ s holds rfl rfl output⟩
  filepath := Code.guard_filepath fun _ _ _ => ⟨rfl, rfl, rfl⟩
  lock := Code.guard_lock (fun _ => rfl) (fun _ _ => ⟨rfl, rfl, rfl⟩) fun _ _ rest => rest
  setRequest := by
    intro past
    apply Code.follows_modify
    rintro ω s ⟨held, isPast⟩
    exact ⟨.inside (.current past r), ⟨rfl, isPast, rfl⟩, rfl⟩
  createOut := by
    intro past
    apply Code.follows_createOut
    · rintro ω s ⟨held, holds⟩
      exact ⟨.inside (.writing past r), ⟨rfl, writing_begun holds (.inl rfl) rfl rfl⟩, rfl⟩
    · rintro ω s ⟨held, holds⟩
      exact ⟨.inside (.writing past r), ⟨rfl, writing_begun holds (.inr ⟨rfl, rfl⟩) rfl rfl⟩, rfl⟩
  setHandler := by
    intro past h
    apply Code.follows_modify
    intro ω s relies
    exact ⟨_, outputGuard_stays rfl rfl rfl rfl relies, rfl⟩
  refresh := by
    intro past h
    apply Code.follows_refresh
    exact fun ω s relies => ⟨_, outputGuard_stays rfl rfl rfl rfl relies, rfl⟩
  tearDown past flush := outputGuard_tearDown flush

end Locking

/-! ## All threads -/

theorem outputGuard_follows (workers : Workers) (w : World) (worker : Nat) :
    Follows NoExecFailure (outputGuard.protocol worker) (workers.pool w worker)
      (fun _ _ => True) .outside := by
  refine Code.guard_serve ?_ fun _ _ _ => ⟨rfl, rfl, rfl⟩
  intro number r _
  exact (@outputGuard_locking w { worker, number } r).serving.apHookRequestHandler

/-- The log of the module's steps is made of those of one request after the other.  Every
request that is over has handed over either all it wrote, in order and in one piece, or
nothing.  The request in the section has handed over nothing, or is over but not yet
cleared. -/
def RespondsWhole (s : Child) : Prop :=
  ∃ (past : List (RequestRec × List SessionStep)) (current : List SessionStep),
    s.log = past.flatMap Prod.snd ++ current ∧
    (∀ request ∈ past, TakenFor request.1 request.2 ∧ AllOrNothing request.2) ∧
    (current ≠ [] → ∃ r, s.session.request.r = some r ∧ TakenFor r current ∧
      (flushes current = [] ∧ delivered current = [] ∨ AllOrNothing current))

/-- As long as no `EXEC` fails, every response is all or nothing, in any order of the threads'
steps. -/
theorem output_is_all_or_nothing (workers : Workers) (w : World) (cwd : Bytes) (files : Files)
    (s : Child) (reach : workers.Reach NoExecFailure w cwd files s) : RespondsWhole s := by
  have rest : outputGuard.rest (workers.start cwd files) := ⟨[], rfl, by simp⟩
  rcases Workers.agrees outputGuard_lawful (fun _ => rfl) rest (outputGuard_follows workers w)
    reach with ⟨places, agrees⟩
  have finished {past : List (RequestRec × List SessionStep)} (isPast : Past past s.log) :
      RespondsWhole s := ⟨past, [], by simpa using isPast.1, isPast.2, by simp⟩
  rcases agrees.resource with ⟨-, ⟨past, isPast⟩, -⟩ | ⟨worker, stage, -, -, holds, -⟩
  · exact finished isPast
  · cases stage with
    | locked past => exact finished holds
    | current past r => exact finished holds.1
    | writing past r =>
        rcases holds with ⟨before, steps, log, ⟨isLog, complete⟩, current, taken, -, noFlush,
          noDelivery⟩
        exact ⟨past, steps, by rw [log, isLog], complete,
          fun _ => ⟨r, current, taken, .inl ⟨noFlush, noDelivery⟩⟩⟩
    | written past r =>
        rcases holds with ⟨before, steps, log, ⟨isLog, complete⟩, current, taken, all⟩
        exact ⟨past, steps, by rw [log, isLog], complete,
          fun _ => ⟨r, current, taken, .inr all⟩⟩

/-- One thread that serves one request, to a handler that evaluates code. -/
def oneCaller : Workers where
  requests worker :=
    if worker = 0 then
      [{ address := 0
         handler := bytes "r-handler"
         perDirConfig := some { evalcode := some (bytes "f()"), handlerKey := some (bytes "f()") } }]
    else []
  threaded := true
  single := by simp

/-- Some steps of the thread, in which the code behaves like this. -/
def oneCall (test : Answer → Child → Child → Bool) (behaviour : RBehaviour) (count : Nat) :
    Option ((Nat → Code Unit) × Child) :=
  Program.runPoolIf test (List.replicate count (0, { behaviour }))
    (oneCaller.pool plainWorld) (oneCaller.start (bytes "/") fun _ => [])

theorem oneCall_reach {ok : Answer → Child → Child → Prop}
    {test : Answer → Child → Child → Bool} {behaviour : RBehaviour} {count : Nat}
    (passes : ∀ ω s s', test ω s s' = true → ok ω s s')
    (ran : (oneCall test behaviour count).isSome) :
    oneCaller.Reach ok plainWorld (bytes "/") (fun _ => [])
      ((oneCall test behaviour count).get ran).2 :=
  ⟨_, Program.runPoolIf_reaches passes .refl (Option.some_get ran).symm⟩

/-- Code that writes one letter. -/
def writesLetter : RBehaviour :=
  .call (.writeConsole (bytes "x") false) fun _ => .finish (some .other)

/-- What the code has written is handed over. -/
theorem letter_is_delivered :
    ∃ s, oneCaller.Reach NoExecFailure plainWorld (bytes "/") (fun _ => []) s ∧
      RespondsWhole s ∧ flushes s.log = [true] ∧ delivered s.log = [bytes "x"] := by
  have ran : (oneCall noExecFailure writesLetter 25).isSome := rfl
  have reach := oneCall_reach (fun _ _ _ => noExecFailure_iff) ran
  exact ⟨_, reach, output_is_all_or_nothing oneCaller plainWorld _ _ _ reach, rfl, rfl⟩

/-- Code that writes one letter and shows the r-info page, for which no code can be
evaluated. -/
def writesLetterAndPage : RBehaviour :=
  .call (.writeConsole (bytes "x") false) fun _ =>
    .rapacheInfo (fun _ => .finish none) (.finish (some .other))

/-- The handler returns through `TearDownRequest(1)`, but what its code has written is not
handed over. -/
theorem failed_exec_loses_output :
    ∃ s, oneCaller.Reach always plainWorld (bytes "/") (fun _ => []) s ∧
      s.lockEvents.head? = some (.returned { worker := 0, number := 0 }) ∧
      (flushes s.log).getLast? = some true ∧ written s.log = [bytes "x"] ∧
      delivered s.log = [] := by
  have ran : (oneCall (fun _ _ _ => true) writesLetterAndPage 35).isSome := rfl
  have reach := @oneCall_reach always _ _ _ (fun _ _ _ _ => trivial) ran
  exact ⟨_, reach, rfl, rfl, rfl, rfl⟩

end RApache
