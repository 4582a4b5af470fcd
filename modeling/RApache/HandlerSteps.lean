import RApache.Handler
import RApache.Readers

/-!
# What the steps of the handler are

Every atomic step of R code, and of the functions between `SetUpRequest` and
`TearDownRequest`, is one of two kinds: it works for the request, or it changes the
caches.  The one exception is a failed `EXEC`, which tears the request down.
-/

namespace RApache

open Stepwise
open Stepwise.Program (Every)

/-- Steps of the module that work for the current request. -/
def SessionOp.isWork : SessionOp → Bool
  | .call _ | .contentType _ | .error _ | .errorInPool _ | .puts _ => true
  | .setWriter _ | .cleanReading | .cleanWriting _ | .logErrors | .clear => false

/-- Steps of the module that clean up behind a request. -/
def SessionOp.isCleaning : SessionOp → Bool
  | .cleanReading | .cleanWriting _ | .logErrors => true
  | _ => false

theorem SessionOp.isWork_notWriter {op : SessionOp} (isWork : op.isWork = true) :
    ∀ writer, op ≠ .setWriter writer := by
  rintro writer rfl
  cases isWork

theorem SessionOp.isCleaning_notWriter {op : SessionOp} (isCleaning : op.isCleaning = true) :
    ∀ writer, op ≠ .setWriter writer := by
  rintro writer rfl
  cases isCleaning

theorem SessionOp.isWork_notClear {op : SessionOp} (isWork : op.isWork = true) :
    op ≠ .clear := by
  rintro rfl
  cases isWork

theorem SessionOp.isCleaning_notClear {op : SessionOp} (isCleaning : op.isCleaning = true) :
    op ≠ .clear := by
  rintro rfl
  cases isCleaning

/-- A step that works for the current request. -/
inductive WorkStep (w : World) (ω : Answer) (s : Child) : Child → Prop where
  | read : WorkStep w ω s (s.written ω)
  | directory (cwd : Bytes) : WorkStep w ω s { s.written ω with cwd }
  | session {op : SessionOp} {value : RValue} {session : Session} (isWork : op.isWork = true)
      (performed : s.session.perform w.fuel op = (.returned value, session)) :
      WorkStep w ω s
        { s.written ω with
          session
          trace := s.trace.map fun trace =>
            { trace with steps := trace.steps ++ [(op, value)] }
          log := s.log ++ [{ before := s.session, op, value }] }

/-- A step of `PrintTraceback` that sets `ptr_R_WriteConsoleEx`. -/
inductive WriterStep (ω : Answer) (s : Child) : Child → Prop where
  | set (writer : ConsoleWriter) :
      WriterStep ω s
        { s.written ω with
          session := { s.session with writer }
          trace := s.trace.map fun trace =>
            { trace with steps := trace.steps ++ [(.setWriter writer, .null)] }
          log := s.log ++ [{ before := s.session, op := .setWriter writer, value := .null }] }

/-- A step of `TearDownRequest`, or the failure of an `EXEC` before it. -/
inductive TearStep (w : World) (me : Owner) (ω : Answer) (s : Child) : Child → Prop where
  | execFailed :
      TearStep w me ω s { s.written ω with lockEvents := .execFailed me :: s.lockEvents }
  | restored :
      TearStep w me ω s
        { s.written ω with
          cwd := Code.restoredDirectory ω s
          lockEvents := .tornDown me s.session.request.r :: s.lockEvents }
  | cleaned {op : SessionOp} {value : RValue} {session : Session}
      (isCleaning : op.isCleaning = true)
      (performed : s.session.perform w.fuel op = (.returned value, session)) :
      TearStep w me ω s
        { s.written ω with
          session
          trace := s.trace.map fun trace =>
            { trace with steps := trace.steps ++ [(op, value)] }
          log := s.log ++ [{ before := s.session, op, value }] }
  | cleared :
      TearStep w me ω s
        { s.written ω with
          session := { s.session with request := {} }
          oldwd := none
          lockEvents := .cleared me s.session.request.r :: s.lockEvents
          trace := s.trace.map fun trace =>
            { trace with steps := trace.steps ++ [(.clear, .null)] }
          log := s.log ++ [{ before := s.session, op := .clear, value := .null }] }
  | unlocked :
      TearStep w me ω s
        { s.written ω with
          mutex := s.mutex.map fun _ => none
          lockEvents := .left me s.mutex.isSome s.mutex.join :: s.lockEvents }

/-- A step that changes the caches or the environments, or records an evaluation or the use of
a `NULL` pointer. -/
inductive CacheStep (ω : Answer) (s : Child) : Child → Prop where
  | change (handlers : Bytes → Option RApacheHandler)
      (parsedFiles : Bytes → Option RApacheParsedFile) (nextEnv : EnvId)
      (evaluated : EnvId → List (CodeSource × RExpr)) (failed : EnvId → Bool)
      (handlerEvaluations : List HandlerEvaluation)
      (fileEvaluations : List FileEvaluation) :
      CacheStep ω s
        { s.written ω with
          handlers, parsedFiles, nextEnv, evaluated, failed, handlerEvaluations,
          fileEvaluations }
  | nullUse (use : NullUse) :
      CacheStep ω s { s.written ω with nullUses := use :: s.nullUses }

namespace Code

/-- A relation that allows work for the current request. -/
structure AllowsWork (R : Answer → Child → Child → Prop) (w : World) : Prop where
  work : ∀ {ω s s'}, WorkStep w ω s s' → R ω s s'

/-- A relation that also allows tearing the request down. -/
structure AllowsTearDown (R : Answer → Child → Child → Prop) (w : World) (me : Owner) :
    Prop extends AllowsWork R w where
  tear : ∀ {ω s s'}, TearStep w me ω s s' → R ω s s'

/-- A relation that allows everything that R code can do, a failed `EXEC` included. -/
structure AllowsCode (ok R : Answer → Child → Child → Prop) (w : World) (me : Owner) :
    Prop extends AllowsWork R w where
  execFailure : Every ok R (execFailure w me)

/-- A relation that also allows the records of what `EvalExprs` evaluates. -/
structure AllowsEvaluation (source : CodeSource) (ok R : Answer → Child → Child → Prop)
    (w : World) (me : Owner) : Prop extends AllowsCode ok R w me where
  evaluated : ∀ {ω : Answer} {s : Child} (env : EnvId) (expr : RExpr), R ω s
    { s.written ω with
      evaluated := Function.update s.evaluated env (s.evaluated env ++ [(source, expr)]) }
  failed : source = .file → ∀ {ω : Answer} {s : Child} (env : EnvId), R ω s
    { s.written ω with failed := Function.update s.failed env true }

/-- A relation that also allows changes of the caches. -/
structure AllowsHandler (ok R : Answer → Child → Child → Prop) (w : World) (me : Owner) :
    Prop extends AllowsCode ok R w me where
  caches : ∀ {ω s s'}, CacheStep ω s s' → R ω s s'

/-- A relation that allows every step between setting the request up and the end of
tearing it down. -/
structure AllowsRequest (R : Answer → Child → Child → Prop) (w : World) (me : Owner) :
    Prop extends AllowsTearDown R w me where
  caches : ∀ {ω s s'}, CacheStep ω s s' → R ω s s'
  writer : ∀ {ω s s'}, WriterStep ω s s' → R ω s s'

section AllowsWork

variable {ok R : Answer → Child → Child → Prop} {w : World} {me : Owner}

theorem every_atomic {α : Type} {act : Answer → Child → Option (α × Child)}
    (keeps : ∀ ω s value s', act ω (s.written ω) = some (value, s') → R ω s s') :
    Every ok R (atomic act) :=
  Every.atomic fun ω s value s' acted _ => keeps ω s value s' acted

theorem every_modify {change : Child → Child}
    (keeps : ∀ ω s, R ω s (change (s.written ω))) : Every ok R (modify change) := by
  apply every_atomic
  intro ω s value s' acted
  cases acted
  exact keeps ω s

theorem every_exit {α : Type} : Every ok R (exit : Code α) := by
  apply every_atomic
  intro ω s value s' acted
  cases acted

theorem readNull_every {α : Type} {use : NullUse}
    (uses : ∀ ω (s : Child), R ω s { s.written ω with nullUses := use :: s.nullUses }) :
    Every ok R (readNull use : Code α) :=
  (every_modify uses).bind fun _ => every_exit

theorem read_every (allows : AllowsWork R w) {α : Type} (value : Answer → Child → α) :
    Every ok R (read value) := by
  apply every_atomic
  intro ω s value s' acted
  cases acted
  exact allows.work .read

theorem perform_every (allows : AllowsWork R w) {op : SessionOp} (isWork : op.isWork = true) :
    Every ok R (perform w op) := by
  apply every_atomic
  intro ω s value s' acted
  split at acted
  next value' session performed =>
    cases acted
    exact allows.work (.session isWork performed)
  next => cases acted

/-- A list of errors is printed, if each of them may be. -/
theorem printErrors_each
    (prints : ∀ error, Every ok R (perform w (.call (.writeConsole error true))))
    (errors : List Bytes) : Every ok R (printErrors w errors) := by
  induction errors with
  | nil => trivial
  | cons error errors ih => exact (prints error).bind fun _ => ih

theorem printParseErrors_every (allows : AllowsWork R w) : Every ok R (printParseErrors w) :=
  (read_every allows _).bind fun errors =>
    printErrors_each (fun _ => perform_every allows rfl) errors

theorem clearPushBack_every (allows : AllowsWork R w) : Every ok R (clearPushBack w) :=
  (read_every allows _).bind fun errors =>
    printErrors_each (fun _ => perform_every allows rfl) errors

theorem aprFilepathSet_every (allows : AllowsWork R w) (path : Option Bytes) :
    Every ok R (aprFilepathSet path) := by
  apply every_atomic
  intro ω s value s' acted
  split at acted
  next dir =>
    split at acted
    next =>
      cases acted
      exact allows.work (.directory _)
    next =>
      cases acted
      exact allows.work .read
  next =>
    cases acted
    exact allows.work .read

theorem restoreDirectory_every (allows : AllowsTearDown R w me) :
    Every ok R (restoreDirectory me) := by
  apply every_atomic
  intro ω s value s' acted
  cases acted
  exact allows.tear .restored

theorem cleaning_every (allows : AllowsTearDown R w me) {op : SessionOp}
    (isCleaning : op.isCleaning = true) : Every ok R (perform w op) := by
  apply every_atomic
  intro ω s value s' acted
  split at acted
  next value' session performed =>
    cases acted
    exact allows.tear (.cleaned isCleaning performed)
  next => cases acted

theorem clearRequest_every (allows : AllowsTearDown R w me) :
    Every ok R (clearRequest w me) :=
  every_modify fun _ _ => allows.tear .cleared

theorem unlock_every (allows : AllowsTearDown R w me) : Every ok R (unlock me) := by
  apply every_modify
  intro ω s
  have step : R ω s _ := allows.tear .unlocked
  simp only [Child.written] at step ⊢
  cases held : s.mutex with
  | none => simpa [held] using step
  | some holder => simpa [held] using step

theorem tearDownRequest_every (allows : AllowsTearDown R w me) (flush : Bool) :
    Every ok R (tearDownRequest w me flush) :=
  (restoreDirectory_every allows).bind fun _ =>
    (clearPushBack_every allows.toAllowsWork).bind fun _ =>
      (cleaning_every allows rfl).bind fun _ =>
        (cleaning_every allows rfl).bind fun _ =>
          (cleaning_every allows rfl).bind fun _ =>
            (clearRequest_every allows).bind fun _ => unlock_every allows

theorem rApacheResponseError_every (allows : AllowsTearDown R w me) (msg : Option Bytes) :
    Every ok R (rApacheResponseError w me msg) := by
  cases msg with
  | none => exact (tearDownRequest_every allows false).bind fun _ => trivial
  | some msg =>
      exact (perform_every allows.toAllowsWork rfl).bind fun _ =>
        (tearDownRequest_every allows false).bind fun _ => trivial

/-- A relation that allows tearing down allows a failed `EXEC`. -/
theorem AllowsTearDown.code (allows : AllowsTearDown R w me) : AllowsCode ok R w me where
  work := allows.work
  execFailure := (every_modify fun _ _ => allows.tear .execFailed).bind fun _ =>
    rApacheResponseError_every allows none

end AllowsWork

section AllowsCode

variable {ok R : Answer → Child → Child → Prop} {w : World} {me : Owner}
  (allows : AllowsCode ok R w me)

include allows

/-- `RApacheInfo`, if every `EXEC` evaluates such code. -/
theorem rApacheInfoItems_every {exec : Nat → Code (Option RResult)}
    (every : ∀ code, Every ok R (exec code)) (texts codes : Nat) (items : List InfoItem) :
    Every ok R (rApacheInfoItems w me exec texts codes items) := by
  induction items generalizing texts codes with
  | nil => trivial
  | cons item items ih =>
      cases item with
      | puts => exact (perform_every allows.toAllowsWork rfl).bind fun _ => ih _ _
      | exec =>
          refine (every codes).bind fun value => ?_
          cases value with
          | some value => exact ih _ _
          | none => exact allows.execFailure

theorem rApacheInfo_every {exec : Nat → Code (Option RResult)}
    (every : ∀ code, Every ok R (exec code)) : Every ok R (rApacheInfo w me exec) :=
  (perform_every allows.toAllowsWork rfl).bind fun _ => rApacheInfoItems_every allows every _ _ _

/-- All R code takes only steps that are allowed; the induction is on its behaviour. -/
theorem runCode_every (behaviour : RBehaviour) : Every ok R (runCode w me behaviour) := by
  induction behaviour with
  | finish value => trivial
  | call call next ih => exact (perform_every allows.toAllowsWork rfl).bind fun value => ih value
  | setwd dir next ih =>
      exact (aprFilepathSet_every allows.toAllowsWork _).bind fun changed => ih changed
  | rapacheInfo execs next execsIh nextIh =>
      refine (read_every allows.toAllowsWork _).bind fun present => ?_
      cases present with
      | true => exact (rApacheInfo_every allows execsIh).bind fun _ => nextIh
      | false => exact nextIh

theorem tryEval_every : Every ok R (tryEval w me) :=
  (read_every allows.toAllowsWork _).bind fun behaviour => runCode_every allows behaviour

theorem printTraceback_every
    (writer : ∀ {ω s s'}, WriterStep ω s s' → R ω s s') :
    Every ok R (printTraceback w me) := by
  have set (target : ConsoleWriter) : Every ok R (perform w (.setWriter target)) := by
    apply every_atomic
    intro ω s value s' acted
    cases acted
    exact writer (.set target)
  exact (set _).bind fun _ => (tryEval_every allows).bind fun _ => (set _).bind fun _ => trivial

theorem aprStat_every (file : Bytes) : Every ok R (aprStat file) := read_every allows.toAllowsWork _

theorem parseFile_every (file : Bytes) : Every ok R (parseFile w me file) := by
  unfold parseFile
  split
  next =>
    exact (printParseErrors_every allows.toAllowsWork).bind fun _ =>
      read_every allows.toAllowsWork _
  next =>
    refine (tryEval_every allows).bind fun value => ?_
    cases value with
    | some value => exact read_every allows.toAllowsWork _
    | none => exact read_every allows.toAllowsWork _

theorem myfindFun_every (env : Option EnvId) : Every ok R (myfindFun w me env) := by
  cases env with
  | none => trivial
  | some env => exact (tryEval_every allows).bind fun _ => read_every allows.toAllowsWork _

theorem handlerText_every (h : HandlerEntry) (env : Option EnvId) :
    Every ok R (handlerText w me h env) := by
  unfold handlerText
  split
  next =>
    split
    next =>
      refine (myfindFun_every allows env).bind fun found => ?_
      cases found with
      | true => trivial
      | false => exact (perform_every allows.toAllowsWork rfl).bind fun _ => trivial
    next => trivial
  next => trivial

/-- Parsing the call with the request's file, if setting the entry's expression is allowed, and
the use of a `NULL` pointer where a value is missing. -/
theorem prepareScript_every (h : HandlerEntry) (r : RequestRec) (env : Option EnvId)
    (builds : ∀ expr, Every ok R (modifyHandler h.key fun entry => { entry with expr }))
    (uses : h.directive.function = none ∨ r.filename = none ∨ env = none →
      ∀ use ω (s : Child), R ω s { s.written ω with nullUses := use :: s.nullUses }) :
    Every ok R (prepareScript w h r env) := by
  unfold prepareScript
  split
  next =>
    exact (printParseErrors_every allows.toAllowsWork).bind fun _ =>
      (builds _).bind fun _ =>
        (read_every allows.toAllowsWork _).bind fun _ =>
          (aprFilepathSet_every allows.toAllowsWork _).bind fun _ => trivial
  next =>
    exact (printParseErrors_every allows.toAllowsWork).bind fun _ =>
      (builds _).bind fun _ => readNull_every (uses (.inr (.inr rfl)) _)
  next _ noFilename => exact readNull_every (uses (.inr (.inl noFilename)) _)
  next noFunction => exact readNull_every (uses (.inl noFunction) _)

theorem prepareHandlerExpr_every (h : HandlerEntry) (r : RequestRec)
    (type : RApacheHandlerType) (env : Option EnvId)
    (builds : ∀ expr, Every ok R (modifyHandler h.key fun entry => { entry with expr }))
    (uses : type = .script → h.directive.function = none ∨ r.filename = none ∨ env = none →
      ∀ use ω (s : Child), R ω s { s.written ω with nullUses := use :: s.nullUses }) :
    Every ok R (prepareHandlerExpr w me h r type env) := by
  -- what comes after the script is what the other types do
  have rest {other : RApacheHandlerType} (noScript : other ≠ .script) :
      Every ok R (prepareHandlerExpr w me h r other env) := by
    simp only [prepareHandlerExpr, noScript, if_false]
    refine (read_every allows.toAllowsWork _).bind fun present => ?_
    cases present with
    | true => trivial
    | false =>
        refine (handlerText_every allows h env).bind fun text => ?_
        cases text with
        | none => trivial
        | some text =>
            exact (printParseErrors_every allows.toAllowsWork).bind fun _ =>
              (builds _).bind fun _ => trivial
  by_cases isScript : type = .script
  · rw [isScript]
    exact (prepareScript_every allows h r env builds (uses isScript)).bind fun _ =>
      @rest .handler (by decide)
  · exact rest isScript

/-- `PrepareFileExprs`, if the record may be found or made, and changed. -/
theorem AllowsCode.prepareFileExprs {h : HandlerEntry} {file : Bytes}
    (records : Every ok R (fileRecord h file))
    (changes : ∀ key change, Every ok R (modifyParsedFile key change)) :
    Every ok R (Code.prepareFileExprs w me h file) := by
  refine (aprStat_every allows file).bind fun finfo => ?_
  cases finfo with
  | none => exact (perform_every allows.toAllowsWork rfl).bind fun _ => trivial
  | some finfo =>
      refine records.bind fun key => ?_
      refine (read_every allows.toAllowsWork _).bind fun older => ?_
      cases older with
      | false => trivial
      | true =>
          refine (parseFile_every allows file).bind fun parsed => ?_
          rcases parsed with ⟨exprs, evalError⟩
          refine (changes key _).bind fun _ => ?_
          cases evalError with
          | true => trivial
          | false => exact (changes key _).bind fun _ => trivial

end AllowsCode

section AllowsEvaluation

variable {source : CodeSource} {ok R : Answer → Child → Child → Prop} {w : World} {me : Owner}
  (allows : AllowsEvaluation source ok R w me)

include allows

theorem evalExpr_every (expr : RExpr) (env : Option EnvId)
    (uses : env = none → ∀ use ω (s : Child), R ω s
      { s.written ω with nullUses := use :: s.nullUses }) :
    Every ok R (evalExpr w me source expr env) := by
  cases env with
  | none =>
      exact (every_modify (uses rfl _)).bind fun _ => tryEval_every allows.toAllowsCode
  | some env =>
      refine (tryEval_every allows.toAllowsCode).bind fun value => ?_
      cases value with
      | some value =>
          exact (every_modify fun _ _ => allows.evaluated _ _).bind fun _ => trivial
      | none =>
          cases source with
          | file => exact (every_modify fun _ _ => allows.failed rfl _).bind fun _ => trivial
          | handler => trivial

theorem evalLoop_every (env : Option EnvId) (lastval : RResult) (exprs : List RExpr)
    (uses : env = none → ∀ use ω (s : Child), R ω s
      { s.written ω with nullUses := use :: s.nullUses }) :
    Every ok R (evalLoop w me source env lastval exprs) := by
  induction exprs generalizing lastval with
  | nil => trivial
  | cons expr exprs ih =>
      refine (evalExpr_every allows expr env uses).bind fun value => ?_
      cases value with
      | some value => exact ih value
      | none => trivial

/-- `EvalExprs`, if the use of a `NULL` pointer is allowed where a value is missing. -/
theorem evalExprs_every (exprs : Option RExprs) (env : Option EnvId) (evalError : Bool)
    (uses : exprs = none ∨ env = none → ∀ use ω (s : Child), R ω s
      { s.written ω with nullUses := use :: s.nullUses }) :
    Every ok R (evalExprs w me source exprs env evalError) := by
  unfold evalExprs
  split
  next => exact readNull_every (uses (.inl rfl) _)
  next => trivial
  next => trivial
  next => trivial
  next exprs _ _ _ =>
    refine (evalLoop_every allows env .other exprs.elements fun noEnv => uses (.inr noEnv)).bind
      fun value => ?_
    cases value with
    | some value => trivial
    | none => trivial

end AllowsEvaluation

section AllowsHandler

variable {ok R : Answer → Child → Child → Prop} {w : World} {me : Owner}
  (allows : AllowsHandler ok R w me)

include allows

theorem modifyParsedFile_every (key : Bytes) (change : RApacheParsedFile → RApacheParsedFile) :
    Every ok R (modifyParsedFile key change) :=
  every_modify fun _ _ => allows.caches (.change _ _ _ _ _ _ _)

theorem modifyHandler_every (key : Bytes) (change : RApacheHandler → RApacheHandler) :
    Every ok R (modifyHandler key change) :=
  every_modify fun _ _ => allows.caches (.change _ _ _ _ _ _ _)

theorem AllowsHandler.evaluation (source : CodeSource) : AllowsEvaluation source ok R w me where
  toAllowsCode := allows.toAllowsCode
  evaluated _ _ := allows.caches (.change _ _ _ _ _ _ _)
  failed _ _ _ _ := allows.caches (.change _ _ _ _ _ _ _)

theorem fileRecord_every (h : HandlerEntry) (file : Bytes) :
    Every ok R (fileRecord h file) := by
  apply every_atomic
  intro ω s value s' acted
  split at acted
  next => cases acted
  next =>
    split at acted
    next =>
      cases acted
      exact allows.work .read
    next =>
      cases acted
      exact allows.caches (.change _ _ _ _ _ _ _)

theorem prepareFileExprs_every (h : HandlerEntry) (file : Bytes) :
    Every ok R (prepareFileExprs w me h file) :=
  allows.toAllowsCode.prepareFileExprs (fileRecord_every allows h file)
    (modifyParsedFile_every allows)

theorem AllowsHandler.prepareHandlerExpr (h : HandlerEntry) (r : RequestRec)
    (type : RApacheHandlerType) (env : Option EnvId) :
    Every ok R (Code.prepareHandlerExpr w me h r type env) :=
  prepareHandlerExpr_every allows.toAllowsCode h r type env
    (fun _ => modifyHandler_every allows h.key _) fun _ _ _ _ _ => allows.caches (.nullUse _)

theorem evalFile_every (r : RequestRec) (file key : Bytes) (versions : Nat) :
    Every ok R (evalFile w me r file key versions) := by
  refine (every_modify fun _ _ => allows.caches (.change _ _ _ _ _ _ _)).bind fun _ => ?_
  refine (read_every allows.toAllowsWork _).bind fun parsedFile => ?_
  refine (evalExprs_every (allows.evaluation .file) _ _ _
    fun _ _ _ _ => allows.caches (.nullUse _)).bind fun value => ?_
  rcases value with ⟨ret, evalError⟩
  cases evalError with
  | true => trivial
  | false =>
      exact (every_modify fun _ _ => allows.caches (.change _ _ _ _ _ _ _)).bind
        fun _ => trivial

theorem evalHandler_every (h : HandlerEntry) (r : RequestRec) (evalError : Bool) :
    Every ok R (evalHandler w me h r evalError) := by
  refine (every_atomic ?_).bind fun entry => evalExprs_every (allows.evaluation .handler) _ _ _
    fun _ _ _ _ => allows.caches (.nullUse _)
  intro ω s value s' acted
  cases acted
  exact allows.caches (.change _ _ _ _ _ _ _)

theorem getHandlerFromRequest_every (r : RequestRec) :
    Every ok R (getHandlerFromRequest w r) := by
  have errors (msg : Bytes) : Every ok R (do
      let _ ← perform w (.contentType (bytes "text/html"))
      let _ ← perform w (.error msg)
      pure none : Code (Option HandlerEntry)) :=
    (perform_every allows.toAllowsWork rfl).bind fun _ =>
      (perform_every allows.toAllowsWork rfl).bind fun _ => trivial
  unfold getHandlerFromRequest
  split
  next =>
    refine (every_modify fun _ _ => allows.caches (.change _ _ _ _ _ _ _)).bind fun _ => ?_
    split
    next => exact errors _
    next => exact (modifyHandler_every allows _ _).bind fun _ => trivial
  next => exact errors _

end AllowsHandler

section AllowsRequest

variable {ok R : Answer → Child → Child → Prop} {w : World} {me : Owner}
  (allows : AllowsRequest R w me)

include allows

theorem AllowsRequest.handler : AllowsHandler ok R w me where
  toAllowsCode := allows.toAllowsTearDown.code
  caches := allows.caches

theorem respondError_every {α : Type} (msg : Option Bytes) (answer : Int → α) :
    Every ok R (answer <$> rApacheResponseError w me msg) :=
  (rApacheResponseError_every allows.toAllowsTearDown msg).bind fun _ => trivial

theorem prepareEnvironment_every (h : HandlerEntry) (r : RequestRec) :
    Every ok R (prepareEnvironment w me h r) := by
  unfold prepareEnvironment
  split
  next =>
    exact (every_modify fun _ _ => allows.caches (.change _ _ _ _ _ _ _)).bind fun _ => trivial
  next file _ =>
    have setEnvir (key : Bytes) : Every ok R (prepareEnvironment.setEnvir h key) :=
      every_modify fun _ _ => allows.caches (.change _ _ _ _ _ _ _)
    refine (aprFilepathSet_every allows.toAllowsWork _).bind fun changed => ?_
    cases changed with
    | false => exact respondError_every allows _ _
    | true =>
        refine (prepareFileExprs_every (AllowsRequest.handler allows) h file).bind
          fun prepared => ?_
        cases prepared with
        | none => exact respondError_every allows _ _
        | some prepared =>
            rcases prepared with ⟨key, fileParsed, versions⟩
            simp only
            split
            next =>
              refine (evalFile_every (AllowsRequest.handler allows) r file key versions).bind
                fun value => ?_
              rcases value with ⟨ret, evalError⟩
              cases evalError with
              | true =>
                  exact (printTraceback_every (AllowsRequest.handler allows).toAllowsCode
                    allows.writer).bind fun _ => respondError_every allows _ _
              | false => exact (setEnvir key).bind fun _ => trivial
            next => exact (setEnvir key).bind fun _ => trivial

theorem respond_every (h : HandlerEntry) (ret : RResult) :
    Every ok R (respond w me h ret) := by
  cases ret with
  | integer result =>
      exact (tearDownRequest_every allows.toAllowsTearDown true).bind fun _ => trivial
  | tryError =>
      exact (rApacheResponseError_every allows.toAllowsTearDown _).bind fun _ => trivial
  | other => exact (tearDownRequest_every allows.toAllowsTearDown true).bind fun _ => trivial

/-- All steps behind `RefreshRApacheEnv` are allowed. -/
theorem runHandler_every (h : HandlerEntry) (r : RequestRec) (type : RApacheHandlerType) :
    Every ok R (runHandler w me h r type) := by
  refine (prepareEnvironment_every allows h r).bind fun prepared => ?_
  cases prepared with
  | error result => trivial
  | ok value =>
      rcases value with ⟨ret, evalError⟩
      simp only
      split
      next =>
        refine (read_every allows.toAllowsWork _).bind fun envir => ?_
        refine ((AllowsRequest.handler allows).prepareHandlerExpr h r type envir).bind
          fun ready => ?_
        cases ready with
        | false => exact respondError_every allows _ _
        | true =>
            refine (evalHandler_every (AllowsRequest.handler allows) h r evalError).bind
              fun value => ?_
            rcases value with ⟨ret, evalError⟩
            cases evalError with
            | true =>
                exact (printTraceback_every (AllowsRequest.handler allows).toAllowsCode
                  allows.writer).bind fun _ => respondError_every allows _ _
            | false => exact respond_every allows h ret
      next => exact respond_every allows h ret

theorem runInfo_every : Every ok R (runInfo w me) :=
  (rApacheInfo_every (AllowsRequest.handler allows).toAllowsCode fun _ =>
    tryEval_every (AllowsRequest.handler allows).toAllowsCode).bind fun _ =>
      (tearDownRequest_every allows.toAllowsTearDown true).bind fun _ => trivial

/-- The steps of `SetUpRequest` behind the lock are allowed, if setting up the globals
is. -/
theorem setUpHandler_every (r : RequestRec) (type : RApacheHandlerType)
    (createOut : Every ok R createOut) (setHandler : ∀ h, Every ok R (setHandler h)) :
    Every ok R (setUpHandler w me r type) := by
  refine createOut.bind fun created => ?_
  cases created with
  | false =>
      exact (perform_every allows.toAllowsWork rfl).bind fun _ =>
        (tearDownRequest_every allows.toAllowsTearDown false).bind fun _ => trivial
  | true =>
      simp only [if_true]
      split
      next => trivial
      next =>
        refine (getHandlerFromRequest_every (AllowsRequest.handler allows) r).bind
          fun found => ?_
        refine (setHandler found).bind fun _ => ?_
        cases found with
        | some h => trivial
        | none => exact (tearDownRequest_every allows.toAllowsTearDown false).bind fun _ => trivial

end AllowsRequest

end Code

end RApache
