import RApache.Readers
import RApache.Workers

/-!
# Nothing is left of a request

Whatever happens in a request, the globals are idle again when the handler returns.  Each
handler's code therefore starts from the same globals as in a fresh child, and the values
it gets depend on its own request and its own calls only.
-/

namespace RApache

open Stepwise
open Stepwise.Program (Every Safe Reaches)

namespace Session

/-- No request is in progress. -/
structure Idle (s : Session) : Prop where
  request : s.request = {}
  bbIn : s.bbIn = none
  bbOut : s.bbOut = none
  bbErr : s.bbErr = none

/-- What the code of a handler begins with: the globals of a fresh child that serves this
request. -/
def begin (r : RequestRec) (directive : RApacheDirective) : Session :=
  (setUp {} r (some directive)).resetCgiVars

theorem setUp_resetCgiVars {left : Session} (writer : left.writer = .writeConsoleEx)
    (r : RequestRec) (directive : RApacheDirective) :
    (setUp left r (some directive)).resetCgiVars = begin r directive := by
  simp [setUp, resetCgiVars, begin, writer]

/-- Several steps of the module, with their values, if all of them return. -/
def performAll (fuel : Nat) : (ops : List SessionOp) → (s : Session) →
    Option (List RValue × Session)
  | [], s => some ([], s)
  | op :: ops, s =>
      match s.perform fuel op with
      | (.returned value, s) =>
          (performAll fuel ops s).map fun (values, s) => (value :: values, s)
      | _ => none

theorem performAll_snoc {fuel : Nat} {ops : List SessionOp} {op : SessionOp}
    {s s' s'' : Session} {values : List RValue} {value : RValue}
    (before : s.performAll fuel ops = some (values, s'))
    (performed : s'.perform fuel op = (.returned value, s'')) :
    s.performAll fuel (ops ++ [op]) = some (values ++ [value], s'') := by
  induction ops generalizing s values with
  | nil =>
      cases before
      simp [performAll, performed]
  | cons first ops ih =>
      simp only [performAll, List.cons_append] at before ⊢
      split at before
      next value' next first' =>
        simp only [Option.map_eq_some_iff, Prod.exists, Prod.mk.injEq] at before
        rcases before with ⟨values', after, later, same, sameAfter⟩
        rw [sameAfter] at later
        simp [ih later, ← same]
      next => simp at before

end Session

/-! ## The code of a handler -/

/-- The values that the handler's code got are those that its calls give from the
beginning of its request. -/
def TraceOk (w : World) (s : Child) : Prop :=
  ∀ trace, s.trace = some trace →
    trace.r.perDirConfig = some trace.directive ∧
      (Session.begin trace.r trace.directive).performAll w.fuel (trace.steps.map Prod.fst) =
        some (trace.steps.map Prod.snd, s.session)

/-- The last thing that happened to the lock or to `MR_Request` is not that a handler
returned. -/
def Busy (s : Child) : Prop :=
  ∃ event events, s.lockEvents = event :: events ∧ ∀ who, event ≠ .returned who

/-- A step that records a step of the module keeps the trace right. -/
theorem TraceOk.session {w : World} {s s' : Child} (op : SessionOp) {value : RValue}
    (good : TraceOk w s)
    (performed : s.session.perform w.fuel op = (.returned value, s'.session))
    (noted : s'.trace = s.trace.map fun trace =>
      { trace with steps := trace.steps ++ [(op, value)] }) : TraceOk w s' := by
  intro trace isTrace
  rw [noted] at isTrace
  rcases Option.map_eq_some_iff.mp isTrace with ⟨before, isBefore, same⟩
  rcases good before isBefore with ⟨config, replayed⟩
  rw [← same]
  refine ⟨config, ?_⟩
  simpa using Session.performAll_snoc replayed performed

/-- A step that changes neither the globals nor the trace keeps the trace right. -/
theorem TraceOk.of_eq {w : World} {s s' : Child} (good : TraceOk w s)
    (session : s'.session = s.session) (trace : s'.trace = s.trace) : TraceOk w s' := by
  intro found isTrace
  rw [trace] at isTrace
  rw [session]
  exact good found isTrace

theorem traceOk_none {w : World} {s : Child} (none : s.trace = none) : TraceOk w s := by
  intro trace isTrace
  simp [none] at isTrace

/-- What every step of a request keeps. -/
structure KeepsTrace (w : World) (s s' : Child) : Prop where
  trace : TraceOk w s → TraceOk w s'
  noTrace : s.trace = none → s'.trace = none
  busy : Busy s → Busy s'

/-- What every step of `SetUpRequest` keeps. -/
def KeepsNoTrace (_ : Answer) (s s' : Child) : Prop :=
  s.trace = none ∧ Busy s → s'.trace = none ∧ Busy s'

theorem allowsRequest_keepsTrace (w : World) (me : Owner) :
    Code.AllowsRequest (fun _ => KeepsTrace w) w me where
  work := by
    intro ω s s' step
    cases step with
    | read => exact ⟨fun good => good.of_eq rfl rfl, id, id⟩
    | directory cwd => exact ⟨fun good => good.of_eq rfl rfl, id, id⟩
    | session _ performed =>
        exact ⟨fun good => good.session _ performed rfl, fun none => by simp [none], id⟩
  tear := by
    intro ω s s' step
    cases step with
    | execFailed =>
        exact ⟨fun good => good.of_eq rfl rfl, id, fun _ => ⟨_, _, rfl, by simp⟩⟩
    | restored => exact ⟨fun good => good.of_eq rfl rfl, id, fun _ => ⟨_, _, rfl, by simp⟩⟩
    | cleaned _ performed =>
        exact ⟨fun good => good.session _ performed rfl, fun none => by simp [none], id⟩
    | cleared =>
        exact ⟨fun good => good.session .clear rfl rfl, fun none => by simp [none],
          fun _ => ⟨_, _, rfl, by simp⟩⟩
    | unlocked => exact ⟨fun good => good.of_eq rfl rfl, id, fun _ => ⟨_, _, rfl, by simp⟩⟩
  caches := by
    intro ω s s' step
    cases step with
    | change => exact ⟨fun good => good.of_eq rfl rfl, id, id⟩
    | nullUse => exact ⟨fun good => good.of_eq rfl rfl, id, id⟩
  writer := by
    intro ω s s' step
    cases step with
    | set writer =>
        exact ⟨fun good => good.session (.setWriter writer) rfl rfl,
          fun none => by simp [none], id⟩

theorem allowsRequest_keepsNoTrace (w : World) (me : Owner) :
    Code.AllowsRequest KeepsNoTrace w me where
  work := fun step kept =>
    have keeps := (allowsRequest_keepsTrace w me).work step
    ⟨keeps.noTrace kept.1, keeps.busy kept.2⟩
  tear := fun step kept =>
    have keeps := (allowsRequest_keepsTrace w me).tear step
    ⟨keeps.noTrace kept.1, keeps.busy kept.2⟩
  caches := fun step kept =>
    have keeps := (allowsRequest_keepsTrace w me).caches step
    ⟨keeps.noTrace kept.1, keeps.busy kept.2⟩
  writer := fun step kept =>
    have keeps := (allowsRequest_keepsTrace w me).writer step
    ⟨keeps.noTrace kept.1, keeps.busy kept.2⟩

/-- The console writer stays as it is. -/
def KeepsWriter (_ : Answer) (s s' : Child) : Prop := s'.session.writer = s.session.writer

theorem allowsTearDown_keepsWriter (w : World) (me : Owner) :
    Code.AllowsTearDown KeepsWriter w me where
  work := by
    intro ω s s' step
    cases step with
    | read => rfl
    | directory cwd => rfl
    | session isWork performed =>
        have kept := (Session.perform_keeps w.fuel _ s.session).2
          (SessionOp.isWork_notWriter isWork)
        rw [performed] at kept
        exact kept
  tear := by
    intro ω s s' step
    cases step with
    | execFailed => rfl
    | restored => rfl
    | cleaned isCleaning performed =>
        have kept := (Session.perform_keeps w.fuel _ s.session).2
          (SessionOp.isCleaning_notWriter isCleaning)
        rw [performed] at kept
        exact kept
    | cleared => rfl
    | unlocked => rfl

theorem allowsHandler_keepsWriter (ok : Answer → Child → Child → Prop) (w : World)
    (me : Owner) : Code.AllowsHandler ok KeepsWriter w me where
  toAllowsCode := (allowsTearDown_keepsWriter w me).code
  caches := by
    intro ω s s' step
    cases step with
    | change => rfl
    | nullUse => rfl

/-! ## What a handler leaves -/

/-- Every result of a run of the code from `s` satisfies `Q`. -/
abbrev Ends {α : Type} (p : Code α) (Q : α → Child → Prop) (s : Child) : Prop :=
  Safe always (fun _ => True) p Q s

/-- The console writer is that of requests. -/
def Writes (s : Child) : Prop := s.session.writer = .writeConsoleEx

/-- No request is in progress, and the console writer is that of requests. -/
structure Quiet (s : Child) : Prop where
  idle : s.session.Idle
  writer : Writes s

section Ends

variable {w : World} {me : Owner} {s : Child}

theorem ends_atomic {α : Type} {act : Answer → Child → Option (α × Child)}
    {Q : α → Child → Prop}
    (acts : ∀ ω value s', act ω (s.written ω) = some (value, s') → Q value s') :
    Ends (Code.atomic act) Q s :=
  Safe.atomic trivial fun ω value s' acted _ => ⟨trivial, acts ω value s' acted⟩

theorem ends_modify {change : Child → Child} {Q : Unit → Child → Prop}
    (post : ∀ ω, Q () (change (s.written ω))) : Ends (Code.modify change) Q s := by
  apply ends_atomic
  intro ω value s' acted
  cases acted
  exact post ω

theorem ends_perform {op : SessionOp} {Q : RValue → Child → Prop}
    (performed : ∀ value session, s.session.perform w.fuel op = (.returned value, session) →
      ∀ s' : Child, s'.session = session → Q value s') :
    Ends (Code.perform w op) Q s := by
  apply ends_atomic
  intro ω value s' acted
  split at acted
  next value' session returned =>
    cases acted
    exact performed value session returned _ rfl
  next => cases acted

/-- Code that keeps the console writer. -/
theorem ends_writer {α : Type} {p : Code α} (every : Every always KeepsWriter p)
    (writes : Writes s) : Ends p (fun _ => Writes) s :=
  every.safe (fun _ _ _ writes _ kept => kept.trans writes) (fun _ _ => trivial) writes

/-- `TearDownRequest` leaves nothing of the request. -/
theorem tearDownRequest_ends (flush : Bool) (writes : Writes s) :
    Ends (Code.tearDownRequest w me flush) (fun _ => Quiet) s := by
  have restored : Ends (Code.restoreDirectory me) (fun _ s' => Writes s') s := by
    apply ends_atomic
    intro ω value s' acted
    cases acted
    exact writes
  refine restored.bind fun _ s₀ writes₀ _ => ?_
  have cleared : Ends (Code.clearPushBack w) (fun _ => Writes) s₀ :=
    ends_writer (Code.clearPushBack_every (allowsTearDown_keepsWriter w me).toAllowsWork) writes₀
  refine cleared.bind fun _ s₁ writes₁ _ => ?_
  have read : Ends (Code.perform w .cleanReading)
      (fun _ s' => Writes s' ∧ s'.session.bbIn = none) s₁ := by
    apply ends_perform
    intro value session performed s' same
    cases performed
    exact ⟨by rw [Writes, same]; exact writes₁, by rw [same]⟩
  refine read.bind fun _ s₂ kept₂ _ => ?_
  have written : Ends (Code.perform w (.cleanWriting flush))
      (fun _ s' => Writes s' ∧ s'.session.bbIn = none ∧ s'.session.bbOut = none) s₂ := by
    apply ends_perform
    intro value session performed s' same
    simp only [Session.perform, Session.cleanWriting] at performed
    have isSession : session = { s₂.session with bbOut := none } := by
      split at performed
      next => cases performed; rfl
      next => cases performed; rfl
      next =>
        split at performed
        next => cases performed; rfl
        next =>
          split at performed
          next => cases performed; rfl
          next => cases performed
    rw [Writes, same, isSession]
    exact ⟨kept₂.1, kept₂.2, rfl⟩
  refine written.bind fun _ s₃ kept₃ _ => ?_
  have logged : Ends (Code.perform w .logErrors)
      (fun _ s' => Writes s' ∧ s'.session.bbIn = none ∧ s'.session.bbOut = none ∧
        s'.session.bbErr = none) s₃ := by
    apply ends_perform
    intro value session performed s' same
    simp only [Session.perform, Session.logErrors] at performed
    rw [Writes, same]
    split at performed
    next missing =>
      cases performed
      exact ⟨kept₃.1, kept₃.2.1, kept₃.2.2, missing⟩
    next =>
      split at performed
      next =>
        cases performed
        exact ⟨kept₃.1, kept₃.2.1, kept₃.2.2, rfl⟩
      next => cases performed
  refine logged.bind fun _ s₄ kept₄ _ => ?_
  have cleared : Ends (Code.clearRequest w me) (fun _ => Quiet) s₄ := by
    apply ends_modify
    intro ω
    exact ⟨⟨rfl, kept₄.2.1, kept₄.2.2.1, kept₄.2.2.2⟩, kept₄.1⟩
  refine cleared.bind fun _ s₅ quiet _ => ?_
  apply ends_modify
  intro ω
  split
  next => exact ⟨quiet.idle, quiet.writer⟩
  next => exact ⟨quiet.idle, quiet.writer⟩

theorem rApacheResponseError_ends (msg : Option Bytes) (writes : Writes s) :
    Ends (Code.rApacheResponseError w me msg) (fun _ => Quiet) s := by
  cases msg with
  | none => exact (tearDownRequest_ends false writes).bind fun _ s' quiet _ => ⟨trivial, quiet⟩
  | some msg =>
      have keeps : Every always KeepsWriter (Code.perform w (.error msg)) :=
        Code.perform_every (allowsTearDown_keepsWriter w me).toAllowsWork rfl
      refine (ends_writer keeps writes).bind fun _ s₁ writes₁ _ => ?_
      exact (tearDownRequest_ends false writes₁).bind fun _ s' quiet _ => ⟨trivial, quiet⟩

theorem ends_any {α : Type} (p : Code α) (s : Child) : Ends p (fun _ _ => True) s := by
  induction p generalizing s with
  | done result => exact ⟨trivial, trivial⟩
  | step act next ih => exact ⟨trivial, fun _ value s' _ _ => ih value s'⟩

/-- `PrintTraceback` sets the console writer back. -/
theorem printTraceback_ends : Ends (Code.printTraceback w me) (fun _ => Writes) s := by
  refine (ends_any _ s).bind fun _ s₁ _ _ => ?_
  refine (ends_any _ s₁).bind fun _ s₂ _ _ => ?_
  have back : Ends (Code.perform w (.setWriter .writeConsoleEx)) (fun _ => Writes) s₂ := by
    apply ends_perform
    intro value session performed s' same
    cases performed
    rw [Writes, same]
  exact back.bind fun _ s₃ writes _ => ⟨trivial, writes⟩

/-- A request that is answered with an error. -/
theorem respondError_ends {α : Type} (msg : Option Bytes) (answer : Int → α)
    (writes : Writes s) :
    Ends (answer <$> Code.rApacheResponseError w me msg) (fun _ => Quiet) s :=
  (rApacheResponseError_ends msg writes).bind fun _ _ quiet _ => ⟨trivial, quiet⟩

/-- What is left once the environment is prepared: nothing if the request has been
answered already. -/
theorem prepareEnvironment_ends (h : HandlerEntry) (r : RequestRec) (writes : Writes s) :
    Ends (Code.prepareEnvironment w me h r)
      (fun prepared s' => match prepared with
        | .error _ => Quiet s'
        | .ok _ => Writes s') s := by
  have allows : Code.AllowsHandler always KeepsWriter w me := allowsHandler_keepsWriter _ w me
  have failed (s' : Child) (writes' : Writes s') :
      Ends (Except.error <$> Code.rApacheResponseError w me none :
          Code (Except Int (RResult × Bool)))
        (fun prepared s' => match prepared with
          | .error _ => Quiet s'
          | .ok _ => Writes s') s' :=
    (rApacheResponseError_ends none writes').bind fun _ _ quiet _ => ⟨trivial, quiet⟩
  unfold Code.prepareEnvironment
  split
  next =>
    have keeps : Every always KeepsWriter (Code.newHandlerEnv h.key) :=
      Code.every_modify fun _ _ => allows.caches (.change _ _ _ _ _ _ _)
    exact (ends_writer keeps writes).bind fun _ s₁ writes₁ _ => ⟨trivial, writes₁⟩
  next file _ =>
    have setEnvir (key : Bytes) :
        Every always KeepsWriter (Code.prepareEnvironment.setEnvir h key) :=
      Code.every_modify fun _ _ => allows.caches (.change _ _ _ _ _ _ _)
    have changes : Every always KeepsWriter (Code.aprFilepathSet h.directive.dirname) :=
      Code.aprFilepathSet_every allows.toAllowsWork _
    refine (ends_writer changes writes).bind fun changed s₁ writes₁ _ => ?_
    cases changed with
    | false => exact failed s₁ writes₁
    | true =>
        refine (ends_writer (Code.prepareFileExprs_every allows h file) writes₁).bind
          fun prepared s₂ writes₂ _ => ?_
        cases prepared with
        | none => exact failed s₂ writes₂
        | some prepared =>
            rcases prepared with ⟨key, fileParsed, versions⟩
            simp only
            split
            next =>
              refine (ends_writer (Code.evalFile_every allows r file key versions)
                writes₂).bind fun value s₃ writes₃ _ => ?_
              rcases value with ⟨ret, evalError⟩
              cases evalError with
              | true => exact printTraceback_ends.bind fun _ s₄ writes₄ _ => failed s₄ writes₄
              | false =>
                  exact (ends_writer (setEnvir key) writes₃).bind
                    fun _ s₄ writes₄ _ => ⟨trivial, writes₄⟩
            next =>
              exact (ends_writer (setEnvir key) writes₂).bind
                fun _ s₃ writes₃ _ => ⟨trivial, writes₃⟩

theorem respond_ends (h : HandlerEntry) (ret : RResult) (writes : Writes s) :
    Ends (Code.respond w me h ret) (fun _ => Quiet) s := by
  cases ret with
  | integer result =>
      exact (tearDownRequest_ends true writes).bind fun _ _ quiet _ => ⟨trivial, quiet⟩
  | tryError =>
      exact (rApacheResponseError_ends _ writes).bind fun _ _ quiet _ => ⟨trivial, quiet⟩
  | other =>
      exact (tearDownRequest_ends true writes).bind fun _ _ quiet _ => ⟨trivial, quiet⟩

/-- Behind `RefreshRApacheEnv` every path tears the request down. -/
theorem runHandler_ends (h : HandlerEntry) (r : RequestRec) (type : RApacheHandlerType)
    (writes : Writes s) : Ends (Code.runHandler w me h r type) (fun _ => Quiet) s := by
  have allows : Code.AllowsHandler always KeepsWriter w me := allowsHandler_keepsWriter _ w me
  refine (prepareEnvironment_ends h r writes).bind fun prepared s₁ left _ => ?_
  cases prepared with
  | error result => exact ⟨trivial, left⟩
  | ok value =>
      rcases value with ⟨ret, evalError⟩
      simp only
      split
      next =>
        have reads : Every always KeepsWriter (Code.read fun _ s =>
            ((s.handlers h.key).getD {}).envir) := Code.read_every allows.toAllowsWork _
        refine (ends_writer reads left).bind fun envir s₂ writes₂ _ => ?_
        refine (ends_writer (allows.prepareHandlerExpr h r type envir) writes₂).bind
          fun ready s₃ writes₃ _ => ?_
        cases ready with
        | false => exact respondError_ends none _ writes₃
        | true =>
            refine (ends_writer (Code.evalHandler_every allows h r evalError) writes₃).bind
              fun value s₄ writes₄ _ => ?_
            rcases value with ⟨ret, evalError⟩
            cases evalError with
            | true =>
                exact printTraceback_ends.bind fun _ s₅ writes₅ _ =>
                  respondError_ends none _ writes₅
            | false => exact respond_ends h ret writes₄
      next => exact respond_ends h ret left

/-- `RApacheInfo` may tear the request down itself; the handler does so again. -/
theorem runInfo_ends (writes : Writes s) :
    Ends (Code.runInfo w me) (fun _ => Quiet) s := by
  have allows : Code.AllowsCode always KeepsWriter w me :=
    (allowsTearDown_keepsWriter w me).code
  have keeps := Code.rApacheInfo_every allows fun _ => Code.tryEval_every allows
  refine (ends_writer keeps writes).bind fun result s₁ writes₁ _ => ?_
  exact (tearDownRequest_ends true writes₁).bind fun _ _ quiet _ => ⟨trivial, quiet⟩

/-! ## Setting the request up -/

/-- What `GetHandlerFromRequest` leaves: if it finds a handler, it has only changed the
caches. -/
theorem getHandlerFromRequest_ends (r : RequestRec) (writes : Writes s) :
    Ends (Code.getHandlerFromRequest w r)
      (fun found s' => Writes s' ∧ ∀ h, found = some h →
        s'.session = s.session ∧ r.perDirConfig = some h.directive) s := by
  have allows := (allowsTearDown_keepsWriter w ⟨0, 0⟩).toAllowsWork
  have errors (s' : Child) (writes' : Writes s') (msg : Bytes) : Ends (do
        let _ ← Code.perform w (.contentType (bytes "text/html"))
        let _ ← Code.perform w (.error msg)
        pure none : Code (Option HandlerEntry))
      (fun found s' => Writes s' ∧ ∀ h, found = some h →
        s'.session = s.session ∧ r.perDirConfig = some h.directive) s' := by
    have keeps (op : SessionOp) (isWork : op.isWork = true) :
        Every always KeepsWriter (Code.perform w op) :=
      Code.perform_every allows isWork
    refine (ends_writer (keeps _ rfl) writes').bind fun _ s₁ writes₁ _ => ?_
    refine (ends_writer (keeps _ rfl) writes₁).bind fun _ s₂ writes₂ _ => ?_
    exact ⟨trivial, writes₂, by simp⟩
  unfold Code.getHandlerFromRequest
  split
  next d key config isKey =>
    have created : Ends (Code.createHandler key) (fun _ s' => s'.session = s.session) s := by
      apply ends_modify
      intro ω
      rfl
    refine created.bind fun _ s₁ same₁ _ => ?_
    have writes₁ : Writes s₁ := by rw [Writes, same₁]; exact writes
    split
    next => exact errors s₁ writes₁ _
    next =>
      have changed : Ends (Code.modifyHandler key fun entry =>
          { entry with directive := some d }) (fun _ s' => s'.session = s₁.session) s₁ := by
        apply ends_modify
        intro ω
        rfl
      refine changed.bind fun _ s₂ same₂ _ => ?_
      have same := same₂.trans same₁
      refine ⟨trivial, by rw [Writes, same]; exact writes, ?_⟩
      intro h isEntry
      cases isEntry
      exact ⟨same, config⟩
  next => exact errors s writes _

/-- What a successful `SetUpRequest` leaves: the handler of the request and the globals
of its beginning, whatever was served before. -/
def SetUpLeaves (r : RequestRec) (found : Option (Option HandlerEntry)) (s : Child) : Prop :=
  match found with
  | none => Quiet s
  | some none => Writes s
  | some (some h) => r.perDirConfig = some h.directive ∧
      ∃ left : Session, left.writer = .writeConsoleEx ∧
        s.session = Session.setUp left r (some h.directive)

theorem setUpHandler_ends (r : RequestRec) (type : RApacheHandlerType) {before : Child}
    (quiet : Quiet before) (set : s.session = before.session.setRequest r) :
    Ends (Code.setUpHandler w me r type) (SetUpLeaves r) s := by
  have idle := quiet.idle
  have created : Ends Code.createOut (fun created s' => Writes s' ∧
      (created = true → s'.session = (before.session.setRequest r).createOut)) s := by
    apply ends_atomic
    intro ω value s' acted
    have kept : (s.written ω).session = before.session.setRequest r := set
    have writes : (s.written ω).session.writer = .writeConsoleEx := by
      rw [kept]
      exact quiet.writer
    split at acted
    next =>
      cases acted
      exact ⟨writes, fun _ => by rw [← kept]⟩
    next =>
      cases acted
      exact ⟨writes, by simp⟩
  refine created.bind fun ready s₁ left _ => ?_
  rcases left with ⟨writes₁, isSession⟩
  have down (s' : Child) (writes' : Writes s') : Ends (do
        Code.tearDownRequest w me false
        pure none : Code (Option (Option HandlerEntry))) (SetUpLeaves r) s' :=
    (tearDownRequest_ends false writes').bind fun _ _ quiet _ => ⟨trivial, quiet⟩
  cases ready with
  | false =>
      have keeps : Every always KeepsWriter
          (Code.perform w (.error (bytes "RApache MR_BBout error!"))) :=
        Code.perform_every (allowsTearDown_keepsWriter w me).toAllowsWork rfl
      exact (ends_writer keeps writes₁).bind fun _ s₂ writes₂ _ => down s₂ writes₂
  | true =>
      simp only [if_true]
      split
      next => exact ⟨trivial, writes₁⟩
      next =>
        refine (getHandlerFromRequest_ends r writes₁).bind fun found s₂ left _ => ?_
        rcases left with ⟨writes₂, isFound⟩
        have assigned : Ends (Code.setHandler found) (fun _ s' =>
            s'.session = s₂.session.setHandler (found.map HandlerEntry.directive)) s₂ := by
          apply ends_modify
          intro ω
          rfl
        refine assigned.bind fun _ s₃ same₃ _ => ?_
        cases found with
        | none =>
            refine down s₃ ?_
            rw [Writes, same₃]
            exact writes₂
        | some h =>
            rcases isFound h rfl with ⟨same₂, config⟩
            refine ⟨trivial, config, before.session, quiet.writer, ?_⟩
            rw [same₃, same₂, isSession rfl]
            simp [Session.setHandler, Session.createOut, Session.setRequest, Session.setUp,
              idle.request, idle.bbErr]

end Ends

/-! ## Runs -/

/-- In every state the values of the handler's code are right, and the globals are idle
unless a request is in progress. -/
structure Isolated (w : World) (s : Child) : Prop where
  trace : TraceOk w s
  idle : ¬ Busy s → s.session.Idle

/-- Between two requests. -/
structure AtRest (w : World) (s : Child) : Prop where
  quiet : Quiet s
  trace : TraceOk w s

theorem AtRest.isolated {w : World} {s : Child} (rest : AtRest w s) : Isolated w s :=
  ⟨rest.trace, fun _ => rest.quiet.idle⟩

section Runs

variable {w : World} {me : Owner} {s : Child}

/-- During a request the trace is right. -/
theorem isolated_of_busy {s : Child} (kept : True ∧ TraceOk w s ∧ Busy s) : Isolated w s :=
  ⟨kept.2.1, fun idle => (idle kept.2.2).elim⟩

/-- Code of a request that ends with the request torn down. -/
theorem isolated_ends {p : Code Response} (ends : Ends p (fun _ => Quiet) s)
    (every : Every always (fun _ => KeepsTrace w) p) (trace : TraceOk w s) (busy : Busy s) :
    Safe always (Isolated w) p (fun _ => AtRest w) s := by
  have kept := ends.keep every (P := fun s => TraceOk w s ∧ Busy s)
    (fun _ _ _ kept keeps => ⟨keeps.trace kept.1, keeps.busy kept.2⟩) ⟨trace, busy⟩
  exact (kept.weaken fun _ => isolated_of_busy).mono fun _ _ left => ⟨left.1, left.2.1⟩

/-- An atomic step whose postcondition implies the invariant. -/
theorem isolated_atomic {α : Type} {act : Answer → Child → Option (α × Child)}
    {Q : α → Child → Prop} (now : Isolated w s)
    (acts : ∀ ω value s', act ω (s.written ω) = some (value, s') → Q value s')
    (implies : ∀ value s', Q value s' → Isolated w s') :
    Safe always (Isolated w) (Code.atomic act) Q s := by
  refine Safe.atomic now ?_
  intro ω value s' acted _
  have post := acts ω value s' acted
  exact ⟨implies value s' post, post⟩

theorem isolated_modify {change : Child → Child} {Q : Child → Prop} (now : Isolated w s)
    (post : ∀ ω, Q (change (s.written ω))) (implies : ∀ s', Q s' → Isolated w s') :
    Safe always (Isolated w) (Code.modify change) (fun _ => Q) s := by
  refine isolated_atomic now ?_ fun _ => implies
  intro ω value s' acted
  cases acted
  exact post ω

/-- A step at rest that changes neither the globals nor the trace. -/
theorem AtRest.of_eq {s s' : Child} (rest : AtRest w s) (session : s'.session = s.session)
    (trace : s'.trace = s.trace) : AtRest w s' := by
  rcases rest with ⟨⟨idle, writer⟩, good⟩
  rw [← session] at idle
  rw [Writes, ← session] at writer
  exact ⟨⟨idle, writer⟩, good.of_eq session trace⟩

/-- `apr_filepath_get` leaves the child at rest. -/
theorem apFilepathGet_isolated (rest : AtRest w s) :
    Safe always (Isolated w) Code.apFilepathGet (fun _ => AtRest w) s := by
  refine isolated_atomic rest.isolated ?_ fun _ _ => AtRest.isolated
  intro ω value s' acted
  split at acted
  next =>
    cases acted
    exact rest.of_eq rfl rfl
  next =>
    cases acted
    exact rest.of_eq rfl rfl

/-- The lock is taken at rest, or the child stays at rest. -/
theorem lock_isolated (rest : AtRest w s) :
    Safe always (Isolated w) (Code.lock me)
      (fun locked s' => AtRest w s' ∧ (locked = true → Busy s')) s := by
  refine isolated_atomic rest.isolated ?_ fun _ _ left => left.1.isolated
  intro ω value s' acted
  split at acted
  next =>
    cases acted
    exact ⟨rest.of_eq rfl rfl, fun _ => ⟨_, _, rfl, by simp⟩⟩
  next =>
    split at acted
    next =>
      cases acted
      exact ⟨rest.of_eq rfl rfl, fun _ => ⟨_, _, rfl, by simp⟩⟩
    next =>
      cases acted
      exact ⟨rest.of_eq rfl rfl, by simp⟩
  next => cases acted

/-- What `SetUpRequest` leaves: behind a failure the child is at rest, else no code of a
handler has run yet. -/
def SetUpEnds (w : World) (r : RequestRec) (found : Option (Option HandlerEntry))
    (s : Child) : Prop :=
  SetUpLeaves r found s ∧ TraceOk w s ∧ (found.isSome = true → Busy s)

theorem setUpRequest_isolated (r : RequestRec) (type : RApacheHandlerType)
    (rest : AtRest w s) :
    Safe always (Isolated w) (Code.setUpRequest w me r type) (SetUpEnds w r) s := by
  refine (lock_isolated rest).bind fun locked s₁ left _ => ?_
  rcases left with ⟨rest₁, isBusy⟩
  cases locked with
  | false => exact ⟨rest₁.isolated, rest₁.quiet, rest₁.trace, by simp⟩
  | true =>
      have set : Safe always (Isolated w) (Code.setRequest me r)
          (fun _ s' => s'.session = s₁.session.setRequest r ∧ s'.trace = none ∧ Busy s')
          s₁ := by
        refine isolated_modify rest₁.isolated ?_ ?_
        · intro ω
          exact ⟨rfl, rfl, _, _, rfl, by simp⟩
        · intro s' left
          exact isolated_of_busy ⟨trivial, traceOk_none left.2.1, left.2.2⟩
      refine set.bind fun _ s₂ left _ => ?_
      rcases left with ⟨session, noTrace, busy⟩
      have createOut : Every always KeepsNoTrace Code.createOut := by
        apply Code.every_atomic
        intro ω s value s' acted
        split at acted
        next => cases acted; exact id
        next => cases acted; exact id
      have setHandler (h : Option HandlerEntry) : Every always KeepsNoTrace (Code.setHandler h) :=
        Code.every_modify fun _ _ => id
      have kept := (setUpHandler_ends r type rest₁.quiet session).keep
        (Code.setUpHandler_every (allowsRequest_keepsNoTrace w me) r type createOut setHandler)
        (P := fun s => s.trace = none ∧ Busy s) (fun _ _ _ kept keeps => keeps kept)
        ⟨noTrace, busy⟩
      refine (kept.weaken fun _ kept => ?_).mono fun _ _ left => ?_
      · exact isolated_of_busy ⟨trivial, traceOk_none kept.2.1, kept.2.2⟩
      · exact ⟨left.1, traceOk_none left.2.1, fun _ => left.2.2⟩

/-- `RefreshRApacheEnv` begins the trace, with the globals of a fresh child. -/
theorem refreshRApacheEnv_isolated {r : RequestRec} {h : HandlerEntry}
    (left : SetUpEnds w r (some (some h)) s) :
    Safe always (Isolated w) (Code.refreshRApacheEnv r h)
      (fun _ s' => Writes s' ∧ TraceOk w s' ∧ Busy s') s := by
  rcases left with ⟨⟨config, before, writer, session⟩, trace, isBusy⟩
  have busy := isBusy rfl
  have begins : s.session.resetCgiVars = Session.begin r h.directive := by
    rw [session]
    exact Session.setUp_resetCgiVars writer r h.directive
  refine isolated_atomic (isolated_of_busy ⟨trivial, trace, busy⟩) ?_ fun _ _ left =>
    isolated_of_busy ⟨trivial, left.2⟩
  intro ω value s' acted
  split at acted
  next =>
    cases acted
    refine ⟨?_, ?_, busy⟩
    · change s.session.resetCgiVars.writer = _
      rw [begins]
      rfl
    · intro trace isTrace
      cases isTrace
      exact ⟨config, congrArg (fun session => some ([], session)) begins.symm⟩
  next => cases acted

/-- A request leaves the child at rest. -/
theorem apHookRequestHandler_isolated (r : RequestRec) (rest : AtRest w s) :
    Safe always (Isolated w) (Code.apHookRequestHandler w me r) (fun _ => AtRest w) s := by
  refine (apFilepathGet_isolated rest).bind fun saved s₁ rest₁ _ => ?_
  cases saved with
  | false => exact ⟨rest₁.isolated, rest₁⟩
  | true =>
      simp only [if_true]
      split
      next => exact ⟨rest₁.isolated, rest₁⟩
      next type _ =>
        refine (setUpRequest_isolated r type rest₁).bind fun found s₂ left inv => ?_
        cases found with
        | none => exact ⟨inv, left.1, left.2.1⟩
        | some found =>
            cases found with
            | none =>
                exact isolated_ends (runInfo_ends left.1)
                  (Code.runInfo_every (allowsRequest_keepsTrace w me)) left.2.1 (left.2.2 rfl)
            | some h =>
                refine (refreshRApacheEnv_isolated left).bind fun _ s₃ begun _ => ?_
                exact isolated_ends (runHandler_ends h r type begun.1)
                  (Code.runHandler_every (allowsRequest_keepsTrace w me) h r type)
                  begun.2.1 begun.2.2

/-- All requests that a worker serves alone leave the child at rest. -/
theorem serve_isolated (worker number : Nat) (requests : List RequestRec)
    (rest : AtRest w s) :
    Safe always (Isolated w) (Code.serve w worker number requests) (fun _ => AtRest w) s := by
  induction requests generalizing number s with
  | nil => exact ⟨rest.isolated, rest⟩
  | cons r requests ih =>
      refine (apHookRequestHandler_isolated r rest).bind fun _ s₁ rest₁ _ => ?_
      have returns : Safe always (Isolated w)
          (Code.modify fun s =>
            { s with lockEvents := .returned { worker, number } :: s.lockEvents })
          (fun _ => AtRest w) s₁ := by
        refine isolated_modify rest₁.isolated ?_ ?_
        · intro ω
          exact rest₁.of_eq rfl rfl
        · intro s' rest'
          exact rest'.isolated
      exact returns.bind fun _ s₂ rest₂ _ => ih (number + 1) rest₂

end Runs

/-! ## Fresh children -/

theorem Child.fresh_atRest (w : World) (cwd : Bytes) (mutex : Option (Option Nat))
    (files : Files) : AtRest w (Child.fresh cwd mutex files) :=
  ⟨⟨⟨rfl, rfl, rfl, rfl⟩, rfl⟩, traceOk_none rfl⟩

theorem Serves.isolated {w : World} {requests : List RequestRec} {s : Child}
    (serves : Serves w requests s) : Isolated w s := by
  rcases serves with ⟨cwd, mutex, files, rest, reaches⟩
  exact (serve_isolated 0 0 requests (Child.fresh_atRest w cwd mutex files)).invariant reaches

/-- A visitor of a handler that reads `GET`. -/
def visitor (args : Bytes) : RequestRec where
  address := 0
  handler := bytes "r-handler"
  perDirConfig := some { evalcode := some (bytes "GET"), handlerKey := some (bytes "GET") }
  args := some args
  parseQueryString args := [{ name := args, value := [], upload := false }]

/-- A world in which every text is one expression. -/
def visitedWorld : World where
  parse text := some [⟨text⟩]
  fuel := 0
  infoText := fun _ => []

/-- Some steps of a child whose R code reads `GET`. -/
def visits (requests : List RequestRec) (count : Nat) : Option (Code Unit × Child) :=
  Program.runWith
    (fun _ => { behaviour := .call (.force .get) fun _ => .finish (some .other) }) count
    (Code.serve visitedWorld 0 0 requests) (Child.fresh (bytes "/") none fun _ => [])

theorem visits_serves {requests : List RequestRec} {count : Nat}
    (ran : (visits requests count).isSome) :
    Serves visitedWorld requests ((visits requests count).get ran).2 :=
  ⟨_, _, _, _, Program.runWith_reaches (Option.some_get ran).symm⟩

end RApache
