import RApache.HandlerSteps
import RApache.Library.Guarded

/-!
# Runs of the handler

A protocol that has one phase for all work for a request is followed by the whole handler,
if it is followed by the steps of `SetUpRequest` and by each of the few exits.
-/

namespace RApache

open Stepwise
open Stepwise.Program (Every Follows Protocol)

/-- Any condition. -/
def always (_ : Answer) (_ _ : Child) : Prop := True

/-- No `EXEC` of `RApacheInfo` fails in the step. -/
def NoExecFailure (_ : Answer) (s s' : Child) : Prop :=
  ∀ who, s'.lockEvents ≠ .execFailed who :: s.lockEvents

/-- A test that no `EXEC` fails in a step. -/
def noExecFailure (_ : Answer) (_ s' : Child) : Bool :=
  match s'.lockEvents with
  | .execFailed _ :: _ => false
  | _ => true

theorem noExecFailure_iff {ω : Answer} {s s' : Child} (passed : noExecFailure ω s s' = true) :
    NoExecFailure ω s s' := by
  intro who failed
  rw [noExecFailure, failed] at passed
  cases passed

/-- The child after a step of the module on the globals of the current request. -/
def Child.performed (ω : Answer) (op : SessionOp) (value : RValue) (session : Session)
    (s : Child) : Child :=
  { s.written ω with
    session
    trace := s.trace.map fun trace =>
      { trace with steps := trace.steps ++ [(op, value)] }
    log := s.log ++ [{ before := s.session, op, value }] }

namespace Code

variable {Φ : Type}

section Atomic

variable {ok : Answer → Child → Child → Prop} {protocol : Protocol Answer Child Φ} {φ : Φ}
  {w : World}

theorem follows_atomic {α : Type} {act : Answer → Child → Option (α × Child)}
    {Q : α → Φ → Prop}
    (acts : ∀ ω s value s', protocol.relies φ s → act ω (s.written ω) = some (value, s') →
      ok ω s s' → ∃ φ', protocol.moves φ ω s s' φ' ∧ Q value φ') :
    Follows ok protocol (atomic act) Q φ :=
  Follows.atomic fun ω s value s' relies acted meets => acts ω s value s' relies acted meets

theorem follows_modify {change : Child → Child} {Q : Unit → Φ → Prop}
    (changes : ∀ ω s, protocol.relies φ s →
      ∃ φ', protocol.moves φ ω s (change (s.written ω)) φ' ∧ Q () φ') :
    Follows ok protocol (modify change) Q φ := by
  apply follows_atomic
  intro ω s value s' relies acted _
  cases acted
  exact changes ω s relies

theorem follows_perform {op : SessionOp} {Q : RValue → Φ → Prop}
    (performs : ∀ ω s value session, protocol.relies φ s →
      s.session.perform w.fuel op = (.returned value, session) →
        ∃ φ', protocol.moves φ ω s (s.performed ω op value session) φ' ∧ Q value φ') :
    Follows ok protocol (perform w op) Q φ := by
  apply follows_atomic
  intro ω s value s' relies acted _
  split at acted
  next value' session performed =>
    cases acted
    exact performs ω s value session relies performed
  next => cases acted

theorem follows_filepath {Q : Bool → Φ → Prop}
    (saved : ∀ ω s, protocol.relies φ s →
      ∃ φ', protocol.moves φ ω s { s.written ω with oldwd := some s.cwd } φ' ∧ Q true φ')
    (failed : ∀ ω s, protocol.relies φ s →
      ∃ φ', protocol.moves φ ω s (s.written ω) φ' ∧ Q false φ') :
    Follows ok protocol apFilepathGet Q φ := by
  apply follows_atomic
  intro ω s value s' relies acted _
  split at acted
  next =>
    cases acted
    exact saved ω s relies
  next =>
    cases acted
    exact failed ω s relies

theorem follows_createOut {Q : Bool → Φ → Prop}
    (created : ∀ ω s, protocol.relies φ s →
      ∃ φ', protocol.moves φ ω s { s.written ω with session := s.session.createOut } φ' ∧
        Q true φ')
    (failed : ∀ ω s, protocol.relies φ s →
      ∃ φ', protocol.moves φ ω s
        { s.written ω with session := { s.session with bbOut := none } } φ' ∧ Q false φ') :
    Follows ok protocol createOut Q φ := by
  apply follows_atomic
  intro ω s value s' relies acted _
  split at acted
  next =>
    cases acted
    exact created ω s relies
  next =>
    cases acted
    exact failed ω s relies

theorem follows_refresh {r : RequestRec} {h : HandlerEntry} {Q : Unit → Φ → Prop}
    (refreshes : ∀ ω s, protocol.relies φ s →
      ∃ φ', protocol.moves φ ω s
        { s.written ω with
          session := s.session.resetCgiVars
          trace := some { r, directive := h.directive, steps := [] } } φ' ∧ Q () φ') :
    Follows ok protocol (refreshRApacheEnv r h) Q φ := by
  apply follows_atomic
  intro ω s value s' relies acted _
  split at acted
  next =>
    cases acted
    exact refreshes ω s relies
  next => cases acted

/-- `TearDownRequest` leads through four phases: from the first to one in which the working
directory is restored, one in which the output is written, one in which the errors are logged, and
one in which the request is cleared, where it releases the lock. -/
theorem follows_tearDownRequest {me : Owner} {flush : Bool} {restored written logged : Φ}
    {cleared : Φ → Prop} {Q : Unit → Φ → Prop}
    (restores : Follows ok protocol (restoreDirectory me) (fun _ φ => φ = restored) φ)
    (pushesBack : Follows ok protocol (clearPushBack w) (fun _ φ => φ = restored) restored)
    (cleansReading :
      Follows ok protocol (perform w .cleanReading) (fun _ φ => φ = restored) restored)
    (cleansWriting :
      Follows ok protocol (perform w (.cleanWriting flush)) (fun _ φ => φ = written) restored)
    (logs : Follows ok protocol (perform w .logErrors) (fun _ φ => φ = logged) written)
    (clears : Follows ok protocol (clearRequest w me) (fun _ => cleared) logged)
    (unlocks : ∀ φ, cleared φ → Follows ok protocol (unlock me) Q φ) :
    Follows ok protocol (tearDownRequest w me flush) Q φ := by
  refine restores.bind ?_
  rintro _ _ rfl
  refine pushesBack.bind ?_
  rintro _ _ rfl
  refine cleansReading.bind ?_
  rintro _ _ rfl
  refine cleansWriting.bind ?_
  rintro _ _ rfl
  refine logs.bind ?_
  rintro _ _ rfl
  exact clears.bind fun _ φ isCleared => unlocks φ isCleared

end Atomic

/-- Steps that may be taken in a phase and stay in it. -/
def Stays (protocol : Protocol Answer Child Φ) (φ : Φ) (ω : Answer) (s s' : Child) : Prop :=
  protocol.relies φ s → protocol.moves φ ω s s' φ

/-- If no `EXEC` fails, what R code may do is what steps that work for the request may. -/
theorem AllowsWork.code {R : Answer → Child → Child → Prop} {w : World} {me : Owner}
    (allows : AllowsWork R w) : AllowsCode NoExecFailure R w me where
  work := allows.work
  execFailure := by
    intro ω s value s' acted meets
    cases acted
    exact (meets me rfl).elim

/-- In the phase `work` a request is worked for.  From there each exit of the handler ends
in a phase that `left` allows for its response. -/
structure Working (ok : Answer → Child → Child → Prop) (protocol : Protocol Answer Child Φ)
    (work : Φ) (left : Response → Φ → Prop) (w : World) (me : Owner) : Prop where
  handler : AllowsHandler ok (Stays protocol work) w me
  traceback : Follows ok protocol (printTraceback w me) (fun _ φ => φ = work) work
  error : ∀ msg, Follows ok protocol (rApacheResponseError w me msg)
    (fun result => left { result }) work
  respond : ∀ h ret, Follows ok protocol (respond w me h ret) left work

/-- A child without a request of the worker is in the phase `idle`; the phases of
`SetUpRequest` and of the work for the request depend on how the lock was found. -/
structure Serving {Γ : Type} (ok : Answer → Child → Child → Prop)
    (protocol : Protocol Answer Child Φ) (idle : Φ) (locked current work : Γ → Φ)
    (left : Response → Φ → Prop) (w : World) (me : Owner) (r : RequestRec) : Prop where
  working : ∀ γ, Working ok protocol (work γ) left w me
  refused : ∀ result, result ≠ statusDone → result ≠ statusOk → left { result } idle
  filepath : Follows ok protocol apFilepathGet (fun _ φ => φ = idle) idle
  lock : Follows ok protocol (lock me)
    (fun isLocked φ => if isLocked then ∃ γ, φ = locked γ else φ = idle) idle
  setRequest : ∀ γ, Follows ok protocol (setRequest me r) (fun _ φ => φ = current γ) (locked γ)
  createOut : ∀ γ, Follows ok protocol createOut (fun _ φ => φ = work γ) (current γ)
  setHandler : ∀ γ h, Follows ok protocol (setHandler h) (fun _ φ => φ = work γ) (work γ)
  refresh : ∀ γ h, Follows ok protocol (refreshRApacheEnv r h) (fun _ φ => φ = work γ) (work γ)
  tearDown : ∀ γ, Follows ok protocol (tearDownRequest w me false)
    (fun _ => left { result := httpInternalServerError }) (work γ)
  info : ∀ γ, Follows ok protocol (runInfo w me) left (work γ)

section Working

variable {ok : Answer → Child → Child → Prop} {protocol : Protocol Answer Child Φ} {work : Φ}
  {left : Response → Φ → Prop} {w : World} {me : Owner}

/-- Code all of whose steps stay in the phase. -/
theorem follows_of_every {α : Type} {p : Code α} (every : Every ok (Stays protocol work) p) :
    Follows ok protocol p (fun _ φ => φ = work) work :=
  every.follows fun _ _ _ relies _ stays => stays relies

namespace Working

variable (working : Working ok protocol work left w me)

include working

/-- A request that is answered with an error while the environment is prepared. -/
theorem prepareError :
    Follows ok protocol (.error <$> rApacheResponseError w me none :
        Code (Except Int (RResult × Bool)))
      (fun prepared φ => match prepared with
        | .error result => left { result } φ
        | .ok _ => φ = work) work :=
  (working.error none).bind fun _ _ post => post

theorem prepareEnvironment (h : HandlerEntry) (r : RequestRec) :
    Follows ok protocol (prepareEnvironment w me h r)
      (fun prepared φ => match prepared with
        | .error result => left { result } φ
        | .ok _ => φ = work) work := by
  have allows := working.handler
  unfold Code.prepareEnvironment
  split
  next =>
    have makes : Every ok (Stays protocol work) (newHandlerEnv h.key) :=
      every_modify fun _ _ => allows.caches (.change _ _ _ _ _ _ _)
    exact (follows_of_every makes).bind fun _ _ now => now
  next file _ =>
    have setEnvir (key : Bytes) :
        Every ok (Stays protocol work) (prepareEnvironment.setEnvir h key) :=
      every_modify fun _ _ => allows.caches (.change _ _ _ _ _ _ _)
    refine (follows_of_every (aprFilepathSet_every allows.toAllowsWork _)).bind ?_
    rintro changed _ rfl
    cases changed with
    | false => exact working.prepareError
    | true =>
        refine (follows_of_every (prepareFileExprs_every allows h file)).bind ?_
        rintro prepared _ rfl
        cases prepared with
        | none => exact working.prepareError
        | some prepared =>
            rcases prepared with ⟨key, fileParsed, versions⟩
            simp only
            split
            next =>
              refine (follows_of_every (evalFile_every allows r file key versions)).bind ?_
              rintro ⟨ret, evalError⟩ _ rfl
              cases evalError with
              | true =>
                  refine working.traceback.bind ?_
                  rintro _ _ rfl
                  exact working.prepareError
              | false => exact (follows_of_every (setEnvir key)).bind fun _ _ now => now
            next => exact (follows_of_every (setEnvir key)).bind fun _ _ now => now

/-- The last part of the handler, if it ends with an error. -/
theorem answerError :
    Follows ok protocol (do
      let result ← rApacheResponseError w me none
      pure { result } : Code Response) left work :=
  (working.error none).bind fun _ _ post => post

/-- The handler behind `RefreshRApacheEnv`. -/
theorem runHandler (h : HandlerEntry) (r : RequestRec) (type : RApacheHandlerType) :
    Follows ok protocol (runHandler w me h r type) left work := by
  have allows := working.handler
  refine (working.prepareEnvironment h r).bind ?_
  intro prepared φ now
  cases prepared with
  | error result => exact now
  | ok value =>
      rcases value with ⟨ret, evalError⟩
      subst now
      simp only
      split
      next =>
        refine (follows_of_every (read_every allows.toAllowsWork _)).bind ?_
        rintro envir _ rfl
        refine (follows_of_every (allows.prepareHandlerExpr h r type envir)).bind ?_
        rintro ready _ rfl
        cases ready with
        | false => exact working.answerError
        | true =>
            refine (follows_of_every (evalHandler_every allows h r evalError)).bind ?_
            rintro ⟨ret, evalError⟩ _ rfl
            cases evalError with
            | true =>
                refine working.traceback.bind ?_
                rintro _ _ rfl
                exact working.answerError
            | false => exact working.respond h ret
      next => exact working.respond h ret

end Working

end Working

section Serving

variable {Γ : Type} {ok : Answer → Child → Child → Prop} {protocol : Protocol Answer Child Φ}
  {idle : Φ} {locked current work : Γ → Φ} {left : Response → Φ → Prop} {w : World}
  {me : Owner} {r : RequestRec}

namespace Serving

variable (serving : Serving ok protocol idle locked current work left w me r)

include serving

/-- What `SetUpRequest` leaves: a failure has torn the request down, else it is worked for. -/
theorem setUpHandler (type : RApacheHandlerType) (γ : Γ) :
    Follows ok protocol (setUpHandler w me r type)
      (fun found φ => match found with
        | none => left { result := httpInternalServerError } φ
        | some _ => ∃ γ, φ = work γ) (current γ) := by
  have allows := (serving.working γ).handler
  have down : Follows ok protocol (do
        tearDownRequest w me false
        pure none : Code (Option (Option HandlerEntry)))
      (fun found φ => match found with
        | none => left { result := httpInternalServerError } φ
        | some _ => ∃ γ, φ = work γ) (work γ) :=
    (serving.tearDown γ).bind fun _ _ post => post
  refine (serving.createOut γ).bind ?_
  rintro created _ rfl
  cases created with
  | false =>
      refine (follows_of_every (perform_every allows.toAllowsWork rfl)).bind ?_
      rintro _ _ rfl
      exact down
  | true =>
      simp only [if_true]
      split
      next => exact ⟨γ, rfl⟩
      next =>
        refine (follows_of_every (getHandlerFromRequest_every allows r)).bind ?_
        rintro found _ rfl
        refine (serving.setHandler γ found).bind ?_
        rintro _ _ rfl
        cases found with
        | none => exact down
        | some h => exact ⟨γ, rfl⟩

/-- The whole handler. -/
theorem apHookRequestHandler :
    Follows ok protocol (apHookRequestHandler w me r) left idle := by
  refine serving.filepath.bind ?_
  intro saved φ now
  rw [now]
  cases saved with
  | false => exact serving.refused _ (by decide) (by decide)
  | true =>
      simp only [if_true]
      split
      next => exact serving.refused _ (by decide) (by decide)
      next type _ =>
        have setUp : Follows ok protocol (setUpRequest w me r type)
            (fun found φ => match found with
              | none => left { result := httpInternalServerError } φ
              | some _ => ∃ γ, φ = work γ) idle := by
          refine serving.lock.bind ?_
          intro isLocked φ now
          cases isLocked with
          | false =>
              rw [show φ = idle from now]
              exact serving.refused _ (by decide) (by decide)
          | true =>
              rcases now with ⟨γ, rfl⟩
              refine (serving.setRequest γ).bind ?_
              rintro _ _ rfl
              exact serving.setUpHandler type γ
        refine setUp.bind ?_
        intro found φ now
        cases found with
        | none => exact now
        | some found =>
            rcases now with ⟨γ, rfl⟩
            cases found with
            | none => exact serving.info γ
            | some h =>
                refine (serving.refresh γ h).bind ?_
                rintro _ _ rfl
                exact (serving.working γ).runHandler h r type

end Serving

end Serving

end Code

end RApache
