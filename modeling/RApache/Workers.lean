import RApache.HandlerRuns

/-!
# The threads of a child

Every thread serves its requests one after the other, beside the other threads.  What the
lock guards is only used between `SetUpRequest` and the end of `TearDownRequest`.
-/

namespace RApache

open Stepwise
open Stepwise.Program (Every Follows Protocol Place Guard PoolReaches Reaches)

/-- A child that has served no request yet. -/
def Child.fresh (cwd : Bytes) (mutex : Option (Option Nat)) (files : Files) : Child :=
  { cwd, mutex, files }

/-- A child that serves one request after the other. -/
def Serves (w : World) (requests : List RequestRec) (s : Child) : Prop :=
  ∃ cwd mutex files rest,
    Reaches always (Code.serve w 0 0 requests) (Child.fresh cwd mutex files) rest s

/-- The threads of a child, each with the requests it serves.  Without threads there is one
worker and no mutex. -/
structure Workers where
  requests : Nat → List RequestRec
  threaded : Bool
  single : threaded = false → ∀ worker, worker ≠ 0 → requests worker = []

namespace Workers

/-- The code of each thread. -/
def pool (workers : Workers) (w : World) (worker : Nat) : Code Unit :=
  Code.serve w worker 0 (workers.requests worker)

/-- The child before the first request. -/
def start (workers : Workers) (cwd : Bytes) (files : Files) : Child :=
  Child.fresh cwd (if workers.threaded then some none else none) files

/-- States that the threads reach, in any order of their steps. -/
def Reach (ok : Answer → Child → Child → Prop) (workers : Workers) (w : World) (cwd : Bytes)
    (files : Files) (s : Child) : Prop :=
  ∃ pool', PoolReaches ok (workers.pool w) (workers.start cwd files) pool' s

/-- Where the threads are in the beginning. -/
def places {S : Type} (workers : Workers) (worker : Nat) : Place S :=
  match workers.requests worker with
  | [] => .absent
  | _ :: _ => .outside

theorem places_ne_absent {S : Type} {workers : Workers} {worker : Nat}
    (present : (workers.places worker : Place S) ≠ .absent) : workers.requests worker ≠ [] := by
  intro none
  simp [places, none] at present

/-- A guard of the lock holds in all states of a run whose threads follow its protocol. -/
theorem agrees {S : Type} {ok : Answer → Child → Child → Prop} {workers : Workers}
    {guard : Guard Answer Child Nat S} {w : World} {cwd : Bytes} {files : Files} {s : Child}
    (lawful : guard.Lawful) (mutex : ∀ s, guard.mutex s = s.mutex)
    (rest : guard.rest (workers.start cwd files))
    (follows : ∀ worker, Follows ok (guard.protocol worker) (workers.pool w worker)
      (fun _ _ => True) .outside)
    (reach : Reach ok workers w cwd files s) : ∃ places, guard.Agrees places s := by
  rcases reach with ⟨pool', reached⟩
  have begins : guard.Agrees workers.places (workers.start cwd files) := by
    constructor
    · intro missing j k isJ isK
      have unthreaded : workers.threaded = false := by
        cases threaded : workers.threaded with
        | false => rfl
        | true => simp [mutex, start, Child.fresh, threaded] at missing
      have first (worker : Nat) (present : (workers.places worker : Place S) ≠ .absent) :
          worker = 0 := by
        by_contra other
        exact places_ne_absent present (workers.single unthreaded worker other)
      rw [first j isJ, first k isK]
    · refine .inl ⟨?_, rest, ?_⟩
      · intro worker
        rw [mutex]
        cases workers.threaded with
        | false => simp [start, Child.fresh]
        | true => simp [start, Child.fresh]
      · intro worker stage
        simp only [places]
        split
        next => simp
        next => simp
  have followed (worker : Nat) : Follows ok (guard.protocol worker) (workers.pool w worker)
      (fun _ _ => True) (workers.places worker) := by
    cases requests : workers.requests worker with
    | nil =>
        rw [pool, requests]
        trivial
    | cons r rest =>
        rw [places, requests]
        exact follows worker
  rcases Guard.reaches lawful begins followed reached with ⟨places, agrees, -⟩
  exact ⟨places, agrees⟩

end Workers

/-- A world in which every text is one expression. -/
def plainWorld : World where
  parse text := some [⟨text⟩]
  fuel := 0
  infoText := fun _ => []

namespace Code

variable {Φ Γ : Type}

/-- What a protocol has to allow for a request, if all exits of the handler lead back to the
phase `idle`. -/
structure Locking (ok : Answer → Child → Child → Prop) (protocol : Protocol Answer Child Φ)
    (idle : Φ) (locked current work : Γ → Φ) (w : World) (me : Owner) (r : RequestRec) :
    Prop where
  handler : ∀ γ, AllowsHandler ok (Stays protocol (work γ)) w me
  writer : ∀ γ {ω s s'}, WriterStep ω s s' → Stays protocol (work γ) ω s s'
  filepath : Follows ok protocol apFilepathGet (fun _ φ => φ = idle) idle
  lock : Follows ok protocol (lock me)
    (fun isLocked φ => if isLocked then ∃ γ, φ = locked γ else φ = idle) idle
  setRequest : ∀ γ, Follows ok protocol (setRequest me r) (fun _ φ => φ = current γ) (locked γ)
  createOut : ∀ γ, Follows ok protocol createOut (fun _ φ => φ = work γ) (current γ)
  setHandler : ∀ γ h, Follows ok protocol (setHandler h) (fun _ φ => φ = work γ) (work γ)
  refresh : ∀ γ h, Follows ok protocol (refreshRApacheEnv r h) (fun _ φ => φ = work γ) (work γ)
  tearDown : ∀ γ flush, Follows ok protocol (tearDownRequest w me flush)
    (fun _ φ => φ = idle) (work γ)

section Exits

variable {ok : Answer → Child → Child → Prop} {protocol : Protocol Answer Child Φ}
  {idle work : Φ} {w : World} {me : Owner}
  (allows : AllowsHandler ok (Stays protocol work) w me)
  (tearDown : ∀ flush, Follows ok protocol (tearDownRequest w me flush) (fun _ φ => φ = idle) work)

include allows tearDown

theorem error_exits (msg : Option Bytes) :
    Follows ok protocol (rApacheResponseError w me msg) (fun _ φ => φ = idle) work := by
  cases msg with
  | none => exact (tearDown false).bind fun _ _ now => now
  | some msg =>
      refine (follows_of_every (perform_every allows.toAllowsWork rfl)).bind ?_
      intro _ φ now
      rw [now]
      exact (tearDown false).bind fun _ _ now => now

/-- If tearing the request down leads back to the phase `idle`, all exits of the handler do. -/
theorem working_exits
    (traceback : Follows ok protocol (printTraceback w me) (fun _ φ => φ = work) work) :
    Working ok protocol work (fun _ φ => φ = idle) w me where
  handler := allows
  traceback := traceback
  error := error_exits allows tearDown
  respond := by
    intro h ret
    cases ret with
    | integer result => exact (tearDown true).bind fun _ _ now => now
    | tryError => exact (error_exits allows tearDown _).bind fun _ _ now => now
    | other => exact (tearDown true).bind fun _ _ now => now

theorem info_exits : Follows ok protocol (runInfo w me) (fun _ φ => φ = idle) work := by
  have code := allows.toAllowsCode
  refine (follows_of_every (rApacheInfo_every code fun _ => tryEval_every code)).bind ?_
  intro result φ now
  rw [now]
  exact (tearDown true).bind fun _ _ now => now

end Exits

section Locking

variable {ok : Answer → Child → Child → Prop} {protocol : Protocol Answer Child Φ}
  {idle : Φ} {locked current work : Γ → Φ} {w : World} {me : Owner} {r : RequestRec}

/-- All exits of the handler lead back to the phase `idle`. -/
theorem Locking.serving (locking : Locking ok protocol idle locked current work w me r) :
    Serving ok protocol idle locked current work (fun _ φ => φ = idle) w me r where
  working γ := working_exits (locking.handler γ) (locking.tearDown γ) (follows_of_every
    (printTraceback_every (locking.handler γ).toAllowsCode (locking.writer γ)))
  refused _ _ _ := rfl
  filepath := locking.filepath
  lock := locking.lock
  setRequest := locking.setRequest
  createOut := locking.createOut
  setHandler := locking.setHandler
  refresh := locking.refresh
  tearDown γ := locking.tearDown γ false
  info γ := info_exits (locking.handler γ) (locking.tearDown γ)

end Locking

/-- A thread that serves its requests follows the protocol, if each request does. -/
theorem serve_follows {ok : Answer → Child → Child → Prop}
    {protocol : Protocol Answer Child Φ} {idle : Φ} {w : World} {worker : Nat}
    {requests : List RequestRec}
    (handler : ∀ number r, requests[number]? = some r →
      Follows ok protocol (apHookRequestHandler w { worker, number } r) (fun _ φ => φ = idle) idle)
    (returned : ∀ number, Follows ok protocol
      (modify fun s => { s with lockEvents := .returned { worker, number } :: s.lockEvents })
      (fun _ φ => φ = idle) idle)
    (number : Nat) :
    Follows ok protocol (serve w worker number (requests.drop number)) (fun _ _ => True) idle := by
  induction later : requests.drop number generalizing number with
  | nil => trivial
  | cons r rest ih =>
      have isRequest : requests[number]? = some r := by
        rw [← Nat.add_zero number, ← List.getElem?_drop, later]
        rfl
      have isRest : requests.drop (number + 1) = rest := by
        rw [← List.drop_drop, later]
        rfl
      refine (handler number r isRequest).bind ?_
      intro _ φ now
      rw [now]
      refine (returned number).bind ?_
      intro _ φ now
      rw [now]
      exact ih (number + 1) isRest

/-! ## Steps at the border of the section -/

section Guards

variable {S : Type} {ok : Answer → Child → Child → Prop} {guard : Guard Answer Child Nat S}
  {me : Owner}

/-- `apr_filepath_get` stays outside. -/
theorem guard_filepath
    (outside : ∀ ω s oldwd, guard.outside me.worker ω s { s.written ω with oldwd }) :
    Follows ok (guard.protocol me.worker) apFilepathGet (fun _ place => place = .outside)
      .outside := by
  apply follows_filepath
  · exact fun ω s _ => ⟨.outside, outside ω s _, rfl⟩
  · exact fun ω s _ => ⟨.outside, outside ω s _, rfl⟩

/-- Taking the lock leads from outside to a stage, or stays outside. -/
theorem guard_lock {locked : Γ → S} (isMutex : ∀ s, guard.mutex s = s.mutex)
    (outside : ∀ ω s, guard.outside me.worker ω s (s.written ω))
    (enters : ∀ ω s, guard.rest s → ∃ γ, guard.holds me.worker (locked γ)
      { s.written ω with
        mutex := s.mutex.map fun _ => some me.worker
        lockEvents := .entered me s.mutex.isSome :: s.lockEvents }) :
    Follows ok (guard.protocol me.worker) (lock me)
      (fun isLocked place =>
        if isLocked then ∃ γ, place = .inside (locked γ) else place = .outside) .outside := by
  apply follows_atomic
  intro ω s value s' rest acted _
  split at acted
  next missing =>
    cases acted
    have noMutex : s.mutex = none := missing
    have free : guard.Free s := by
      intro worker
      simp [isMutex, noMutex]
    rcases enters ω s (rest free) with ⟨γ, holds⟩
    refine ⟨.inside (locked γ), ⟨free, ?_, ?_⟩, γ, rfl⟩
    · simp [isMutex, Child.written, noMutex]
    · simpa [Child.written, noMutex] using holds
  next unlocked =>
    have isFree : s.mutex = some none := unlocked
    have free : guard.Free s := by
      intro worker
      simp [isMutex, isFree]
    split at acted
    next =>
      cases acted
      rcases enters ω s (rest free) with ⟨γ, holds⟩
      refine ⟨.inside (locked γ), ⟨free, ?_, ?_⟩, γ, rfl⟩
      · simp [isMutex, isFree]
      · simpa [Child.written, isFree] using holds
    next =>
      cases acted
      exact ⟨.outside, outside ω s, rfl⟩
  next => cases acted

/-- Releasing the lock leads outside. -/
theorem guard_unlock {stage : S} (isMutex : ∀ s, guard.mutex s = s.mutex)
    (leaves : ∀ ω s, guard.HeldBy me.worker s → guard.holds me.worker stage s → guard.rest
      { s.written ω with
        mutex := s.mutex.map fun _ => none
        lockEvents := .left me s.mutex.isSome s.mutex.join :: s.lockEvents }) :
    Follows ok (guard.protocol me.worker) (unlock me) (fun _ place => place = .outside)
      (.inside stage) := by
  apply follows_modify
  rintro ω s ⟨held, holds⟩
  have rest := leaves ω s held holds
  refine ⟨.outside, ?_, rfl⟩
  cases mutex : s.mutex with
  | none =>
      simp only [mutex, Child.written] at rest ⊢
      exact ⟨by simp [isMutex, mutex], by simpa using rest⟩
  | some holder =>
      simp only [mutex, Child.written] at rest ⊢
      exact ⟨by simp [isMutex, mutex], by simpa using rest⟩

/-- A thread keeps to the protocol of a guard, if each of its requests does. -/
theorem guard_serve {w : World} {worker : Nat} {requests : List RequestRec}
    (handler : ∀ number r, requests[number]? = some r →
      Follows ok (guard.protocol worker) (apHookRequestHandler w { worker, number } r)
        (fun _ place => place = .outside) .outside)
    (returned : ∀ ω s number, guard.outside worker ω s
      { s.written ω with lockEvents := .returned { worker, number } :: s.lockEvents }) :
    Follows ok (guard.protocol worker) (serve w worker 0 requests) (fun _ _ => True)
      .outside := by
  refine serve_follows handler ?_ 0
  intro number
  apply follows_modify
  intro ω s _
  exact ⟨.outside, returned ω s number, rfl⟩

end Guards

end Code

end RApache
