import RApache.Workers

/-!
# Who holds the lock

A request takes the lock, works with `MR_Request.r` set to itself, tears the request down
once and releases the lock.  This is so for all threads as long as no `EXEC` of
`RApacheInfo` fails, which tears the request down before the handler does.
-/

namespace RApache

open Stepwise
open Stepwise.Program (Every Follows Protocol Place Guard PoolReaches Reaches)

/-! ## Sections -/

/-- How far a request has come that has taken the lock. -/
inductive LockStage where
  | entered
  | working (r : RequestRec)
  | tornDown (r : RequestRec)
  | cleared

/-- The request that is in the locked section, and whether there is a lock. -/
structure LockSection where
  who : Owner
  locked : Bool
  stage : LockStage

/-- The lock events, the newest first, are those of requests that pass through the locked
section one after the other: each is entered and left once by the same request, which works
as the current one, is torn down once, and clears only itself. -/
inductive Orderly (requests : Nat → List RequestRec) :
    List LockEvent → Option LockSection → Prop where
  | start : Orderly requests [] none
  | entered {events : List LockEvent} {who : Owner} {locked : Bool}
      (before : Orderly requests events none) :
      Orderly requests (.entered who locked :: events) (some ⟨who, locked, .entered⟩)
  | working {events : List LockEvent} {who : Owner} {locked : Bool} {r : RequestRec}
      (before : Orderly requests events (some ⟨who, locked, .entered⟩))
      (isRequest : (requests who.worker)[who.number]? = some r) :
      Orderly requests (.working who r :: events) (some ⟨who, locked, .working r⟩)
  | tornDown {events : List LockEvent} {who : Owner} {locked : Bool} {r : RequestRec}
      (before : Orderly requests events (some ⟨who, locked, .working r⟩)) :
      Orderly requests (.tornDown who (some r) :: events) (some ⟨who, locked, .tornDown r⟩)
  | cleared {events : List LockEvent} {who : Owner} {locked : Bool} {r : RequestRec}
      (before : Orderly requests events (some ⟨who, locked, .tornDown r⟩)) :
      Orderly requests (.cleared who (some r) :: events) (some ⟨who, locked, .cleared⟩)
  | left {events : List LockEvent} {who : Owner} {locked : Bool} {holder : Option Nat}
      (before : Orderly requests events (some ⟨who, locked, .cleared⟩))
      (own : ∀ worker, holder = some worker → worker = who.worker) :
      Orderly requests (.left who locked holder :: events) none
  | returned {events : List LockEvent} {inside : Option LockSection} {who : Owner}
      (before : Orderly requests events inside)
      (outside : ∀ found, inside = some found → found.who ≠ who) :
      Orderly requests (.returned who :: events) inside

/-! ## Counting -/

/-- How often a request took the lock. -/
def timesAcquired (who : Owner) (events : List LockEvent) : Nat :=
  events.countP fun
    | .entered owner true => owner = who
    | _ => false

/-- How often a request released the lock. -/
def timesReleased (who : Owner) (events : List LockEvent) : Nat :=
  events.countP fun
    | .left owner true _ => owner = who
    | _ => false

/-- How often a request passed the lock, if there is one. -/
def timesEntered (who : Owner) (events : List LockEvent) : Nat :=
  events.countP fun
    | .entered owner _ => owner = who
    | _ => false

/-- How often `TearDownRequest` ran in a request. -/
def timesTornDown (who : Owner) (events : List LockEvent) : Nat :=
  events.countP fun
    | .tornDown owner _ => owner = who
    | _ => false

/-- What a request in the section still has to release. -/
def toRelease (who : Owner) : Option LockSection → Nat
  | some inside => if inside.who = who ∧ inside.locked then 1 else 0
  | none => 0

/-- What a request in the section still has to tear down. -/
def toTearDown (who : Owner) : Option LockSection → Nat
  | some ⟨owner, _, .entered⟩ => if owner = who then 1 else 0
  | some ⟨owner, _, .working _⟩ => if owner = who then 1 else 0
  | _ => 0

/-- What is taken is released. -/
theorem Orderly.acquired {requests : Nat → List RequestRec} {events : List LockEvent}
    {inside : Option LockSection} (orderly : Orderly requests events inside) (who : Owner) :
    timesAcquired who events = timesReleased who events + toRelease who inside := by
  unfold timesAcquired timesReleased
  induction orderly with
  | start => rfl
  | @entered events owner locked _ ih =>
      simp only [toRelease, Nat.add_zero] at ih
      cases locked with
      | false => simp [toRelease, ih]
      | true => simp [toRelease, List.countP_cons, ih]
  | working _ _ ih => simpa [toRelease, List.countP_cons] using ih
  | tornDown _ ih => simpa [toRelease, List.countP_cons] using ih
  | cleared _ ih => simpa [toRelease, List.countP_cons] using ih
  | @left events owner locked holder _ _ ih =>
      cases locked with
      | false => simpa [toRelease, List.countP_cons] using ih
      | true => simpa [toRelease, List.countP_cons] using ih
  | returned _ _ ih => simpa [List.countP_cons] using ih

/-- What is entered is torn down. -/
theorem Orderly.tearsDown {requests : Nat → List RequestRec} {events : List LockEvent}
    {inside : Option LockSection} (orderly : Orderly requests events inside) (who : Owner) :
    timesEntered who events = timesTornDown who events + toTearDown who inside := by
  unfold timesEntered timesTornDown
  induction orderly with
  | start => rfl
  | entered _ ih =>
      simp only [toTearDown, Nat.add_zero] at ih
      simp [toTearDown, List.countP_cons, ih]
  | working _ _ ih => simpa [toTearDown, List.countP_cons] using ih
  | tornDown _ ih =>
      simp only [toTearDown] at ih
      simp [toTearDown, List.countP_cons, ih]
  | cleared _ ih => simpa [toTearDown, List.countP_cons] using ih
  | left _ _ ih => simpa [toTearDown, List.countP_cons] using ih
  | returned _ _ ih => simpa [List.countP_cons] using ih

/-- A request that has returned is not in the section, and stays out of it. -/
theorem Orderly.returned_outside {requests : Nat → List RequestRec} {events : List LockEvent}
    {inside : Option LockSection} (orderly : Orderly requests events inside) {who : Owner}
    (last : ∃ earlier, events = .returned who :: earlier) :
    toRelease who inside = 0 ∧ toTearDown who inside = 0 := by
  rcases last with ⟨earlier, rfl⟩
  cases orderly with
  | returned before outside =>
      rcases inside with _ | ⟨owner, locked, stage⟩
      · exact ⟨rfl, rfl⟩
      · have other : owner ≠ who := outside _ rfl
        constructor
        · simp [toRelease, other]
        · cases stage with
          | entered => simp [toTearDown, other]
          | working r => simp [toTearDown, other]
          | tornDown r => rfl
          | cleared => rfl

/-- A request that has worked is cleared, or it is still in the section. -/
theorem Orderly.cleared_or_inside {requests : Nat → List RequestRec} {events : List LockEvent}
    {inside : Option LockSection} (orderly : Orderly requests events inside) {who : Owner}
    {r : RequestRec} (worked : .working who r ∈ events) :
    .cleared who (some r) ∈ events ∨ ∃ locked,
      inside = some ⟨who, locked, .working r⟩ ∨ inside = some ⟨who, locked, .tornDown r⟩ := by
  induction orderly with
  | start => cases worked
  | entered _ ih =>
      rcases ih (by simpa using worked) with cleared | ⟨locked, none | none⟩
      · exact .inl (List.mem_cons_of_mem _ cleared)
      · cases none
      · cases none
  | @working events owner locked current _ _ ih =>
      rcases List.mem_cons.mp worked with isThis | earlier
      · cases isThis
        exact .inr ⟨locked, .inl rfl⟩
      · rcases ih earlier with cleared | ⟨locked, other | other⟩
        · exact .inl (List.mem_cons_of_mem _ cleared)
        · cases other
        · cases other
  | @tornDown events owner locked current _ ih =>
      rcases ih (by simpa using worked) with cleared | ⟨locked, this | other⟩
      · exact .inl (List.mem_cons_of_mem _ cleared)
      · cases this
        exact .inr ⟨_, .inr rfl⟩
      · cases other
  | cleared _ ih =>
      rcases ih (by simpa using worked) with cleared | ⟨locked, other | this⟩
      · exact .inl (List.mem_cons_of_mem _ cleared)
      · cases other
      · cases this
        exact .inl List.mem_cons_self
  | left _ _ ih =>
      rcases ih (by simpa using worked) with cleared | ⟨locked, other | other⟩
      · exact .inl (List.mem_cons_of_mem _ cleared)
      · cases other
      · cases other
  | returned _ _ ih =>
      rcases ih (by simpa using worked) with cleared | inside
      · exact .inl (List.mem_cons_of_mem _ cleared)
      · exact .inr inside

/-- A request that returns has been cleared, if it has worked. -/
theorem Orderly.returned_cleared {requests : Nat → List RequestRec} {events : List LockEvent}
    {inside : Option LockSection} (orderly : Orderly requests events inside) {who : Owner}
    (last : events.head? = some (.returned who)) {r : RequestRec}
    (worked : .working who r ∈ events) : .cleared who (some r) ∈ events := by
  rcases orderly.cleared_or_inside worked with cleared | ⟨locked, isInside⟩
  · exact cleared
  · cases orderly with
    | returned before outside =>
        cases last
        rcases isInside with this | this
        · exact (outside _ this rfl).elim
        · exact (outside _ this rfl).elim
    | start => cases last
    | entered => cases last
    | working => cases last
    | tornDown => cases last
    | cleared => cases last
    | left => cases last

/-! ## The protocol of the lock -/

/-- What holds of `MR_Request.r` in a section. -/
def LockStage.Current (s : Child) : LockStage → Prop
  | working r => s.session.request.r = some r
  | tornDown r => s.session.request.r = some r
  | entered => True
  | cleared => True

/-- The lock and the events that were recorded of it. -/
def lockGuard (requests : Nat → List RequestRec) :
    Guard Answer Child Nat (Owner × LockStage) where
  mutex s := s.mutex
  rest s := Orderly requests s.lockEvents none
  holds worker stage s :=
    stage.1.worker = worker ∧
      Orderly requests s.lockEvents (some ⟨stage.1, s.mutex.isSome, stage.2⟩) ∧
      stage.2.Current s
  outside worker _ s s' :=
    s'.mutex = s.mutex ∧ s'.session = s.session ∧
      (s'.lockEvents = s.lockEvents ∨
        ∃ number, s'.lockEvents = .returned ⟨worker, number⟩ :: s.lockEvents)

theorem lockGuard_lawful (requests : Nat → List RequestRec) : (lockGuard requests).Lawful where
  mutex outside := outside.1
  rest := by
    intro worker ω s s' outside rest
    rcases outside with ⟨-, -, same | ⟨number, returned⟩⟩
    · simpa only [lockGuard, same] using rest
    · simp only [lockGuard, returned]
      exact .returned rest (by simp)
  holds := by
    rintro worker other ⟨who, stage⟩ ω s s' ⟨mutex, session, events⟩ isOther ⟨own, orderly, current⟩
    refine ⟨own, ?_, ?_⟩
    · rcases events with same | ⟨number, returned⟩
      · simpa only [mutex, same] using orderly
      · rw [mutex, returned]
        refine .returned orderly ?_
        intro found isFound
        cases isFound
        rintro rfl
        exact isOther own.symm
    · cases stage with
      | entered => trivial
      | working r => simpa only [LockStage.Current, session] using current
      | tornDown r => simpa only [LockStage.Current, session] using current
      | cleared => trivial

section Locking

variable {requests : Nat → List RequestRec} {w : World} {me : Owner} {r : RequestRec}

/-- A step in the section that changes neither the lock, nor its events, nor the request. -/
theorem lockGuard_stays {stage : LockStage} {ω : Answer} {s s' : Child}
    (mutex : s'.mutex = s.mutex) (events : s'.lockEvents = s.lockEvents)
    (request : s'.session.request.r = s.session.request.r) :
    Code.Stays ((lockGuard requests).protocol me.worker) (.inside (me, stage)) ω s s' := by
  rintro ⟨held, own, orderly, current⟩
  refine ⟨mutex, own, ?_, ?_⟩
  · rw [mutex, events]
    exact orderly
  · cases stage with
    | entered => trivial
    | working r => exact request.trans current
    | tornDown r => exact request.trans current
    | cleared => trivial

theorem lockGuard_allowsHandler (stage : LockStage) :
    Code.AllowsHandler NoExecFailure
      (Code.Stays ((lockGuard requests).protocol me.worker) (.inside (me, stage))) w me where
  toAllowsCode := by
    apply Code.AllowsWork.code
    constructor
    intro ω s s' step
    cases step with
    | read => exact lockGuard_stays rfl rfl rfl
    | directory cwd => exact lockGuard_stays rfl rfl rfl
    | session isWork performed =>
        have kept := (Session.perform_keeps w.fuel _ s.session).1 (SessionOp.isWork_notClear isWork)
        rw [performed] at kept
        exact lockGuard_stays rfl rfl kept
  caches := by
    intro ω s s' step
    cases step with
    | change => exact lockGuard_stays rfl rfl rfl
    | nullUse => exact lockGuard_stays rfl rfl rfl

/-- `TearDownRequest` passes through the stages of the section and leaves it. -/
theorem lockGuard_tearDown (flush : Bool) :
    Follows NoExecFailure ((lockGuard requests).protocol me.worker)
      (Code.tearDownRequest w me flush) (fun _ place => place = .outside)
      (.inside (me, .working r)) := by
  have restored : Follows NoExecFailure ((lockGuard requests).protocol me.worker)
      (Code.restoreDirectory me) (fun _ place => place = .inside (me, .tornDown r))
      (.inside (me, .working r)) := by
    apply Code.follows_atomic
    rintro ω s value s' ⟨held, own, orderly, current⟩ acted -
    cases acted
    refine ⟨.inside (me, .tornDown r), ⟨rfl, own, ?_, current⟩, rfl⟩
    have isR : s.session.request.r = some r := current
    simp only [Child.written, isR]
    exact .tornDown orderly
  have pushedBack : Follows NoExecFailure ((lockGuard requests).protocol me.worker)
      (Code.clearPushBack w) (fun _ place => place = .inside (me, .tornDown r))
      (.inside (me, .tornDown r)) :=
    Code.follows_of_every
      (Code.clearPushBack_every (lockGuard_allowsHandler (.tornDown r)).toAllowsWork)
  have cleans {op : SessionOp} (isCleaning : op.isCleaning = true) :
      Follows NoExecFailure ((lockGuard requests).protocol me.worker) (Code.perform w op)
        (fun _ place => place = .inside (me, .tornDown r)) (.inside (me, .tornDown r)) := by
    apply Code.follows_perform
    intro ω s value session relies performed
    have kept := (Session.perform_keeps w.fuel op s.session).1
      (SessionOp.isCleaning_notClear isCleaning)
    rw [performed] at kept
    exact ⟨_, lockGuard_stays rfl rfl kept relies, rfl⟩
  have cleared : Follows NoExecFailure ((lockGuard requests).protocol me.worker)
      (Code.clearRequest w me) (fun _ place => place = .inside (me, .cleared))
      (.inside (me, .tornDown r)) := by
    apply Code.follows_modify
    rintro ω s ⟨held, own, orderly, current⟩
    refine ⟨.inside (me, .cleared), ⟨rfl, own, ?_, trivial⟩, rfl⟩
    have isR : s.session.request.r = some r := current
    simp only [Child.written, isR]
    exact .cleared orderly
  apply Code.follows_tearDownRequest restored pushedBack (cleans rfl) (cleans rfl) (cleans rfl)
    cleared
  rintro _ rfl
  apply Code.guard_unlock fun _ => rfl
  rintro ω s held ⟨own, orderly, -⟩
  refine .left orderly ?_
  rcases held with missing | held
  · simp [show s.mutex = none from missing]
  · simp [show s.mutex = some (some me.worker) from held, eq_comm]

/-- Every request keeps to the protocol of the lock. -/
theorem lockGuard_locking (isRequest : (requests me.worker)[me.number]? = some r) :
    Code.Locking NoExecFailure ((lockGuard requests).protocol me.worker) .outside
      (fun _ : Unit => .inside (me, .entered)) (fun _ => .inside (me, .working r))
      (fun _ => .inside (me, .working r)) w me r where
  handler _ := lockGuard_allowsHandler (.working r)
  writer := by
    intro _ ω s s' step
    cases step with
    | set writer => exact lockGuard_stays rfl rfl rfl
  filepath := Code.guard_filepath fun _ _ _ => ⟨rfl, rfl, .inl rfl⟩
  lock := by
    refine Code.guard_lock (fun _ => rfl) (fun _ _ => ⟨rfl, rfl, .inl rfl⟩) ?_
    intro ω s rest
    refine ⟨(), rfl, ?_, trivial⟩
    rw [Option.isSome_map]
    exact .entered rest
  setRequest := by
    intro _
    apply Code.follows_modify
    rintro ω s ⟨held, own, orderly, -⟩
    exact ⟨.inside (me, .working r), ⟨rfl, own, .working orderly isRequest, rfl⟩, rfl⟩
  createOut := by
    intro _
    apply Code.follows_createOut
    · exact fun ω s relies => ⟨_, lockGuard_stays rfl rfl rfl relies, rfl⟩
    · exact fun ω s relies => ⟨_, lockGuard_stays rfl rfl rfl relies, rfl⟩
  setHandler := by
    intro _ h
    apply Code.follows_modify
    intro ω s relies
    exact ⟨_, lockGuard_stays rfl rfl rfl relies, rfl⟩
  refresh := by
    intro _ h
    apply Code.follows_refresh
    exact fun ω s relies => ⟨_, lockGuard_stays rfl rfl rfl relies, rfl⟩
  tearDown _ flush := lockGuard_tearDown flush

end Locking

/-! ## All threads -/

/-- Every thread keeps to the protocol of the lock. -/
theorem lockGuard_follows (workers : Workers) (w : World) (worker : Nat) :
    Follows NoExecFailure ((lockGuard workers.requests).protocol worker)
      (workers.pool w worker) (fun _ _ => True) .outside := by
  have handler (number : Nat) (r : RequestRec)
      (isRequest : (workers.requests worker)[number]? = some r) :
      Follows NoExecFailure ((lockGuard workers.requests).protocol worker)
        (Code.apHookRequestHandler w { worker, number } r) (fun _ place => place = .outside)
        .outside :=
    (@lockGuard_locking workers.requests w { worker, number } r
      isRequest).serving.apHookRequestHandler
  exact Code.guard_serve handler fun ω s number => ⟨rfl, rfl, .inr ⟨number, rfl⟩⟩

/-- What is known of the lock in a state of the child. -/
structure LockDiscipline (requests : Nat → List RequestRec) (s : Child) : Prop where
  /-- Requests pass through the locked section one after the other. -/
  orderly : ∃ inside, Orderly requests s.lockEvents inside
  /-- Until it is torn down, a request in the section is the current one. -/
  current : ∀ who locked r, Orderly requests s.lockEvents (some ⟨who, locked, .working r⟩) →
    s.session.request.r = some r
  /-- The lock is held by the request in the section. -/
  held : ∀ holder, s.mutex = some holder →
    (∃ who locked stage, Orderly requests s.lockEvents (some ⟨who, locked, stage⟩) ∧
      holder = some who.worker) ∨ Orderly requests s.lockEvents none ∧ holder = none
  /-- A request that returns has released the lock as often as it took it, and has been torn
  down as often as it passed the lock. -/
  balanced : ∀ who earlier, s.lockEvents = .returned who :: earlier →
    timesReleased who s.lockEvents = timesAcquired who s.lockEvents ∧
      timesTornDown who s.lockEvents = timesEntered who s.lockEvents

/-- Lock events tell who is in the section. -/
theorem Orderly.unique {requests : Nat → List RequestRec} {events : List LockEvent}
    {inside inside' : Option LockSection} (orderly : Orderly requests events inside)
    (orderly' : Orderly requests events inside') : inside = inside' := by
  induction orderly generalizing inside' with
  | start =>
      cases orderly'
      rfl
  | entered _ ih =>
      cases orderly'
      rfl
  | working before isRequest ih =>
      cases orderly' with
      | working before' =>
          cases ih before'
          rfl
  | tornDown before ih =>
      cases orderly' with
      | tornDown before' =>
          cases ih before'
          rfl
  | cleared before ih =>
      cases orderly' with
      | cleared before' =>
          cases ih before'
          rfl
  | left before own ih =>
      cases orderly'
      rfl
  | returned before outside ih =>
      cases orderly' with
      | returned before' => exact ih before'

/-- As long as no `EXEC` fails, the steps at the lock are in order. -/
theorem reach_orderly {workers : Workers} {w : World} {cwd : Bytes} {files : Files} {s : Child}
    (reach : workers.Reach NoExecFailure w cwd files s) :
    ∃ inside, Orderly workers.requests s.lockEvents inside := by
  rcases Workers.agrees (lockGuard_lawful workers.requests) (fun _ => rfl) Orderly.start
    (lockGuard_follows workers w) reach with ⟨places, agrees⟩
  rcases agrees.resource with ⟨-, orderly, -⟩ | ⟨worker, stage, -, -, holds, -⟩
  · exact ⟨none, orderly⟩
  · exact ⟨_, holds.2.1⟩

/-- As long as no `EXEC` fails, every request of every thread keeps the discipline of the
lock, in any order of the threads' steps. -/
theorem lock_discipline_is_kept (workers : Workers) (w : World) (cwd : Bytes) (files : Files)
    (s : Child) (reach : workers.Reach NoExecFailure w cwd files s) :
    LockDiscipline workers.requests s := by
  have rest : (lockGuard workers.requests).rest (workers.start cwd files) := Orderly.start
  rcases Workers.agrees (lockGuard_lawful workers.requests) (fun _ => rfl) rest
    (lockGuard_follows workers w) reach with ⟨places, agrees⟩
  have balanced {inside : Option LockSection}
      (orderly : Orderly workers.requests s.lockEvents inside) :
      ∀ who earlier, s.lockEvents = .returned who :: earlier →
        timesReleased who s.lockEvents = timesAcquired who s.lockEvents ∧
          timesTornDown who s.lockEvents = timesEntered who s.lockEvents := by
    intro who earlier last
    rcases orderly.returned_outside ⟨earlier, last⟩ with ⟨released, tornDown⟩
    rw [orderly.acquired who, orderly.tearsDown who, released, tornDown]
    exact ⟨rfl, rfl⟩
  rcases agrees.resource with ⟨free, orderly, -⟩ | ⟨worker, ⟨who, stage⟩, -, held, holds, -⟩
  · refine ⟨⟨none, orderly⟩, ?_, ?_, balanced orderly⟩
    · intro who locked r inside
      cases orderly.unique inside
    · intro holder isHolder
      refine .inr ⟨orderly, ?_⟩
      cases holder with
      | none => rfl
      | some worker => exact (free worker isHolder).elim
  · rcases holds with ⟨own, orderly, current⟩
    refine ⟨⟨_, orderly⟩, ?_, ?_, balanced orderly⟩
    · intro who' locked r inside
      cases orderly.unique inside
      exact current
    · intro holder isHolder
      refine .inl ⟨who, _, stage, orderly, ?_⟩
      rcases held with missing | held
      · have noMutex : s.mutex = none := missing
        rw [noMutex] at isHolder
        cases isHolder
      · have isMutex : s.mutex = some (some worker) := held
        rw [isMutex, Option.some.injEq] at isHolder
        rw [← isHolder, own]

/-- One thread that serves one request to a handler without a directive. -/
def oneVisitor (handler : Bytes) : Workers where
  requests worker := if worker = 0 then [{ address := 0, handler }] else []
  threaded := true
  single := by simp

/-- Some steps of the thread, in which all R code fails. -/
def oneVisit (test : Answer → Child → Child → Bool) (handler : Bytes) (count : Nat) :
    Option ((Nat → Code Unit) × Child) :=
  Program.runPoolIf test (List.replicate count (0, { behaviour := .finish none }))
    ((oneVisitor handler).pool plainWorld) ((oneVisitor handler).start (bytes "/") fun _ => [])

theorem oneVisit_reach {ok : Answer → Child → Child → Prop}
    {test : Answer → Child → Child → Bool} {handler : Bytes} {count : Nat}
    (passes : ∀ ω s s', test ω s s' = true → ok ω s s')
    (ran : (oneVisit test handler count).isSome) :
    (oneVisitor handler).Reach ok plainWorld (bytes "/") (fun _ => [])
      ((oneVisit test handler count).get ran).2 :=
  ⟨_, Program.runPoolIf_reaches passes .refl (Option.some_get ran).symm⟩

/-- A request for which `SetUpRequest` fails passes through the locked section. -/
theorem failed_set_up_keeps_discipline :
    ∃ s, (oneVisitor (bytes "r-handler")).Reach NoExecFailure plainWorld (bytes "/")
        (fun _ => []) s ∧
      LockDiscipline (oneVisitor (bytes "r-handler")).requests s ∧ s.lockEvents.length = 6 := by
  have ran : (oneVisit noExecFailure (bytes "r-handler") 15).isSome := rfl
  have reach := oneVisit_reach (fun _ _ _ => noExecFailure_iff) ran
  exact ⟨_, reach, lock_discipline_is_kept _ plainWorld (bytes "/") (fun _ => []) _ reach, rfl⟩

/-- If the first `EXEC` of the r-info page fails, the request is torn down and the lock
released twice. -/
theorem failed_exec_releases_twice :
    ¬ ∀ (workers : Workers) (w : World) (cwd : Bytes) (files : Files) (s : Child),
      workers.Reach always w cwd files s → LockDiscipline workers.requests s := by
  intro kept
  have ran : (oneVisit (fun _ _ _ => true) (bytes "r-info") 22).isSome := rfl
  have reach := @oneVisit_reach always _ _ _ (fun _ _ _ _ => trivial) ran
  have twice : 2 = 1 := ((kept _ _ _ _ _ reach).balanced ⟨0, 0⟩ _ rfl).1
  exact absurd twice (by decide)

end RApache
