import RApache.Workers

/-!
# The working directory

Every request saves the working directory in `MR_Request.oldwd`, before it takes the lock, and
`TearDownRequest` changes back to it.
-/

namespace RApache

open Stepwise
open Stepwise.Program (Every Follows Guard)

/-- Whether a request is between `SetUpRequest` and the end of `TearDownRequest`, by the lock
events. -/
def inProgress : List LockEvent → Bool
  | [] => false
  | .entered _ _ :: _ => true
  | .left _ _ _ :: _ => false
  | _ :: events => inProgress events

/-- The directory call of `TearDownRequest` succeeds. -/
def DirectoryCallsSucceed (ω : Answer) (s s' : Child) : Prop :=
  ∀ who r, s'.lockEvents = .tornDown who r :: s.lockEvents → ω.success = true

/-- The directory saved for a request stays the one that the child started with, until the
request is torn down: `oldwd` is only written while that is the working directory, the directory
is only changed while one is saved, and no `EXEC` fails. -/
structure KeepsSaved (start : Bytes) (ω : Answer) (s s' : Child) : Prop where
  saved : s'.oldwd ≠ s.oldwd → s'.oldwd = none ∨ s.cwd = start
  changed : s'.cwd ≠ s.cwd → s.oldwd.isSome
  exec : NoExecFailure ω s s'

/-- A step of a run in which the directory calls of `TearDownRequest` succeed and the saved
directory is kept. -/
def DirectoryStep (start : Bytes) (ω : Answer) (s s' : Child) : Prop :=
  DirectoryCallsSucceed ω s s' ∧ KeepsSaved start ω s s'

/-! ## The protocol of the working directory -/

/-- How far a request is in the section. -/
inductive DirectoryStage where
  | serving
  | restored
  deriving DecidableEq, Repr

/-- The saved directory is the one that the child started with. -/
def Child.SavedIs (start : Bytes) (s : Child) : Prop := s.oldwd = none ∨ s.oldwd = some start

/-- What is known of the working directory at each stage. -/
def DirectoryStage.Holds (start : Bytes) (s : Child) : DirectoryStage → Prop
  | serving => inProgress s.lockEvents = true ∧ s.SavedIs start ∧ (s.oldwd = none → s.cwd = start)
  | restored => inProgress s.lockEvents = true ∧ s.SavedIs start ∧ s.cwd = start

/-- Steps of threads outside: they may save the directory that the child started with. -/
structure OutsideSection (start : Bytes) (s s' : Child) : Prop where
  mutex : s'.mutex = s.mutex
  cwd : s'.cwd = s.cwd
  events : inProgress s'.lockEvents = inProgress s.lockEvents
  oldwd : s'.oldwd = s.oldwd ∨ s'.oldwd = some start

/-- The working directory that the lock guards. -/
def directoryGuard (start : Bytes) : Guard Answer Child Nat DirectoryStage where
  mutex s := s.mutex
  rest s := s.SavedIs start ∧ s.cwd = start
  holds _ stage s := stage.Holds start s
  outside _ _ s s' := OutsideSection start s s'

variable {start : Bytes}

theorem OutsideSection.savedIs {s s' : Child} (outside : OutsideSection start s s')
    (saved : s.SavedIs start) : s'.SavedIs start := by
  rcases outside.oldwd with same | isStart
  · rw [Child.SavedIs, same]
    exact saved
  · exact .inr isStart

theorem OutsideSection.holds {s s' : Child} {stage : DirectoryStage}
    (outside : OutsideSection start s s') (holds : stage.Holds start s) : stage.Holds start s' := by
  cases stage with
  | serving =>
      rcases holds with ⟨isInside, saved, unchanged⟩
      constructor
      · rw [outside.events]
        exact isInside
      · constructor
        · exact outside.savedIs saved
        · intro none
          rw [outside.cwd]
          rcases outside.oldwd with same | isStart
          · exact unchanged (same ▸ none)
          · rw [none] at isStart
            cases isStart
  | restored =>
      rcases holds with ⟨isInside, saved, isCwd⟩
      constructor
      · rw [outside.events]
        exact isInside
      · constructor
        · exact outside.savedIs saved
        · rw [outside.cwd]
          exact isCwd

theorem directoryGuard_lawful : (directoryGuard start).Lawful where
  mutex outside := outside.mutex
  rest outside rest := ⟨outside.savedIs rest.1, outside.cwd.trans rest.2⟩
  holds outside _ holds := outside.holds holds

section Locking

variable {w : World} {me : Owner} {r : RequestRec}

/-- A step in the section that leaves the lock, the directories and the section alone. -/
theorem directoryGuard_stays {ok : Answer → Child → Child → Prop} {stage : DirectoryStage}
    {ω : Answer} {s s' : Child}
    (mutex : s'.mutex = s.mutex) (cwd : s'.cwd = s.cwd) (oldwd : s'.oldwd = s.oldwd)
    (events : inProgress s'.lockEvents = inProgress s.lockEvents) :
    Code.Stays (((directoryGuard start).protocol me.worker).given ok) (.inside stage) ω s s' := by
  rintro ⟨-, holds⟩ -
  have outside : OutsideSection start s s' := ⟨mutex, cwd, events, .inl oldwd⟩
  exact ⟨mutex, outside.holds holds⟩

/-- A change of the directory. -/
theorem directoryGuard_changes {ω : Answer} {s : Child} {cwd : Bytes} :
    Code.Stays (((directoryGuard start).protocol me.worker).given (DirectoryStep start))
      (.inside .serving) ω s { s.written ω with cwd } := by
  rintro ⟨-, isInside, saved, unchanged⟩ ⟨-, keeps⟩
  refine ⟨rfl, isInside, saved, ?_⟩
  intro none
  have notSaved : s.oldwd = Option.none := none
  by_cases same : cwd = s.cwd
  · exact same.trans (unchanged notSaved)
  · have isSaved := keeps.changed same
    rw [notSaved] at isSaved
    cases isSaved

theorem directoryGuard_allowsHandler :
    Code.AllowsHandler (DirectoryStep start)
      (Code.Stays (((directoryGuard start).protocol me.worker).given (DirectoryStep start))
        (.inside .serving)) w me where
  work := by
    intro ω s s' step
    cases step with
    | read => exact directoryGuard_stays rfl rfl rfl rfl
    | directory cwd => exact directoryGuard_changes
    | session isWork performed => exact directoryGuard_stays rfl rfl rfl rfl
  execFailure := by
    intro ω s value s' acted ⟨_, keeps⟩
    cases acted
    exact (keeps.exec me rfl).elim
  caches := by
    intro ω s s' step
    cases step with
    | change => exact directoryGuard_stays rfl rfl rfl rfl
    | nullUse => exact directoryGuard_stays rfl rfl rfl rfl

/-- `TearDownRequest` changes back to the saved directory. -/
theorem restoreDirectory_follows (absolute : start.head? = some (byte '/')) :
    Follows (DirectoryStep start) ((directoryGuard start).protocol me.worker)
      (Code.restoreDirectory me) (fun _ place => place = .inside .restored)
      (.inside .serving) := by
  apply Code.follows_atomic
  rintro ω s value s' ⟨-, isInside, saved, unchanged⟩ acted ⟨succeed, -⟩
  cases acted
  have success : ω.success = true := succeed me s.session.request.r rfl
  refine ⟨.inside .restored, ⟨rfl, isInside, saved, ?_⟩, rfl⟩
  change Code.restoredDirectory ω (s.written ω) = start
  have written : (s.written ω).oldwd = s.oldwd := rfl
  rw [Code.restoredDirectory, written]
  rcases saved with none | isStart
  · rw [none]
    exact unchanged none
  · rw [isStart, success]
    simp only [if_true, resolve, absolute]

/-- `TearDownRequest` restores the directory before it releases the lock. -/
theorem tearDownRequest_restores (absolute : start.head? = some (byte '/')) (flush : Bool) :
    Follows (DirectoryStep start) ((directoryGuard start).protocol me.worker)
      (Code.tearDownRequest w me flush) (fun _ place => place = .outside)
      (.inside .serving) := by
  have performed (op : SessionOp) :
      Follows (DirectoryStep start) ((directoryGuard start).protocol me.worker)
        (Code.perform w op) (fun _ place => place = .inside .restored) (.inside .restored) := by
    apply Code.follows_perform
    rintro ω s value session ⟨-, holds⟩ -
    exact ⟨.inside .restored, ⟨rfl, holds⟩, rfl⟩
  -- R code that is always the same does not change the directory
  have pushedBack : Follows (DirectoryStep start) ((directoryGuard start).protocol me.worker)
      (Code.clearPushBack w) (fun _ place => place = .inside .restored) (.inside .restored) := by
    have printed (error : Bytes) : Every (DirectoryStep start)
        (Code.Stays ((directoryGuard start).protocol me.worker) (.inside .restored))
        (Code.perform w (.call (.writeConsole error true))) := by
      apply Code.every_atomic
      rintro ω s value s' acted ⟨-, holds⟩
      split at acted
      next =>
        cases acted
        exact ⟨rfl, holds⟩
      next => cases acted
    have looked : Follows (DirectoryStep start) ((directoryGuard start).protocol me.worker)
        (Code.read fun ω s => if s.session.bbIn.isSome ∧ s.session.request.readStarted then
          ω.errors else []) (fun _ place => place = .inside .restored) (.inside .restored) := by
      apply Code.follows_atomic
      rintro ω s value s' ⟨-, holds⟩ acted -
      cases acted
      exact ⟨.inside .restored, ⟨rfl, holds⟩, rfl⟩
    refine looked.bind ?_
    rintro errors _ rfl
    exact Code.follows_of_every (Code.printErrors_each printed errors)
  have cleared : Follows (DirectoryStep start) ((directoryGuard start).protocol me.worker)
      (Code.clearRequest w me) (fun _ place => place = .inside .restored)
      (.inside .restored) := by
    apply Code.follows_modify
    rintro ω s ⟨-, isInside, -, isCwd⟩
    exact ⟨.inside .restored, ⟨rfl, isInside, .inl rfl, isCwd⟩, rfl⟩
  have unlocked : Follows (DirectoryStep start) ((directoryGuard start).protocol me.worker)
      (Code.unlock me) (fun _ place => place = .outside) (.inside .restored) :=
    Code.guard_unlock (fun _ => rfl) fun _ _ _ holds => ⟨holds.2.1, holds.2.2⟩
  apply Code.follows_tearDownRequest (restoreDirectory_follows absolute) pushedBack (performed _)
    (performed _) (performed _) cleared
  rintro _ rfl
  exact unlocked

/-- `apr_filepath_get` saves the directory, outside the section. -/
theorem apFilepathGet_follows :
    Follows (DirectoryStep start) ((directoryGuard start).protocol me.worker)
      Code.apFilepathGet (fun _ place => place = .outside) .outside := by
  apply Code.follows_atomic
  intro ω s value s' _ acted ⟨_, keeps⟩
  split at acted
  next =>
    cases acted
    refine ⟨.outside, ⟨rfl, rfl, rfl, ?_⟩, rfl⟩
    by_cases same : some s.cwd = s.oldwd
    · exact .inl same
    · rcases keeps.saved same with none | isStart
      · cases none
      · exact .inr (congrArg some isStart)
  next =>
    cases acted
    exact ⟨.outside, ⟨rfl, rfl, rfl, .inl rfl⟩, rfl⟩

/-- Every request keeps to the protocol of the working directory. -/
theorem directoryGuard_locking (absolute : start.head? = some (byte '/')) :
    Code.Locking (DirectoryStep start)
      (((directoryGuard start).protocol me.worker).given (DirectoryStep start)) .outside
      (fun _ : Unit => .inside .serving) (fun _ => .inside .serving) (fun _ => .inside .serving)
      w me r where
  handler _ := directoryGuard_allowsHandler
  writer := by
    intro _ ω s s' step
    cases step with
    | set writer => exact directoryGuard_stays rfl rfl rfl rfl
  filepath := Program.follows_given_iff.mpr apFilepathGet_follows
  lock := by
    apply Program.follows_given_iff.mpr
    refine Code.guard_lock (fun _ => rfl) (fun _ _ => ⟨rfl, rfl, rfl, .inl rfl⟩) ?_
    rintro ω s ⟨saved, isCwd⟩
    exact ⟨(), rfl, saved, fun _ => isCwd⟩
  setRequest _ := Code.follows_modify fun ω s relies =>
    ⟨_, directoryGuard_stays rfl rfl rfl rfl relies, rfl⟩
  createOut := by
    intro _
    apply Code.follows_createOut
    · exact fun ω s relies => ⟨_, directoryGuard_stays rfl rfl rfl rfl relies, rfl⟩
    · exact fun ω s relies => ⟨_, directoryGuard_stays rfl rfl rfl rfl relies, rfl⟩
  setHandler _ _ := Code.follows_modify fun ω s relies =>
    ⟨_, directoryGuard_stays rfl rfl rfl rfl relies, rfl⟩
  refresh := by
    intro _ h
    apply Code.follows_refresh
    exact fun ω s relies => ⟨_, directoryGuard_stays rfl rfl rfl rfl relies, rfl⟩
  tearDown _ flush := Program.follows_given_iff.mpr (tearDownRequest_restores absolute flush)

end Locking

/-! ## All threads -/

theorem directoryGuard_follows (absolute : start.head? = some (byte '/')) (workers : Workers)
    (w : World) (worker : Nat) :
    Follows (DirectoryStep start) ((directoryGuard start).protocol worker)
      (workers.pool w worker) (fun _ _ => True) .outside := by
  refine Code.guard_serve ?_ fun _ _ _ => ⟨rfl, rfl, rfl, .inl rfl⟩
  intro number r _
  apply Program.follows_given_iff.mp
  exact (@directoryGuard_locking start w { worker, number } r absolute).serving.apHookRequestHandler

/-- A test that a step is a `DirectoryStep`. -/
def directoryStep (start : Bytes) (ω : Answer) (s s' : Child) : Bool :=
  ω.success && (s'.oldwd = s.oldwd || s'.oldwd = none || s.cwd = start) &&
    (s'.cwd = s.cwd || s.oldwd.isSome) && noExecFailure ω s s'

theorem directoryStep_iff {ω : Answer} {s s' : Child}
    (passed : directoryStep start ω s s' = true) : DirectoryStep start ω s s' := by
  simp only [directoryStep, Bool.and_eq_true, Bool.or_eq_true, decide_eq_true_eq] at passed
  rcases passed with ⟨⟨⟨success, saved⟩, changed⟩, exec⟩
  refine ⟨fun _ _ _ => success, ?_, fun isChanged => changed.resolve_left isChanged,
    noExecFailure_iff exec⟩
  intro isSaved
  rcases saved with (same | none) | isStart
  · exact (isSaved same).elim
  · exact .inl none
  · exact .inr isStart

/-- A thread that serves one request to a handler, and one whose request is declined. -/
def handledAndDeclined : Workers where
  requests worker :=
    if worker = 0 then
      [{ address := 0
         handler := bytes "r-handler"
         perDirConfig := some { evalcode := some (bytes "f()"), handlerKey := some (bytes "f()") } }]
    else if worker = 1 then [{ address := 1, handler := bytes "text/html" }]
    else []
  threaded := true
  single := by simp

/-- The threads' steps in this order, while the code of the handler changes the directory. -/
def changesDirectory (test : Answer → Child → Child → Bool) (schedule : List Nat) :
    Option ((Nat → Code Unit) × Child) :=
  Program.runPoolIf test
    (schedule.map fun worker =>
      (worker, { behaviour := .setwd (bytes "/x") fun _ => .finish (some .other) }))
    (handledAndDeclined.pool plainWorld) (handledAndDeclined.start (bytes "/") fun _ => [])

theorem changesDirectory_reach {ok : Answer → Child → Child → Prop}
    {test : Answer → Child → Child → Bool} {schedule : List Nat}
    (passes : ∀ ω s s', test ω s s' = true → ok ω s s')
    (ran : (changesDirectory test schedule).isSome) :
    handledAndDeclined.Reach ok plainWorld (bytes "/") (fun _ => [])
      ((changesDirectory test schedule).get ran).2 :=
  ⟨_, Program.runPoolIf_reaches passes .refl (Option.some_get ran).symm⟩

end RApache
