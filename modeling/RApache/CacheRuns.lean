import RApache.Workers

/-!
# Runs that keep the caches

What the handler and file caches hold is only changed by a few functions of the handler.  An
assertion about them is kept by a run of requests, if it is kept by these.
-/

namespace RApache

open Stepwise
open Stepwise.Program (Every Reaches Safe Triple)

/-- The caches, and the records of evaluations and `NULL` pointers, are left alone; files may have
been written. -/
structure KeepsCaches (s s' : Child) : Prop where
  handlers : s'.handlers = s.handlers
  parsedFiles : s'.parsedFiles = s.parsedFiles
  nextEnv : s'.nextEnv = s.nextEnv
  evaluated : s'.evaluated = s.evaluated
  failed : s'.failed = s.failed
  handlerEvaluations : s'.handlerEvaluations = s.handlerEvaluations
  fileEvaluations : s'.fileEvaluations = s.fileEvaluations
  nullUses : s'.nullUses = s.nullUses
  files : ∃ writes, s'.files = s.files.write writes

/-- The key of a request's directive. -/
def RequestRec.handlerKey (r : RequestRec) : Option Bytes := r.perDirConfig.bind (·.handlerKey)

/-- The file of a request's directive. -/
def RequestRec.file (r : RequestRec) : Option Bytes := r.perDirConfig.bind (·.file)

/-- The handler that a request asks for. -/
structure HandlerOf (r : RequestRec) (h : HandlerEntry) : Prop where
  directive : r.perDirConfig = some h.directive
  key : h.directive.handlerKey = some h.key

/-- The record and the environment in the entry of a key. -/
def Child.fileEntry (s : Child) (key : Bytes) : Option (Option Bytes × Option EnvId) :=
  (s.handlers key).map fun entry => (entry.parsedFile, entry.envir)

/-- Nothing has changed in the caches but the expressions and directives of the handlers. -/
structure KeepsFiles (s s' : Child) : Prop where
  entries : ∀ key, s'.fileEntry key = s.fileEntry key
  parsedFiles : s'.parsedFiles = s.parsedFiles
  nextEnv : s'.nextEnv = s.nextEnv
  evaluated : s'.evaluated = s.evaluated
  failed : s'.failed = s.failed
  handlerEvaluations : s'.handlerEvaluations = s.handlerEvaluations
  fileEvaluations : s'.fileEvaluations = s.fileEvaluations
  files : ∃ writes, s'.files = s.files.write writes

theorem KeepsCaches.keepsFiles {s s' : Child} (keeps : KeepsCaches s s') : KeepsFiles s s' where
  entries key := by rw [Child.fileEntry, keeps.handlers, Child.fileEntry]
  parsedFiles := keeps.parsedFiles
  nextEnv := keeps.nextEnv
  evaluated := keeps.evaluated
  failed := keeps.failed
  handlerEvaluations := keeps.handlerEvaluations
  fileEvaluations := keeps.fileEvaluations
  files := keeps.files

/-- Changing an entry, but not the record to which it points. -/
theorem fileEntry_change {s s' : Child} {key : Bytes} {change : RApacheHandler → RApacheHandler}
    (handlers : s'.handlers = Function.update s.handlers key ((s.handlers key).map change))
    (parsedFile : ∀ entry, (change entry).parsedFile = entry.parsedFile) :
    ∀ other file envir, s'.fileEntry other = some (some file, envir) →
      ∃ before, s.fileEntry other = some (some file, before) := by
  intro other file envir isEntry
  rw [Child.fileEntry, handlers] at isEntry
  by_cases same : other = key
  · rw [same, Function.update_self] at isEntry
    rw [same, Child.fileEntry]
    cases found : s.handlers key with
    | none =>
        rw [found] at isEntry
        cases isEntry
    | some entry =>
        rw [found, Option.map_some, Option.map_some, parsedFile, Option.some.injEq,
          Prod.mk.injEq] at isEntry
        exact ⟨entry.envir, by rw [Option.map_some, isEntry.1]⟩
  · rw [Function.update_of_ne same] at isEntry
    exact ⟨envir, isEntry⟩

/-- Changing an entry, but neither its record nor its environment. -/
theorem fileEntry_same {s s' : Child} {key : Bytes} {change : RApacheHandler → RApacheHandler}
    (handlers : s'.handlers = Function.update s.handlers key ((s.handlers key).map change))
    (parsedFile : ∀ entry, (change entry).parsedFile = entry.parsedFile)
    (envir : ∀ entry, (change entry).envir = entry.envir) (other : Bytes) :
    s'.fileEntry other = s.fileEntry other := by
  rw [Child.fileEntry, handlers, Child.fileEntry]
  by_cases same : other = key
  · rw [same, Function.update_self, Option.map_map]
    cases s.handlers key with
    | none => rfl
    | some entry => simp [parsedFile, envir]
  · rw [Function.update_of_ne same]

/-- What holds of every entry of a cache and of a new one holds of every entry after the entry of
a key was found or made. -/
theorem forall_update_getD {α : Type} {P : Bytes → α → Prop} {cache : Bytes → Option α}
    {key : Bytes} {new : α} (isNew : P key new)
    (holds : ∀ other entry, cache other = some entry → P other entry) :
    ∀ other entry,
      Function.update cache key (some ((cache key).getD new)) other = some entry →
        P other entry := by
  intro other entry isEntry
  by_cases same : other = key
  · rw [same, Function.update_self, Option.some.injEq] at isEntry
    rw [same, ← isEntry]
    cases before : cache key with
    | none => exact isNew
    | some found => exact holds key found before
  · rw [Function.update_of_ne same] at isEntry
    exact holds other entry isEntry

/-- Making an entry that points to no record. -/
theorem fileEntry_create {s s' : Child} {key : Bytes}
    (handlers : s'.handlers =
      Function.update s.handlers key (some ((s.handlers key).getD {}))) :
    ∀ other file envir, s'.fileEntry other = some (some file, envir) →
      ∃ before, s.fileEntry other = some (some file, before) := by
  intro other file envir isEntry
  rw [Child.fileEntry, handlers, Option.map_eq_some_iff] at isEntry
  rcases isEntry with ⟨entry, found, members⟩
  have points : entry.parsedFile = some file := congrArg Prod.fst members
  refine forall_update_getD (P := fun other entry => entry.parsedFile = some file →
    ∃ before, s.fileEntry other = some (some file, before)) ?_ ?_ other entry found points
  · nofun
  · intro other entry before points
    exact ⟨entry.envir, by simp [Child.fileEntry, before, points]⟩

/-- A child that serves one request after the other, in steps that meet a condition. -/
def ServesIf (ok : Answer → Child → Child → Prop) (w : World) (requests : List RequestRec)
    (s : Child) : Prop :=
  ∃ cwd mutex files rest,
    Reaches ok (Code.serve w 0 0 requests) (Child.fresh cwd mutex files) rest s

namespace Code

variable {w : World} {me : Owner}

theorem written_keepsCaches (ω : Answer) (s : Child) : KeepsCaches s (s.written ω) :=
  ⟨rfl, rfl, rfl, rfl, rfl, rfl, rfl, rfl, _, rfl⟩

theorem allowsTearDown_keepsCaches : AllowsTearDown (fun _ => KeepsCaches) w me where
  work := by
    intro ω s s' step
    cases step with
    | read => exact ⟨rfl, rfl, rfl, rfl, rfl, rfl, rfl, rfl, _, rfl⟩
    | directory cwd => exact ⟨rfl, rfl, rfl, rfl, rfl, rfl, rfl, rfl, _, rfl⟩
    | session isWork performed => exact ⟨rfl, rfl, rfl, rfl, rfl, rfl, rfl, rfl, _, rfl⟩
  tear := by
    intro ω s s' step
    cases step with
    | execFailed => exact ⟨rfl, rfl, rfl, rfl, rfl, rfl, rfl, rfl, _, rfl⟩
    | restored => exact ⟨rfl, rfl, rfl, rfl, rfl, rfl, rfl, rfl, _, rfl⟩
    | cleaned isCleaning performed => exact ⟨rfl, rfl, rfl, rfl, rfl, rfl, rfl, rfl, _, rfl⟩
    | cleared => exact ⟨rfl, rfl, rfl, rfl, rfl, rfl, rfl, rfl, _, rfl⟩
    | unlocked => exact ⟨rfl, rfl, rfl, rfl, rfl, rfl, rfl, rfl, _, rfl⟩

theorem allowsCode_keepsCaches : AllowsCode always (fun _ => KeepsCaches) w me :=
  allowsTearDown_keepsCaches.code

theorem allowsWork_keepsCaches : AllowsWork (fun _ => KeepsCaches) w :=
  (@allowsTearDown_keepsCaches w ⟨0, 0⟩).toAllowsWork

/-- A step that only changes other parts of the state. -/
theorem keepsCaches_atomic {α : Type} {act : Answer → Child → Option (α × Child)}
    (keeps : ∀ ω s value s', act ω s = some (value, s') → KeepsCaches s s') :
    Every always (fun _ => KeepsCaches) (atomic act) := by
  apply every_atomic
  intro ω s value s' acted
  rcases keeps ω _ value s' acted with
    ⟨handlers, parsedFiles, nextEnv, evaluated, failed, handlerEvaluations, fileEvaluations,
      nullUses, writes, files⟩
  refine ⟨handlers, parsedFiles, nextEnv, evaluated, failed, handlerEvaluations,
    fileEvaluations, nullUses, ω.writes ++ writes, ?_⟩
  rw [files]
  simp only [Child.written, Files.write, List.foldl_append]

theorem keepsCaches_of_eq {s s' : Child} (handlers : s'.handlers = s.handlers)
    (parsedFiles : s'.parsedFiles = s.parsedFiles) (nextEnv : s'.nextEnv = s.nextEnv)
    (evaluated : s'.evaluated = s.evaluated) (failed : s'.failed = s.failed)
    (handlerEvaluations : s'.handlerEvaluations = s.handlerEvaluations)
    (fileEvaluations : s'.fileEvaluations = s.fileEvaluations)
    (nullUses : s'.nullUses = s.nullUses) (files : s'.files = s.files) : KeepsCaches s s' :=
  ⟨handlers, parsedFiles, nextEnv, evaluated, failed, handlerEvaluations, fileEvaluations,
    nullUses, [], files⟩

theorem apFilepathGet_keepsCaches : Every always (fun _ => KeepsCaches) apFilepathGet := by
  apply keepsCaches_atomic
  intro ω s value s' acted
  split at acted
  next =>
    cases acted
    exact keepsCaches_of_eq rfl rfl rfl rfl rfl rfl rfl rfl rfl
  next =>
    cases acted
    exact keepsCaches_of_eq rfl rfl rfl rfl rfl rfl rfl rfl rfl

theorem lock_keepsCaches : Every always (fun _ => KeepsCaches) (lock me) := by
  apply keepsCaches_atomic
  intro ω s value s' acted
  split at acted
  next =>
    cases acted
    exact keepsCaches_of_eq rfl rfl rfl rfl rfl rfl rfl rfl rfl
  next =>
    split at acted
    next =>
      cases acted
      exact keepsCaches_of_eq rfl rfl rfl rfl rfl rfl rfl rfl rfl
    next =>
      cases acted
      exact keepsCaches_of_eq rfl rfl rfl rfl rfl rfl rfl rfl rfl
  next => cases acted

theorem keepsCaches_modify {change : Child → Child}
    (keeps : ∀ s, KeepsCaches s (change s)) :
    Every always (fun _ => KeepsCaches) (modify change) := by
  apply keepsCaches_atomic
  intro ω s value s' acted
  cases acted
  exact keeps s

theorem setRequest_keepsCaches (r : RequestRec) :
    Every always (fun _ => KeepsCaches) (setRequest me r) :=
  keepsCaches_modify fun _ => keepsCaches_of_eq rfl rfl rfl rfl rfl rfl rfl rfl rfl

theorem setHandler_keepsCaches (h : Option HandlerEntry) :
    Every always (fun _ => KeepsCaches) (setHandler h) :=
  keepsCaches_modify fun _ => keepsCaches_of_eq rfl rfl rfl rfl rfl rfl rfl rfl rfl

theorem createOut_keepsCaches : Every always (fun _ => KeepsCaches) createOut := by
  apply keepsCaches_atomic
  intro ω s value s' acted
  split at acted
  next =>
    cases acted
    exact keepsCaches_of_eq rfl rfl rfl rfl rfl rfl rfl rfl rfl
  next =>
    cases acted
    exact keepsCaches_of_eq rfl rfl rfl rfl rfl rfl rfl rfl rfl

theorem refreshRApacheEnv_keepsCaches (r : RequestRec) (h : HandlerEntry) :
    Every always (fun _ => KeepsCaches) (refreshRApacheEnv r h) := by
  apply keepsCaches_atomic
  intro ω s value s' acted
  split at acted
  next =>
    cases acted
    exact keepsCaches_of_eq rfl rfl rfl rfl rfl rfl rfl rfl rfl
  next => cases acted

theorem printTraceback_keepsCaches : Every always (fun _ => KeepsCaches) (printTraceback w me) := by
  apply printTraceback_every allowsCode_keepsCaches
  intro ω s s' step
  cases step with
  | set writer => exact ⟨rfl, rfl, rfl, rfl, rfl, rfl, rfl, rfl, _, rfl⟩

theorem tearDownRequest_keepsCaches (flush : Bool) :
    Every always (fun _ => KeepsCaches) (tearDownRequest w me flush) :=
  tearDownRequest_every allowsTearDown_keepsCaches flush

theorem rApacheResponseError_keepsCaches (msg : Option Bytes) :
    Every always (fun _ => KeepsCaches) (rApacheResponseError w me msg) :=
  rApacheResponseError_every allowsTearDown_keepsCaches msg

theorem respond_keepsCaches (h : HandlerEntry) (ret : RResult) :
    Every always (fun _ => KeepsCaches) (respond w me h ret) := by
  cases ret with
  | integer result => exact (tearDownRequest_keepsCaches true).bind fun _ => trivial
  | tryError => exact (rApacheResponseError_keepsCaches _).bind fun _ => trivial
  | other => exact (tearDownRequest_keepsCaches true).bind fun _ => trivial

theorem runInfo_keepsCaches : Every always (fun _ => KeepsCaches) (runInfo w me) :=
  (rApacheInfo_every allowsCode_keepsCaches fun _ =>
    tryEval_every allowsCode_keepsCaches).bind fun _ =>
      (tearDownRequest_keepsCaches true).bind fun _ => trivial

/-! ## Preparing the expression -/

theorem allowsCode_keepsFiles : AllowsCode always (fun _ => KeepsFiles) w me where
  work step := ((@allowsCode_keepsCaches w me).work step).keepsFiles
  execFailure := allowsCode_keepsCaches.execFailure.mono fun _ _ _ keeps => keeps.keepsFiles

/-- Changing an entry, but neither its record nor its environment. -/
theorem modifyHandler_keepsFiles (key : Bytes) {change : RApacheHandler → RApacheHandler}
    (parsedFile : ∀ entry, (change entry).parsedFile = entry.parsedFile)
    (envir : ∀ entry, (change entry).envir = entry.envir) :
    Every always (fun _ => KeepsFiles) (modifyHandler key change) := by
  apply every_modify
  intro ω s
  exact ⟨fileEntry_same rfl parsedFile envir, rfl, rfl, rfl, rfl, rfl, rfl, _, rfl⟩

theorem nullUse_keepsFiles (use : NullUse) (ω : Answer) (s : Child) :
    KeepsFiles s { s.written ω with nullUses := use :: s.nullUses } :=
  ⟨fun _ => rfl, rfl, rfl, rfl, rfl, rfl, rfl, _, rfl⟩

theorem prepareHandlerExpr_keepsFiles (h : HandlerEntry) (r : RequestRec)
    (type : RApacheHandlerType) (env : Option EnvId) :
    Every always (fun _ => KeepsFiles) (prepareHandlerExpr w me h r type env) :=
  prepareHandlerExpr_every allowsCode_keepsFiles h r type env
    (fun _ => modifyHandler_keepsFiles h.key (fun _ => rfl) fun _ => rfl)
    fun _ _ => nullUse_keepsFiles

/-! ## Assertions about the caches -/

section Atomic

variable {ok : Answer → Child → Child → Prop} {I P : Child → Prop}

theorem triple_atomic {α : Type} {act : Answer → Child → Option (α × Child)}
    {Q : α → Child → Prop} (implies : ∀ s, P s → I s)
    (acts : ∀ ω s value s', P s → act ω (s.written ω) = some (value, s') →
      I s' ∧ Q value s') :
    Triple ok I P (atomic act) Q :=
  .atomic implies fun ω s value s' now acted _ => acts ω s value s' now acted

theorem triple_modify {change : Child → Child} {Q : Child → Prop} (implies : ∀ s, P s → I s)
    (changes : ∀ ω s, P s → I (change (s.written ω)) ∧ Q (change (s.written ω))) :
    Triple ok I P (modify change) fun _ => Q := by
  apply triple_atomic implies
  intro ω s value s' now acted
  cases acted
  exact changes ω s now

/-- Nothing comes behind the use of a `NULL` pointer. -/
theorem readNull_triple {α : Type} {use : NullUse} {Q : α → Child → Prop}
    (implies : ∀ s, P s → I s)
    (uses : ∀ ω s, P s → I { s.written ω with nullUses := use :: s.nullUses }) :
    Triple ok I P (readNull use) Q := by
  have used : Triple ok I P (useNull use) fun _ => I :=
    triple_modify implies fun ω s now => ⟨uses ω s now, uses ω s now⟩
  refine used.bind fun _ => ?_
  apply triple_atomic fun _ now => now
  intro ω s value s' _ acted
  cases acted

end Atomic

/-- An assertion about the caches, which implies the invariant of the run. -/
structure AboutCaches (I P : Child → Prop) : Prop where
  implies : ∀ s, P s → I s
  keeps : ∀ s s', KeepsCaches s s' → P s → P s'

theorem AboutCaches.triple {ok : Answer → Child → Child → Prop} {I P : Child → Prop}
    (about : AboutCaches I P) {α : Type} {p : Code α}
    (every : Every always (fun _ => KeepsCaches) p) : Triple ok I P p fun _ => P :=
  (every.restrict fun _ _ _ _ => trivial).triple
    (fun _ s s' keeps now => about.keeps s s' keeps now) about.implies

/-- `fileRecord` finds the record that the entry of the handler points to, or makes the entry
point to that of the directive's file. -/
theorem AboutCaches.fileRecord {ok : Answer → Child → Child → Prop} {I P : Child → Prop}
    {Q : Bytes → Child → Prop} {h : HandlerEntry} {file : Bytes} (about : AboutCaches I P)
    (implies : ∀ key s, Q key s → I s)
    (finds : ∀ s entry key, P s → s.handlers h.key = some entry →
      entry.parsedFile = some key → Q key s)
    (makes : ∀ s entry, P s → s.handlers h.key = some entry → entry.parsedFile = none →
      Q file { s with
        parsedFiles := Function.update s.parsedFiles file (some ((s.parsedFiles file).getD {}))
        handlers := Function.update s.handlers h.key
          (some { entry with parsedFile := some file }) }) :
    Triple ok I P (fileRecord h file) Q := by
  apply triple_atomic about.implies
  intro ω s key s' now acted
  have later : P (s.written ω) := about.keeps s (s.written ω) (written_keepsCaches ω s) now
  suffices located : Q key s' from ⟨implies key s' located, located⟩
  split at acted
  next => cases acted
  next entry isEntry =>
    split at acted
    next key isFound =>
      cases acted
      exact finds (s.written ω) entry key later isEntry isFound
    next isNone =>
      cases acted
      exact makes (s.written ω) entry later isEntry isNone

/-- `prepareScript` comes to its end only if there are a function, a file and an environment, and
then behind the change of the handler's entry. -/
theorem AboutCaches.prepareScript {ok : Answer → Child → Child → Prop} {I P Q : Child → Prop}
    {h : HandlerEntry} {r : RequestRec} (before : AboutCaches I P) (behind : AboutCaches I Q)
    (builds : ∀ function filename, h.directive.function = some function →
      r.filename = some filename → Triple ok I P
        (modifyHandler h.key fun entry =>
          { entry with
            expr := (w.parse (scriptText h.directive.package function filename)).map .vector })
        fun _ => Q)
    (uses : ∀ use ω s, I s → I { s.written ω with nullUses := use :: s.nullUses })
    (env : Option EnvId) :
    Triple ok I P (prepareScript w h r env) fun _ s =>
      (h.directive.function.isSome ∧ r.filename.isSome) ∧ Q s := by
  have allows : AllowsWork (fun _ => KeepsCaches) w := allowsWork_keepsCaches
  unfold Code.prepareScript
  split
  next function filename _ isFunction isFilename =>
    refine (before.triple (printParseErrors_every allows)).bind fun _ => ?_
    refine (builds function filename isFunction isFilename).bind fun _ => ?_
    refine (behind.triple (read_every allows _)).bind fun _ => ?_
    refine (behind.triple (aprFilepathSet_every allows _)).bind fun _ => ?_
    exact .done behind.implies fun s now => ⟨by simp [isFunction, isFilename], now⟩
  next function filename isFunction isFilename =>
    refine (before.triple (printParseErrors_every allows)).bind fun _ => ?_
    exact (builds function filename isFunction isFilename).bind fun _ =>
      readNull_triple behind.implies fun ω s now => uses _ ω s (behind.implies s now)
  next => exact readNull_triple before.implies fun ω s now => uses _ ω s (before.implies s now)
  next => exact readNull_triple before.implies fun ω s now => uses _ ω s (before.implies s now)

/-- Assertions about the caches at the points of the handler between which they change:
between the requests, behind `GetHandlerFromRequest`, behind `PrepareFileExprs`, and when the
environment of the file, that of the handler and its expression are settled. -/
structure CacheRules (ok : Answer → Child → Child → Prop) (requests : RequestRec → Prop)
    (w : World) (I idle : Child → Prop) (entered : Bytes → Child → Prop)
    (found : HandlerEntry → RequestRec → Bytes → Bool → Nat → Child → Prop)
    (filled : HandlerEntry → RequestRec → Bytes → Child → Prop)
    (prepared built : HandlerEntry → RequestRec → Child → Prop) : Prop where
  idleCaches : AboutCaches I idle
  enteredCaches : ∀ key, AboutCaches I (entered key)
  filledCaches : ∀ h r key, AboutCaches I (filled h r key)
  preparedCaches : ∀ h r, AboutCaches I (prepared h r)
  enteredIdle : ∀ key s, entered key s → idle s
  preparedIdle : ∀ h r s, prepared h r s → idle s
  createHandler : ∀ key, Triple ok I idle (createHandler key) fun _ => entered key
  setDirective : ∀ key d, Triple ok I (entered key)
    (modifyHandler key fun entry => { entry with directive := some d }) fun _ => entered key
  newHandlerEnv : ∀ r h, requests r → HandlerOf r h → h.directive.file = none →
    Triple ok I (entered h.key) (newHandlerEnv h.key) fun _ => prepared h r
  prepareFile : ∀ me r h file, requests r → HandlerOf r h →
    handlerType r.handler ≠ some .info → h.directive.file = some file →
    Triple ok I (entered h.key) (prepareFileExprs w me h file) fun ready s =>
      match ready with
      | none => idle s
      | some (key, fileParsed, versions) => found h r key fileParsed versions s
  evalFile : ∀ me r h file key fileParsed versions, requests r → HandlerOf r h →
    h.directive.file = some file →
    (fileParsed = true ∨ h.directive.function = none ∧ h.directive.evalcode = none) →
    Triple ok I (found h r key fileParsed versions) (evalFile w me r file key versions)
      fun value s => if value.2 then idle s else filled h r key s
  reuse : ∀ r h key versions s, found h r key false versions s → filled h r key s
  setEnvir : ∀ r h file key, requests r → HandlerOf r h → h.directive.file = some file →
    Triple ok I (filled h r key) (prepareEnvironment.setEnvir h key)
      fun _ => prepared h r
  prepareHandlerExpr : ∀ me r h type env, requests r → HandlerOf r h →
    handlerType r.handler = some type →
    (h.directive.function.isSome ∨ h.directive.evalcode.isSome) →
    Triple ok I (fun s => prepared h r s ∧ ((s.handlers h.key).getD {}).envir = env)
      (prepareHandlerExpr w me h r type env) fun ready s =>
        if ready then built h r s else idle s
  evalHandler : ∀ me r h evalError, requests r → HandlerOf r h →
    Triple ok I (built h r) (evalHandler w me h r evalError) fun _ => idle

/-- The assertion behind `GetHandlerFromRequest`. -/
def IfEntered (idle : Child → Prop) (entered : Bytes → Child → Prop) (r : RequestRec) :
    (h : Option HandlerEntry) → Child → Prop
  | none => idle
  | some h => fun s => HandlerOf r h ∧ entered h.key s

/-- The assertion behind `SetUpRequest`; only an r-info request has no handler. -/
def IfSetUp (idle : Child → Prop) (entered : Bytes → Child → Prop) (r : RequestRec)
    (type : RApacheHandlerType) : (ready : Option (Option HandlerEntry)) → Child → Prop
  | some (some h) => fun s => (HandlerOf r h ∧ type ≠ .info) ∧ entered h.key s
  | some none => idle
  | none => idle

/-- The assertion behind the preparation of the environment, if the handler's answer is not
settled with it. -/
def IfPrepared (idle prepared : Child → Prop) :
    (ready : Except Int (RResult × Bool)) → Child → Prop
  | .error _ => idle
  | .ok _ => prepared

section Rules

variable {ok : Answer → Child → Child → Prop} {requests : RequestRec → Prop}
  {I idle : Child → Prop} {entered : Bytes → Child → Prop}
  {found : HandlerEntry → RequestRec → Bytes → Bool → Nat → Child → Prop}
  {filled : HandlerEntry → RequestRec → Bytes → Child → Prop}
  {prepared built : HandlerEntry → RequestRec → Child → Prop}

namespace CacheRules

variable (rules : CacheRules ok requests w I idle entered found filled prepared built)

include rules

/-- `GetHandlerFromRequest` gives the handler that the request asks for. -/
theorem getHandlerFromRequest_triple (r : RequestRec) :
    Triple ok I idle (getHandlerFromRequest w r) (IfEntered idle entered r) := by
  have allows : AllowsWork (fun _ => KeepsCaches) w := allowsWork_keepsCaches
  have errors (msg : Bytes) : Triple ok I idle (do
      let _ ← perform w (.contentType (bytes "text/html"))
      let _ ← perform w (.error msg)
      pure none : Code (Option HandlerEntry))
      (IfEntered idle entered r) :=
    (rules.idleCaches.triple (perform_every allows rfl)).bind fun _ =>
      (rules.idleCaches.triple (perform_every allows rfl)).bind fun _ =>
        .done rules.idleCaches.implies fun _ now => now
  unfold getHandlerFromRequest
  split
  next d key isDirective isKey =>
    have isKey' : d.handlerKey = some key := by
      rw [isDirective] at isKey
      exact isKey
    refine (rules.createHandler key).bind fun _ => ?_
    split
    next => exact (errors _).pre (rules.enteredIdle key)
    next =>
      exact (rules.setDirective key d).bind fun _ =>
        .done (rules.enteredCaches key).implies fun _ now => ⟨⟨isDirective, isKey'⟩, now⟩
  next => exact errors _

theorem prepareEnvironment_triple (me : Owner) {r : RequestRec} {h : HandlerEntry}
    (isRequest : requests r) (isHandler : HandlerOf r h)
    (notInfo : handlerType r.handler ≠ some .info) :
    Triple ok I (entered h.key) (prepareEnvironment w me h r)
      (IfPrepared idle (prepared h r)) := by
  have failed : Triple ok I idle
      (.error <$> rApacheResponseError w me none : Code (Except Int (RResult × Bool)))
      (IfPrepared idle (prepared h r)) :=
    (rules.idleCaches.triple (rApacheResponseError_keepsCaches none)).bind fun _ =>
      .done rules.idleCaches.implies fun _ now => now
  unfold prepareEnvironment
  split
  next noFile =>
    exact (rules.newHandlerEnv r h isRequest isHandler noFile).bind fun _ =>
      .done (rules.preparedCaches h r).implies fun _ now => now
  next file isFile =>
    have settled (key : Bytes) (value : RResult × Bool) :
        Triple ok I (filled h r key)
          (prepareEnvironment.setEnvir h key >>= fun _ => pure (.ok value))
          (IfPrepared idle (prepared h r)) :=
      (rules.setEnvir r h file key isRequest isHandler isFile).bind fun _ =>
        .done (rules.preparedCaches h r).implies fun _ now => now
    have allows : AllowsCode always (fun _ => KeepsCaches) w me := allowsCode_keepsCaches
    refine ((rules.enteredCaches h.key).triple (aprFilepathSet_every allows.toAllowsWork _)).bind
      fun changed => ?_
    cases changed with
    | false => exact failed.pre (rules.enteredIdle h.key)
    | true =>
        refine (rules.prepareFile me r h file isRequest isHandler notInfo isFile).bind
          fun ready => ?_
        cases ready with
        | none => exact failed
        | some ready =>
            rcases ready with ⟨key, fileParsed, versions⟩
            simp only
            split
            next evaluates =>
              refine (rules.evalFile me r h file key fileParsed versions isRequest isHandler
                isFile evaluates).bind fun value => ?_
              rcases value with ⟨ret, evalError⟩
              cases evalError with
              | true =>
                  exact (rules.idleCaches.triple printTraceback_keepsCaches).bind
                    fun _ => failed
              | false => exact settled key _
            next notParsed =>
              have reused : fileParsed = false := by
                cases fileParsed with
                | false => rfl
                | true => exact (notParsed (.inl rfl)).elim
              rw [reused]
              exact (settled key _).pre fun s now => rules.reuse r h key versions s now

/-- The handler behind `RefreshRApacheEnv`. -/
theorem runHandler_triple (me : Owner) {r : RequestRec} {h : HandlerEntry}
    {type : RApacheHandlerType} (isRequest : requests r) (isHandler : HandlerOf r h)
    (isType : handlerType r.handler = some type) (notInfo : type ≠ .info) :
    Triple ok I (entered h.key) (runHandler w me h r type) fun _ => idle := by
  have failed : Triple ok I idle (do
      let result ← rApacheResponseError w me none
      pure { result } : Code Response) (fun _ => idle) :=
    (rules.idleCaches.triple (rApacheResponseError_keepsCaches none)).bind fun _ =>
      .done rules.idleCaches.implies fun _ now => now
  have responds (ret : RResult) : Triple ok I idle (respond w me h ret) (fun _ => idle) :=
    rules.idleCaches.triple (respond_keepsCaches h ret)
  have runsCode : handlerType r.handler ≠ some .info := by
    rw [isType]
    exact fun isInfo => notInfo (Option.some.inj isInfo)
  refine (rules.prepareEnvironment_triple me isRequest isHandler runsCode).bind fun ready => ?_
  cases ready with
  | error result => exact .done rules.idleCaches.implies fun _ now => now
  | ok value =>
      rcases value with ⟨ret, evalError⟩
      simp only
      split
      next evaluates =>
        have looked : Triple ok I (prepared h r)
            (read fun _ s => ((s.handlers h.key).getD {}).envir)
            (fun envir s => prepared h r s ∧ ((s.handlers h.key).getD {}).envir = envir) := by
          apply triple_atomic (rules.preparedCaches h r).implies
          intro ω s envir s' now acted
          cases acted
          have later :=
            (rules.preparedCaches h r).keeps s (s.written ω) (written_keepsCaches ω s) now
          exact ⟨(rules.preparedCaches h r).implies _ later, later, rfl⟩
        refine looked.bind fun envir => ?_
        refine (rules.prepareHandlerExpr me r h type envir isRequest isHandler isType
          evaluates).bind fun ready => ?_
        cases ready with
        | false => exact failed
        | true =>
            refine (rules.evalHandler me r h evalError isRequest isHandler).bind fun value => ?_
            rcases value with ⟨ret, evalError⟩
            cases evalError with
            | true =>
                exact (rules.idleCaches.triple printTraceback_keepsCaches).bind fun _ => failed
            | false => exact responds ret
      next => exact (responds ret).pre fun s now => rules.preparedIdle h r s now

theorem setUpRequest_triple (me : Owner) (r : RequestRec) (type : RApacheHandlerType) :
    Triple ok I idle (setUpRequest w me r type) (IfSetUp idle entered r type) := by
  have down : Triple ok I idle (do
      tearDownRequest w me false
      pure none : Code (Option (Option HandlerEntry))) (IfSetUp idle entered r type) :=
    (rules.idleCaches.triple (tearDownRequest_keepsCaches false)).bind fun _ =>
      .done rules.idleCaches.implies fun _ now => now
  refine (rules.idleCaches.triple lock_keepsCaches).bind fun isLocked => ?_
  cases isLocked with
  | false => exact .done rules.idleCaches.implies fun _ now => now
  | true =>
      refine (rules.idleCaches.triple (setRequest_keepsCaches r)).bind fun _ => ?_
      refine (rules.idleCaches.triple createOut_keepsCaches).bind fun created => ?_
      cases created with
      | false =>
          have allows : AllowsCode always (fun _ => KeepsCaches) w me := allowsCode_keepsCaches
          exact (rules.idleCaches.triple (perform_every allows.toAllowsWork rfl)).bind
            fun _ => down
      | true =>
          simp only [if_true]
          split
          next => exact .done rules.idleCaches.implies fun _ now => now
          next notInfo =>
            refine (rules.getHandlerFromRequest_triple r).bind fun h => ?_
            cases h with
            | none =>
                exact (rules.idleCaches.triple (setHandler_keepsCaches none)).bind
                  fun _ => down
            | some h =>
                apply Triple.given
                intro isHandler
                exact ((rules.enteredCaches h.key).triple
                  (setHandler_keepsCaches (some h))).bind fun _ =>
                    .done (rules.enteredCaches h.key).implies
                      fun _ now => ⟨⟨isHandler, notInfo⟩, now⟩

/-- The whole handler. -/
theorem apHookRequestHandler_triple (me : Owner) {r : RequestRec} (isRequest : requests r) :
    Triple ok I idle (apHookRequestHandler w me r) fun _ => idle := by
  refine (rules.idleCaches.triple apFilepathGet_keepsCaches).bind fun saved => ?_
  cases saved with
  | false => exact .done rules.idleCaches.implies fun _ now => now
  | true =>
      simp only [if_true]
      split
      next => exact .done rules.idleCaches.implies fun _ now => now
      next type isType =>
        refine (rules.setUpRequest_triple me r type).bind fun ready => ?_
        cases ready with
        | none => exact .done rules.idleCaches.implies fun _ now => now
        | some ready =>
            cases ready with
            | none => exact rules.idleCaches.triple runInfo_keepsCaches
            | some h =>
                apply Triple.given
                rintro ⟨isHandler, notInfo⟩
                exact ((rules.enteredCaches h.key).triple
                  (refreshRApacheEnv_keepsCaches r h)).bind fun _ =>
                    rules.runHandler_triple me isRequest isHandler isType notInfo

/-- Requests, one after the other. -/
theorem serve_triple (worker number : Nat) (queue : List RequestRec)
    (areRequests : ∀ r ∈ queue, requests r) :
    Triple ok I idle (serve w worker number queue) fun _ => idle := by
  induction queue generalizing number with
  | nil => exact .done rules.idleCaches.implies fun _ now => now
  | cons r queue ih =>
      refine (rules.apHookRequestHandler_triple _ (areRequests r List.mem_cons_self)).bind
        fun _ => ?_
      have returned : Triple ok I idle (modify fun s =>
          { s with lockEvents := .returned { worker, number } :: s.lockEvents }) (fun _ => idle) :=
        rules.idleCaches.triple
          (keepsCaches_modify fun _ => keepsCaches_of_eq rfl rfl rfl rfl rfl rfl rfl rfl rfl)
      exact returned.bind fun _ =>
        ih (number + 1) fun r' isLater => areRequests r' (List.mem_cons_of_mem r isLater)

/-- What the rules keep holds in every child that serves such requests, if it holds in the
beginning. -/
theorem serves {queue : List RequestRec} {s : Child} (areRequests : ∀ r ∈ queue, requests r)
    (begins : ∀ cwd mutex files, idle (Child.fresh cwd mutex files))
    (serves : ServesIf ok w queue s) : I s := by
  rcases serves with ⟨cwd, mutex, files, rest, reaches⟩
  exact (rules.serve_triple 0 0 queue areRequests _ (begins cwd mutex files)).invariant reaches

end CacheRules

end Rules

end Code

end RApache
