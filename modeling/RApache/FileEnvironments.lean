import RApache.CacheRuns

/-!
# The environment of a file

The expressions of a file are evaluated in a new environment.  It is kept in the record of the
file also when one of them fails, together with the time stamp of the file.
-/

namespace RApache

open Stepwise
open Stepwise.Program (Every Reaches Triple)

/-- The expressions that a record holds. -/
def elementsOf (exprs : Option RExprs) : List RExpr := (exprs.map RExprs.elements).getD []

/-- Every cached expression of the handler's file has been evaluated without an error in the
environment, since this was made. -/
def EnvironmentIsFull (evaluation : HandlerEvaluation) : Prop :=
  elementsOf evaluation.exprs <+: evaluation.evaluated

/-- The evaluation of the file for which the environment was made has failed, and its expressions
are still cached. -/
def FileFailed (evaluation : HandlerEvaluation) : Prop :=
  evaluation.failed = true ∧ elementsOf evaluation.exprs ≠ []

/-- For file directives, the environments have been full just when the file had not failed. -/
def FullUnlessFailed (s : Child) : Prop :=
  ∀ evaluation ∈ s.handlerEvaluations, evaluation.directive.file.isSome →
    (EnvironmentIsFull evaluation ↔ ¬ FileFailed evaluation)

/-! ## Records and environments -/

/-- Some expressions were evaluated in an environment, up to the first that failed. -/
def FilledFrom (s : Child) (exprs : List RExpr) (env : EnvId) : Prop :=
  if s.failed env then (s.fileExprs (some env)).length < exprs.length
  else s.fileExprs (some env) = exprs

/-- The expressions of a record were evaluated in its environment, one of the first `bound`. -/
def RecordFilled (bound : EnvId) (s : Child) (record : RApacheParsedFile) : Prop :=
  elementsOf record.exprs ≠ [] →
    ∃ env, record.envir = some env ∧ env < bound ∧ FilledFrom s (elementsOf record.exprs) env

/-- Environments that will be made are empty. -/
def NewEnvsEmpty (s : Child) : Prop :=
  ∀ env, s.nextEnv ≤ env → s.fileExprs (some env) = [] ∧ s.failed env = false

/-- Every entry points to a record. -/
def PointersMeet (s : Child) : Prop :=
  ∀ key file envir, s.fileEntry key = some (some file, envir) → (s.parsedFiles file).isSome

/-- What is known of the records, but for one of them. -/
structure OthersFilled (key : Bytes) (bound : EnvId) (s : Child) : Prop where
  evaluations : FullUnlessFailed s
  newEnvs : NewEnvsEmpty s
  pointers : PointersMeet s
  made : bound ≤ s.nextEnv
  others : ∀ other record, other ≠ key → s.parsedFiles other = some record →
    RecordFilled bound s record

/-- What is known of the records. -/
structure Filled (s : Child) : Prop where
  evaluations : FullUnlessFailed s
  newEnvs : NewEnvsEmpty s
  pointers : PointersMeet s
  records : ∀ key record, s.parsedFiles key = some record → RecordFilled s.nextEnv s record

/-- The entry of a handler points to the record of a key. -/
def PointsTo (h : HandlerEntry) (key : Bytes) (s : Child) : Prop :=
  ∃ envir, s.fileEntry h.key = some (some key, envir)

/-- The entry of a handler has the environment of its record. -/
def Settled (h : HandlerEntry) (s : Child) : Prop :=
  ∃ key record, s.fileEntry h.key = some (some key, record.envir) ∧
    s.parsedFiles key = some record

/-- What the assertions speak of has not changed. -/
structure KeepsFilled (s s' : Child) : Prop where
  entries : ∀ key, s'.fileEntry key = s.fileEntry key
  parsedFiles : s'.parsedFiles = s.parsedFiles
  nextEnv : s'.nextEnv = s.nextEnv
  fileExprs : ∀ env, s'.fileExprs env = s.fileExprs env
  failed : s'.failed = s.failed
  evaluations : s'.handlerEvaluations = s.handlerEvaluations

theorem KeepsFiles.keepsFilled {s s' : Child} (keeps : KeepsFiles s s') : KeepsFilled s s' where
  entries := keeps.entries
  parsedFiles := keeps.parsedFiles
  nextEnv := keeps.nextEnv
  fileExprs env := by
    cases env with
    | none => rfl
    | some env => simp only [Child.fileExprs, keeps.evaluated]
  failed := keeps.failed
  evaluations := keeps.handlerEvaluations

theorem KeepsCaches.keepsFilled {s s' : Child} (keeps : KeepsCaches s s') : KeepsFilled s s' :=
  keeps.keepsFiles.keepsFilled

section Keeps

variable {s s' : Child}

theorem FilledFrom.of_eq {exprs : List RExpr} {env : EnvId} (filled : FilledFrom s exprs env)
    (fileExprs : s'.fileExprs (some env) = s.fileExprs (some env))
    (failed : s'.failed env = s.failed env) : FilledFrom s' exprs env := by
  rw [FilledFrom, fileExprs, failed]
  exact filled

theorem RecordFilled.of_eq {bound bound' : EnvId} {record : RApacheParsedFile}
    (filled : RecordFilled bound s record) (more : bound ≤ bound')
    (fileExprs : ∀ env, env < bound → s'.fileExprs (some env) = s.fileExprs (some env))
    (failed : ∀ env, env < bound → s'.failed env = s.failed env) :
    RecordFilled bound' s' record := by
  intro notEmpty
  rcases filled notEmpty with ⟨env, isEnv, older, from_⟩
  exact ⟨env, isEnv, Nat.lt_of_lt_of_le older more,
    from_.of_eq (fileExprs env older) (failed env older)⟩

theorem FullUnlessFailed.of_eq (full : FullUnlessFailed s)
    (evaluations : s'.handlerEvaluations = s.handlerEvaluations) : FullUnlessFailed s' := by
  rw [FullUnlessFailed, evaluations]
  exact full

theorem NewEnvsEmpty.keeps (empty : NewEnvsEmpty s) (keeps : KeepsFilled s s') :
    NewEnvsEmpty s' := by
  intro env isNew
  rw [keeps.nextEnv] at isNew
  rw [keeps.fileExprs, keeps.failed]
  exact empty env isNew

theorem PointersMeet.of_eq (meet : PointersMeet s)
    (entries : ∀ key, s'.fileEntry key = s.fileEntry key)
    (parsedFiles : s'.parsedFiles = s.parsedFiles) : PointersMeet s' := by
  intro key file envir isEntry
  rw [entries] at isEntry
  rw [parsedFiles]
  exact meet key file envir isEntry

/-- An entry that points to a record that is there now. -/
theorem PointersMeet.point {key file : Bytes} {entry : RApacheHandler}
    {record : RApacheParsedFile} (meet : PointersMeet s) (isPointer : entry.parsedFile = some file)
    (handlers : s'.handlers = Function.update s.handlers key (some entry))
    (parsedFiles : s'.parsedFiles = Function.update s.parsedFiles file (some record)) :
    PointersMeet s' := by
  intro other found envir isPointed
  rw [parsedFiles]
  by_cases same : found = file
  · simp [same]
  · rw [Function.update_of_ne same]
    rw [Child.fileEntry, handlers] at isPointed
    by_cases sameEntry : other = key
    · simp only [sameEntry, Function.update_self, Option.map_some, Option.some.injEq,
        Prod.mk.injEq, isPointer] at isPointed
      exact (same isPointed.1.symm).elim
    · rw [Function.update_of_ne sameEntry] at isPointed
      exact meet other found envir isPointed

theorem PointersMeet.keeps (meet : PointersMeet s) (keeps : KeepsFilled s s') :
    PointersMeet s' :=
  meet.of_eq keeps.entries keeps.parsedFiles

theorem RecordFilled.keeps {bound : EnvId} {record : RApacheParsedFile}
    (filled : RecordFilled bound s record) (keeps : KeepsFilled s s') :
    RecordFilled bound s' record :=
  filled.of_eq (Nat.le_refl bound) (fun env _ => keeps.fileExprs (some env))
    fun env _ => congrFun keeps.failed env

theorem OthersFilled.keeps {key : Bytes} {bound : EnvId} (filled : OthersFilled key bound s)
    (keeps : KeepsFilled s s') : OthersFilled key bound s' where
  evaluations := filled.evaluations.of_eq keeps.evaluations
  newEnvs := filled.newEnvs.keeps keeps
  pointers := filled.pointers.keeps keeps
  made := by
    rw [keeps.nextEnv]
    exact filled.made
  others := by
    intro other record isOther isRecord
    rw [keeps.parsedFiles] at isRecord
    exact (filled.others other record isOther isRecord).keeps keeps

theorem Filled.keeps (filled : Filled s) (keeps : KeepsFilled s s') : Filled s' where
  evaluations := filled.evaluations.of_eq keeps.evaluations
  newEnvs := filled.newEnvs.keeps keeps
  pointers := filled.pointers.keeps keeps
  records := by
    intro key record isRecord
    rw [keeps.parsedFiles] at isRecord
    rw [keeps.nextEnv]
    exact (filled.records key record isRecord).keeps keeps

theorem PointsTo.keeps {h : HandlerEntry} {key : Bytes} (points : PointsTo h key s)
    (keeps : KeepsFilled s s') : PointsTo h key s' := by
  rw [PointsTo, keeps.entries]
  exact points

theorem Settled.keeps {h : HandlerEntry} (settled : Settled h s) (keeps : KeepsFilled s s') :
    Settled h s' := by
  rw [Settled, keeps.entries, keeps.parsedFiles]
  exact settled

/-- All records, and all but one. -/
theorem Filled.others {key : Bytes} (filled : Filled s) : OthersFilled key s.nextEnv s where
  evaluations := filled.evaluations
  newEnvs := filled.newEnvs
  pointers := filled.pointers
  made := Nat.le_refl _
  others other record _ isRecord := filled.records other record isRecord

/-- All but one, and that one. -/
theorem OthersFilled.filled {key : Bytes} {bound : EnvId} (filled : OthersFilled key bound s)
    (mine : ∀ record, s.parsedFiles key = some record → RecordFilled s.nextEnv s record) :
    Filled s where
  evaluations := filled.evaluations
  newEnvs := filled.newEnvs
  pointers := filled.pointers
  records := by
    intro other record isRecord
    by_cases same : other = key
    · exact mine record (same ▸ isRecord)
    · exact (filled.others other record same isRecord).of_eq filled.made (fun _ _ => rfl)
        fun _ _ => rfl

/-- A record without expressions. -/
theorem recordFilled_of_empty {bound : EnvId} {record : RApacheParsedFile}
    (empty : elementsOf record.exprs = []) : RecordFilled bound s record :=
  fun notEmpty => (notEmpty empty).elim

/-- Changing the record of the key. -/
theorem OthersFilled.modify {key : Bytes} {bound : EnvId} (filled : OthersFilled key bound s)
    {change : RApacheParsedFile → RApacheParsedFile}
    (entries : ∀ key, s'.fileEntry key = s.fileEntry key)
    (parsedFiles : s'.parsedFiles = Function.update s.parsedFiles key
      ((s.parsedFiles key).map change))
    (nextEnv : s.nextEnv ≤ s'.nextEnv)
    (fileExprs : ∀ env, s'.fileExprs env = s.fileExprs env) (failed : s'.failed = s.failed)
    (evaluations : s'.handlerEvaluations = s.handlerEvaluations) :
    OthersFilled key bound s' where
  evaluations := filled.evaluations.of_eq evaluations
  newEnvs := by
    intro env isNew
    rw [fileExprs, failed]
    exact filled.newEnvs env (Nat.le_trans nextEnv isNew)
  pointers := by
    intro other file envir isEntry
    rw [entries] at isEntry
    have present := filled.pointers other file envir isEntry
    rw [parsedFiles]
    by_cases same : file = key
    · rw [same] at present ⊢
      simpa using present
    · rw [Function.update_of_ne same]
      exact present
  made := Nat.le_trans filled.made nextEnv
  others := by
    intro other record isOther isRecord
    rw [parsedFiles, Function.update_of_ne isOther] at isRecord
    exact (filled.others other record isOther isRecord).of_eq (Nat.le_refl bound)
      (fun env _ => fileExprs (some env)) fun env _ => congrFun failed env

end Keeps

/-! ## Evaluating a file -/

/-- What the handler has from `PrepareFileExprs`. -/
def Found (h : HandlerEntry) (key : Bytes) (fileParsed : Bool) (s : Child) : Prop :=
  OthersFilled key s.nextEnv s ∧ PointsTo h key s ∧ (fileParsed = false → Filled s)

/-- Expressions of a record are evaluated in its new environment: these so far, and one of them
may have failed. -/
structure Evaluating (h : HandlerEntry) (key : Bytes) (record : RApacheParsedFile) (env : EnvId)
    (evaluated : List RExpr) (failed : Bool) (s : Child) : Prop where
  others : OthersFilled key env s
  points : PointsTo h key s
  isRecord : s.parsedFiles key = some record
  isMade : env < s.nextEnv
  fileExprs : s.fileExprs (some env) = evaluated
  failed : s.failed env = failed

section Keeps

variable {s s' : Child} {h : HandlerEntry} {key : Bytes} {record : RApacheParsedFile} {env : EnvId}
  {evaluated : List RExpr} {failed : Bool}

theorem Found.keeps {fileParsed : Bool} (found : Found h key fileParsed s)
    (keeps : KeepsFilled s s') : Found h key fileParsed s' := by
  refine ⟨?_, found.2.1.keeps keeps, fun reused => (found.2.2 reused).keeps keeps⟩
  rw [keeps.nextEnv]
  exact found.1.keeps keeps

theorem Evaluating.keeps (now : Evaluating h key record env evaluated failed s)
    (keeps : KeepsFilled s s') : Evaluating h key record env evaluated failed s' where
  others := now.others.keeps keeps
  points := now.points.keeps keeps
  isRecord := by
    rw [keeps.parsedFiles]
    exact now.isRecord
  isMade := by
    rw [keeps.nextEnv]
    exact now.isMade
  fileExprs := (keeps.fileExprs _).trans now.fileExprs
  failed := (congrFun keeps.failed env).trans now.failed

/-- What is evaluated in the new environment, or fails there, is nothing to the others. -/
theorem OthersFilled.evaluate (filled : OthersFilled key env s) (isMade : env < s.nextEnv)
    (entries : s'.handlers = s.handlers) (parsedFiles : s'.parsedFiles = s.parsedFiles)
    (nextEnv : s'.nextEnv = s.nextEnv)
    (fileExprs : ∀ other, other ≠ env → s'.fileExprs (some other) = s.fileExprs (some other))
    (failed : ∀ other, other ≠ env → s'.failed other = s.failed other)
    (evaluations : s'.handlerEvaluations = s.handlerEvaluations) : OthersFilled key env s' where
  evaluations := filled.evaluations.of_eq evaluations
  newEnvs := by
    intro other isNew
    rw [nextEnv] at isNew
    have isOther : other ≠ env := Nat.ne_of_gt (Nat.lt_of_lt_of_le isMade isNew)
    rw [fileExprs other isOther, failed other isOther]
    exact filled.newEnvs other isNew
  pointers := by
    intro other file envir isEntry
    rw [Child.fileEntry, entries] at isEntry
    rw [parsedFiles]
    exact filled.pointers other file envir isEntry
  made := by
    rw [nextEnv]
    exact filled.made
  others := by
    intro other record isOther isRecord
    rw [parsedFiles] at isRecord
    exact (filled.others other record isOther isRecord).of_eq (Nat.le_refl env)
      (fun other older => fileExprs other (Nat.ne_of_lt older))
      fun other older => failed other (Nat.ne_of_lt older)

theorem fileExprs_snoc (s : Child) (env other : EnvId) (expr : RExpr) :
    Child.fileExprs
      { s with
        evaluated := Function.update s.evaluated env (s.evaluated env ++ [(.file, expr)]) }
      (some other) =
        if other = env then s.fileExprs (some env) ++ [expr] else s.fileExprs (some other) := by
  by_cases same : other = env
  · simp [Child.fileExprs, same, Function.update_self]
  · simp [Child.fileExprs, same, Function.update_of_ne]

theorem Evaluating.succeed {ω : Answer} (now : Evaluating h key record env evaluated false s)
    (expr : RExpr) :
    Evaluating h key record env (evaluated ++ [expr]) false
      { s.written ω with
        evaluated := Function.update s.evaluated env (s.evaluated env ++ [(.file, expr)]) } where
  others := by
    refine now.others.evaluate now.isMade rfl rfl rfl ?_ (fun _ _ => rfl) rfl
    intro other isOther
    have exprs := fileExprs_snoc (s.written ω) env other expr
    rw [if_neg isOther] at exprs
    exact exprs
  points := now.points
  isRecord := now.isRecord
  isMade := now.isMade
  fileExprs := by
    have exprs := fileExprs_snoc (s.written ω) env env expr
    rw [if_pos rfl] at exprs
    exact exprs.trans (congrArg (· ++ [expr]) now.fileExprs)
  failed := now.failed

theorem Evaluating.fail {ω : Answer} (now : Evaluating h key record env evaluated false s) :
    Evaluating h key record env evaluated true
      { s.written ω with failed := Function.update s.failed env true } where
  others := by
    refine now.others.evaluate now.isMade rfl rfl rfl (fun _ _ => rfl) ?_ rfl
    intro other isOther
    exact Function.update_of_ne isOther ..
  points := now.points
  isRecord := now.isRecord
  isMade := now.isMade
  fileExprs := now.fileExprs
  failed := Function.update_self ..

/-- When all expressions are evaluated, or one of them has failed. -/
theorem Evaluating.filled (now : Evaluating h key record env evaluated failed s)
    (isEnv : record.envir = some env)
    (isFilled : if failed then evaluated.length < (elementsOf record.exprs).length
      else evaluated = elementsOf record.exprs) : Filled s := by
  apply now.others.filled
  intro found isFound
  rw [now.isRecord, Option.some.injEq] at isFound
  intro _
  refine ⟨env, isFound ▸ isEnv, now.isMade, ?_⟩
  rw [FilledFrom, now.failed, now.fileExprs, ← isFound]
  exact isFilled

end Keeps

namespace Code

variable {w : World} {me : Owner} {h : HandlerEntry} {key : Bytes}

theorem filled_caches : AboutCaches FullUnlessFailed Filled where
  implies _ filled := filled.evaluations
  keeps _ _ keeps filled := filled.keeps keeps.keepsFilled

theorem pointed_caches : AboutCaches FullUnlessFailed fun s => Filled s ∧ PointsTo h key s where
  implies _ filled := filled.1.evaluations
  keeps _ _ keeps filled := ⟨filled.1.keeps keeps.keepsFilled, filled.2.keeps keeps.keepsFilled⟩

theorem found_caches (fileParsed : Bool) :
    AboutCaches FullUnlessFailed (Found h key fileParsed) where
  implies _ found := found.1.evaluations
  keeps _ _ keeps found := found.keeps keeps.keepsFilled

theorem evaluating_caches {record : RApacheParsedFile} {env : EnvId} {evaluated : List RExpr}
    {failed : Bool} :
    AboutCaches FullUnlessFailed (Evaluating h key record env evaluated failed) where
  implies _ now := now.others.evaluations
  keeps _ _ keeps now := now.keeps keeps.keepsFilled

section Evaluation

variable {record : RApacheParsedFile} {env : EnvId}

/-- What is known of the record when one of these expressions fails. -/
def FailedWithin (h : HandlerEntry) (key : Bytes) (record : RApacheParsedFile) (env : EnvId)
    (exprs : List RExpr) (s : Child) : Prop :=
  ∃ evaluated, evaluated.length < exprs.length ∧ Evaluating h key record env evaluated true s

theorem evalExpr_fills (expr : RExpr) (evaluated : List RExpr) :
    Triple always FullUnlessFailed (Evaluating h key record env evaluated false)
      (evalExpr w me .file expr (some env)) fun value s =>
        match value with
        | some _ => Evaluating h key record env (evaluated ++ [expr]) false s
        | none => Evaluating h key record env evaluated true s := by
  refine (evaluating_caches.triple (tryEval_every allowsCode_keepsCaches)).bind fun value => ?_
  cases value with
  | some value =>
      have succeeds : Triple always FullUnlessFailed
          (Evaluating h key record env evaluated false)
          (modify fun s =>
            { s with
              evaluated :=
                Function.update s.evaluated env (s.evaluated env ++ [(.file, expr)]) })
          (fun _ => Evaluating h key record env (evaluated ++ [expr]) false) := by
        apply triple_modify evaluating_caches.implies
        intro ω s now
        exact ⟨now.others.evaluations, now.succeed expr⟩
      exact succeeds.bind fun _ => .done evaluating_caches.implies fun _ now => now
  | none =>
      have fails : Triple always FullUnlessFailed
          (Evaluating h key record env evaluated false)
          (modify fun s => { s with failed := Function.update s.failed env true })
          (fun _ => Evaluating h key record env evaluated true) := by
        apply triple_modify evaluating_caches.implies
        intro ω s now
        exact ⟨now.others.evaluations, now.fail⟩
      exact fails.bind fun _ => .done evaluating_caches.implies fun _ now => now

/-- The loop of `EvalExprs`; the induction is on the expressions that remain. -/
theorem evalLoop_fills (exprs evaluated : List RExpr) (lastval : RResult) :
    Triple always FullUnlessFailed (Evaluating h key record env evaluated false)
      (evalLoop w me .file (some env) lastval exprs) fun value s =>
        match value with
        | some _ => Evaluating h key record env (evaluated ++ exprs) false s
        | none => FailedWithin h key record env (evaluated ++ exprs) s := by
  induction exprs generalizing evaluated lastval with
  | nil =>
      refine .done evaluating_caches.implies fun _ now => ?_
      rw [List.append_nil]
      exact now
  | cons expr exprs ih =>
      refine (evalExpr_fills expr evaluated).bind fun value => ?_
      cases value with
      | some value =>
          have later := ih (evaluated ++ [expr]) value
          rw [List.append_assoc] at later
          exact later
      | none =>
          refine .done evaluating_caches.implies fun _ now => ⟨evaluated, ?_, now⟩
          simp

/-- `EvalExprs` of the expressions of a record in its new environment. -/
theorem evalExprs_fills (isEnv : record.envir = some env) :
    Triple always FullUnlessFailed (Evaluating h key record env [] false)
      (evalExprs w me .file record.exprs record.envir true)
      fun _ s => Filled s ∧ PointsTo h key s := by
  have nothing (empty : elementsOf record.exprs = []) {value : RResult × Bool} :
      Triple always FullUnlessFailed (Evaluating h key record env [] false)
        (.done value) fun _ s => Filled s ∧ PointsTo h key s :=
    .done evaluating_caches.implies fun _ now =>
      ⟨now.others.filled fun found isFound => recordFilled_of_empty (by
        rw [now.isRecord, Option.some.injEq] at isFound
        rw [← isFound]
        exact empty), now.points⟩
  unfold evalExprs
  split
  next =>
    exact readNull_triple evaluating_caches.implies fun _ _ now => now.others.evaluations
  next isNil => exact nothing (by rw [isNil]; rfl)
  next isOther => exact nothing (by rw [isOther]; rfl)
  next isEmpty => exact nothing (by rw [isEmpty]; rfl)
  next exprs _ _ _ isExprs =>
    have elements : elementsOf record.exprs = exprs.elements := by
      rw [isExprs]
      rfl
    rw [isEnv]
    refine (evalLoop_fills exprs.elements [] .other).bind fun value => ?_
    cases value with
    | some value =>
        refine .done evaluating_caches.implies fun _ now => ⟨now.filled isEnv ?_, now.points⟩
        simp [elements]
    | none =>
        refine .done ?_ ?_
        · rintro s ⟨evaluated, -, now⟩
          exact now.others.evaluations
        · rintro s ⟨evaluated, shorter, now⟩
          refine ⟨now.filled isEnv ?_, now.points⟩
          rw [elements]
          exact shorter

end Evaluation

/-! ## The functions of the handler -/

/-- Changing members of a record. -/
theorem modifyParsedFile_fills (change : RApacheParsedFile → RApacheParsedFile) :
    Triple always FullUnlessFailed
      (fun s => OthersFilled key s.nextEnv s ∧ PointsTo h key s ∧ (s.parsedFiles key).isSome)
      (modifyParsedFile key change) fun _ s =>
        (OthersFilled key s.nextEnv s ∧ PointsTo h key s ∧ (s.parsedFiles key).isSome) ∧
          ∀ record, s.parsedFiles key = some record → ∃ before, record = change before := by
  apply triple_modify fun _ now => now.1.evaluations
  rintro ω s ⟨others, points, present⟩
  have later : OthersFilled key s.nextEnv
      { s.written ω with
        parsedFiles := Function.update s.parsedFiles key ((s.parsedFiles key).map change) } :=
    others.modify (fun _ => rfl) rfl (Nat.le_refl _) (fun _ => rfl) rfl rfl
  refine ⟨later.evaluations, ⟨later, points, ?_⟩, ?_⟩
  · simpa [Child.written] using present
  · intro record isRecord
    simp only [Child.written, Function.update_self, Option.map_eq_some_iff] at isRecord
    rcases isRecord with ⟨before, -, changed⟩
    exact ⟨before, changed.symm⟩

/-- Finding the record of a handler, or making a new one. -/
theorem fileRecord_fills (file : Bytes) :
    Triple always FullUnlessFailed Filled (fileRecord h file)
      fun key s => Filled s ∧ PointsTo h key s := by
  apply filled_caches.fileRecord
  · exact fun key s located => located.1.evaluations
  · intro s entry key filled isEntry isFound
    refine ⟨filled, entry.envir, ?_⟩
    simp [Child.fileEntry, isEntry, isFound]
  · intro s entry filled isEntry _
    refine ⟨⟨filled.evaluations, filled.newEnvs, ?_, ?_⟩, entry.envir, ?_⟩
    · exact filled.pointers.point rfl rfl rfl
    · exact forall_update_getD (recordFilled_of_empty rfl) filled.records
    · simp [Child.fileEntry]

/-- The value of a parse is no `NULL` pointer, or holds no expressions if the parse fails. -/
structure ParseValue (parsed : Option RExprs × Bool) : Prop where
  failed : parsed.2 = true → elementsOf parsed.1 = []
  succeeded : parsed.2 = false → parsed.1.isSome

theorem parseFile_triple {ok : Answer → Child → Child → Prop} {I P : Child → Prop}
    (about : AboutCaches I P) (file : Bytes) :
    Triple ok I P (parseFile w me file) fun parsed s => ParseValue parsed ∧ P s := by
  have reads (value : Answer → Child → Option RExprs × Bool)
      (isValue : ∀ ω s, ParseValue (value ω s)) :
      Triple ok I P (read value) fun parsed s => ParseValue parsed ∧ P s := by
    apply triple_atomic about.implies
    intro ω s parsed s' now acted
    cases acted
    have later := about.keeps s (s.written ω) (written_keepsCaches ω s) now
    exact ⟨about.implies _ later, isValue ω _, later⟩
  have allows : AllowsCode always (fun _ => KeepsCaches) w me := allowsCode_keepsCaches
  unfold parseFile
  split
  next =>
    refine (about.triple (printParseErrors_every allows.toAllowsWork)).bind fun _ => ?_
    apply reads
    intro ω s
    split
    next =>
      split
      next =>
        split
        next => exact ⟨nofun, fun _ => rfl⟩
        next => exact ⟨fun _ => rfl, nofun⟩
      next => exact ⟨fun _ => rfl, nofun⟩
    next => exact ⟨fun _ => rfl, nofun⟩
  next =>
    refine (about.triple (tryEval_every allows)).bind fun value => ?_
    have isEmpty (found : Bool) :
        elementsOf (if found then none else some .nilValue) = [] := by
      cases found with
      | true => rfl
      | false => rfl
    cases value with
    | some value =>
        apply reads
        intro ω s
        exact ⟨nofun, fun _ => rfl⟩
    | none =>
        apply reads
        intro ω s
        exact ⟨fun _ => isEmpty ω.found, nofun⟩

/-- `PrepareFileExprs`. -/
theorem prepareFileExprs_fills (file : Bytes) :
    Triple always FullUnlessFailed Filled (prepareFileExprs w me h file) fun ready s =>
      match ready with
      | none => Filled s
      | some (key, fileParsed, _) => Found h key fileParsed s := by
  have allows : AllowsCode always (fun _ => KeepsCaches) w me := allowsCode_keepsCaches
  refine (filled_caches.triple (aprStat_every allows file)).bind fun finfo => ?_
  cases finfo with
  | none =>
      exact (filled_caches.triple (perform_every allows.toAllowsWork rfl)).bind fun _ =>
        .done filled_caches.implies fun _ now => now
  | some finfo =>
      rcases finfo with ⟨mtime, versions⟩
      refine (fileRecord_fills file).bind fun key => ?_
      refine (pointed_caches.triple (read_every allows.toAllowsWork _)).bind fun older => ?_
      cases older with
      | false =>
          exact .done pointed_caches.implies fun s now =>
            ⟨now.1.others, now.2, fun _ => now.1⟩
      | true =>
          refine (parseFile_triple pointed_caches file).bind fun parsed => ?_
          apply Triple.given
          intro isValue
          rcases parsed with ⟨exprs, evalError⟩
          have setExprs := @modifyParsedFile_fills h key fun record => { record with exprs }
          refine Triple.bind (setExprs.pre ?_) fun _ => ?_
          · rintro s ⟨filled, envir, points⟩
            exact ⟨filled.others, ⟨envir, points⟩, filled.pointers h.key key envir points⟩
          cases evalError with
          | true =>
              refine .done (fun _ now => now.1.1.evaluations) fun s now => ?_
              apply now.1.1.filled
              intro record isRecord
              rcases now.2 record isRecord with ⟨before, isChanged⟩
              apply recordFilled_of_empty
              rw [isChanged]
              exact isValue.failed rfl
          | false =>
              have setTime := @modifyParsedFile_fills h key fun record => { record with mtime }
              refine Triple.bind (setTime.pre fun _ now => now.1) fun _ => ?_
              exact .done (fun _ now => now.1.1.evaluations) fun s now =>
                ⟨now.1.1, now.1.2.1, nofun⟩

/-- Recording the evaluation of a file. -/
theorem log_keepsFilled (s : Child) (evaluations : List FileEvaluation) :
    KeepsFilled s { s with fileEvaluations := evaluations } :=
  ⟨fun _ => rfl, rfl, rfl, fun _ => rfl, rfl, rfl⟩

/-- The expressions of a file are evaluated in a new environment, and what has become of it
is known whether or not one fails. -/
theorem evalFile_fills (r : RequestRec) (file : Bytes) (fileParsed : Bool) (versions : Nat) :
    Triple always FullUnlessFailed (Found h key fileParsed) (evalFile w me r file key versions)
      fun _ s => Filled s ∧ PointsTo h key s := by
  have made : Triple always FullUnlessFailed (Found h key fileParsed) (newFileEnv key)
      (fun _ s => ∃ record env, record.envir = some env ∧
        Evaluating h key record env [] false s) := by
    apply triple_modify (found_caches fileParsed).implies
    rintro ω s ⟨others, ⟨envir, points⟩, -⟩
    rcases Option.isSome_iff_exists.mp (others.pointers h.key key envir points) with
      ⟨record, isRecord⟩
    have empty := others.newEnvs s.nextEnv (Nat.le_refl _)
    have later : OthersFilled key s.nextEnv
        { s.written ω with
          parsedFiles := Function.update s.parsedFiles key
            ((s.parsedFiles key).map fun parsedFile =>
              { parsedFile with envir := some s.nextEnv })
          nextEnv := s.nextEnv + 1 } :=
      others.modify (fun _ => rfl) rfl (Nat.le_succ _) (fun _ => rfl) rfl rfl
    refine ⟨later.evaluations, { record with envir := some s.nextEnv }, s.nextEnv, rfl, later,
      ⟨envir, points⟩, ?_, Nat.lt_succ_self _, empty.1, empty.2⟩
    simp [Child.written, isRecord]
  refine made.bind fun _ => ?_
  have looked : Triple always FullUnlessFailed
      (fun s => ∃ record env, record.envir = some env ∧ Evaluating h key record env [] false s)
      (read fun _ s => (s.parsedFiles key).getD {})
      (fun record s => ∃ env, record.envir = some env ∧
        Evaluating h key record env [] false s) := by
    apply triple_atomic
    · rintro s ⟨record, env, -, now⟩
      exact now.others.evaluations
    · rintro ω s found s' ⟨record, env, isEnv, now⟩ acted
      cases acted
      have keeps : KeepsCaches s (s.written ω) := written_keepsCaches ω s
      have later := now.keeps keeps.keepsFilled
      have isRecord : ((s.written ω).parsedFiles key).getD {} = record := by
        rw [later.isRecord]
        rfl
      refine ⟨later.others.evaluations, env, ?_, ?_⟩
      · exact (congrArg RApacheParsedFile.envir isRecord).trans isEnv
      · change Evaluating h key (((s.written ω).parsedFiles key).getD {}) env [] false _
        rw [isRecord]
        exact later
  refine looked.bind fun record => ?_
  apply Triple.exists
  intro env
  apply Triple.given
  intro isEnv
  refine (evalExprs_fills isEnv).bind fun value => ?_
  rcases value with ⟨ret, evalError⟩
  cases evalError with
  | true => exact .done pointed_caches.implies fun _ now => now
  | false =>
      refine Triple.bind ?_ fun _ => .done pointed_caches.implies fun _ now => now
      apply triple_modify pointed_caches.implies
      intro ω s now
      have written : KeepsCaches s (s.written ω) := written_keepsCaches ω s
      have before := pointed_caches.keeps s (s.written ω) written now
      exact ⟨before.1.evaluations, before.1.keeps (log_keepsFilled (s.written ω) _),
        before.2.keeps (log_keepsFilled (s.written ω) _)⟩

/-! ## The entry of the handler -/

/-- Changing entries, but not the records to which they point. -/
theorem filled_entries {s s' : Child} (filled : Filled s)
    (points : ∀ key file envir, s'.fileEntry key = some (some file, envir) →
      ∃ before, s.fileEntry key = some (some file, before))
    (parsedFiles : s'.parsedFiles = s.parsedFiles) (nextEnv : s.nextEnv ≤ s'.nextEnv)
    (evaluated : s'.evaluated = s.evaluated) (failed : s'.failed = s.failed)
    (evaluations : s'.handlerEvaluations = s.handlerEvaluations) : Filled s' := by
  have fileExprs (env : EnvId) : s'.fileExprs (some env) = s.fileExprs (some env) := by
    simp only [Child.fileExprs, evaluated]
  constructor
  · exact filled.evaluations.of_eq evaluations
  · intro env isNew
    rw [fileExprs, failed]
    exact filled.newEnvs env (Nat.le_trans nextEnv isNew)
  · intro key file envir isEntry
    rcases points key file envir isEntry with ⟨before, wasEntry⟩
    rw [parsedFiles]
    exact filled.pointers key file before wasEntry
  · intro key record isRecord
    rw [parsedFiles] at isRecord
    exact (filled.records key record isRecord).of_eq nextEnv (fun env _ => fileExprs env)
      fun env _ => congrFun failed env

theorem createHandler_fills (key : Bytes) :
    Triple always FullUnlessFailed Filled (createHandler key) fun _ => Filled := by
  apply triple_modify filled_caches.implies
  intro ω s filled
  have written : KeepsCaches s (s.written ω) := written_keepsCaches ω s
  have before : Filled (s.written ω) := filled.keeps written.keepsFilled
  have later : Filled { s.written ω with
      handlers := Function.update s.handlers key (some ((s.handlers key).getD {})) } :=
    filled_entries before (fileEntry_create rfl) rfl (Nat.le_refl _) rfl rfl rfl
  exact ⟨later.evaluations, later⟩

theorem newHandlerEnv_fills (key : Bytes) :
    Triple always FullUnlessFailed Filled (newHandlerEnv key) fun _ => Filled := by
  apply triple_modify filled_caches.implies
  intro ω s filled
  have written : KeepsCaches s (s.written ω) := written_keepsCaches ω s
  have later := filled_entries (filled.keeps written.keepsFilled)
    (@fileEntry_change (s.written ω)
      { s.written ω with
        handlers := Function.update s.handlers key
          ((s.handlers key).map fun entry => { entry with envir := some s.nextEnv })
        nextEnv := s.nextEnv + 1 } key _ rfl fun _ => rfl)
    rfl (Nat.le_succ _) rfl rfl rfl
  exact ⟨later.evaluations, later⟩

/-- The entry gets the environment of its record. -/
theorem setEnvir_settles :
    Triple always FullUnlessFailed (fun s => Filled s ∧ PointsTo h key s)
      (prepareEnvironment.setEnvir h key) fun _ s => Filled s ∧ Settled h s := by
  apply triple_modify pointed_caches.implies
  intro ω s now
  have written : KeepsCaches s (s.written ω) := written_keepsCaches ω s
  rcases pointed_caches.keeps s (s.written ω) written now with ⟨filled, envir, points⟩
  have later := filled_entries filled
    (@fileEntry_change (s.written ω)
      { s.written ω with
        handlers := Function.update s.handlers h.key
          ((s.handlers h.key).map fun entry =>
            { entry with envir := ((s.parsedFiles key).getD {}).envir }) } h.key _ rfl
      fun _ => rfl)
    rfl (Nat.le_refl _) rfl rfl rfl
  refine ⟨later.evaluations, later, ?_⟩
  rcases Option.isSome_iff_exists.mp (filled.pointers h.key key envir points) with
    ⟨record, isRecord⟩
  have isRecord' : s.parsedFiles key = some record := isRecord
  refine ⟨key, record, ?_, isRecord⟩
  rw [Child.fileEntry, Option.map_eq_some_iff] at points
  rcases points with ⟨entry, isEntry, same⟩
  have isEntry' : s.handlers h.key = some entry := isEntry
  have pointsTo : entry.parsedFile = some key := congrArg Prod.fst same
  simp [Child.fileEntry, Child.written, isEntry', isRecord', pointsTo]

/-! ## The evaluation of the handler -/

/-- The environment of a record was filled, or the evaluation of its file has failed. -/
theorem full_iff {s : Child} {bound : EnvId} {record : RApacheParsedFile}
    {evaluation : HandlerEvaluation} (filled : RecordFilled bound s record)
    (exprs : evaluation.exprs = record.exprs)
    (evaluated : evaluation.evaluated = s.fileExprs record.envir)
    (failed : evaluation.failed = (record.envir.map s.failed).getD false) :
    EnvironmentIsFull evaluation ↔ ¬ FileFailed evaluation := by
  rw [EnvironmentIsFull, FileFailed, exprs, evaluated, failed]
  by_cases empty : elementsOf record.exprs = []
  · simp [empty]
  · rcases filled empty with ⟨env, isEnv, -, from_⟩
    rw [FilledFrom] at from_
    rw [isEnv, Option.map_some, Option.getD_some]
    cases hasFailed : s.failed env with
    | true =>
        rw [hasFailed, if_pos rfl] at from_
        constructor
        · intro full
          exact (Nat.not_le_of_lt from_ full.length_le).elim
        · intro notFailed
          exact (notFailed ⟨rfl, empty⟩).elim
    | false =>
        rw [hasFailed, if_neg Bool.false_ne_true] at from_
        simp [from_]

theorem allowsEvaluation_keepsFilled :
    AllowsEvaluation .handler always (fun _ => KeepsFilled) w me where
  work step := ((@allowsCode_keepsCaches w me).work step).keepsFilled
  execFailure := (allowsCode_keepsCaches.execFailure).mono fun _ _ _ keeps => keeps.keepsFilled
  evaluated env expr := by
    refine ⟨fun _ => rfl, rfl, rfl, ?_, rfl, rfl⟩
    intro other
    cases other with
    | none => rfl
    | some other =>
        by_cases same : other = env
        · simp [Child.fileExprs, same, Function.update_self]
        · simp [Child.fileExprs, Function.update_of_ne same]
  failed := nofun

theorem evalHandler_fills (r : RequestRec) (evalError : Bool) :
    Triple always FullUnlessFailed
      (fun s => Filled s ∧ (h.directive.file.isSome → Settled h s))
      (evalHandler w me h r evalError) fun _ => Filled := by
  unfold evalHandler
  refine Triple.bind (?_ : Triple always FullUnlessFailed
    (fun s => Filled s ∧ (h.directive.file.isSome → Settled h s)) _
    fun (_ : RApacheHandler) => Filled) fun entry => ?_
  · apply triple_atomic fun _ now => now.1.evaluations
    rintro ω s value s' ⟨before, settled⟩ acted
    have written : KeepsCaches s (s.written ω) := written_keepsCaches ω s
    have filled : Filled (s.written ω) := before.keeps written.keepsFilled
    cases acted
    suffices full : FullUnlessFailed _ from
      ⟨full, full, filled.newEnvs, filled.pointers, filled.records⟩
    intro evaluation isEvaluation isFile
    rcases List.mem_cons.mp isEvaluation with isNow | earlier
    · rw [isNow] at isFile ⊢
      rcases (settled isFile).keeps written.keepsFilled with ⟨key, record, isEntry, isRecord⟩
      rw [Child.fileEntry, Option.map_eq_some_iff] at isEntry
      rcases isEntry with ⟨entry, isEntry, same⟩
      have parsedFile : entry.parsedFile = some key := congrArg Prod.fst same
      have envir : entry.envir = record.envir := congrArg Prod.snd same
      apply full_iff (filled.records key record isRecord)
      · simp [isEntry, parsedFile, isRecord]
      · simp [isEntry, envir]
      · simp [isEntry, envir]
    · exact filled.evaluations evaluation earlier isFile
  · exact (evalExprs_every allowsEvaluation_keepsFilled _ _ _
      fun _ use ω s => (nullUse_keepsFiles use ω s).keepsFilled).triple
      (fun _ _ _ keeps filled => filled.keeps keeps) filled_caches.implies

/-- The rules for the environments. -/
theorem environmentRules :
    CacheRules always (fun _ => True) w FullUnlessFailed Filled (fun _ => Filled)
    (fun h _ key fileParsed _ => Found h key fileParsed)
    (fun h _ key s => Filled s ∧ PointsTo h key s)
    (fun h _ s => Filled s ∧ (h.directive.file.isSome → Settled h s))
    (fun h _ s => Filled s ∧ (h.directive.file.isSome → Settled h s)) where
  idleCaches := filled_caches
  enteredCaches _ := filled_caches
  filledCaches _ _ _ := pointed_caches
  preparedCaches _ _ := {
    implies := fun _ now => now.1.evaluations
    keeps := fun _ _ keeps now => ⟨now.1.keeps keeps.keepsFilled,
      fun isFile => (now.2 isFile).keeps keeps.keepsFilled⟩ }
  enteredIdle _ _ now := now
  preparedIdle _ _ _ now := now.1
  createHandler key := createHandler_fills key
  setDirective key d := by
    have sets : Every always (fun _ => KeepsFiles)
        (modifyHandler key fun entry => { entry with directive := some d }) :=
      modifyHandler_keepsFiles key (fun _ => rfl) fun _ => rfl
    exact sets.triple (fun _ _ _ keeps filled => filled.keeps keeps.keepsFilled)
      filled_caches.implies
  newHandlerEnv r h _ _ noFile := by
    apply (newHandlerEnv_fills h.key).post
    intro _ s filled
    refine ⟨filled, fun isFile => ?_⟩
    rw [noFile] at isFile
    cases isFile
  prepareFile me r h file _ _ _ _ := prepareFileExprs_fills file
  evalFile me r h file key fileParsed versions _ _ _ _ := by
    apply (evalFile_fills r file fileParsed versions).post
    intro value s now
    split
    next => exact now.1
    next => exact now
  reuse _ _ _ _ _ found := ⟨found.2.2 rfl, found.2.1⟩
  setEnvir r h file key _ _ _ := by
    apply setEnvir_settles.post
    intro _ s now
    exact ⟨now.1, fun _ => now.2⟩
  prepareHandlerExpr me r h type env _ _ _ _ := by
    have keeps : Triple always FullUnlessFailed
        (fun s => Filled s ∧ (h.directive.file.isSome → Settled h s))
        (prepareHandlerExpr w me h r type env)
        fun _ s => Filled s ∧ (h.directive.file.isSome → Settled h s) :=
      (prepareHandlerExpr_keepsFiles h r type env).triple
        (fun _ _ _ keeps now => ⟨now.1.keeps keeps.keepsFilled,
          fun isFile => (now.2 isFile).keeps keeps.keepsFilled⟩) fun _ now => now.1.evaluations
    apply (keeps.pre fun _ now => now.1).post
    intro ready s now
    split
    next => exact now
    next => exact now.1
  evalHandler _ r _ evalError _ _ := evalHandler_fills r evalError

end Code

/-! ## Children -/

/-- A request for the directive `RFileHandler /f::main`. -/
def fileRequest : RequestRec where
  address := 0
  handler := bytes "r-handler"
  perDirConfig := some {
    file := some (bytes "/f")
    dirname := some (bytes "/")
    function := some (bytes "main")
    handlerKey := some (bytes "/f::main") }
  filename := some (bytes "/a")

/-- Some steps of a child without threads that serves two such requests for a file with one
expression, which has an error if it is evaluated in this step. -/
def runsFile (failing : Option Nat) (count : Nat) : Option (Code Unit × Child) :=
  Program.runWith
    (fun step => if failing = some step then { behaviour := .finish none } else {}) count
    (Code.serve plainWorld 0 0 [fileRequest, fileRequest])
    (Child.fresh (bytes "/") none fun file =>
      if file = bytes "/f" then [{ mtime := 1, content := bytes "x" }] else [])

theorem runsFile_serves {failing : Option Nat} {count : Nat}
    (ran : (runsFile failing count).isSome) :
    Serves plainWorld [fileRequest, fileRequest] ((runsFile failing count).get ran).2 :=
  ⟨_, _, _, _, Program.runWith_reaches (Option.some_get ran).symm⟩

end RApache
