import RApache.FileEnvironments
import RApache.HandlerPreparation
import RApache.SectionRecord

/-!
# `NULL` pointers

The handler takes the length of strings, evaluates what is cached of a file, and passes
environments to R.  None of these is a `NULL` pointer as long as r-script requests have a function
to call, and a file that is not parsed again has left what its requests use of it.
-/

namespace RApache

open Stepwise
open Stepwise.Program (Every Reaches Triple)

/-- An r-script request for which something is evaluated has a function to call, and a file to
call it with. -/
def ScriptIsNamed (r : RequestRec) : Prop :=
  handlerType r.handler = some .script → ∀ h, HandlerOf r h →
    h.directive.function.isSome ∨ h.directive.evalcode.isSome →
      h.directive.function.isSome ∧ r.filename.isSome

/-- The record of a handler's file: the one that the entry points to already, or that of the
directive's file. -/
def Child.fileRecord (s : Child) (key file : Bytes) : RApacheParsedFile :=
  (s.parsedFiles (((s.handlers key).bind RApacheHandler.parsedFile).getD file)).getD {}

/-- A request for a function that is looked up in the environment of the file, and not found if
there is none. -/
structure LooksUp (r : RequestRec) (h : HandlerEntry) (s : Child) : Prop where
  isHandler : handlerType r.handler = some .handler
  function : h.directive.function.isSome
  file : h.directive.file.isSome
  noPackage : h.directive.package = none
  noExpr : s.handlerExpr h.key = none

/-- What a request needs of a record that is not parsed again: its expressions, if these are all
that is evaluated, or else an environment, which every record has that was parsed before. -/
def RecordServes (r : RequestRec) (h : HandlerEntry) (s : Child) (record : RApacheParsedFile) :
    Prop :=
  if h.directive.function = none ∧ h.directive.evalcode = none then record.exprs.isSome = true
  else 0 < record.mtime ∨ LooksUp r h s

/-- The file of a request is later than its record, or the record will do. -/
def FileServes (r : RequestRec) (s : Child) : Prop :=
  ∀ h file version older, HandlerOf r h → handlerType r.handler ≠ some .info →
    h.directive.file = some file → s.versions file = version :: older →
      (s.fileRecord h.key file).mtime < version.mtime ∨
        RecordServes r h s (s.fileRecord h.key file)

/-- In every step, the files of the requests are later than their records, or these will do. -/
def FilesServe (requests : List RequestRec) (ω : Answer) (s _ : Child) : Prop :=
  ∀ r ∈ requests, FileServes r (s.written ω)

/-! ## What is known of the caches -/

/-- Entries still point to their records, and have their environments. -/
structure KeepsValues (s s' : Child) : Prop where
  entries : ∀ key, s'.fileEntry key = s.fileEntry key
  parsedFiles : s'.parsedFiles = s.parsedFiles
  nullUses : s'.nullUses = s.nullUses

theorem KeepsCaches.keepsValues {s s' : Child} (keeps : KeepsCaches s s') : KeepsValues s s' where
  entries := keeps.keepsFiles.entries
  parsedFiles := keeps.parsedFiles
  nullUses := keeps.nullUses

/-- No `NULL` pointer was used, and every record that was parsed has an environment, but for the
one of which the environment is being made. -/
structure Valued (pending : Option Bytes) (s : Child) : Prop where
  noUses : s.nullUses = []
  pointers : PointersMeet s
  parsed : ∀ key record, some key ≠ pending → s.parsedFiles key = some record →
    0 < record.mtime → record.envir.isSome

/-- The entry of a handler points to a record of which this is true. -/
def RecordIs (h : HandlerEntry) (key : Bytes) (holds : RApacheParsedFile → Prop) (s : Child) :
    Prop :=
  PointsTo h key s ∧ ∃ record, s.parsedFiles key = some record ∧ holds record

/-- An environment in which the handler can evaluate its expression, if it has one. -/
def EnvirServes (r : RequestRec) (h : HandlerEntry) (s : Child) (envir : Option EnvId) : Prop :=
  (h.directive.function = none ∧ h.directive.evalcode = none) ∨ envir.isSome ∨ LooksUp r h s

section Keeps

variable {s s' : Child} {pending : Option Bytes} {h : HandlerEntry} {r : RequestRec}
  {key file : Bytes}

theorem Valued.keeps (valued : Valued pending s) (keeps : KeepsValues s s') :
    Valued pending s' where
  noUses := keeps.nullUses.trans valued.noUses
  pointers := valued.pointers.of_eq keeps.entries keeps.parsedFiles
  parsed := by
    rw [keeps.parsedFiles]
    exact valued.parsed

theorem RecordIs.keeps {holds holds' : RApacheParsedFile → Prop} (record : RecordIs h key holds s)
    (keeps : KeepsValues s s') (weaker : ∀ record, holds record → holds' record) :
    RecordIs h key holds' s' := by
  rcases record with ⟨points, record, isRecord, now⟩
  refine ⟨?_, record, ?_, weaker record now⟩
  · rw [PointsTo, keeps.entries]
    exact points
  · rw [keeps.parsedFiles]
    exact isRecord

theorem LooksUp.of_eq (looks : LooksUp r h s)
    (sameExpr : s'.handlerExpr h.key = s.handlerExpr h.key) : LooksUp r h s' where
  isHandler := looks.isHandler
  function := looks.function
  file := looks.file
  noPackage := looks.noPackage
  noExpr := sameExpr.trans looks.noExpr

theorem RecordServes.of_eq {record : RApacheParsedFile} (serves : RecordServes r h s record)
    (sameExpr : s'.handlerExpr h.key = s.handlerExpr h.key) : RecordServes r h s' record := by
  unfold RecordServes at serves ⊢
  split
  next only =>
    rw [if_pos only] at serves
    exact serves
  next more =>
    rw [if_neg more] at serves
    exact serves.imp_right fun looks => looks.of_eq sameExpr

theorem EnvirServes.of_eq {envir : Option EnvId} (serves : EnvirServes r h s envir)
    (sameExpr : s'.handlerExpr h.key = s.handlerExpr h.key) : EnvirServes r h s' envir :=
  serves.imp_right fun later => later.imp_right fun looks => looks.of_eq sameExpr

theorem fileRecord_eq (keeps : KeepsCaches s s') :
    s'.fileRecord key file = s.fileRecord key file := by
  rw [Child.fileRecord, keeps.handlers, keeps.parsedFiles, Child.fileRecord]

/-- Changing entries, but not the records to which they point. -/
theorem Valued.entries (valued : Valued pending s)
    (points : ∀ key file envir, s'.fileEntry key = some (some file, envir) →
      ∃ before, s.fileEntry key = some (some file, before))
    (parsedFiles : s'.parsedFiles = s.parsedFiles) (nullUses : s'.nullUses = s.nullUses) :
    Valued pending s' where
  noUses := nullUses.trans valued.noUses
  pointers := by
    intro key file envir isEntry
    rcases points key file envir isEntry with ⟨before, wasEntry⟩
    rw [parsedFiles]
    exact valued.pointers key file before wasEntry
  parsed := by
    rw [parsedFiles]
    exact valued.parsed

/-- Changing the record of a key, which then has an environment or is pending. -/
theorem Valued.modify {pending' : Option Bytes} {change : RApacheParsedFile → RApacheParsedFile}
    (valued : Valued pending s) (handlers : s'.handlers = s.handlers)
    (parsedFiles : s'.parsedFiles = Function.update s.parsedFiles key
      ((s.parsedFiles key).map change))
    (nullUses : s'.nullUses = s.nullUses)
    (others : ∀ other, other ≠ key → some other ≠ pending' → some other ≠ pending)
    (mine : some key ≠ pending' → ∀ record, s.parsedFiles key = some record →
      0 < (change record).mtime → (change record).envir.isSome) : Valued pending' s' where
  noUses := nullUses.trans valued.noUses
  pointers := by
    intro other file envir isEntry
    rw [Child.fileEntry, handlers] at isEntry
    have present := valued.pointers other file envir isEntry
    rw [parsedFiles]
    by_cases same : file = key
    · rw [same] at present ⊢
      simpa using present
    · rw [Function.update_of_ne same]
      exact present
  parsed := by
    intro other record isOther isRecord
    rw [parsedFiles] at isRecord
    by_cases same : other = key
    · rw [same, Function.update_self, Option.map_eq_some_iff] at isRecord
      rcases isRecord with ⟨before, wasRecord, rfl⟩
      exact mine (same ▸ isOther) before wasRecord
    · rw [Function.update_of_ne same] at isRecord
      exact valued.parsed other record (others other same isOther) isRecord

theorem RecordIs.modify {holds holds' : RApacheParsedFile → Prop}
    {change : RApacheParsedFile → RApacheParsedFile} (record : RecordIs h key holds s)
    (handlers : s'.handlers = s.handlers)
    (parsedFiles : s'.parsedFiles = Function.update s.parsedFiles key
      ((s.parsedFiles key).map change))
    (changes : ∀ record, holds record → holds' (change record)) : RecordIs h key holds' s' := by
  rcases record with ⟨points, record, isRecord, now⟩
  refine ⟨?_, change record, ?_, changes record now⟩
  · rw [PointsTo, Child.fileEntry, handlers]
    exact points
  · rw [parsedFiles, Function.update_self, isRecord, Option.map_some]

/-- A record that was not parsed again has an environment, if this is needed. -/
theorem RecordServes.envir {record : RApacheParsedFile} (serves : RecordServes r h s record)
    (parsed : 0 < record.mtime → record.envir.isSome) : EnvirServes r h s record.envir := by
  unfold RecordServes at serves
  split at serves
  next only => exact .inl only
  next => exact .inr (serves.imp_left parsed)

end Keeps

namespace Code

variable {ok : Answer → Child → Child → Prop} {w : World} {me : Owner} {r : RequestRec}
  {h : HandlerEntry} {key file : Bytes} {pending : Option Bytes}

/-! ## Assertions -/

/-- No `NULL` pointer was used. -/
def NoUses (s : Child) : Prop := s.nullUses = []

/-- There is an entry of the key. -/
def Entered (key : Bytes) (s : Child) : Prop := Valued none s ∧ (s.fileEntry key).isSome

/-- A record that the handler has found for its file. -/
def FoundValue (h : HandlerEntry) (r : RequestRec) (key : Bytes) (fileParsed : Bool)
    (s : Child) : Prop :=
  match fileParsed with
  | true => Valued (some key) s ∧ RecordIs h key (fun record => record.exprs.isSome) s
  | false => Valued none s ∧ RecordIs h key (RecordServes r h s) s

/-- A record whose environment the handler can use. -/
def FilledValue (h : HandlerEntry) (r : RequestRec) (key : Bytes) (s : Child) : Prop :=
  Valued none s ∧ RecordIs h key (fun record => EnvirServes r h s record.envir) s

/-- An entry whose environment the handler can use. -/
def PreparedValue (h : HandlerEntry) (r : RequestRec) (s : Child) : Prop :=
  Valued none s ∧ ∃ parsedFile envir, s.fileEntry h.key = some (parsedFile, envir) ∧
    EnvirServes r h s envir

/-- An entry whose expression can be evaluated. -/
def BuiltValue (h : HandlerEntry) (s : Child) : Prop :=
  Valued none s ∧ (s.handlerExpr h.key).isSome ∧
    ∃ parsedFile envir, s.fileEntry h.key = some (parsedFile, some envir)

theorem valued_caches : AboutCaches NoUses (Valued pending) where
  implies _ valued := valued.noUses
  keeps _ _ keeps valued := valued.keeps keeps.keepsValues

theorem entered_caches (key : Bytes) : AboutCaches NoUses (Entered key) where
  implies _ now := now.1.noUses
  keeps _ _ keeps now := by
    refine ⟨now.1.keeps keeps.keepsValues, ?_⟩
    rw [keeps.keepsValues.entries]
    exact now.2

theorem filledValue_caches : AboutCaches NoUses (FilledValue h r key) where
  implies _ now := now.1.noUses
  keeps _ _ keeps now :=
    ⟨now.1.keeps keeps.keepsValues, now.2.keeps keeps.keepsValues fun _ serves =>
      serves.of_eq (keeps.keepsExprs.exprs h.key)⟩

theorem preparedValue_caches : AboutCaches NoUses (PreparedValue h r) where
  implies _ now := now.1.noUses
  keeps _ _ keeps now := by
    rcases now with ⟨valued, parsedFile, envir, isEntry, serves⟩
    refine ⟨valued.keeps keeps.keepsValues, parsedFile, envir, ?_,
      serves.of_eq (keeps.keepsExprs.exprs h.key)⟩
    rw [keeps.keepsValues.entries]
    exact isEntry

/-- Steps that keep entries and records keep what is known of them. -/
theorem keepsValues_triple {P : Child → Prop} (implies : ∀ s, P s → NoUses s)
    (keeps : ∀ s s', KeepsValues s s' → P s → P s') {α : Type} {p : Code α}
    (every : Every always (fun _ => KeepsValues) p) : Triple ok NoUses P p fun _ => P :=
  (every.restrict fun _ _ _ _ => trivial).triple (fun _ s s' step now => keeps s s' step now)
    implies

theorem allowsEvaluation_keepsValues (source : CodeSource) :
    AllowsEvaluation source always (fun _ => KeepsValues) w me where
  work step := ((@allowsCode_keepsCaches w me).work step).keepsValues
  execFailure := (allowsCode_keepsCaches.execFailure).mono fun _ _ _ keeps => keeps.keepsValues
  evaluated _ _ := ⟨fun _ => rfl, rfl, rfl⟩
  failed _ _ _ _ := ⟨fun _ => rfl, rfl, rfl⟩

theorem modifyHandler_keepsValues (key : Bytes) {change : RApacheHandler → RApacheHandler}
    (parsedFile : ∀ entry, (change entry).parsedFile = entry.parsedFile)
    (envir : ∀ entry, (change entry).envir = entry.envir) :
    Every always (fun _ => KeepsValues) (modifyHandler key change) :=
  every_modify fun _ _ => ⟨fileEntry_same rfl parsedFile envir, rfl, rfl⟩

/-! ## The entry of the handler -/

theorem createHandler_values (key : Bytes) :
    Triple ok NoUses (Valued none) (createHandler key) fun _ => Entered key := by
  apply triple_modify valued_caches.implies
  intro ω s valued
  have before : Valued none (s.written ω) :=
    valued.keeps (written_keepsCaches ω s).keepsValues
  have later : Valued none { s.written ω with
      handlers := Function.update s.handlers key (some ((s.handlers key).getD {})) } :=
    before.entries (fileEntry_create rfl) rfl rfl
  exact ⟨later.noUses, later, by simp [Child.fileEntry]⟩

theorem setDirective_values (key : Bytes) (d : RApacheDirective) :
    Triple ok NoUses (Entered key)
      (modifyHandler key fun entry => { entry with directive := some d })
      fun _ => Entered key := by
  have sets : Every always (fun _ => KeepsValues)
      (modifyHandler key fun entry => { entry with directive := some d }) :=
    modifyHandler_keepsValues key (fun _ => rfl) fun _ => rfl
  apply keepsValues_triple (entered_caches key).implies ?_ sets
  intro s s' keeps now
  refine ⟨now.1.keeps keeps, ?_⟩
  rw [keeps.entries]
  exact now.2

theorem newHandlerEnv_values :
    Triple ok NoUses (Entered h.key) (newHandlerEnv h.key) fun _ => PreparedValue h r := by
  apply triple_modify (entered_caches h.key).implies
  rintro ω s ⟨valued, present⟩
  rcases Option.isSome_iff_exists.mp present with ⟨⟨parsedFile, envir⟩, isPresent⟩
  rw [Child.fileEntry, Option.map_eq_some_iff] at isPresent
  rcases isPresent with ⟨entry, isEntry, -⟩
  have before : Valued none (s.written ω) :=
    valued.keeps (written_keepsCaches ω s).keepsValues
  have later : Valued none { s.written ω with
      handlers := Function.update s.handlers h.key
        ((s.handlers h.key).map fun entry => { entry with envir := some s.nextEnv })
      nextEnv := s.nextEnv + 1 } :=
    before.entries
      (@fileEntry_change (s.written ω) _ h.key
        (fun entry => { entry with envir := some s.nextEnv }) rfl fun _ => rfl) rfl rfl
  refine ⟨later.noUses, later, entry.parsedFile, some s.nextEnv, ?_, .inr (.inl rfl)⟩
  simp [Child.fileEntry, Child.written, isEntry]

theorem setEnvir_values :
    Triple ok NoUses (FilledValue h r key) (prepareEnvironment.setEnvir h key)
      fun _ => PreparedValue h r := by
  apply triple_modify filledValue_caches.implies
  intro ω s now
  rcases filledValue_caches.keeps s (s.written ω) (written_keepsCaches ω s) now with
    ⟨valued, ⟨envir, points⟩, record, isRecord, serves⟩
  have later : Valued none { s.written ω with
      handlers := Function.update s.handlers h.key
        ((s.handlers h.key).map fun entry =>
          { entry with envir := ((s.parsedFiles key).getD {}).envir }) } :=
    valued.entries
      (@fileEntry_change (s.written ω) _ h.key
        (fun entry => { entry with envir := ((s.parsedFiles key).getD {}).envir }) rfl
        fun _ => rfl) rfl rfl
  refine ⟨later.noUses, later, some key, record.envir, ?_, ?_⟩
  · rw [Child.fileEntry, Option.map_eq_some_iff] at points
    rcases points with ⟨entry, isEntry, same⟩
    have isEntry' : s.handlers h.key = some entry := isEntry
    have isRecord' : s.parsedFiles key = some record := isRecord
    have pointsTo : entry.parsedFile = some key := congrArg Prod.fst same
    simp [Child.fileEntry, Child.written, isEntry', isRecord', pointsTo]
  · apply serves.of_eq
    simp only [Child.handlerExpr, Child.written, Function.update_self]
    exact @map_handlerExpr (s.handlers h.key)
      (fun entry => { entry with envir := ((s.parsedFiles key).getD {}).envir }) fun _ => rfl

/-! ## The record of the file -/

/-- The file had this time stamp when the record served its request, or was earlier. -/
def StattedValue (h : HandlerEntry) (r : RequestRec) (file : Bytes) (mtime : Int) (s : Child) :
    Prop :=
  Entered h.key s ∧ ((s.fileRecord h.key file).mtime < mtime ∨
    RecordServes r h s (s.fileRecord h.key file))

/-- The handler's record is earlier than the file, or serves the request. -/
def LocatedValue (h : HandlerEntry) (r : RequestRec) (key : Bytes) (mtime : Int) (s : Child) :
    Prop :=
  Valued none s ∧
    RecordIs h key (fun record => record.mtime < mtime ∨ RecordServes r h s record) s

theorem stattedValue_caches {mtime : Int} : AboutCaches NoUses (StattedValue h r file mtime) where
  implies _ now := now.1.1.noUses
  keeps s s' keeps now := by
    refine ⟨(entered_caches h.key).keeps s s' keeps now.1, ?_⟩
    rw [fileRecord_eq keeps]
    exact now.2.imp_right fun serves => serves.of_eq (keeps.keepsExprs.exprs h.key)

theorem locatedValue_caches {mtime : Int} : AboutCaches NoUses (LocatedValue h r key mtime) where
  implies _ now := now.1.noUses
  keeps _ _ keeps now :=
    ⟨now.1.keeps keeps.keepsValues, now.2.keeps keeps.keepsValues fun _ later =>
      later.imp_right fun serves => serves.of_eq (keeps.keepsExprs.exprs h.key)⟩

/-- The stamp of the file, in a step in which the files of the requests serve them. -/
theorem aprStat_values {requests : List RequestRec} (isRequest : r ∈ requests)
    (isHandler : HandlerOf r h) (runsCode : handlerType r.handler ≠ some .info)
    (isFile : h.directive.file = some file) :
    Triple (FilesServe requests) NoUses (Entered h.key) (aprStat file) fun finfo s =>
      match finfo with
      | some (mtime, _) => StattedValue h r file mtime s
      | none => Entered h.key s := by
  apply Triple.atomic (entered_caches h.key).implies
  intro ω s finfo s' now acted serve
  cases acted
  have later := (entered_caches h.key).keeps s (s.written ω) (written_keepsCaches ω s) now
  refine ⟨later.1.noUses, ?_⟩
  split
  next mtime _ found =>
    refine ⟨later, ?_⟩
    dsimp only at found
    split at found
    next version earlier isVersions =>
      split at found
      next =>
        simp only [Option.some.injEq, Prod.mk.injEq] at found
        rw [← found.1]
        exact serve r isRequest h file version earlier isHandler runsCode isFile isVersions
      next => cases found
    next => cases found
  next => exact later

theorem fileRecord_values {mtime : Int} :
    Triple ok NoUses (StattedValue h r file mtime) (fileRecord h file)
      fun key => LocatedValue h r key mtime := by
  apply stattedValue_caches.fileRecord
  · exact fun key s located => located.1.noUses
  · rintro s entry key ⟨⟨valued, -⟩, serves⟩ isEntry isFound
    have points : s.fileEntry h.key = some (some key, entry.envir) := by
      simp [Child.fileEntry, isEntry, isFound]
    rcases Option.isSome_iff_exists.mp (valued.pointers h.key key entry.envir points) with
      ⟨record, isRecord⟩
    have same : s.fileRecord h.key file = record := by
      simp [Child.fileRecord, isEntry, isFound, isRecord]
    rw [same] at serves
    exact ⟨valued, ⟨entry.envir, points⟩, record, isRecord, serves⟩
  · rintro s entry ⟨⟨valued, -⟩, serves⟩ isEntry noPointer
    have same : s.fileRecord h.key file = (s.parsedFiles file).getD {} := by
      simp [Child.fileRecord, isEntry, noPointer]
    rw [same] at serves
    refine ⟨⟨valued.noUses, valued.pointers.point rfl rfl rfl, ?_⟩,
      ⟨entry.envir, by simp [Child.fileEntry]⟩, (s.parsedFiles file).getD {},
      Function.update_self .., ?_⟩
    · intro other record _
      refine forall_update_getD (P := fun _ record => 0 < record.mtime → record.envir.isSome)
        ?_ ?_ other record
      · exact fun positive => (Int.lt_irrefl 0 positive).elim
      · exact fun other record => valued.parsed other record (by simp)
    · refine serves.imp_right fun serves => serves.of_eq ?_
      simp [Child.handlerExpr, isEntry]

/-- Changing the record of the handler. -/
theorem modifyParsedFile_values {pending : Option Bytes} {holds holds' : RApacheParsedFile → Prop}
    {change : RApacheParsedFile → RApacheParsedFile}
    (changes : ∀ record, holds record → holds' (change record))
    (parsed : some key ≠ pending → ∀ record, (0 < record.mtime → record.envir.isSome) →
      0 < (change record).mtime → (change record).envir.isSome) :
    Triple ok NoUses (fun s => Valued none s ∧ RecordIs h key holds s)
      (modifyParsedFile key change) fun _ s => Valued pending s ∧ RecordIs h key holds' s := by
  apply triple_modify fun _ now => now.1.noUses
  rintro ω s ⟨before, wasThere⟩
  have keeps := (written_keepsCaches ω s).keepsValues
  have valued := before.keeps keeps
  have later : Valued pending
      { s.written ω with
        parsedFiles := Function.update s.parsedFiles key ((s.parsedFiles key).map change) } :=
    valued.modify rfl rfl rfl (fun _ _ _ => Option.some_ne_none _) fun isMine record isRecord =>
      parsed isMine record (valued.parsed key record (Option.some_ne_none _) isRecord)
  exact ⟨later.noUses, later, (wasThere.keeps keeps fun _ is => is).modify rfl rfl changes⟩

/-- `PrepareFileExprs`. -/
theorem prepareFileExprs_values {requests : List RequestRec} (isRequest : r ∈ requests)
    (isHandler : HandlerOf r h) (runsCode : handlerType r.handler ≠ some .info)
    (isFile : h.directive.file = some file) :
    Triple (FilesServe requests) NoUses (Entered h.key) (prepareFileExprs w me h file)
      fun ready s =>
        match ready with
        | none => Valued none s
        | some (key, fileParsed, _) => FoundValue h r key fileParsed s := by
  have allows : AllowsCode always (fun _ => KeepsCaches) w me := allowsCode_keepsCaches
  refine (aprStat_values isRequest isHandler runsCode isFile).bind fun finfo => ?_
  cases finfo with
  | none =>
      exact ((entered_caches h.key).triple (perform_every allows.toAllowsWork rfl)).bind fun _ =>
        .done (entered_caches h.key).implies fun _ now => now.1
  | some finfo =>
      rcases finfo with ⟨mtime, versions⟩
      refine fileRecord_values.bind fun key => ?_
      have compared : Triple (FilesServe requests) NoUses (LocatedValue h r key mtime)
          (read fun _ s => decide (((s.parsedFiles key).getD {}).mtime < mtime))
          (fun older s => Valued none s ∧
            RecordIs h key (fun record => older = false → RecordServes r h s record) s) := by
        apply triple_atomic locatedValue_caches.implies
        intro ω s older s' now acted
        cases acted
        rcases locatedValue_caches.keeps s (s.written ω) (written_keepsCaches ω s) now with
          ⟨valued, points, record, isRecord, serves⟩
        refine ⟨valued.noUses, valued, points, record, isRecord, ?_⟩
        intro notOlder
        have notLater := of_decide_eq_false notOlder
        rw [isRecord, Option.getD_some] at notLater
        exact serves.resolve_left notLater
      refine compared.bind fun older => ?_
      cases older with
      | false =>
          refine .done (fun _ now => now.1.noUses) fun s now => ⟨now.1, now.2.1, ?_⟩
          rcases now.2.2 with ⟨record, isRecord, serves⟩
          exact ⟨record, isRecord, serves rfl⟩
      | true =>
          -- from here on only the record's existence matters
          have located : AboutCaches NoUses fun s =>
              Valued none s ∧ RecordIs h key (fun _ => True) s := {
            implies := fun _ now => now.1.noUses
            keeps := fun _ _ keeps now => ⟨now.1.keeps keeps.keepsValues,
              now.2.keeps keeps.keepsValues fun _ _ => trivial⟩ }
          refine Triple.bind ((parseFile_triple located file).pre fun s now =>
            ⟨now.1, now.2.1, now.2.2.imp fun _ is => ⟨is.1, trivial⟩⟩) fun parsed => ?_
          apply Triple.given
          intro isValue
          rcases parsed with ⟨exprs, evalError⟩
          have setExprs : Triple (FilesServe requests) NoUses
              (fun s => Valued none s ∧ RecordIs h key (fun _ => True) s)
              (modifyParsedFile key fun record => { record with exprs })
              (fun _ s => Valued none s ∧ RecordIs h key (fun record => record.exprs = exprs) s) :=
            modifyParsedFile_values (fun _ _ => rfl) fun _ _ parsed => parsed
          refine setExprs.bind fun _ => ?_
          cases evalError with
          | true => exact .done (fun _ now => now.1.noUses) fun _ now => now.1
          | false =>
              have setTime : Triple (FilesServe requests) NoUses
                  (fun s => Valued none s ∧ RecordIs h key (fun record => record.exprs = exprs) s)
                  (modifyParsedFile key fun record => { record with mtime })
                  (fun _ => FoundValue h r key true) := by
                refine modifyParsedFile_values ?_ fun isMine => (isMine rfl).elim
                intro record isExprs
                rw [isExprs]
                exact isValue.succeeded rfl
              exact setTime.bind fun _ => .done (fun _ now => now.1.noUses) fun _ now => now

/-! ## Evaluations -/

/-- Values that are there are no `NULL` pointers. -/
theorem noNull_of_isSome {α β : Type} {first : Option α} {second : Option β}
    (isFirst : first.isSome) (isSecond : second.isSome) : ¬ (first = none ∨ second = none) := by
  rintro (none | none)
  · rw [none] at isFirst
    cases isFirst
  · rw [none] at isSecond
    cases isSecond

/-- A record with expressions, and an environment for them. -/
def EvaluatingValue (h : HandlerEntry) (key : Bytes) (s : Child) : Prop :=
  Valued none s ∧ RecordIs h key (fun record => record.exprs.isSome ∧ record.envir.isSome) s

theorem EvaluatingValue.keeps {s s' : Child} (now : EvaluatingValue h key s)
    (keeps : KeepsValues s s') : EvaluatingValue h key s' :=
  ⟨now.1.keeps keeps, now.2.keeps keeps fun _ is => is⟩

/-- The expressions that a request evaluates of its record. -/
theorem FoundValue.evaluating {fileParsed : Bool} {s : Child}
    (found : FoundValue h r key fileParsed s)
    (evaluates : fileParsed = true ∨ h.directive.function = none ∧ h.directive.evalcode = none) :
    Valued (some key) s ∧ RecordIs h key (fun record => record.exprs.isSome) s := by
  cases fileParsed with
  | true => exact found
  | false =>
      have only := evaluates.resolve_left Bool.false_ne_true
      rcases found with ⟨valued, points, record, isRecord, serves⟩
      rw [RecordServes, if_pos only] at serves
      exact ⟨⟨valued.noUses, valued.pointers, fun other record _ isOther =>
        valued.parsed other record (Option.some_ne_none _) isOther⟩, points, record, isRecord,
        serves⟩

/-- The expressions of a file, in its new environment. -/
theorem evalFile_values {fileParsed : Bool} {versions : Nat}
    (evaluates : fileParsed = true ∨ h.directive.function = none ∧ h.directive.evalcode = none) :
    Triple ok NoUses (FoundValue h r key fileParsed) (evalFile w me r file key versions)
      fun _ => FilledValue h r key := by
  have implies (s : Child) (now : EvaluatingValue h key s) : NoUses s := now.1.noUses
  have made : Triple ok NoUses (FoundValue h r key fileParsed) (newFileEnv key)
      (fun _ => EvaluatingValue h key) := by
    apply triple_modify fun s found => (found.evaluating evaluates).1.noUses
    intro ω s found
    rcases found.evaluating evaluates with ⟨before, wasThere⟩
    have keeps := (written_keepsCaches ω s).keepsValues
    have later : Valued none
        { s.written ω with
          parsedFiles := Function.update s.parsedFiles key
            ((s.parsedFiles key).map fun parsedFile =>
              { parsedFile with envir := some s.nextEnv })
          nextEnv := s.nextEnv + 1 } :=
      (before.keeps keeps).modify rfl rfl rfl
        (fun other isOther _ same => isOther (Option.some.inj same)) fun _ _ _ _ => rfl
    exact ⟨later.noUses, later, (wasThere.keeps keeps fun _ is => is).modify rfl rfl
      fun _ isSome => ⟨isSome, rfl⟩⟩
  refine made.bind fun _ => ?_
  have looked : Triple ok NoUses (EvaluatingValue h key)
      (read fun _ s => (s.parsedFiles key).getD {})
      (fun record s => (record.exprs.isSome ∧ record.envir.isSome) ∧ EvaluatingValue h key s) := by
    apply triple_atomic implies
    intro ω s record s' now acted
    cases acted
    have later := now.keeps (written_keepsCaches ω s).keepsValues
    rcases later.2.2 with ⟨record, isRecord, values⟩
    refine ⟨later.1.noUses, ?_, later⟩
    simp only [isRecord, Option.getD_some]
    exact values
  refine looked.bind fun record => ?_
  apply Triple.given
  rintro ⟨isExprs, isEnvir⟩
  have evaluated := @keepsValues_triple ok _ implies (fun _ _ keeps now => now.keeps keeps) _ _
    (evalExprs_every (@allowsEvaluation_keepsValues w me .file) record.exprs record.envir true
      fun null => (noNull_of_isSome isExprs isEnvir null).elim)
  refine evaluated.bind fun value => ?_
  have filled (s : Child) (now : EvaluatingValue h key s) : FilledValue h r key s :=
    ⟨now.1, now.2.1, now.2.2.imp fun _ is => ⟨is.1, .inr (.inl is.2.2)⟩⟩
  rcases value with ⟨ret, evalError⟩
  cases evalError with
  | true => exact .done implies filled
  | false =>
      refine Triple.bind ?_ fun _ => .done filledValue_caches.implies fun _ now => now
      have logged : Triple ok NoUses (EvaluatingValue h key)
          (modify fun s => { s with
            fileEvaluations :=
              { r, file, exprs := record.exprs
                since := (s.versions file).take ((s.versions file).length - versions) } ::
              s.fileEvaluations }) (fun _ => EvaluatingValue h key) :=
        keepsValues_triple implies (fun _ _ keeps now => now.keeps keeps)
          (every_modify fun _ _ => ⟨fun _ => rfl, rfl, rfl⟩)
      exact logged.post fun _ => filled

/-- What keeps the entry's environment, and the other values. -/
def HasEnvir (h : HandlerEntry) (envir : EnvId) (s : Child) : Prop :=
  Valued none s ∧ ∃ parsedFile, s.fileEntry h.key = some (parsedFile, some envir)

theorem HasEnvir.keeps {envir : EnvId} {s s' : Child} (has : HasEnvir h envir s)
    (keeps : KeepsValues s s') : HasEnvir h envir s' := by
  refine ⟨has.1.keeps keeps, ?_⟩
  rw [keeps.entries]
  exact has.2

theorem hasEnvir_present {envir : EnvId} {s : Child} (has : HasEnvir h envir s) :
    (s.handlers h.key).isSome := by
  rcases has.2 with ⟨parsedFile, isEntry⟩
  rw [Child.fileEntry, Option.map_eq_some_iff] at isEntry
  rcases isEntry with ⟨entry, isEntry, -⟩
  rw [isEntry]
  rfl

/-- A successful `PrepareHandlerExpr` leaves an expression. -/
theorem prepareHandlerExpr_holds {expr : Option RExprs} {evaluations : List HandlerEvaluation}
    {type : RApacheHandlerType} (env : Option EnvId) :
    Triple always (fun _ => True) (Holding h.key expr evaluations)
      (prepareHandlerExpr w me h r type env)
      fun success s => success = true → (s.handlerExpr h.key).isSome := by
  have isSome {expr : Option RExprs} {success : Bool} {s : Child}
      (prepared : Prepared w h expr evaluations success s) :
      success = true → (s.handlerExpr h.key).isSome := by
    intro succeeded
    rcases prepared.2 succeeded with ⟨found, isFound, -⟩
    rw [isFound]
    rfl
  by_cases isScript : type = .script
  · subst isScript
    exact (prepareHandlerExpr_script env).post fun _ _ left => isSome left.2
  · exact (prepareHandlerExpr_other isScript env).post fun _ _ left => isSome left

/-- `PrepareHandlerExpr` with an environment. -/
theorem prepareHandlerExpr_environment {type : RApacheHandlerType} (isHandler : HandlerOf r h)
    (isType : handlerType r.handler = some type) (named : ScriptIsNamed r)
    (evaluates : h.directive.function.isSome ∨ h.directive.evalcode.isSome) (envir : EnvId) :
    Triple ok NoUses (HasEnvir h envir) (prepareHandlerExpr w me h r type (some envir))
      fun ready s => if ready then BuiltValue h s else Valued none s := by
  have noNull (isScript : type = .script) :
      ¬ (h.directive.function = none ∨ r.filename = none ∨ some envir = none) := by
    rw [isScript] at isType
    rcases named isType h isHandler evaluates with ⟨isFunction, isFilename⟩
    have present : ¬ (h.directive.function = none ∨ r.filename = none) :=
      noNull_of_isSome isFunction isFilename
    rintro (none | none | none)
    · exact present (.inl none)
    · exact present (.inr none)
    · cases none
  have every : Every always (fun _ => KeepsValues)
      (prepareHandlerExpr w me h r type (some envir)) :=
    prepareHandlerExpr_every (allowsEvaluation_keepsValues .handler).toAllowsCode h r type _
      (fun _ => modifyHandler_keepsValues h.key (fun _ => rfl) fun _ => rfl)
      fun isScript null => (noNull isScript null).elim
  intro s has
  have holding : Holding h.key (s.handlerExpr h.key) s.handlerEvaluations s :=
    ⟨hasEnvir_present has, rfl, rfl⟩
  have kept := ((prepareHandlerExpr_holds (some envir) s holding).keep every
    (fun _ _ _ now step => HasEnvir.keeps now step) has)
  refine ((kept.weaken fun _ now => now.2.1.noUses).restrict fun _ _ _ _ => trivial).mono ?_
  rintro ready s' ⟨isSome, valued, parsedFile, isEntry⟩
  cases ready with
  | true => exact ⟨valued, isSome rfl, parsedFile, envir, isEntry⟩
  | false => exact valued

/-- `PrepareHandlerExpr` of a function that is looked up without an environment. -/
theorem prepareHandlerExpr_lookup {type : RApacheHandlerType}
    (isType : handlerType r.handler = some type) :
    Triple ok NoUses (fun s => Valued none s ∧ LooksUp r h s)
      (prepareHandlerExpr w me h r type none)
      fun ready s => if ready then BuiltValue h s else Valued none s := by
  have allows : AllowsCode always (fun _ => KeepsCaches) w me := allowsCode_keepsCaches
  rintro s ⟨valued, looks⟩
  rcases Option.isSome_iff_exists.mp looks.function with ⟨function, isFunction⟩
  rcases Option.isSome_iff_exists.mp looks.file with ⟨file, isFile⟩
  have isHandler : type = .handler := Option.some.inj (isType.symm.trans looks.isHandler)
  suffices fails : Triple ok NoUses (fun s => Valued none s ∧ s.handlerExpr h.key = none)
      (prepareHandlerExpr w me h r type none)
      (fun ready s => if ready then BuiltValue h s else Valued none s) from
    fails s ⟨valued, looks.noExpr⟩
  simp only [isHandler, prepareHandlerExpr, reduceCtorEq, if_false, handlerText, isFunction,
    looks.noPackage, isFile, myfindFun]
  have looked : Triple ok NoUses (fun s => Valued none s ∧ s.handlerExpr h.key = none)
      (read fun _ s => (((s.handlers h.key).getD {}).expr).isSome)
      (fun present s => present = false ∧ Valued none s) := by
    apply triple_atomic fun _ now => now.1.noUses
    rintro ω s present s' ⟨valued, noExpr⟩ acted
    cases acted
    have later := valued.keeps (written_keepsCaches ω s).keepsValues
    refine ⟨later.noUses, ?_, later⟩
    have unset : ((s.handlers h.key).getD {}).expr = none := (getD_expr s h.key).trans noExpr
    simp [Child.written, unset]
  refine looked.bind fun present => ?_
  apply Triple.given
  rintro rfl
  exact (valued_caches.triple (perform_every allows.toAllowsWork rfl)).bind fun _ =>
    .done valued_caches.implies fun _ now => now

/-- `PrepareHandlerExpr`. -/
theorem prepareHandlerExpr_values {type : RApacheHandlerType} (isHandler : HandlerOf r h)
    (isType : handlerType r.handler = some type) (named : ScriptIsNamed r)
    (evaluates : h.directive.function.isSome ∨ h.directive.evalcode.isSome)
    (env : Option EnvId) :
    Triple ok NoUses (fun s => PreparedValue h r s ∧ ((s.handlers h.key).getD {}).envir = env)
      (prepareHandlerExpr w me h r type env)
      fun ready s => if ready then BuiltValue h s else Valued none s := by
  have sameEnvir {s : Child} {parsedFile : Option Bytes} {envir : Option EnvId}
      (isEntry : s.fileEntry h.key = some (parsedFile, envir))
      (isEnv : ((s.handlers h.key).getD {}).envir = env) : envir = env := by
    rw [Child.fileEntry, Option.map_eq_some_iff] at isEntry
    rcases isEntry with ⟨entry, isEntry, same⟩
    rw [isEntry, Option.getD_some] at isEnv
    exact (congrArg Prod.snd same).symm.trans isEnv
  cases env with
  | some envir =>
      refine (prepareHandlerExpr_environment isHandler isType named evaluates envir).pre ?_
      rintro s ⟨⟨valued, parsedFile, envir', isEntry, -⟩, isEnv⟩
      refine ⟨valued, parsedFile, ?_⟩
      rw [isEntry, sameEnvir isEntry isEnv]
  | none =>
      refine (prepareHandlerExpr_lookup isType).pre ?_
      rintro s ⟨⟨valued, parsedFile, envir, isEntry, only | isSome | looks⟩, isEnv⟩
      · rcases evaluates with isFunction | isEvalcode
        · rw [only.1] at isFunction
          cases isFunction
        · rw [only.2] at isEvalcode
          cases isEvalcode
      · rw [sameEnvir isEntry isEnv] at isSome
        cases isSome
      · exact ⟨valued, looks⟩

/-- The expression of the handler, in its environment. -/
theorem evalHandler_values (evalError : Bool) :
    Triple ok NoUses (BuiltValue h) (evalHandler w me h r evalError) fun _ => Valued none := by
  unfold evalHandler
  refine Triple.bind (?_ : Triple ok NoUses (BuiltValue h) _ fun (entry : RApacheHandler) s =>
    (entry.expr.isSome ∧ entry.envir.isSome) ∧ Valued none s) fun entry => ?_
  · apply triple_atomic fun _ now => now.1.noUses
    rintro ω s entry s' ⟨valued, isSome, parsedFile, envir, isEntry⟩ acted
    cases acted
    have written : Valued none (s.written ω) :=
      valued.keeps (written_keepsCaches ω s).keepsValues
    rw [Child.fileEntry, Option.map_eq_some_iff] at isEntry
    rcases isEntry with ⟨entry, isEntry, same⟩
    rw [Child.handlerExpr, isEntry] at isSome
    have isEnvir : entry.envir = some envir := congrArg Prod.snd same
    refine ⟨written.noUses, ?_, written.noUses, written.pointers, written.parsed⟩
    simp only [Child.written, isEntry, Option.getD_some, isEnvir]
    exact ⟨isSome, rfl⟩
  · apply Triple.given
    rintro ⟨isExpr, isEnvir⟩
    exact keepsValues_triple valued_caches.implies (fun _ _ keeps valued => valued.keeps keeps)
      (evalExprs_every (allowsEvaluation_keepsValues .handler) entry.expr entry.envir evalError
        fun null => (noNull_of_isSome isExpr isEnvir null).elim)

/-- The rules for `NULL` pointers. -/
theorem valueRules {requests : List RequestRec} (named : ∀ r ∈ requests, ScriptIsNamed r) :
    CacheRules (FilesServe requests) (fun r => r ∈ requests) w NoUses (Valued none) Entered
      (fun h r key fileParsed _ => FoundValue h r key fileParsed) FilledValue PreparedValue
      (fun h _ => BuiltValue h) where
  idleCaches := valued_caches
  enteredCaches := entered_caches
  filledCaches _ _ _ := filledValue_caches
  preparedCaches _ _ := preparedValue_caches
  enteredIdle _ _ now := now.1
  preparedIdle _ _ _ now := now.1
  createHandler := createHandler_values
  setDirective := setDirective_values
  newHandlerEnv _ _ _ _ _ := newHandlerEnv_values
  prepareFile _ _ _ _ isRequest isHandler runsCode isFile :=
    prepareFileExprs_values isRequest isHandler runsCode isFile
  evalFile _ _ _ _ _ _ _ _ _ _ evaluates := by
    apply (evalFile_values evaluates).post
    intro value s filled
    split
    next => exact filled.1
    next => exact filled
  reuse _ _ _ _ s found := ⟨found.1, found.2.1, found.2.2.imp fun record is =>
    ⟨is.1, is.2.envir (found.1.parsed _ record (Option.some_ne_none _) is.1)⟩⟩
  setEnvir _ _ _ _ _ _ _ := setEnvir_values
  prepareHandlerExpr _ r _ _ env isRequest isHandler isType evaluates :=
    prepareHandlerExpr_values isHandler isType (named r isRequest) evaluates env
  evalHandler _ _ _ evalError _ _ := evalHandler_values evalError

end Code

/-! ## Children -/

/-- No child uses a `NULL` pointer while it serves r-script requests with a function and a file,
and whenever the file of a request is not later than its record, this has what the request
needs. -/
theorem no_null_pointer_is_used (w : World) (requests : List RequestRec) (s : Child)
    (named : ∀ r ∈ requests, ScriptIsNamed r)
    (serves : ServesIf (FilesServe requests) w requests s) : s.nullUses = [] := by
  have begins (cwd : Bytes) (mutex : Option (Option Nat)) (files : Files) :
      Valued none (Child.fresh cwd mutex files) := by
    refine ⟨rfl, ?_, ?_⟩
    · intro _ _ _ isEntry
      cases isEntry
    · intro _ _ _ isRecord
      cases isRecord
  exact (Code.valueRules named).serves (fun _ isRequest => isRequest) begins serves

/-- A test that the file of a request is later than its record, or that this will do. -/
def fileServes (s : Child) (r : RequestRec) : Bool :=
  r.perDirConfig.all fun d => d.handlerKey.all fun key => d.file.all fun file =>
    (s.versions file).head?.all fun version =>
      (s.fileRecord key file).mtime < version.mtime ||
        if d.function = none ∧ d.evalcode = none then (s.fileRecord key file).exprs.isSome
        else 0 < (s.fileRecord key file).mtime

theorem fileServes_of_test {r : RequestRec} {s : Child} (passed : fileServes s r = true) :
    FileServes r s := by
  intro h file version older isHandler _ isFile isVersions
  simp only [fileServes, isHandler.directive, isHandler.key, isFile, isVersions, Option.all_some,
    List.head?_cons, Bool.or_eq_true, decide_eq_true_eq] at passed
  refine passed.imp_right fun serves => ?_
  unfold RecordServes
  split
  next only =>
    rw [if_pos only] at serves
    exact serves
  next more =>
    rw [if_neg more, decide_eq_true_eq] at serves
    exact .inl serves

/-- An r-script request for the directive `RFileHandler /f::main`. -/
def scriptRequest : RequestRec := { fileRequest with handler := bytes "r-script" }

/-- Some steps of a child without threads that serves two requests for the function of a file,
as far as this serves them. -/
def callsTwice (count : Nat) : Option (Code Unit × Child) :=
  Program.runIf
    (fun ω s _ => [fileRequest, scriptRequest].all (fileServes (s.written ω)) = true)
    (fun _ => {}) count (Code.serve plainWorld 0 0 [fileRequest, scriptRequest])
    (Child.fresh (bytes "/") none fun file =>
      if file = bytes "/f" then [{ mtime := 1, content := bytes "x" }] else [])

theorem callsTwice_serves {count : Nat} (ran : (callsTwice count).isSome) :
    ServesIf (FilesServe [fileRequest, scriptRequest]) plainWorld [fileRequest, scriptRequest]
      ((callsTwice count).get ran).2 := by
  refine ⟨_, _, _, _, (Program.runIf_reaches (Option.some_get ran).symm).mono ?_⟩
  intro ω s _ passed r isRequest
  exact fileServes_of_test (List.all_eq_true.mp passed r isRequest)

/-- An r-script request behind an r-handler request for the function of one file. -/
theorem function_is_called_twice :
    ∃ s, ServesIf (FilesServe [fileRequest, scriptRequest]) plainWorld
        [fileRequest, scriptRequest] s ∧ s.handlerEvaluations.length = 2 ∧ s.nullUses = [] := by
  have ran : (callsTwice 60).isSome := by decide +kernel
  have areCalled : ((callsTwice 60).get ran).2.handlerEvaluations.length = 2 := by
    decide +kernel +revert
  refine ⟨_, callsTwice_serves ran, areCalled, ?_⟩
  apply no_null_pointer_is_used plainWorld [fileRequest, scriptRequest] _ ?_ (callsTwice_serves ran)
  intro r isRequest _ h isHandler _
  rcases List.mem_pair.mp isRequest with rfl | rfl
  · rw [← Option.some.inj isHandler.directive]
    exact ⟨rfl, rfl⟩
  · rw [← Option.some.inj isHandler.directive]
    exact ⟨rfl, rfl⟩

/-- The line `REval f()` of a section. -/
def evalLine : HandlerDirective where
  command := .rEval
  cmd := { directive := bytes "REval", lineNum := bytes "1", filename := bytes "httpd.conf"
           path := some (bytes "/app") }
  argument := bytes "f()"
  read := { isFile := fun _ => false }
  configures := rfl

/-- An r-script request in the section. -/
def evalScriptRequest : RequestRec where
  address := 0
  handler := bytes "r-script"
  perDirConfig := some evalLine.alone
  filename := some (bytes "/a")

/-- The steps of a child without threads up to the first `NULL` pointer. -/
def callsNothing : Option (Code Unit × Child) :=
  Program.runWith (fun _ => {}) 11 (Code.serve plainWorld 0 0 [evalScriptRequest])
    (Child.fresh (bytes "/") none fun _ => [])

/-- The line is accepted, and the length of the function is taken that it does not name. -/
theorem evalcode_names_no_function :
    ¬ ∀ (ds : List HandlerDirective) (config : ConfigState) (record : RApacheDirective)
        (r : RequestRec) (w : World) (s : Child),
        HandlerDirective.runAll ds {} config = some record → r.perDirConfig = some record →
        r.filename.isSome → Serves w [r] s → s.nullUses = [] := by
  intro never
  have ran : callsNothing.isSome := by decide +kernel
  have uses : (callsNothing.get ran).2.nullUses = [.function] := by decide +kernel +revert
  have serves : Serves plainWorld [evalScriptRequest] (callsNothing.get ran).2 :=
    ⟨_, _, _, _, Program.runWith_reaches (Option.some_get ran).symm⟩
  have none := never [evalLine] { configPass := 1, onStartup := none } evalLine.alone
    evalScriptRequest plainWorld _ (by decide +kernel) rfl rfl serves
  rw [uses] at none
  cases none

end RApache
