import RApache.CacheRuns

/-!
# The versions of a file

A file is parsed again when its time stamp is later than that of the record.  What is evaluated
for a request is then the parse of a version that the file has had since the request's `apr_stat`,
as long as each change of its content comes with a later stamp.
-/

namespace RApache

open Stepwise
open Stepwise.Program (Every Reaches Triple)

/-- What was evaluated is the parse of a version that the file has had since `apr_stat`. -/
def EvaluatesCurrent (w : World) (evaluation : FileEvaluation) : Prop :=
  ∃ version ∈ evaluation.since, ∃ exprs, w.parse version.content = some exprs ∧
    evaluation.exprs = some (.vector exprs)

/-- A name that means the same file in every working directory. -/
def AbsoluteName (file : Bytes) : Prop := file.head? = some (byte '/')

/-- Each version of another content than an earlier one has a later time stamp. -/
def StampsAdvance (versions : List FileVersion) : Prop :=
  versions.Pairwise fun newer older => newer.content ≠ older.content → older.mtime < newer.mtime

/-- The directives with one key name one file, if they name any. -/
def KeysNameFiles (requests : RequestRec → Prop) : Prop :=
  ∀ r r' file file', requests r → requests r' → r.handlerKey = r'.handlerKey →
    r.file = some file → r'.file = some file' → file = file'

/-! ## Versions -/

/-- The parse of a version other than the first `count`. -/
def ParsedSince (w : World) (versions : List FileVersion) (count : Nat) (exprs : List RExpr) : Prop :=
  ∃ version older, (version :: older) <:+ versions ∧ count ≤ older.length ∧
    w.parse version.content = some exprs

/-- The parse of a version that was read when or after the file had this stamp. -/
def ParsedAt (w : World) (versions : List FileVersion) (mtime : Int) (exprs : List RExpr) : Prop :=
  ∃ parsed older stamped oldest, (parsed :: older) <:+ versions ∧
    (stamped :: oldest) <:+ (parsed :: older) ∧ stamped.mtime = mtime ∧
    w.parse parsed.content = some exprs

section Versions

variable {w : World} {versions versions' : List FileVersion} {exprs : List RExpr}

theorem ParsedSince.mono {count : Nat} (parsed : ParsedSince w versions count exprs)
    (more : versions <:+ versions') : ParsedSince w versions' count exprs := by
  rcases parsed with ⟨version, older, isSuffix, later⟩
  exact ⟨version, older, isSuffix.trans more, later⟩

theorem ParsedAt.mono {mtime : Int} (parsed : ParsedAt w versions mtime exprs)
    (more : versions <:+ versions') : ParsedAt w versions' mtime exprs := by
  rcases parsed with ⟨parsed, older, stamped, oldest, isSuffix, rest⟩
  exact ⟨parsed, older, stamped, oldest, isSuffix.trans more, rest⟩

theorem StampsAdvance.suffix (advance : StampsAdvance versions') (more : versions <:+ versions') :
    StampsAdvance versions :=
  advance.sublist more.sublist

theorem ParsedSince.mem_take {count : Nat} (parsed : ParsedSince w versions count exprs) :
    ∃ version ∈ versions.take (versions.length - count), w.parse version.content = some exprs := by
  rcases parsed with ⟨version, older, ⟨newer, same⟩, later, isParse⟩
  have isPrefix : newer ++ [version] <+: versions := ⟨older, by simpa using same⟩
  have length : versions.length = newer.length + (older.length + 1) := by simp [← same]
  have isTaken : newer ++ [version] <+: versions.take (versions.length - count) := by
    apply List.prefix_take_iff.mpr
    refine ⟨isPrefix, ?_⟩
    rw [List.length_append, List.length_singleton]
    omega
  exact ⟨version, isTaken.subset (by simp), isParse⟩

/-- If the stamp of the version found now is not later, its content is the one that was
parsed. -/
theorem ParsedAt.unchanged {mtime : Int} {current : FileVersion} {earlier : List FileVersion}
    (parsed : ParsedAt w versions mtime exprs) (advance : StampsAdvance versions)
    (isCurrent : (current :: earlier) <:+ versions) (notLater : current.mtime ≤ mtime) :
    ParsedSince w versions earlier.length exprs := by
  rcases parsed with ⟨parsed, older, stamped, oldest, isParsed, isStamped, isStamp, isParse⟩
  rcases List.suffix_or_suffix_of_suffix isParsed isCurrent with before | since
  · refine ⟨current, earlier, isCurrent, Nat.le_refl _, ?_⟩
    rw [← isParse]
    apply congrArg w.parse
    rcases List.suffix_cons_iff.mp before with same | before
    · exact congrArg FileVersion.content (List.cons.inj same).1.symm
    · by_contra changed
      have currentStamps := List.pairwise_cons.mp (advance.suffix isCurrent)
      have parsedStamps := List.pairwise_cons.mp (advance.suffix isParsed)
      have afterParsed := currentStamps.1 parsed (before.subset List.mem_cons_self) changed
      rcases List.suffix_cons_iff.mp isStamped with same | isOlder
      · have sameVersion : stamped = parsed := (List.cons.inj same).1
        rw [sameVersion] at isStamp
        omega
      · have isOld : stamped ∈ older := isOlder.subset List.mem_cons_self
        have afterStamped := currentStamps.1 stamped
          (before.subset (List.mem_cons_of_mem _ isOld))
        by_cases restored : current.content = stamped.content
        · have afterOlder := parsedStamps.1 stamped isOld
            (fun same => changed (restored.trans same.symm))
          omega
        · have later := afterStamped restored
          omega
  · exact ⟨parsed, older, isParsed, Nat.le_of_succ_le_succ since.length_le, isParse⟩

end Versions

/-! ## Records -/

/-- The expressions of a record, if the call of `parse` was the one that was meant. -/
def RecordParsed (w : World) (s : Child) (file : Bytes) (record : RApacheParsedFile) : Prop :=
  PlainName file → AbsoluteName file → record.exprs = none ∨
    ∃ exprs, record.exprs = some (.vector exprs) ∧ ParsedAt w (s.files file) record.mtime exprs

/-- Expressions that a request may evaluate, which has found this number of earlier versions. -/
def MayEvaluate (w : World) (s : Child) (file : Bytes) (count : Nat) (exprs : Option RExprs) :
    Prop :=
  PlainName file → AbsoluteName file → exprs = none ∨
    ∃ elements, exprs = some (.vector elements) ∧
      (StampsAdvance (s.files file) → ParsedSince w (s.files file) count elements)

/-- The evaluations of files with proper names and advancing stamps have been right. -/
def EvaluationsCurrent (w : World) (s : Child) : Prop :=
  ∀ evaluation ∈ s.fileEvaluations, PlainName evaluation.file → AbsoluteName evaluation.file →
    StampsAdvance (s.files evaluation.file) → EvaluatesCurrent w evaluation

/-- Every entry points to the record of a file that a request with its key names. -/
def PointersNamed (requests : RequestRec → Prop) (s : Child) : Prop :=
  ∀ key file envir, s.fileEntry key = some (some file, envir) →
    ∃ r, requests r ∧ r.handlerKey = some key ∧ r.file = some file

/-- What is known of the records, but for one of them. -/
structure OthersParsed (requests : RequestRec → Prop) (w : World) (file : Bytes) (s : Child) :
    Prop where
  evaluations : EvaluationsCurrent w s
  pointers : PointersNamed requests s
  others : ∀ other record, other ≠ file → s.parsedFiles other = some record →
    RecordParsed w s other record

/-- What is known of the records. -/
structure AllParsed (requests : RequestRec → Prop) (w : World) (s : Child) : Prop where
  evaluations : EvaluationsCurrent w s
  pointers : PointersNamed requests s
  records : ∀ file record, s.parsedFiles file = some record → RecordParsed w s file record

/-- The file had this time stamp, and this number of earlier versions. -/
def Statted (file : Bytes) (mtime : Int) (count : Nat) (s : Child) : Prop :=
  AbsoluteName file → ∃ version earlier, (version :: earlier) <:+ s.files file ∧
    version.mtime = mtime ∧ earlier.length = count

/-- What the handler has from `PrepareFileExprs`. -/
def ReadyFile (requests : RequestRec → Prop) (w : World) (file : Bytes) (count : Nat)
    (s : Child) : Prop :=
  AllParsed requests w s ∧ ∀ record, s.parsedFiles file = some record →
    MayEvaluate w s file count record.exprs

/-- No version of a file is lost, and neither expressions nor stamps of records are changed. -/
structure KeepsVersions (s s' : Child) : Prop where
  pointers : ∀ key file envir, s'.fileEntry key = some (some file, envir) →
    ∃ before, s.fileEntry key = some (some file, before)
  records : ∀ file record, s'.parsedFiles file = some record →
    ∃ before, s.parsedFiles file = some before ∧ record.exprs = before.exprs ∧
      record.mtime = before.mtime
  files : ∀ file, s.files file <:+ s'.files file
  evaluations : s'.fileEvaluations = s.fileEvaluations

theorem files_write (files : Files) (writes : List (Bytes × FileVersion)) (file : Bytes) :
    files file <:+ files.write writes file := by
  induction writes generalizing files with
  | nil => exact List.suffix_refl _
  | cons write writes ih =>
      refine List.IsSuffix.trans ?_ (ih _)
      by_cases same : file = write.1
      · simp only [same, Function.update_self]
        exact List.suffix_cons _ _
      · simp only [Function.update_of_ne same]
        exact List.suffix_refl _

theorem KeepsFiles.keepsVersions {s s' : Child} (keeps : KeepsFiles s s') : KeepsVersions s s' := by
  constructor
  · intro key file envir isEntry
    rw [keeps.entries] at isEntry
    exact ⟨envir, isEntry⟩
  · intro file record isRecord
    rw [keeps.parsedFiles] at isRecord
    exact ⟨record, isRecord, rfl, rfl⟩
  · intro file
    rcases keeps.files with ⟨writes, isWritten⟩
    rw [isWritten]
    exact files_write s.files writes file
  · exact keeps.fileEvaluations

theorem KeepsCaches.keepsVersions {s s' : Child} (keeps : KeepsCaches s s') : KeepsVersions s s' :=
  keeps.keepsFiles.keepsVersions

/-- A change of other parts of the state, and of entries that still point to their records. -/
theorem keepsVersions_entries {s s' : Child}
    (pointers : ∀ key file envir, s'.fileEntry key = some (some file, envir) →
      ∃ before, s.fileEntry key = some (some file, before))
    (parsedFiles : s'.parsedFiles = s.parsedFiles) (files : s'.files = s.files)
    (evaluations : s'.fileEvaluations = s.fileEvaluations) : KeepsVersions s s' := by
  constructor
  · exact pointers
  · intro file record isRecord
    rw [parsedFiles] at isRecord
    exact ⟨record, isRecord, rfl, rfl⟩
  · intro file
    have same : s'.files file = s.files file := congrFun files file
    exact same ▸ List.suffix_refl _
  · exact evaluations

section Keeps

variable {requests : RequestRec → Prop} {w : World} {s s' : Child} {file : Bytes}

theorem RecordParsed.mono {record before : RApacheParsedFile}
    (parsed : RecordParsed w s file before) (exprs : record.exprs = before.exprs) (mtime : record.mtime = before.mtime)
    (more : s.files file <:+ s'.files file) : RecordParsed w s' file record := by
  intro plain absolute
  rw [exprs, mtime]
  rcases parsed plain absolute with none | ⟨elements, isVector, at_⟩
  · exact .inl none
  · exact .inr ⟨elements, isVector, at_.mono more⟩

theorem MayEvaluate.mono {count : Nat} {exprs : Option RExprs}
    (may : MayEvaluate w s file count exprs) (more : s.files file <:+ s'.files file) :
    MayEvaluate w s' file count exprs := by
  intro plain absolute
  rcases may plain absolute with none | ⟨elements, isVector, since⟩
  · exact .inl none
  · exact .inr ⟨elements, isVector, fun advance => (since (advance.suffix more)).mono more⟩

theorem EvaluationsCurrent.mono (current : EvaluationsCurrent w s)
    (more : ∀ file, s.files file <:+ s'.files file)
    (evaluations : s'.fileEvaluations = s.fileEvaluations) : EvaluationsCurrent w s' := by
  intro evaluation isEvaluation plain absolute advance
  rw [evaluations] at isEvaluation
  exact current evaluation isEvaluation plain absolute (advance.suffix (more _))

theorem PointersNamed.keeps (named : PointersNamed requests s)
    (pointers : ∀ key file envir, s'.fileEntry key = some (some file, envir) →
      ∃ before, s.fileEntry key = some (some file, before)) : PointersNamed requests s' := by
  intro key file envir isEntry
  rcases pointers key file envir isEntry with ⟨before, wasEntry⟩
  exact named key file before wasEntry

theorem OthersParsed.keeps (parsed : OthersParsed requests w file s) (keeps : KeepsVersions s s') :
    OthersParsed requests w file s' := by
  constructor
  · exact parsed.evaluations.mono keeps.files keeps.evaluations
  · exact parsed.pointers.keeps keeps.pointers
  · intro other record isOther isRecord
    rcases keeps.records other record isRecord with ⟨before, wasRecord, exprs, mtime⟩
    exact (parsed.others other before isOther wasRecord).mono exprs mtime (keeps.files other)

theorem AllParsed.keeps (parsed : AllParsed requests w s) (keeps : KeepsVersions s s') :
    AllParsed requests w s' := by
  constructor
  · exact parsed.evaluations.mono keeps.files keeps.evaluations
  · exact parsed.pointers.keeps keeps.pointers
  · intro other record isRecord
    rcases keeps.records other record isRecord with ⟨before, wasRecord, exprs, mtime⟩
    exact (parsed.records other before wasRecord).mono exprs mtime (keeps.files other)

theorem Statted.keeps {mtime : Int} {count : Nat} (statted : Statted file mtime count s)
    (keeps : KeepsVersions s s') : Statted file mtime count s' := by
  intro absolute
  rcases statted absolute with ⟨version, earlier, isSuffix, rest⟩
  exact ⟨version, earlier, isSuffix.trans (keeps.files file), rest⟩

theorem ReadyFile.keeps {count : Nat} (ready : ReadyFile requests w file count s)
    (keeps : KeepsVersions s s') : ReadyFile requests w file count s' := by
  refine ⟨ready.1.keeps keeps, ?_⟩
  intro record isRecord
  rcases keeps.records file record isRecord with ⟨before, wasRecord, exprs, -⟩
  rw [exprs]
  exact (ready.2 before wasRecord).mono (keeps.files file)

theorem AllParsed.others (parsed : AllParsed requests w s) : OthersParsed requests w file s where
  evaluations := parsed.evaluations
  pointers := parsed.pointers
  others other record _ isRecord := parsed.records other record isRecord

theorem OthersParsed.all (parsed : OthersParsed requests w file s)
    (mine : ∀ record, s.parsedFiles file = some record → RecordParsed w s file record) :
    AllParsed requests w s where
  evaluations := parsed.evaluations
  pointers := parsed.pointers
  records other record isRecord := by
    by_cases same : other = file
    · rw [same] at isRecord ⊢
      exact mine record isRecord
    · exact parsed.others other record same isRecord

end Keeps

namespace Code

variable {requests : RequestRec → Prop} {w : World} {me : Owner} {file : Bytes}

/-! ## Steps that keep the versions -/

/-- A step that keeps the versions apart from those that are written before it. -/
theorem keepsVersions_modify {change : Child → Child} (keeps : ∀ s, KeepsVersions s (change s)) :
    Every always (fun _ => KeepsVersions) (modify change) := by
  apply every_modify
  intro ω s
  have written := (written_keepsCaches ω s).keepsVersions
  have changed := keeps (s.written ω)
  constructor
  · intro key file envir isEntry
    rcases changed.pointers key file envir isEntry with ⟨before, wasEntry⟩
    exact written.pointers key file before wasEntry
  · intro file record isRecord
    exact changed.records file record isRecord
  · intro file
    exact (written.files file).trans (changed.files file)
  · exact changed.evaluations

theorem allowsEvaluation_keepsVersions (source : CodeSource) :
    AllowsEvaluation source always (fun _ => KeepsVersions) w me where
  work step := ((@allowsCode_keepsCaches w me).work step).keepsVersions
  execFailure := (allowsCode_keepsCaches.execFailure).mono fun _ _ _ keeps => keeps.keepsVersions
  evaluated {ω s} _ _ := by
    have written := (written_keepsCaches ω s).keepsVersions
    exact ⟨written.pointers, written.records, written.files, written.evaluations⟩
  failed _ {ω s} _ := by
    have written := (written_keepsCaches ω s).keepsVersions
    exact ⟨written.pointers, written.records, written.files, written.evaluations⟩

theorem createHandler_keepsVersions (key : Bytes) :
    Every always (fun _ => KeepsVersions) (createHandler key) :=
  keepsVersions_modify fun _ => keepsVersions_entries (fileEntry_create rfl) rfl rfl rfl

theorem setDirective_keepsVersions (key : Bytes) (d : RApacheDirective) :
    Every always (fun _ => KeepsVersions)
      (modifyHandler key fun entry => { entry with directive := some d }) :=
  keepsVersions_modify fun _ =>
    keepsVersions_entries (fileEntry_change rfl fun _ => rfl) rfl rfl rfl

theorem newHandlerEnv_keepsVersions (key : Bytes) :
    Every always (fun _ => KeepsVersions) (newHandlerEnv key) :=
  keepsVersions_modify fun _ =>
    keepsVersions_entries (fileEntry_change rfl fun _ => rfl) rfl rfl rfl

theorem setEnvir_keepsVersions (h : HandlerEntry) (key : Bytes) :
    Every always (fun _ => KeepsVersions) (prepareEnvironment.setEnvir h key) :=
  keepsVersions_modify fun _ =>
    keepsVersions_entries (fileEntry_change rfl fun _ => rfl) rfl rfl rfl

theorem newFileEnv_keepsVersions (key : Bytes) :
    Every always (fun _ => KeepsVersions) (newFileEnv key) := by
  apply keepsVersions_modify
  intro s
  refine ⟨fun _ _ envir isEntry => ⟨envir, isEntry⟩, ?_, fun _ => List.suffix_refl _, rfl⟩
  intro file record isRecord
  by_cases mine : file = key
  · rw [mine] at isRecord ⊢
    simp only [Function.update_self, Option.map_eq_some_iff] at isRecord
    rcases isRecord with ⟨before, wasRecord, changed⟩
    exact ⟨before, wasRecord, by rw [← changed], by rw [← changed]⟩
  · simp only [Function.update_of_ne mine] at isRecord
    exact ⟨record, isRecord, rfl, rfl⟩

theorem evalHandler_keepsVersions (h : HandlerEntry) (r : RequestRec) (evalError : Bool) :
    Every always (fun _ => KeepsVersions) (evalHandler w me h r evalError) := by
  refine Every.bind ?_ fun entry => evalExprs_every (allowsEvaluation_keepsVersions .handler) _ _ _
    fun _ use ω s => (nullUse_keepsFiles use ω s).keepsVersions
  apply every_atomic
  intro ω s value s' acted
  cases acted
  have written := (written_keepsCaches ω s).keepsVersions
  exact ⟨written.pointers, written.records, written.files, written.evaluations⟩

/-! ## Assertions about the versions -/

theorem keepsVersions_triple {I P : Child → Prop} {α : Type} {p : Code α}
    (about : AboutCaches I P) (keeps : ∀ s s', KeepsVersions s s' → P s → P s')
    (every : Every always (fun _ => KeepsVersions) p) : Triple always I P p fun _ => P :=
  every.triple (fun _ => keeps) about.implies

theorem allParsed_caches : AboutCaches (EvaluationsCurrent w) (AllParsed requests w) where
  implies _ parsed := parsed.evaluations
  keeps _ _ keeps parsed := parsed.keeps keeps.keepsVersions

theorem statted_caches {mtime : Int} {count : Nat} :
    AboutCaches (EvaluationsCurrent w)
      fun s => Statted file mtime count s ∧ AllParsed requests w s where
  implies _ now := now.2.evaluations
  keeps _ _ keeps now := ⟨now.1.keeps keeps.keepsVersions, now.2.keeps keeps.keepsVersions⟩

theorem readyFile_caches {count : Nat} :
    AboutCaches (EvaluationsCurrent w) (ReadyFile requests w file count) where
  implies _ ready := ready.1.evaluations
  keeps _ _ keeps ready := ready.keeps keeps.keepsVersions

theorem versions_of_absolute {s : Child} (absolute : AbsoluteName file) :
    s.versions file = s.files file := by
  have isAbsolute : file.head? = some (byte '/') := absolute
  rw [Child.versions, resolve, if_pos isAbsolute]

/-- The time stamp and the versions that `apr_stat` finds. -/
theorem aprStat_triple :
    Triple always (EvaluationsCurrent w) (AllParsed requests w) (aprStat file) fun finfo s =>
      match finfo with
      | none => AllParsed requests w s
      | some (mtime, count) => Statted file mtime count s ∧ AllParsed requests w s := by
  unfold aprStat
  apply triple_atomic allParsed_caches.implies
  intro ω s finfo s' parsed acted
  cases acted
  have later := allParsed_caches.keeps s (s.written ω) (written_keepsCaches ω s) parsed
  refine ⟨later.evaluations, ?_⟩
  split
  next => exact later
  next mtime count found =>
    refine ⟨?_, later⟩
    intro absolute
    simp only [versions_of_absolute absolute] at found
    split at found
    next version earlier isVersions =>
      split at found
      next =>
        simp only [Option.some.injEq, Prod.mk.injEq] at found
        exact ⟨version, earlier, isVersions ▸ List.suffix_refl _, found.1, found.2⟩
      next => cases found
    next => cases found

/-- The record that the handler takes is that of its own file. -/
theorem fileRecord_triple {r : RequestRec} {h : HandlerEntry} {mtime : Int} {count : Nat}
    (named : KeysNameFiles requests) (isRequest : requests r) (isHandler : HandlerOf r h)
    (isFile : h.directive.file = some file) :
    Triple always (EvaluationsCurrent w)
      (fun s => Statted file mtime count s ∧ AllParsed requests w s) (fileRecord h file)
      fun key s => key = file ∧ Statted file mtime count s ∧ AllParsed requests w s := by
  have ownKey : r.handlerKey = some h.key := by
    rw [RequestRec.handlerKey, isHandler.directive]
    exact isHandler.key
  have ownFile : r.file = some file := by
    rw [RequestRec.file, isHandler.directive]
    exact isFile
  apply statted_caches.fileRecord
  · exact fun key s located => located.2.2.evaluations
  · rintro s entry key ⟨statted, parsed⟩ isEntry isFound
    have points : s.fileEntry h.key = some (some key, entry.envir) := by
      simp [Child.fileEntry, isEntry, isFound]
    rcases parsed.pointers h.key key entry.envir points with ⟨other, isOther, otherKey, otherFile⟩
    refine ⟨?_, statted, parsed⟩
    exact named other r key file isOther isRequest (otherKey.trans ownKey.symm) otherFile ownFile
  · rintro s entry ⟨statted, parsed⟩ isEntry -
    refine ⟨rfl, statted, parsed.evaluations, ?_, ?_⟩
    · intro other pointed envir isPointed
      by_cases same : other = h.key
      · simp only [Child.fileEntry, same, Function.update_self, Option.map_some,
          Option.some.injEq, Prod.mk.injEq] at isPointed
        exact ⟨r, isRequest, same ▸ ownKey, isPointed.1 ▸ ownFile⟩
      · simp only [Child.fileEntry, Function.update_of_ne same] at isPointed
        exact parsed.pointers other pointed envir isPointed
    · exact forall_update_getD (fun _ _ => .inl rfl) parsed.records

/-- What `parse` gives for a proper name. -/
def NewParse (w : World) (file : Bytes) (mtime : Int) (count : Nat)
    (parsed : Option RExprs × Bool) (s : Child) : Prop :=
  PlainName file → AbsoluteName file → parsed = (none, true) ∨
    ∃ elements, parsed = (some (.vector elements), false) ∧
      ParsedAt w (s.files file) mtime elements ∧ ParsedSince w (s.files file) count elements

theorem NewParse.keeps {mtime : Int} {count : Nat} {parsed : Option RExprs × Bool} {s s' : Child}
    (new : NewParse w file mtime count parsed s) (more : s.files file <:+ s'.files file) :
    NewParse w file mtime count parsed s' := by
  intro plain absolute
  rcases new plain absolute with failed | ⟨elements, isParsed, at_, since⟩
  · exact .inl failed
  · exact .inr ⟨elements, isParsed, at_.mono more, since.mono more⟩

/-- `parse` of the file as it is now. -/
theorem parseFile_current {mtime : Int} {count : Nat} :
    Triple always (EvaluationsCurrent w)
      (fun s => Statted file mtime count s ∧ AllParsed requests w s) (parseFile w me file)
      fun parsed s => NewParse w file mtime count parsed s ∧ AllParsed requests w s := by
  have allows : AllowsCode always (fun _ => KeepsCaches) w me := allowsCode_keepsCaches
  unfold parseFile
  split
  next =>
    refine (statted_caches.triple (printParseErrors_every allows.toAllowsWork)).bind fun _ => ?_
    apply triple_atomic statted_caches.implies
    rintro ω s parsed s' now acted
    cases acted
    rcases statted_caches.keeps s (s.written ω) (written_keepsCaches ω s) now with
      ⟨statted, before⟩
    refine ⟨before.evaluations, ?_, before⟩
    intro _ absolute
    rcases statted absolute with ⟨stamped, earlier, isStamped, isTime, isCount⟩
    simp only [versions_of_absolute absolute]
    split
    next version older isVersions =>
      split
      next exprs isParse =>
        split
        next =>
          refine .inr ⟨exprs, rfl, ?_, ?_⟩
          · refine ⟨version, older, stamped, earlier, isVersions ▸ List.suffix_refl _, ?_, isTime,
              isParse⟩
            rw [← isVersions]
            exact isStamped
          · refine ⟨version, older, isVersions ▸ List.suffix_refl _, ?_, isParse⟩
            rw [isVersions] at isStamped
            rw [← isCount]
            exact Nat.le_of_succ_le_succ isStamped.length_le
        next => exact .inl rfl
      next => exact .inl rfl
    next => exact .inl rfl
  next notPlain =>
    have allows : AllowsCode always (fun _ => KeepsCaches) w me := allowsCode_keepsCaches
    have reads (value : Answer → Child → Option RExprs × Bool) :
        Triple always (EvaluationsCurrent w)
          (fun s => Statted file mtime count s ∧ AllParsed requests w s) (read value)
          fun parsed s => NewParse w file mtime count parsed s ∧ AllParsed requests w s :=
      (statted_caches.triple (read_every allows.toAllowsWork value)).post fun _ _ now =>
        ⟨fun plain => (notPlain plain).elim, now.2⟩
    refine (statted_caches.triple (tryEval_every allows)).bind fun value => ?_
    cases value with
    | some value => exact reads _
    | none => exact reads _

/-- The record of the file gets what was parsed; so far it is like this. -/
def Recording (requests : RequestRec → Prop) (w : World) (file : Bytes) (mtime : Int) (count : Nat)
    (parsed : Option RExprs × Bool) (sofar : RApacheParsedFile → Prop) (s : Child) : Prop :=
  NewParse w file mtime count parsed s ∧ OthersParsed requests w file s ∧
    ∀ record, s.parsedFiles file = some record → sofar record

theorem modifyParsedFile_records {mtime : Int} {count : Nat} {parsed : Option RExprs × Bool}
    {before after : RApacheParsedFile → Prop} {change : RApacheParsedFile → RApacheParsedFile}
    (changes : ∀ record, before record → after (change record)) :
    Triple always (EvaluationsCurrent w) (Recording requests w file mtime count parsed before)
      (modifyParsedFile file change)
      fun _ => Recording requests w file mtime count parsed after := by
  apply triple_modify fun _ now => now.2.1.evaluations
  rintro ω s ⟨new, others, sofar⟩
  have written := (written_keepsCaches ω s).keepsVersions
  have kept := others.keeps written
  refine ⟨kept.evaluations, new.keeps (written.files file),
    ⟨kept.evaluations, kept.pointers, ?_⟩, ?_⟩
  · intro other record isOther isRecord
    simp only [Function.update_of_ne isOther] at isRecord
    exact kept.others other record isOther isRecord
  · intro record isRecord
    simp only [Function.update_self, Option.map_eq_some_iff] at isRecord
    rcases isRecord with ⟨record', wasRecord, changed⟩
    rw [← changed]
    exact changes record' (sofar record' wasRecord)

/-- A record that has what was parsed, and the time stamp of the file. -/
theorem Recording.ready {mtime : Int} {count : Nat} {exprs : Option RExprs} {s : Child}
    (recording : Recording requests w file mtime count (exprs, false)
      (fun record => record.exprs = exprs ∧ record.mtime = mtime) s) :
    ReadyFile requests w file count s := by
  rcases recording with ⟨new, others, isRecorded⟩
  constructor
  · apply others.all
    intro record isRecord plain absolute
    rcases isRecorded record isRecord with ⟨isExprs, isTime⟩
    rw [isExprs, isTime]
    rcases new plain absolute with failed | ⟨elements, isParsed, at_, -⟩
    · cases failed
    · exact .inr ⟨elements, congrArg Prod.fst isParsed, at_⟩
  · intro record isRecord plain absolute
    rw [(isRecorded record isRecord).1]
    rcases new plain absolute with failed | ⟨elements, isParsed, -, since⟩
    · cases failed
    · exact .inr ⟨elements, congrArg Prod.fst isParsed, fun _ => since⟩

/-- A record whose file could not be parsed. -/
theorem Recording.failed {mtime : Int} {count : Nat} {exprs : Option RExprs} {s : Child}
    (recording : Recording requests w file mtime count (exprs, true)
      (fun record => record.exprs = exprs) s) : AllParsed requests w s := by
  rcases recording with ⟨new, others, isRecorded⟩
  apply others.all
  intro record isRecord plain absolute
  rw [isRecorded record isRecord]
  rcases new plain absolute with failed | ⟨elements, isParsed, -, -⟩
  · exact .inl (congrArg Prod.fst failed)
  · cases isParsed

/-- A record whose stamp is not older than that of the file. -/
theorem Statted.ready {mtime : Int} {count : Nat} {s : Child} (statted : Statted file mtime count s)
    (parsed : AllParsed requests w s)
    (notOlder : ¬ ((s.parsedFiles file).getD {}).mtime < mtime) :
    ReadyFile requests w file count s := by
  refine ⟨parsed, ?_⟩
  intro record isRecord plain absolute
  rw [isRecord, Option.getD_some] at notOlder
  rcases statted absolute with ⟨version, earlier, isVersion, isTime, isCount⟩
  rcases parsed.records file record isRecord plain absolute with none | ⟨elements, isVector, at_⟩
  · exact .inl none
  · refine .inr ⟨elements, isVector, fun advance => ?_⟩
    rw [← isCount]
    exact at_.unchanged advance isVersion (by omega)

/-- `PrepareFileExprs`. -/
theorem prepareFileExprs_current {r : RequestRec} {h : HandlerEntry}
    (named : KeysNameFiles requests) (isRequest : requests r) (isHandler : HandlerOf r h)
    (isFile : h.directive.file = some file) :
    Triple always (EvaluationsCurrent w) (AllParsed requests w) (prepareFileExprs w me h file)
      fun ready s =>
        match ready with
        | none => AllParsed requests w s
        | some (key, _, versions) => key = file ∧ ReadyFile requests w file versions s := by
  have allows : AllowsCode always (fun _ => KeepsCaches) w me := allowsCode_keepsCaches
  refine aprStat_triple.bind fun finfo => ?_
  cases finfo with
  | none =>
      exact (allParsed_caches.triple (perform_every allows.toAllowsWork rfl)).bind fun _ =>
        .done allParsed_caches.implies fun _ now => now
  | some finfo =>
      rcases finfo with ⟨mtime, count⟩
      refine (fileRecord_triple named isRequest isHandler isFile).bind fun key => ?_
      apply Triple.given
      rintro rfl
      have compared : Triple always (EvaluationsCurrent w)
          (fun s => Statted key mtime count s ∧ AllParsed requests w s)
          (read fun _ s => decide (((s.parsedFiles key).getD {}).mtime < mtime))
          (fun older s => if older then Statted key mtime count s ∧ AllParsed requests w s
            else ReadyFile requests w key count s) := by
        apply triple_atomic statted_caches.implies
        rintro ω s older s' now acted
        cases acted
        have later := statted_caches.keeps s (s.written ω) (written_keepsCaches ω s) now
        refine ⟨later.2.evaluations, ?_⟩
        split
        next => exact later
        next notOlder =>
          exact Statted.ready later.1 later.2 fun older => notOlder (decide_eq_true older)
      refine compared.bind fun older => ?_
      cases older with
      | false => exact .done readyFile_caches.implies fun _ ready => ⟨rfl, ready⟩
      | true =>
          refine parseFile_current.bind fun parsed => ?_
          rcases parsed with ⟨exprs, evalError⟩
          have setExprs := @modifyParsedFile_records requests w key mtime count (exprs, evalError)
            (fun _ => True) (fun record => record.exprs = exprs)
            (fun record => { record with exprs }) fun _ _ => rfl
          refine Triple.bind (setExprs.pre fun s now => ⟨now.1, now.2.others, fun _ _ => trivial⟩)
            fun _ => ?_
          cases evalError with
          | true =>
              exact .done (fun _ now => now.2.1.evaluations) fun s recording => recording.failed
          | false =>
              have setTime := @modifyParsedFile_records requests w key mtime count (exprs, false)
                (fun record => record.exprs = exprs)
                (fun record => record.exprs = exprs ∧ record.mtime = mtime)
                (fun record => { record with mtime }) fun _ isExprs => ⟨isExprs, rfl⟩
              exact setTime.bind fun _ =>
                .done (fun _ now => now.2.1.evaluations) fun s recording => ⟨rfl, recording.ready⟩

/-- Expressions that are being evaluated. -/
def Evaluates (requests : RequestRec → Prop) (w : World) (file : Bytes) (count : Nat)
    (exprs : Option RExprs) (s : Child) : Prop :=
  MayEvaluate w s file count exprs ∧ AllParsed requests w s

theorem evaluates_caches {count : Nat} {exprs : Option RExprs} :
    AboutCaches (EvaluationsCurrent w) (Evaluates requests w file count exprs) where
  implies _ now := now.2.evaluations
  keeps _ _ keeps now :=
    ⟨now.1.mono (keeps.keepsVersions.files file), now.2.keeps keeps.keepsVersions⟩

/-- Recording the evaluation of expressions that are there. -/
theorem Evaluates.log {count : Nat} {exprs : Option RExprs} {s : Child} (r : RequestRec)
    (evaluates : Evaluates requests w file count exprs s) (present : exprs.isSome) :
    AllParsed requests w
      { s with
        fileEvaluations :=
          { r, file, exprs
            since := (s.versions file).take ((s.versions file).length - count) } ::
          s.fileEvaluations } := by
  rcases evaluates with ⟨may, parsed⟩
  refine ⟨?_, parsed.pointers, parsed.records⟩
  intro evaluation isEvaluation plain absolute advance
  rcases List.mem_cons.mp isEvaluation with isNow | earlier
  · rw [isNow] at plain absolute advance ⊢
    rcases may plain absolute with none | ⟨elements, isVector, since⟩
    · rw [none] at present
      cases present
    · rcases (since advance).mem_take with ⟨version, isSince, isParse⟩
      refine ⟨version, ?_, elements, isParse, isVector⟩
      simp only [versions_of_absolute absolute]
      exact isSince
  · exact parsed.evaluations evaluation earlier plain absolute advance

/-- There are no values of expressions that are absent. -/
theorem evalExprs_current {count : Nat} (exprs : Option RExprs) (envir : Option EnvId) :
    Triple always (EvaluationsCurrent w) (Evaluates requests w file count exprs)
      (evalExprs w me .file exprs envir true)
      fun _ s => exprs.isSome ∧ Evaluates requests w file count exprs s := by
  cases exprs with
  | none =>
      exact readNull_triple evaluates_caches.implies fun ω s now =>
        (evaluates_caches.keeps s (s.written ω) (written_keepsCaches ω s) now).2.evaluations
  | some exprs =>
      apply (keepsVersions_triple evaluates_caches
        (fun _ _ keeps now => ⟨now.1.mono (keeps.files file), now.2.keeps keeps⟩)
        (evalExprs_every (allowsEvaluation_keepsVersions .file) _ _ _
          fun _ use ω s => (nullUse_keepsFiles use ω s).keepsVersions)).post
      exact fun _ _ now => ⟨rfl, now⟩

/-- The evaluation of a file is that of its current version. -/
theorem evalFile_current (r : RequestRec) (count : Nat) :
    Triple always (EvaluationsCurrent w) (ReadyFile requests w file count)
      (evalFile w me r file file count) fun _ => AllParsed requests w := by
  have made : Triple always (EvaluationsCurrent w) (ReadyFile requests w file count)
      (newFileEnv file) fun _ => ReadyFile requests w file count :=
    keepsVersions_triple readyFile_caches (fun _ _ keeps ready => ready.keeps keeps)
      (newFileEnv_keepsVersions file)
  refine made.bind fun _ => ?_
  have looked : Triple always (EvaluationsCurrent w) (ReadyFile requests w file count)
      (read fun _ s => (s.parsedFiles file).getD {})
      fun record => Evaluates requests w file count record.exprs := by
    apply triple_atomic readyFile_caches.implies
    intro ω s record s' now acted
    cases acted
    have later := readyFile_caches.keeps s (s.written ω) (written_keepsCaches ω s) now
    refine ⟨later.1.evaluations, ?_, later.1⟩
    change MayEvaluate w _ file count (((s.written ω).parsedFiles file).getD {}).exprs
    cases isRecord : (s.written ω).parsedFiles file with
    | none => exact fun _ _ => .inl rfl
    | some record => exact later.2 record isRecord
  refine looked.bind fun record => ?_
  refine (evalExprs_current record.exprs record.envir).bind fun value => ?_
  rcases value with ⟨ret, evalError⟩
  apply Triple.given
  intro present
  cases evalError with
  | true => exact .done evaluates_caches.implies fun _ now => now.2
  | false =>
      refine Triple.bind ?_ fun _ => .done allParsed_caches.implies fun _ now => now
      apply triple_modify evaluates_caches.implies
      intro ω s now
      have later :=
        (evaluates_caches.keeps s (s.written ω) (written_keepsCaches ω s) now).log r present
      exact ⟨later.evaluations, later⟩

/-- The rules for the versions. -/
theorem versionRules (named : KeysNameFiles requests) :
    CacheRules always requests w (EvaluationsCurrent w) (AllParsed requests w)
      (fun _ => AllParsed requests w)
      (fun h _ key _ count s => h.directive.file = some key ∧ ReadyFile requests w key count s)
      (fun _ _ _ => AllParsed requests w) (fun _ _ => AllParsed requests w)
      fun _ _ => AllParsed requests w where
  idleCaches := allParsed_caches
  enteredCaches _ := allParsed_caches
  filledCaches _ _ _ := allParsed_caches
  preparedCaches _ _ := allParsed_caches
  enteredIdle _ _ now := now
  preparedIdle _ _ _ now := now
  createHandler key := keepsVersions_triple allParsed_caches
    (fun _ _ keeps parsed => parsed.keeps keeps) (createHandler_keepsVersions key)
  setDirective key d := keepsVersions_triple allParsed_caches
    (fun _ _ keeps parsed => parsed.keeps keeps) (setDirective_keepsVersions key d)
  newHandlerEnv _ h _ _ _ := keepsVersions_triple allParsed_caches
    (fun _ _ keeps parsed => parsed.keeps keeps) (newHandlerEnv_keepsVersions h.key)
  prepareFile me r h file isRequest isHandler _ isFile := by
    apply (prepareFileExprs_current named isRequest isHandler isFile).post
    intro ready s now
    cases ready with
    | none => exact now
    | some ready =>
        rcases ready with ⟨key, fileParsed, count⟩
        rcases now with ⟨rfl, now⟩
        exact ⟨isFile, now⟩
  evalFile me r h file key fileParsed count _ _ isFile _ := by
    apply Triple.given
    intro isKey
    rw [isFile, Option.some.injEq] at isKey
    rw [isKey]
    apply (evalFile_current r count).post
    intro value s now
    split
    next => exact now
    next => exact now
  reuse _ _ _ _ _ now := now.2.1
  setEnvir _ h _ key _ _ _ := keepsVersions_triple allParsed_caches
    (fun _ _ keeps parsed => parsed.keeps keeps) (setEnvir_keepsVersions h key)
  prepareHandlerExpr me r h type env _ _ _ _ := by
    have keeps : Triple always (EvaluationsCurrent w) (AllParsed requests w)
        (prepareHandlerExpr w me h r type env) fun _ => AllParsed requests w :=
      (prepareHandlerExpr_keepsFiles h r type env).triple
        (fun _ _ _ keeps parsed => parsed.keeps keeps.keepsVersions) allParsed_caches.implies
    apply (keeps.pre fun _ now => now.1).post
    intro ready s now
    split
    next => exact now
    next => exact now
  evalHandler _ r h evalError _ _ := keepsVersions_triple allParsed_caches
    (fun _ _ keeps parsed => parsed.keeps keeps) (evalHandler_keepsVersions h r evalError)

end Code

/-! ## Children -/

/-- A request for the directive `RFileHandler /f`. -/
def sourceRequest : RequestRec where
  address := 0
  handler := bytes "r-handler"
  perDirConfig := some {
    file := some (bytes "/f")
    dirname := some (bytes "/")
    handlerKey := some (bytes "/f") }
  filename := some (bytes "/a")

/-- Some steps of a child without threads that serves two such requests.  Between them the file
gets another content, and this time stamp instead of 2. -/
def editsFile (mtime : Int) (count : Nat) : Option (Code Unit × Child) :=
  Program.runWith
    (fun step =>
      if step = 31 then { writes := [(bytes "/f", { mtime, content := bytes "y" })] } else {})
    count (Code.serve plainWorld 0 0 [sourceRequest, sourceRequest])
    (Child.fresh (bytes "/") none fun file =>
      if file = bytes "/f" then [{ mtime := 2, content := bytes "x" }] else [])

theorem editsFile_serves {mtime : Int} {count : Nat} (ran : (editsFile mtime count).isSome) :
    Serves plainWorld [sourceRequest, sourceRequest] ((editsFile mtime count).get ran).2 :=
  ⟨_, _, _, _, Program.runWith_reaches (Option.some_get ran).symm⟩

theorem sourceRequests_named : KeysNameFiles fun r => r ∈ [sourceRequest, sourceRequest] := by
  intro r r' file file' isRequest isRequest' _ isFile isFile'
  simp only [List.mem_cons, List.not_mem_nil, or_false, or_self] at isRequest isRequest'
  rw [isRequest] at isFile
  rw [isRequest', isFile] at isFile'
  exact Option.some.inj isFile'

end RApache
