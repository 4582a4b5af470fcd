import RApache.CacheRuns

/-!
# The record of a parsed file

What `PrepareFileExprs` and the handler behind it do to a `RApacheParsedFile`, and to R's list
of preserved objects.
-/

namespace RApache

open Stepwise
open Stepwise.Program (Every Follows Reaches alone)

/-! ## Preserved objects -/

/-- The members of the cached records that hold R objects. -/
inductive Member where
  | expr (handlerKey : Bytes)
  | envir (handlerKey : Bytes)
  | fileExprs (file : Bytes)
  | fileEnvir (file : Bytes)
  deriving DecidableEq, Repr

/-- An entry of R's list of preserved objects, and the member for which it was made. -/
structure Preserved (Obj : Type) where
  member : Member
  object : Obj
  deriving DecidableEq, Repr

section Preserved

variable {Obj : Type} [DecidableEq Obj]

/-- `R_PreserveObject`. -/
def preserveObject (member : Member) (object : Obj) (precious : List (Preserved Obj)) :
    List (Preserved Obj) :=
  { member, object } :: precious

/-- `R_ReleaseObject` takes the first entry of the object away, whatever it was made for. -/
def releaseObject (object : Obj) (precious : List (Preserved Obj)) : List (Preserved Obj) :=
  precious.eraseP fun entry => entry.object = object

/-- `if (object) R_ReleaseObject(object)`. -/
def releaseMember (object : Option Obj) (precious : List (Preserved Obj)) :
    List (Preserved Obj) :=
  match object with
  | some object => releaseObject object precious
  | none => precious

/-- Releasing does nothing just when there is nothing to be released. -/
theorem releaseMember_eq_self_iff (object : Option Obj) (precious : List (Preserved Obj)) :
    releaseMember object precious = precious ↔
      ∀ entry ∈ precious, object ≠ some entry.object := by
  cases object with
  | none => simp [releaseMember]
  | some object =>
      constructor
      · intro same entry isEntry isObject
        cases isObject
        have erased : releaseObject entry.object precious = precious := same
        have shorter : (releaseObject entry.object precious).length = precious.length - 1 :=
          List.length_eraseP_of_mem isEntry (decide_eq_true rfl)
        have present := List.length_pos_of_mem isEntry
        rw [erased] at shorter
        omega
      · intro absent
        apply List.eraseP_of_forall_not
        intro entry isEntry isObject
        exact absent entry isEntry (congrArg some (of_decide_eq_true isObject).symm)

end Preserved

/-! ## The record -/

/-- `RApacheParsedFile` with objects. -/
structure ParsedFile (Obj : Type) where
  exprs : Option Obj := none
  envir : Option Obj := none
  mtime : Int := 0
  deriving DecidableEq, Repr

/-- The record of a file and R's list of preserved objects. -/
structure FileCache (Obj : Type) where
  parsedFile : ParsedFile Obj := {}
  precious : List (Preserved Obj) := []
  deriving DecidableEq, Repr

/-- What the system and R answer to a request for the file: the time stamp if `apr_stat`
succeeds, the expressions if `CallFun1str("parse", ...)` succeeds and else the value that it has,
and what `NewEnv` makes; `hasExpr` says that the directive names a function or has code. -/
structure FileRequest (Obj : Type) where
  finfo : Option Int
  parsed : Except (Option Obj) Obj
  hasExpr : Bool
  newEnv : Obj

/-- What the file is to a request: `PrepareFileExprs` fails, or its expressions are
evaluated in a new environment, or the environment is used as it is. -/
inductive Served (Obj : Type) where
  | refused
  | evaluated (exprs : Option Obj) (envir : Obj)
  | prepared (envir : Option Obj)
  deriving DecidableEq, Repr

namespace FileCache

variable {Obj : Type} [DecidableEq Obj]

/-- `PrepareFileExprs`: `none` if it returns 0, else the flag `fileParsed`. -/
def prepareFileExprs (file : Bytes) (request : FileRequest Obj) (cache : FileCache Obj) :
    Option Bool × FileCache Obj :=
  match request.finfo with
  | none => (none, cache)
  | some mtime =>
      if cache.parsedFile.mtime < mtime then
        let precious := releaseMember cache.parsedFile.exprs cache.precious
        match request.parsed with
        | .error exprs => (none, { parsedFile := { cache.parsedFile with exprs }, precious })
        | .ok exprs =>
            (some true,
              { parsedFile := { cache.parsedFile with exprs := some exprs, mtime }
                precious := preserveObject (.fileExprs file) exprs precious })
      else (some false, cache)

/-- A new environment for the file, in which its expressions are evaluated. -/
def newFileEnv (file : Bytes) (request : FileRequest Obj) (cache : FileCache Obj) :
    FileCache Obj :=
  { parsedFile := { cache.parsedFile with envir := some request.newEnv }
    precious := preserveObject (.fileEnvir file) request.newEnv
      (releaseMember cache.parsedFile.envir cache.precious) }

/-- The part of `AP_hook_request_handler` that needs the file. -/
def serve (file : Bytes) (request : FileRequest Obj) (cache : FileCache Obj) :
    Served Obj × FileCache Obj :=
  match cache.prepareFileExprs file request with
  | (none, cache) => (.refused, cache)
  | (some fileParsed, cache) =>
      if fileParsed ∨ request.hasExpr = false then
        (.evaluated cache.parsedFile.exprs request.newEnv, cache.newFileEnv file request)
      else (.prepared cache.parsedFile.envir, cache)

/-- Requests for the file, one after the other. -/
def serveAll (file : Bytes) : List (FileRequest Obj) → FileCache Obj → List (Served Obj)
  | [], _ => []
  | request :: requests, cache =>
      let (served, cache) := cache.serve file request
      served :: serveAll file requests cache

/-! ## Requests that fail -/

/-- What `CallFun1str("parse", file, ...)` has for a value when it fails: nothing, or
`R_NilValue` if the text of the call is no R code. -/
def parseFailure (w : World) (nilValue : Obj) (file : Bytes) : Option Obj :=
  if (w.parse (callFun1strText (bytes "parse") file)).isSome then none else some nilValue

/-- `apr_stat` fails, or the file has changed and cannot be parsed. -/
def Fails (w : World) (nilValue : Obj) (file : Bytes) (request : FileRequest Obj)
    (cache : FileCache Obj) : Prop :=
  request.finfo = none ∨
    (∃ mtime, request.finfo = some mtime ∧ cache.parsedFile.mtime < mtime) ∧
      request.parsed = .error (parseFailure w nilValue file)

/-- `PrepareFileExprs` returns 0 and leaves the record and the preserved objects as they were,
and every later history is served as if the request had not been made. -/
def LeavesCache (file : Bytes) (request : FileRequest Obj) (cache : FileCache Obj) : Prop :=
  (cache.prepareFileExprs file request).1 = none ∧
    (cache.prepareFileExprs file request).2.parsedFile = cache.parsedFile ∧
    (cache.prepareFileExprs file request).2.precious = cache.precious ∧
    ∀ later, serveAll file later (cache.serve file request).2 = serveAll file later cache

theorem prepareFileExprs_missing {file : Bytes} {request : FileRequest Obj}
    {cache : FileCache Obj} (missing : request.finfo = none) :
    cache.prepareFileExprs file request = (none, cache) := by
  simp only [prepareFileExprs, missing]

/-- What a parse that fails leaves. -/
theorem prepareFileExprs_unparsed {file : Bytes} {request : FileRequest Obj}
    {cache : FileCache Obj} {mtime : Int} {left : Option Obj}
    (changed : request.finfo = some mtime) (newer : cache.parsedFile.mtime < mtime)
    (unparsed : request.parsed = .error left) :
    cache.prepareFileExprs file request =
      (none,
        { parsedFile := { cache.parsedFile with exprs := left }
          precious := releaseMember cache.parsedFile.exprs cache.precious }) := by
  simp only [prepareFileExprs, changed, unparsed, if_pos newer]

/-- A request whose `PrepareFileExprs` leaves the cache alone is as if it had not been
made. -/
theorem leavesCache_of_eq {file : Bytes} {request : FileRequest Obj} {cache : FileCache Obj}
    (same : cache.prepareFileExprs file request = (none, cache)) :
    LeavesCache file request cache := by
  have served : cache.serve file request = (.refused, cache) := by
    simp only [serve, same]
  constructor
  · rw [same]
  · constructor
    · rw [same]
    · constructor
      · rw [same]
      · intro later
        rw [served]

/-- A request that fails leaves the cache as it was, just when `apr_stat` fails or the record
holds what a failed parse leaves, which is not preserved. -/
theorem failed_prepare_leaves_cache_iff (w : World) (nilValue : Obj) (file : Bytes)
    (request : FileRequest Obj) (cache : FileCache Obj)
    (fails : Fails w nilValue file request cache) :
    LeavesCache file request cache ↔
      request.finfo = none ∨
        cache.parsedFile.exprs = parseFailure w nilValue file ∧
          ∀ entry ∈ cache.precious, cache.parsedFile.exprs ≠ some entry.object := by
  rcases fails with missing | ⟨⟨mtime, changed, newer⟩, unparsed⟩
  · constructor
    · intro _
      exact .inl missing
    · intro _
      exact leavesCache_of_eq (prepareFileExprs_missing missing)
  · have result := @prepareFileExprs_unparsed _ _ file _ _ _ _ changed newer unparsed
    have present : request.finfo ≠ none := by
      rw [changed]
      nofun
    constructor
    · rintro ⟨-, record, precious, -⟩
      rw [result] at record precious
      have exprs : parseFailure w nilValue file = cache.parsedFile.exprs :=
        congrArg ParsedFile.exprs record
      exact .inr ⟨exprs.symm, (releaseMember_eq_self_iff _ _).mp precious⟩
    · intro condition
      rcases condition.resolve_left present with ⟨exprs, absent⟩
      apply leavesCache_of_eq
      rw [result, (releaseMember_eq_self_iff _ _).mpr absent, ← exprs]

/-- A file of an r-handler request. -/
def handlerFile : Bytes := bytes "/www/a.R"

/-- Its record when it has been parsed and evaluated. -/
def parsedCache : FileCache Nat where
  parsedFile := { exprs := some 1, envir := some 2, mtime := 5 }
  precious := [⟨.fileEnvir handlerFile, 2⟩, ⟨.fileExprs handlerFile, 1⟩]

/-- A request that finds the file with a syntax error. -/
def brokenEdit : FileRequest Nat where
  finfo := some 9
  parsed := .error none
  hasExpr := false
  newEnv := 3

/-- A request that finds the file as it was before. -/
def restoredFile : FileRequest Nat where
  finfo := some 5
  parsed := .ok 4
  hasExpr := false
  newEnv := 3

/-- A file that cannot be parsed from the beginning leaves nothing. -/
theorem first_failure_leaves_cache : LeavesCache handlerFile brokenEdit {} := by
  have fails : Fails plainWorld 0 handlerFile brokenEdit {} := .inr ⟨⟨9, rfl, by decide⟩, rfl⟩
  exact (failed_prepare_leaves_cache_iff plainWorld 0 handlerFile brokenEdit {} fails).mpr
    (.inr ⟨rfl, by simp⟩)

/-- After a syntax error the old file is evaluated without its expressions. -/
theorem failed_parse_loses_expressions :
    Fails plainWorld 0 handlerFile brokenEdit parsedCache ∧
      serveAll handlerFile [restoredFile] parsedCache = [.evaluated (some 1) 3] ∧
      serveAll handlerFile [brokenEdit, restoredFile] parsedCache =
        [.refused, .evaluated none 3] ∧
      ¬ LeavesCache handlerFile brokenEdit parsedCache := by
  constructor
  · exact .inr ⟨⟨9, rfl, by decide⟩, rfl⟩
  · constructor
    · rfl
    · constructor
      · rfl
      · rintro ⟨-, record, -⟩
        cases congrArg ParsedFile.exprs record

end FileCache

/-! ## The record in a child -/

/-- A record of a child, whose objects are expressions and environments. -/
def RApacheParsedFile.objects (parsedFile : RApacheParsedFile) : ParsedFile (RExprs ⊕ EnvId) where
  exprs := parsedFile.exprs.map .inl
  envir := parsedFile.envir.map .inr
  mtime := parsedFile.mtime

/-- The record that an entry of the handler cache leads to. -/
def Child.fileKey (s : Child) (h : HandlerEntry) (file : Bytes) : Bytes :=
  (((s.handlers h.key).bind RApacheHandler.parsedFile)).getD file

/-- A record, or a new one. -/
def Child.parsedFile (s : Child) (key : Bytes) : RApacheParsedFile := (s.parsedFiles key).getD {}

/-- The caches are as they were. -/
def SameCaches (s s' : Child) : Prop :=
  s'.handlers = s.handlers ∧ s'.parsedFiles = s.parsedFiles

namespace Code

variable {w : World} {me : Owner}

/-- What is only known of the caches stays true. -/
theorem follows_caches {α : Type} {p : Code α} {known : Child → Prop}
    (every : Every always (fun _ => KeepsCaches) p)
    (stays : ∀ s s', KeepsCaches s s' → known s → known s') :
    Follows always alone p (fun _ known' => known' = known) known :=
  every.follows fun _ _ _ now _ same => stays _ _ same now

/-- The record after `PrepareFileExprs`, whose result is given. -/
structure Refines (key : Bytes) (s : Child) (result : Option (Bytes × Bool × Nat)) (s' : Child) :
    Prop where
  isKey : ∀ prepared, result = some prepared → prepared.1 = key
  others : ∀ other, other ≠ key → s'.parsedFiles other = s.parsedFiles other
  simulates : ∃ request : FileRequest (RExprs ⊕ EnvId), ∀ precious, ∃ precious',
    FileCache.prepareFileExprs key request ⟨(s.parsedFile key).objects, precious⟩ =
      (result.map fun prepared => prepared.2.1, ⟨(s'.parsedFile key).objects, precious'⟩)

/-- The record of a key is this one, and the others are as they were. -/
def HoldsRecord (key : Bytes) (record : RApacheParsedFile) (s s' : Child) : Prop :=
  s'.parsedFiles key = some record ∧ ∀ other, other ≠ key → s'.parsedFiles other = s.parsedFiles other

theorem HoldsRecord.stays {key : Bytes} {record : RApacheParsedFile} {s s' s'' : Child}
    (keeps : KeepsCaches s' s'') (holds : HoldsRecord key record s s') :
    HoldsRecord key record s s'' := by
  rw [HoldsRecord, keeps.parsedFiles]
  exact holds

theorem HoldsRecord.parsedFile {key : Bytes} {record : RApacheParsedFile} {s s' : Child}
    (holds : HoldsRecord key record s s') : s'.parsedFile key = record := by
  rw [Child.parsedFile, holds.1]
  rfl

/-- A parse that succeeds has a value. -/
theorem parseFile_follows {known : Child → Prop} (file : Bytes)
    (stays : ∀ s s', KeepsCaches s s' → known s → known s') :
    Follows always alone (parseFile w me file)
      (fun parsed known' => known' = known ∧ (parsed.2 = false → parsed.1.isSome)) known := by
  have reads (value : Answer → Child → Option RExprs × Bool)
      (hasValue : ∀ ω s, (value ω s).2 = false → (value ω s).1.isSome) :
      Follows always alone (read value)
        (fun parsed known' => known' = known ∧ (parsed.2 = false → parsed.1.isSome)) known := by
    apply follows_atomic
    intro ω s parsed s' now acted _
    cases acted
    exact ⟨known, stays s _ (written_keepsCaches ω s) now, rfl, hasValue ω _⟩
  unfold parseFile
  split
  next =>
    have printed : Follows always alone (printParseErrors w) (fun _ known' => known' = known)
        known :=
      follows_caches (printParseErrors_every (@allowsCode_keepsCaches w me).toAllowsWork) stays
    refine printed.bind ?_
    rintro _ _ rfl
    apply reads
    intro ω s
    split
    next =>
      split
      next =>
        split
        next => simp
        next => simp
      next => simp
    next => simp
  next =>
    have evaluated : Follows always alone (tryEval w me) (fun _ known' => known' = known) known :=
      follows_caches (tryEval_every allowsCode_keepsCaches) stays
    refine evaluated.bind ?_
    rintro value _ rfl
    cases value with
    | some value => exact reads _ (by simp)
    | none => exact reads _ (by simp)

/-- Changing a record of the cache. -/
theorem modifyParsedFile_follows {key : Bytes} {record : RApacheParsedFile} {s : Child}
    (change : RApacheParsedFile → RApacheParsedFile) :
    Follows always alone (modifyParsedFile key change)
      (fun _ known => known = HoldsRecord key (change record) s) (HoldsRecord key record s) := by
  apply follows_modify
  intro ω s' holds
  refine ⟨HoldsRecord key (change record) s, ?_, rfl⟩
  constructor
  · simp only [Function.update_self, Child.written, holds.1, Option.map_some]
  · intro other isOther
    simp only [Function.update_of_ne isOther, Child.written]
    exact holds.2 other isOther

/-- Finding the record, and making it if there is none. -/
theorem fileRecord_follows (h : HandlerEntry) (file : Bytes) (s : Child)
    (present : ∀ key, (s.handlers h.key).bind RApacheHandler.parsedFile = some key →
      (s.parsedFiles key).isSome) :
    Follows always alone (fileRecord h file)
      (fun key known => key = s.fileKey h file ∧ known = HoldsRecord key (s.parsedFile key) s)
      (SameCaches s) := by
  apply follows_atomic
  intro ω s' key s'' same acted _
  have handlers : (s'.written ω).handlers = s.handlers := same.1
  have parsedFiles : (s'.written ω).parsedFiles = s.parsedFiles := same.2
  rw [handlers, parsedFiles] at acted
  split at acted
  next => cases acted
  next entry isEntry =>
    split at acted
    next found isFound =>
      cases acted
      have isKey : s.fileKey h file = key := by
        simp [Child.fileKey, isEntry, isFound]
      have isRecord := present key (by simp [isEntry, isFound])
      refine ⟨_, ?_, isKey.symm, rfl⟩
      constructor
      · rw [parsedFiles, Child.parsedFile]
        rcases Option.isSome_iff_exists.mp isRecord with ⟨record, isSome⟩
        rw [isSome]
        rfl
      · intro other _
        rw [parsedFiles]
    next notFound =>
      cases acted
      have isKey : s.fileKey h file = file := by
        simp [Child.fileKey, isEntry, notFound]
      refine ⟨_, ?_, isKey.symm, rfl⟩
      constructor
      · exact Function.update_self ..
      · intro other isOther
        exact Function.update_of_ne isOther ..

/-- In a child `PrepareFileExprs` does to the record of the handler's file what it does to the
record alone. -/
theorem prepareFileExprs_refines (h : HandlerEntry) (file : Bytes) (s s' : Child)
    (result : Option (Bytes × Bool × Nat))
    (present : ∀ key, (s.handlers h.key).bind RApacheHandler.parsedFile = some key →
      (s.parsedFiles key).isSome)
    (returned : Reaches always (prepareFileExprs w me h file) s (.done result) s') :
    Refines (s.fileKey h file) s result s' := by
  have allows : AllowsCode always (fun _ => KeepsCaches) w me := allowsCode_keepsCaches
  have sameStays : ∀ t t', KeepsCaches t t' → SameCaches s t → SameCaches s t' :=
    fun t t' keeps before =>
      ⟨keeps.handlers.trans before.1, keeps.parsedFiles.trans before.2⟩
  have follows : Follows always alone (prepareFileExprs w me h file)
      (fun result known => ∀ t, known t → Refines (s.fileKey h file) s result t)
      (SameCaches s) := by
    refine (follows_caches (aprStat_every allows file) sameStays).bind ?_
    rintro finfo _ rfl
    cases finfo with
    | none =>
        refine (follows_caches (perform_every allows.toAllowsWork rfl) sameStays).bind ?_
        rintro _ _ rfl t same
        constructor
        · nofun
        · intro other _
          rw [same.2]
        · refine ⟨⟨none, .error none, false, .inr 0⟩, fun precious => ⟨precious, ?_⟩⟩
          simp only [FileCache.prepareFileExprs, Child.parsedFile, same.2, Option.map_none]
    | some finfo =>
        rcases finfo with ⟨mtime, versions⟩
        refine (fileRecord_follows h file s present).bind ?_
        rintro key _ ⟨isKey, rfl⟩
        rw [← isKey]
        have older : Follows always alone
            (read fun _ s => decide (((s.parsedFiles key).getD {}).mtime < mtime))
            (fun older known => older = decide ((s.parsedFile key).mtime < mtime) ∧
              known = HoldsRecord key (s.parsedFile key) s)
            (HoldsRecord key (s.parsedFile key) s) := by
          apply follows_atomic
          intro ω t older t' holds acted _
          cases acted
          refine ⟨HoldsRecord key (s.parsedFile key) s, HoldsRecord.stays (written_keepsCaches ω t) holds, ?_, rfl⟩
          rw [← holds.parsedFile]
          rfl
        refine older.bind ?_
        rintro _ _ ⟨rfl, rfl⟩
        by_cases newer : (s.parsedFile key).mtime < mtime
        · simp only [newer, decide_true, if_true]
          refine (parseFile_follows file fun _ _ => HoldsRecord.stays).bind ?_
          rintro ⟨exprs, evalError⟩ _ ⟨rfl, hasValue⟩
          refine (modifyParsedFile_follows _).bind ?_
          rintro _ _ rfl
          cases evalError with
          | true =>
              intro t holds
              constructor
              · nofun
              · exact holds.2
              · refine ⟨⟨some mtime, .error (exprs.map .inl), false, .inr 0⟩, fun precious => ?_⟩
                rw [FileCache.prepareFileExprs_unparsed rfl newer rfl, holds.parsedFile]
                exact ⟨_, rfl⟩
          | false =>
              rcases Option.isSome_iff_exists.mp (hasValue rfl) with ⟨value, rfl⟩
              refine (modifyParsedFile_follows _).bind ?_
              rintro _ _ rfl t holds
              constructor
              · intro prepared isPrepared
                cases isPrepared
                rfl
              · exact holds.2
              · refine ⟨⟨some mtime, .ok (.inl value), false, .inr 0⟩, fun precious => ?_⟩
                simp only [FileCache.prepareFileExprs, RApacheParsedFile.objects, newer, if_true,
                  holds.parsedFile]
                exact ⟨_, rfl⟩
        · simp only [newer, decide_false, Bool.false_eq_true, if_false]
          intro t holds
          constructor
          · intro prepared isPrepared
            cases isPrepared
            rfl
          · exact holds.2
          · refine ⟨⟨some mtime, .error none, false, .inr 0⟩, fun precious => ⟨precious, ?_⟩⟩
            simp only [FileCache.prepareFileExprs, RApacheParsedFile.objects, newer, if_false,
              holds.parsedFile, Option.map_some]
  rcases follows.reaches_alone ⟨rfl, rfl⟩ returned with ⟨known, now, refines⟩
  exact refines s' now

end Code

end RApache
