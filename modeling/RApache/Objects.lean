import RApache.FileCache
import RApache.HandlerExpressions

/-!
# The objects of R that the module holds

The cached records and `MR_Request` point to objects of R.  R reclaims what is neither on its
list of preserved objects, nor protected, nor bound in R, whenever it makes a new object.
Each atomic step here ends where R can make one.
-/

namespace RApache

open Stepwise

/-- An object of R.  `R_NilValue` is never reclaimed. -/
inductive RObject where
  | nilValue
  | object (address : Nat)
  deriving DecidableEq, Repr

/-- The members of `MR_Request` that hold objects, and whether the input has been parsed:
then for `POST` or for `FILES`. -/
structure RequestObjects where
  /-- `MR_Request.r` is set. -/
  active : Bool := false
  postParsed : Option Bool := none
  filesVar : Option RObject := none
  serverVar : Option RObject := none
  deriving DecidableEq, Repr

/-- A call of `R_ReleaseObject` for a member of a cached record; `undoes` says that the object had
been preserved for this member. -/
structure Release where
  member : Member
  object : RObject
  undoes : Bool
  deriving DecidableEq, Repr

/-- `R_ReleaseObject` takes one entry of the object away.  It is that of the member, if there is
one. -/
def releaseOf (member : Member) (object : RObject) (preserved : List (Preserved RObject)) :
    List (Preserved RObject) :=
  if { member, object } ∈ preserved then preserved.erase { member, object }
  else releaseObject object preserved

theorem releaseObject_objects (object : RObject) (preserved : List (Preserved RObject)) :
    (releaseObject object preserved).map Preserved.object =
      (preserved.map Preserved.object).erase object := by
  induction preserved with
  | nil => rfl
  | cons entry preserved ih =>
      simp only [releaseObject] at ih ⊢
      by_cases same : entry.object = object
      · simp [same]
      · simp [same, ih]

/-- For R itself it does not matter for which member an entry was made. -/
theorem releaseOf_objects (member : Member) (object : RObject)
    (preserved : List (Preserved RObject)) :
    ((releaseOf member object preserved).map Preserved.object).Perm
      ((releaseObject object preserved).map Preserved.object) := by
  rw [releaseObject_objects, releaseOf]
  split
  next isEntry =>
    have perm := (List.perm_cons_erase isEntry).map Preserved.object
    have erased := perm.erase object
    rw [List.map_cons, List.erase_cons_head] at erased
    exact erased.symm
  next => rw [releaseObject_objects]

/-! ## The state -/

/-- The objects that the module and R hold.  The last fields record what was done: the member
that is assigned next, whose object was released; the handler whose environment is in use; which
handlers have the environment of a file; what calls have given R of the objects that
`MR_Request` holds; and the calls of `R_ReleaseObject`. -/
structure Objects where
  /-- The objects in the entries of `MR_HandlerCache` and `MR_ParsedFileCache`. -/
  held : Member → Option RObject := fun _ => none
  /-- The record to which an entry of `MR_HandlerCache` points. -/
  parsedFile : Bytes → Option Bytes := fun _ => none
  mtime : Bytes → Int := fun _ => 0
  request : RequestObjects := {}
  preserved : List (Preserved RObject) := []
  protectStack : List RObject := []
  /-- What can be reached from bindings of R. -/
  bound : List RObject := []
  replaced : Option Member := none
  inUse : Option Bytes := none
  shared : Bytes → Bool := fun _ => false
  returned : List RObject := []
  releases : List Release := []

/-- An object that R does not reclaim. -/
def Objects.Reachable (s : Objects) (object : RObject) : Prop :=
  object = .nilValue ∨ (∃ entry ∈ s.preserved, entry.object = object) ∨
    object ∈ s.protectStack ∨ object ∈ s.bound

instance (s : Objects) (object : RObject) : Decidable (s.Reachable object) :=
  inferInstanceAs (Decidable (_ ∨ _))

/-- A later step may use what the member holds: the environment of a handler while a request uses
it, and the others unless they are about to be replaced. -/
def Objects.MayUse (s : Objects) : Member → Prop
  | .envir key => s.inUse = some key
  | member => s.replaced ≠ some member

instance (s : Objects) (member : Member) : Decidable (s.MayUse member) := by
  cases member with
  | envir key => exact inferInstanceAs (Decidable (_ = _))
  | expr key => exact inferInstanceAs (Decidable (_ ≠ _))
  | fileExprs file => exact inferInstanceAs (Decidable (_ ≠ _))
  | fileEnvir file => exact inferInstanceAs (Decidable (_ ≠ _))

/-- What R code does with objects: it binds others than before, asks for the variables, or calls
`RApacheInfo`, which evaluates code. -/
inductive RCode where
  | finish
  | bind (objects : List RObject) (next : RCode)
  | parsePost (returnPost : Bool) (next : RObject → RCode)
  | getServer (next : RObject → RCode)
  | rapacheInfo (execs : RCode) (next : RCode)

/-- What the system and R answer to one step: whether it succeeds, the time stamp of a file, the
object that is made, whether R has read of the input, whether there is a parser for it, whether
it has uploads, and what R code does that is evaluated now. -/
structure ObjectAnswer where
  success : Bool := true
  mtime : Option Int := some 1
  object : RObject := .nilValue
  readStarted : Bool := false
  hasParser : Bool := true
  hasUploads : Bool := false
  code : RCode := .finish

/-- Code of the module, as steps on the objects. -/
abbrev ObjectCode (α : Type) := Program ObjectAnswer Objects α

namespace Objects

/-- A step that only reads. -/
def look {α : Type} (value : ObjectAnswer → Objects → α) : ObjectCode α :=
  Program.atomic fun ω s => some (value ω s, s)

/-- A step that only changes the objects. -/
def change (change : ObjectAnswer → Objects → Objects) : ObjectCode Unit :=
  Program.atomic fun ω s => some ((), change ω s)

/-- The process ends. -/
def exit {α : Type} : ObjectCode α := Program.atomic fun _ _ => none

/-! ## Members -/

/-- `R_ReleaseObject` of what a member holds, if it holds anything.  It is assigned next. -/
def release (member : Member) : ObjectCode Unit :=
  change fun _ s =>
    match s.held member with
    | none => { s with replaced := some member }
    | some object =>
        { s with
          preserved := releaseOf member object s.preserved
          releases :=
            { member, object, undoes := decide ({ member, object } ∈ s.preserved) } :: s.releases
          replaced := some member }

/-- Assign a member. -/
def assign (member : Member) (object : ObjectAnswer → Option RObject) : ObjectCode Unit :=
  change fun ω s =>
    { s with held := Function.update s.held member (object ω), replaced := none }

/-- Assign a member a new object, and `R_PreserveObject` of it. -/
def assignPreserved (member : Member) : ObjectCode Unit :=
  change fun ω s =>
    { s with
      held := Function.update s.held member (some ω.object)
      preserved := preserveObject member ω.object s.preserved
      replaced := none }

/-- `PROTECT`. -/
def protect (objects : Objects → List RObject) : ObjectCode Unit :=
  change fun _ s => { s with protectStack := objects s ++ s.protectStack }

/-- `UNPROTECT`. -/
def unprotect (count : Nat) : ObjectCode Unit :=
  change fun _ s => { s with protectStack := s.protectStack.drop count }

/-! ## Calls of R code -/

/-- A `.Call` returns a new object or `R_NilValue`.  R has the value then. -/
def returnNew (value : ObjectAnswer → RObject) : ObjectCode RObject :=
  Program.atomic fun ω s => some (value ω, { s with bound := value ω :: s.bound })

/-- `UNPROTECT`, and a `.Call` returns what `MR_Request` holds. -/
def returnHeld (count : Nat) (held : RequestObjects → Option RObject) : ObjectCode RObject :=
  Program.atomic fun _ s =>
    let value := (held s.request).getD .nilValue
    some (value,
      { s with
        protectStack := s.protectStack.drop count
        bound := value :: s.bound
        returned := value :: s.returned })

/-- What `parsePost` finds. -/
inductive PostInput where
  | ignored
  | parsed
  | noParser
  | unparsed
  deriving DecidableEq, Repr

/-- `MR_Request.filesVar = R_NilValue`. -/
def noFiles : ObjectCode Unit :=
  change fun _ s => { s with request := { s.request with filesVar := some .nilValue } }

/-- `AprTableToList(MR_Request.postTable, ...)`, which makes a new list, or
`MR_Request.filesVar`. -/
def returnList (returnPost : Bool) (count : Nat) : ObjectCode RObject :=
  if returnPost then do
    unprotect count
    returnNew fun ω => ω.object
  else returnHeld count RequestObjects.filesVar

/-- Make the list of the uploads. -/
def makeFiles : ObjectCode Unit := do
  change fun ω s =>
    { s with
      request := { s.request with filesVar := some ω.object }
      protectStack := ω.object :: s.protectStack }
  change fun ω s => { s with protectStack := ω.object :: s.protectStack }

/-- `parsePost`. -/
def parsePost (returnPost : Bool) : ObjectCode RObject := do
  match ← look fun ω s =>
      if !s.request.active || ω.readStarted then PostInput.ignored
      else if s.request.postParsed.isSome then .parsed
      else if ω.hasParser then .unparsed
      else .noParser with
  | .ignored => returnNew fun _ => .nilValue
  | .parsed => returnList returnPost 0
  | .noParser =>
      noFiles
      returnNew fun _ => .nilValue
  | .unparsed =>
      change fun _ s => { s with request := { s.request with postParsed := some returnPost } }
      if ← look fun ω _ => ω.hasUploads then
        makeFiles
        returnList returnPost 2
      else
        noFiles
        returnList returnPost 0

/-- `RApache_getServer`. -/
def getServer : ObjectCode RObject := do
  if ← look fun _ s => s.request.active then
    if ← look fun _ s => s.request.serverVar.isSome then
      returnHeld 0 RequestObjects.serverVar
    else
      change fun ω s =>
        { s with
          request := { s.request with serverVar := some ω.object }
          protectStack := ω.object :: s.protectStack }
      change fun ω s => { s with protectStack := ω.object :: s.protectStack }
      returnHeld 2 RequestObjects.serverVar
  else returnNew fun _ => .nilValue

/-- `bzero(&MR_Request, ...)`. -/
def clearRequest : ObjectCode Unit := change fun _ s => { s with request := {}, returned := [] }

/-- R code that behaves like this.  If an evaluation of `RApacheInfo` fails, it tears the request
down. -/
def runCode : RCode → ObjectCode Unit
  | .finish => pure ()
  | .bind objects next => do
      change fun _ s => { s with bound := objects }
      runCode next
  | .parsePost returnPost next => do
      let value ← parsePost returnPost
      runCode (next value)
  | .getServer next => do
      let value ← getServer
      runCode (next value)
  | .rapacheInfo execs next => do
      runCode execs
      if ← look fun ω _ => ω.success then pure ()
      else clearRequest
      runCode next

/-- R code about which nothing is known; it may succeed. -/
def evaluate : ObjectCode Bool := do
  let code ← look fun ω _ => ω.code
  runCode code
  look fun ω _ => ω.success

/-- `EvalExprs`: whether there was no error. -/
def evalExprs (exprs envir : Member) : ObjectCode Bool := do
  if ← look fun _ s => (s.held exprs).isSome then
    protect fun s => [(s.held envir).getD .nilValue, (s.held exprs).getD .nilValue]
    let success ← evaluate
    unprotect 2
    pure success
  else exit

/-! ## The handler -/

/-- `NewEnv` for a member, and `R_PreserveObject` of it. -/
def newEnv (member : Member) : ObjectCode Unit := do
  release member
  assignPreserved member

/-- The record of the handler's file. -/
def fileRecord (key file : Bytes) : ObjectCode Bytes :=
  Program.atomic fun _ s =>
    match s.parsedFile key with
    | some file => some (file, s)
    | none => some (file, { s with parsedFile := Function.update s.parsedFile key (some file) })

/-- `PrepareFileExprs`: nothing if it fails, else the record and whether the file was parsed. -/
def prepareFileExprs (w : World) (key file : Bytes) : ObjectCode (Option (Bytes × Bool)) := do
  match ← look fun ω _ => ω.mtime with
  | none => pure none
  | some mtime =>
      let record ← fileRecord key file
      if ← look fun _ s => decide (s.mtime record < mtime) then
        release (.fileExprs record)
        if (w.parse (callFun1strText (bytes "parse") file)).isSome then
          if ← evaluate then
            assignPreserved (.fileExprs record)
            change fun _ s => { s with mtime := Function.update s.mtime record mtime }
            pure (some (record, true))
          else
            assign (.fileExprs record) fun _ => none
            pure none
        else
          assign (.fileExprs record) fun _ => some .nilValue
          pure none
      else pure (some (record, false))

/-- `h->expr = ParseText(text, ...)` for the request's script. -/
def parseScript (w : World) (key text : Bytes) : ObjectCode Unit := do
  release (.expr key)
  assign (.expr key) fun ω => (w.parse text).map fun _ => ω.object

/-- Build the expression of a handler, if there is none. -/
def buildExpr (w : World) (key : Bytes) (d : RApacheDirective) : ObjectCode Bool := do
  if ← look fun _ s => (s.held (.expr key)).isSome then pure true
  else
    if d.function.isSome ∧ d.package = none ∧ d.file.isSome then
      if ← evaluate then build
      else pure false
    else build
where
  build : ObjectCode Bool :=
    match directiveText d with
    | none => pure false
    | some text =>
        match w.parse text with
        | some _ => do
            assignPreserved (.expr key)
            pure true
        | none => do
            assign (.expr key) fun _ => none
            pure false

/-- `PrepareHandlerExpr`. -/
def prepareHandlerExpr (w : World) (key : Bytes) (d : RApacheDirective) (r : RequestRec)
    (type : RApacheHandlerType) : ObjectCode Bool := do
  if type = .script then
    match requestText r with
    | some text => parseScript w key text
    | none => exit
  buildExpr w key d

/-- `TearDownRequest`, with the code that it evaluates. -/
def tearDownRequest : ObjectCode Unit := do
  let _ ← evaluate
  clearRequest
  change fun _ s => { s with inUse := none }

/-- `PrintTraceback` and `RApacheResponseError`. -/
def fail : ObjectCode Unit := do
  let _ ← evaluate
  tearDownRequest

/-- Evaluate the handler's own expression, if the directive has one. -/
def runExpr (w : World) (key : Bytes) (d : RApacheDirective) (r : RequestRec)
    (type : RApacheHandlerType) : ObjectCode Unit := do
  if d.function.isSome ∨ d.evalcode.isSome then
    if ← prepareHandlerExpr w key d r type then
      if ← evalExprs (.expr key) (.envir key) then tearDownRequest
      else fail
    else tearDownRequest
  else tearDownRequest

/-- `h->envir = h->parsedFile->envir`. -/
def setEnvir (key record : Bytes) : ObjectCode Unit :=
  change fun _ s =>
    { s with
      held := Function.update s.held (.envir key) (s.held (.fileEnvir record))
      inUse := some key
      shared := Function.update s.shared key true }

/-- The part of the handler behind `RefreshRApacheEnv`. -/
def runHandler (w : World) (key : Bytes) (d : RApacheDirective) (r : RequestRec)
    (type : RApacheHandlerType) : ObjectCode Unit := do
  match d.file with
  | none =>
      newEnv (.envir key)
      change fun _ s =>
        { s with inUse := some key, shared := Function.update s.shared key false }
      runExpr w key d r type
  | some file =>
      if ← look fun ω _ => ω.success then
        match ← prepareFileExprs w key file with
        | none => tearDownRequest
        | some (record, fileParsed) =>
            if fileParsed ∨ d.function = none ∧ d.evalcode = none then
              newEnv (.fileEnvir record)
              if ← evalExprs (.fileExprs record) (.fileEnvir record) then
                setEnvir key record
                runExpr w key d r type
              else fail
            else
              setEnvir key record
              runExpr w key d r type
      else tearDownRequest

/-- `AP_hook_request_handler`. -/
def apHookRequestHandler (w : World) (r : RequestRec) : ObjectCode Unit := do
  match handlerType r.handler with
  | none => pure ()
  | some type =>
      if ← look fun ω _ => ω.success then
        change fun _ s => { s with request := { s.request with active := true } }
        if type = .info then fail
        else
          match r.perDirConfig, r.handlerKey with
          | some d, some key =>
              if d.file = none ∧ d.function = none ∧ d.evalcode = none then tearDownRequest
              else
                if ← evaluate then runHandler w key d r type
                else exit
          | _, _ => tearDownRequest
      else pure ()

/-- Requests, one after the other. -/
def serve (w : World) : List RequestRec → ObjectCode Unit
  | [] => pure ()
  | r :: requests => do
      apHookRequestHandler w r
      serve w requests

end Objects

end RApache
