import RApache.Child

/-!
# The request handler

`AP_hook_request_handler` and the functions it calls, as sequences of atomic steps.
-/

namespace RApache

open Stepwise

/-- The ways in which the handler serves a request. -/
inductive RApacheHandlerType where
  | handler
  | script
  | info
  deriving DecidableEq, Repr

/-- The handler type for a handler name; any other name is declined. -/
def handlerType (name : Bytes) : Option RApacheHandlerType :=
  if name = bytes "r-handler" then some .handler
  else if name = bytes "r-script" then some .script
  else if name = bytes "r-info" then some .info
  else none

/-- `HTTP_INTERNAL_SERVER_ERROR`. -/
def httpInternalServerError : Int := 500

/-- `OK`. -/
def statusOk : Int := 0

/-- `DECLINED`. -/
def declined : Int := -1

/-- `DONE`. -/
def statusDone : Int := -2

/-- What `AP_hook_request_handler` returns, and what it assigns to `r->status`. -/
structure Response where
  result : Int
  status : Option Int := none
  deriving DecidableEq, Repr

/-- The cache entry of a request's handler: its key, and the directive that it now points
to. -/
structure HandlerEntry where
  key : Bytes
  directive : RApacheDirective
  deriving DecidableEq, Repr

namespace Code

variable (w : World) (me : Owner)

/-! ## Errors of R -/

/-- R prints errors on the console. -/
def printErrors : List Bytes → Code Unit
  | [] => pure ()
  | error :: errors => do
      let _ ← perform w (.call (.writeConsole error true))
      printErrors errors

/-- What `R_tryEval` of a call of `parse` prints. -/
def printParseErrors : Code Unit := do
  let errors ← read fun ω _ => ω.errors
  printErrors w errors

/-! ## Working directory -/

/-- `apr_filepath_get` into `MR_Request.oldwd`. -/
def apFilepathGet : Code Bool :=
  atomic fun ω s =>
    if ω.success then some (true, { s with oldwd := some s.cwd }) else some (false, s)

/-- `apr_filepath_set`, which fails for a `NULL` path. -/
def aprFilepathSet (path : Option Bytes) : Code Bool :=
  atomic fun ω s =>
    match path with
    | some dir =>
        if ω.success then some (true, { s with cwd := resolve s.cwd dir })
        else some (false, s)
    | none => some (false, s)

/-! ## `TearDownRequest` -/

/-- The working directory after `apr_filepath_set(MR_Request.oldwd, ...)`, which is only
called if the member is set. -/
def restoredDirectory (ω : Answer) (s : Child) : Bytes :=
  match s.oldwd with
  | some dir => if ω.success then resolve s.cwd dir else s.cwd
  | none => s.cwd

/-- Change to `MR_Request.oldwd`. -/
def restoreDirectory : Code Unit :=
  atomic fun ω s =>
    some ((),
      { s with
        cwd := restoredDirectory ω s
        lockEvents := .tornDown me s.session.request.r :: s.lockEvents })

/-- `bzero(&MR_Request, ...)`. -/
def clearRequest : Code Unit :=
  modify fun s =>
    { s with
      session := (s.session.perform w.fuel .clear).2
      oldwd := none
      lockEvents := .cleared me s.session.request.r :: s.lockEvents
      trace := s.trace.map fun trace =>
        { trace with steps := trace.steps ++ [(.clear, .null)] }
      log := s.log ++ [{ before := s.session, op := .clear, value := .null }] }

/-- `apr_thread_mutex_unlock`, if there is a mutex.  Whoever calls it, the mutex is free
behind it. -/
def unlock : Code Unit :=
  modify fun s =>
    match s.mutex with
    | none => { s with lockEvents := .left me false none :: s.lockEvents }
    | some holder =>
        { s with mutex := some none, lockEvents := .left me true holder :: s.lockEvents }

/-- `ParseEval(".Internal(clearPushBack(stdin()))", ...)`, which is only called once R code
has started to read. -/
def clearPushBack : Code Unit := do
  let errors ← read fun ω s =>
    if s.session.bbIn.isSome ∧ s.session.request.readStarted then ω.errors else []
  printErrors w errors

/-- `TearDownRequest`. -/
def tearDownRequest (flush : Bool) : Code Unit := do
  restoreDirectory me
  clearPushBack w
  let _ ← perform w .cleanReading
  let _ ← perform w (.cleanWriting flush)
  let _ ← perform w .logErrors
  clearRequest w me
  unlock me

/-- `RApacheResponseError`. -/
def rApacheResponseError (msg : Option Bytes) : Code Int := do
  match msg with
  | some msg => let _ ← perform w (.error msg)
  | none => pure ()
  tearDownRequest w me false
  pure httpInternalServerError

/-! ## `RApacheInfo` and R code -/

/-- What `RApacheInfo` does, in order: put a text out, or evaluate code. -/
inductive InfoItem where
  | puts
  | exec
  deriving DecidableEq, Repr

/-- The body of `RApacheInfo`: helper functions, the head of the page, links, tables, the
two lists of packages and the foot. -/
def infoPage : List InfoItem :=
  List.replicate 6 .exec ++
  List.replicate 32 .puts ++
  (List.replicate 9 [.puts, .exec, .puts]).flatten ++
  List.replicate 5 .puts ++
  (List.replicate 9 [.exec, .puts]).flatten ++
  [.puts, .exec, .puts, .exec] ++
  List.replicate 29 .puts

/-- What the macro `EXEC` does when the evaluation fails. -/
def execFailure : Code Int := do
  modify fun s => { s with lockEvents := .execFailed me :: s.lockEvents }
  rApacheResponseError w me none

/-- The rest of `RApacheInfo` after `texts` texts and `codes` evaluations. -/
def rApacheInfoItems (exec : Nat → Code (Option RResult)) :
    (texts codes : Nat) → List InfoItem → Code Int
  | _, _, [] => pure statusDone
  | texts, codes, .puts :: items => do
      let _ ← perform w (.puts (w.infoText texts))
      rApacheInfoItems exec (texts + 1) codes items
  | texts, codes, .exec :: items => do
      match ← exec codes with
      | some _ => rApacheInfoItems exec texts (codes + 1) items
      | none => execFailure w me

/-- `RApacheInfo`. -/
def rApacheInfo (exec : Nat → Code (Option RResult)) : Code Int := do
  let _ ← perform w (.contentType (bytes "text/html"))
  rApacheInfoItems w me exec 0 0 infoPage

/-- `R_tryEval` of code that behaves like this.  `RApache_RApacheInfo` does nothing
without a request. -/
def runCode : RBehaviour → Code (Option RResult)
  | .finish value => pure value
  | .call call next => do
      let value ← perform w (.call call)
      runCode (next value)
  | .setwd dir next => do
      let changed ← aprFilepathSet (some dir)
      runCode (next changed)
  | .rapacheInfo execs next => do
      if ← read fun _ s => s.session.request.r.isSome then
        let _ ← rApacheInfo w me fun code => runCode (execs code)
      runCode next

/-- `R_tryEval` of code about which nothing is known. -/
def tryEval : Code (Option RResult) := do
  let behaviour ← read fun ω _ => ω.behaviour
  runCode w me behaviour

/-- `PrintTraceback`: R code whose console output goes to the errors. -/
def printTraceback : Code Unit := do
  let _ ← perform w (.setWriter .writeConsoleErrorOnly)
  let _ ← tryEval w me
  let _ ← perform w (.setWriter .writeConsoleEx)

/-! ## `EvalExprs` -/

/-- `R_tryEval` of an expression in an environment.  A success is recorded for the
environment, and so is a failure in a file.  For a `NULL` pointer R evaluates the
expression in the global environment. -/
def evalExpr (source : CodeSource) (expr : RExpr) (env : Option EnvId) :
    Code (Option RResult) :=
  match env with
  | none => do
      useNull .envir
      tryEval w me
  | some env => do
      match ← tryEval w me with
      | some value =>
          modify fun s =>
            { s with
              evaluated :=
                Function.update s.evaluated env (s.evaluated env ++ [(source, expr)]) }
          pure (some value)
      | none =>
          if source = .file then
            modify fun s => { s with failed := Function.update s.failed env true }
          pure none

/-- The loop of `EvalExprs`: the last value, or nothing if an expression fails. -/
def evalLoop (source : CodeSource) (env : Option EnvId) :
    (lastval : RResult) → List RExpr → Code (Option RResult)
  | lastval, [] => pure (some lastval)
  | _, expr :: exprs => do
      match ← evalExpr w me source expr env with
      | some value => evalLoop source env value exprs
      | none => pure none

/-- `EvalExprs`: the value, and the flag `evalError`, which stays as it is when there is
nothing to evaluate.  `isLanguage` holds of `R_NilValue`, and ends the process for a
`NULL` pointer. -/
def evalExprs (source : CodeSource) (exprs : Option RExprs) (env : Option EnvId)
    (evalError : Bool) : Code (RResult × Bool) := do
  match exprs with
  | none => readNull .exprs
  | some .nilValue => pure (.other, false)
  | some .other => pure (.other, evalError)
  | some (.vector []) => pure (.other, evalError)
  | some exprs =>
      match ← evalLoop w me source env .other exprs.elements with
      | some value => pure (value, false)
      | none => pure (.other, true)

/-! ## `PrepareFileExprs` -/

/-- `apr_stat`: the time stamp of a file, and the number of its versions so far. -/
def aprStat (file : Bytes) : Code (Option (Int × Nat)) :=
  read fun ω s =>
    match s.versions file with
    | version :: earlier => if ω.success then some (version.mtime, earlier.length) else none
    | [] => none

/-- The record of the handler's file: the one that the entry points to already, or that
of the directive's file. -/
def fileRecord (h : HandlerEntry) (file : Bytes) : Code Bytes :=
  atomic fun _ s =>
    match s.handlers h.key with
    | none => none
    | some entry =>
        match entry.parsedFile with
        | some key => some (key, s)
        | none =>
            let parsedFile := (s.parsedFiles file).getD {}
            some (file,
              { s with
                parsedFiles := Function.update s.parsedFiles file (some parsedFile)
                handlers := Function.update s.handlers h.key
                  (some { entry with parsedFile := some file }) })

/-- Change a record of `MR_ParsedFileCache`. -/
def modifyParsedFile (key : Bytes) (change : RApacheParsedFile → RApacheParsedFile) :
    Code Unit :=
  modify fun s =>
    { s with parsedFiles := Function.update s.parsedFiles key ((s.parsedFiles key).map change) }

/-- Change an entry of `MR_HandlerCache`. -/
def modifyHandler (key : Bytes) (change : RApacheHandler → RApacheHandler) : Code Unit :=
  modify fun s =>
    { s with handlers := Function.update s.handlers key ((s.handlers key).map change) }

/-- `CallFun1str("parse", file, ...)`: the value and the flag `evalError`.  The text is the
call that is meant if the name is plain, and then R parses the file as it is now; else it
is any code. -/
def parseFile (file : Bytes) : Code (Option RExprs × Bool) := do
  if PlainName file then
    printParseErrors w
    read fun ω s =>
      match s.versions file with
      | version :: _ =>
          match w.parse version.content with
          | some exprs => if ω.success then (some (.vector exprs), false) else (none, true)
          | none => (none, true)
      | [] => (none, true)
  else
    match ← tryEval w me with
    | some _ => read fun ω _ => (some (ω.exprs.getD .nilValue), false)
    | none => read fun ω _ => (if ω.found then none else some .nilValue, true)

/-- `PrepareFileExprs`: whether it succeeds, and then the record, whether the file was
parsed, and the number of versions at `apr_stat`. -/
def prepareFileExprs (h : HandlerEntry) (file : Bytes) : Code (Option (Bytes × Bool × Nat)) := do
  match ← aprStat file with
  | none =>
      let _ ← perform w (.error (sprintf
        (bytes "From RApache Directive: %s\n\tInvalid file (apr_stat): %s\n") [h.key, file]))
      pure none
  | some (mtime, versions) =>
      let key ← fileRecord h file
      if ← read fun _ s => decide (((s.parsedFiles key).getD {}).mtime < mtime) then
        let (exprs, evalError) ← parseFile w me file
        modifyParsedFile key fun parsedFile => { parsedFile with exprs }
        if evalError then pure none
        else
          modifyParsedFile key fun parsedFile => { parsedFile with mtime }
          pure (some (key, true, versions))
      else pure (some (key, false, versions))

/-! ## `PrepareHandlerExpr` -/

/-- `MyfindFun`: looking a function up may evaluate a promise. -/
def myfindFun (env : Option EnvId) : Code Bool :=
  match env with
  | none => pure false
  | some _ => do
      let _ ← tryEval w me
      read fun ω _ => ω.found

/-- The text of the expression that is built if there is none yet.  Without a package the
function has to be found in the file. -/
def handlerText (h : HandlerEntry) (env : Option EnvId) : Code (Option Bytes) := do
  match h.directive.function, h.directive.evalcode with
  | some function, _ =>
      match h.directive.package, h.directive.file with
      | none, some file =>
          if ← myfindFun w me env then pure (some (functionText none function))
          else
            let _ ← perform w (.errorInPool (sprintf
              (bytes "Cannot find function '%s' in file '%s'\n") [function, file]))
            pure none
      | package, _ => pure (some (functionText package function))
  | none, evalcode => pure evalcode

/-- The part of `PrepareHandlerExpr` for r-script requests.  It parses the call with the
request's file, defines variables in the environment and changes the directory. -/
def prepareScript (h : HandlerEntry) (r : RequestRec) (env : Option EnvId) : Code Unit := do
  match h.directive.function, r.filename, env with
  | some function, some filename, some _ =>
      let text := scriptText h.directive.package function filename
      printParseErrors w
      modifyHandler h.key fun entry => { entry with expr := (w.parse text).map .vector }
      let uninitialised ← read fun ω _ => ω.uninitialised
      let _ ← aprFilepathSet (dirname uninitialised filename)
  | some function, some filename, none =>
      let text := scriptText h.directive.package function filename
      printParseErrors w
      modifyHandler h.key fun entry => { entry with expr := (w.parse text).map .vector }
      readNull .envir
  | some _, none, _ => readNull .filename
  | none, _, _ => readNull .function

/-- `PrepareHandlerExpr`. -/
def prepareHandlerExpr (h : HandlerEntry) (r : RequestRec) (type : RApacheHandlerType)
    (env : Option EnvId) : Code Bool := do
  if type = .script then prepareScript w h r env
  if ← read fun _ s => (((s.handlers h.key).getD {}).expr).isSome then pure true
  else
    match ← handlerText w me h env with
    | none => pure false
    | some text =>
        printParseErrors w
        modifyHandler h.key fun entry => { entry with expr := (w.parse text).map .vector }
        pure (w.parse text).isSome

/-! ## `SetUpRequest` -/

/-- `apr_thread_mutex_lock`, if there is a mutex. -/
def lock : Code Bool :=
  atomic fun ω s =>
    match s.mutex with
    | none => some (true, { s with lockEvents := .entered me false :: s.lockEvents })
    | some none =>
        if ω.success then
          some (true,
            { s with
              mutex := some (some me.worker)
              lockEvents := .entered me true :: s.lockEvents })
        else some (false, s)
    | some (some _) => none

/-- `MR_Request.r = r`, `MR_BBin = NULL`. -/
def setRequest (r : RequestRec) : Code Unit :=
  modify fun s =>
    { s with
      session := s.session.setRequest r
      lockEvents := .working me r :: s.lockEvents
      trace := none }

/-- `MR_BBout = apr_brigade_create(...)`, which may fail. -/
def createOut : Code Bool :=
  atomic fun ω s =>
    if ω.success then some (true, { s with session := s.session.createOut })
    else some (false, { s with session := { s.session with bbOut := none } })

/-- Make the entry of a key in `MR_HandlerCache`, if there is none yet. -/
def createHandler (key : Bytes) : Code Unit :=
  modify fun s =>
    { s with handlers := Function.update s.handlers key (some ((s.handlers key).getD {})) }

/-- `GetHandlerFromRequest`. -/
def getHandlerFromRequest (r : RequestRec) : Code (Option HandlerEntry) := do
  match r.perDirConfig, r.perDirConfig.bind (·.handlerKey) with
  | some d, some key =>
      createHandler key
      if d.file = none ∧ d.function = none ∧ d.evalcode = none then
        let _ ← perform w (.contentType (bytes "text/html"))
        let _ ← perform w (.error (sprintf (bytes "Invalid RApache Directive: %s") [key]))
        pure none
      else
        modifyHandler key fun entry => { entry with directive := some d }
        pure (some { key, directive := d })
  | _, _ =>
      let _ ← perform w (.contentType (bytes "text/html"))
      let _ ← perform w (.error
        (sprintf (bytes "No RApache Directive specified for 'SetHandler %s'") [r.handler]))
      pure none

/-- `MR_Request.handler = ...`. -/
def setHandler (h : Option HandlerEntry) : Code Unit :=
  modify fun s =>
    { s with session := s.session.setHandler (h.map HandlerEntry.directive) }

/-- The part of `SetUpRequest` that makes the output brigade and finds the handler. -/
def setUpHandler (r : RequestRec) (type : RApacheHandlerType) :
    Code (Option (Option HandlerEntry)) := do
  if ← createOut then
    if type = .info then pure (some none)
    else
      let h ← getHandlerFromRequest w r
      setHandler h
      match h with
      | some h => pure (some (some h))
      | none =>
          tearDownRequest w me false
          pure none
  else
    let _ ← perform w (.error (bytes "RApache MR_BBout error!"))
    tearDownRequest w me false
    pure none

/-- `SetUpRequest`: nothing if it fails, else the handler of a request that is not
r-info. -/
def setUpRequest (r : RequestRec) (type : RApacheHandlerType) :
    Code (Option (Option HandlerEntry)) := do
  if ← lock me then
    setRequest me r
    setUpHandler w me r type
  else pure none

/-- `RefreshRApacheEnv`; the process ends if `.ResetCGIVars` fails. -/
def refreshRApacheEnv (r : RequestRec) (h : HandlerEntry) : Code Unit :=
  atomic fun ω s =>
    if ω.success then
      some ((),
        { s with
          session := s.session.resetCgiVars
          trace := some { r, directive := h.directive, steps := [] } })
    else none

/-! ## `AP_hook_request_handler` -/

/-- `NewEnv` for a file. -/
def newFileEnv (key : Bytes) : Code Unit :=
  modify fun s =>
    { s with
      parsedFiles := Function.update s.parsedFiles key
        ((s.parsedFiles key).map fun parsedFile =>
          { parsedFile with envir := some s.nextEnv })
      nextEnv := s.nextEnv + 1 }

/-- `NewEnv` for a handler without a file. -/
def newHandlerEnv (key : Bytes) : Code Unit :=
  modify fun s =>
    { s with
      handlers := Function.update s.handlers key
        ((s.handlers key).map fun entry => { entry with envir := some s.nextEnv })
      nextEnv := s.nextEnv + 1 }

/-- Evaluate the expressions of a file in its new environment. -/
def evalFile (r : RequestRec) (file key : Bytes) (versions : Nat) : Code (RResult × Bool) := do
  newFileEnv key
  let parsedFile ← read fun _ s => (s.parsedFiles key).getD {}
  let (ret, evalError) ← evalExprs w me .file parsedFile.exprs parsedFile.envir true
  if !evalError then
    modify fun s =>
      { s with
        fileEvaluations :=
          { r, file, exprs := parsedFile.exprs
            since := (s.versions file).take ((s.versions file).length - versions) } ::
          s.fileEvaluations }
  pure (ret, evalError)

/-- The part of the handler that prepares the environment: either the handler's answer
is settled, or there are the value and the flag `evalError` so far. -/
def prepareEnvironment (h : HandlerEntry) (r : RequestRec) :
    Code (Except Int (RResult × Bool)) := do
  match h.directive.file with
  | none =>
      newHandlerEnv h.key
      pure (.ok (.other, true))
  | some file =>
      if ← aprFilepathSet h.directive.dirname then
        match ← prepareFileExprs w me h file with
        | none => .error <$> rApacheResponseError w me none
        | some (key, fileParsed, versions) =>
            if fileParsed ∨ h.directive.function = none ∧ h.directive.evalcode = none then
              let (ret, evalError) ← evalFile w me r file key versions
              if evalError then
                printTraceback w me
                .error <$> rApacheResponseError w me none
              else
                setEnvir key
                pure (.ok (ret, false))
            else
              setEnvir key
              pure (.ok (.other, true))
      else .error <$> rApacheResponseError w me none
where
  /-- `h->envir = h->parsedFile->envir`. -/
  setEnvir (key : Bytes) : Code Unit :=
    modify fun s =>
      { s with
        handlers := Function.update s.handlers h.key
          ((s.handlers h.key).map fun entry =>
            { entry with envir := ((s.parsedFiles key).getD {}).envir }) }

/-- Evaluate the handler's own expression, which is recorded before. -/
def evalHandler (h : HandlerEntry) (r : RequestRec) (evalError : Bool) :
    Code (RResult × Bool) := do
  let entry ← atomic fun _ s =>
    let entry := (s.handlers h.key).getD {}
    let parsedFile := (entry.parsedFile.bind s.parsedFiles).getD {}
    some (entry,
      { s with
        handlerEvaluations :=
          { r, directive := h.directive, expr := entry.expr, exprs := parsedFile.exprs
            evaluated := s.fileExprs entry.envir
            failed := (entry.envir.map s.failed).getD false } ::
          s.handlerEvaluations })
  evalExprs w me .handler entry.expr entry.envir evalError

/-- The handler's answer to the value of its code. -/
def respond (h : HandlerEntry) (ret : RResult) : Code Response := do
  match ret with
  | .integer result =>
      tearDownRequest w me true
      pure { result, status := if result ≠ statusOk then some result else none }
  | .tryError =>
      let function := h.directive.function.getD (bytes "(null)")
      let result ← rApacheResponseError w me (some (sprintf
        (bytes "Function %s returned an object of 'try-error'.\n") [function]))
      pure { result }
  | .other =>
      tearDownRequest w me true
      pure { result := statusDone }

/-- The part of the handler behind `RefreshRApacheEnv`. -/
def runHandler (h : HandlerEntry) (r : RequestRec) (type : RApacheHandlerType) :
    Code Response := do
  match ← prepareEnvironment w me h r with
  | .error result => pure { result }
  | .ok (ret, evalError) =>
      if h.directive.function.isSome ∨ h.directive.evalcode.isSome then
        let envir ← read fun _ s => ((s.handlers h.key).getD {}).envir
        if ← prepareHandlerExpr w me h r type envir then
          let (ret, evalError) ← evalHandler w me h r evalError
          if evalError then
            printTraceback w me
            let result ← rApacheResponseError w me none
            pure { result }
          else respond w me h ret
        else
          let result ← rApacheResponseError w me none
          pure { result }
      else respond w me h ret

/-- The part of the handler for r-info requests. -/
def runInfo : Code Response := do
  let result ← rApacheInfo w me fun _ => tryEval w me
  tearDownRequest w me true
  pure { result }

/-- `AP_hook_request_handler`. -/
def apHookRequestHandler (r : RequestRec) : Code Response := do
  if ← apFilepathGet then
    match handlerType r.handler with
    | none => pure { result := declined }
    | some type =>
        match ← setUpRequest w me r type with
        | none => pure { result := httpInternalServerError }
        | some none => runInfo w me
        | some (some h) =>
            refreshRApacheEnv r h
            runHandler w me h r type
  else pure { result := httpInternalServerError }

end Code

/-- A worker serves requests one after the other, from the given number on. -/
def Code.serve (w : World) (worker : Nat) : (number : Nat) → List RequestRec → Code Unit
  | _, [] => pure ()
  | number, r :: requests => do
      let me : Owner := { worker, number }
      let _ ← apHookRequestHandler w me r
      modify fun s => { s with lockEvents := .returned me :: s.lockEvents }
      serve w worker (number + 1) requests

end RApache
