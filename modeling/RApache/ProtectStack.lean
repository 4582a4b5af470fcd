import RApache.Handler
import RApache.Params

/-!
# R's protection stack

The functions that make objects of R put them on R's protection stack and take them off again.
They are modelled here as steps on the depth of the stack.  `R_tryEval` leaves the stack as deep as
it finds it, so that an evaluation is one step.
-/

namespace RApache

open Stepwise

/-- A pointer to an object of R. -/
inductive RPointer where
  | null
  | nilValue
  | object
  deriving DecidableEq, Repr

/-- What a symbol is bound to. -/
inductive RBinding where
  | function
  | promise
  | other
  deriving DecidableEq, Repr

/-- The depth of R's protection stack, and the texts that `ParseEval` was given and R could not
parse. -/
structure StackState where
  depth : Nat := 0
  unparsed : List Bytes := []
  deriving DecidableEq, Repr

/-- What R and the system answer to one step: what `parse` gives, if there is no error; the value
of an evaluation, if there is no error; what a symbol is bound to; the cached expressions; whether
a call succeeds or a condition on the state of the module holds. -/
structure StackAnswer where
  exprs : Option RExprs := some (.vector [])
  value : Option RResult := some .other
  binding : RBinding := .function
  cached : Option RExprs := some (.vector [])
  success : Bool := true

/-- Code of the module, as steps on the protection stack. -/
abbrev StackCode (α : Type) := Program StackAnswer StackState α

namespace ProtectStack

/-- An answer of R or of the system. -/
def answer {α : Type} (value : StackAnswer → α) : StackCode α :=
  Program.atomic fun ω s => some (value ω, s)

/-- The process ends. -/
def exit {α : Type} : StackCode α := Program.atomic fun _ _ => none

/-- `PROTECT`. -/
def protect : StackCode Unit :=
  Program.atomic fun _ s => some ((), { s with depth := s.depth + 1 })

/-- `UNPROTECT`. -/
def unprotect (count : Nat) : StackCode Unit :=
  Program.atomic fun _ s => some ((), { s with depth := s.depth - count })

/-- Note that `ParseEval` was given this text, which R could not parse. -/
def noteUnparsed (text : Bytes) : StackCode Unit :=
  Program.atomic fun _ s => some ((), { s with unparsed := s.unparsed ++ [text] })

/-- `R_tryEval`: the value, or nothing in case of an error. -/
def rTryEval (_expr : RExpr) (_env : RPointer) : StackCode (Option RResult) := answer (·.value)

/-! ## Making objects -/

/-- `NewLogical`. -/
def newLogical (tf : Bool) : StackCode RValue := do
  protect
  unprotect 1
  pure (.logical tf)

/-- `NewInteger`. -/
def newInteger (i : Int) : StackCode RValue := do
  protect
  unprotect 1
  pure (.integer i)

/-- `NewEnv`: whether R has made one. -/
def newEnv (_enclos : RPointer) : StackCode Bool := do
  let _ ← newLogical true
  protect
  protect
  let env ← rTryEval ⟨bytes "new.env(TRUE, enclos)"⟩ .object
  unprotect 2
  pure env.isSome

/-! ## Parsing and evaluating -/

/-- `ParseText`: the expressions, or nothing in case of an error.  `parseError` points to a flag or
is `NULL`. -/
def parseText (_text : Bytes) (parseError : Option Bool) : StackCode (Option RExprs) := do
  match parseError with
  | none => exit
  | some _ =>
      protect
      let val ← answer (·.exprs)
      unprotect 1
      pure val

/-- The loop of `EvalExprs`. -/
def evalLoop (env : RPointer) : (lastval : RResult) → List RExpr → StackCode (RResult × Bool)
  | lastval, [] => pure (lastval, false)
  | _, expr :: exprs => do
      match ← rTryEval expr env with
      | some value => evalLoop env value exprs
      | none => pure (.other, true)

/-- The part of `EvalExprs` between `PROTECT` and `UNPROTECT`.  `isLanguage` holds of `R_NilValue`,
and ends the process for a `NULL` pointer. -/
def evalCases (exprs : Option RExprs) (env : RPointer) (evalError : Bool) :
    StackCode (RResult × Bool) :=
  match exprs with
  | none => exit
  | some .nilValue => pure (.other, false)
  | some .other => pure (.other, evalError)
  | some (.vector []) => pure (.other, evalError)
  | some exprs => evalLoop env .other exprs.elements

/-- `EvalExprs`: the value and the flag `evalError`. -/
def evalExprs (exprs : Option RExprs) (env : RPointer) (evalError : Option Bool) :
    StackCode (RResult × Bool) := do
  match evalError with
  | none => exit
  | some evalError =>
      protect
      protect
      let result ← evalCases exprs env evalError
      unprotect 2
      pure result

/-- `ParseEval`.  It returns at once if R cannot parse the text. -/
def parseEval (code : Bytes) (env : RPointer) (evalError : Option Bool) :
    StackCode (RResult × Bool) := do
  match evalError with
  | none => exit
  | some evalError =>
      protect
      let exprs ← parseText code (some evalError)
      protect
      match exprs with
      | none =>
          noteUnparsed code
          pure (.other, true)
      | some exprs =>
          let val ← evalExprs (some exprs) env (some false)
          unprotect 2
          pure val

/-- `MyfindFun`: whether there is a function of that name. -/
def myfindFun (symb envir : RPointer) : StackCode Bool := do
  if symb = .null ∨ envir = .null then pure false
  else if symb = .nilValue ∨ envir = .nilValue then pure false
  else
    protect
    protect
    let binding ← answer (·.binding)
    unprotect 2
    match binding with
    | .function => pure true
    | .other => pure false
    | .promise =>
        match ← rTryEval ⟨bytes "promise"⟩ envir with
        | none => pure false
        | some _ => answer fun ω => decide (ω.binding = .function)

/-- `CallFun1expr`. -/
def callFun1expr (fun_ : Bytes) (env : RPointer) (evalError : Option Bool) :
    StackCode (RResult × Bool) := do
  let _ ← myfindFun .object .object
  protect
  let val ← evalExprs (some (.language ⟨fun_⟩)) env evalError
  unprotect 1
  pure val

/-- `CallFun1str`. -/
def callFun1str (fun_ arg : Bytes) (env : RPointer) (evalError : Option Bool) :
    StackCode (RResult × Bool) :=
  parseEval (callFun1strText fun_ arg) env evalError

/-! ## Lists -/

/-- `apr_table_do`. -/
def aprTableDo {κ : Type} (callback : κ → Param → StackCode κ) : κ → ParamTable → StackCode κ
  | ctx, [] => pure ctx
  | ctx, entry :: t => do
      let ctx ← callback ctx entry
      aprTableDo callback ctx t

/-- `ParamsCallback`. -/
def paramsCallback (ctx : TableCtx) (entry : Param) : StackCode TableCtx := do
  match arrayKey entry.name with
  | some key =>
      match ctx.nameIndex key with
      | some index =>
          protect
          unprotect 1
          pure (ctx.append index entry.value)
      | none => pure (ctx.add key (textValue entry.value))
  | none => pure (ctx.add (mkChar entry.name) (textValue entry.value))

/-- `TableCallback`, which protects nothing. -/
def tableCallback (ctx : TableCtx) (entry : Param) : StackCode TableCtx :=
  pure (ctx.add (mkChar entry.name) (textValue entry.value))

/-- `AprTableToList`. -/
def aprTableToList (callback : TableCtx → Param → StackCode TableCtx) (t : Option ParamTable) :
    StackCode RValue := do
  match t with
  | none => pure .null
  | some [] => pure .null
  | some t =>
      protect
      protect
      let ctx ← aprTableDo callback (TableCtx.new t.length) t
      if ctx.size < t.length then
        protect
        protect
        unprotect 4
      else unprotect 2
      pure (.list (ctx.toMembers t.length))

/-- `FileUploadsCallback`, for the uploads of a request. -/
def fileUploadsCallback (r : RequestRec) (files : Members) (upload : Param) :
    StackCode Members := do
  match r.spoolFile files.length with
  | none => pure (files ++ [(mkChar upload.name, .null)])
  | some filename =>
      protect
      protect
      protect
      protect
      unprotect 4
      pure (files ++ [(mkChar upload.name,
        .list [(bytes "name", .character [mkChar upload.value]),
          (bytes "tmp_name", .character [mkChar filename])])])

/-- What `parsePost` hands out once the body is parsed. -/
def postAnswer (returnPost : Bool) (s : Session) : StackCode RValue :=
  if returnPost then aprTableToList paramsCallback s.request.postTable
  else pure (s.request.filesVar.getD .null)

/-- The list of the uploads. -/
def makeFiles (r : RequestRec) (uploads : ParamTable) : StackCode RValue := do
  if uploads.isEmpty then pure .null
  else
    protect
    protect
    let files ← aprTableDo (fileUploadsCallback r) [] uploads
    unprotect 2
    pure (.list files)

/-- The part of `parsePost` below `/* Start parse */`. -/
def startParse (fuel : Nat) (returnPost : Bool) (r : RequestRec) (contentType : Bytes)
    (pfn : ParserFunction) (s : Session) : StackCode (CallEnd × Session) := do
  let getBrigade (read : Nat) :=
    r.getBrigade (s.limits ++ List.replicate read hugeStringLen) hugeStringLen
  let s := { s with request := { s.request with postParsed := true, postTable := some [] } }
  match parsePostLoop r.apreq getBrigade fuel 0 (parsePostStart contentType pfn) with
  | none => pure (.unfinished, s.noteParserReads fuel)
  | some (.aborted reads) => pure (.ended, s.noteParserReads reads)
  | some (.left reads run) =>
      let filesVar ← makeFiles r (run.t.filter Param.upload)
      let s :=
        { s with
          request := { s.request with postTable := some run.t, filesVar := some filesVar } }
      let answer ← postAnswer returnPost s
      pure (.returned answer, s.noteParserReads reads)

/-- `parsePost`. -/
def parsePost (fuel : Nat) (returnPost : Bool) (s : Session) : StackCode (CallEnd × Session) := do
  match s.request.r with
  | none => pure (.returned .null, s)
  | some r =>
      if s.request.readStarted then
        pure (Session.returning .null s (s.rApacheError
          (bytes "Oops! Your R code has already started reading the request.")))
      else if s.request.postParsed then
        let answer ← postAnswer returnPost s
        pure (.returned answer, s)
      else
        let noPost :=
          { s with request := { s.request with postTable := none, filesVar := some .null } }
        if r.method ≠ bytes "POST" ∧ r.method ≠ bytes "PUT" then pure (.returned .null, noPost)
        else
          match Session.bodyParser r with
          | none => pure (.returned .null, noPost)
          | some (contentType, pfn) => startParse fuel returnPost r contentType pfn s

/-! ## Requests -/

/-- `TearDownRequest`: clean up what R has pushed back on its input, if it has read of the body. -/
def tearDownRequest : StackCode Unit := do
  if ← answer (·.success) then
    let _ ← parseEval (bytes ".Internal(clearPushBack(stdin()))") .object (some false)

/-- `RApacheResponseError`. -/
def rApacheResponseError : StackCode Int := do
  tearDownRequest
  pure httpInternalServerError

/-- `PrintTraceback`. -/
def printTraceback : StackCode Unit := do
  let _ ← parseEval (bytes "cat('Traceback:\\n');traceback()") .object (some false)

/-- The rest of `RApacheInfo`; `code` are the texts that it evaluates. -/
def rApacheInfoItems (code : Nat → Bytes) : (codes : Nat) → List Code.InfoItem → StackCode Int
  | _, [] => pure statusDone
  | codes, .puts :: items => rApacheInfoItems code codes items
  | codes, .exec :: items => do
      let (_, errorOccurred) ← parseEval (code codes) .object (some true)
      if errorOccurred then rApacheResponseError
      else rApacheInfoItems code (codes + 1) items

/-- `RApacheInfo`. -/
def rApacheInfo (code : Nat → Bytes) : StackCode Int := do
  let _ ← newEnv .object
  rApacheInfoItems code 0 Code.infoPage

/-- `RAPACHE_SET_PARENT_ENV`, in newer versions of R an evaluation. -/
def rApacheSetParentEnv : StackCode Unit := do
  protect
  let called ← rTryEval ⟨bytes "parent.env<-"⟩ .object
  unprotect 1
  if called = none then exit

/-- The part of `RefreshRApacheEnv` that places the rapache environment on the search path, unless
it is there. -/
def reattach : StackCode Unit := do
  if ← answer (·.success) then pure ()
  else rApacheSetParentEnv

/-- `RefreshRApacheEnv`. -/
def refreshRApacheEnv : StackCode Unit := do
  reattach
  let (_, evalError) ← parseEval (bytes ".ResetCGIVars()") .object (some true)
  if evalError then exit

/-- `PrepareFileExprs`: nothing if it fails, else the expressions of the file and whether it was
parsed. -/
def prepareFileExprs (file : Bytes) : StackCode (Option (Option RExprs × Bool)) := do
  -- `apr_stat`
  if ← answer (·.success) then
    -- `parsedFile->mtime < finfo.mtime`
    if ← answer (·.success) then
      let (_, evalError) ← callFun1str (bytes "parse") file .object (some true)
      if evalError then pure none
      else
        let exprs ← answer (·.cached)
        pure (some (exprs, true))
    else
      let exprs ← answer (·.cached)
      pure (some (exprs, false))
  else pure none

/-- The text of the expression that `PrepareHandlerExpr` builds if there is none yet. -/
def handlerText (d : RApacheDirective) (envir : RPointer) : StackCode (Option Bytes) := do
  match d.function, d.evalcode with
  | some function, _ =>
      match d.package, d.file with
      | none, some _ =>
          if ← myfindFun .object envir then pure (some (functionText none function))
          else pure none
      | package, _ => pure (some (functionText package function))
  | none, evalcode => pure evalcode

/-- The part of `PrepareHandlerExpr` for r-script requests, and else the cached expression. -/
def prepareScript (d : RApacheDirective) (r : RequestRec) (type : RApacheHandlerType) :
    StackCode (Option RExprs) := do
  if type = .script then
    match d.function, r.filename with
    | some function, some filename =>
        parseText (scriptText d.package function filename) (some true)
    | _, _ => exit
  else answer (·.cached)

/-- `PrepareHandlerExpr`: the expression, or nothing if it fails. -/
def prepareHandlerExpr (d : RApacheDirective) (r : RequestRec) (type : RApacheHandlerType)
    (envir : RPointer) : StackCode (Option RExprs) := do
  match ← prepareScript d r type with
  | some expr => pure (some expr)
  | none =>
      match ← handlerText d envir with
      | none => pure none
      | some text => parseText text (some true)

/-- The handler's answer to the value of its code. -/
def respond (ret : RResult) : StackCode Int := do
  match ret with
  | .integer result =>
      tearDownRequest
      pure result
  | .tryError => rApacheResponseError
  | .other =>
      tearDownRequest
      pure statusDone

/-- An error in code of the handler. -/
def evalFailed : StackCode Int := do
  printTraceback
  rApacheResponseError

/-- The part of the handler that evaluates the expression of the directive. -/
def evalHandler (d : RApacheDirective) (r : RequestRec) (type : RApacheHandlerType)
    (ret : RResult) (evalError : Bool) : StackCode Int := do
  if d.function.isSome ∨ d.evalcode.isSome then
    match ← prepareHandlerExpr d r type .object with
    | none => rApacheResponseError
    | some expr =>
        let (ret, evalError) ← evalExprs (some expr) .object (some evalError)
        if evalError then evalFailed
        else respond ret
  else respond ret

/-- The part of the handler behind `RefreshRApacheEnv`. -/
def runHandler (d : RApacheDirective) (r : RequestRec) (type : RApacheHandlerType) :
    StackCode Int := do
  match d.file with
  | none =>
      let _ ← newEnv .object
      evalHandler d r type .other true
  | some file =>
      if ← answer (·.success) then
        match ← prepareFileExprs file with
        | none => rApacheResponseError
        | some (exprs, fileParsed) =>
            if fileParsed ∨ d.function = none ∧ d.evalcode = none then
              let _ ← newEnv .object
              let (ret, evalError) ← evalExprs exprs .object (some true)
              if evalError then evalFailed
              else evalHandler d r type ret evalError
            else evalHandler d r type .other true
      else rApacheResponseError

/-- `AP_hook_request_handler`. -/
def apHookRequestHandler (code : Nat → Bytes) (r : RequestRec) : StackCode Int := do
  -- `apr_filepath_get`
  if ← answer (·.success) then
    match handlerType r.handler with
    | none => pure declined
    | some type =>
        -- the lock, and then the output brigade
        if !(← answer (·.success)) then pure httpInternalServerError
        else if !(← answer (·.success)) then rApacheResponseError
        else if type = .info then
          let val ← rApacheInfo code
          tearDownRequest
          pure val
        else
          match r.perDirConfig, r.perDirConfig.bind (·.handlerKey) with
          | some d, some _ =>
              if d.file = none ∧ d.function = none ∧ d.evalcode = none then rApacheResponseError
              else
                refreshRApacheEnv
                runHandler d r type
          | _, _ => rApacheResponseError
  else pure httpInternalServerError

/-- Requests, one after the other. -/
def serve (code : Nat → Bytes) : List RequestRec → StackCode Unit
  | [] => pure ()
  | r :: requests => do
      let _ ← apHookRequestHandler code r
      serve code requests

end ProtectStack

end RApache
