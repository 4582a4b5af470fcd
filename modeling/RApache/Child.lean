import RApache.CodeText
import RApache.Library.Program
import RApache.Session

/-!
# A child process

The state that the threads of one child share, the answers that the system and R give to
each atomic step, and the atomic steps themselves.  A step that has no successor waits for
the lock, or the process has ended in it.
-/

namespace RApache

open Stepwise

/-! ## R code -/

/-- One expression of R code. -/
structure RExpr where
  code : Bytes
  deriving DecidableEq, Repr

/-- What `parse` can give: an expression vector; if R code has replaced it, also a call,
`R_NilValue` or any other object. -/
inductive RExprs where
  | vector (exprs : List RExpr)
  | language (expr : RExpr)
  | nilValue
  | other
  deriving DecidableEq, Repr

/-- The expressions that `EvalExprs` evaluates. -/
def RExprs.elements : RExprs → List RExpr
  | vector exprs => exprs
  | language expr => [expr]
  | nilValue => []
  | other => []

/-- The value of R code as `AP_hook_request_handler` looks at it: one integer, an object
of class `try-error`, or any other. -/
inductive RResult where
  | integer (value : Int)
  | tryError
  | other
  deriving DecidableEq, Repr

/-- What R code does when it is evaluated: it asks something of the module, changes the
working directory, or calls `RApacheInfo` with the given behaviour of each `EXEC`; it
ends with a value, or with an error if there is none. -/
inductive RBehaviour where
  | finish (value : Option RResult)
  | call (call : Call) (next : RValue → RBehaviour)
  | setwd (dir : Bytes) (next : Bool → RBehaviour)
  | rapacheInfo (execs : Nat → RBehaviour) (next : RBehaviour)

/-- What never changes in a child: how R parses text, how often a loop over the input is
followed, and the texts of `RApacheInfo`. -/
structure World where
  /-- `parse(text=...)`, `none` for a syntax error. -/
  parse : Bytes → Option (List RExpr)
  fuel : Nat
  infoText : Nat → Bytes

/-! ## Files -/

/-- A version of a file. -/
structure FileVersion where
  mtime : Int
  content : Bytes
  deriving DecidableEq, Repr

/-- The versions of every file, the newest first. -/
abbrev Files := Bytes → List FileVersion

/-- Write files, one after the other. -/
def Files.write (files : Files) (writes : List (Bytes × FileVersion)) : Files :=
  writes.foldl (fun files (file, version) =>
    Function.update files file (version :: files file)) files

/-- The path that a name means in a working directory. -/
def resolve (cwd name : Bytes) : Bytes :=
  if name.head? = some (byte '/') then name else cwd ++ byte '/' :: name

/-! ## Caches -/

/-- An environment that `NewEnv` has made. -/
abbrev EnvId := Nat

/-- `RApacheParsedFile`.  An `mtime` of zero is that of a new record. -/
structure RApacheParsedFile where
  exprs : Option RExprs := none
  envir : Option EnvId := none
  mtime : Int := 0
  deriving DecidableEq, Repr

/-- `RApacheHandler`; `parsedFile` is the key of the record in `MR_ParsedFileCache`. -/
structure RApacheHandler where
  expr : Option RExprs := none
  envir : Option EnvId := none
  parsedFile : Option Bytes := none
  directive : Option RApacheDirective := none
  deriving DecidableEq, Repr

/-- What code is evaluated for: the expressions of a handler's file, or its own. -/
inductive CodeSource where
  | file
  | handler
  deriving DecidableEq, Repr

/-! ## Records of a run -/

/-- A thread of the child and the number of the request it serves. -/
structure Owner where
  worker : Nat
  number : Nat
  deriving DecidableEq, Repr

/-- The steps that concern the lock and `MR_Request`, with who takes them. -/
inductive LockEvent where
  /-- The lock is taken, unless `MR_mutex` is `NULL`. -/
  | entered (who : Owner) (locked : Bool)
  | working (who : Owner) (r : RequestRec)
  /-- `TearDownRequest` begins, for this `MR_Request.r`. -/
  | tornDown (who : Owner) (r : Option RequestRec)
  | cleared (who : Owner) (r : Option RequestRec)
  /-- The lock is released, unless `MR_mutex` is `NULL`; it was held by `holder`. -/
  | left (who : Owner) (unlocked : Bool) (holder : Option Nat)
  | execFailed (who : Owner)
  /-- `AP_hook_request_handler` returns. -/
  | returned (who : Owner)

/-- The evaluation of a handler expression: `expr` is what is evaluated, `exprs` the cached
expressions of the handler's file, `evaluated` those of the file's expressions that were
evaluated without an error in the environment, and `failed` that one of them had an error
there. -/
structure HandlerEvaluation where
  r : RequestRec
  directive : RApacheDirective
  expr : Option RExprs
  exprs : Option RExprs
  evaluated : List RExpr
  failed : Bool

/-- The complete evaluation of the expressions of a file: `since` are the versions of the
file from the request's `apr_stat` on. -/
structure FileEvaluation where
  r : RequestRec
  file : Bytes
  exprs : Option RExprs
  since : List FileVersion

/-- A step of the module on the globals of the current request, which it found like this,
with its value. -/
structure SessionStep where
  before : Session
  op : SessionOp
  value : RValue

/-- The code of an r-handler or r-script request since `RefreshRApacheEnv`: the steps of
the module, each with its value. -/
structure Trace where
  r : RequestRec
  directive : RApacheDirective
  steps : List (SessionOp × RValue)

/-- A `NULL` pointer that is used where a value is required. -/
inductive NullUse where
  /-- The length of `h->directive->function` is taken. -/
  | function
  /-- The length of `r->filename` is taken. -/
  | filename
  /-- `EvalExprs` looks at the type of its expressions. -/
  | exprs
  /-- An environment is passed to `R_tryEval` or `defineVar`. -/
  | envir
  deriving DecidableEq, Repr

/-! ## The state -/

/-- The state of a child.  `mutex` is `none` while `MR_mutex` is `NULL`, else it says who
holds the lock; `oldwd` is the member of `MR_Request`.  The last fields only record what
happens. -/
structure Child where
  session : Session := {}
  oldwd : Option Bytes := none
  cwd : Bytes
  mutex : Option (Option Nat)
  handlers : Bytes → Option RApacheHandler := fun _ => none
  parsedFiles : Bytes → Option RApacheParsedFile := fun _ => none
  files : Files := fun _ => []
  nextEnv : EnvId := 0
  /-- The expressions evaluated without an error in each environment, the newest last. -/
  evaluated : EnvId → List (CodeSource × RExpr) := fun _ => []
  /-- An expression of a file had an error in the environment. -/
  failed : EnvId → Bool := fun _ => false
  lockEvents : List LockEvent := []
  handlerEvaluations : List HandlerEvaluation := []
  fileEvaluations : List FileEvaluation := []
  trace : Option Trace := none
  log : List SessionStep := []
  nullUses : List NullUse := []

/-- What the system and R answer to one step: the files written before it, whether a
call of the system succeeds, what R code does that is evaluated now, what R makes of code
other than the call that was meant, the errors that R prints when it evaluates code of the
module that is always the same, and the value of a variable that was never set. -/
structure Answer where
  writes : List (Bytes × FileVersion) := []
  success : Bool := true
  behaviour : RBehaviour := .finish (some .other)
  found : Bool := true
  exprs : Option RExprs := none
  errors : List Bytes := []
  uninitialised : Int := 0

/-- Code of the module, as atomic steps on the state of the child. -/
abbrev Code (α : Type) := Program Answer Child α

/-- The versions of the file that a name means now. -/
def Child.versions (s : Child) (file : Bytes) : List FileVersion :=
  s.files (resolve s.cwd file)

/-- The expressions of a file that were evaluated without an error in an environment. -/
def Child.fileExprs (s : Child) (env : Option EnvId) : List RExpr :=
  match env with
  | none => []
  | some env => (s.evaluated env).filterMap fun (source, expr) =>
      if source = .file then some expr else none

/-- The state in which a step finds the child: files may have been written before. -/
def Child.written (ω : Answer) (s : Child) : Child :=
  { s with files := s.files.write ω.writes }

namespace Code

/-- An atomic step. -/
def atomic {α : Type} (act : Answer → Child → Option (α × Child)) : Code α :=
  Program.atomic fun ω s => act ω (s.written ω)

/-- A step that only reads. -/
def read {α : Type} (value : Answer → Child → α) : Code α :=
  atomic fun ω s => some (value ω s, s)

/-- A step that only changes the state. -/
def modify (change : Child → Child) : Code Unit := atomic fun _ s => some ((), change s)

/-- The process ends. -/
def exit {α : Type} : Code α := atomic fun _ _ => none

/-- A `NULL` pointer is used. -/
def useNull (use : NullUse) : Code Unit :=
  modify fun s => { s with nullUses := use :: s.nullUses }

/-- Code that reads through a `NULL` pointer: the process ends. -/
def readNull {α : Type} (use : NullUse) : Code α := do
  useNull use
  exit

/-- A step of the module on the globals of the current request. -/
def perform (w : World) (op : SessionOp) : Code RValue :=
  atomic fun _ s =>
    match s.session.perform w.fuel op with
    | (.returned value, session) =>
        some (value,
          { s with
            session
            trace := s.trace.map fun trace =>
              { trace with steps := trace.steps ++ [(op, value)] }
            log := s.log ++ [{ before := s.session, op, value }] })
    | _ => none

end Code

end RApache
