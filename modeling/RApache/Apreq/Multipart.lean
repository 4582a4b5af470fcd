import RApache.Apreq.Headers

/-!
# The parser of multipart bodies

`apreq_parse_multipart` keeps the brigades that it is given in its context and goes
through its states until a delimiter is missing.  A part of type `multipart/mixed` is
handed to a second parser of the same kind, which has no such parser itself; the
parser is therefore written for any kind of `mix_parser`.

Each state has its own definition.  What a step may do is stated once, and from it
follows what a run does when the end of the stream has been read.
-/

namespace RApache

/-- `enum status` of `struct mfd_ctx`. -/
inductive MfdStatus where
  | init
  | nextline
  | header
  | postHeader
  | param
  | upload
  | mixed
  | complete
  | error
  deriving DecidableEq, Repr

/-- `struct mfd_ctx`.  The header parser is represented by its context, the parser of
nested parts by a value of type `Mix`. -/
structure MfdCtx (Mix : Type) where
  info : Option ParamTable
  in_ : Brigade
  bb : Brigade
  hdrParser : Option HdrCtx
  mixParser : Option Mix
  boundary : Bytes
  status : MfdStatus
  paramName : Option Bytes
  upload : Option Param

/-- A parser's context with what it is called with: the table, the brigade, and the
number of `apreq_brigade_concat` calls made so far. -/
structure Run (Ctx : Type) where
  ctx : Ctx
  t : ParamTable
  bb : Brigade
  spools : Nat

namespace MfdCtx

variable {Mix : Type}

/-- `ctx->bdry + 2`. -/
def delimiter (ctx : MfdCtx Mix) : Bytes := bytes "--" ++ ctx.boundary

/-- `ctx->bdry`. -/
def bdry (ctx : MfdCtx Mix) : Bytes := bytes "\r\n" ++ ctx.delimiter

/-- The context that `create_multipart_context` fills in. -/
def create (boundary : Bytes) (mixParser : Option Mix) : MfdCtx Mix where
  info := none
  in_ := []
  bb := []
  hdrParser := none
  mixParser := mixParser
  boundary := boundary
  status := .init
  paramName := none
  upload := none

/-- Bytes in the brigades of the context. -/
def size (ctx : MfdCtx Mix) : Nat :=
  ctx.in_.size + ctx.bb.size + ((ctx.hdrParser.map HdrCtx.bb).getD []).size

end MfdCtx

/-- The boundary that `create_multipart_context` finds in a content type. -/
def multipartBoundary (contentType : Bytes) : Option Bytes :=
  match contentType.dropWhile (· ≠ byte ';') with
  | [] => none
  | _ :: ct =>
      match apreqHeaderAttribute ct (bytes "boundary") with
      | .ok boundary => some boundary
      | .error _ => none

/-- What a run of a nested parser keeps.  A run that has read the end of the stream
is not incomplete, and hands the end back if it succeeds. -/
structure MixSpec {Mix : Type} (potential : Mix → Nat) (before : Run Mix)
    (status : AprStatus) (after : Run Mix) : Prop where
  potential_le :
    potential after.ctx + 3 * after.bb.size ≤ potential before.ctx + 3 * before.bb.size
  complete : before.bb.endsEos → status ≠ .incomplete
  success : before.bb.endsEos → status = .success → after.bb.endsEos

/-- What `apreq_parse_multipart` needs of the parser of nested parts: to give it a new
context and to run it.  The potential bounds what is left to do in a context. -/
class MixParser (Mix : Type) where
  start : (mixParser : Mix) → (boundary paramName : Bytes) → Mix
  run : Environment → Run Mix → Option (AprStatus × Run Mix)
  potential : Mix → Nat
  start_potential : ∀ mixParser boundary paramName,
    potential (start mixParser boundary paramName) = 0
  run_spec : ∀ env before status after, run env before = some (status, after) →
    MixSpec potential before status after

/-- `brigade_start_string`. -/
def brigadeStartString : (startString : Bytes) → (bb : Brigade) → AprStatus
  | _, [] => .incomplete
  | [], _ :: _ => .success
  | _, .eos :: _ => .eof
  | startString, .data buffer :: bb =>
      if buffer = [] then brigadeStartString startString bb
      else if agree startString buffer then
        brigadeStartString (startString.drop buffer.length) bb
      else .general

theorem brigadeStartString_endsEos (startString : Bytes) {bb : Brigade}
    (ends : bb.endsEos) : brigadeStartString startString bb ≠ .incomplete := by
  induction bb generalizing startString with
  | nil => simp [Brigade.endsEos] at ends
  | cons bucket bb ih =>
      cases startString with
      | nil => simp [brigadeStartString]
      | cons symbol startString =>
          cases bucket with
          | eos => simp [brigadeStartString]
          | data buffer =>
              have tail := Brigade.endsEos_cons ends (by simp)
              simp only [brigadeStartString]
              split
              next => exact ih _ tail
              next =>
                split
                next => exact ih _ tail
                next => simp

/-! ## One state at a time -/

section Steps

variable {Mix : Type}

/-- How a state is left: by `goto mfd_parse_brigade` or falling through, or by
`return`. -/
inductive MfdProgress (Mix : Type) where
  | again (run : Run (MfdCtx Mix))
  | stop (status : AprStatus) (run : Run (MfdCtx Mix))

/-- `case MFD_INIT`. -/
def mfdInit (run : Run (MfdCtx Mix)) : MfdProgress Mix :=
  let split := splitOnBdry false run.ctx.delimiter run.ctx.bb run.ctx.in_
  if split.status = .success then
    .again { run with
      ctx := { run.ctx with in_ := split.rest, bb := [], status := .nextline }
      bb := run.bb ++ split.out }
  else
    .stop split.status
      { run with ctx := { run.ctx with in_ := split.rest, bb := split.out } }

/-- `case MFD_NEXTLINE`. -/
def mfdNextline (run : Run (MfdCtx Mix)) : MfdProgress Mix :=
  let split := splitOnBdry false (bytes "\r\n") run.ctx.bb run.ctx.in_
  if split.status = .success then
    if split.out ≠ [] then
      -- The text behind a delimiter is taken for the "--" of the last one.
      .stop .success { run with
        ctx := { run.ctx with in_ := [], bb := split.out, status := .complete }
        bb := run.bb ++ split.rest }
    else
      .again { run with
        ctx := { run.ctx with
          in_ := split.rest, bb := split.out, status := .header, info := none } }
  else
    .stop split.status
      { run with ctx := { run.ctx with in_ := split.rest, bb := split.out } }

/-- `case MFD_HEADER`.  A new header block resets the header parser. -/
def mfdHeader (run : Run (MfdCtx Mix)) : Option (MfdProgress Mix) :=
  let hdrCtx := if run.ctx.info = none then none else run.ctx.hdrParser
  (apreqParseHeaders hdrCtx (run.ctx.info.getD []) run.ctx.in_).map fun hdr =>
    let ctx := { run.ctx with
      info := some hdr.t, in_ := hdr.bb, hdrParser := some hdr.ctx }
    match hdr.status with
    | .success => .again { run with ctx := { ctx with status := .postHeader } }
    | .incomplete => .stop .incomplete { run with ctx := ctx }
    | status => .stop status { run with ctx := { ctx with status := .error } }

/-- The part of `case MFD_POST_HEADER` behind the test for a missing body: the state
in which the part's headers put the parser. -/
def mfdPartKind [MixParser Mix] (run : Run (MfdCtx Mix)) : Option (MfdProgress Mix) :=
  let ctx := run.ctx
  let info := ctx.info.getD []
  let failed := MfdProgress.stop .general { run with ctx := { ctx with status := .error } }
  let upload := fun name filename =>
    MfdProgress.again { run with
      ctx := { ctx with upload := some ⟨name, filename, true⟩, status := .upload } }
  match aprTableGet info (bytes "Content-Disposition"), ctx.mixParser with
  | some cd, some mixParser =>
      -- multipart/form-data
      match apreqHeaderAttribute cd (bytes "name") with
      | .error _ => some failed
      | .ok name =>
          match apreqHeaderAttribute cd (bytes "filename") with
          | .ok filename => some (upload name filename)
          | .error _ =>
              match aprTableGet info (bytes "Content-Type") with
              | some ct =>
                  if (bytes "multipart/mixed").isPrefixOf ct then
                    match multipartBoundary ct with
                    | none => some failed
                    | some boundary =>
                        some (.again { run with
                          ctx := { ctx with
                            mixParser := some (MixParser.start mixParser boundary name)
                            status := .mixed } })
                  else
                    some (.again { run with
                      ctx := { ctx with paramName := some name, status := .param } })
              | none =>
                  some (.again { run with
                    ctx := { ctx with paramName := some name, status := .param } })
  | some cd, none =>
      -- multipart/mixed
      match apreqHeaderAttribute cd (bytes "filename") with
      | .error _ => some (.again { run with ctx := { ctx with status := .param } })
      | .ok filename => ctx.paramName.map fun name => upload name filename
  | none, _ =>
      -- multipart/related
      match aprTableGet info (bytes "Content-ID") with
      | none => some failed
      | some name => some (upload name [])

/-- `case MFD_POST_HEADER`.  A part without a body gets back the line end that the
header parser took from the delimiter. -/
def mfdPostHeader [MixParser Mix] (run : Run (MfdCtx Mix)) : Option (MfdProgress Mix) :=
  match brigadeStartString run.ctx.delimiter run.ctx.in_ with
  | .incomplete => some (.stop .incomplete run)
  | .success =>
      mfdPartKind { run with
        ctx := { run.ctx with in_ := .data (bytes "\r\n") :: run.ctx.in_ } }
  | _ => mfdPartKind run

/-- `case MFD_PARAM`. -/
def mfdParam (run : Run (MfdCtx Mix)) : Option (MfdProgress Mix) :=
  let split := splitOnBdry true run.ctx.bdry run.ctx.bb run.ctx.in_
  let ctx := { run.ctx with in_ := split.rest, bb := split.out }
  match split.status with
  | .incomplete => some (.stop .incomplete { run with ctx := ctx })
  | .success =>
      ctx.paramName.map fun name =>
        .again { run with
          ctx := { ctx with status := .nextline, paramName := none, bb := [] }
          t := run.t ++ [⟨name, split.out.content, false⟩] }
  | status => some (.stop status { run with ctx := { ctx with status := .error } })

variable (env : Environment)

/-- `case MFD_UPLOAD`. -/
def mfdUpload (run : Run (MfdCtx Mix)) : Option (MfdProgress Mix) :=
  let split := splitOnBdry true run.ctx.bdry run.ctx.bb run.ctx.in_
  let ctx := { run.ctx with in_ := split.rest, bb := split.out }
  match split.status with
  | .incomplete =>
      let spooled := env.concat run.spools
      let run := { run with spools := run.spools + 1 }
      some <| match spooled with
      | .stored => .stop .incomplete { run with ctx := { ctx with bb := [] } }
      | .refused error => .stop (.other error) { run with ctx := ctx }
      | .lost error => .stop (.other error) { run with ctx := { ctx with bb := [] } }
  | .success =>
      ctx.upload.map fun param =>
        let spooled := env.concat run.spools
        let run := { run with spools := run.spools + 1, t := run.t ++ [param] }
        match spooled with
        | .stored => .again { run with ctx := { ctx with bb := [], status := .nextline } }
        | .refused error => .stop (.other error) { run with ctx := ctx }
        | .lost error => .stop (.other error) { run with ctx := { ctx with bb := [] } }
  | status => some (.stop status { run with ctx := { ctx with status := .error } })

/-- `case MFD_MIXED`. -/
def mfdMixed [MixParser Mix] (run : Run (MfdCtx Mix)) : Option (MfdProgress Mix) := do
  let mix ← run.ctx.mixParser
  let (status, mixRun) ← MixParser.run env ⟨mix, run.t, run.ctx.in_, run.spools⟩
  let ctx := { run.ctx with mixParser := some mixRun.ctx, in_ := mixRun.bb }
  let run := { run with t := mixRun.t, spools := mixRun.spools }
  some <| match status with
  | .success => .again { run with ctx := { ctx with status := .init } }
  | .incomplete => .stop .incomplete { run with ctx := { ctx with in_ := [] } }
  | status => .stop status { run with ctx := { ctx with status := .error } }

/-- The `switch` of `apreq_parse_multipart`. -/
def mfdStep [MixParser Mix] (run : Run (MfdCtx Mix)) : Option (MfdProgress Mix) :=
  match run.ctx.status with
  | .init => some (mfdInit run)
  | .nextline => some (mfdNextline run)
  | .header => mfdHeader run
  | .postHeader => mfdPostHeader run
  | .param => mfdParam run
  | .upload => mfdUpload env run
  | .mixed => mfdMixed env run
  | .complete | .error => some (.stop .general run)

end Steps

end RApache
