import RApache.Apreq.FormEntries
import RApache.FormBody

/-!
# Multipart bodies

However the input filters cut a multipart body, R sees its fields and uploads, and the file of each
upload holds the bytes of its part.
-/

namespace RApache

/-! ## The loop of `parsePost` over a multipart body -/

section Writes

variable (env : Environment)

/-- The calls of `apreq_brigade_concat` in a run of the parser. -/
def apreqParserWrites (run : Run Parser) : List Write :=
  match run.ctx with
  | .urlencoded _ => []
  | .multipart contentType ctx =>
      match multipartContext contentType ctx with
      | none => []
      | some ctx => runMultipartWrites env (runMixWrites env) { run with ctx := ctx }

/-- The calls of `apreq_brigade_concat` in the loop of `parsePost`. -/
def parsePostWrites (getBrigade : Nat → Except AprStatus Brigade) :
    (fuel reads : Nat) → (run : Run Parser) → List Write
  | 0, _, _ => []
  | fuel + 1, reads, run =>
      match getBrigade reads with
      | .error _ => []
      | .ok bb =>
          apreqParserWrites env { run with bb := run.bb ++ bb } ++
            match apreqParserRun env { run with bb := run.bb ++ bb } with
            | none => []
            | some (_, run) =>
                if run.bb.endsEos then []
                else parsePostWrites getBrigade fuel (reads + 1) { run with bb := [] }

end Writes

section Loop

variable {boundary epilogue future : Bytes} {all : List (FormPart boundary)} {writes : List Write}
variable {env : Environment} {run : Run Parser} {contentType : Bytes}

/-- The parser has read the whole body. -/
structure BodyRead (contentType : Bytes) (all : List (FormPart boundary)) (writes : List Write)
    (run : Run Parser) : Prop where
  parser : ∃ ctx, run.ctx = .multipart contentType (some ctx) ∧ ctx.status = .complete
  table : run.t = all.map FormPart.param
  filed : Filed writes (all.filterMap FormPart.file)

/-- The parser of a multipart body between two reads. -/
inductive BodyRun (contentType epilogue future : Bytes) (all : List (FormPart boundary))
    (writes : List Write) (run : Run Parser) : Prop where
  | reading {ctx : Option (MfdCtx MixCtx)} {used : MfdCtx MixCtx}
      (isCtx : run.ctx = .multipart contentType ctx)
      (context : multipartContext contentType ctx = some used)
      (parts : PartsRun epilogue future [] all writes ⟨used, run.t, run.bb, run.spools⟩)
  | read (empty : run.bb = []) (read : BodyRead contentType all writes run)

theorem BodyRun.empty (isRun : BodyRun contentType epilogue future all writes run) :
    run.bb = [] := by
  cases isRun with
  | reading isCtx context parts => exact parts.bb
  | read empty => exact empty

/-- What a run over a brigade comes to. -/
theorem BodyRun.brigade (stored : ∀ spool, env.concat spool = .stored) (noCr : 13 ∉ boundary)
    (buffers : List Bytes) (tail : Brigade) (ends : tail = [] ∨ future = [])
    (isRun : BodyRun contentType epilogue (buffers.flatten ++ future) all writes run) :
    ∃ status after, apreqParserRun env { run with bb := buffers.map .data ++ tail } =
        some (status, after) ∧
      ((future ≠ [] ∧ BodyRun contentType epilogue future all
          (writes ++ apreqParserWrites env { run with bb := buffers.map .data ++ tail }) after) ∨
        (BodyRead contentType all
          (writes ++ apreqParserWrites env { run with bb := buffers.map .data ++ tail }) after ∧
          ∃ rest, after.bb = rest ++ tail ∧ .eos ∉ rest)) := by
  cases isRun with
  | @reading ctx used isCtx context parts =>
      rw [← content_data buffers] at parts
      rcases runMultipart_reads (runMixWrites env) stored noCr parts (eos_not_mem_data buffers) ends
        with ⟨status, after, ran, turned⟩
      refine ⟨status, { after with ctx := .multipart contentType (some after.ctx) }, ?_, ?_⟩
      · simp only [apreqParserRun, isCtx, apreqParseMultipart, context, ran, Option.map_some]
      · have isWrites : apreqParserWrites env { run with bb := buffers.map .data ++ tail } =
            runMultipartWrites env (runMixWrites env)
              ⟨used, run.t, buffers.map .data ++ tail, run.spools⟩ := by
          simp only [apreqParserWrites, isCtx, context]
        rw [isWrites]
        cases turned with
        | waiting more reading => exact .inl ⟨more, .reading rfl rfl reading⟩
        | complete complete table filed bb openRest =>
            exact .inr ⟨⟨⟨_, rfl, complete⟩, table, filed⟩, _, bb, openRest⟩
  | read empty read =>
      rcases read with ⟨⟨ctx, isCtx, complete⟩, table, filed⟩
      refine ⟨.success, { run with bb := buffers.map .data ++ tail }, ?_, .inr ⟨?_, _, rfl,
        eos_not_mem_data buffers⟩⟩
      · simp only [apreqParserRun, isCtx, apreqParseMultipart, multipartContext, runMultipart,
          complete, Option.map_some]
      · have noWrites : apreqParserWrites env { run with bb := buffers.map .data ++ tail } = [] := by
          simp only [apreqParserWrites, isCtx, multipartContext, runMultipartWrites, complete]
        rw [noWrites, List.append_nil]
        exact ⟨⟨ctx, isCtx, complete⟩, table, filed⟩

/-- One turn of the loop. -/
theorem parsePostWrites_turn {body : Delivery} {fuel reads : Nat} {after : Run Parser}
    {status : AprStatus} (empty : run.bb = [])
    (ran : apreqParserRun env { run with bb := body.brigade reads } = some (status, after)) :
    parsePostWrites env body.getBrigade (fuel + 1) reads run =
      apreqParserWrites env { run with bb := body.brigade reads } ++
        if after.bb.endsEos then []
        else parsePostWrites env body.getBrigade fuel (reads + 1) { after with bb := [] } := by
  simp only [parsePostWrites, Delivery.getBrigade, empty, List.nil_append, ran]

/-- What the loop makes of the rest of a body. -/
theorem parsePostLoop_parts (stored : ∀ spool, env.concat spool = .stored) (noCr : 13 ∉ boundary)
    {body : Delivery} {fuel reads : Nat} (sofar : reads < body.brigades.length)
    (isRun : BodyRun contentType epilogue (body.brigades.drop reads).flatten.flatten all writes run)
    (enough : body.brigades.length ≤ fuel + reads) :
    ∃ count after, parsePostLoop env body.getBrigade fuel reads run = some (.left count after) ∧
      BodyRead contentType all (writes ++ parsePostWrites env body.getBrigade fuel reads run)
        after := by
  induction fuel generalizing reads run writes with
  | zero => omega
  | succ fuel ih =>
      have isBrigade := List.getElem?_eq_getElem sofar
      have rest : (body.brigades.drop reads).flatten.flatten =
          body.brigades[reads].flatten ++ (body.brigades.drop (reads + 1)).flatten.flatten := by
        rw [List.drop_eq_getElem_cons sofar, List.flatten_cons, List.flatten_append]
      rw [rest] at isRun
      rcases Nat.eq_or_lt_of_le (show reads + 1 ≤ body.brigades.length from sofar) with
        isLast | more
      · have brigade : body.brigade reads = body.brigades[reads].map .data ++ [.eos] := by
          simp [Delivery.brigade, isBrigade, isLast]
        have nothing : (body.brigades.drop (reads + 1)).flatten.flatten = [] := by
          rw [isLast, List.drop_length]
          rfl
        rw [nothing] at isRun
        rcases isRun.brigade stored noCr body.brigades[reads] [.eos] (.inr rfl) with
          ⟨status, after, ran, ⟨more, -⟩ | ⟨read, rest', isBb, openRest⟩⟩
        · exact absurd rfl more
        · have ends : after.bb.endsEos = true := by
            rw [isBb]
            exact Brigade.endsEos_append rest' rfl
          rw [← brigade] at ran read
          rw [parsePostLoop_turn isRun.empty ran, parsePostWrites_turn isRun.empty ran, if_pos ends,
            if_pos ends, List.append_nil]
          exact ⟨_, after, rfl, read⟩
      · have brigade : body.brigade reads = body.brigades[reads].map .data ++ [] := by
          have notLast : ¬ reads + 1 = body.brigades.length := by omega
          simp [Delivery.brigade, isBrigade, notLast]
        rcases isRun.brigade stored noCr body.brigades[reads] [] (.inl rfl) with
          ⟨status, after, ran, next⟩
        have goesOn : after.bb.endsEos = false := by
          rcases next with ⟨-, isRun'⟩ | ⟨-, rest', isBb, openRest⟩
          · rw [isRun'.empty]
            rfl
          · rw [isBb, List.append_nil]
            exact Brigade.not_endsEos openRest
        have isRun' : BodyRun contentType epilogue (body.brigades.drop (reads + 1)).flatten.flatten
            all (writes ++ apreqParserWrites env
              { run with bb := body.brigades[reads].map .data ++ [] }) { after with bb := [] } := by
          rcases next with ⟨-, isRun'⟩ | ⟨read, -⟩
          · have same : { after with bb := [] } = after := by
              rw [← isRun'.empty]
            rw [same]
            exact isRun'
          · exact .read rfl ⟨read.parser, read.table, read.filed⟩
        rw [← brigade] at ran isRun'
        rw [parsePostLoop_turn isRun.empty ran, parsePostWrites_turn isRun.empty ran,
          if_neg (by simp [goesOn]), if_neg (by simp [goesOn]), ← List.append_assoc]
        exact ih more isRun' (by omega)

/-- However the filters cut a multipart body into brigades and buckets, the loop of `parsePost` ends
with the parameters of its parts in the table, and the bytes that are written for each upload are
those of its part. -/
theorem parsePostLoop_multipart (stored : ∀ spool, env.concat spool = .stored)
    (isBoundary : multipartBoundary contentType = some boundary) (noCr : 13 ∉ boundary)
    (parts : List (FormPart boundary)) {body : Delivery} {fuel : Nat}
    (isBody : body.bytes = multipartText boundary epilogue parts)
    (enough : body.brigades.length ≤ fuel) :
    ∃ reads run, parsePostLoop env body.getBrigade fuel 0
        (parsePostStart contentType .multipart) = some (.left reads run) ∧
      run.t = parts.map FormPart.param ∧
      Filed (parsePostWrites env body.getBrigade fuel 0 (parsePostStart contentType .multipart))
        (parts.filterMap FormPart.file) := by
  have nonempty : 0 < body.brigades.length := by
    by_contra none
    have noBrigades := List.length_eq_zero_iff.mp (Nat.eq_zero_of_not_pos none)
    rw [Delivery.bytes, noBrigades] at isBody
    cases isBody
  have start : BodyRun contentType epilogue (body.brigades.drop 0).flatten.flatten parts []
      (parsePostStart contentType .multipart) := by
    have context : multipartContext contentType none =
        some (MfdCtx.create boundary (some none)) := by
      simp only [multipartContext, isBoundary, Option.map_some]
    refine .reading rfl context ⟨rfl, rfl, rfl, .inl rfl, [], [], parts, [], rfl, rfl, ?_, rfl,
      by simp, .init rfl rfl isBody⟩
    exact filed_next.mpr ⟨fun upload => by simp [fileOf, writesOf], by simp⟩
  rcases parsePostLoop_parts stored noCr nonempty start (by omega) with ⟨reads, run, looped, read⟩
  exact ⟨reads, run, looped, read.table, by simpa using read.filed⟩

/-- A field and a file that holds a part of the delimiter. -/
def sampleEntries : List (FormEntry (bytes "b")) :=
  [{ name := bytes "a"
     filename := none
     more := []
     content := bytes "1"
     isName := .plain (by decide +kernel) .nil
     isFilename := by simp
     notMixed := by simp [aprTableGet]
     noDelimiter := by decide +kernel
     begins := by decide +kernel },
   { name := bytes "f"
     filename := some (bytes "g")
     more := []
     content := bytes "x\r\n--c"
     isName := .plain (by decide +kernel) .nil
     isFilename := by
       intro text isText
       cases isText
       exact .plain (by decide +kernel) .nil
     notMixed := by simp [aprTableGet]
     noDelimiter := by decide +kernel
     begins := by decide +kernel }]

/-- Their body, cut in a header and in both delimiters. -/
def cutParts : Delivery :=
  ⟨[[bytes "--b\r\nContent-Dispos", bytes "ition: form-data; name=\"a\"\r"],
    [bytes "\n\r\n1\r\n--", bytes "b"],
    [bytes "\r\nContent-Disposition: form-data; name=\"f\"; filename=\"g\"\r\n\r\nx\r\n"], [],
    [bytes "--c\r\n-", bytes "-b--\r\n"]]⟩

theorem cutParts_bytes :
    cutParts.bytes = multipartText (bytes "b") [] (sampleEntries.map FormEntry.part) := by
  decide +kernel

theorem parsePostLoop_multipart_cut :
    ∃ reads run, parsePostLoop ⟨.ok, fun _ => .stored⟩ cutParts.getBrigade 5 0
        (parsePostStart (bytes "multipart/form-data; boundary=b") .multipart) =
          some (.left reads run) ∧
      run.t = (sampleEntries.map FormEntry.part).map FormPart.param ∧
      Filed (parsePostWrites ⟨.ok, fun _ => .stored⟩ cutParts.getBrigade 5 0
          (parsePostStart (bytes "multipart/form-data; boundary=b") .multipart))
        ((sampleEntries.map FormEntry.part).filterMap FormPart.file) :=
  parsePostLoop_multipart (fun _ => rfl) (by decide +kernel) (by decide +kernel) _ cutParts_bytes
    (by decide +kernel)

end Loop

/-! ## The values that R sees -/

section Values

/-- A request with a multipart body, which the filters deliver in some brigades, and whose uploads
can be stored. -/
structure PostsParts (s : Session) (r : RequestRec) (contentType boundary : Bytes)
    (body : Delivery) : Prop where
  parser : Session.postParser r = some (contentType, .multipart)
  isBoundary : multipartBoundary contentType = some boundary
  stores : ∀ spool, r.apreq.concat spool = .stored
  delivers : ∀ read, r.getBrigade (s.limits ++ List.replicate read hugeStringLen)
    hugeStringLen = .ok (body.brigade read)

/-- The value of `FILES` for these parameters. -/
def filesValue (r : RequestRec) (params : ParamTable) : RValue :=
  if (params.filter Param.upload).isEmpty then .null
  else .list (Session.fileUploads r (params.filter Param.upload))

variable {contentType boundary epilogue : Bytes}

/-- The entries of a form are the values of `POST` and `FILES`, however its body is cut. -/
theorem multipartForm_values (noCr : 13 ∉ boundary) (entries : List (FormEntry boundary))
    {s : Session} {r : RequestRec} {body : Delivery} {fuel : Nat} (unread : Session.Unread r s)
    (posts : PostsParts s r contentType boundary body)
    (isBody : body.bytes = multipartText boundary epilogue (entries.map FormEntry.part))
    (enough : body.brigades.length ≤ fuel) :
    (s.parsePost fuel true).1 =
        .returned (aprTableToList paramsCallback (some (entries.map FormEntry.param))) ∧
      (s.parsePost fuel false).1 = .returned (filesValue r (entries.map FormEntry.param)) := by
  have delivered : (fun read => r.getBrigade (s.limits ++ List.replicate read hugeStringLen)
      hugeStringLen) = body.getBrigade := funext posts.delivers
  rcases parsePostLoop_multipart posts.stores posts.isBoundary noCr _ isBody enough with
    ⟨reads, run, looped, table, -⟩
  have isTable : run.t = entries.map FormEntry.param := by
    rw [table, List.map_map]
    exact List.map_congr_left fun entry _ => entry.part_param
  have started (returnPost : Bool) : s.parsePost fuel returnPost =
      Session.startParse fuel returnPost r contentType .multipart s := by
    rw [Session.parsePost_eq unread.current, if_neg (by simp [unread.notStarted]),
      if_neg (by simp [unread.notParsed]), posts.parser]
  rw [started, started]
  simp only [Session.startParse, delivered, looped, ← isTable]
  exact ⟨rfl, rfl⟩

/-- A request with a multipart body. -/
def partsRequest (body : Delivery) : RequestRec where
  address := 0
  handler := bytes "r-handler"
  method := bytes "POST"
  headersIn := [⟨bytes "Content-Type", bytes "multipart/form-data; boundary=b", false⟩]
  getBrigade limits _ := .ok (body.brigade limits.length)
  spoolFile _ := some (bytes "/tmp/apreqAb3dEf")

theorem postParser_multipart {r : RequestRec} (method : r.method = bytes "POST")
    (headers : r.headersIn =
      [⟨bytes "Content-Type", bytes "multipart/form-data; boundary=b", false⟩]) :
    Session.postParser r = some (bytes "multipart/form-data; boundary=b", .multipart) := by
  rw [Session.postParser, if_neg (by simp [method]), Session.bodyParser, headers]
  decide +kernel

theorem partsRequest_posts (body : Delivery) {s : Session} (unread : s.reads = []) :
    PostsParts s (partsRequest body) (bytes "multipart/form-data; boundary=b") (bytes "b")
      body where
  parser := postParser_multipart rfl rfl
  isBoundary := by decide +kernel
  stores _ := rfl
  delivers read := by simp [partsRequest, Session.limits, unread]

theorem multipartForm_values_cut :
    (({ request := { r := some (partsRequest cutParts) } } : Session).parsePost 5 true).1 =
        .returned (aprTableToList paramsCallback (some (sampleEntries.map FormEntry.param))) ∧
      (({ request := { r := some (partsRequest cutParts) } } : Session).parsePost 5 false).1 =
        .returned (filesValue (partsRequest cutParts) (sampleEntries.map FormEntry.param)) :=
  multipartForm_values (by decide +kernel) sampleEntries ⟨rfl, rfl, rfl⟩ (partsRequest_posts _ rfl)
    cutParts_bytes (by decide +kernel)

end Values

end RApache
