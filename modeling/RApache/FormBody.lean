import RApache.Apreq.QueryString
import RApache.PostCalls

/-!
# Forms

The same form reaches R in a query string or in an urlencoded body.  A body is read in
brigades of buckets that the input filters cut wherever they like.
-/

namespace RApache

open Incremental

/-- The bytes of a body. -/
def Delivery.bytes (body : Delivery) : Bytes := body.brigades.flatten.flatten

/-! ## The loop of `parsePost` over an urlencoded body -/

section Loop

variable (env : Environment)

/-- The parser of an urlencoded body between two reads, from what the bytes so far give. -/
def FormRun (run : Run Parser) : Reading UInt8 ParamTable (AprStatus × ParamTable) → Prop
  | .waiting t kept =>
      run.bb = [] ∧ run.t = t ∧ ∃ ctx, run.ctx = .urlencoded ctx ∧
        Brigade.content (ctx.getD ⟨[], .name⟩).bb = kept ∧ .eos ∉ (ctx.getD ⟨[], .name⟩).bb ∧
          ((ctx.getD ⟨[], .name⟩).status = .name ∨ (ctx.getD ⟨[], .name⟩).status = .value)
  | .stopped (_, t) =>
      run.bb = [] ∧ run.t = t ∧ ∃ ctx, run.ctx = .urlencoded (some ctx) ∧ ctx.status = .error

variable {env}

/-- A parser that has not failed looks at what it has kept and at the new brigade. -/
theorem apreqParseUrlencoded_eq {ctx : Option UrlCtx} (t : ParamTable) (bb : Brigade)
    (active : (ctx.getD ⟨[], .name⟩).status = .name ∨ (ctx.getD ⟨[], .name⟩).status = .value) :
    apreqParseUrlencoded env ctx t bb = parseUrlLoop env t ((ctx.getD ⟨[], .name⟩).bb ++ bb) := by
  unfold apreqParseUrlencoded
  rcases active with atName | atValue
  · simp only [atName]
  · simp only [atValue]

theorem content_data (buffers : List Bytes) :
    Brigade.content (buffers.map .data) = buffers.flatten := by
  induction buffers with
  | nil => rfl
  | cons buffer buffers ih => simp [ih, Bucket.read]

theorem eos_not_mem_data (buffers : List Bytes) : .eos ∉ buffers.map Bucket.data := by
  simp

/-- A run of a parser that has not failed, over buffers and what comes behind them. -/
theorem FormRun.waiting {run : Run Parser} {t : ParamTable} {kept : Bytes}
    (isRun : FormRun run (.waiting t kept)) (buffers : List Bytes) {tail : Brigade}
    (ends : tail.Ends) :
    ∃ url : UrlRun, apreqParserRun env { run with bb := buffers.map .data ++ tail } =
        some (url.status, { run with ctx := .urlencoded (some url.ctx), t := url.t, bb := url.bb }) ∧
      url.Reads env tail ((formReader env).read t (kept ++ buffers.flatten)) := by
  rcases isRun with ⟨-, rfl, ctx, isCtx, content, noEos, active⟩
  have open_ : .eos ∉ (ctx.getD ⟨[], .name⟩).bb ++ buffers.map .data := by
    intro isEos
    rcases List.mem_append.mp isEos with isEos | isEos
    · exact noEos isEos
    · exact eos_not_mem_data buffers isEos
  rcases parseUrlLoop_reads env run.t open_ ends with ⟨url, parsed, reads⟩
  rw [Brigade.content_append, content, content_data] at reads
  refine ⟨url, ?_, reads⟩
  rw [List.append_assoc] at parsed
  simp only [apreqParserRun, isCtx, apreqParseUrlencoded_eq run.t _ active, parsed,
    Option.map_some]

/-- A parser that has failed gives back what it is given. -/
theorem FormRun.stopped {run : Run Parser} {result : AprStatus × ParamTable}
    (isRun : FormRun run (.stopped result)) (env : Environment) (bb : Brigade) :
    apreqParserRun env { run with bb } = some (.general, { run with bb }) := by
  rcases isRun with ⟨-, -, ctx, isCtx, failed⟩
  simp only [apreqParserRun, isCtx, apreqParseUrlencoded_error env failed, Option.map_some]

/-- A brigade in the middle of the body. -/
theorem FormRun.data {run : Run Parser} {reading : Reading UInt8 ParamTable _}
    (isRun : FormRun run reading) (env : Environment) (buffers : List Bytes) :
    ∃ status after, apreqParserRun env { run with bb := buffers.map .data } =
        some (status, after) ∧ after.bb.endsEos = false ∧
      FormRun { after with bb := [] } ((formReader env).resume reading buffers.flatten) := by
  cases reading with
  | stopped result =>
      refine ⟨_, _, isRun.stopped env _, Brigade.not_endsEos (eos_not_mem_data buffers), ?_⟩
      rcases isRun with ⟨-, isTable, failed⟩
      exact ⟨rfl, isTable, failed⟩
  | waiting t kept =>
      rcases isRun.waiting buffers (.inl rfl) with ⟨url, ran, reads⟩
      rw [List.append_nil] at ran
      refine ⟨_, _, ran, ?_⟩
      rw [Reader.resume]
      cases read : (formReader env).read t (kept ++ buffers.flatten) with
      | stopped result =>
          rw [read] at reads
          rcases reads with ⟨-, isTable, failed, empty⟩
          exact ⟨by simp [empty, Brigade.endsEos], rfl, isTable, url.ctx, rfl, failed⟩
      | waiting t' kept' =>
          rw [read] at reads
          rcases reads with ⟨-, isTable, empty, open_, isKept, active⟩
          exact ⟨by simp [empty, Brigade.endsEos], rfl, isTable, some url.ctx, rfl, isKept, open_,
            active⟩

/-- The brigade with the end of the stream. -/
theorem FormRun.last {run : Run Parser} {reading : Reading UInt8 ParamTable _}
    (isRun : FormRun run reading) (buffers : List Bytes) :
    ∃ status after, apreqParserRun env { run with bb := buffers.map .data ++ [.eos] } =
        some (status, after) ∧
      after.t = (formOutcome env ((formReader env).resume reading buffers.flatten)).2 ∧
      (after.bb.endsEos ∨ ∃ result, FormRun { after with bb := [] } (.stopped result)) := by
  cases reading with
  | stopped result =>
      refine ⟨_, _, isRun.stopped env _, ?_, .inl (Brigade.endsEos_append _ rfl)⟩
      rcases isRun with ⟨-, isTable, -⟩
      exact isTable
  | waiting t kept =>
      rcases isRun.waiting buffers (.inr ⟨[], rfl⟩) with ⟨url, ran, reads⟩
      refine ⟨_, _, ran, ?_⟩
      rw [Reader.resume]
      cases read : (formReader env).read t (kept ++ buffers.flatten) with
      | stopped result =>
          rw [read] at reads
          rcases reads with ⟨-, isTable, failed, -⟩
          exact ⟨isTable, .inr ⟨result, rfl, isTable, url.ctx, rfl, failed⟩⟩
      | waiting t' kept' =>
          rw [read] at reads
          rcases reads with ⟨result, front, isRest⟩
          refine ⟨congrArg Prod.snd result, .inl ?_⟩
          simp only [isRest]
          exact Brigade.endsEos_append front rfl

theorem FormRun.empty {run : Run Parser} {reading : Reading UInt8 ParamTable _}
    (isRun : FormRun run reading) : run.bb = [] := by
  cases reading with
  | waiting t kept => exact isRun.1
  | stopped result => exact isRun.1

theorem FormRun.table {run : Run Parser} {result : AprStatus × ParamTable}
    (isRun : FormRun run (.stopped result)) : run.t = result.2 := isRun.2.1

/-- One turn of the loop. -/
theorem parsePostLoop_turn {body : Delivery} {fuel reads : Nat} {run after : Run Parser}
    {status : AprStatus} (empty : run.bb = [])
    (ran : apreqParserRun env { run with bb := body.brigade reads } = some (status, after)) :
    parsePostLoop env body.getBrigade (fuel + 1) reads run =
      if after.bb.endsEos then some (.left (reads + 1) after)
      else parsePostLoop env body.getBrigade fuel (reads + 1) { after with bb := [] } := by
  simp only [parsePostLoop, Delivery.getBrigade, empty, List.nil_append, ran]

/-- The brigade with the end of the stream ends the loop, or the next one does if the parser has
failed in it. -/
theorem parsePostLoop_last {body : Delivery} {fuel reads : Nat} {run : Run Parser}
    {reading : Reading UInt8 ParamTable _} (buffers : List Bytes) (isRun : FormRun run reading)
    (isLast : body.brigade reads = buffers.map .data ++ [.eos])
    (nothing : body.brigade (reads + 1) = [.eos]) :
    ∃ count after, parsePostLoop env body.getBrigade (fuel + 2) reads run =
        some (.left count after) ∧
      after.t = (formOutcome env ((formReader env).resume reading buffers.flatten)).2 := by
  rcases isRun.last buffers with ⟨status, after, ran, table, ends⟩
  rw [← isLast] at ran
  rw [parsePostLoop_turn isRun.empty ran]
  rcases ends with ends | ⟨result, failed⟩
  · exact ⟨_, after, if_pos ends, table⟩
  · split
    next => exact ⟨_, after, rfl, table⟩
    next =>
      have again := failed.stopped env [.eos]
      rw [← nothing] at again
      refine ⟨_, _, (parsePostLoop_turn rfl again).trans (if_pos ?_), table⟩
      rw [nothing]
      rfl

/-- What the loop makes of the rest of a body. -/
theorem parsePostLoop_rest {body : Delivery} {fuel reads : Nat} {run : Run Parser}
    {reading : Reading UInt8 ParamTable _} (isRun : FormRun run reading)
    (sofar : reads ≤ body.brigades.length) (enough : body.brigades.length + 2 ≤ fuel + reads) :
    ∃ count after, parsePostLoop env body.getBrigade fuel reads run = some (.left count after) ∧
      after.t = (formOutcome env
        ((formReader env).resume reading (body.brigades.drop reads).flatten.flatten)).2 := by
  induction fuel generalizing reads run reading with
  | zero => omega
  | succ fuel ih =>
      rcases Nat.eq_or_lt_of_le sofar with atEnd | inside
      · rcases Nat.exists_eq_succ_of_ne_zero (show fuel ≠ 0 by omega) with ⟨fuel, rfl⟩
        have nothing : body.brigade reads = [.eos] := body.brigade_after (Nat.le_of_eq atEnd.symm)
        have nothing' : body.brigade (reads + 1) = [.eos] := body.brigade_after (by omega)
        rw [atEnd, List.drop_length]
        rw [← atEnd]
        exact parsePostLoop_last [] isRun nothing nothing'
      · have isBrigade := List.getElem?_eq_getElem inside
        have rest : (body.brigades.drop reads).flatten.flatten =
            body.brigades[reads].flatten ++ (body.brigades.drop (reads + 1)).flatten.flatten := by
          rw [List.drop_eq_getElem_cons inside, List.flatten_cons, List.flatten_append]
        rcases Nat.eq_or_lt_of_le (show reads + 1 ≤ body.brigades.length from inside) with
          isLast | more
        · rcases Nat.exists_eq_succ_of_ne_zero (show fuel ≠ 0 by omega) with ⟨fuel, rfl⟩
          have brigade : body.brigade reads = body.brigades[reads].map .data ++ [.eos] := by
            simp [Delivery.brigade, isBrigade, isLast]
          have nothing : body.brigade (reads + 1) = [.eos] :=
            body.brigade_after (Nat.le_of_eq isLast.symm)
          rw [rest, isLast, List.drop_length, List.flatten_nil,
            List.flatten_nil, List.append_nil]
          exact parsePostLoop_last _ isRun brigade nothing
        · have brigade : body.brigade reads = body.brigades[reads].map .data := by
            have notLast : ¬ reads + 1 = body.brigades.length := by omega
            simp [Delivery.brigade, isBrigade, notLast]
          rcases isRun.data env body.brigades[reads] with
            ⟨status, after, ran, goesOn, isRun'⟩
          rw [← brigade] at ran
          rw [parsePostLoop_turn isRun.empty ran, if_neg (by simp [goesOn])]
          rcases ih isRun' more.le (by omega) with ⟨count, last, looped, table⟩
          refine ⟨count, last, looped, ?_⟩
          rw [table, rest, (formReader_lawful env).resume_append]

/-- However the filters cut an urlencoded body into brigades and buckets, the loop of `parsePost`
ends, and its table is the one of the bytes of the body. -/
theorem parsePostLoop_form (env : Environment) (contentType : Bytes) (body : Delivery)
    {fuel : Nat} (enough : body.brigades.length + 2 ≤ fuel) :
    ∃ reads run, parsePostLoop env body.getBrigade fuel 0
        (parsePostStart contentType .urlencoded) = some (.left reads run) ∧
      run.t = (formResult env body.bytes).2 := by
  have start : FormRun (parsePostStart contentType .urlencoded)
      ((formReader env).read [] []) := by
    rw [(formReader env).read_wait (show (formReader env).turn [] [] = .wait [] from rfl)]
    exact ⟨rfl, rfl, none, rfl, rfl, by simp, .inl rfl⟩
  have size : body.brigades.length + 2 ≤ fuel + 0 := by omega
  rcases parsePostLoop_rest start (Nat.zero_le _) size with ⟨reads, run, looped, table⟩
  refine ⟨reads, run, looped, ?_⟩
  rw [table, List.drop_zero, ← (formReader_lawful env).read_append, List.nil_append]
  rfl

theorem parsePostLoop_form_cut :
    ∃ reads run, parsePostLoop ⟨.ok, fun _ => .stored⟩
        (Delivery.getBrigade ⟨[[bytes "a=%"], [], [bytes "4", bytes "1"]]⟩) 5 0
        (parsePostStart [] .urlencoded) = some (.left reads run) ∧
      run.t = (formResult ⟨.ok, fun _ => .stored⟩ (bytes "a=%41")).2 :=
  parsePostLoop_form ⟨.ok, fun _ => .stored⟩ [] ⟨[[bytes "a=%"], [], [bytes "4", bytes "1"]]⟩
    (by decide +kernel)

end Loop

/-! ## The values that R sees -/

section Values

variable (old : Bytes → Nat → UInt8)

/-- A text is decoded in one buffer as by `apreq_decode`; only the number of an error differs. -/
theorem decodeBuffers_single (text value : Bytes) :
    decodeBuffers old [text] = .ok value ↔ decodeText old text = .ok value := by
  have decoded (old : Nat → UInt8) : apreqDecodev old [text] = apreqDecode text := rfl
  have same : decodevValue (apreqDecode text) ≤ Charset.utf8.code ↔
      (apreqDecode text).value ≤ Charset.utf8.code := by
    unfold decodevValue UrlDecoded.value
    cases (apreqDecode text).status with
    | success => rfl
    | incomplete => rfl
    | badSeq =>
        simp only [DecodeStatus.code, Charset.code]
        omega
  simp only [decodeBuffers, decodeText, decoded, same, List.flatten_singleton]
  split
  next => rfl
  next => simp

theorem decodePair_ok {decode : Bytes → Except AprStatus Bytes} {name value : Bytes}
    {param : Param} :
    decodePair decode name value = .ok param ↔
      ∃ value' name', decode value = .ok value' ∧ decode name = .ok name' ∧
        param = ⟨name', value', false⟩ := by
  unfold decodePair
  cases decode value with
  | error status => simp
  | ok value' =>
      cases decode name with
      | error status => simp
      | ok name' => simp [eq_comm]

/-- Two decoders that read the same texts in the same way find the same parameters. -/
theorem decodeWords_congr {decode decode' : Bytes → Except AprStatus Bytes}
    (same : ∀ text value, decode text = .ok value ↔ decode' text = .ok value) (t : ParamTable)
    (words : List RawWord) : decodeWords decode t words = decodeWords decode' t words := by
  have pair (name value : Bytes) (param : Param) :
      decodePair decode name value = .ok param ↔ decodePair decode' name value = .ok param := by
    simp only [decodePair_ok, same]
  induction words generalizing t with
  | nil => rfl
  | cons word words ih =>
      simp only [decodeWords]
      cases isParam : decodePair decode word.name word.value with
      | ok param =>
          rw [(pair _ _ _).mp isParam]
          exact ih _
      | error status =>
          cases isParam' : decodePair decode' word.name word.value with
          | error status => rfl
          | ok param =>
              rw [(pair _ _ _).mpr isParam'] at isParam
              cases isParam

/-- A request with a query string, which `apreq_parse_query_string` parses. -/
structure Asks (r : RequestRec) (text : Bytes) : Prop where
  args : r.args = some text
  parses : ∀ args, r.parseQueryString args = (apreqParseQueryString old [] args).2

/-- A request with an urlencoded body, which the filters deliver in some brigades. -/
structure Posts (s : Session) (r : RequestRec) (body : Delivery) : Prop where
  parser : ∃ contentType, Session.postParser r = some (contentType, .urlencoded)
  decodes : ∀ text, r.apreq.decodev text = decodeBuffers old [text]
  delivers : ∀ read, r.getBrigade (s.limits ++ List.replicate read hugeStringLen)
    hugeStringLen = .ok (body.brigade read)

theorem parseGet_value {s : Session} {r : RequestRec} {text : Bytes}
    (current : s.request.r = some r) (notParsed : s.request.argsTable = none)
    (asks : Asks old r text) :
    s.parseGet.1 = .returned (aprTableToList paramsCallback
      (some (apreqParseQueryString old [] text).2)) := by
  simp only [Session.parseGet, current, notParsed, asks.args, asks.parses]

theorem parsePost_value {s : Session} {r : RequestRec} {body : Delivery} {fuel : Nat}
    (unread : Session.Unread r s) (posts : Posts old s r body)
    (enough : body.brigades.length + 2 ≤ fuel) :
    (s.parsePost fuel true).1 = .returned (aprTableToList paramsCallback
      (some (formResult r.apreq body.bytes).2)) := by
  rcases posts.parser with ⟨contentType, parser⟩
  have delivered : (fun read => r.getBrigade (s.limits ++ List.replicate read hugeStringLen)
      hugeStringLen) = body.getBrigade := funext posts.delivers
  rcases parsePostLoop_form r.apreq contentType body enough with ⟨reads, run, looped, table⟩
  rw [Session.parsePost_eq unread.current, if_neg (by simp [unread.notStarted]),
    if_neg (by simp [unread.notParsed]), parser]
  simp only [Session.startParse, delivered, looped, ← table]
  rfl

/-- A form gives R the same value in a query string and in a body. -/
theorem form_get_post {words : List RawWord} {text : Bytes} (form : FormText words text)
    (noNul : 0 ∉ text) {s s' : Session} {r r' : RequestRec} {body : Delivery} {fuel : Nat}
    (current : s.request.r = some r) (notParsed : s.request.argsTable = none)
    (asks : Asks old r text) (unread : Session.Unread r' s') (posts : Posts old s' r' body)
    (isBody : body.bytes = text) (enough : body.brigades.length + 2 ≤ fuel) :
    s.parseGet.1 = (s'.parsePost fuel true).1 := by
  rw [parseGet_value old current notParsed asks, parsePost_value old unread posts enough, isBody,
    apreqParseQueryString_form old form noNul]
  rw [formResult, formReader_form form, decodeWords_congr]
  intro text value
  rw [posts.decodes]
  exact (decodeBuffers_single old text value).symm

/-- An encoded form comes back as the list of its parameters, from a query string and from a
body that is cut anywhere. -/
theorem encodedForm_values (locale : UInt8 → Bool) {params : List Param}
    (encodable : ∀ param ∈ params, Encodable param) {s s' : Session} {r r' : RequestRec}
    {body : Delivery} {fuel : Nat}
    (current : s.request.r = some r) (notParsed : s.request.argsTable = none)
    (asks : Asks old r (encodedForm locale params)) (unread : Session.Unread r' s')
    (posts : Posts old s' r' body) (isBody : body.bytes = encodedForm locale params)
    (enough : body.brigades.length + 2 ≤ fuel) :
    s.parseGet.1 = .returned (aprTableToList paramsCallback (some params)) ∧
      (s'.parsePost fuel true).1 = .returned (aprTableToList paramsCallback (some params)) := by
  rcases encodedForm_words locale encodable with ⟨words, form, back⟩
  have noNul := encodedForm_noNul locale params
  have value : s.parseGet.1 = .returned (aprTableToList paramsCallback (some params)) := by
    rw [parseGet_value old current notParsed asks, apreqParseQueryString_form old form noNul,
      back _ _ fun text => decodeText_encoded locale old, List.nil_append]
  refine ⟨value, ?_⟩
  rw [← form_get_post old form noNul current notParsed asks unread posts isBody enough, value]

/-- A request with a query string. -/
def askingRequest (text : Bytes) : RequestRec where
  address := 0
  handler := bytes "r-handler"
  args := some text
  parseQueryString args := (apreqParseQueryString old [] args).2

/-- A request with an urlencoded body. -/
def postingRequest (body : Delivery) : RequestRec where
  address := 0
  handler := bytes "r-handler"
  method := bytes "POST"
  headersIn := [⟨bytes "Content-Type", bytes "application/x-www-form-urlencoded", false⟩]
  getBrigade limits _ := .ok (body.brigade limits.length)
  apreq := ⟨fun text => decodeBuffers old [text], fun _ => .stored⟩

theorem askingRequest_asks (text : Bytes) : Asks old (askingRequest old text) text :=
  ⟨rfl, fun _ => rfl⟩

theorem postParser_urlencoded {r : RequestRec} (method : r.method = bytes "POST")
    (headers : r.headersIn =
      [⟨bytes "Content-Type", bytes "application/x-www-form-urlencoded", false⟩]) :
    Session.postParser r =
      some (bytes "application/x-www-form-urlencoded", .urlencoded) := by
  rw [Session.postParser, if_neg (by simp [method]), Session.bodyParser, headers]
  decide +kernel

theorem postingRequest_posts (body : Delivery) {s : Session} (unread : s.reads = []) :
    Posts old s (postingRequest old body) body where
  parser := ⟨_, postParser_urlencoded rfl rfl⟩
  decodes _ := rfl
  delivers read := by simp [postingRequest, Session.limits, unread]

/-- Two words, of which the second cannot be decoded. -/
theorem form_get_post_undecodable :
    ({ request := { r := some (askingRequest (fun _ _ => 0) (bytes "a=1;b=%zz&")) } } :
        Session).parseGet.1 =
      (({ request := { r := some (postingRequest (fun _ _ => 0)
        ⟨[[bytes "a=1;b"], [bytes "=%", bytes "zz&"]]⟩) } } : Session).parsePost 4 true).1 := by
  have form : FormText
      [⟨bytes "a", bytes "1", by decide, by decide +kernel, by decide +kernel, by decide +kernel⟩,
        ⟨bytes "b", bytes "%zz", by decide, by decide +kernel, by decide +kernel,
          by decide +kernel⟩]
      (bytes "a=1;b=%zz&") :=
    have semicolon : isSeparator (byte ';') := by decide
    have ampersand : isSeparator (byte '&') := by decide
    .cons _ semicolon (.cons _ ampersand .empty)
  exact form_get_post (fun _ _ => 0) form (by decide +kernel) rfl rfl (askingRequest_asks _ _)
    ⟨rfl, rfl, rfl⟩ (postingRequest_posts _ _ rfl) (by decide +kernel) (by decide)

/-- A body in which the cuts run through an escape. -/
def cutBody : Delivery := ⟨[[bytes "a=%C3", bytes "%A"], [bytes "9&b"], [bytes "=+"]]⟩

theorem encodedForm_values_cut :
    ({ request := { r := some (askingRequest (fun _ _ => 0) (bytes "a=%C3%A9&b=+")) } } :
        Session).parseGet.1 = .returned (aprTableToList paramsCallback
      (some [⟨bytes "a", [0xC3, 0xA9], false⟩, ⟨bytes "b", bytes " ", false⟩])) ∧
    (({ request := { r := some (postingRequest (fun _ _ => 0) cutBody) } } :
        Session).parsePost 5 true).1 = .returned (aprTableToList paramsCallback
      (some [⟨bytes "a", [0xC3, 0xA9], false⟩, ⟨bytes "b", bytes " ", false⟩])) := by
  have ascii (c : UInt8) (plain : c < 0x80) : WholeSequences [c] :=
    have length : List.length ([] : Bytes) = continuations c := by
      simp [continuations, UInt8.lt_trans plain (show (0x80 : UInt8) < 0xC0 by decide)]
    .cons (UInt8.lt_trans plain (by decide)) length (by simp) .nil
  have text : encodedForm (fun _ => false)
      [⟨bytes "a", [0xC3, 0xA9], false⟩, ⟨bytes "b", bytes " ", false⟩] =
        bytes "a=%C3%A9&b=+" := by decide +kernel
  refine encodedForm_values (fun _ _ => 0) (fun _ => false) ?_ rfl rfl ?_ ⟨rfl, rfl, rfl⟩
    (postingRequest_posts _ cutBody rfl) ?_ (by decide +kernel)
  · intro param isParam
    simp only [List.mem_cons, List.not_mem_nil, or_false] at isParam
    rcases isParam with rfl | rfl
    · exact ⟨by decide +kernel, ascii 97 (by decide +kernel), accented_whole, rfl⟩
    · exact ⟨by decide +kernel, ascii 98 (by decide +kernel), ascii 32 (by decide +kernel), rfl⟩
  · rw [text]
    exact askingRequest_asks _ _
  · rw [text]
    decide +kernel

end Values

end RApache
