import RApache.Session

/-!
# One reader of the body

R code and `libapreq2` both read the body from the input filters.  The flags
`readStarted` and `postParsed` keep them apart.
-/

namespace RApache

namespace Session

/-- The globals when `SetUpRequest` has succeeded, if no request was in progress.  What
is left from before are R's variables and console. -/
def setUp (left : Session) (r : RequestRec) (handler : Option RApacheDirective) : Session :=
  { left with
    request := { r := some r, handler }
    bbIn := none
    bbOut := some []
    bbErr := none
    status := r.status
    contentType := r.contentType
    reads := [] }

/-- What a call can do to the flags and to the body. -/
inductive BodyStep (s s' : Session) : Prop where
  /-- Neither reader reads. -/
  | quiet
      (readStarted : s'.request.readStarted = s.request.readStarted)
      (postParsed : s'.request.postParsed = s.request.postParsed)
      (reads : s'.reads = s.reads)
  /-- R reads; the body was not parsed before. -/
  | reading (more : List Read)
      (notParsed : s.request.postParsed = false)
      (readStarted : s'.request.readStarted = true)
      (postParsed : s'.request.postParsed = false)
      (reads : s'.reads = s.reads ++ more)
      (byR : ∀ read ∈ more, read.reader = .r)
  /-- The body is parsed; R had not started to read it. -/
  | parsing (more : List Read)
      (notStarted : s.request.readStarted = false)
      (readStarted : s'.request.readStarted = false)
      (postParsed : s'.request.postParsed = true)
      (reads : s'.reads = s.reads ++ more)
      (byLibapreq : ∀ read ∈ more, read.reader = .libapreq)

/-- What a call can do: it keeps the request, and is a body step. -/
structure CallStep (s s' : Session) : Prop where
  r : s'.request.r = s.request.r
  handler : s'.request.handler = s.request.handler
  writer : s'.writer = s.writer
  body : BodyStep s s'

theorem CallStep.refl (s : Session) : CallStep s s := ⟨rfl, rfl, rfl, .quiet rfl rfl rfl⟩

/-- A call that changes neither `MR_Request` nor the reads. -/
theorem CallStep.quiet {s s' : Session} (request : s'.request = s.request)
    (writer : s'.writer = s.writer) (reads : s'.reads = s.reads) : CallStep s s' :=
  ⟨by rw [request], by rw [request], writer,
    .quiet (by rw [request]) (by rw [request]) reads⟩

theorem BodyStep.trans {s s' s'' : Session} (first : BodyStep s s')
    (next : BodyStep s' s'') : BodyStep s s'' := by
  cases first with
  | quiet readStarted postParsed reads =>
      cases next with
      | quiet readStarted' postParsed' reads' =>
          exact .quiet (readStarted'.trans readStarted) (postParsed'.trans postParsed)
            (reads'.trans reads)
      | reading more notParsed readStarted' postParsed' reads' byR =>
          exact .reading more (postParsed ▸ notParsed) readStarted' postParsed'
            (reads ▸ reads') byR
      | parsing more notStarted readStarted' postParsed' reads' byLibapreq =>
          exact .parsing more (readStarted ▸ notStarted) readStarted' postParsed'
            (reads ▸ reads') byLibapreq
  | reading more notParsed readStarted postParsed reads byR =>
      cases next with
      | quiet readStarted' postParsed' reads' =>
          exact .reading more notParsed (readStarted'.trans readStarted)
            (postParsed'.trans postParsed) (reads'.trans reads) byR
      | reading later _ readStarted' postParsed' reads' byR' =>
          refine .reading (more ++ later) notParsed readStarted' postParsed' ?_ ?_
          · rw [reads', reads, List.append_assoc]
          · intro read member
            exact (List.mem_append.mp member).elim (byR read) (byR' read)
      | parsing _ notStarted => simp [readStarted] at notStarted
  | parsing more notStarted readStarted postParsed reads byLibapreq =>
      cases next with
      | quiet readStarted' postParsed' reads' =>
          exact .parsing more notStarted (readStarted'.trans readStarted)
            (postParsed'.trans postParsed) (reads'.trans reads) byLibapreq
      | reading _ notParsed => simp [postParsed] at notParsed
      | parsing later _ readStarted' postParsed' reads' byLibapreq' =>
          refine .parsing (more ++ later) notStarted readStarted' postParsed' ?_ ?_
          · rw [reads', reads, List.append_assoc]
          · intro read member
            exact (List.mem_append.mp member).elim (byLibapreq read) (byLibapreq' read)

theorem CallStep.trans {s s' s'' : Session} (first : CallStep s s')
    (next : CallStep s' s'') : CallStep s s'' where
  r := next.r.trans first.r
  handler := next.handler.trans first.handler
  writer := next.writer.trans first.writer
  body := first.body.trans next.body

/-! ## Spec lemmas of the functions -/

@[simp] theorem noteRead_reads (reader : BodyReader) (length : Nat) (s : Session) :
    (s.noteRead reader length).reads = s.reads ++ [⟨reader, length⟩] := rfl

@[simp] theorem noteRead_request (reader : BodyReader) (length : Nat) (s : Session) :
    (s.noteRead reader length).request = s.request := rfl

theorem rApacheError_eq {msg : Bytes} {s s' : Session} (called : s.rApacheError msg = some s') :
    ∃ bbErr, s' = { s with bbErr := some bbErr } := by
  unfold rApacheError at called
  split at called
  next messages _ =>
    cases called
    exact ⟨_, rfl⟩
  next =>
    rcases Option.map_eq_some_iff.mp called with ⟨_, -, same⟩
    exact ⟨_, same.symm⟩

theorem brigadeWrite_eq {buffer : Bytes} {s s' : Session}
    (called : s.brigadeWrite buffer = some s') :
    ∃ bbOut, s' = { s with bbOut := some bbOut } := by
  rcases Option.map_eq_some_iff.mp called with ⟨_, -, same⟩
  exact ⟨_, same.symm⟩

/-- A call that only may end the process before it returns. -/
theorem returning_session {value : RValue} {before : Session} {after : Option Session}
    {property : Session → Prop} (ended : property before)
    (returned : ∀ s, after = some s → property s) :
    property (returning value before after).2 := by
  cases after with
  | none => exact ended
  | some s => exact returned s rfl

/-- The loop changes the read brigade and the reads, and nothing else. -/
theorem readRequestBodyLoop_eq (r : RequestRec) (size : Nat) (buf : Bytes) (s : Session) :
    ∃ bbIn more, (readRequestBodyLoop r size buf s).2 =
        { s with bbIn, reads := s.reads ++ more } ∧
      ∀ read ∈ more, read.reader = .r := by
  fun_induction readRequestBodyLoop r size buf s with
  | case1 buf s room len error => exact ⟨s.bbIn, [⟨.r, len⟩], rfl, by simp⟩
  | case2 buf s room len bb answer brigade => exact ⟨some brigade, [⟨.r, len⟩], rfl, by simp⟩
  | case3 buf s room len bb answer brigade => exact ⟨some [], [⟨.r, len⟩], rfl, by simp⟩
  | case4 buf s room len bb answer brigade readable symbol more got ih =>
      rcases ih with ⟨bbIn, later, same, byR⟩
      refine ⟨bbIn, ⟨.r, len⟩ :: later, ?_, by simpa using byR⟩
      rw [same]
      simp [noteRead]
  | case5 buf s => exact ⟨s.bbIn, [], by simp, by simp⟩

/-- What `ReadRequestBody` can do. -/
theorem readRequestBody_cases {size : Int32} {s s' : Session} {got : Bytes}
    (called : s.readRequestBody size = some (got, s')) :
    (s.request.postParsed = true ∧ got = [] ∧ ∃ bbErr, s' = { s with bbErr }) ∨
      (s.request.postParsed = false ∧ ∃ bbIn more,
        s' = { s with
          request := { s.request with readStarted := true }
          bbIn
          reads := s.reads ++ more } ∧
        ∀ read ∈ more, read.reader = .r) := by
  unfold readRequestBody at called
  split at called
  next => simp at called
  next r _ =>
    split at called
    next parsed =>
      rcases Option.map_eq_some_iff.mp called with ⟨after, error, same⟩
      cases same
      rcases rApacheError_eq error with ⟨bbErr, same⟩
      exact .inl ⟨parsed, rfl, some bbErr, same⟩
    next notParsed =>
      simp only [Option.some.injEq] at called
      refine .inr ⟨by simpa using notParsed, ?_⟩
      have spec := readRequestBodyLoop_eq r (sizeOfInt size).toNat []
        { s with
          request := { s.request with readStarted := true }
          bbIn := some (s.bbIn.getD []) }
      rw [called] at spec
      exact spec

theorem readRequestBody_callStep {size : Int32} {s s' : Session} {got : Bytes}
    (called : s.readRequestBody size = some (got, s')) : CallStep s s' := by
  rcases readRequestBody_cases called with
    ⟨-, -, bbErr, same⟩ | ⟨notParsed, bbIn, more, same, byR⟩
  · rw [same]
    exact .quiet rfl rfl rfl
  · rw [same]
    exact ⟨rfl, rfl, rfl, .reading more notParsed rfl notParsed rfl byR⟩

theorem receiveAll_callStep (fuel : Nat) (size blen : UInt64) (buf : Bytes) (s : Session) :
    CallStep s (receiveAll fuel size blen buf s).2 := by
  induction fuel generalizing size blen buf s with
  | zero => exact .refl s
  | succ fuel ih =>
      simp only [receiveAll]
      split
      next => exact .refl s
      next got s' called =>
        split
        next => exact (readRequestBody_callStep called).trans (ih ..)
        next => exact readRequestBody_callStep called

theorem receiveBin_callStep (fuel : Nat) (llen : Int32) (s : Session) :
    CallStep s (s.receiveBin fuel llen).2 := by
  unfold receiveBin
  split
  next =>
    split
    next => exact .refl s
    next called => exact readRequestBody_callStep called
  next =>
    split
    next => exact receiveAll_callStep ..
    next => exact .refl s

theorem readConsole_callStep (size : Int32) (s : Session) :
    CallStep s (s.readConsole size).2 := by
  unfold readConsole
  split
  next => exact .refl s
  next called => exact readRequestBody_callStep called

theorem rApacheError_callStep (value : RValue) (msg : Bytes) (s : Session) :
    CallStep s (returning value s (s.rApacheError msg)).2 := by
  refine returning_session (.refl s) ?_
  intro s' called
  rcases rApacheError_eq called with ⟨bbErr, same⟩
  rw [same]
  exact .quiet rfl rfl rfl

theorem startParse_callStep (fuel : Nat) (returnPost : Bool) (r : RequestRec)
    (contentType : Bytes) (pfn : ParserFunction) {s : Session}
    (notStarted : s.request.readStarted = false) :
    CallStep s (s.startParse fuel returnPost r contentType pfn).2 := by
  have byLibapreq (reads : Nat) :
      ∀ read ∈ List.replicate reads (⟨.libapreq, hugeStringLen⟩ : Read),
        read.reader = .libapreq := by
    intro read member
    rw [List.eq_of_mem_replicate member]
  simp only [startParse]
  split
  next =>
    exact ⟨rfl, rfl, rfl, .parsing _ notStarted notStarted rfl rfl (byLibapreq fuel)⟩
  next reads _ =>
    exact ⟨rfl, rfl, rfl, .parsing _ notStarted notStarted rfl rfl (byLibapreq reads)⟩
  next reads run _ =>
    exact ⟨rfl, rfl, rfl, .parsing _ notStarted notStarted rfl rfl (byLibapreq reads)⟩

theorem parsePost_callStep (fuel : Nat) (returnPost : Bool) (s : Session) :
    CallStep s (s.parsePost fuel returnPost).2 := by
  unfold parsePost
  split
  next => exact .refl s
  next r _ =>
    split
    next => exact rApacheError_callStep ..
    next notStarted =>
      split
      next => exact .refl s
      next =>
        split
        next => exact ⟨rfl, rfl, rfl, .quiet rfl rfl rfl⟩
        next =>
          split
          next => exact ⟨rfl, rfl, rfl, .quiet rfl rfl rfl⟩
          next => exact startParse_callStep _ _ _ _ _ (by simpa using notStarted)

/-- A session that remembers other tables of the request, or another list of its members. -/
structure Remembers (s s' : Session) : Prop where
  request : ∃ argsTable cookiesTable serverVar,
    s' = { s with request := { s.request with argsTable, cookiesTable, serverVar } }

theorem parseGet_remembers (s : Session) : Remembers s s.parseGet.2 := by
  unfold parseGet
  split
  next => exact ⟨_, _, _, rfl⟩
  next => exact ⟨_, _, _, rfl⟩
  next =>
    split
    next => exact ⟨_, _, _, rfl⟩
    next => exact ⟨_, _, _, rfl⟩

theorem parseCookies_remembers (s : Session) : Remembers s s.parseCookies.2 := by
  unfold parseCookies
  split
  next => exact ⟨_, _, _, rfl⟩
  next => exact ⟨_, _, _, rfl⟩
  next =>
    split
    next => exact ⟨_, _, _, rfl⟩
    next => exact ⟨_, _, _, rfl⟩

theorem getServer_remembers (s : Session) : Remembers s s.getServer.2 := by
  unfold getServer
  split
  next => exact ⟨_, _, _, rfl⟩
  next => exact ⟨_, _, _, rfl⟩
  next =>
    split
    next => exact ⟨_, _, _, rfl⟩
    next => exact ⟨_, _, _, rfl⟩

theorem Remembers.callStep {s s' : Session} (remembers : Remembers s s') : CallStep s s' := by
  rcases remembers.request with ⟨argsTable, cookiesTable, serverVar, rfl⟩
  exact ⟨rfl, rfl, rfl, .quiet rfl rfl rfl⟩

theorem evalPromise_callStep (fuel : Nat) (var : CgiVar) (s : Session) :
    CallStep s (s.evalPromise fuel var).2 := by
  cases var with
  | get => exact (parseGet_remembers s).callStep
  | post => exact parsePost_callStep fuel true s
  | cookies => exact (parseCookies_remembers s).callStep
  | files => exact parsePost_callStep fuel false s
  | server => exact (getServer_remembers s).callStep

theorem force_callStep (fuel : Nat) (var : CgiVar) (s : Session) :
    CallStep s (s.force fuel var).2 := by
  unfold force
  split
  next =>
    split
    next => exact .refl s
    next =>
      have step := evalPromise_callStep fuel var s
      split
      next value s' evaluated =>
        rw [evaluated] at step
        exact step.trans (.quiet rfl rfl rfl)
      next callEnd s' _ evaluated =>
        rw [evaluated] at step
        exact step
  next => exact .refl s

theorem writeConsoleErrorOnly_callStep (buf : Bytes) (s : Session) :
    CallStep s (s.writeConsoleErrorOnly buf).2 := by
  unfold writeConsoleErrorOnly
  split
  next => exact rApacheError_callStep ..
  next => exact .refl s

theorem brigadeWrite_callStep (value : RValue) (buf : Bytes) (s : Session) :
    CallStep s (returning value s (s.brigadeWrite buf)).2 := by
  refine returning_session (.refl s) ?_
  intro s' called
  rcases brigadeWrite_eq called with ⟨bbOut, same⟩
  rw [same]
  exact .quiet rfl rfl rfl

theorem writeConsole_callStep (buf : Bytes) (errorFlag : Bool) (s : Session) :
    CallStep s (s.writeConsole buf errorFlag).2 := by
  unfold writeConsole writeConsoleEx
  split
  next =>
    split
    next => exact writeConsoleErrorOnly_callStep buf s
    next =>
      split
      next => exact brigadeWrite_callStep ..
      next => exact .refl s
  next => exact writeConsoleErrorOnly_callStep buf s

/-- Writing several buffers changes only `MR_BBout`. -/
theorem brigadeWrites_eq {buffers : List Bytes} {s s' : Session}
    (called : buffers.foldlM (fun s buf => s.brigadeWrite buf) s = some s') :
    ∃ bbOut, s' = { s with bbOut } := by
  induction buffers generalizing s with
  | nil =>
      cases called
      exact ⟨s'.bbOut, rfl⟩
  | cons buf buffers ih =>
      simp only [List.foldlM_cons, Option.bind_eq_bind, Option.bind_eq_some_iff] at called
      rcases called with ⟨next, written, called⟩
      rcases brigadeWrite_eq written with ⟨bbOut, sameNext⟩
      rcases ih called with ⟨bbOut', same⟩
      rw [same, sameNext]
      exact ⟨bbOut', rfl⟩

theorem sendBin_callStep (buffers : List Bytes) (s : Session) :
    CallStep s (s.sendBin buffers).2 := by
  unfold sendBin
  split
  next =>
    refine returning_session (.refl s) ?_
    intro s' called
    rcases brigadeWrites_eq called with ⟨bbOut, same⟩
    rw [same]
    exact .quiet rfl rfl rfl
  next => exact .refl s

/-- What every call can do. -/
theorem exec_callStep (fuel : Nat) (call : Call) (s : Session) :
    CallStep s (s.exec fuel call).2 := by
  cases call with
  | parseGet => exact (parseGet_remembers s).callStep
  | parsePost => exact parsePost_callStep fuel true s
  | parseFiles => exact parsePost_callStep fuel false s
  | parseCookies => exact (parseCookies_remembers s).callStep
  | getServer => exact (getServer_remembers s).callStep
  | force var => exact force_callStep fuel var s
  | assign var value =>
      simp only [exec]
      split
      next => exact .quiet rfl rfl rfl
      next => exact .refl s
  | receiveBin llen => exact receiveBin_callStep fuel llen s
  | readConsole size => exact readConsole_callStep size s
  | writeConsole buf errorFlag => exact writeConsole_callStep buf errorFlag s
  | sendBin buffers => exact sendBin_callStep buffers s
  | setStatus status =>
      simp only [exec, setStatus]
      split
      next => exact .quiet rfl rfl rfl
      next => exact .refl s
  | setContentType stype =>
      simp only [exec, setContentType]
      split
      next => exact .quiet rfl rfl rfl
      next => exact .refl s
  | internals str => exact .refl s
  | detach => exact .quiet rfl rfl rfl

/-- What a sequence of calls can do. -/
theorem execAll_callStep (fuel : Nat) (calls : List Call) (s : Session) :
    CallStep s (s.execAll fuel calls).2 := by
  induction calls generalizing s with
  | nil => exact .refl s
  | cons call calls ih =>
      have step := exec_callStep fuel call s
      simp only [execAll]
      split
      next value s' executed =>
        rw [executed] at step
        exact step.trans (ih s')
      next callEnd s' _ executed =>
        rw [executed] at step
        exact step

/-- Which fields the steps of the module keep: only the last of `TearDownRequest` clears
the request, and only `PrintTraceback` sets the console writer. -/
theorem perform_keeps (fuel : Nat) (op : SessionOp) (s : Session) :
    (op ≠ .clear → (s.perform fuel op).2.request.r = s.request.r) ∧
      ((∀ writer, op ≠ .setWriter writer) → (s.perform fuel op).2.writer = s.writer) := by
  have error (msg : Bytes) := rApacheError_callStep .null msg s
  cases op with
  | call call =>
      have step := exec_callStep fuel call s
      exact ⟨fun _ => step.r, fun _ => step.writer⟩
  | contentType type =>
      simp only [perform]
      split <;> exact ⟨fun _ => rfl, fun _ => rfl⟩
  | error msg => exact ⟨fun _ => (error msg).r, fun _ => (error msg).writer⟩
  | errorInPool msg =>
      simp only [perform]
      split
      next => exact ⟨fun _ => (error msg).r, fun _ => (error msg).writer⟩
      next => exact ⟨fun _ => rfl, fun _ => rfl⟩
  | puts text =>
      have step := brigadeWrite_callStep .null text s
      exact ⟨fun _ => step.r, fun _ => step.writer⟩
  | setWriter writer => exact ⟨fun _ => rfl, fun notWriter => (notWriter writer rfl).elim⟩
  | cleanReading => exact ⟨fun _ => rfl, fun _ => rfl⟩
  | cleanWriting flush =>
      simp only [perform, cleanWriting]
      split
      next => exact ⟨fun _ => rfl, fun _ => rfl⟩
      next => exact ⟨fun _ => rfl, fun _ => rfl⟩
      next =>
        split
        next => exact ⟨fun _ => rfl, fun _ => rfl⟩
        next => split <;> exact ⟨fun _ => rfl, fun _ => rfl⟩
  | logErrors =>
      simp only [perform, logErrors]
      split
      next => exact ⟨fun _ => rfl, fun _ => rfl⟩
      next => split <;> exact ⟨fun _ => rfl, fun _ => rfl⟩
  | clear => exact ⟨fun notClear => (notClear rfl).elim, fun _ => rfl⟩

/-! ## One reader -/

/-- At most one of the readers has started, and only that one has read. -/
structure OneReader (s : Session) : Prop where
  started : s.request.readStarted = true →
    s.request.postParsed = false ∧ ∀ read ∈ s.reads, read.reader = .r
  parsed : s.request.postParsed = true →
    s.request.readStarted = false ∧ ∀ read ∈ s.reads, read.reader = .libapreq
  unread : s.request.readStarted = false → s.request.postParsed = false → s.reads = []

theorem setUp_oneReader (left : Session) (r : RequestRec)
    (handler : Option RApacheDirective) : OneReader (setUp left r handler) where
  started := nofun
  parsed := nofun
  unread := fun _ _ => rfl

/-- The step lemma: no call lets the second reader start. -/
theorem OneReader.step {s s' : Session} (one : OneReader s) (step : CallStep s s') :
    OneReader s' := by
  cases step.body with
  | quiet readStarted postParsed reads =>
      refine ⟨?_, ?_, ?_⟩
      · rw [readStarted, postParsed, reads]
        exact one.started
      · rw [readStarted, postParsed, reads]
        exact one.parsed
      · rw [readStarted, postParsed, reads]
        exact one.unread
  | reading more notParsed readStarted postParsed reads byR =>
      have before : ∀ read ∈ s.reads, read.reader = .r := by
        cases flag : s.request.readStarted with
        | true => exact (one.started flag).2
        | false => simp [one.unread flag notParsed]
      refine ⟨?_, by simp [postParsed], by simp [readStarted]⟩
      intro _
      refine ⟨postParsed, ?_⟩
      intro read member
      rw [reads] at member
      exact (List.mem_append.mp member).elim (before read) (byR read)
  | parsing more notStarted readStarted postParsed reads byLibapreq =>
      have before : ∀ read ∈ s.reads, read.reader = .libapreq := by
        cases flag : s.request.postParsed with
        | true => exact (one.parsed flag).2
        | false => simp [one.unread notStarted flag]
      refine ⟨by simp [readStarted], ?_, by simp [postParsed]⟩
      intro _
      refine ⟨readStarted, ?_⟩
      intro read member
      rw [reads] at member
      exact (List.mem_append.mp member).elim (before read) (byLibapreq read)

theorem BodyStep.readStarted_mono {s s' : Session} (step : BodyStep s s')
    (started : s.request.readStarted = true) : s'.request.readStarted = true := by
  cases step with
  | quiet readStarted => exact readStarted.trans started
  | reading _ _ readStarted => exact readStarted
  | parsing _ notStarted => simp [started] at notStarted

theorem BodyStep.postParsed_mono {s s' : Session} (step : BodyStep s s')
    (parsed : s.request.postParsed = true) : s'.request.postParsed = true := by
  cases step with
  | quiet _ postParsed => exact postParsed.trans parsed
  | reading _ notParsed => simp [parsed] at notParsed
  | parsing _ _ _ postParsed => exact postParsed

/-- Once the body is parsed, `ReadRequestBody` reads nothing and returns zero. -/
theorem readRequestBody_parsed (size : Int32) {s s' : Session} {got : Bytes}
    (parsed : s.request.postParsed = true)
    (called : s.readRequestBody size = some (got, s')) : got = [] ∧ s'.reads = s.reads := by
  rcases readRequestBody_cases called with ⟨-, empty, bbErr, same⟩ | ⟨notParsed, -⟩
  · exact ⟨empty, by rw [same]⟩
  · simp [parsed] at notParsed

/-- Whatever handler code calls, the body of a request is read by R code or by
`libapreq`, and never by both. -/
theorem body_has_one_reader (left : Session) (r : RequestRec)
    (handler : Option RApacheDirective) (fuel : Nat) (before after : List Call) :
    let s := ((setUp left r handler).execAll fuel before).2
    let s' := (s.execAll fuel after).2
    ¬ (s.request.readStarted = true ∧ s.request.postParsed = true) ∧
    (s.request.readStarted = true → s'.request.readStarted = true) ∧
    (s.request.postParsed = true → s'.request.postParsed = true) ∧
    (s'.reads = [] ∨ ∃ reader, ∀ read ∈ s'.reads, read.reader = reader) ∧
    (s.request.readStarted = true → ∀ read ∈ s'.reads, read.reader = .r) ∧
    (s.request.postParsed = true →
      (∀ read ∈ s'.reads, read.reader = .libapreq) ∧
      ∀ size got next, s.readRequestBody size = some (got, next) →
        got = [] ∧ next.reads = s.reads) := by
  intro s s'
  have one : OneReader s :=
    (setUp_oneReader left r handler).step (execAll_callStep fuel before _)
  have later := execAll_callStep fuel after s
  have one' : OneReader s' := one.step later
  refine ⟨?_, later.body.readStarted_mono, later.body.postParsed_mono, ?_, ?_, ?_⟩
  · intro both
    have notParsed := (one.started both.1).1
    simp [both.2] at notParsed
  · cases started : s'.request.readStarted with
    | true => exact .inr ⟨_, (one'.started started).2⟩
    | false =>
        cases parsed : s'.request.postParsed with
        | true => exact .inr ⟨_, (one'.parsed parsed).2⟩
        | false => exact .inl (one'.unread started parsed)
  · intro started
    exact (one'.started (later.body.readStarted_mono started)).2
  · intro parsed
    refine ⟨(one'.parsed (later.body.postParsed_mono parsed)).2, ?_⟩
    intro size got next called
    exact readRequestBody_parsed size parsed called

end Session

end RApache
