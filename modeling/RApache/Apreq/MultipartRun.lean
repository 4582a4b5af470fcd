import RApache.Apreq.Multipart

/-!
# Runs of the multipart parser

Each step either lowers a potential and goes on, or stops.  This makes the loop of
`apreq_parse_multipart` a total function.  A run whose input ends the stream stops in
one of four ways; in one of them the parser waits for a delimiter that cannot come.
-/

namespace RApache

variable {Mix : Type} [MixParser Mix]

/-! ## What is left to do -/

/-- What a state may still do with a brigade from which no byte has been taken. -/
def MfdStatus.cost : MfdStatus → Nat
  | init => 0
  | nextline => 4
  | header => 9
  | postHeader => 8
  | param => 0
  | upload => 0
  | mixed => 1
  | complete => 0
  | error => 0

/-- What is left to do for the parser of nested parts while it is in use. -/
def MfdCtx.mixPotential (ctx : MfdCtx Mix) : Nat :=
  if ctx.status = .mixed then (ctx.mixParser.map MixParser.potential).getD 0 else 0

/-- Every byte pays for the states that its delimiter opens. -/
def MfdCtx.potential (ctx : MfdCtx Mix) : Nat :=
  3 * ctx.size + ctx.status.cost + ctx.mixPotential

def Run.potential (run : Run (MfdCtx Mix)) : Nat :=
  run.ctx.potential + 3 * run.bb.size

/-- The parser looks for a delimiter, and its input ends before one. -/
inductive Stranded (ctx : MfdCtx Mix) : Prop where
  | init (status : ctx.status = .init) {off : Nat} {held tail : Brigade}
      (partly : Held ctx.delimiter off held) (input : ctx.in_ = held ++ .eos :: tail)
  | nextline (status : ctx.status = .nextline) {off : Nat} {held tail : Brigade}
      (partly : Held (bytes "\r\n") off held) (input : ctx.in_ = held ++ .eos :: tail)

/-- No brigade of the run but the input holds an end of stream. -/
structure Run.Open (run : Run (MfdCtx Mix)) : Prop where
  ctxBb : .eos ∉ run.ctx.bb
  bb : .eos ∉ run.bb

/-- The parser has finished or failed: it no longer looks at what it is given. -/
def MfdCtx.Settled (ctx : MfdCtx Mix) : Prop :=
  ctx.status = .complete ∨ ctx.status = .error

/-- How a run stops whose input ends the stream. -/
inductive Ending (before : Run (MfdCtx Mix)) (status : AprStatus)
    (after : Run (MfdCtx Mix)) : Prop where
  | handedBack (success : status = .success) (ends : after.bb.endsEos)
      (settled : after.ctx.Settled)
  | failed (failure : status ≠ .success ∧ status ≠ .incomplete)
      (settled : after.ctx.Settled)
  | refused (failure : status ≠ .success ∧ status ≠ .incomplete)
      (ends : after.ctx.in_.endsEos) (smaller : after.potential < before.potential)
  | stranded (eof : status = .eof) (ctx : Stranded after.ctx)

/-- What a step may do. -/
inductive MfdProgress.Spec (before : Run (MfdCtx Mix)) : MfdProgress Mix → Prop where
  | again {after : Run (MfdCtx Mix)} (smaller : after.potential < before.potential)
      (opens : before.Open → after.Open)
      (ends : before.ctx.in_.endsEos → after.ctx.in_.endsEos) : Spec before (.again after)
  | stop {status : AprStatus} {after : Run (MfdCtx Mix)}
      (bound : after.potential ≤ before.potential)
      (opens : before.Open → .eos ∉ after.ctx.bb)
      (keeps : after.ctx.Settled ∨ after.bb = before.bb)
      (ends : before.ctx.in_.endsEos → Ending before status after) :
      Spec before (.stop status after)

/-! ## One step lemma for each state -/

omit [MixParser Mix] in
theorem MfdCtx.delimiter_length (ctx : MfdCtx Mix) : 2 ≤ ctx.delimiter.length := by
  simp [delimiter, bytes]

omit [MixParser Mix] in
theorem MfdCtx.bdry_length (ctx : MfdCtx Mix) : 4 ≤ ctx.bdry.length := by
  have delimiter := ctx.delimiter_length
  simp only [bdry, List.length_append]
  have crlf : (bytes "\r\n").length = 2 := rfl
  omega

/-- A brigade that ends the stream either holds the delimiter or ends before it. -/
theorem splitOnBdry_missing (pattern : Bool) {bdry : Bytes} (nonempty : bdry ≠ [])
    (out : Brigade) {in_ : Brigade} (ends : in_.endsEos)
    (missing : (splitOnBdry pattern bdry out in_).status ≠ .success) :
    (splitOnBdry pattern bdry out in_).status = .eof := by
  rcases (splitOnBdry_spec pattern nonempty out in_).status with success | incomplete | eof
  · exact absurd success missing
  · exact absurd incomplete (splitOnBdry_endsEos pattern bdry out ends).1
  · exact eof

theorem mfdInit_spec (run : Run (MfdCtx Mix)) (atInit : run.ctx.status = .init) :
    (mfdInit run).Spec run := by
  have length := run.ctx.delimiter_length
  have nonempty := List.ne_nil_of_length_pos (by omega : 0 < run.ctx.delimiter.length)
  have spec := splitOnBdry_spec false nonempty run.ctx.bb run.ctx.in_
  simp only [mfdInit]
  split
  next found =>
    have smaller := spec.success found
    apply MfdProgress.Spec.again
    · simp [Run.potential, MfdCtx.potential, MfdCtx.mixPotential, MfdCtx.size,
        MfdStatus.cost, atInit]
      omega
    · intro opens
      exact ⟨by simp, by simp [opens.bb, spec.noEos opens.ctxBb]⟩
    · intro ends
      exact (splitOnBdry_endsEos false _ _ ends).2
  next missing =>
    have bound := spec.size_le
    apply MfdProgress.Spec.stop
    · simp [Run.potential, MfdCtx.potential, MfdCtx.mixPotential, MfdCtx.size,
        MfdStatus.cost, atInit]
      omega
    · intro opens
      exact spec.noEos opens.ctxBb
    · exact .inr rfl
    · intro ends
      have eof := splitOnBdry_missing false nonempty run.ctx.bb ends missing
      rcases spec.eof eof with ⟨off, held, tail, partly, input⟩
      exact .stranded eof (.init atInit partly input)

theorem mfdNextline_spec (run : Run (MfdCtx Mix))
    (atNextline : run.ctx.status = .nextline) : (mfdNextline run).Spec run := by
  have length : (bytes "\r\n").length = 2 := rfl
  have nonempty : bytes "\r\n" ≠ [] := by simp [bytes]
  have spec := splitOnBdry_spec false nonempty run.ctx.bb run.ctx.in_
  simp only [mfdNextline]
  split
  next found =>
    have smaller := spec.success found
    split
    next lastDelimiter =>
      apply MfdProgress.Spec.stop
      · simp [Run.potential, MfdCtx.potential, MfdCtx.mixPotential, MfdCtx.size,
          MfdStatus.cost, atNextline]
        omega
      · intro opens
        exact spec.noEos opens.ctxBb
      · exact .inl (.inl rfl)
      · intro ends
        exact .handedBack rfl
          (Brigade.endsEos_append _ (splitOnBdry_endsEos false _ _ ends).2) (.inl rfl)
    next =>
      apply MfdProgress.Spec.again
      · simp [Run.potential, MfdCtx.potential, MfdCtx.mixPotential, MfdCtx.size,
          MfdStatus.cost, atNextline]
        omega
      · intro opens
        exact ⟨spec.noEos opens.ctxBb, opens.bb⟩
      · intro ends
        exact (splitOnBdry_endsEos false _ _ ends).2
  next missing =>
    have bound := spec.size_le
    apply MfdProgress.Spec.stop
    · simp [Run.potential, MfdCtx.potential, MfdCtx.mixPotential, MfdCtx.size,
        MfdStatus.cost, atNextline]
      omega
    · intro opens
      exact spec.noEos opens.ctxBb
    · exact .inr rfl
    · intro ends
      have eof := splitOnBdry_missing false nonempty run.ctx.bb ends missing
      rcases spec.eof eof with ⟨off, held, tail, partly, input⟩
      exact .stranded eof (.nextline atNextline partly input)

theorem mfdHeader_spec (run : Run (MfdCtx Mix)) (atHeader : run.ctx.status = .header)
    {progress : MfdProgress Mix} (stepped : mfdHeader run = some progress) :
    progress.Spec run := by
  simp only [mfdHeader, Option.map_eq_some_iff] at stepped
  rcases stepped with ⟨hdr, parsed, result⟩
  have spec := apreqParseHeaders_spec parsed
  have oldHeaders : Brigade.size
      (((if run.ctx.info = none then none else run.ctx.hdrParser).map HdrCtx.bb).getD []) ≤
      Brigade.size ((run.ctx.hdrParser.map HdrCtx.bb).getD []) := by
    split <;> simp
  have bound := spec.size_le
  split at result
  next success =>
    rw [← result]
    apply MfdProgress.Spec.again
    · simp [Run.potential, MfdCtx.potential, MfdCtx.mixPotential, MfdCtx.size,
        MfdStatus.cost, atHeader]
      omega
    · intro opens
      exact ⟨opens.ctxBb, opens.bb⟩
    · intro ends
      exact spec.success ends success
  next incomplete =>
    rw [← result]
    apply MfdProgress.Spec.stop
    · simp [Run.potential, MfdCtx.potential, MfdCtx.mixPotential, MfdCtx.size,
        MfdStatus.cost, atHeader]
      omega
    · intro opens
      exact opens.ctxBb
    · exact .inr rfl
    · intro ends
      exact absurd incomplete (spec.complete ends)
  next notSuccess notIncomplete =>
    rw [← result]
    apply MfdProgress.Spec.stop
    · simp [Run.potential, MfdCtx.potential, MfdCtx.mixPotential, MfdCtx.size,
        MfdStatus.cost, atHeader]
      omega
    · intro opens
      exact opens.ctxBb
    · exact .inr rfl
    · intro ends
      exact .failed ⟨notSuccess, notIncomplete⟩ (.inr rfl)

/-- A part is begun without touching the brigades. -/
theorem beginPart_spec {before run : Run (MfdCtx Mix)} (ctx : MfdCtx Mix)
    (atPostHeader : run.ctx.status = .postHeader)
    (smaller : run.potential < before.potential + 7) (opens : before.Open → run.Open)
    (ends : before.ctx.in_.endsEos → run.ctx.in_.endsEos)
    (sameIn : ctx.in_ = run.ctx.in_) (sameBb : ctx.bb = run.ctx.bb)
    (sameHdr : ctx.hdrParser = run.ctx.hdrParser)
    (cost : ctx.status.cost + ctx.mixPotential ≤ 1) :
    (MfdProgress.again { run with ctx := ctx }).Spec before := by
  have postHeader : run.ctx.status.cost = 8 := by
    rw [atPostHeader]
    rfl
  apply MfdProgress.Spec.again
  · simp only [Run.potential, MfdCtx.potential, MfdCtx.size, sameIn, sameBb, sameHdr]
      at smaller ⊢
    omega
  · intro beforeOpen
    exact ⟨by simpa [sameBb] using (opens beforeOpen).ctxBb, (opens beforeOpen).bb⟩
  · intro beforeEnds
    simpa [sameIn] using ends beforeEnds

theorem mfdPartKind_spec {before run : Run (MfdCtx Mix)}
    (atPostHeader : run.ctx.status = .postHeader) {progress : MfdProgress Mix}
    (stepped : mfdPartKind run = some progress)
    (smaller : run.potential < before.potential + 7) (opens : before.Open → run.Open)
    (ends : before.ctx.in_.endsEos → run.ctx.in_.endsEos) (sameBb : run.bb = before.bb) :
    progress.Spec before := by
  have part := fun ctx => beginPart_spec ctx atPostHeader smaller opens ends
  have upload : ∀ param, (MfdProgress.again
      { run with ctx := { run.ctx with upload := some param, status := .upload } }).Spec
      before := by
    intro param
    exact part _ rfl rfl rfl (by simp [MfdStatus.cost, MfdCtx.mixPotential])
  have value : ∀ name, (MfdProgress.again
      { run with ctx := { run.ctx with paramName := name, status := .param } }).Spec
      before := by
    intro name
    exact part _ rfl rfl rfl (by simp [MfdStatus.cost, MfdCtx.mixPotential])
  have failed : (MfdProgress.stop .general
      { run with ctx := { run.ctx with status := .error } }).Spec before := by
    apply MfdProgress.Spec.stop
    · have postHeader : run.ctx.status.cost = 8 := by
        rw [atPostHeader]
        rfl
      have free : MfdStatus.error.cost = 0 := rfl
      simp [Run.potential, MfdCtx.potential, MfdCtx.size, MfdCtx.mixPotential] at smaller ⊢
      omega
    · intro beforeOpen
      exact (opens beforeOpen).ctxBb
    · exact .inr sameBb
    · intro _
      exact .failed ⟨by simp, by simp⟩ (.inr rfl)
  simp only [mfdPartKind] at stepped
  split at stepped
  next cd mix _ _ =>
    split at stepped
    next => exact Option.some.inj stepped ▸ failed
    next name _ =>
      split at stepped
      next filename _ => exact Option.some.inj stepped ▸ upload _
      next =>
        split at stepped
        next ct _ =>
          split at stepped
          next =>
            split at stepped
            next => exact Option.some.inj stepped ▸ failed
            next boundary _ =>
              rw [← Option.some.inj stepped]
              exact part _ rfl rfl rfl (by
                simp [MfdStatus.cost, MfdCtx.mixPotential, MixParser.start_potential])
          next => exact Option.some.inj stepped ▸ value _
        next => exact Option.some.inj stepped ▸ value _
  next cd _ _ =>
    split at stepped
    next => exact Option.some.inj stepped ▸ value _
    next filename _ =>
      simp only [Option.map_eq_some_iff] at stepped
      rcases stepped with ⟨name, -, result⟩
      exact result ▸ upload _
  next =>
    split at stepped
    next => exact Option.some.inj stepped ▸ failed
    next name _ => exact Option.some.inj stepped ▸ upload _

theorem mfdPostHeader_spec (run : Run (MfdCtx Mix))
    (atPostHeader : run.ctx.status = .postHeader) {progress : MfdProgress Mix}
    (stepped : mfdPostHeader run = some progress) : progress.Spec run := by
  simp only [mfdPostHeader] at stepped
  split at stepped
  next incomplete =>
    rw [← Option.some.inj stepped]
    apply MfdProgress.Spec.stop (Nat.le_refl _)
    · intro opens
      exact opens.ctxBb
    · exact .inr rfl
    · intro ends
      exact absurd incomplete (brigadeStartString_endsEos _ ends)
  next =>
    apply mfdPartKind_spec _ stepped
    · simp only [Run.potential, MfdCtx.potential, MfdCtx.size, MfdCtx.mixPotential,
        atPostHeader, Brigade.size_cons, Bucket.read]
      have crlf : (bytes "\r\n").length = 2 := rfl
      omega
    · intro opens
      exact ⟨opens.ctxBb, opens.bb⟩
    · intro ends
      exact Brigade.endsEos_append [.data (bytes "\r\n")] ends
    · rfl
    · exact atPostHeader
  next => exact mfdPartKind_spec atPostHeader stepped (by omega) id id rfl

theorem mfdParam_spec (run : Run (MfdCtx Mix)) (atParam : run.ctx.status = .param)
    {progress : MfdProgress Mix} (stepped : mfdParam run = some progress) :
    progress.Spec run := by
  have length := run.ctx.bdry_length
  have nonempty := List.ne_nil_of_length_pos (by omega : 0 < run.ctx.bdry.length)
  have spec := splitOnBdry_spec true nonempty run.ctx.bb run.ctx.in_
  have bound := spec.size_le
  simp only [mfdParam] at stepped
  split at stepped
  next incomplete =>
    rw [← Option.some.inj stepped]
    apply MfdProgress.Spec.stop
    · simp [Run.potential, MfdCtx.potential, MfdCtx.mixPotential, MfdCtx.size,
        MfdStatus.cost, atParam]
      omega
    · intro opens
      exact spec.noEos opens.ctxBb
    · exact .inr rfl
    · intro ends
      exact absurd incomplete (splitOnBdry_endsEos true _ _ ends).1
  next success =>
    have smaller := spec.success success
    simp only [Option.map_eq_some_iff] at stepped
    rcases stepped with ⟨name, -, result⟩
    rw [← result]
    apply MfdProgress.Spec.again
    · simp [Run.potential, MfdCtx.potential, MfdCtx.mixPotential, MfdCtx.size,
        MfdStatus.cost, atParam]
      omega
    · intro opens
      exact ⟨by simp, opens.bb⟩
    · intro ends
      exact (splitOnBdry_endsEos true _ _ ends).2
  next status notIncomplete notSuccess =>
    rw [← Option.some.inj stepped]
    apply MfdProgress.Spec.stop
    · simp [Run.potential, MfdCtx.potential, MfdCtx.mixPotential, MfdCtx.size,
        MfdStatus.cost, atParam]
      omega
    · intro opens
      exact spec.noEos opens.ctxBb
    · exact .inr rfl
    · intro ends
      exact .failed ⟨notSuccess, notIncomplete⟩ (.inr rfl)

theorem mfdUpload_spec (env : Environment) (run : Run (MfdCtx Mix))
    (atUpload : run.ctx.status = .upload) {progress : MfdProgress Mix}
    (stepped : mfdUpload env run = some progress) : progress.Spec run := by
  have length := run.ctx.bdry_length
  have nonempty := List.ne_nil_of_length_pos (by omega : 0 < run.ctx.bdry.length)
  have spec := splitOnBdry_spec true nonempty run.ctx.bb run.ctx.in_
  have bound := spec.size_le
  simp only [mfdUpload] at stepped
  split at stepped
  next incomplete =>
    have continues : run.ctx.in_.endsEos → False := fun ends =>
      (splitOnBdry_endsEos true _ _ ends).1 incomplete
    rw [← Option.some.inj stepped]
    split
    all_goals
      apply MfdProgress.Spec.stop
      · simp [Run.potential, MfdCtx.potential, MfdCtx.mixPotential, MfdCtx.size,
          MfdStatus.cost, atUpload]
        omega
      · intro opens
        simp [spec.noEos opens.ctxBb]
      · exact .inr rfl
      · intro ends
        exact (continues ends).elim
  next success =>
    have smaller := spec.success success
    have restEnds : run.ctx.in_.endsEos →
        (splitOnBdry true run.ctx.bdry run.ctx.bb run.ctx.in_).rest.endsEos :=
      fun ends => (splitOnBdry_endsEos true run.ctx.bdry run.ctx.bb ends).2
    simp only [Option.map_eq_some_iff] at stepped
    rcases stepped with ⟨param, -, result⟩
    rw [← result]
    split
    next =>
      apply MfdProgress.Spec.again
      · simp [Run.potential, MfdCtx.potential, MfdCtx.mixPotential, MfdCtx.size,
          MfdStatus.cost, atUpload]
        omega
      · intro opens
        exact ⟨by simp, opens.bb⟩
      · exact restEnds
    -- The delimiter has been read although the part is not stored.
    all_goals
      apply MfdProgress.Spec.stop
      · simp [Run.potential, MfdCtx.potential, MfdCtx.mixPotential, MfdCtx.size,
          MfdStatus.cost, atUpload]
        omega
      · intro opens
        simp [spec.noEos opens.ctxBb]
      · exact .inr rfl
      · intro ends
        apply Ending.refused ⟨by simp, by simp⟩ (restEnds ends)
        simp [Run.potential, MfdCtx.potential, MfdCtx.mixPotential, MfdCtx.size,
          MfdStatus.cost, atUpload]
        omega
  next status notIncomplete notSuccess =>
    rw [← Option.some.inj stepped]
    apply MfdProgress.Spec.stop
    · simp [Run.potential, MfdCtx.potential, MfdCtx.mixPotential, MfdCtx.size,
        MfdStatus.cost, atUpload]
      omega
    · intro opens
      exact spec.noEos opens.ctxBb
    · exact .inr rfl
    · intro ends
      exact .failed ⟨notSuccess, notIncomplete⟩ (.inr rfl)

theorem mfdMixed_spec (env : Environment) (run : Run (MfdCtx Mix))
    (atMixed : run.ctx.status = .mixed) {progress : MfdProgress Mix}
    (stepped : mfdMixed env run = some progress) : progress.Spec run := by
  simp only [mfdMixed, Option.bind_eq_bind, Option.bind_eq_some_iff, Prod.exists] at stepped
  rcases stepped with ⟨mix, nested, status, mixRun, ran, result⟩
  have spec := MixParser.run_spec env _ status mixRun ran
  have bound : MixParser.potential mixRun.ctx + 3 * mixRun.bb.size ≤
      MixParser.potential mix + 3 * run.ctx.in_.size := spec.potential_le
  rw [← Option.some.inj result]
  split
  next =>
    apply MfdProgress.Spec.again
    · simp [Run.potential, MfdCtx.potential, MfdCtx.mixPotential, MfdCtx.size,
        MfdStatus.cost, atMixed, nested]
      omega
    · intro opens
      exact ⟨opens.ctxBb, opens.bb⟩
    · intro ends
      exact spec.success ends rfl
  next =>
    apply MfdProgress.Spec.stop
    · simp [Run.potential, MfdCtx.potential, MfdCtx.mixPotential, MfdCtx.size,
        MfdStatus.cost, atMixed, nested]
      omega
    · intro opens
      exact opens.ctxBb
    · exact .inr rfl
    · intro ends
      exact absurd rfl (spec.complete ends)
  next status notSuccess notIncomplete =>
    apply MfdProgress.Spec.stop
    · simp [Run.potential, MfdCtx.potential, MfdCtx.mixPotential, MfdCtx.size,
        MfdStatus.cost, atMixed, nested]
      omega
    · intro opens
      exact opens.ctxBb
    · exact .inr rfl
    · intro ends
      exact .failed ⟨notSuccess, notIncomplete⟩ (.inr rfl)

theorem mfdStep_spec (env : Environment) (run : Run (MfdCtx Mix))
    {progress : MfdProgress Mix} (stepped : mfdStep env run = some progress) :
    progress.Spec run := by
  have settled (settled : run.ctx.Settled) :
      MfdProgress.Spec run (.stop .general run) := by
    apply MfdProgress.Spec.stop (Nat.le_refl _)
    · intro opens
      exact opens.ctxBb
    · exact .inr rfl
    · intro _
      exact .failed ⟨by simp, by simp⟩ settled
  cases status : run.ctx.status with
  | init =>
      simp only [mfdStep, status] at stepped
      exact Option.some.inj stepped ▸ mfdInit_spec run status
  | nextline =>
      simp only [mfdStep, status] at stepped
      exact Option.some.inj stepped ▸ mfdNextline_spec run status
  | header =>
      simp only [mfdStep, status] at stepped
      exact mfdHeader_spec run status stepped
  | postHeader =>
      simp only [mfdStep, status] at stepped
      exact mfdPostHeader_spec run status stepped
  | param =>
      simp only [mfdStep, status] at stepped
      exact mfdParam_spec run status stepped
  | upload =>
      simp only [mfdStep, status] at stepped
      exact mfdUpload_spec env run status stepped
  | mixed =>
      simp only [mfdStep, status] at stepped
      exact mfdMixed_spec env run status stepped
  | complete =>
      simp only [mfdStep, status] at stepped
      exact Option.some.inj stepped ▸ settled (.inl status)
  | error =>
      simp only [mfdStep, status] at stepped
      exact Option.some.inj stepped ▸ settled (.inr status)

/-! ## The loop -/

theorem mfdStep_again {env : Environment} {run after : Run (MfdCtx Mix)}
    (stepped : mfdStep env run = some (.again after)) :
    after.potential < run.potential := by
  cases mfdStep_spec env run stepped with
  | again smaller => exact smaller

/-- The label `mfd_parse_brigade`. -/
def mfdLoop (env : Environment) (run : Run (MfdCtx Mix)) :
    Option (AprStatus × Run (MfdCtx Mix)) :=
  match _stepped : mfdStep env run with
  | none => none
  | some (.stop status after) => some (status, after)
  | some (.again after) => mfdLoop env after
termination_by run.potential
decreasing_by exact mfdStep_again _stepped

/-- What a run keeps, and how it stops when its input ends the stream. -/
structure RunSpec (before : Run (MfdCtx Mix)) (ends : Prop) (status : AprStatus)
    (after : Run (MfdCtx Mix)) : Prop where
  bound : after.potential ≤ before.potential
  opens : before.Open → .eos ∉ after.ctx.bb
  keeps : before.Open → after.ctx.Settled ∨ .eos ∉ after.bb
  ending : ends → Ending before status after

theorem Ending.of_smaller {before between after : Run (MfdCtx Mix)} {status : AprStatus}
    (ending : Ending between status after) (smaller : between.potential ≤ before.potential) :
    Ending before status after := by
  cases ending with
  | handedBack success ends settled => exact .handedBack success ends settled
  | failed failure settled => exact .failed failure settled
  | refused failure ends smaller' => exact .refused failure ends (by omega)
  | stranded eof ctx => exact .stranded eof ctx

theorem mfdLoop_spec {env : Environment} {before : Run (MfdCtx Mix)} {status : AprStatus}
    {after : Run (MfdCtx Mix)} (ran : mfdLoop env before = some (status, after)) :
    RunSpec before before.ctx.in_.endsEos status after := by
  fun_induction mfdLoop env before with
  | case1 => simp at ran
  | case2 run status after stepped =>
      cases ran
      cases mfdStep_spec env run stepped with
      | stop bound opens keeps ending =>
          refine ⟨bound, opens, ?_, ending⟩
          intro open_
          rcases keeps with settled | same
          · exact .inl settled
          · exact .inr (same ▸ open_.bb)
  | case3 run next stepped ih =>
      cases mfdStep_spec env run stepped with
      | again smaller opens ends =>
          have later := ih ran
          refine ⟨by have := later.bound; omega, fun open_ => later.opens (opens open_),
            fun open_ => later.keeps (opens open_), ?_⟩
          intro runEnds
          exact (later.ending (ends runEnds)).of_smaller (by omega)

/-- `APR_BRIGADE_CONCAT(ctx->in, bb)`. -/
def Run.concat (run : Run (MfdCtx Mix)) : Run (MfdCtx Mix) :=
  { run with ctx := { run.ctx with in_ := run.ctx.in_ ++ run.bb }, bb := [] }

theorem Run.concat_potential (run : Run (MfdCtx Mix)) :
    run.concat.potential = run.potential := by
  have sameMix : run.concat.ctx.mixPotential = run.ctx.mixPotential := rfl
  simp only [potential, MfdCtx.potential, sameMix]
  simp only [concat, MfdCtx.size, Brigade.size_append, Brigade.size_nil]
  omega

/-- `apreq_parse_multipart` with a context. -/
def runMultipart (env : Environment) (run : Run (MfdCtx Mix)) :
    Option (AprStatus × Run (MfdCtx Mix)) :=
  match run.ctx.status with
  | .error => some (.general, run)
  | .complete => some (.success, run)
  | _ => mfdLoop env run.concat

theorem runMultipart_spec {env : Environment} {before : Run (MfdCtx Mix)}
    {status : AprStatus} {after : Run (MfdCtx Mix)}
    (ran : runMultipart env before = some (status, after)) :
    RunSpec before.concat before.bb.endsEos status after := by
  have bound : before.potential ≤ before.concat.potential := by
    exact Nat.le_of_eq before.concat_potential.symm
  simp only [runMultipart] at ran
  split at ran
  next error =>
    cases ran
    exact ⟨bound, fun opens => opens.ctxBb, fun _ => .inl (.inr error),
      fun _ => .failed ⟨by simp, by simp⟩ (.inr error)⟩
  next complete =>
    cases ran
    exact ⟨bound, fun opens => opens.ctxBb, fun _ => .inl (.inl complete),
      fun ends => .handedBack rfl ends (.inl complete)⟩
  next =>
    have spec := mfdLoop_spec ran
    exact ⟨spec.bound, spec.opens, spec.keeps,
      fun ends => spec.ending (Brigade.endsEos_append _ ends)⟩

/-- A settled parser leaves everything as it is. -/
theorem runMultipart_settled (env : Environment) {run : Run (MfdCtx Mix)}
    (settled : run.ctx.Settled) :
    ∃ status, runMultipart env run = some (status, run) := by
  rcases settled with complete | error
  · exact ⟨.success, by simp [runMultipart, complete]⟩
  · exact ⟨.general, by simp [runMultipart, error]⟩

theorem mfdLoop_stop {env : Environment} {run after : Run (MfdCtx Mix)}
    {status : AprStatus} (stepped : mfdStep env run = some (.stop status after)) :
    mfdLoop env run = some (status, after) := by
  rw [mfdLoop]
  split
  next absent => simp [absent] at stepped
  next stopped =>
    rw [stopped] at stepped
    cases stepped
    rfl
  next continued => simp [continued] at stepped

/-- A stranded parser stops at once, where it is. -/
theorem mfdLoop_stranded (env : Environment) {run : Run (MfdCtx Mix)}
    (stranded : Stranded run.ctx) : mfdLoop env run = some (.eof, run) := by
  apply mfdLoop_stop
  cases stranded with
  | @init atInit off held tail partly input =>
      have split : splitOnBdry false run.ctx.delimiter run.ctx.bb run.ctx.in_ =
          ⟨.eof, run.ctx.bb, run.ctx.in_⟩ := by
        rw [input]
        exact splitOnBdry_held false partly run.ctx.bb tail
      have stopped : mfdInit run = .stop .eof run := by
        simp [mfdInit, split]
      simp only [mfdStep, atInit]
      exact congrArg some stopped
  | @nextline atNextline off held tail partly input =>
      have split : splitOnBdry false (bytes "\r\n") run.ctx.bb run.ctx.in_ =
          ⟨.eof, run.ctx.bb, run.ctx.in_⟩ := by
        rw [input]
        exact splitOnBdry_held false partly run.ctx.bb tail
      have stopped : mfdNextline run = .stop .eof run := by
        simp [mfdNextline, split]
      simp only [mfdStep, atNextline]
      exact congrArg some stopped

omit [MixParser Mix] in
theorem Stranded.active {ctx : MfdCtx Mix} (stranded : Stranded ctx) : ¬ ctx.Settled := by
  intro settled
  rcases settled with complete | error
  · cases stranded with
    | init atInit => simp [complete] at atInit
    | nextline atNextline => simp [complete] at atNextline
  · cases stranded with
    | init atInit => simp [error] at atInit
    | nextline atNextline => simp [error] at atNextline

omit [MixParser Mix] in
/-- More input does not help a stranded parser. -/
theorem Stranded.concat {run : Run (MfdCtx Mix)} (stranded : Stranded run.ctx) :
    Stranded run.concat.ctx := by
  cases stranded with
  | @init atInit off held tail partly input =>
      have input' : run.concat.ctx.in_ = held ++ .eos :: (tail ++ run.bb) := by
        simp [Run.concat, input]
      exact .init atInit partly input'
  | @nextline atNextline off held tail partly input =>
      have input' : run.concat.ctx.in_ = held ++ .eos :: (tail ++ run.bb) := by
        simp [Run.concat, input]
      exact .nextline atNextline partly input'

/-- A parser that its input strands stays stranded and keeps what it is given. -/
theorem runMultipart_stranded (env : Environment) {run : Run (MfdCtx Mix)}
    (stranded : Stranded run.concat.ctx) :
    runMultipart env run = some (.eof, run.concat) := by
  have active := stranded.active
  simp only [runMultipart]
  split
  next error => exact absurd (.inr error) active
  next complete => exact absurd (.inl complete) active
  next => exact mfdLoop_stranded env stranded

/-! ## The parser of nested parts -/

theorem runMultipart_mixSpec {env : Environment} {before : Run (MfdCtx Mix)}
    {status : AprStatus} {after : Run (MfdCtx Mix)}
    (ran : runMultipart env before = some (status, after)) :
    MixSpec MfdCtx.potential before status after := by
  have spec := runMultipart_spec ran
  have bound := spec.bound
  rw [before.concat_potential] at bound
  refine ⟨bound, ?_, ?_⟩
  · intro ends
    cases spec.ending ends with
    | handedBack success => simp [success]
    | failed failure => exact failure.2
    | refused failure => exact failure.2
    | stranded eof => simp [eof]
  · intro ends success
    cases spec.ending ends with
    | handedBack _ ends => exact ends
    | failed failure => exact absurd success failure.1
    | refused failure => exact absurd success failure.1
    | stranded eof => simp [eof] at success

/-- A nested parser has no `mix_parser`. -/
instance : MixParser Empty where
  start mixParser := mixParser.elim
  run _ run := run.ctx.elim
  potential mixParser := mixParser.elim
  start_potential mixParser := mixParser.elim
  run_spec _ before := before.ctx.elim

/-- The parser of nested parts, with the context that the last `multipart/mixed` part
has set. -/
abbrev MixCtx := Option (MfdCtx Empty)

/-- A parser without a context has an empty content type, of which no context can be
made. -/
def runMix (env : Environment) (run : Run MixCtx) : Option (AprStatus × Run MixCtx) :=
  match run.ctx with
  | none => some (.general, run)
  | some ctx =>
      (runMultipart env { run with ctx := ctx }).map fun (status, after) =>
        (status, { after with ctx := some after.ctx })

instance : MixParser MixCtx where
  start _ boundary paramName :=
    some { MfdCtx.create boundary none with paramName := some paramName }
  run := runMix
  potential ctx := (ctx.map MfdCtx.potential).getD 0
  start_potential _ boundary paramName := by
    simp [MfdCtx.create, MfdCtx.potential, MfdCtx.size, MfdCtx.mixPotential,
      MfdStatus.cost]
  run_spec env before status after ran := by
    cases context : before.ctx with
    | none =>
        simp only [runMix, context] at ran
        cases ran
        exact ⟨Nat.le_refl _, by simp, by simp⟩
    | some ctx =>
        simp only [runMix, context, Option.map_eq_some_iff, Prod.exists] at ran
        rcases ran with ⟨status', after', ran, result⟩
        have spec := runMultipart_mixSpec ran
        cases result
        exact ⟨by simpa [context] using spec.potential_le, spec.complete, spec.success⟩

end RApache
