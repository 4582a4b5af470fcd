import RApache.Apreq.Util

/-!
# The parser of part headers

`apreq_parse_headers` scans its brigade from the front for each header line, splits
buckets where a field begins, and copies the fields bucket by bucket.  A field whose
counted length does not fall on a bucket boundary fails an assertion; the model
returns `none` where an assertion or a bad pointer ends the process.
-/

namespace RApache

inductive HdrStatus where
  | name
  | gap
  | value
  | newline
  | continue
  | complete
  | error
  deriving DecidableEq, Repr

/-- `struct hdr_ctx`. -/
structure HdrCtx where
  bb : Brigade
  status : HdrStatus
  deriving DecidableEq, Repr

/-- The status of a scan and the lengths that it has counted for the current line. -/
structure HdrCounts where
  status : HdrStatus
  nlen : Nat
  glen : Nat
  vlen : Nat
  deriving DecidableEq, Repr

/-- `apr_bucket_split` at the current position when it is not the start of the
bucket. -/
def splitBefore (front : Brigade) (seen : Bytes) : Brigade :=
  if seen = [] then front else front ++ [.data seen]

theorem splitBefore_size (front : Brigade) (seen : Bytes) :
    Brigade.size (splitBefore front seen) = front.size + seen.length := by
  rw [splitBefore]
  split
  next empty => simp [empty]
  next => simp [Bucket.read]

/-- What scanning one bucket leads to: the end of the bucket, the empty line that ends
the block, or the first byte behind a complete header line. -/
inductive HdrBucket where
  | through (counts : HdrCounts) (front : Brigade)
  | emptyLine (behind : Bytes)
  | line (counts : HdrCounts) (front : Brigade) (behind : Bytes)
  deriving Repr

/-- The label `parse_hdr_bucket`.  `front` are the buckets already split off and `seen`
the bytes of the current one before `off`. -/
def parseHdrBucket (front : Brigade) (seen : Bytes) (counts : HdrCounts) :
    (data : Bytes) → HdrBucket
  | [] => .through counts (front ++ [.data seen])
  | symbol :: data =>
      match counts.status with
      | .name =>
          if symbol = byte '\n' then .emptyLine data
          else if symbol = byte ':' then
            parseHdrBucket (splitBefore front seen) [symbol]
              { counts with glen := counts.glen + 1, status := .gap } data
          else
            parseHdrBucket front (seen ++ [symbol])
              { counts with nlen := counts.nlen + 1 } data
      | .gap =>
          if symbol = byte ' ' ∨ symbol = byte '\t' then
            parseHdrBucket front (seen ++ [symbol])
              { counts with glen := counts.glen + 1 } data
          else if symbol = byte '\n' then
            -- This newline is counted neither in `glen` nor in `vlen`.
            parseHdrBucket front (seen ++ [symbol]) { counts with status := .newline } data
          else
            parseHdrBucket (splitBefore front seen) [symbol]
              { counts with vlen := counts.vlen + 1, status := .value } data
      | .value =>
          parseHdrBucket front (seen ++ [symbol])
            { counts with
              vlen := counts.vlen + 1
              status := if symbol = byte '\n' then .newline else .value } data
      | .newline =>
          if symbol = byte ' ' ∨ symbol = byte '\t' then
            parseHdrBucket front (seen ++ [symbol])
              { counts with vlen := counts.vlen + 2, status := .continue } data
          else .line counts (splitBefore front seen) (symbol :: data)
      | .continue =>
          if symbol = byte ' ' ∨ symbol = byte '\t' then
            parseHdrBucket front (seen ++ [symbol])
              { counts with vlen := counts.vlen + 1 } data
          else if symbol = byte '\n' then
            parseHdrBucket front (seen ++ [symbol]) { counts with status := .newline } data
          else
            parseHdrBucket front (seen ++ [symbol])
              { counts with vlen := counts.vlen + 1, status := .value } data
      | .complete | .error => .through counts (front ++ [.data (seen ++ symbol :: data)])

/-- No byte is lost in a bucket. -/
def HdrBucket.Keeps (size : Nat) : HdrBucket → Prop
  | through _ front => front.size = size
  | emptyLine behind => behind.length ≤ size
  | line _ front behind => front.size + behind.length = size

theorem parseHdrBucket_keeps (front : Brigade) (seen : Bytes) (counts : HdrCounts)
    (data : Bytes) :
    (parseHdrBucket front seen counts data).Keeps
      (front.size + seen.length + data.length) := by
  fun_induction parseHdrBucket front seen counts data <;>
    simp_all [HdrBucket.Keeps, splitBefore_size, Bucket.read, Nat.add_assoc,
      Nat.add_comm 1]
  all_goals omega

/-- What a pass over the whole brigade finds. -/
inductive HdrScan where
  | endOfStream (bb : Brigade)
  | endOfBlock (rest : Brigade)
  | line (counts : HdrCounts) (bb : Brigade)
  | incomplete (counts : HdrCounts) (bb : Brigade)
  deriving Repr

/-- The `for` loop of `apreq_parse_headers`; `before` are the buckets before `e`. -/
def parseHdrBrigade (before : Brigade) (counts : HdrCounts) : (rest : Brigade) → HdrScan
  | [] => .incomplete counts before
  | .eos :: rest => .endOfStream (before ++ .eos :: rest)
  | .data buffer :: rest =>
      match parseHdrBucket [] [] counts buffer with
      | .through counts front => parseHdrBrigade (before ++ front) counts rest
      | .emptyLine behind =>
          .endOfBlock (if behind = [] then rest else .data behind :: rest)
      | .line counts front behind =>
          .line counts (before ++ front ++ .data behind :: rest)

/-- What a pass keeps of `size` bytes and of the end of the stream. -/
def HdrScan.Spec (size : Nat) (ends : Prop) : HdrScan → Prop
  | endOfStream bb => bb.size = size ∧ (ends → bb.endsEos)
  | endOfBlock rest => rest.size ≤ size ∧ (ends → rest.endsEos)
  | line _ bb => bb.size = size ∧ (ends → bb.endsEos)
  | incomplete _ bb => bb.size = size ∧ ¬ ends

theorem HdrScan.Spec.mono {size : Nat} {ends ends' : Prop} {scan : HdrScan}
    (spec : scan.Spec size ends) (weaker : ends' → ends) : scan.Spec size ends' := by
  cases scan with
  | incomplete counts bb => exact ⟨spec.1, fun ends' => spec.2 (weaker ends')⟩
  | _ => exact ⟨spec.1, fun ends' => spec.2 (weaker ends')⟩

theorem parseHdrBrigade_spec (before : Brigade) (counts : HdrCounts) (rest : Brigade) :
    (parseHdrBrigade before counts rest).Spec (before.size + rest.size)
      rest.endsEos := by
  induction rest generalizing before counts with
  | nil => simp [parseHdrBrigade, HdrScan.Spec, Brigade.endsEos]
  | cons bucket rest ih =>
      cases bucket with
      | eos =>
          simp only [parseHdrBrigade, HdrScan.Spec, Brigade.size_append, true_and]
          exact Brigade.endsEos_append before
      | data buffer =>
          have keeps := parseHdrBucket_keeps [] [] counts buffer
          have tail : Brigade.endsEos (.data buffer :: rest) → Brigade.endsEos rest :=
            fun ends => Brigade.endsEos_cons ends (by simp)
          simp only [parseHdrBrigade]
          cases scanned : parseHdrBucket [] [] counts buffer with
          | through counts front =>
              simp only [scanned, HdrBucket.Keeps, Brigade.size_nil, List.length_nil,
                Nat.zero_add] at keeps
              have spec := (ih (before ++ front) counts).mono tail
              simpa [Bucket.read, keeps, Nat.add_assoc] using spec
          | emptyLine behind =>
              simp only [scanned, HdrBucket.Keeps, Brigade.size_nil, List.length_nil,
                Nat.zero_add] at keeps
              constructor
              · split
                next =>
                  simp only [Brigade.size_cons]
                  omega
                next =>
                  simp only [Brigade.size_cons, Bucket.read]
                  omega
              · intro ends
                split
                next => exact tail ends
                next => exact Brigade.endsEos_append [.data behind] (tail ends)
          | line counts front behind =>
              simp only [scanned, HdrBucket.Keeps, Brigade.size_nil, List.length_nil,
                Nat.zero_add] at keeps
              constructor
              · simp only [Brigade.size_append, Brigade.size_cons, Bucket.read]
                omega
              · intro ends
                exact Brigade.endsEos_append _
                  (Brigade.endsEos_append [.data behind] (tail ends))

/-! ## Copying a header line -/

/-- The loops of `split_header_line`: whole buckets are read until `len` bytes are
reached.  It is asserted that the last one does not go beyond. -/
def takeBuckets : (len : Nat) → (bb : Brigade) → Option (Bytes × Brigade)
  | 0, bb => some ([], bb)
  | _ + 1, [] => none
  | len + 1, bucket :: bb =>
      if bucket.read.length ≤ len + 1 then
        (takeBuckets (len + 1 - bucket.read.length) bb).map fun (taken, rest) =>
          (bucket.read ++ taken, rest)
      else none

theorem takeBuckets_spec {len : Nat} {bb : Brigade} {taken : Bytes} {rest : Brigade}
    (reached : takeBuckets len bb = some (taken, rest)) :
    rest.size + len = bb.size ∧ (bb.endsEos → rest.endsEos) := by
  induction bb generalizing len taken rest with
  | nil =>
      cases len with
      | zero =>
          simp only [takeBuckets, Option.some.injEq, Prod.mk.injEq] at reached
          simp [← reached.2]
      | succ len => simp [takeBuckets] at reached
  | cons bucket bb ih =>
      cases len with
      | zero =>
          simp only [takeBuckets, Option.some.injEq, Prod.mk.injEq] at reached
          simp [← reached.2]
      | succ len =>
          simp only [takeBuckets] at reached
          split at reached
          next fits =>
            simp only [Option.map_eq_some_iff, Prod.exists, Prod.mk.injEq] at reached
            rcases reached with ⟨taken', rest', reached, -, sameRest⟩
            rcases ih reached with ⟨size, ends⟩
            rw [← sameRest]
            constructor
            · simp only [Brigade.size_cons]
              omega
            · intro ends'
              cases bucket with
              | data buffer => exact ends (Brigade.endsEos_cons ends' (by simp))
              | eos =>
                  -- The end of the stream counts no byte, so it cannot be the last
                  -- bucket that is read.
                  cases bb with
                  | nil => simp [takeBuckets, Bucket.read] at reached
                  | cons next bb => exact ends (by simpa [Brigade.endsEos] using ends')
          next => simp at reached

/-- The value of a header line without its line end. -/
def dropCrlf (value : Bytes) : Bytes :=
  if value.dropLast.getLast? = some (byte '\r') then value.dropLast.dropLast
  else value.dropLast

/-- `split_header_line`. -/
def splitHeaderLine (bb : Brigade) (counts : HdrCounts) :
    Option (Except AprStatus (Param × Brigade)) :=
  if counts.nlen = 0 then some (.error .badArg)
  else do
    let (name, bb) ← takeBuckets counts.nlen bb
    let (_, bb) ← takeBuckets counts.glen bb
    guard (0 < counts.vlen)
    let (value, bb) ← takeBuckets counts.vlen bb
    guard (value.getLast? = some (byte '\n'))
    return .ok (⟨name, dropCrlf value, false⟩, bb)

theorem splitHeaderLine_spec {bb : Brigade} {counts : HdrCounts}
    {line : Except AprStatus (Param × Brigade)}
    (copied : splitHeaderLine bb counts = some line) :
    line = .error .badArg ∨
      ∃ param rest, line = .ok (param, rest) ∧ rest.size < bb.size ∧
        (bb.endsEos → rest.endsEos) := by
  unfold splitHeaderLine at copied
  by_cases unnamed : counts.nlen = 0
  · rw [if_pos unnamed] at copied
    left
    exact (Option.some.inj copied).symm
  · rw [if_neg unnamed] at copied
    right
    rcases Option.bind_eq_some_iff.mp copied with ⟨⟨name, afterName⟩, readName, copied⟩
    rcases Option.bind_eq_some_iff.mp copied with ⟨⟨gap, afterGap⟩, readGap, copied⟩
    rcases Option.bind_eq_some_iff.mp copied with ⟨-, -, copied⟩
    rcases Option.bind_eq_some_iff.mp copied with ⟨⟨value, afterValue⟩, readValue, copied⟩
    rcases Option.bind_eq_some_iff.mp copied with ⟨-, -, isLine⟩
    rcases takeBuckets_spec readName with ⟨nameSize, nameEnds⟩
    rcases takeBuckets_spec readGap with ⟨gapSize, gapEnds⟩
    rcases takeBuckets_spec readValue with ⟨valueSize, valueEnds⟩
    refine ⟨_, afterValue, (Option.some.inj isLine).symm, by omega, ?_⟩
    intro ends
    exact valueEnds (gapEnds (nameEnds ends))

/-! ## The parser -/

/-- What `apreq_parse_headers` leaves: its status and context, and the table and the
brigade it was given. -/
structure HdrRun where
  status : AprStatus
  ctx : HdrCtx
  t : ParamTable
  bb : Brigade
  deriving Repr

/-- The label `parse_hdr_brigade`; `ctx->bb` is `ctxBb`, and `bb` is empty. -/
def parseHdrLoop (t : ParamTable) (ctxBb : Brigade) : Option HdrRun :=
  match _scanned : parseHdrBrigade [] ⟨.name, 0, 0, 0⟩ ctxBb with
  | .endOfStream bb => some ⟨.success, ⟨[], .complete⟩, t, bb⟩
  | .endOfBlock rest => some ⟨.success, ⟨[], .complete⟩, t, rest⟩
  | .incomplete counts ctxBb => some ⟨.incomplete, ⟨ctxBb, counts.status⟩, t, []⟩
  | .line counts ctxBb' =>
      match _copied : splitHeaderLine ctxBb' counts with
      | none => none
      | some (.error status) => some ⟨status, ⟨ctxBb', .error⟩, t, []⟩
      | some (.ok (param, rest)) => parseHdrLoop (t ++ [param]) rest
termination_by ctxBb.size
decreasing_by
  have spec := parseHdrBrigade_spec [] ⟨.name, 0, 0, 0⟩ ctxBb
  simp only [_scanned, HdrScan.Spec, Brigade.size_nil, Nat.zero_add] at spec
  rcases splitHeaderLine_spec _copied with isError | ⟨_, _, isLine, shorter, -⟩
  · simp at isError
  · simp only [Except.ok.injEq, Prod.mk.injEq] at isLine
    rw [isLine.2]
    omega

/-- `apreq_parse_headers`. -/
def apreqParseHeaders (ctx : Option HdrCtx) (t : ParamTable) (bb : Brigade) :
    Option HdrRun :=
  let ctx := ctx.getD ⟨[], .name⟩
  match ctx.status with
  | .error => some ⟨.general, ctx, t, bb⟩
  | .complete => some ⟨.success, ctx, t, bb⟩
  | _ => parseHdrLoop t (ctx.bb ++ bb)

/-- What a run keeps of `size` bytes and of the end of the stream. -/
structure HdrRun.Spec (size : Nat) (ends : Prop) (run : HdrRun) : Prop where
  size_le : run.ctx.bb.size + run.bb.size ≤ size
  complete : ends → run.status ≠ .incomplete
  success : ends → run.status = .success → run.bb.endsEos

theorem parseHdrLoop_spec {t : ParamTable} {ctxBb : Brigade} {run : HdrRun}
    (parsed : parseHdrLoop t ctxBb = some run) :
    run.Spec ctxBb.size ctxBb.endsEos := by
  fun_induction parseHdrLoop t ctxBb with
  | case1 t ctxBb bb scanned =>
      have spec := parseHdrBrigade_spec [] ⟨.name, 0, 0, 0⟩ ctxBb
      simp only [scanned, HdrScan.Spec, Brigade.size_nil, Nat.zero_add] at spec
      cases parsed
      exact ⟨by simp [spec.1], fun _ => by simp, fun ends _ => spec.2 ends⟩
  | case2 t ctxBb rest scanned =>
      have spec := parseHdrBrigade_spec [] ⟨.name, 0, 0, 0⟩ ctxBb
      simp only [scanned, HdrScan.Spec, Brigade.size_nil, Nat.zero_add] at spec
      cases parsed
      exact ⟨by simp [spec.1], fun _ => by simp, fun ends _ => spec.2 ends⟩
  | case3 t ctxBb counts before scanned =>
      have spec := parseHdrBrigade_spec [] ⟨.name, 0, 0, 0⟩ ctxBb
      simp only [scanned, HdrScan.Spec, Brigade.size_nil, Nat.zero_add] at spec
      cases parsed
      exact ⟨by simp [spec.1], fun ends => absurd ends spec.2,
        fun ends => absurd ends spec.2⟩
  | case4 => simp at parsed
  | case5 t ctxBb counts split scanned status copied =>
      have spec := parseHdrBrigade_spec [] ⟨.name, 0, 0, 0⟩ ctxBb
      simp only [scanned, HdrScan.Spec, Brigade.size_nil, Nat.zero_add] at spec
      rcases splitHeaderLine_spec copied with isError | ⟨_, _, isLine, -⟩
      · cases isError
        cases parsed
        exact ⟨by simp [spec.1], fun _ => by simp, fun _ success => by simp at success⟩
      · simp at isLine
  | case6 t ctxBb counts split scanned param rest copied ih =>
      have spec := parseHdrBrigade_spec [] ⟨.name, 0, 0, 0⟩ ctxBb
      simp only [scanned, HdrScan.Spec, Brigade.size_nil, Nat.zero_add] at spec
      rcases splitHeaderLine_spec copied with isError | ⟨_, _, isLine, shorter, restEnds⟩
      · simp at isError
      · cases isLine
        have later := ih parsed
        exact ⟨by have := later.size_le; omega,
          fun ends => later.complete (restEnds (spec.2 ends)),
          fun ends => later.success (restEnds (spec.2 ends))⟩

theorem apreqParseHeaders_spec {ctx : Option HdrCtx} {t : ParamTable} {bb : Brigade}
    {run : HdrRun} (parsed : apreqParseHeaders ctx t bb = some run) :
    run.Spec (((ctx.map HdrCtx.bb).getD []).size + bb.size) bb.endsEos := by
  have sameBb : (ctx.map HdrCtx.bb).getD [] = (ctx.getD ⟨[], .name⟩).bb := by
    cases ctx <;> simp
  rw [sameBb]
  simp only [apreqParseHeaders] at parsed
  split at parsed
  next =>
    cases parsed
    exact ⟨Nat.le_refl _, fun _ => by simp, fun _ success => by simp at success⟩
  next =>
    cases parsed
    exact ⟨Nat.le_refl _, fun _ => by simp, fun ends _ => ends⟩
  next =>
    have spec := parseHdrLoop_spec parsed
    rw [Brigade.size_append] at spec
    exact ⟨spec.size_le, fun ends => spec.complete (Brigade.endsEos_append _ ends),
      fun ends => spec.success (Brigade.endsEos_append _ ends)⟩

end RApache
