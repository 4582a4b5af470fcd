import RApache.Apreq.Util

/-!
# The parser of urlencoded bodies

`apreq_parse_urlencoded` scans its brigade for `name=value` words.  It hands the whole
brigade back as soon as it meets the end of the stream.
-/

namespace RApache

inductive UrlStatus where
  | name
  | value
  | complete
  | error
  deriving DecidableEq, Repr

/-- `struct url_ctx`. -/
structure UrlCtx where
  bb : Brigade
  status : UrlStatus
  deriving DecidableEq, Repr

/-- The status of a scan and the lengths that it has counted for the current word. -/
structure UrlCounts where
  status : UrlStatus
  nlen : Nat
  vlen : Nat
  deriving DecidableEq, Repr

/-- What scanning one bucket leads to: its end, or the separator behind a word. -/
inductive UrlBucket where
  | through (counts : UrlCounts) (front : Brigade)
  | word (counts : UrlCounts) (front : Brigade) (behind : Bytes)
  deriving Repr

/-- The label `parse_url_bucket`.  `front` are the buckets already split off and `seen`
the bytes of the current one before `off`. -/
def parseUrlBucket (front : Brigade) (seen : Bytes) (counts : UrlCounts) :
    (data : Bytes) → UrlBucket
  | [] => .through counts (front ++ [.data seen])
  | symbol :: data =>
      match counts.status with
      | .name =>
          if symbol = byte '=' then
            parseUrlBucket (front ++ [.data (seen ++ [symbol])]) []
              { counts with status := .value } data
          else
            parseUrlBucket front (seen ++ [symbol])
              { counts with nlen := counts.nlen + 1 } data
      | .value =>
          if symbol = byte '&' ∨ symbol = byte ';' then
            .word counts (front ++ [.data (seen ++ [symbol])]) data
          else
            parseUrlBucket front (seen ++ [symbol])
              { counts with vlen := counts.vlen + 1 } data
      | .complete | .error => .through counts (front ++ [.data (seen ++ symbol :: data)])

/-- The scan is inside a word of which it has counted `size` bytes, the equals sign
included. -/
def UrlCounts.Counted (counts : UrlCounts) (size : Nat) : Prop :=
  counts.status = .name ∧ counts.nlen + counts.vlen = size ∨
    counts.status = .value ∧ counts.nlen + counts.vlen + 1 = size

theorem UrlCounts.Counted.atName {counts : UrlCounts} {size : Nat}
    (counted : counts.Counted size) (atName : counts.status = .name) :
    counts.nlen + counts.vlen = size := by
  rcases counted with ⟨-, sofar⟩ | ⟨atValue, -⟩
  · exact sofar
  · simp [atName] at atValue

theorem UrlCounts.Counted.atValue {counts : UrlCounts} {size : Nat}
    (counted : counts.Counted size) (atValue : counts.status = .value) :
    counts.nlen + counts.vlen + 1 = size := by
  rcases counted with ⟨atName, -⟩ | ⟨-, sofar⟩
  · simp [atValue] at atName
  · exact sofar

/-- What scanning a bucket keeps when `size` bytes of the word were counted before it
and `length` bytes are in the bucket. -/
def UrlBucket.Keeps (size length : Nat) : UrlBucket → Prop
  | through counts front =>
      counts.Counted (size + front.size) ∧ front.size = length ∧ .eos ∉ front
  | word counts front behind =>
      counts.nlen < size + front.size ∧ front.size + behind.length = length ∧
        .eos ∉ front

theorem parseUrlBucket_keeps (size : Nat) (front : Brigade) (seen : Bytes)
    (counts : UrlCounts) (data : Bytes)
    (counted : counts.Counted (size + front.size + seen.length)) (noEos : .eos ∉ front) :
    (parseUrlBucket front seen counts data).Keeps size
      (front.size + seen.length + data.length) := by
  fun_induction parseUrlBucket front seen counts data with
  | case1 front seen counts =>
      refine ⟨?_, by simp [Bucket.read], by simp [noEos]⟩
      simpa [Bucket.read, Nat.add_assoc] using counted
  | case2 front seen counts data atName ih =>
      have sofar := counted.atName atName
      have keeps := ih (.inr ⟨rfl, by simp [Bucket.read]; omega⟩) (by simp [noEos])
      simpa [Bucket.read, Nat.add_assoc, Nat.add_comm 1] using keeps
  | case3 front seen counts symbol data atName other ih =>
      have sofar := counted.atName atName
      have keeps := ih (.inl ⟨atName, by simp; omega⟩) noEos
      simpa [Nat.add_assoc, Nat.add_comm 1] using keeps
  | case4 front seen counts symbol data atValue separator =>
      have sofar := counted.atValue atValue
      refine ⟨?_, ?_, by simp [noEos]⟩
      · simp only [Brigade.size_append, Brigade.size_cons, Brigade.size_nil, Bucket.read,
          List.length_append, List.length_cons, List.length_nil]
        omega
      · simp [Bucket.read]
        omega
  | case5 front seen counts symbol data atValue other ih =>
      have sofar := counted.atValue atValue
      have keeps := ih (.inr ⟨atValue, by simp; omega⟩) noEos
      simpa [Nat.add_assoc, Nat.add_comm 1] using keeps
  | case6 front seen counts symbol data finished =>
      simp [UrlCounts.Counted, finished] at counted
  | case7 front seen counts symbol data failed =>
      simp [UrlCounts.Counted, failed] at counted

/-- What a pass over the whole brigade finds: the end of the stream, or the buckets of
a word with its separator and the buckets behind it. -/
inductive UrlScan where
  | endOfStream (counts : UrlCounts) (bb : Brigade)
  | word (counts : UrlCounts) (buckets rest : Brigade)
  | incomplete (counts : UrlCounts) (bb : Brigade)
  deriving Repr

/-- The `for` loop of `apreq_parse_urlencoded`; `before` are the buckets before
`e`. -/
def parseUrlBrigade (before : Brigade) (counts : UrlCounts) : (rest : Brigade) → UrlScan
  | [] => .incomplete counts before
  | .eos :: rest => .endOfStream counts (before ++ .eos :: rest)
  | .data buffer :: rest =>
      match parseUrlBucket [] [] counts buffer with
      | .through counts front => parseUrlBrigade (before ++ front) counts rest
      | .word counts front behind => .word counts (before ++ front) (.data behind :: rest)

/-- What a pass keeps of `size` bytes and of the end of the stream. -/
def UrlScan.Spec (size : Nat) (ends : Prop) : UrlScan → Prop
  | endOfStream _ bb => bb.size = size ∧ (ends → bb.endsEos)
  | word counts buckets rest =>
      counts.nlen < buckets.size ∧ buckets.size + rest.size = size ∧ .eos ∉ buckets ∧
        (ends → rest.endsEos)
  | incomplete _ bb => bb.size = size ∧ ¬ ends

theorem UrlScan.Spec.mono {size : Nat} {ends ends' : Prop} {scan : UrlScan}
    (spec : scan.Spec size ends) (weaker : ends' → ends) : scan.Spec size ends' := by
  cases scan with
  | incomplete counts bb => exact ⟨spec.1, fun ends' => spec.2 (weaker ends')⟩
  | endOfStream counts bb => exact ⟨spec.1, fun ends' => spec.2 (weaker ends')⟩
  | word counts buckets rest =>
      rcases spec with ⟨named, size, noEos, ends⟩
      exact ⟨named, size, noEos, fun ends' => ends (weaker ends')⟩

theorem parseUrlBrigade_spec (before : Brigade) (counts : UrlCounts) (rest : Brigade)
    (counted : counts.Counted before.size) (noEos : .eos ∉ before) :
    (parseUrlBrigade before counts rest).Spec (before.size + rest.size)
      rest.endsEos := by
  induction rest generalizing before counts with
  | nil => simp [parseUrlBrigade, UrlScan.Spec, Brigade.endsEos]
  | cons bucket rest ih =>
      cases bucket with
      | eos =>
          simp only [parseUrlBrigade, UrlScan.Spec, Brigade.size_append, true_and]
          exact Brigade.endsEos_append before
      | data buffer =>
          have keeps := parseUrlBucket_keeps before.size [] [] counts buffer
            (by simpa using counted) (by simp)
          have tail : Brigade.endsEos (.data buffer :: rest) → Brigade.endsEos rest :=
            fun ends => Brigade.endsEos_cons ends (by simp)
          simp only [parseUrlBrigade]
          cases scanned : parseUrlBucket [] [] counts buffer with
          | through counts front =>
              simp only [scanned, UrlBucket.Keeps, Brigade.size_nil, List.length_nil,
                Nat.zero_add] at keeps
              rcases keeps with ⟨counted, size, front_noEos⟩
              have spec := (ih (before ++ front) counts
                (by rwa [Brigade.size_append]) (by simp [noEos, front_noEos])).mono tail
              simpa [Bucket.read, size, Nat.add_assoc] using spec
          | word counts front behind =>
              simp only [scanned, UrlBucket.Keeps, Brigade.size_nil, List.length_nil,
                Nat.zero_add] at keeps
              rcases keeps with ⟨named, size, front_noEos⟩
              refine ⟨?_, ?_, by simp [noEos, front_noEos], ?_⟩
              · rwa [Brigade.size_append]
              · simp only [Brigade.size_append, Brigade.size_cons, Bucket.read]
                omega
              · intro ends
                exact Brigade.endsEos_append [.data behind] (tail ends)

/-! ## Copying a word -/

/-- A loop of `split_urlword`: whole buckets are read until `len` bytes are reached or
the stream ends. -/
def takeWord : (len : Nat) → (bb : Brigade) → Option (Bytes × Brigade)
  | 0, bb => some ([], bb)
  | _ + 1, [] => none
  | _ + 1, .eos :: bb => some ([], .eos :: bb)
  | len + 1, .data buffer :: bb =>
      if buffer.length ≤ len + 1 then
        (takeWord (len + 1 - buffer.length) bb).map fun (taken, rest) =>
          (buffer ++ taken, rest)
      else none

theorem takeWord_spec {len : Nat} {bb : Brigade} {taken : Bytes} {rest : Brigade}
    (reached : takeWord len bb = some (taken, rest)) :
    rest.size ≤ bb.size ∧ (bb.endsEos → rest.endsEos) := by
  fun_induction takeWord len bb generalizing taken rest with
  | case1 bb => cases reached; simp
  | case2 => simp at reached
  | case3 len bb => cases reached; simp
  | case4 len buffer bb fits ih =>
      simp only [Option.map_eq_some_iff, Prod.exists, Prod.mk.injEq] at reached
      rcases reached with ⟨taken', rest', reached, sameTaken, sameRest⟩
      rcases ih reached with ⟨size, ends⟩
      rw [← sameRest]
      constructor
      · simp only [Brigade.size_cons]
        omega
      · intro ends'
        exact ends (Brigade.endsEos_cons ends' (by simp))
  | case5 => simp at reached

/-- A word that is all there is read before the stream ends. -/
theorem takeWord_size {len : Nat} {word behind : Brigade} {taken : Bytes}
    {rest : Brigade} (reached : takeWord len (word ++ behind) = some (taken, rest))
    (noEos : .eos ∉ word) (there : len ≤ word.size) :
    rest.size + len = word.size + behind.size := by
  induction word generalizing len taken rest with
  | nil =>
      have none : len = 0 := by simpa using there
      subst none
      simp only [takeWord, Option.some.injEq, Prod.mk.injEq] at reached
      simp [← reached.2]
  | cons bucket word ih =>
      cases bucket with
      | eos => simp at noEos
      | data buffer =>
          cases len with
          | zero =>
              simp only [takeWord, Option.some.injEq, Prod.mk.injEq] at reached
              simp [← reached.2, Nat.add_assoc]
          | succ len =>
              simp only [List.cons_append, takeWord] at reached
              split at reached
              next fits =>
                simp only [Option.map_eq_some_iff, Prod.exists, Prod.mk.injEq] at reached
                rcases reached with ⟨taken', rest', reached, -, sameRest⟩
                simp only [Brigade.size_cons, Bucket.read] at there ⊢
                have size := ih reached (by simpa using noEos) (by omega)
                rw [← sameRest]
                omega
              next => simp at reached

variable (env : Environment)

/-- `split_urlword`.  The name is read with its equals sign and the value with its
separator, which a word at the end of the stream does not have. -/
def splitUrlword (bb : Brigade) (counts : UrlCounts) :
    Option (Except AprStatus (Param × Brigade)) :=
  if counts.nlen = 0 then some (.error .badArg)
  else do
    let (name, bb) ← takeWord (counts.nlen + 1) bb
    let (value, bb) ← takeWord (counts.vlen + 1) bb
    match env.decodev (value.take counts.vlen), env.decodev (name.take counts.nlen) with
    | .ok value, .ok name => some (.ok (⟨name, value, false⟩, bb))
    | .error status, _ => some (.error status)
    | .ok _, .error status => some (.error status)

theorem splitUrlword_ok {bb : Brigade} {counts : UrlCounts} {param : Param}
    {rest : Brigade} (copied : splitUrlword env bb counts = some (.ok (param, rest))) :
    ∃ name afterName value,
      takeWord (counts.nlen + 1) bb = some (name, afterName) ∧
        takeWord (counts.vlen + 1) afterName = some (value, rest) := by
  simp only [splitUrlword] at copied
  split at copied
  next => simp at copied
  next named =>
    simp only [Option.bind_eq_bind, Option.bind_eq_some_iff, Prod.exists] at copied
    rcases copied with ⟨name, afterName, readName, value, afterValue, readValue, isWord⟩
    split at isWord
    next =>
      simp only [Option.some.injEq, Except.ok.injEq, Prod.mk.injEq] at isWord
      exact ⟨name, afterName, value, readName, isWord.2 ▸ readValue⟩
    next => simp at isWord
    next => simp at isWord

theorem splitUrlword_endsEos {bb : Brigade} {counts : UrlCounts} {param : Param}
    {rest : Brigade} (copied : splitUrlword env bb counts = some (.ok (param, rest)))
    (ends : bb.endsEos) : rest.endsEos := by
  rcases splitUrlword_ok env copied with ⟨name, afterName, value, readName, readValue⟩
  exact (takeWord_spec readValue).2 ((takeWord_spec readName).2 ends)

theorem splitUrlword_size {word behind : Brigade} {counts : UrlCounts} {param : Param}
    {rest : Brigade}
    (copied : splitUrlword env (word ++ behind) counts = some (.ok (param, rest)))
    (noEos : .eos ∉ word) (named : counts.nlen < word.size) :
    rest.size < word.size + behind.size := by
  rcases splitUrlword_ok env copied with ⟨name, afterName, value, readName, readValue⟩
  have nameSize := takeWord_size readName noEos named
  have valueSize := (takeWord_spec readValue).1
  omega

/-! ## The parser -/

/-- What `apreq_parse_urlencoded` leaves: its status and context, and the table and
the brigade it was given. -/
structure UrlRun where
  status : AprStatus
  ctx : UrlCtx
  t : ParamTable
  bb : Brigade
  deriving Repr

/-- The label `parse_url_brigade`; `ctx->bb` is `ctxBb`, and `bb` is empty. -/
def parseUrlLoop (t : ParamTable) (ctxBb : Brigade) : Option UrlRun :=
  match _scanned : parseUrlBrigade [] ⟨.name, 0, 0⟩ ctxBb with
  | .endOfStream counts ctxBb =>
      if counts.status = .name then some ⟨.success, ⟨[], .name⟩, t, ctxBb⟩
      else
        match splitUrlword env ctxBb counts with
        | none => none
        | some (.error status) => some ⟨status, ⟨[], .error⟩, t, ctxBb⟩
        | some (.ok (param, rest)) =>
            some ⟨.success, ⟨[], .complete⟩, t ++ [param], rest⟩
  | .incomplete counts ctxBb => some ⟨.incomplete, ⟨ctxBb, counts.status⟩, t, []⟩
  | .word counts word behind =>
      match _copied : splitUrlword env (word ++ behind) counts with
      | none => none
      | some (.error status) => some ⟨status, ⟨word ++ behind, .error⟩, t, []⟩
      | some (.ok (param, rest)) => parseUrlLoop (t ++ [param]) rest
termination_by ctxBb.size
decreasing_by
  have spec := parseUrlBrigade_spec [] ⟨.name, 0, 0⟩ ctxBb
    (by simp [UrlCounts.Counted]) (by simp)
  simp only [_scanned, UrlScan.Spec, Brigade.size_nil, Nat.zero_add] at spec
  rcases spec with ⟨named, size, noEos, -⟩
  have shorter := splitUrlword_size env _copied noEos named
  omega

/-- `apreq_parse_urlencoded`. -/
def apreqParseUrlencoded (ctx : Option UrlCtx) (t : ParamTable) (bb : Brigade) :
    Option UrlRun :=
  let ctx := ctx.getD ⟨[], .name⟩
  match ctx.status with
  | .error => some ⟨.general, ctx, t, bb⟩
  | .complete => some ⟨.success, ctx, t, bb⟩
  | _ => parseUrlLoop env t (ctx.bb ++ bb)

/-- A run over the end of the stream hands the end back, unless it fails. -/
theorem parseUrlLoop_endsEos {t : ParamTable} {ctxBb : Brigade} {run : UrlRun}
    (parsed : parseUrlLoop env t ctxBb = some run) (ends : ctxBb.endsEos) :
    run.bb.endsEos ∨ run.ctx.status = .error := by
  have spec := parseUrlBrigade_spec [] ⟨.name, 0, 0⟩ ctxBb
    (by simp [UrlCounts.Counted]) (by simp)
  fun_induction parseUrlLoop env t ctxBb with
  | case1 t ctxBb counts bb scanned atName =>
      rw [scanned] at spec
      cases parsed
      exact .inl (spec.2 ends)
  | case2 => simp at parsed
  | case3 =>
      cases parsed
      exact .inr rfl
  | case4 t ctxBb counts bb scanned atValue param rest copied =>
      rw [scanned] at spec
      cases parsed
      exact .inl (splitUrlword_endsEos env copied (spec.2 ends))
  | case5 t ctxBb counts bb scanned =>
      rw [scanned] at spec
      exact absurd ends spec.2
  | case6 => simp at parsed
  | case7 =>
      cases parsed
      exact .inr rfl
  | case8 t ctxBb counts buckets behind scanned param rest copied ih =>
      rw [scanned] at spec
      rcases spec with ⟨-, -, -, behindEnds⟩
      exact ih parsed
        (splitUrlword_endsEos env copied (Brigade.endsEos_append _ (behindEnds ends)))
        (parseUrlBrigade_spec [] ⟨.name, 0, 0⟩ rest (by simp [UrlCounts.Counted]) (by simp))

theorem apreqParseUrlencoded_endsEos {ctx : Option UrlCtx} {t : ParamTable}
    {bb : Brigade} {run : UrlRun}
    (parsed : apreqParseUrlencoded env ctx t bb = some run) (ends : bb.endsEos) :
    run.bb.endsEos ∨ run.ctx.status = .error := by
  simp only [apreqParseUrlencoded] at parsed
  split at parsed
  next failed =>
    cases parsed
    exact .inr failed
  next =>
    cases parsed
    exact .inl ends
  next => exact parseUrlLoop_endsEos env parsed (Brigade.endsEos_append _ ends)

/-- A failed parser leaves the brigade alone. -/
theorem apreqParseUrlencoded_error {ctx : UrlCtx} {t : ParamTable} {bb : Brigade}
    (failed : ctx.status = .error) :
    apreqParseUrlencoded env (some ctx) t bb = some ⟨.general, ctx, t, bb⟩ := by
  simp [apreqParseUrlencoded, failed]

end RApache
