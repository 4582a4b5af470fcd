import RApache.Apreq.MultipartRun
import RApache.Apreq.Urlencoded

/-!
# The loop of `parsePost`

`parsePost` reads brigades from the input filters and runs the parser on each.  It
ignores the status of the parser and leaves the loop when the parser has left an end
of stream at the end of the brigade.  A multipart parser that still looks for a
delimiter keeps the end of the stream in its own context, and then the loop is never
left.
-/

namespace RApache

/-- The functions that `apreq_pre_initialize` registers. -/
inductive ParserFunction where
  | urlencoded
  | multipart
  deriving DecidableEq, Repr

/-- `apreq_parser`: the function registered for the content type without its
parameters. -/
def apreqParser (enctype : Bytes) : Option ParserFunction :=
  let type := enctype.takeWhile (· ≠ byte ';')
  if type = bytes "application/x-www-form-urlencoded" then some .urlencoded
  else if type = bytes "multipart/form-data" then some .multipart
  else if type = bytes "multipart/related" then some .multipart
  else none

/-- An `apreq_parser_t` without hooks: its function, its content type where the
function reads it, and its context. -/
inductive Parser where
  | urlencoded (ctx : Option UrlCtx)
  | multipart (contentType : Bytes) (ctx : Option (MfdCtx MixCtx))

/-- `apreq_parser_make`. -/
def apreqParserMake (contentType : Bytes) : ParserFunction → Parser
  | .urlencoded => .urlencoded none
  | .multipart => .multipart contentType none

variable (env : Environment)

/-- The context of a multipart parser; the first call of `apreq_parse_multipart` makes
it, with a parser for nested parts that has none yet. -/
def multipartContext (contentType : Bytes) :
    (ctx : Option (MfdCtx MixCtx)) → Option (MfdCtx MixCtx)
  | some ctx => some ctx
  | none => (multipartBoundary contentType).map fun boundary =>
      MfdCtx.create boundary (some none)

/-- `apreq_parse_multipart`. -/
def apreqParseMultipart (contentType : Bytes) (ctx : Option (MfdCtx MixCtx))
    (run : Run Parser) : Option (AprStatus × Run Parser) :=
  match multipartContext contentType ctx with
  | none => some (.general, run)
  | some ctx =>
      (runMultipart env { run with ctx := ctx }).map fun (status, after) =>
        (status, { after with ctx := .multipart contentType (some after.ctx) })

/-- `apreq_parser_run`. -/
def apreqParserRun (run : Run Parser) : Option (AprStatus × Run Parser) :=
  match run.ctx with
  | .urlencoded ctx =>
      (apreqParseUrlencoded env ctx run.t run.bb).map fun url =>
        (url.status, { run with ctx := .urlencoded (some url.ctx), t := url.t, bb := url.bb })
  | .multipart contentType ctx => apreqParseMultipart env contentType ctx run

/-- How the loop of `parsePost` is left, after how many reads of this request.  The
process may end inside the parser. -/
inductive PostExit where
  | left (reads : Nat) (run : Run Parser)
  | aborted (reads : Nat)

/-- The loop of `parsePost`, followed for at most `fuel` reads.  `getBrigade` is what
`ap_get_brigade` answers at each read of this request. -/
def parsePostLoop (getBrigade : Nat → Except AprStatus Brigade) :
    (fuel reads : Nat) → (run : Run Parser) → Option PostExit
  | 0, _, _ => none
  | fuel + 1, reads, run =>
      match getBrigade reads with
      | .error _ => some (.left (reads + 1) run)
      | .ok bb =>
          match apreqParserRun env { run with bb := run.bb ++ bb } with
          | none => some (.aborted (reads + 1))
          | some (_, run) =>
              if run.bb.endsEos then some (.left (reads + 1) run)
              else parsePostLoop getBrigade fuel (reads + 1) { run with bb := [] }

/-- The parser and the empty table and brigade that `parsePost` makes. -/
def parsePostStart (contentType : Bytes) (pfn : ParserFunction) : Run Parser where
  ctx := apreqParserMake contentType pfn
  t := []
  bb := []
  spools := 0

/-! ## Bodies -/

/-- A request body as the input filters deliver it: brigades of buffers, the last of
which ends in an end of stream.  Every later read gives only an end of stream. -/
structure Delivery where
  brigades : List (List Bytes)

def Delivery.brigade (body : Delivery) (read : Nat) : Brigade :=
  match body.brigades[read]? with
  | some buffers =>
      buffers.map .data ++ if read + 1 = body.brigades.length then [.eos] else []
  | none => [.eos]

theorem Delivery.brigade_endsEos (body : Delivery) {read : Nat}
    (last : body.brigades.length ≤ read + 1) : (body.brigade read).endsEos := by
  simp only [brigade]
  split
  next buffers found =>
    have inside := (List.getElem?_eq_some_iff.mp found).1
    have isLast : read + 1 = body.brigades.length := by omega
    rw [if_pos isLast]
    exact Brigade.endsEos_append _ rfl
  next => rfl

/-- After the body every read gives no byte. -/
theorem Delivery.brigade_after (body : Delivery) {read : Nat}
    (after : body.brigades.length ≤ read) : body.brigade read = [.eos] := by
  simp [brigade, List.getElem?_eq_none after]

/-! ## The state of the parser -/

namespace Parser

/-- The parser still looks for its first delimiter, or for the end of the line of one,
and its input ends before it. -/
def Stranded : Parser → Prop
  | multipart _ (some ctx) => RApache.Stranded ctx
  | _ => False

/-- The parser no longer keeps what it is given, or never does. -/
def Settled : Parser → Prop
  | urlencoded _ => True
  | multipart contentType none => multipartBoundary contentType = none
  | multipart _ (some ctx) => ctx.Settled

/-- The parser leaves every brigade as it is. -/
def Idle : Parser → Prop
  | urlencoded ctx => ctx.map UrlCtx.status = some .error
  | multipart contentType none => multipartBoundary contentType = none
  | multipart _ (some ctx) => ctx.Settled

/-- The brigade in which the parser collects a part holds no end of stream. -/
def Open : Parser → Prop
  | multipart _ (some ctx) => .eos ∉ ctx.bb
  | _ => True

/-- What is left to do for the parser. -/
def potential : Parser → Nat
  | multipart _ (some ctx) => ctx.potential
  | _ => 0

theorem Settled.not_stranded {parser : Parser} (settled : parser.Settled) :
    ¬ parser.Stranded := by
  intro stranded
  cases parser with
  | urlencoded ctx => exact stranded
  | multipart contentType ctx =>
      cases ctx with
      | none => exact stranded
      | some ctx =>
          have active : ¬ ctx.Settled := RApache.Stranded.active stranded
          exact active settled

end Parser

/-! ## One run of the parser -/

variable {env}

/-- A run of a multipart parser that has a context. -/
theorem apreqParserRun_multipart {run after : Run Parser} {status : AprStatus}
    {contentType : Bytes} {ctx : Option (MfdCtx MixCtx)} {used : MfdCtx MixCtx}
    (isMultipart : run.ctx = .multipart contentType ctx)
    (context : multipartContext contentType ctx = some used)
    (ran : apreqParserRun env run = some (status, after)) :
    ∃ result, runMultipart env { run with ctx := used } = some (status, result) ∧
      after = { result with ctx := .multipart contentType (some result.ctx) } := by
  simp only [apreqParserRun, isMultipart, apreqParseMultipart, context,
    Option.map_eq_some_iff, Prod.exists, Prod.mk.injEq] at ran
  rcases ran with ⟨status', result, ran, sameStatus, sameAfter⟩
  exact ⟨result, sameStatus ▸ ran, sameAfter.symm⟩

/-- A multipart parser that cannot make a context. -/
theorem apreqParserRun_noBoundary {run : Run Parser} {contentType : Bytes}
    (isMultipart : run.ctx = .multipart contentType none)
    (missing : multipartBoundary contentType = none) :
    apreqParserRun env run = some (.general, run) := by
  simp [apreqParserRun, isMultipart, apreqParseMultipart, multipartContext, missing]

/-- The context with which a multipart parser runs. -/
theorem multipartContext_cases (contentType : Bytes) (ctx : Option (MfdCtx MixCtx)) :
    (ctx = none ∧ multipartBoundary contentType = none) ∨
      ∃ used, multipartContext contentType ctx = some used ∧
        (ctx = some used ∨ ctx = none ∧ used.potential = 0 ∧ used.bb = []) := by
  cases ctx with
  | some used => exact .inr ⟨used, rfl, .inl rfl⟩
  | none =>
      cases found : multipartBoundary contentType with
      | none => exact .inl ⟨rfl, rfl⟩
      | some boundary =>
          refine .inr ⟨MfdCtx.create boundary (some none), by simp [multipartContext, found],
            .inr ⟨rfl, ?_, rfl⟩⟩
          simp [MfdCtx.create, MfdCtx.potential, MfdCtx.size, MfdCtx.mixPotential,
            MfdStatus.cost]

/-- What a run of the parser keeps. -/
structure ParserSpec (before after : Run Parser) : Prop where
  opens : before.ctx.Open → after.ctx.Open
  settled : before.ctx.Open → after.bb.endsEos → after.ctx.Settled
  ending : before.bb.endsEos →
    after.bb.endsEos ∨ after.ctx.Idle ∨ after.ctx.Stranded ∨
      after.ctx.potential < before.ctx.potential + 3 * before.bb.size

theorem apreqParserRun_spec {before after : Run Parser} {status : AprStatus}
    (ran : apreqParserRun env before = some (status, after)) : ParserSpec before after := by
  cases parser : before.ctx with
  | urlencoded ctx =>
      simp only [apreqParserRun, parser, Option.map_eq_some_iff, Prod.mk.injEq] at ran
      rcases ran with ⟨url, ran, -, sameAfter⟩
      rw [← sameAfter]
      refine ⟨fun _ => trivial, fun _ _ => trivial, ?_⟩
      intro ends
      rcases apreqParseUrlencoded_endsEos env ran ends with handedBack | failed
      · exact .inl handedBack
      · exact .inr (.inl (by simp [Parser.Idle, failed]))
  | multipart contentType ctx =>
      rcases multipartContext_cases contentType ctx with
        ⟨noCtx, missing⟩ | ⟨used, context, origin⟩
      · rw [noCtx] at parser
        rw [apreqParserRun_noBoundary parser missing] at ran
        cases ran
        refine ⟨id, fun _ _ => ?_, .inl⟩
        rw [parser]
        exact missing
      · rcases apreqParserRun_multipart parser context ran with ⟨result, ran, sameAfter⟩
        have spec := runMultipart_spec ran
        have opens : before.ctx.Open → (Run.concat { before with ctx := used }).Open := by
          intro open_
          refine ⟨?_, by simp [Run.concat]⟩
          rcases origin with same | ⟨-, -, empty⟩
          · rw [parser, same] at open_
            exact open_
          · simp [Run.concat, empty]
        have potential : (Run.concat { before with ctx := used }).potential =
            before.ctx.potential + 3 * before.bb.size := by
          rw [Run.concat_potential]
          rcases origin with same | ⟨noCtx, zero, -⟩
          · rw [parser, same]
            rfl
          · rw [parser, noCtx]
            simp [Run.potential, Parser.potential, zero]
        rw [sameAfter]
        refine ⟨fun open_ => spec.opens (opens open_), ?_, ?_⟩
        · intro open_ ends
          rcases spec.keeps (opens open_) with settled | noEos
          · exact settled
          · have notEnds := Brigade.not_endsEos noEos
            simp [notEnds] at ends
        · intro ends
          cases spec.ending ends with
          | handedBack _ ends => exact .inl ends
          | failed _ settled => exact .inr (.inl settled)
          | refused _ _ smaller =>
              right; right; right
              have bound : result.ctx.potential ≤ result.potential := by
                simp only [Run.potential]
                omega
              change result.ctx.potential < _
              omega
          | stranded _ stranded => exact .inr (.inr (.inl stranded))

/-- An idle parser leaves the brigade as it is. -/
theorem apreqParserRun_idle {run after : Run Parser} {status : AprStatus}
    (idle : run.ctx.Idle) (ran : apreqParserRun env run = some (status, after)) :
    after.bb = run.bb := by
  cases parser : run.ctx with
  | urlencoded ctx =>
      rw [parser] at idle
      cases ctx with
      | none => simp [Parser.Idle] at idle
      | some ctx =>
          have failed : ctx.status = .error := by simpa [Parser.Idle] using idle
          simp only [apreqParserRun, parser, apreqParseUrlencoded_error env failed,
            Option.map_some] at ran
          cases ran
          rfl
  | multipart contentType ctx =>
      rw [parser] at idle
      cases ctx with
      | none =>
          rw [apreqParserRun_noBoundary parser idle] at ran
          cases ran
          rfl
      | some ctx =>
          rcases apreqParserRun_multipart parser rfl ran with ⟨result, ran, sameAfter⟩
          have settled : (Run.mk ctx run.t run.bb run.spools).ctx.Settled := idle
          rcases runMultipart_settled env settled with ⟨status', unchanged⟩
          rw [unchanged] at ran
          cases ran
          rw [sameAfter]

/-- A settled parser stays settled. -/
theorem apreqParserRun_settled {run after : Run Parser} {status : AprStatus}
    (settled : run.ctx.Settled) (ran : apreqParserRun env run = some (status, after)) :
    after.ctx.Settled := by
  cases parser : run.ctx with
  | urlencoded ctx =>
      simp only [apreqParserRun, parser, Option.map_eq_some_iff, Prod.mk.injEq] at ran
      rcases ran with ⟨url, -, -, sameAfter⟩
      rw [← sameAfter]
      trivial
  | multipart contentType ctx =>
      rw [parser] at settled
      cases ctx with
      | none =>
          rw [apreqParserRun_noBoundary parser settled] at ran
          cases ran
          rw [parser]
          exact settled
      | some ctx =>
          rcases apreqParserRun_multipart parser rfl ran with ⟨result, ran, sameAfter⟩
          have ctxSettled : (Run.mk ctx run.t run.bb run.spools).ctx.Settled := settled
          rcases runMultipart_settled env ctxSettled with ⟨status', unchanged⟩
          rw [unchanged] at ran
          cases ran
          rw [sameAfter]
          exact settled

/-- A multipart parser whose input strands it keeps what it is given. -/
theorem apreqParserRun_strands {run : Run Parser} {contentType : Bytes}
    {ctx : Option (MfdCtx MixCtx)} {used : MfdCtx MixCtx}
    (isMultipart : run.ctx = .multipart contentType ctx)
    (context : multipartContext contentType ctx = some used)
    (stranded : RApache.Stranded (Run.mk used run.t run.bb run.spools).concat.ctx) :
    ∃ after, apreqParserRun env run = some (.eof, after) ∧ after.ctx.Stranded ∧
      after.bb = [] := by
  have ran := runMultipart_stranded env stranded
  refine ⟨⟨.multipart contentType (some _), run.t, [], run.spools⟩, ?_, stranded, rfl⟩
  simp only [apreqParserRun, isMultipart, apreqParseMultipart, context, ran,
    Option.map_some]
  rfl

/-- A stranded parser stays stranded and keeps what it is given. -/
theorem apreqParserRun_stranded {run : Run Parser} (stranded : run.ctx.Stranded) :
    ∃ after, apreqParserRun env run = some (.eof, after) ∧ after.ctx.Stranded ∧
      after.bb = [] := by
  cases parser : run.ctx with
  | urlencoded ctx =>
      rw [parser] at stranded
      exact stranded.elim
  | multipart contentType ctx =>
      rw [parser] at stranded
      cases ctx with
      | none => exact stranded.elim
      | some ctx =>
          have ctxStranded : RApache.Stranded (Run.mk ctx run.t run.bb run.spools).ctx :=
            stranded
          exact apreqParserRun_strands parser rfl ctxStranded.concat

/-! ## The loop -/

/-- The filters' answers for a body that arrives completely. -/
def Delivery.getBrigade (body : Delivery) (read : Nat) : Except AprStatus Brigade :=
  .ok (body.brigade read)

/-- The parser after `reads` brigades of the body. -/
def parserAfter (env : Environment) (contentType : Bytes) (pfn : ParserFunction)
    (body : Delivery) : (reads : Nat) → Option (Run Parser)
  | 0 => some (parsePostStart contentType pfn)
  | reads + 1 => do
      let run ← parserAfter env contentType pfn body reads
      let (_, run) ← apreqParserRun env { run with bb := body.brigade reads }
      some { run with bb := [] }

section Loop

variable {contentType : Bytes} {pfn : ParserFunction} {body : Delivery}

theorem parserAfter_succ {reads : Nat} {run after : Run Parser} {status : AprStatus}
    (reached : parserAfter env contentType pfn body reads = some run)
    (ran : apreqParserRun env { run with bb := body.brigade reads } = some (status, after)) :
    parserAfter env contentType pfn body (reads + 1) = some { after with bb := [] } := by
  simp [parserAfter, reached, ran]

/-- Between two reads the brigade is empty and the parser's own brigade is open. -/
theorem parserAfter_open {reads : Nat} {run : Run Parser}
    (reached : parserAfter env contentType pfn body reads = some run) :
    run.bb = [] ∧ run.ctx.Open := by
  induction reads generalizing run with
  | zero =>
      simp only [parserAfter, Option.some.injEq] at reached
      rw [← reached]
      cases pfn <;> exact ⟨rfl, trivial⟩
  | succ reads ih =>
      simp only [parserAfter, Option.bind_eq_bind, Option.bind_eq_some_iff, Prod.exists,
        Option.some.injEq] at reached
      rcases reached with ⟨earlier, reached, status, after, ran, sameRun⟩
      have spec := apreqParserRun_spec ran
      rw [← sameRun]
      exact ⟨rfl, spec.opens (ih reached).2⟩

/-- One iteration of the loop. -/
theorem parsePostLoop_succ {fuel reads : Nat} {run : Run Parser}
    (reached : parserAfter env contentType pfn body reads = some run) :
    parsePostLoop env body.getBrigade (fuel + 1) reads run =
      match apreqParserRun env { run with bb := body.brigade reads } with
      | none => some (.aborted (reads + 1))
      | some (_, after) =>
          if after.bb.endsEos then some (.left (reads + 1) after)
          else parsePostLoop env body.getBrigade fuel (reads + 1) { after with bb := [] } := by
  have empty := (parserAfter_open reached).1
  simp only [parsePostLoop, Delivery.getBrigade, empty, List.nil_append]

/-- What the parser has settled on stays so for the rest of the body. -/
theorem parserAfter_settled {reads later : Nat} {run last : Run Parser}
    (reached : parserAfter env contentType pfn body reads = some run)
    (settled : run.ctx.Settled) (after : reads ≤ later)
    (reachedLast : parserAfter env contentType pfn body later = some last) :
    last.ctx.Settled := by
  induction later generalizing last with
  | zero =>
      have same : reads = 0 := Nat.le_zero.mp after
      subst same
      cases reached.symm.trans reachedLast
      exact settled
  | succ later ih =>
      rcases Nat.lt_or_ge later reads with before | atLeast
      · have same : reads = later + 1 := by omega
        subst same
        cases reached.symm.trans reachedLast
        exact settled
      · simp only [parserAfter, Option.bind_eq_bind, Option.bind_eq_some_iff, Prod.exists,
          Option.some.injEq] at reachedLast
        rcases reachedLast with ⟨earlier, reachedEarlier, status, next, ran, sameLast⟩
        rw [← sameLast]
        have earlierSettled := ih atLeast reachedEarlier
        have nextSettled : next.ctx.Settled :=
          apreqParserRun_settled (by exact earlierSettled) ran
        exact nextSettled

/-- A parser that survives a body survives each beginning of it. -/
theorem parserAfter_prefix {reads later : Nat} {last : Run Parser} (before : reads ≤ later)
    (reachedLast : parserAfter env contentType pfn body later = some last) :
    ∃ run, parserAfter env contentType pfn body reads = some run := by
  induction later generalizing last with
  | zero =>
      have same : reads = 0 := Nat.le_zero.mp before
      subst same
      exact ⟨last, reachedLast⟩
  | succ later ih =>
      rcases Nat.eq_or_lt_of_le before with same | earlier
      · subst same
        exact ⟨last, reachedLast⟩
      · simp only [parserAfter, Option.bind_eq_bind, Option.bind_eq_some_iff] at reachedLast
        rcases reachedLast with ⟨run, reachedRun, -⟩
        exact ih (Nat.lt_succ_iff.mp earlier) reachedRun

/-- A stranded parser keeps the loop from ending, from whichever earlier read the loop
is followed. -/
theorem parsePostLoop_stranded {reads strandedAt : Nat} {run stuck : Run Parser}
    (reached : parserAfter env contentType pfn body reads = some run)
    (reachedStuck : parserAfter env contentType pfn body strandedAt = some stuck)
    (stranded : stuck.ctx.Stranded) (before : reads ≤ strandedAt) (fuel : Nat) :
    parsePostLoop env body.getBrigade fuel reads run = none := by
  induction fuel generalizing reads strandedAt run stuck with
  | zero => rfl
  | succ fuel ih =>
      rw [parsePostLoop_succ reached]
      rcases Nat.eq_or_lt_of_le before with same | earlier
      · subst same
        cases reached.symm.trans reachedStuck
        have given : (Run.mk run.ctx run.t (body.brigade reads) run.spools).ctx.Stranded :=
          stranded
        rcases apreqParserRun_stranded given with ⟨after, ran, still, kept⟩
        have next := parserAfter_succ reached ran
        simp only [ran, kept]
        exact ih next next still (Nat.le_refl _)
      · rcases parserAfter_prefix earlier reachedStuck with ⟨next, reachedNext⟩
        have step := reachedNext
        simp only [parserAfter, reached, Option.bind_eq_bind, Option.bind_some,
          Option.bind_eq_some_iff, Prod.exists, Option.some.injEq] at step
        rcases step with ⟨status, after, ran, sameNext⟩
        simp only [ran]
        -- A parser that hands back the end of the stream is not stranded later.
        have notEnds : after.bb.endsEos = false := by
          by_contra ends
          have spec := apreqParserRun_spec ran
          have settled := spec.settled (parserAfter_open reached).2 (by simpa using ends)
          have nextSettled : next.ctx.Settled := by
            rw [← sameNext]
            exact settled
          exact (parserAfter_settled reachedNext nextSettled earlier reachedStuck).not_stranded
            stranded
        rw [notEnds]
        exact ih (sameNext ▸ reachedNext) reachedStuck stranded earlier

/-- An idle parser lets the loop end at the next read of an end of stream. -/
theorem parsePostLoop_idle {reads : Nat} {run : Run Parser}
    (reached : parserAfter env contentType pfn body reads = some run)
    (idle : run.ctx.Idle) (ends : (body.brigade reads).endsEos) :
    ∃ exit, parsePostLoop env body.getBrigade 1 reads run = some exit := by
  rw [parsePostLoop_succ reached]
  cases ran : apreqParserRun env { run with bb := body.brigade reads } with
  | none => exact ⟨_, rfl⟩
  | some result =>
      rcases result with ⟨status, after⟩
      have same := apreqParserRun_idle (by exact idle) ran
      simp [same, ends]

/-- Once the body has been read, the loop ends unless the parser gets stranded.  The
induction is on what is left to do for the parser: a part that cannot be stored takes
its delimiter out of the input. -/
theorem parsePostLoop_ends {reads : Nat} {run : Run Parser}
    (reached : parserAfter env contentType pfn body reads = some run)
    (last : body.brigades.length ≤ reads + 1)
    (never : ∀ reads run, parserAfter env contentType pfn body reads = some run →
      ¬ run.ctx.Stranded) :
    ∃ fuel exit, parsePostLoop env body.getBrigade fuel reads run = some exit := by
  induction measure : run.ctx.potential + 3 * (body.brigade reads).size using
    Nat.strongRecOn generalizing reads run with
  | ind bound ih =>
      cases ran : apreqParserRun env { run with bb := body.brigade reads } with
      | none =>
          refine ⟨1, .aborted (reads + 1), ?_⟩
          simp [parsePostLoop_succ reached, ran]
      | some result =>
          rcases result with ⟨status, after⟩
          have next := parserAfter_succ reached ran
          have spec := apreqParserRun_spec ran
          have afterBody := body.brigade_after last
          -- One more iteration, when the loop is not left in this one.
          have another (goesOn : ∃ fuel exit, parsePostLoop env body.getBrigade fuel
              (reads + 1) { after with bb := [] } = some exit) :
              ∃ fuel exit, parsePostLoop env body.getBrigade fuel reads run = some exit := by
            rcases goesOn with ⟨fuel, exit, left⟩
            cases ends : after.bb.endsEos with
            | true =>
                exact ⟨1, .left (reads + 1) after, by
                  simp [parsePostLoop_succ reached, ran, ends]⟩
            | false =>
                exact ⟨fuel + 1, exit, by simp [parsePostLoop_succ reached, ran, ends, left]⟩
          rcases spec.ending (body.brigade_endsEos last) with
            ends | idle | stranded | smaller
          · exact ⟨1, .left (reads + 1) after, by simp [parsePostLoop_succ reached, ran, ends]⟩
          · apply another
            exact ⟨1, parsePostLoop_idle next idle (body.brigade_endsEos (by omega))⟩
          · exact (never _ _ next stranded).elim
          · apply another
            refine ih _ ?_ next (by omega) rfl
            have spent : (body.brigade (reads + 1)).size = 0 := by
              rw [afterBody]
              rfl
            have smaller : after.ctx.potential <
                run.ctx.potential + 3 * (body.brigade reads).size := smaller
            simp only [spent]
            omega

/-- The loop goes through the body, unless it is left earlier. -/
theorem parsePostLoop_body {reads : Nat} {run : Run Parser}
    (reached : parserAfter env contentType pfn body reads = some run)
    (never : ∀ reads run, parserAfter env contentType pfn body reads = some run →
      ¬ run.ctx.Stranded) :
    ∃ fuel exit, parsePostLoop env body.getBrigade fuel reads run = some exit := by
  induction remaining : body.brigades.length - reads generalizing reads run with
  | zero => exact parsePostLoop_ends reached (by omega) never
  | succ remaining ih =>
      cases ran : apreqParserRun env { run with bb := body.brigade reads } with
      | none =>
          refine ⟨1, .aborted (reads + 1), ?_⟩
          simp [parsePostLoop_succ reached, ran]
      | some result =>
          rcases result with ⟨status, after⟩
          cases ends : after.bb.endsEos with
          | true =>
              exact ⟨1, .left (reads + 1) after, by
                simp [parsePostLoop_succ reached, ran, ends]⟩
          | false =>
              rcases ih (parserAfter_succ reached ran) (by omega) with ⟨fuel, exit, left⟩
              exact ⟨fuel + 1, exit, by simp [parsePostLoop_succ reached, ran, ends, left]⟩

end Loop

end RApache
