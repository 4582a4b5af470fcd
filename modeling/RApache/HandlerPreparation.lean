import RApache.HandlerExpressions

/-!
# What `PrepareHandlerExpr` reports

`PrepareHandlerExpr` returns 1 when the entry of the handler holds an expression.  For an
r-script request that need not be the one that the request asks for: where its text cannot be
parsed, the function takes the way of the other requests.
-/

namespace RApache

open Stepwise
open Stepwise.Program (Every Reaches Safe Triple done_ends_iff atomic_ends_iff bind_ends_iff)

/-- The text of the expression for a request of this type. -/
def typeText (d : RApacheDirective) (filename : Option Bytes) : RApacheHandlerType → Option Bytes
  | .script =>
      match d.function, filename with
      | some function, some filename => some (scriptText d.package function filename)
      | _, _ => none
  | _ => directiveText d

/-- The parse of a text. -/
def parsedText (w : World) (text : Option Bytes) : Option RExprs :=
  text.bind fun text => (w.parse text).map .vector

/-- The parse of the text for a request of this type. -/
def typeExpr (w : World) (h : HandlerEntry) (r : RequestRec) (type : RApacheHandlerType) :
    Option RExprs :=
  parsedText w (typeText h.directive r.filename type)

/-- For an r-script request: its text can be parsed, or the call without arguments cannot be
parsed either.  For other requests: the entry holds no expression, or the parse of the
directive's text. -/
def PreparedByType (w : World) (h : HandlerEntry) (r : RequestRec) (s : Child) :
    RApacheHandlerType → Prop
  | .script => h.directive.function = none ∨ r.filename = none ∨
      (typeExpr w h r .script).isSome ∨ parsedText w (directiveText h.directive) = none
  | type => s.handlerExpr h.key = none ∨ s.handlerExpr h.key = typeExpr w h r type

namespace Code

/-- `PrepareHandlerExpr` fails if the text for the request cannot be parsed, and when it
succeeds the entry holds the parse of that text. -/
def PreparesOwn (w : World) (me : Owner) (h : HandlerEntry) (r : RequestRec)
    (type : RApacheHandlerType) (s : Child) : Prop :=
  ∀ env success s',
    Reaches always (prepareHandlerExpr w me h r type env) s (.done success) s' →
      (typeExpr w h r type = none → success = false) ∧
        (success = true → ∃ expr, typeExpr w h r type = some expr ∧
          s'.handlerExpr h.key = some expr)

/-- If the text for the request cannot be parsed, the request is answered with an error, and no
expression of the handler is evaluated. -/
def FailsUnparsed (w : World) (me : Owner) (h : HandlerEntry) (r : RequestRec)
    (type : RApacheHandlerType) (s : Child) : Prop :=
  typeExpr w h r type = none → h.directive.function.isSome ∨ h.directive.evalcode.isSome →
    ∀ response s', Reaches always (runHandler w me h r type) s (.done response) s' →
      response.result = httpInternalServerError ∧ s'.handlerEvaluations = s.handlerEvaluations

variable {w : World} {me : Owner} {h : HandlerEntry} {r : RequestRec}

/-! ## The entry while the request is prepared -/

/-- There is an entry, with this expression, and these are the evaluations so far. -/
structure Holding (key : Bytes) (expr : Option RExprs) (evaluations : List HandlerEvaluation)
    (s : Child) : Prop where
  present : (s.handlers key).isSome
  expr : s.handlerExpr key = expr
  evaluations : s.handlerEvaluations = evaluations

section Holding

variable {key : Bytes} {expr : Option RExprs} {evaluations : List HandlerEvaluation}

theorem Holding.keeps {s s' : Child} (holding : Holding key expr evaluations s)
    (keeps : KeepsExprs s s') : Holding key expr evaluations s' :=
  ⟨keeps.present key holding.present, (keeps.exprs key).trans holding.expr,
    keeps.evaluations.trans holding.evaluations⟩

theorem holding_caches : AboutCaches (fun _ => True) (Holding key expr evaluations) where
  implies _ _ := trivial
  keeps _ _ keeps holding := holding.keeps keeps.keepsExprs

theorem keepsExprs_holding {α : Type} {p : Code α}
    (every : Every always (fun _ => KeepsExprs) p) :
    Triple always (fun _ => True) (Holding key expr evaluations) p
      fun _ => Holding key expr evaluations :=
  every.triple (fun _ _ _ keeps holding => holding.keeps keeps) fun _ _ => trivial

theorem modifyHandler_holding (built : Option RExprs) :
    Triple always (fun _ => True) (Holding key expr evaluations)
      (modifyHandler key fun entry => { entry with expr := built })
      fun _ => Holding key built evaluations := by
  apply triple_modify fun _ _ => trivial
  intro ω s holding
  rcases Option.isSome_iff_exists.mp holding.present with ⟨entry, isEntry⟩
  refine ⟨trivial, ?_, ?_, holding.evaluations⟩
  · simp [Child.written, isEntry]
  · simp [Child.handlerExpr, Child.written, isEntry]

theorem read_holding {α : Type} {value : Answer → Child → α} (result : Option RExprs → α)
    (isResult : ∀ ω s, Holding key expr evaluations s → value ω s = result expr) :
    Triple always (fun _ => True) (Holding key expr evaluations) (read value)
      fun found s => found = result expr ∧ Holding key expr evaluations s := by
  apply triple_atomic fun _ _ => trivial
  intro ω s found s' holding acted
  cases acted
  have later : Holding key expr evaluations (s.written ω) :=
    ⟨holding.present, holding.expr, holding.evaluations⟩
  exact ⟨trivial, isResult ω _ later, later⟩

end Holding

section Prepare

variable {expr : Option RExprs} {evaluations : List HandlerEvaluation}

/-- What a successful `PrepareHandlerExpr` leaves in an entry that held `expr` when it looked for
an expression. -/
def Prepared (w : World) (h : HandlerEntry) (expr : Option RExprs)
    (evaluations : List HandlerEvaluation) (success : Bool) (s : Child) : Prop :=
  s.handlerEvaluations = evaluations ∧ (success = true →
    ∃ found, s.handlerExpr h.key = some found ∧
      (expr = some found ∨ expr = none ∧ parsedText w (directiveText h.directive) = some found))

/-- `PrepareHandlerExpr` for requests that are not r-script requests. -/
theorem prepareHandlerExpr_other {type : RApacheHandlerType} (notScript : type ≠ .script)
    (env : Option EnvId) :
    Triple always (fun _ => True) (Holding h.key expr evaluations)
      (prepareHandlerExpr w me h r type env) (Prepared w h expr evaluations) := by
  have allows : AllowsWork (fun _ => KeepsCaches) w := allowsWork_keepsCaches
  simp only [prepareHandlerExpr, notScript, if_false]
  refine (read_holding Option.isSome fun ω s holding => ?_).bind fun present => ?_
  · exact congrArg Option.isSome ((getD_expr s h.key).trans holding.expr)
  apply Triple.given
  intro isPresent
  cases present with
  | true =>
      rcases Option.isSome_iff_exists.mp isPresent.symm with ⟨found, isFound⟩
      refine .done (fun _ _ => trivial) fun s holding => ⟨holding.evaluations, fun _ => ?_⟩
      exact ⟨found, holding.expr.trans isFound, .inl isFound⟩
  | false =>
      have noExpr : expr = none := by simpa using isPresent
      refine (handlerText_triple holding_caches env).bind fun text => ?_
      apply Triple.given
      intro isText
      cases text with
      | none =>
          exact .done (fun _ _ => trivial) fun s holding =>
            ⟨holding.evaluations, fun isTrue => (Bool.false_ne_true isTrue).elim⟩
      | some text =>
          refine (holding_caches.triple (printParseErrors_every allows)).bind fun _ => ?_
          refine (modifyHandler_holding _).bind fun _ => .done (fun _ _ => trivial) ?_
          intro s holding
          refine ⟨holding.evaluations, fun parsed => ?_⟩
          rcases Option.isSome_iff_exists.mp parsed with ⟨exprs, isParsed⟩
          refine ⟨.vector exprs, ?_, .inr ⟨noExpr, ?_⟩⟩
          · rw [holding.expr, isParsed]
            rfl
          · rw [parsedText, isText text rfl, Option.bind_some, isParsed]
            rfl

/-- The part for r-script requests only comes to its end if there are a function, a file and an
environment; then the entry holds the parse of the call with the file. -/
theorem prepareScript_holding (env : Option EnvId) :
    Triple always (fun _ => True) (Holding h.key expr evaluations) (prepareScript w h r env)
      fun _ s => (h.directive.function.isSome ∧ r.filename.isSome) ∧
        Holding h.key (typeExpr w h r .script) evaluations s := by
  refine holding_caches.prepareScript holding_caches ?_ (fun _ _ _ _ => trivial) env
  intro function filename isFunction isFilename
  have isExpr : typeExpr w h r .script =
      (w.parse (scriptText h.directive.package function filename)).map .vector := by
    simp [typeExpr, typeText, parsedText, isFunction, isFilename]
  rw [isExpr]
  exact modifyHandler_holding _

/-- `PrepareHandlerExpr` for r-script requests. -/
theorem prepareHandlerExpr_script (env : Option EnvId) :
    Triple always (fun _ => True) (Holding h.key expr evaluations)
      (prepareHandlerExpr w me h r .script env) fun success s =>
        (h.directive.function.isSome ∧ r.filename.isSome) ∧
          Prepared w h (typeExpr w h r .script) evaluations success s := by
  refine (@prepareScript_holding w h r expr evaluations env).bind fun _ => ?_
  apply Triple.given
  intro complete
  exact (prepareHandlerExpr_other (by decide) env : Triple always _ _
    (prepareHandlerExpr w me h r .handler env) _).post fun _ _ prepared => ⟨complete, prepared⟩

end Prepare

/-- `PrepareHandlerExpr` evaluates no expression of a handler. -/
theorem prepareHandlerExpr_evaluations {expr : Option RExprs} {evaluations : List HandlerEvaluation}
    {type : RApacheHandlerType} (env : Option EnvId) :
    Triple always (fun _ => True) (Holding h.key expr evaluations)
      (prepareHandlerExpr w me h r type env) fun _ s => s.handlerEvaluations = evaluations := by
  by_cases isScript : type = .script
  · subst isScript
    exact (prepareHandlerExpr_script env).post fun _ _ left => left.2.1
  · exact (prepareHandlerExpr_other isScript env).post fun _ _ left => left.1

theorem preparedByType_congr {type : RApacheHandlerType} {s s' : Child}
    (same : s'.handlerExpr h.key = s.handlerExpr h.key) :
    PreparedByType w h r s' type ↔ PreparedByType w h r s type := by
  cases type with
  | script => exact Iff.rfl
  | handler => simp only [PreparedByType, same]
  | info => simp only [PreparedByType, same]

/-! ## When it reports its own expression -/

theorem prepared_own {type : RApacheHandlerType} {env : Option EnvId} {s s' : Child}
    (present : (s.handlers h.key).isSome) (prepared : PreparedByType w h r s type)
    (ran : Reaches always (prepareHandlerExpr w me h r type env) s (.done true) s') :
    ∃ expr, typeExpr w h r type = some expr ∧ s'.handlerExpr h.key = some expr := by
  have holding : Holding h.key (s.handlerExpr h.key) s.handlerEvaluations s := ⟨present, rfl, rfl⟩
  by_cases isScript : type = .script
  · subst isScript
    rcases (prepareHandlerExpr_script env s holding).result ran with
      ⟨⟨isFunction, isFilename⟩, -, left⟩
    rcases left rfl with ⟨found, isFound, own | ⟨none, other⟩⟩
    · exact ⟨found, own, isFound⟩
    · rcases prepared with noFunction | noFilename | parsed | unparsed
      · rw [noFunction] at isFunction
        cases isFunction
      · rw [noFilename] at isFilename
        cases isFilename
      · rw [none] at parsed
        cases parsed
      · rw [unparsed] at other
        cases other
  · have own : typeExpr w h r type = parsedText w (directiveText h.directive) := by
      cases type with
      | script => exact (isScript rfl).elim
      | handler => rfl
      | info => rfl
    have entry : s.handlerExpr h.key = none ∨ s.handlerExpr h.key = typeExpr w h r type := by
      cases type with
      | script => exact (isScript rfl).elim
      | handler => exact prepared
      | info => exact prepared
    rcases (prepareHandlerExpr_other isScript env s holding).result ran with ⟨-, left⟩
    rcases left rfl with ⟨found, isFound, held | ⟨none, built⟩⟩
    · rcases entry with empty | same
      · rw [empty] at held
        cases held
      · exact ⟨found, same.symm.trans held, isFound⟩
    · exact ⟨found, own.trans built, isFound⟩

theorem preparesOwn_of {type : RApacheHandlerType} {s : Child}
    (present : (s.handlers h.key).isSome) (prepared : PreparedByType w h r s type) :
    PreparesOwn w me h r type s := by
  intro env success s' ran
  constructor
  · intro unparsed
    cases success with
    | false => rfl
    | true =>
        rcases prepared_own present prepared ran with ⟨expr, isOwn, -⟩
        rw [unparsed] at isOwn
        cases isOwn
  · intro isSuccess
    rw [isSuccess] at ran
    exact prepared_own present prepared ran

theorem read_ends {α : Type} (value : Answer → Child → α) (s : Child) :
    Reaches always (read value) s (.done (value {} (s.written {}))) (s.written {}) :=
  atomic_ends_iff.mpr ⟨{}, rfl, trivial⟩

theorem modifyHandler_ends (key : Bytes) (change : RApacheHandler → RApacheHandler) (s : Child) :
    ∃ s', Reaches always (modifyHandler key change) s (.done ()) s' :=
  ⟨_, atomic_ends_iff.mpr ⟨{}, rfl, trivial⟩⟩

theorem aprFilepathSet_ends (path : Option Bytes) (s : Child) :
    ∃ changed s', Reaches always (aprFilepathSet path) s (.done changed) s' := by
  cases path with
  | none => exact ⟨_, _, atomic_ends_iff.mpr ⟨{}, rfl, trivial⟩⟩
  | some dir => exact ⟨_, _, atomic_ends_iff.mpr ⟨{}, rfl, trivial⟩⟩

/-- Text can be parsed without a message. -/
theorem printParseErrors_ends (s : Child) :
    Reaches always (printParseErrors w) s (.done ()) (s.written {}) :=
  bind_ends_iff.mpr ⟨_, _, read_ends (fun ω _ => ω.errors) s, .refl⟩

/-- The part for r-script requests can come to its end. -/
theorem prepareScript_ends {function filename : Bytes}
    (isFunction : h.directive.function = some function) (isFilename : r.filename = some filename)
    (env : EnvId) (s : Child) :
    ∃ s', Reaches always (prepareScript w h r (some env)) s (.done ()) s' := by
  simp only [prepareScript, isFunction, isFilename]
  rcases modifyHandler_ends h.key (fun entry => { entry with expr :=
    (w.parse (scriptText h.directive.package function filename)).map .vector }) (s.written {}) with
    ⟨s₁, built⟩
  have looked := read_ends (fun ω _ => ω.uninitialised) s₁
  rcases aprFilepathSet_ends (dirname 0 filename) _ with ⟨changed, s', set⟩
  exact ⟨s', bind_ends_iff.mpr ⟨_, _, printParseErrors_ends s, bind_ends_iff.mpr ⟨_, _, built,
    bind_ends_iff.mpr ⟨_, _, looked, bind_ends_iff.mpr ⟨_, _, set, .refl⟩⟩⟩⟩⟩

/-- The directive's text can be found. -/
theorem handlerText_ends {function : Bytes} (isFunction : h.directive.function = some function)
    (env : EnvId) (s : Child) :
    ∃ s', Reaches always (handlerText w me h (some env)) s
      (.done (directiveText h.directive)) s' := by
  cases isPackage : h.directive.package with
  | some package =>
      simp only [handlerText, isFunction, isPackage, directiveText]
      exact ⟨s, .refl⟩
  | none =>
      cases isFile : h.directive.file with
      | none =>
          simp only [handlerText, isFunction, isPackage, isFile, directiveText]
          exact ⟨s, .refl⟩
      | some file =>
          simp only [handlerText, isFunction, isPackage, isFile, directiveText]
          -- R code that does nothing is evaluated, and the function is found
          have evaluated : Reaches always (tryEval w me) s (.done (some .other)) (s.written {}) :=
            bind_ends_iff.mpr ⟨_, _, read_ends _ s, .refl⟩
          have found : Reaches always (myfindFun w me (some env)) s (.done true)
              ((s.written {}).written {}) :=
            bind_ends_iff.mpr ⟨_, _, evaluated, read_ends _ _⟩
          exact ⟨_, bind_ends_iff.mpr ⟨_, _, found, .refl⟩⟩

/-- Where the call without arguments can be parsed, it is taken for that of the r-script
request. -/
theorem prepareHandlerExpr_falls_back {function filename text : Bytes} {exprs : List RExpr}
    (isFunction : h.directive.function = some function) (isFilename : r.filename = some filename)
    (unparsed : typeExpr w h r .script = none) (isText : directiveText h.directive = some text)
    (parsed : w.parse text = some exprs) {s : Child} (present : (s.handlers h.key).isSome)
    (env : EnvId) :
    ∃ s', Reaches always (prepareHandlerExpr w me h r .script (some env)) s (.done true) s' := by
  rcases prepareScript_ends isFunction isFilename env s with ⟨s₁, prepared⟩
  have holding := (@prepareScript_holding w h r _ _ (some env) s
    ⟨present, rfl, rfl⟩).result prepared
  have noExpr : (((s₁.written {}).handlers h.key).getD {}).expr.isSome = false := by
    rw [getD_expr, Option.isSome_eq_false_iff, Option.isNone_iff_eq_none]
    exact holding.2.expr.trans unparsed
  rcases handlerText_ends isFunction env (s₁.written {}) with ⟨s₂, found⟩
  rw [isText] at found
  have looked := read_ends (fun _ s => (((s.handlers h.key).getD {}).expr).isSome) s₁
  rw [noExpr] at looked
  rcases modifyHandler_ends h.key
    (fun entry => { entry with expr := (w.parse text).map .vector }) (s₂.written {}) with
    ⟨s₃, built⟩
  simp only [prepareHandlerExpr, if_true]
  refine ⟨s₃, bind_ends_iff.mpr ⟨_, _, prepared, bind_ends_iff.mpr ⟨_, _, looked,
    bind_ends_iff.mpr ⟨_, _, found, bind_ends_iff.mpr ⟨_, _, printParseErrors_ends s₂,
      bind_ends_iff.mpr ⟨_, _, built, ?_⟩⟩⟩⟩⟩⟩
  rw [parsed]
  exact .refl

theorem preparedByType_of {type : RApacheHandlerType} {s : Child}
    (present : (s.handlers h.key).isSome) (own : PreparesOwn w me h r type s) :
    PreparedByType w h r s type := by
  have others (notScript : type ≠ .script) : s.handlerExpr h.key = none ∨
      s.handlerExpr h.key = typeExpr w h r type := by
    cases isExpr : s.handlerExpr h.key with
    | none => exact .inl rfl
    | some expr =>
        right
        have looked := read_ends (fun _ s => (((s.handlers h.key).getD {}).expr).isSome) s
        have isSome : (((s.written {}).handlers h.key).getD {}).expr.isSome = true := by
          rw [getD_expr]
          exact congrArg Option.isSome isExpr
        rw [isSome] at looked
        have ran : Reaches always (prepareHandlerExpr w me h r type none) s (.done true)
            (s.written {}) := by
          simp only [prepareHandlerExpr, notScript, if_false]
          exact bind_ends_iff.mpr ⟨_, _, looked, .refl⟩
        rcases (own none true _ ran).2 rfl with ⟨expr', isOwn, isHeld⟩
        rw [isOwn, ← isHeld]
        exact isExpr.symm
  cases type with
  | script =>
      cases isFunction : h.directive.function with
      | none => exact .inl isFunction
      | some function =>
          cases isFilename : r.filename with
          | none => exact .inr (.inl isFilename)
          | some filename =>
              right
              right
              by_contra bad
              rw [not_or, Option.not_isSome_iff_eq_none] at bad
              rcases bad with ⟨unparsed, falls⟩
              rcases Option.ne_none_iff_exists'.mp falls with ⟨expr, isExpr⟩
              rcases Option.bind_eq_some_iff.mp isExpr with ⟨text, isText, isParsed⟩
              rcases Option.map_eq_some_iff.mp isParsed with ⟨exprs, parsed, -⟩
              rcases prepareHandlerExpr_falls_back isFunction isFilename unparsed isText parsed
                present 0 with ⟨s', ran⟩
              cases (own _ _ _ ran).1 unparsed
  | handler => exact others (by decide)
  | info => exact others (by decide)

/-! ## A request whose text cannot be parsed -/

section Fails

variable {expr : Option RExprs} {evaluations : List HandlerEvaluation}

theorem evaluations_caches :
    AboutCaches (fun _ => True) fun s => s.handlerEvaluations = evaluations where
  implies _ _ := trivial
  keeps _ _ keeps same := keeps.handlerEvaluations.trans same

theorem rApacheResponseError_fails (msg : Option Bytes) :
    Triple always (fun _ => True) (fun s => s.handlerEvaluations = evaluations)
      (rApacheResponseError w me msg)
      fun result s => result = httpInternalServerError ∧ s.handlerEvaluations = evaluations := by
  have down : Triple always (fun _ => True) (fun s => s.handlerEvaluations = evaluations)
      (tearDownRequest w me false >>= fun _ => pure httpInternalServerError)
      fun result s => result = httpInternalServerError ∧ s.handlerEvaluations = evaluations :=
    (evaluations_caches.triple (tearDownRequest_keepsCaches false)).bind fun _ =>
      .done (fun _ _ => trivial) fun _ same => ⟨rfl, same⟩
  cases msg with
  | none => exact down
  | some msg =>
      exact (evaluations_caches.triple
        (perform_every (@allowsCode_keepsCaches w me).toAllowsWork rfl)).bind fun _ => down

/-- Either the request has failed, or its entry still holds the same expression. -/
def FailedOrHolding (key : Bytes) (expr : Option RExprs) (evaluations : List HandlerEvaluation) :
    Except Int (RResult × Bool) → Child → Prop
  | .error result => fun s =>
      result = httpInternalServerError ∧ s.handlerEvaluations = evaluations
  | .ok _ => Holding key expr evaluations

theorem prepareEnvironment_fails :
    Triple always (fun _ => True) (Holding h.key expr evaluations) (prepareEnvironment w me h r)
      (FailedOrHolding h.key expr evaluations) := by
  have failed : Triple always (fun _ => True) (Holding h.key expr evaluations)
      (.error <$> rApacheResponseError w me none : Code (Except Int (RResult × Bool)))
      (FailedOrHolding h.key expr evaluations) :=
    ((rApacheResponseError_fails none).pre fun _ holding => holding.evaluations).bind fun _ =>
      .done (fun _ _ => trivial) fun _ now => now
  unfold prepareEnvironment
  split
  next =>
    have made : Every always (fun _ => KeepsExprs) (newHandlerEnv h.key) := by
      exact every_modify fun _ s =>
        keepsExprs_update rfl (map_handlerExpr fun _ => rfl) (by simp [Child.written]) rfl
    exact (keepsExprs_holding made).bind fun _ => .done (fun _ _ => trivial) fun _ now => now
  next file _ =>
    have settled (key : Bytes) (value : RResult × Bool) :
        Triple always (fun _ => True) (Holding h.key expr evaluations)
          (prepareEnvironment.setEnvir h key >>= fun _ => pure (.ok value))
          (FailedOrHolding h.key expr evaluations) := by
      have set : Every always (fun _ => KeepsExprs) (prepareEnvironment.setEnvir h key) := by
        exact every_modify fun _ s =>
          keepsExprs_update rfl (map_handlerExpr fun _ => rfl) (by simp [Child.written]) rfl
      exact (keepsExprs_holding set).bind fun _ => .done (fun _ _ => trivial) fun _ now => now
    have allows : AllowsCode always (fun _ => KeepsCaches) w me := allowsCode_keepsCaches
    refine (holding_caches.triple (aprFilepathSet_every allows.toAllowsWork _)).bind
      fun changed => ?_
    cases changed with
    | false => exact failed
    | true =>
        refine (keepsExprs_holding (prepareFileExprs_keepsExprs h file)).bind fun ready => ?_
        cases ready with
        | none => exact failed
        | some ready =>
            rcases ready with ⟨key, fileParsed, versions⟩
            simp only
            split
            next =>
              refine (keepsExprs_holding (evalFile_keepsExprs r file key versions)).bind
                fun value => ?_
              rcases value with ⟨ret, evalError⟩
              cases evalError with
              | true =>
                  exact (holding_caches.triple printTraceback_keepsCaches).bind fun _ => failed
              | false => exact settled key _
            next => exact settled key _

end Fails

/-- The whole handler behind `RefreshRApacheEnv`. -/
theorem failsUnparsed_of {type : RApacheHandlerType} {s : Child}
    (present : (s.handlers h.key).isSome) (prepared : PreparedByType w h r s type) :
    FailsUnparsed w me h r type s := by
  intro unparsed evaluates response s' ran
  rcases bind_ends_iff.mp ran with ⟨ready, s₁, first, rest⟩
  have known := (prepareEnvironment_fails s ⟨present, rfl, rfl⟩).result first
  cases ready with
  | error result =>
      rcases done_ends_iff.mp rest with ⟨rfl, rfl⟩
      exact known
  | ok value =>
      simp only [evaluates, if_true] at rest
      rcases bind_ends_iff.mp rest with ⟨env, s₂, looked, rest⟩
      have held := (holding_caches.triple
        (read_every (@allowsCode_keepsCaches w me).toAllowsWork _) s₁ known).result looked
      rcases bind_ends_iff.mp rest with ⟨success, s₃, made, rest⟩
      have own : PreparesOwn w me h r type s₂ :=
        preparesOwn_of held.present ((preparedByType_congr held.expr).mpr prepared)
      have failed : success = false := (own _ _ _ made).1 unparsed
      rw [failed, if_neg Bool.false_ne_true] at rest
      rcases bind_ends_iff.mp rest with ⟨result, s₄, answered, rest⟩
      have kept := (prepareHandlerExpr_evaluations _ s₂ held).result made
      rcases (rApacheResponseError_fails none s₃ kept).result answered with ⟨isError, same⟩
      rcases done_ends_iff.mp rest with ⟨rfl, rfl⟩
      exact ⟨isError, same⟩

/-- `PrepareHandlerExpr` only succeeds with the request's own expression, and requests whose text
cannot be parsed fail, just when the entry holds no other expression and, for an r-script
request, there is no other way to one. -/
theorem prepared_expression_is_own_iff (w : World) (me : Owner) (h : HandlerEntry)
    (r : RequestRec) (type : RApacheHandlerType) (s : Child)
    (present : (s.handlers h.key).isSome) :
    PreparesOwn w me h r type s ∧ FailsUnparsed w me h r type s ↔ PreparedByType w h r s type := by
  constructor
  · rintro ⟨own, -⟩
    exact preparedByType_of present own
  · intro prepared
    exact ⟨preparesOwn_of present prepared, failsUnparsed_of present prepared⟩

end Code

/-! ## A file name with a quote -/

/-- R that parses a text whose quotes pair up. -/
def quotesWorld : World where
  parse text := if text.count (byte '\'') % 2 = 0 then some [⟨text⟩] else none
  fuel := 0
  infoText := fun _ => []

/-- The entry of the directive `RHandler brew`. -/
def brewEntry : HandlerEntry where
  key := bytes "brew"
  directive := { function := some (bytes "brew"), handlerKey := some (bytes "brew") }

/-- A request for that directive. -/
def brewFile (filename : String) : RequestRec where
  address := 0
  handler := bytes "r-script"
  perDirConfig := some brewEntry.directive
  filename := some (bytes filename)

/-- A child with that entry, which holds no expression yet. -/
def brewChild : Child :=
  { Child.fresh (bytes "/") none fun _ => [] with
    handlers := fun key => if key = bytes "brew" then some {} else none }

/-- The call for a file whose name has no quote. -/
theorem plain_file_is_prepared :
    Code.PreparesOwn quotesWorld { worker := 0, number := 0 } brewEntry (brewFile "/ab") .script
        brewChild ∧
      Code.FailsUnparsed quotesWorld { worker := 0, number := 0 } brewEntry (brewFile "/ab") .script
        brewChild :=
  (Code.prepared_expression_is_own_iff quotesWorld { worker := 0, number := 0 } brewEntry
    (brewFile "/ab") .script brewChild (by decide +kernel)).mpr
    (.inr (.inr (.inl (by decide +kernel))))

/-- The call for the file `/a'b` cannot be parsed, and the call without arguments is evaluated
in its place. -/
theorem quote_calls_without_file :
    (∃ s, Serves quotesWorld [brewFile "/a'b"] s ∧
      s.handlerEvaluations.map HandlerEvaluation.expr =
        [some (.vector [⟨bytes "brew()"⟩])]) ∧
    typeExpr quotesWorld brewEntry (brewFile "/a'b") .script = none ∧
    ¬ ∀ (w : World) (me : Owner) (h : HandlerEntry) (r : RequestRec) (type : RApacheHandlerType)
        (s : Child), (s.handlers h.key).isSome →
      Code.PreparesOwn w me h r type s ∧ Code.FailsUnparsed w me h r type s := by
  refine ⟨?_, by decide +kernel, ?_⟩
  · have ran : (Program.runWith (fun _ => {}) 23 (Code.serve quotesWorld 0 0 [brewFile "/a'b"])
        (Child.fresh (bytes "/") none fun _ => [])).isSome := by decide +kernel
    refine ⟨_, ⟨_, _, _, _, Program.runWith_reaches (Option.some_get ran).symm⟩, ?_⟩
    decide +kernel +revert
  · intro all
    have own := (all quotesWorld { worker := 0, number := 0 } brewEntry (brewFile "/a'b") .script
      brewChild (by decide +kernel)).1
    have prepared : PreparedByType quotesWorld brewEntry (brewFile "/a'b") brewChild .script :=
      Code.preparedByType_of (by decide +kernel) own
    rcases prepared with noFunction | noFilename | parsed | unparsed
    · exact absurd noFunction (by decide +kernel)
    · exact absurd noFilename (by decide +kernel)
    · exact absurd parsed (by decide +kernel)
    · exact absurd unparsed (by decide +kernel)

end RApache
