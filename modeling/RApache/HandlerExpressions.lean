import RApache.CacheRuns

/-!
# The expression of a handler

`PrepareHandlerExpr` keeps the expression that it has built in the entry of the directive's
text, and only builds another one if there is none, or for an r-script request.
-/

namespace RApache

open Stepwise
open Stepwise.Program (Every Reaches Triple)

/-- The text of the expression that a directive asks for. -/
def directiveText (d : RApacheDirective) : Option Bytes :=
  match d.function with
  | some function => some (functionText d.package function)
  | none => d.evalcode

/-- The text of the expression that a request asks for. -/
def requestText (r : RequestRec) : Option Bytes :=
  match handlerType r.handler, r.perDirConfig with
  | some .script, some d =>
      match d.function, r.filename with
      | some function, some filename => some (scriptText d.package function filename)
      | _, _ => none
  | _, some d => directiveText d
  | _, none => none

/-- The parse of that text. -/
def requestExpr (w : World) (r : RequestRec) : Option RExprs :=
  (requestText r).bind fun text => (w.parse text).map .vector

/-- The expression evaluated is the parse of the text that the request asks for. -/
def EvaluatesOwn (w : World) (evaluation : HandlerEvaluation) : Prop :=
  ∃ exprs, requestExpr w evaluation.r = some exprs ∧ evaluation.expr = some exprs

/-- For each r-handler request that is evaluated, those evaluated before under the same key
ask for the same text; and the text of each r-script request can be parsed. -/
def TextsAgree (w : World) : List HandlerEvaluation → Prop
  | [] => True
  | evaluation :: earlier =>
      (match handlerType evaluation.r.handler with
        | some .script => (requestExpr w evaluation.r).isSome
        | _ => ∀ other ∈ earlier, other.r.handlerKey = evaluation.r.handlerKey →
            requestText other.r = requestText evaluation.r) ∧
      TextsAgree w earlier

/-- The expression in the entry of a key. -/
def Child.handlerExpr (s : Child) (key : Bytes) : Option RExprs :=
  (s.handlers key).bind RApacheHandler.expr

/-! ## Steps that keep the expressions -/

/-- Neither an expression nor the record of the evaluations is changed, and no entry is
lost. -/
structure KeepsExprs (s s' : Child) : Prop where
  exprs : ∀ key, s'.handlerExpr key = s.handlerExpr key
  present : ∀ key, (s.handlers key).isSome → (s'.handlers key).isSome
  evaluations : s'.handlerEvaluations = s.handlerEvaluations

theorem keepsExprs_of_eq {s s' : Child} (handlers : s'.handlers = s.handlers)
    (evaluations : s'.handlerEvaluations = s.handlerEvaluations) : KeepsExprs s s' where
  exprs key := by
    rw [Child.handlerExpr, handlers]
    rfl
  present key present := by
    rw [handlers]
    exact present
  evaluations := evaluations

theorem KeepsCaches.keepsExprs {s s' : Child} (keeps : KeepsCaches s s') : KeepsExprs s s' :=
  keepsExprs_of_eq keeps.handlers keeps.handlerEvaluations

/-- An entry is changed, but not its expression. -/
theorem keepsExprs_update {s s' : Child} {key : Bytes} {entry : Option RApacheHandler}
    (handlers : s'.handlers = Function.update s.handlers key entry)
    (expr : entry.bind RApacheHandler.expr = s.handlerExpr key)
    (present : (s.handlers key).isSome → entry.isSome)
    (evaluations : s'.handlerEvaluations = s.handlerEvaluations) : KeepsExprs s s' where
  exprs := by
    intro other
    rw [Child.handlerExpr, handlers]
    by_cases same : other = key
    · rw [same, Function.update_self, expr]
    · rw [Function.update_of_ne same]
      rfl
  present := by
    intro other isPresent
    rw [handlers]
    by_cases same : other = key
    · rw [same] at isPresent ⊢
      rw [Function.update_self]
      exact present isPresent
    · rw [Function.update_of_ne same]
      exact isPresent
  evaluations := evaluations

/-- Changing members of an entry other than the expression. -/
theorem map_handlerExpr {entry : Option RApacheHandler} {change : RApacheHandler → RApacheHandler}
    (keeps : ∀ entry, (change entry).expr = entry.expr) :
    (entry.map change).bind RApacheHandler.expr = entry.bind RApacheHandler.expr := by
  cases entry with
  | none => rfl
  | some entry => exact keeps entry

namespace Code

variable {w : World} {me : Owner}

theorem allowsEvaluation_keepsExprs (source : CodeSource) :
    AllowsEvaluation source always (fun _ => KeepsExprs) w me where
  work step := ((@allowsCode_keepsCaches w me).work step).keepsExprs
  execFailure := (allowsCode_keepsCaches.execFailure).mono fun _ _ _ keeps => keeps.keepsExprs
  evaluated _ _ := keepsExprs_of_eq rfl rfl
  failed _ _ _ _ := keepsExprs_of_eq rfl rfl

/-- Changing other parts of the state. -/
theorem modify_keepsExprs {change : Child → Child}
    (handlers : ∀ s, (change s).handlers = s.handlers)
    (evaluations : ∀ s, (change s).handlerEvaluations = s.handlerEvaluations) :
    Every always (fun _ => KeepsExprs) (modify change) :=
  every_modify fun _ _ => keepsExprs_of_eq (handlers _) (evaluations _)

/-- Changing members of the entry of a key other than its expression. -/
theorem modifyHandler_keepsExprs (key : Bytes) {change : RApacheHandler → RApacheHandler}
    (keeps : ∀ entry, (change entry).expr = entry.expr) :
    Every always (fun _ => KeepsExprs) (modifyHandler key change) :=
  every_modify fun _ _ =>
    keepsExprs_update rfl (map_handlerExpr keeps) (by simp [Child.written]) rfl

theorem createHandler_keeps (key : Bytes) (ω : Answer) (s : Child) : KeepsExprs s
    { s.written ω with
      handlers := Function.update s.handlers key (some ((s.handlers key).getD {})) } := by
  refine keepsExprs_update rfl ?_ (fun _ => rfl) rfl
  simp only [Child.handlerExpr]
  cases s.handlers key with
  | none => rfl
  | some entry => rfl

theorem modifyParsedFile_keepsExprs (key : Bytes)
    (change : RApacheParsedFile → RApacheParsedFile) :
    Every always (fun _ => KeepsExprs) (modifyParsedFile key change) :=
  modify_keepsExprs (fun _ => rfl) fun _ => rfl

theorem fileRecord_keepsExprs (h : HandlerEntry) (file : Bytes) :
    Every always (fun _ => KeepsExprs) (fileRecord h file) := by
  apply every_atomic
  intro ω s value s' acted
  split at acted
  next => cases acted
  next entry isEntry =>
    split at acted
    next =>
      cases acted
      exact keepsExprs_of_eq rfl rfl
    next =>
      cases acted
      refine keepsExprs_update rfl ?_ (fun _ => rfl) rfl
      have isEntry' : s.handlers h.key = some entry := isEntry
      simp [Child.handlerExpr, isEntry']

theorem prepareFileExprs_keepsExprs (h : HandlerEntry) (file : Bytes) :
    Every always (fun _ => KeepsExprs) (prepareFileExprs w me h file) :=
  (allowsEvaluation_keepsExprs .file).toAllowsCode.prepareFileExprs
    (fileRecord_keepsExprs h file) modifyParsedFile_keepsExprs

theorem evalFile_keepsExprs (r : RequestRec) (file key : Bytes) (versions : Nat) :
    Every always (fun _ => KeepsExprs) (evalFile w me r file key versions) := by
  have newEnv : Every always (fun _ => KeepsExprs) (newFileEnv key) :=
    modify_keepsExprs (fun _ => rfl) fun _ => rfl
  have allows : AllowsEvaluation .file always (fun _ => KeepsExprs) w me :=
    allowsEvaluation_keepsExprs .file
  refine newEnv.bind fun _ => ?_
  refine (read_every allows.toAllowsWork _).bind fun parsedFile => ?_
  refine (evalExprs_every allows _ _ _ fun _ _ _ _ => keepsExprs_of_eq rfl rfl).bind
    fun value => ?_
  rcases value with ⟨ret, evalError⟩
  cases evalError with
  | true => trivial
  | false =>
      refine Every.bind ?_ fun _ => trivial
      exact modify_keepsExprs (fun _ => rfl) fun _ => rfl

end Code

/-! ## The entries of the keys -/

/-- The evaluations so far were right, if the texts agree. -/
def EvaluatedOwn (w : World) (s : Child) : Prop :=
  TextsAgree w s.handlerEvaluations → ∀ evaluation ∈ s.handlerEvaluations, EvaluatesOwn w evaluation

/-- The expression in an entry was evaluated for a request of its key, whose own it is. -/
def CachedFor (w : World) (evaluations : List HandlerEvaluation) (key : Bytes) (expr : RExprs) :
    Prop :=
  ∃ evaluation ∈ evaluations, evaluation.r.handlerKey = some key ∧
    requestExpr w evaluation.r = some expr

/-- Every expression in an entry was evaluated for a request of its key. -/
def EntriesOwn (w : World) (s : Child) : Prop :=
  EvaluatedOwn w s ∧ (TextsAgree w s.handlerEvaluations →
    ∀ key expr, s.handlerExpr key = some expr → CachedFor w s.handlerEvaluations key expr)

/-- `EntriesOwn`, and there is an entry of the key. -/
def HasEntry (w : World) (key : Bytes) (s : Child) : Prop :=
  (s.handlers key).isSome ∧ EntriesOwn w s

/-- An expression that the entry of a request may hold: its own, or that of a request of the same
key, if an r-handler request has found it there, or any, if the text of an r-script request
cannot be parsed. -/
def MayBeFor (w : World) (h : HandlerEntry) (r : RequestRec) (evaluations : List HandlerEvaluation)
    (expr : RExprs) : Prop :=
  requestExpr w r = some expr ∨
    match handlerType r.handler with
    | some .script => requestExpr w r = none
    | _ => CachedFor w evaluations h.key expr

/-- `EntriesOwn`, but for the expression in the entry of one key. -/
def OthersOwn (w : World) (key : Bytes) (s : Child) : Prop :=
  (s.handlers key).isSome ∧ EvaluatedOwn w s ∧
    (TextsAgree w s.handlerEvaluations → ∀ other expr, other ≠ key →
      s.handlerExpr other = some expr → CachedFor w s.handlerEvaluations other expr)

/-- What is known of the entries while that of a request is prepared. -/
def MayHold (w : World) (h : HandlerEntry) (r : RequestRec) (s : Child) : Prop :=
  OthersOwn w h.key s ∧ (TextsAgree w s.handlerEvaluations →
    ∀ expr, s.handlerExpr h.key = some expr → MayBeFor w h r s.handlerEvaluations expr)

/-- The entry of a request holds an expression. -/
def HoldsExpr (w : World) (h : HandlerEntry) (r : RequestRec) (s : Child) : Prop :=
  MayHold w h r s ∧ (s.handlerExpr h.key).isSome

theorem EvaluatedOwn.keeps {w : World} {s s' : Child} (own : EvaluatedOwn w s)
    (keeps : KeepsExprs s s') : EvaluatedOwn w s' := by
  rw [EvaluatedOwn, keeps.evaluations]
  exact own

theorem EntriesOwn.keeps {w : World} {s s' : Child} (own : EntriesOwn w s)
    (keeps : KeepsExprs s s') : EntriesOwn w s' := by
  refine ⟨own.1.keeps keeps, ?_⟩
  rw [keeps.evaluations]
  intro agree key expr isExpr
  rw [keeps.exprs] at isExpr
  exact own.2 agree key expr isExpr

theorem HasEntry.keeps {w : World} {key : Bytes} {s s' : Child} (has : HasEntry w key s)
    (keeps : KeepsExprs s s') : HasEntry w key s' :=
  ⟨keeps.present key has.1, has.2.keeps keeps⟩

theorem OthersOwn.keeps {w : World} {key : Bytes} {s s' : Child} (own : OthersOwn w key s)
    (keeps : KeepsExprs s s') : OthersOwn w key s' := by
  refine ⟨keeps.present key own.1, own.2.1.keeps keeps, ?_⟩
  rw [keeps.evaluations]
  intro agree other expr isOther isExpr
  rw [keeps.exprs] at isExpr
  exact own.2.2 agree other expr isOther isExpr

theorem MayHold.keeps {w : World} {h : HandlerEntry} {r : RequestRec} {s s' : Child}
    (may : MayHold w h r s) (keeps : KeepsExprs s s') : MayHold w h r s' := by
  refine ⟨may.1.keeps keeps, ?_⟩
  rw [keeps.evaluations]
  intro agree expr isExpr
  rw [keeps.exprs] at isExpr
  exact may.2 agree expr isExpr

theorem HasEntry.othersOwn {w : World} {key : Bytes} {s : Child} (has : HasEntry w key s) :
    OthersOwn w key s :=
  ⟨has.1, has.2.1, fun agree other expr _ isExpr => has.2.2 agree other expr isExpr⟩

/-- An r-handler request takes what it finds. -/
theorem HasEntry.mayHold {w : World} {h : HandlerEntry} {r : RequestRec} {s : Child}
    (has : HasEntry w h.key s) (notScript : handlerType r.handler ≠ some .script) :
    MayHold w h r s := by
  refine ⟨has.othersOwn, ?_⟩
  intro agree expr isExpr
  right
  split
  next isScript => exact (notScript isScript).elim
  next => exact has.2.2 agree h.key expr isExpr

/-- An entry without an expression. -/
theorem OthersOwn.entriesOwn {w : World} {key : Bytes} {s : Child} (own : OthersOwn w key s)
    (noExpr : s.handlerExpr key = none) : EntriesOwn w s := by
  refine ⟨own.2.1, ?_⟩
  intro agree other expr isExpr
  by_cases same : other = key
  · rw [same, noExpr] at isExpr
    cases isExpr
  · exact own.2.2 agree other expr same isExpr

/-- Building the expression of an entry. -/
theorem OthersOwn.build {w : World} {key : Bytes} {s s' : Child} {expr : Option RExprs}
    (own : OthersOwn w key s)
    (handlers : s'.handlers = Function.update s.handlers key
      ((s.handlers key).map fun entry => { entry with expr }))
    (evaluations : s'.handlerEvaluations = s.handlerEvaluations) :
    OthersOwn w key s' ∧ s'.handlerExpr key = expr := by
  rcases Option.isSome_iff_exists.mp own.1 with ⟨entry, isEntry⟩
  have mine : s'.handlerExpr key = expr := by
    simp [Child.handlerExpr, handlers, isEntry]
  have others (other : Bytes) (isOther : other ≠ key) :
      s'.handlerExpr other = s.handlerExpr other := by
    rw [Child.handlerExpr, handlers, Function.update_of_ne isOther]
    rfl
  refine ⟨⟨?_, ?_, ?_⟩, mine⟩
  · simp [handlers, isEntry]
  · rw [EvaluatedOwn, evaluations]
    exact own.2.1
  · rw [evaluations]
    intro agree other found isOther isFound
    rw [others other isOther] at isFound
    exact own.2.2 agree other found isOther isFound

/-- What the entry of a request holds is right for the request, if the texts agree with it. -/
theorem HoldsExpr.evaluates {w : World} {h : HandlerEntry} {r : RequestRec} {s : Child}
    {evaluation : HandlerEvaluation} (holds : HoldsExpr w h r s)
    (isHandler : HandlerOf r h) (isRequest : evaluation.r = r)
    (isExpr : evaluation.expr = s.handlerExpr h.key)
    (agree : TextsAgree w (evaluation :: s.handlerEvaluations)) :
    EvaluatesOwn w evaluation := by
  have isKey : evaluation.r.handlerKey = some h.key := by
    rw [isRequest, RequestRec.handlerKey, isHandler.directive]
    exact isHandler.key
  rcases holds with ⟨⟨-, rest⟩, isSome⟩
  rcases Option.isSome_iff_exists.mp isSome with ⟨expr, isHeld⟩
  rcases agree with ⟨now, earlier⟩
  rw [← isRequest] at rest
  rcases rest earlier expr isHeld with mine | other
  · exact ⟨expr, mine, isExpr.trans isHeld⟩
  · split at now
    next isScript =>
      rw [isScript] at other
      have none : requestExpr w evaluation.r = none := other
      rw [none] at now
      cases now
    next notScript =>
      have cached : CachedFor w s.handlerEvaluations h.key expr := by
        split at other
        next isScript => exact (notScript isScript).elim
        next => exact other
      rcases cached with ⟨found, isFound, sameKey, isOwn⟩
      have sameText := now found isFound (sameKey.trans isKey.symm)
      refine ⟨expr, ?_, isExpr.trans isHeld⟩
      rw [requestExpr, ← sameText]
      exact isOwn

namespace Code

variable {w : World} {me : Owner} {h : HandlerEntry} {r : RequestRec}

theorem entriesOwn_caches : AboutCaches (EvaluatedOwn w) (EntriesOwn w) where
  implies _ own := own.1
  keeps _ _ keeps own := own.keeps keeps.keepsExprs

theorem hasEntry_caches (key : Bytes) : AboutCaches (EvaluatedOwn w) (HasEntry w key) where
  implies _ has := has.2.1
  keeps _ _ keeps has := has.keeps keeps.keepsExprs

theorem others_caches : AboutCaches (EvaluatedOwn w) (OthersOwn w h.key) where
  implies _ own := own.2.1
  keeps _ _ keeps own := own.keeps keeps.keepsExprs

theorem othersOwn_caches (expr : Option RExprs) : AboutCaches (EvaluatedOwn w) fun s =>
    OthersOwn w h.key s ∧ s.handlerExpr h.key = expr where
  implies _ own := own.1.2.1
  keeps _ _ keeps own :=
    ⟨own.1.keeps keeps.keepsExprs, (keeps.keepsExprs.exprs h.key).trans own.2⟩

/-- Steps that keep the expressions keep what is known of them. -/
theorem keepsExprs_triple {P : Child → Prop} (about : AboutCaches (EvaluatedOwn w) P)
    (keeps : ∀ s s', KeepsExprs s s' → P s → P s') {α : Type} {p : Code α}
    (every : Every always (fun _ => KeepsExprs) p) :
    Triple always (EvaluatedOwn w) P p fun _ => P :=
  every.triple (fun _ s s' step now => keeps s s' step now) about.implies

/-- Building an expression. -/
theorem modifyHandler_builds (expr : Option RExprs) :
    Triple always (EvaluatedOwn w) (OthersOwn w h.key)
      (modifyHandler h.key fun entry => { entry with expr })
      fun _ s => OthersOwn w h.key s ∧ s.handlerExpr h.key = expr := by
  apply triple_modify (fun _ own => own.2.1)
  intro ω s own
  have built : OthersOwn w h.key { s.written ω with
        handlers := Function.update s.handlers h.key
          ((s.handlers h.key).map fun entry => { entry with expr }) } ∧ _ := own.build rfl rfl
  exact ⟨built.1.2.1, built⟩

/-- The text of an r-handler request. -/
theorem handlerText_triple {I P : Child → Prop} (about : AboutCaches I P)
    (env : Option EnvId) :
    Triple always I P (handlerText w me h env) fun text s =>
      (∀ found, text = some found → directiveText h.directive = some found) ∧ P s := by
  have allows : AllowsCode always (fun _ => KeepsCaches) w me := allowsCode_keepsCaches
  unfold handlerText
  split
  next function _ isFunction =>
    split
    next file noPackage _ =>
      refine (about.triple (myfindFun_every allows env)).bind fun found => ?_
      cases found with
      | true =>
          refine .done about.implies fun _ now => ⟨?_, now⟩
          intro text isText
          cases isText
          simp [directiveText, isFunction, noPackage]
      | false =>
          exact (about.triple (perform_every allows.toAllowsWork rfl)).bind fun _ =>
            .done about.implies fun _ now => ⟨nofun, now⟩
    next =>
      refine .done about.implies fun _ now => ⟨?_, now⟩
      intro text isText
      cases isText
      simp [directiveText, isFunction]
  next evalcode noFunction =>
    refine .done about.implies fun _ now => ⟨?_, now⟩
    intro text isText
    simp [directiveText, noFunction, isText]

/-- `PrepareHandlerExpr` for an r-script request: the entry holds the parse of its text. -/
theorem prepareScript_triple (isHandler : HandlerOf r h)
    (isScript : handlerType r.handler = some .script) (env : Option EnvId) :
    Triple always (EvaluatedOwn w) (OthersOwn w h.key) (prepareScript w h r env)
      fun _ s => OthersOwn w h.key s ∧ s.handlerExpr h.key = requestExpr w r := by
  refine (others_caches.prepareScript (othersOwn_caches (requestExpr w r)) ?_
    (fun _ _ _ own => own) env).post fun _ _ now => now.2
  intro function filename isFunction isFilename
  have isExpr : requestExpr w r =
      (w.parse (scriptText h.directive.package function filename)).map .vector := by
    simp [requestExpr, requestText, isScript, isHandler.directive, isFunction, isFilename]
  rw [isExpr]
  exact modifyHandler_builds _

/-- What may be built for a request whose entry has no expression. -/
def Fallback (w : World) (h : HandlerEntry) (r : RequestRec) : Prop :=
  ∀ evaluations text expr, directiveText h.directive = some text →
    (w.parse text).map RExprs.vector = some expr → MayBeFor w h r evaluations expr

theorem fallback_of_handler (isHandler : HandlerOf r h)
    (notScript : handlerType r.handler ≠ some .script) : Fallback w h r := by
  intro evaluations text expr isText isExpr
  left
  have isRequest : requestText r = some text := by
    rw [requestText, isHandler.directive]
    split
    next isScript _ => exact (notScript isScript).elim
    next same _ =>
      cases same
      exact isText
    next none => cases none
  rw [requestExpr, isRequest]
  exact isExpr

theorem fallback_of_script (isScript : handlerType r.handler = some .script)
    (unparsed : requestExpr w r = none) : Fallback w h r := by
  intro evaluations text expr _ _
  right
  rw [isScript]
  exact unparsed

/-- What is known when `PrepareHandlerExpr` looks for an expression. -/
def LooksFor (w : World) (h : HandlerEntry) (r : RequestRec) (s : Child) : Prop :=
  MayHold w h r s ∧ (s.handlerExpr h.key = none → Fallback w h r)

theorem looksFor_caches : AboutCaches (EvaluatedOwn w) (LooksFor w h r) where
  implies _ looks := looks.1.1.2.1
  keeps _ _ keeps looks := by
    refine ⟨looks.1.keeps keeps.keepsExprs, ?_⟩
    rw [keeps.keepsExprs.exprs]
    exact looks.2

theorem getD_expr (s : Child) (key : Bytes) :
    ((s.handlers key).getD {}).expr = s.handlerExpr key := by
  rw [Child.handlerExpr]
  cases s.handlers key with
  | none => rfl
  | some entry => rfl

/-- The part of `PrepareHandlerExpr` that uses the expression or builds it, which is all of it
for other requests than r-script requests. -/
theorem useOrBuild_triple {type : RApacheHandlerType} (notScript : type ≠ .script)
    (env : Option EnvId) :
    Triple always (EvaluatedOwn w) (LooksFor w h r) (prepareHandlerExpr w me h r type env)
      (fun ready s => if ready then HoldsExpr w h r s else EntriesOwn w s) := by
  simp only [prepareHandlerExpr, notScript, if_false]
  have looked : Triple always (EvaluatedOwn w) (LooksFor w h r)
      (read fun _ s => (((s.handlers h.key).getD {}).expr).isSome)
      (fun present s => present = (s.handlerExpr h.key).isSome ∧ LooksFor w h r s) := by
    apply triple_atomic looksFor_caches.implies
    intro ω s value s' looks acted
    cases acted
    have keeps : KeepsCaches s (s.written ω) := written_keepsCaches ω s
    have later := looksFor_caches.keeps _ _ keeps looks
    exact ⟨looksFor_caches.implies _ later, congrArg Option.isSome (getD_expr _ _), later⟩
  refine looked.bind fun present => ?_
  cases present with
  | true =>
      refine .done (fun _ now => looksFor_caches.implies _ now.2) ?_
      intro s now
      exact ⟨now.2.1, now.1.symm⟩
  | false =>
      have unset : ∀ s, (false = (s.handlerExpr h.key).isSome ∧ LooksFor w h r s) →
          Fallback w h r ∧ OthersOwn w h.key s ∧ s.handlerExpr h.key = none := by
        intro s now
        have none : s.handlerExpr h.key = Option.none := by
          simpa using now.1.symm
        exact ⟨now.2.2 none, now.2.1.1, none⟩
      refine Triple.pre ?_ unset
      apply Triple.given
      intro fallback
      refine (handlerText_triple (othersOwn_caches _) env).bind fun text => ?_
      apply Triple.given
      intro isText
      cases text with
      | none => exact .done (othersOwn_caches _).implies fun _ now => now.1.entriesOwn now.2
      | some text =>
          have printed : Triple always (EvaluatedOwn w) (OthersOwn w h.key) (printParseErrors w)
              fun _ => OthersOwn w h.key :=
            others_caches.triple (printParseErrors_every allowsWork_keepsCaches)
          refine (printed.pre fun _ now => now.1).bind fun _ => ?_
          refine (modifyHandler_builds _).bind fun _ => ?_
          refine .done (othersOwn_caches _).implies ?_
          rintro s ⟨own, built⟩
          cases parsed : w.parse text with
          | none =>
              rw [parsed] at built
              exact own.entriesOwn built
          | some exprs =>
              rw [parsed] at built
              refine ⟨⟨own, ?_⟩, by simp [built]⟩
              intro _ expr isExpr
              have same : (w.parse text).map RExprs.vector = some expr := by
                rw [parsed, ← isExpr, built]
              exact fallback _ text expr (isText text rfl) same

/-- `PrepareHandlerExpr`. -/
theorem prepareHandlerExpr_triple (isHandler : HandlerOf r h) {type : RApacheHandlerType}
    (isType : handlerType r.handler = some type) (env : Option EnvId) :
    Triple always (EvaluatedOwn w) (HasEntry w h.key) (prepareHandlerExpr w me h r type env)
      fun ready s => if ready then HoldsExpr w h r s else EntriesOwn w s := by
  by_cases isScript : type = .script
  · subst isScript
    refine Triple.bind ((prepareScript_triple isHandler isType env).pre
      fun _ has => has.othersOwn) fun _ => ?_
    refine (useOrBuild_triple (by decide) env : Triple always _ _
      (prepareHandlerExpr w me h r .handler env) _).pre ?_
    rintro s ⟨own, isExpr⟩
    constructor
    · refine ⟨own, ?_⟩
      intro _ expr isSome
      exact .inl (isExpr.symm.trans isSome)
    · intro none
      exact fallback_of_script isType (isExpr.symm.trans none)
  · have isOther : handlerType r.handler ≠ some .script := by
      rw [isType]
      intro same
      exact isScript (Option.some.inj same)
    exact (useOrBuild_triple isScript env).pre fun s has =>
      ⟨has.mayHold isOther, fun _ => fallback_of_handler isHandler isOther⟩

/-- The evaluation of the expression in the entry of a request. -/
theorem evalHandler_triple (isHandler : HandlerOf r h) (evalError : Bool) :
    Triple always (EvaluatedOwn w) (HoldsExpr w h r) (evalHandler w me h r evalError)
      fun _ => EntriesOwn w := by
  unfold evalHandler
  refine Triple.bind (?_ : Triple always (EvaluatedOwn w) (HoldsExpr w h r) _
    fun (_ : RApacheHandler) => EntriesOwn w) fun entry => ?_
  · apply triple_atomic fun _ holds => holds.1.1.2.1
    intro ω s value s' holds acted
    cases acted
    have isKey : r.handlerKey = some h.key := by
      rw [RequestRec.handlerKey, isHandler.directive]
      exact isHandler.key
    have own : EntriesOwn w
        { s.written ω with
          handlerEvaluations :=
            { r, directive := h.directive, expr := ((s.handlers h.key).getD {}).expr
              exprs := ((((s.handlers h.key).getD {}).parsedFile.bind s.parsedFiles).getD {}).exprs
              evaluated := (s.written ω).fileExprs ((s.handlers h.key).getD {}).envir
              failed := ((((s.handlers h.key).getD {}).envir).map s.failed).getD false } ::
            s.handlerEvaluations } := by
      constructor
      · intro agree evaluation isEvaluation
        rcases List.mem_cons.mp isEvaluation with isNow | earlier
        · rw [isNow]
          exact holds.evaluates isHandler rfl (getD_expr s h.key) agree
        · exact holds.1.1.2.1 agree.2 evaluation earlier
      · intro agree key expr isExpr
        by_cases same : key = h.key
        · rcases holds.evaluates isHandler rfl (getD_expr s h.key) agree with
            ⟨exprs, isOwn, isEvaluated⟩
          have isSame : s.handlerExpr h.key = some expr := same ▸ isExpr
          rw [getD_expr, isSame, Option.some.injEq] at isEvaluated
          rw [same, isEvaluated]
          exact ⟨_, List.mem_cons_self, isKey, isOwn⟩
        · rcases holds.1.1.2.2 agree.2 key expr same isExpr with
            ⟨evaluation, isEvaluation, forKey, isOwn⟩
          exact ⟨evaluation, List.mem_cons_of_mem _ isEvaluation, forKey, isOwn⟩
    exact ⟨own.1, own⟩
  · exact keepsExprs_triple entriesOwn_caches (fun _ _ keeps own => own.keeps keeps)
      (evalExprs_every (allowsEvaluation_keepsExprs .handler) _ _ _
        fun _ _ _ _ => keepsExprs_of_eq rfl rfl)

/-- The rules for the expressions. -/
theorem exprRules :
    CacheRules always (fun _ => True) w (EvaluatedOwn w) (EntriesOwn w) (HasEntry w)
    (fun h _ _ _ _ => HasEntry w h.key) (fun h _ _ => HasEntry w h.key)
    (fun h _ => HasEntry w h.key) (HoldsExpr w) where
  idleCaches := entriesOwn_caches
  enteredCaches := hasEntry_caches
  filledCaches h _ _ := hasEntry_caches h.key
  preparedCaches h _ := hasEntry_caches h.key
  enteredIdle _ _ has := has.2
  preparedIdle _ _ _ has := has.2
  createHandler key := by
    apply triple_modify entriesOwn_caches.implies
    intro ω s own
    have later := own.keeps (createHandler_keeps key ω s)
    exact ⟨later.1, by simp, later⟩
  setDirective key d :=
    keepsExprs_triple (hasEntry_caches key) (fun _ _ keeps has => has.keeps keeps)
      (modifyHandler_keepsExprs key fun _ => rfl)
  newHandlerEnv r h _ _ _ := by
    refine keepsExprs_triple (hasEntry_caches h.key) (fun _ _ keeps has => has.keeps keeps) ?_
    exact every_modify fun _ s =>
      keepsExprs_update rfl (map_handlerExpr fun _ => rfl) (by simp [Child.written]) rfl
  prepareFile me r h file _ _ _ _ := by
    refine (keepsExprs_triple (hasEntry_caches h.key) (fun _ _ keeps has => has.keeps keeps)
      (prepareFileExprs_keepsExprs h file)).post ?_
    intro ready s has
    cases ready with
    | none => exact has.2
    | some ready => exact has
  evalFile me r h file key fileParsed versions _ _ _ _ := by
    refine (keepsExprs_triple (hasEntry_caches h.key) (fun _ _ keeps has => has.keeps keeps)
      (evalFile_keepsExprs r file key versions)).post ?_
    intro value s has
    split
    next => exact has.2
    next => exact has
  reuse _ _ _ _ _ has := has
  setEnvir r h file key _ _ _ := by
    refine keepsExprs_triple (hasEntry_caches h.key) (fun _ _ keeps has => has.keeps keeps) ?_
    exact every_modify fun _ s =>
      keepsExprs_update rfl (map_handlerExpr fun _ => rfl) (by simp [Child.written]) rfl
  prepareHandlerExpr _ _ _ _ env _ isHandler isType _ :=
    (prepareHandlerExpr_triple isHandler isType env).pre fun _ now => now.1
  evalHandler _ _ _ evalError _ isHandler := evalHandler_triple isHandler evalError

end Code

/-! ## Children -/

/-- In every child, the expression that is evaluated for a request is the parse of the text that
this request asks for, as long as requests under one key ask for one text and the texts of
r-script requests can be parsed. -/
theorem evaluated_expression_is_own (w : World) (requests : List RequestRec) (s : Child)
    (serves : Serves w requests s) (agree : TextsAgree w s.handlerEvaluations) :
    ∀ evaluation ∈ s.handlerEvaluations, EvaluatesOwn w evaluation := by
  have begins (cwd : Bytes) (mutex : Option (Option Nat)) (files : Files) :
      EntriesOwn w (Child.fresh cwd mutex files) := by
    constructor
    · intro _ evaluation isEvaluation
      cases isEvaluation
    · intro _ key expr isExpr
      cases isExpr
  exact Code.exprRules.serves (fun _ _ => trivial) begins serves agree

/-- A request for the directive `RHandler brew`. -/
def brewRequest (handler : Bytes) : RequestRec where
  address := 0
  handler
  perDirConfig := some { function := some (bytes "brew"), handlerKey := some (bytes "brew") }
  filename := some (bytes "/a")

/-- Some steps of a child without threads whose R code does nothing. -/
def brews (requests : List RequestRec) (count : Nat) : Option (Code Unit × Child) :=
  Program.runWith (fun _ => {}) count (Code.serve plainWorld 0 0 requests)
    (Child.fresh (bytes "/") none fun _ => [])

theorem brews_serves {requests : List RequestRec} {count : Nat}
    (ran : (brews requests count).isSome) :
    Serves plainWorld requests ((brews requests count).get ran).2 :=
  ⟨_, _, _, _, Program.runWith_reaches (Option.some_get ran).symm⟩

/-- Two r-handler requests. -/
theorem same_text_is_evaluated_twice :
    ∃ s, Serves plainWorld [brewRequest (bytes "r-handler"), brewRequest (bytes "r-handler")] s ∧
      s.handlerEvaluations.length = 2 ∧
      ∀ evaluation ∈ s.handlerEvaluations, EvaluatesOwn plainWorld evaluation := by
  have ran : (brews [brewRequest (bytes "r-handler"), brewRequest (bytes "r-handler")] 44).isSome :=
    rfl
  have serves := brews_serves ran
  refine ⟨_, serves, rfl, evaluated_expression_is_own plainWorld _ _ serves ?_⟩
  refine ⟨?_, ?_, trivial⟩
  · intro other isOther _
    rw [List.mem_singleton.mp isOther]
  · intro other isOther
    cases isOther

/-- An r-handler request behind an r-script request for the same directive. -/
theorem script_expression_is_reused :
    ∃ s, Serves plainWorld [brewRequest (bytes "r-script"), brewRequest (bytes "r-handler")] s ∧
      s.handlerEvaluations.map HandlerEvaluation.expr =
        [some (.vector [⟨bytes "brew(file='/a',envir=.rAenv)"⟩]),
          some (.vector [⟨bytes "brew(file='/a',envir=.rAenv)"⟩])] ∧
      requestExpr plainWorld (brewRequest (bytes "r-handler")) =
        some (.vector [⟨bytes "brew()"⟩]) ∧
      ¬ ∀ evaluation ∈ s.handlerEvaluations, EvaluatesOwn plainWorld evaluation := by
  have ran : (brews [brewRequest (bytes "r-script"), brewRequest (bytes "r-handler")] 45).isSome :=
    rfl
  refine ⟨_, brews_serves ran, rfl, rfl, ?_⟩
  intro own
  rcases own _ List.mem_cons_self with ⟨exprs, isOwn, isEvaluated⟩
  have isBrew : some (RExprs.vector [⟨bytes "brew()"⟩]) = some exprs := isOwn
  have isScript : some (RExprs.vector [⟨bytes "brew(file='/a',envir=.rAenv)"⟩]) = some exprs :=
    isEvaluated
  rw [← isBrew] at isScript
  revert isScript
  decide

end RApache
