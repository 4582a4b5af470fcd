import RApache.ProtectStack

/-!
# The depth of the protection stack

Each function takes off R's protection stack what it has put on it, but `ParseEval` leaves two
objects there if R cannot parse its text.
-/

namespace RApache

open Stepwise
open Stepwise.Program (Reaches Triple)

namespace ProtectStack

variable {α β : Type}

/-- Every run of steps. -/
def anyStep (_ : StackAnswer) (_ _ : StackState) : Prop := True

/-- A call of the function returns with the stack as deep as it was. -/
def KeepsDepth (f : StackCode α) : Prop :=
  ∀ s value s', Reaches anyStep f s (.done value) s' → s'.depth = s.depth

/-- A call returns with the stack as deep as it was just when `ParseEval` is given no text in it
that R cannot parse. -/
def KeepsDepthIfParsed (f : StackCode α) : Prop :=
  ∀ s value s', Reaches anyStep f s (.done value) s' →
    (s'.depth = s.depth ↔ s'.unparsed = s.unparsed)

/-- A judgement about the states before and after complete calls. -/
def Holds (P : StackState → Prop) (f : StackCode α) (Q : StackState → Prop) : Prop :=
  Triple anyStep (fun _ => True) P f fun _ => Q

/-- The objects on the stack, without so many of the function. -/
def Above (count : Nat) (P : StackState → Prop) (s : StackState) : Prop :=
  ∃ before, P before ∧ s = { before with depth := before.depth + count }

/-- The function leaves the stack as it found it. -/
def Balanced (f : StackCode α) : Prop := ∀ P, Holds P f P

/-- Two objects were left on the stack for each text that could not be parsed since. -/
def LeftBehind (start s : StackState) : Prop :=
  ∃ texts, s.unparsed = start.unparsed ++ texts ∧ s.depth = start.depth + 2 * texts.length

/-- The function leaves two objects on the stack for each text that cannot be parsed. -/
def Leaks (f : StackCode α) : Prop := ∀ start, Holds (LeftBehind start) f (LeftBehind start)

/-! ## Steps -/

variable {P Q R : StackState → Prop}

theorem Holds.bind {f : StackCode α} {next : α → StackCode β} (first : Holds P f Q)
    (rest : ∀ value, Holds Q (next value) R) : Holds P (f >>= next) R :=
  Triple.bind first rest

theorem holds_done {value : α} (implies : ∀ s, P s → Q s) :
    Holds P (.done value : StackCode α) Q :=
  Triple.done (fun _ _ => trivial) implies

theorem holds_protect (count : Nat) : Holds (Above count P) protect (Above (count + 1) P) := by
  refine Triple.atomic (fun _ _ => trivial) ?_
  rintro ω s value s' ⟨before, now, rfl⟩ acted -
  cases acted
  exact ⟨trivial, before, now, rfl⟩

theorem holds_unprotect (count : Nat) : Holds (Above count P) (unprotect count) P := by
  refine Triple.atomic (fun _ _ => trivial) ?_
  rintro ω s value s' ⟨before, now, rfl⟩ acted -
  cases acted
  simpa using now

theorem holds_noteUnparsed (start : StackState) (text : Bytes) :
    Holds (Above 2 (LeftBehind start)) (noteUnparsed text) (LeftBehind start) := by
  refine Triple.atomic (fun _ _ => trivial) ?_
  rintro ω s value s' ⟨before, ⟨texts, unparsed, depth⟩, rfl⟩ acted -
  cases acted
  refine ⟨trivial, texts ++ [text], ?_, ?_⟩
  · simp [unparsed]
  · simp only [depth, List.length_append, List.length_singleton]
    omega

theorem above_zero : Above 0 P = P := by
  funext s
  apply propext
  constructor
  · rintro ⟨before, now, rfl⟩
    exact now
  · exact fun now => ⟨s, now, rfl⟩

/-- The first `PROTECT` of a function. -/
theorem holds_firstProtect : Holds P protect (Above 1 P) := by
  have first := holds_protect (P := P) 0
  rwa [above_zero] at first

/-! ## Balanced functions -/

theorem Balanced.bind {f : StackCode α} {next : α → StackCode β} (first : Balanced f)
    (rest : ∀ value, Balanced (next value)) : Balanced (f >>= next) :=
  fun P => (first P).bind fun value => rest value P

theorem balanced_done (value : α) : Balanced (.done value : StackCode α) :=
  fun _ => holds_done fun _ => id

theorem balanced_answer (value : StackAnswer → α) : Balanced (answer value) := by
  refine fun P => Triple.atomic (fun _ _ => trivial) ?_
  rintro ω s result s' now acted -
  cases acted
  exact ⟨trivial, now⟩

theorem holds_exit : Holds P (exit : StackCode α) Q := by
  refine Triple.atomic (fun _ _ => trivial) ?_
  rintro ω s value s' - acted
  cases acted

theorem balanced_exit : Balanced (exit : StackCode α) := fun _ => holds_exit

theorem Balanced.leaks {f : StackCode α} (balanced : Balanced f) : Leaks f :=
  fun _ => balanced _

/-- A balanced function leaves the depth as it is. -/
theorem Balanced.keepsDepth {f : StackCode α} (balanced : Balanced f) : KeepsDepth f := by
  intro s value s' ran
  have same := (balanced (· = s) s rfl).result ran
  rw [same]

/-- `PROTECT` twice around balanced code. -/
theorem balanced_around {f : StackCode α} (inner : Balanced f) {next : α → StackCode β}
    (after : ∀ value, Balanced (next value)) :
    Balanced (do
      protect
      protect
      let value ← f
      unprotect 2
      next value) :=
  fun P => holds_firstProtect.bind fun _ => (holds_protect 1).bind fun _ =>
    (inner _).bind fun value => (holds_unprotect 2).bind fun _ => after value P

/-- `PROTECT` once around balanced code. -/
theorem balanced_aroundOnce {f : StackCode α} (inner : Balanced f) {next : α → StackCode β}
    (after : ∀ value, Balanced (next value)) :
    Balanced (do
      protect
      let value ← f
      unprotect 1
      next value) :=
  fun P => holds_firstProtect.bind fun _ => (inner _).bind fun value =>
    (holds_unprotect 1).bind fun _ => after value P

theorem balanced_protectOnce (value : α) :
    Balanced (do
      protect
      unprotect 1
      pure value) :=
  fun _ => holds_firstProtect.bind fun _ => (holds_unprotect 1).bind fun _ =>
    holds_done fun _ => id

theorem newLogical_balanced (tf : Bool) : Balanced (newLogical tf) :=
  balanced_protectOnce _

theorem newInteger_balanced (i : Int) : Balanced (newInteger i) :=
  balanced_protectOnce _

theorem newEnv_balanced (enclos : RPointer) : Balanced (newEnv enclos) :=
  (newLogical_balanced true).bind fun _ =>
    balanced_around (balanced_answer _) fun _ => balanced_done _

theorem parseText_balanced (text : Bytes) (parseError : Option Bool) :
    Balanced (parseText text parseError) := by
  cases parseError with
  | none => exact balanced_exit
  | some _ => exact balanced_aroundOnce (balanced_answer _) fun _ => balanced_done _

theorem evalLoop_balanced (env : RPointer) (lastval : RResult) (exprs : List RExpr) :
    Balanced (evalLoop env lastval exprs) := by
  induction exprs generalizing lastval with
  | nil => exact balanced_done _
  | cons expr exprs ih =>
      refine (balanced_answer _).bind fun value => ?_
      cases value with
      | none => exact balanced_done _
      | some value => exact ih value

theorem evalCases_balanced (exprs : Option RExprs) (env : RPointer) (evalError : Bool) :
    Balanced (evalCases exprs env evalError) := by
  unfold evalCases
  split
  next => exact balanced_exit
  next => exact balanced_done _
  next => exact balanced_done _
  next => exact balanced_done _
  next => exact evalLoop_balanced _ _ _

theorem evalExprs_balanced (exprs : Option RExprs) (env : RPointer) (evalError : Option Bool) :
    Balanced (evalExprs exprs env evalError) := by
  cases evalError with
  | none => exact balanced_exit
  | some evalError =>
      exact balanced_around (evalCases_balanced exprs env evalError) fun _ => balanced_done _

theorem myfindFun_balanced (symb envir : RPointer) : Balanced (myfindFun symb envir) := by
  unfold myfindFun
  split
  next => exact balanced_done _
  next =>
    split
    next => exact balanced_done _
    next =>
      refine balanced_around (balanced_answer _) fun binding => ?_
      cases binding with
      | function => exact balanced_done _
      | other => exact balanced_done _
      | promise =>
          refine (balanced_answer _).bind fun value => ?_
          cases value with
          | none => exact balanced_done _
          | some => exact balanced_answer _

theorem callFun1expr_balanced (fun_ : Bytes) (env : RPointer) (evalError : Option Bool) :
    Balanced (callFun1expr fun_ env evalError) :=
  (myfindFun_balanced _ _).bind fun _ =>
    balanced_aroundOnce (evalExprs_balanced _ env evalError) fun _ => balanced_done _

/-! ## Lists -/

theorem aprTableDo_balanced {κ : Type} {callback : κ → Param → StackCode κ}
    (balanced : ∀ ctx entry, Balanced (callback ctx entry)) (ctx : κ) (t : ParamTable) :
    Balanced (aprTableDo callback ctx t) := by
  induction t generalizing ctx with
  | nil => exact balanced_done _
  | cons entry t ih => exact (balanced ctx entry).bind fun ctx => ih ctx

theorem paramsCallback_balanced (ctx : TableCtx) (entry : Param) :
    Balanced (paramsCallback ctx entry) := by
  unfold paramsCallback
  split
  next =>
    split
    next => exact balanced_protectOnce _
    next => exact balanced_done _
  next => exact balanced_done _

/-- The lists that are shortened leave four objects to be taken off. -/
theorem aprTableToList_balanced {callback : TableCtx → Param → StackCode TableCtx}
    (balanced : ∀ ctx entry, Balanced (callback ctx entry)) (t : Option ParamTable) :
    Balanced (aprTableToList callback t) := by
  unfold aprTableToList
  split
  next => exact balanced_done _
  next => exact balanced_done _
  next t _ =>
    intro P
    refine holds_firstProtect.bind fun _ => (holds_protect 1).bind fun _ =>
      (aprTableDo_balanced balanced _ t _).bind fun ctx => ?_
    split
    next =>
      exact (holds_protect 2).bind fun _ => (holds_protect 3).bind fun _ =>
        (holds_unprotect 4).bind fun _ => holds_done fun _ => id
    next => exact (holds_unprotect 2).bind fun _ => holds_done fun _ => id

theorem fileUploadsCallback_balanced (r : RequestRec) (files : Members) (upload : Param) :
    Balanced (fileUploadsCallback r files upload) := by
  unfold fileUploadsCallback
  split
  next => exact balanced_done _
  next =>
    exact fun P => holds_firstProtect.bind fun _ => (holds_protect 1).bind fun _ =>
      (holds_protect 2).bind fun _ => (holds_protect 3).bind fun _ =>
        (holds_unprotect 4).bind fun _ => holds_done fun _ => id

theorem postAnswer_balanced (returnPost : Bool) (s : Session) :
    Balanced (postAnswer returnPost s) := by
  unfold postAnswer
  split
  next => exact aprTableToList_balanced paramsCallback_balanced _
  next => exact balanced_done _

theorem makeFiles_balanced (r : RequestRec) (uploads : ParamTable) :
    Balanced (makeFiles r uploads) := by
  unfold makeFiles
  split
  next => exact balanced_done _
  next =>
    exact balanced_around (aprTableDo_balanced (fileUploadsCallback_balanced r) [] uploads)
      fun _ => balanced_done _

theorem startParse_balanced (fuel : Nat) (returnPost : Bool) (r : RequestRec)
    (contentType : Bytes) (pfn : ParserFunction) (s : Session) :
    Balanced (startParse fuel returnPost r contentType pfn s) := by
  unfold startParse
  dsimp only
  split
  next => exact balanced_done _
  next => exact balanced_done _
  next =>
    exact (makeFiles_balanced r _).bind fun _ => (postAnswer_balanced returnPost _).bind fun _ =>
      balanced_done _

theorem parsePost_balanced (fuel : Nat) (returnPost : Bool) (s : Session) :
    Balanced (parsePost fuel returnPost s) := by
  unfold parsePost
  split
  next => exact balanced_done _
  next =>
    split
    next => exact balanced_done _
    next =>
      split
      next => exact (postAnswer_balanced returnPost s).bind fun _ => balanced_done _
      next =>
        dsimp only
        split
        next => exact balanced_done _
        next =>
          split
          next => exact balanced_done _
          next => exact startParse_balanced _ _ _ _ _ _

/-! ## `ParseEval` -/

theorem Leaks.bind {f : StackCode α} {next : α → StackCode β} (first : Leaks f)
    (rest : ∀ value, Leaks (next value)) : Leaks (f >>= next) :=
  fun start => (first start).bind fun value => rest value start

/-- If the text cannot be parsed, `ParseEval` returns without its `UNPROTECT`. -/
theorem parseEval_leaks (code : Bytes) (env : RPointer) (evalError : Option Bool) :
    Leaks (parseEval code env evalError) := by
  cases evalError with
  | none => exact balanced_exit.leaks
  | some evalError =>
      intro start
      refine holds_firstProtect.bind fun _ => (parseText_balanced code _ _).bind fun exprs =>
        (holds_protect 1).bind fun _ => ?_
      cases exprs with
      | none => exact (holds_noteUnparsed start code).bind fun _ => holds_done fun _ => id
      | some exprs =>
          exact (evalExprs_balanced _ env _ _).bind fun _ => (holds_unprotect 2).bind fun _ =>
            holds_done fun _ => id

/-- Objects are left on the stack just if there are such texts. -/
theorem Leaks.keepsDepthIfParsed {f : StackCode α} (leaks : Leaks f) : KeepsDepthIfParsed f := by
  intro s value s' ran
  rcases (leaks s s ⟨[], by simp, rfl⟩).result ran with ⟨texts, unparsed, depth⟩
  cases texts with
  | nil => simp [unparsed, depth]
  | cons text texts => simp [unparsed, depth]

/-! ## Requests -/

theorem tearDownRequest_leaks : Leaks tearDownRequest := by
  refine (balanced_answer _).leaks.bind fun readStarted => ?_
  cases readStarted with
  | false => exact (balanced_done _).leaks
  | true => exact (parseEval_leaks _ _ _).bind fun _ => (balanced_done _).leaks

theorem rApacheResponseError_leaks : Leaks rApacheResponseError :=
  tearDownRequest_leaks.bind fun _ => (balanced_done _).leaks

theorem printTraceback_leaks : Leaks printTraceback :=
  (parseEval_leaks _ _ _).bind fun _ => (balanced_done _).leaks

theorem rApacheInfoItems_leaks (code : Nat → Bytes) (codes : Nat) (items : List Code.InfoItem) :
    Leaks (rApacheInfoItems code codes items) := by
  induction items generalizing codes with
  | nil => exact (balanced_done _).leaks
  | cons item items ih =>
      cases item with
      | puts => exact ih codes
      | exec =>
          refine (parseEval_leaks _ _ _).bind fun (_, errorOccurred) => ?_
          cases errorOccurred with
          | true => exact rApacheResponseError_leaks
          | false => exact ih (codes + 1)

theorem rApacheInfo_leaks (code : Nat → Bytes) : Leaks (rApacheInfo code) :=
  (newEnv_balanced _).leaks.bind fun _ => rApacheInfoItems_leaks code 0 _

theorem rApacheSetParentEnv_balanced : Balanced rApacheSetParentEnv :=
  balanced_aroundOnce (balanced_answer _) fun called => by
    split
    next => exact balanced_exit
    next => exact balanced_done _

theorem reattach_balanced : Balanced reattach := by
  refine (balanced_answer _).bind fun envFound => ?_
  split
  next => exact balanced_done _
  next => exact rApacheSetParentEnv_balanced

theorem refreshRApacheEnv_leaks : Leaks refreshRApacheEnv := by
  refine reattach_balanced.leaks.bind fun _ =>
    (parseEval_leaks _ _ _).bind fun (_, evalError) => ?_
  cases evalError with
  | true => exact balanced_exit.leaks
  | false => exact (balanced_done _).leaks

theorem prepareFileExprs_leaks (file : Bytes) : Leaks (prepareFileExprs file) := by
  refine (balanced_answer _).leaks.bind fun found => ?_
  split
  next =>
    refine (balanced_answer _).leaks.bind fun older => ?_
    split
    next =>
      refine (parseEval_leaks _ _ _).bind fun (_, evalError) => ?_
      cases evalError with
      | true => exact (balanced_done _).leaks
      | false => exact (balanced_answer _).leaks.bind fun _ => (balanced_done _).leaks
    next => exact (balanced_answer _).leaks.bind fun _ => (balanced_done _).leaks
  next => exact (balanced_done _).leaks

theorem handlerText_balanced (d : RApacheDirective) (envir : RPointer) :
    Balanced (handlerText d envir) := by
  unfold handlerText
  split
  next =>
    split
    next =>
      refine (myfindFun_balanced _ _).bind fun found => ?_
      split
      next => exact balanced_done _
      next => exact balanced_done _
    next => exact balanced_done _
  next => exact balanced_done _

theorem prepareScript_balanced (d : RApacheDirective) (r : RequestRec)
    (type : RApacheHandlerType) : Balanced (prepareScript d r type) := by
  unfold prepareScript
  split
  next =>
    split
    next => exact parseText_balanced _ _
    next => exact balanced_exit
  next => exact balanced_answer _

theorem prepareHandlerExpr_balanced (d : RApacheDirective) (r : RequestRec)
    (type : RApacheHandlerType) (envir : RPointer) :
    Balanced (prepareHandlerExpr d r type envir) := by
  refine (prepareScript_balanced d r type).bind fun expr => ?_
  cases expr with
  | some expr => exact balanced_done _
  | none =>
      refine (handlerText_balanced d envir).bind fun text => ?_
      cases text with
      | none => exact balanced_done _
      | some text => exact parseText_balanced text _

theorem respond_leaks (ret : RResult) : Leaks (respond ret) := by
  cases ret with
  | integer => exact tearDownRequest_leaks.bind fun _ => (balanced_done _).leaks
  | tryError => exact rApacheResponseError_leaks
  | other => exact tearDownRequest_leaks.bind fun _ => (balanced_done _).leaks

theorem evalFailed_leaks : Leaks evalFailed :=
  printTraceback_leaks.bind fun _ => rApacheResponseError_leaks

theorem evalHandler_leaks (d : RApacheDirective) (r : RequestRec) (type : RApacheHandlerType)
    (ret : RResult) (evalError : Bool) : Leaks (evalHandler d r type ret evalError) := by
  unfold evalHandler
  split
  next =>
    refine (prepareHandlerExpr_balanced _ _ _ _).leaks.bind fun expr => ?_
    cases expr with
    | none => exact rApacheResponseError_leaks
    | some expr =>
        refine (evalExprs_balanced _ _ _).leaks.bind fun (ret, evalError) => ?_
        cases evalError with
        | true => exact evalFailed_leaks
        | false => exact respond_leaks ret
  next => exact respond_leaks ret

theorem runHandler_leaks (d : RApacheDirective) (r : RequestRec) (type : RApacheHandlerType) :
    Leaks (runHandler d r type) := by
  unfold runHandler
  split
  next => exact (newEnv_balanced _).leaks.bind fun _ => evalHandler_leaks _ _ _ _ _
  next file _ =>
    refine (balanced_answer _).leaks.bind fun changed => ?_
    split
    next =>
      refine (prepareFileExprs_leaks file).bind fun prepared => ?_
      cases prepared with
      | none => exact rApacheResponseError_leaks
      | some prepared =>
          dsimp only
          split
          next =>
            refine (newEnv_balanced _).leaks.bind fun _ =>
              (evalExprs_balanced _ _ _).leaks.bind fun (ret, evalError) => ?_
            cases evalError with
            | true => exact evalFailed_leaks
            | false => exact evalHandler_leaks _ _ _ _ _
          next => exact evalHandler_leaks _ _ _ _ _
    next => exact rApacheResponseError_leaks

theorem apHookRequestHandler_leaks (code : Nat → Bytes) (r : RequestRec) :
    Leaks (apHookRequestHandler code r) := by
  refine (balanced_answer _).leaks.bind fun gotDirectory => ?_
  split
  next =>
    split
    next => exact (balanced_done _).leaks
    next type _ =>
      refine (balanced_answer _).leaks.bind fun locked => ?_
      split
      next => exact (balanced_done _).leaks
      next =>
        refine (balanced_answer _).leaks.bind fun created => ?_
        split
        next => exact rApacheResponseError_leaks
        next =>
          split
          next =>
            exact (rApacheInfo_leaks code).bind fun _ => tearDownRequest_leaks.bind fun _ =>
              (balanced_done _).leaks
          next =>
            split
            next =>
              split
              next => exact rApacheResponseError_leaks
              next =>
                exact refreshRApacheEnv_leaks.bind fun _ => runHandler_leaks _ _ _
            next => exact rApacheResponseError_leaks
  next => exact (balanced_done _).leaks

theorem serve_leaks (code : Nat → Bytes) (requests : List RequestRec) :
    Leaks (serve code requests) := by
  induction requests with
  | nil => exact (balanced_done _).leaks
  | cons r requests ih => exact (apHookRequestHandler_leaks code r).bind fun _ => ih

/-! ## The values of the lists -/

/-- Every complete call returns this value. -/
def Yields (f : StackCode α) (value : α) : Prop :=
  Triple anyStep (fun _ => True) (fun _ => True) f fun result _ => result = value

theorem yields_done (value : α) : Yields (.done value : StackCode α) value :=
  Triple.done (fun _ _ => trivial) fun _ _ => rfl

theorem Yields.bind {f : StackCode α} {value : α} {next : α → StackCode β} {result : β}
    (first : Yields f value) (rest : Yields (next value) result) :
    Yields (f >>= next) result := by
  refine Triple.bind first fun other s same => ?_
  rw [same]
  exact rest s trivial

theorem yields_protect : Yields protect () :=
  Triple.atomic (fun _ _ => trivial) fun _ _ _ _ _ _ _ => ⟨trivial, rfl⟩

theorem yields_unprotect (count : Nat) : Yields (unprotect count) () :=
  Triple.atomic (fun _ _ => trivial) fun _ _ _ _ _ _ _ => ⟨trivial, rfl⟩

theorem aprTableDo_yields {κ : Type} {callback : κ → Param → StackCode κ} {next : κ → Param → κ}
    (yields : ∀ ctx entry, Yields (callback ctx entry) (next ctx entry)) (ctx : κ)
    (t : ParamTable) : Yields (aprTableDo callback ctx t) (t.foldl next ctx) := by
  induction t generalizing ctx with
  | nil => exact yields_done _
  | cons entry t ih => exact (yields ctx entry).bind (ih _)

theorem paramsCallback_yields (ctx : TableCtx) (entry : Param) :
    Yields (paramsCallback ctx entry) (ctx.paramsCallback entry) := by
  unfold paramsCallback TableCtx.paramsCallback
  cases arrayKey entry.name with
  | none => exact yields_done _
  | some key =>
      dsimp only
      cases ctx.nameIndex key with
      | none => exact yields_done _
      | some index => exact yields_protect.bind ((yields_unprotect 1).bind (yields_done _))

theorem aprTableToList_yields (t : Option ParamTable) :
    Yields (aprTableToList paramsCallback t)
      (RApache.aprTableToList RApache.paramsCallback t) := by
  rw [← TableCtx.aprTableToList_eq]
  match t with
  | none => exact yields_done _
  | some [] => exact yields_done _
  | some (entry :: t) =>
      refine yields_protect.bind (yields_protect.bind
        ((aprTableDo_yields paramsCallback_yields _ (entry :: t)).bind ?_))
      split
      next =>
        exact yields_protect.bind (yields_protect.bind
          ((yields_unprotect 4).bind (yields_done _)))
      next => exact (yields_unprotect 2).bind (yields_done _)

/-- One upload, at its place among the uploads. -/
def fileUpload (r : RequestRec) (files : Members) (upload : Param) : Members :=
  files ++ (match r.spoolFile files.length with
    | none => [(mkChar upload.name, .null)]
    | some filename =>
        [(mkChar upload.name,
          .list [(bytes "name", .character [mkChar upload.value]),
            (bytes "tmp_name", .character [mkChar filename])])])

theorem fileUploadsCallback_yields (r : RequestRec) (files : Members) (upload : Param) :
    Yields (fileUploadsCallback r files upload) (fileUpload r files upload) := by
  unfold fileUploadsCallback fileUpload
  cases r.spoolFile files.length with
  | none => exact yields_done _
  | some filename =>
      exact yields_protect.bind (yields_protect.bind (yields_protect.bind (yields_protect.bind
        ((yields_unprotect 4).bind (yields_done _)))))

/-- The uploads are numbered from the first on; the induction is on those that remain. -/
theorem foldl_fileUpload (r : RequestRec) (files : Members) (uploads : ParamTable) :
    uploads.foldl (fileUpload r) files =
      files ++ (uploads.zipIdx files.length).map fun (upload, index) =>
        match r.spoolFile index with
        | none => (mkChar upload.name, .null)
        | some filename =>
            (mkChar upload.name,
              .list [(bytes "name", .character [mkChar upload.value]),
                (bytes "tmp_name", .character [mkChar filename])]) := by
  induction uploads generalizing files with
  | nil => simp
  | cons upload uploads ih =>
      rw [List.foldl_cons, ih, fileUpload]
      cases spool : r.spoolFile files.length with
      | none => simp [spool]
      | some filename => simp [spool]

theorem makeFiles_yields (r : RequestRec) (uploads : ParamTable) :
    Yields (makeFiles r uploads)
      (if uploads.isEmpty then .null else .list (Session.fileUploads r uploads)) := by
  unfold makeFiles
  split
  next => exact yields_done _
  next =>
    have same := foldl_fileUpload r [] uploads
    rw [List.nil_append] at same
    refine yields_protect.bind (yields_protect.bind
      ((aprTableDo_yields (fileUploadsCallback_yields r) [] uploads).bind
        ((yields_unprotect 2).bind ?_)))
    rw [same]
    exact yields_done _

theorem postAnswer_yields (returnPost : Bool) (s : Session) :
    Yields (postAnswer returnPost s) (s.postAnswer returnPost) := by
  unfold postAnswer Session.postAnswer
  cases returnPost with
  | true => exact aprTableToList_yields _
  | false => exact yields_done _

theorem startParse_yields (fuel : Nat) (returnPost : Bool) (r : RequestRec)
    (contentType : Bytes) (pfn : ParserFunction) (s : Session) :
    Yields (startParse fuel returnPost r contentType pfn s)
      (s.startParse fuel returnPost r contentType pfn) := by
  unfold startParse Session.startParse
  dsimp only
  generalize parsePostLoop _ _ _ _ _ = ended
  match ended with
  | none => exact yields_done _
  | some (.aborted _) => exact yields_done _
  | some (.left _ _) =>
      exact (makeFiles_yields r _).bind ((postAnswer_yields returnPost _).bind (yields_done _))

/-- `parsePost` on the protection stack returns what it returns without. -/
theorem parsePost_yields (fuel : Nat) (returnPost : Bool) (s : Session) :
    Yields (parsePost fuel returnPost s) (s.parsePost fuel returnPost) := by
  unfold parsePost Session.parsePost
  cases s.request.r with
  | none => exact yields_done _
  | some r =>
      dsimp only
      split
      next => exact yields_done _
      next =>
        split
        next => exact (postAnswer_yields returnPost s).bind (yields_done _)
        next =>
          split
          next => exact yields_done _
          next =>
            cases Session.bodyParser r with
            | none => exact yields_done _
            | some parser => exact startParse_yields _ _ _ _ _ _

/-! ## The functions and the requests -/

theorem tableCallback_balanced (ctx : TableCtx) (entry : Param) :
    Balanced (tableCallback ctx entry) :=
  balanced_done _

/-- The functions that make objects, parse and evaluate. -/
structure FunctionsKeepDepth : Prop where
  newLogical : ∀ tf, KeepsDepth (newLogical tf)
  newInteger : ∀ i, KeepsDepth (newInteger i)
  newEnv : ∀ enclos, KeepsDepth (newEnv enclos)
  parseText : ∀ text parseError, KeepsDepth (parseText text parseError)
  parseEval : ∀ code env evalError, KeepsDepthIfParsed (parseEval code env evalError)
  evalExprs : ∀ exprs env evalError, KeepsDepth (evalExprs exprs env evalError)
  callFun1expr : ∀ fun_ env evalError, KeepsDepth (callFun1expr fun_ env evalError)
  callFun1str : ∀ fun_ arg env evalError, KeepsDepthIfParsed (callFun1str fun_ arg env evalError)
  myfindFun : ∀ symb envir, KeepsDepth (myfindFun symb envir)
  paramsCallback : ∀ ctx entry, KeepsDepth (paramsCallback ctx entry)
  paramsToList : ∀ t, KeepsDepth (aprTableToList ProtectStack.paramsCallback t)
  tableToList : ∀ t, KeepsDepth (aprTableToList tableCallback t)
  fileUploadsCallback : ∀ r files upload, KeepsDepth (fileUploadsCallback r files upload)
  parsePost : ∀ fuel returnPost s, KeepsDepth (parsePost fuel returnPost s)

theorem functions_keep_depth : FunctionsKeepDepth where
  newLogical tf := (newLogical_balanced tf).keepsDepth
  newInteger i := (newInteger_balanced i).keepsDepth
  newEnv enclos := (newEnv_balanced enclos).keepsDepth
  parseText text parseError := (parseText_balanced text parseError).keepsDepth
  parseEval code env evalError := (parseEval_leaks code env evalError).keepsDepthIfParsed
  evalExprs exprs env evalError := (evalExprs_balanced exprs env evalError).keepsDepth
  callFun1expr fun_ env evalError := (callFun1expr_balanced fun_ env evalError).keepsDepth
  callFun1str _ _ _ _ := (parseEval_leaks _ _ _).keepsDepthIfParsed
  myfindFun symb envir := (myfindFun_balanced symb envir).keepsDepth
  paramsCallback ctx entry := (paramsCallback_balanced ctx entry).keepsDepth
  paramsToList t := (aprTableToList_balanced paramsCallback_balanced t).keepsDepth
  tableToList t := (aprTableToList_balanced tableCallback_balanced t).keepsDepth
  fileUploadsCallback r files upload := (fileUploadsCallback_balanced r files upload).keepsDepth
  parsePost fuel returnPost s := (parsePost_balanced fuel returnPost s).keepsDepth

/-- Every function leaves R's protection stack as deep as it was, and so do any number of requests,
just when `ParseEval` is given no text that R cannot parse. -/
theorem stack_depth_kept_iff_parsed (code : Nat → Bytes)
    (requests : List RequestRec) :
    FunctionsKeepDepth ∧ KeepsDepthIfParsed (serve code requests) :=
  ⟨functions_keep_depth, (serve_leaks code requests).keepsDepthIfParsed⟩

/-- A request for the directive `RFileHandler /srv/it's.R::f`. -/
def quotedFileRequest : RequestRec where
  address := 0
  handler := bytes "r-handler"
  perDirConfig := some
    { file := some (bytes "/srv/it's.R"), dirname := some (bytes "/srv")
      function := some (bytes "f"), handlerKey := some (bytes "/srv/it's.R::f") }

/-- R can parse every text but that of the call `parse('/srv/it's.R')`; R code does not read. -/
def quotedFileAnswer (count : Nat) : StackAnswer :=
  if count = 18 then { exprs := none } else { success := decide (count < 18) }

/-- Some steps of that request. -/
def servesQuotedFile (count : Nat) : Option (StackCode Unit × StackState) :=
  Program.runWith quotedFileAnswer count (serve (fun _ => []) [quotedFileRequest]) {}

/-- The request leaves two objects on the stack. -/
theorem quoted_file_stays_protected :
    ¬ KeepsDepth (serve (fun _ => []) [quotedFileRequest]) := by
  intro keeps
  have ran : servesQuotedFile 23 =
      some (.done (), { depth := 2, unparsed := [bytes "parse('/srv/it's.R')"] }) := by rfl
  have reaches := (Program.runWith_reaches ran).mono fun _ _ _ _ => trivial
  exact absurd (keeps _ _ _ reaches) (by decide)

end ProtectStack

end RApache
