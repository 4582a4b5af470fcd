import RApache.Workers

/-!
# Evaluating the expressions of a text

`EvalExprs` evaluates expressions one after the other and reports in `evalError` whether one of
them failed.  It is given the flag of earlier evaluations of the request.
-/

namespace RApache

open Stepwise
open Stepwise.Program (Reaches done_ends_iff atomic_ends_iff bind_ends_iff)

/-- Evaluations of expressions one after the other, up to and including the first that has no
value, with their values. -/
inductive InOrder {ε ν σ : Type} (evaluate : ε → σ → Option ν → σ → Prop) :
    List ε → σ → List (Option ν) → σ → Prop where
  | nil {s : σ} : InOrder evaluate [] s [] s
  | failed {expr : ε} {exprs : List ε} {s s' : σ} (evaluated : evaluate expr s none s') :
      InOrder evaluate (expr :: exprs) s [none] s'
  | next {expr : ε} {exprs : List ε} {value : ν} {values : List (Option ν)} {s s' s'' : σ}
      (evaluated : evaluate expr s (some value) s') (later : InOrder evaluate exprs s' values s'') :
      InOrder evaluate (expr :: exprs) s (some value :: values) s''

namespace Code

variable (w : World) (me : Owner)

/-- A complete `R_tryEval` of an expression. -/
def EvaluatesExpr (source : CodeSource) (env : Option EnvId) (expr : RExpr) (s : Child)
    (value : Option RResult) (s' : Child) : Prop :=
  Reaches always (evalExpr w me source expr env) s (.done value) s'

/-- The value of the last evaluation, if it has one, else that of R's `NULL`. -/
def lastValue (values : List (Option RResult)) : RResult := (values.getLast?.join).getD .other

/-- Every complete call of `EvalExprs` evaluates the expressions in order up to the first that
fails, reports a success just when none fails, and returns the last value. -/
def EvaluatesInOrder (source : CodeSource) (exprs : List RExpr) (env : Option EnvId)
    (evalError : Bool) : Prop :=
  ∀ s ret evalError' s',
    Reaches always (evalExprs w me source (some (.vector exprs)) env evalError) s
      (.done (ret, evalError')) s' →
    ∃ values, InOrder (EvaluatesExpr w me source env) exprs s values s' ∧
      (evalError' = false ↔ ∀ value ∈ values, value.isSome) ∧ ret = lastValue values

variable {w me}

theorem evalLoop_inOrder {source : CodeSource} {env : Option EnvId} {lastval : RResult}
    {exprs : List RExpr} {s s' : Child} {last : Option RResult}
    (ran : Reaches always (evalLoop w me source env lastval exprs) s (.done last) s') :
    ∃ values, InOrder (EvaluatesExpr w me source env) exprs s values s' ∧
      (last.isSome ↔ ∀ value ∈ values, value.isSome) ∧
      last = values.getLast?.getD (some lastval) := by
  induction exprs generalizing lastval s with
  | nil =>
      rcases done_ends_iff.mp ran with ⟨rfl, rfl⟩
      exact ⟨[], .nil, by simp, rfl⟩
  | cons expr exprs ih =>
      rcases bind_ends_iff.mp ran with ⟨value, s₁, evaluated, rest⟩
      cases value with
      | none =>
          rcases done_ends_iff.mp rest with ⟨rfl, rfl⟩
          exact ⟨[none], .failed evaluated, by simp, rfl⟩
      | some value =>
          rcases ih rest with ⟨values, inOrder, succeeded, isLast⟩
          refine ⟨some value :: values, .next evaluated inOrder, ?_, ?_⟩
          · simp [succeeded]
          · rw [isLast]
            cases values with
            | nil => rfl
            | cons value' values => simp [List.getLast?_cons]

theorem last_getD {values : List (Option RResult)} {last : Option RResult}
    (isLast : last = values.getLast?.getD (some .other)) : last.getD .other = lastValue values := by
  rw [isLast, lastValue]
  cases values.getLast? with
  | none => rfl
  | some value => rfl

/-- `EvalExprs` for expressions that are there. -/
theorem evalExprs_cons (source : CodeSource) (expr : RExpr) (exprs : List RExpr)
    (env : Option EnvId) (evalError : Bool) :
    evalExprs w me source (some (.vector (expr :: exprs))) env evalError = (do
      match ← evalLoop w me source env .other (expr :: exprs) with
      | some value => pure (value, false)
      | none => pure (.other, true)) := rfl

/-- The flag is right just when there is an expression, or it says already that none failed. -/
theorem evaluatesInOrder_iff (source : CodeSource) (exprs : List RExpr) (env : Option EnvId)
    (evalError : Bool) :
    EvaluatesInOrder w me source exprs env evalError ↔ exprs ≠ [] ∨ evalError = false := by
  constructor
  · intro inOrder
    cases exprs with
    | cons expr exprs => exact .inl (List.cons_ne_nil expr exprs)
    | nil =>
        right
        rcases inOrder (Child.fresh [] none fun _ => []) .other evalError _ .refl with
          ⟨values, evaluations, flag, -⟩
        cases evaluations
        exact flag.mpr (by simp)
  · intro right s ret evalError' s' ran
    cases exprs with
    | nil =>
        rcases done_ends_iff.mp ran with ⟨same, rfl⟩
        cases same
        exact ⟨[], .nil, by simpa using right, rfl⟩
    | cons expr exprs =>
        rw [evalExprs_cons] at ran
        rcases bind_ends_iff.mp ran with ⟨last, s₁, evaluated, rest⟩
        rcases evalLoop_inOrder evaluated with ⟨values, inOrder, succeeded, isLast⟩
        have isValue := last_getD isLast
        cases last with
        | some value =>
            rcases done_ends_iff.mp rest with ⟨same, rfl⟩
            cases same
            exact ⟨values, inOrder, by simp [← succeeded], isValue⟩
        | none =>
            rcases done_ends_iff.mp rest with ⟨same, rfl⟩
            cases same
            exact ⟨values, inOrder, by simp [← succeeded], isValue⟩

/-- For a handler whose text parses to these expressions it does not matter whether the
expressions of its file have been evaluated for the same request. -/
def IgnoresFile (w : World) (me : Owner) (h : HandlerEntry) (r : RequestRec) (exprs : List RExpr) :
    Prop :=
  ∀ s, ((s.handlers h.key).getD {}).expr = some (.vector exprs) → ∀ value s',
    Reaches always (evalHandler w me h r true) s (.done value) s' ↔
      Reaches always (evalHandler w me h r false) s (.done value) s'

theorem ignoresFile_iff (h : HandlerEntry) (r : RequestRec) (exprs : List RExpr) :
    IgnoresFile w me h r exprs ↔ exprs ≠ [] := by
  constructor
  · rintro ignores rfl
    let s : Child :=
      { Child.fresh [] none fun _ => [] with
        handlers := fun _ => some { expr := some (.vector []) } }
    have ran : ∃ s', Reaches always (evalHandler w me h r false) s (.done (.other, false)) s' :=
      ⟨_, bind_ends_iff.mpr ⟨_, _, atomic_ends_iff.mpr ⟨{}, rfl, trivial⟩, .refl⟩⟩
    rcases ran with ⟨s', ran⟩
    rcases bind_ends_iff.mp ((ignores s rfl _ _).mpr ran) with ⟨entry, s₁, logged, evaluated⟩
    rcases atomic_ends_iff.mp logged with ⟨ω, acted, -⟩
    cases acted
    rcases done_ends_iff.mp evaluated with ⟨same, -⟩
    cases same
  · intro some s isExpr value s'
    rw [evalHandler, evalHandler, bind_ends_iff, bind_ends_iff]
    refine exists_congr fun entry => exists_congr fun s₁ => and_congr_right fun logged => ?_
    rcases atomic_ends_iff.mp logged with ⟨ω, acted, -⟩
    cases acted
    change Reaches always (evalExprs w me .handler ((s.handlers h.key).getD {}).expr _ true) _ _ _ ↔
      Reaches always (evalExprs w me .handler ((s.handlers h.key).getD {}).expr _ false) _ _ _
    rw [isExpr]
    cases exprs with
    | nil => exact (some rfl).elim
    | cons expr exprs => rw [evalExprs_cons, evalExprs_cons]

end Code

/-- R for which a comment has no expressions. -/
def commentWorld : World where
  parse text := if text.head? = some (byte '#') then some [] else some [⟨text⟩]
  fuel := 0
  infoText := fun _ => []

/-- A request for the directive `RFileEval /f:#`. -/
def commentRequest : RequestRec where
  address := 0
  handler := bytes "r-handler"
  perDirConfig := some
    { file := some (bytes "/f"), dirname := some (bytes "/"), evalcode := some (bytes "#")
      handlerKey := some (bytes "/f:#") }

/-- Some steps of that request. -/
def answersComment (count : Nat) (s : Child) : Option (Code Response × Child) :=
  Program.runWith (fun _ => {}) count
    (Code.apHookRequestHandler commentWorld { worker := 0, number := 0 } commentRequest) s

/-- What the handler returns, if it has. -/
def returned : Code Response → Option Int
  | .done response => some response.result
  | .step _ _ => none

theorem answersComment_reaches {count : Nat} {s : Child} {result : Int}
    (ran : (answersComment count s).isSome)
    (answered : returned ((answersComment count s).get ran).1 = some result) :
    ∃ status, Reaches always
      (Code.apHookRequestHandler commentWorld { worker := 0, number := 0 } commentRequest)
      s (.done { result, status }) ((answersComment count s).get ran).2 := by
  have reaches : Reaches always
      (Code.apHookRequestHandler commentWorld { worker := 0, number := 0 } commentRequest) s
      ((answersComment count s).get ran).1 ((answersComment count s).get ran).2 :=
    Program.runWith_reaches (Option.some_get ran).symm
  cases isDone : ((answersComment count s).get ran).1 with
  | step act next =>
      rw [isDone] at answered
      cases answered
  | done response =>
      rw [isDone] at answered reaches
      cases answered
      exact ⟨response.status, reaches⟩

/-- A child with the file `/f`. -/
def commentChild : Child :=
  Child.fresh (bytes "/") none fun file =>
    if file = bytes "/f" then [{ mtime := 1, content := bytes "x" }] else []

end RApache
