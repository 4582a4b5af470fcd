import Mathlib.Logic.Function.Basic
import RApache.Library.Program

/-!
# Programs that run beside others

Workers take the atomic steps of their programs in any order.  A protocol says what a
worker in each phase may rely on and which steps it may take.  If no step of the protocol
spoils what the others rely on, then whatever the protocol keeps holds in every state
that is reached.
-/

namespace Stepwise

namespace Program

variable {Ω σ Φ α β : Type}

/-- What a worker in a phase relies on, and the steps that it may take. -/
structure Protocol (Ω σ Φ : Type) where
  relies : Φ → σ → Prop
  moves : Φ → Ω → σ → σ → Φ → Prop

/-- From the phase `φ` on, every step of the program is a move of the protocol, and the
phase of every result satisfies `Q`. -/
def Follows (ok : Ω → σ → σ → Prop) (protocol : Protocol Ω σ Φ) :
    (p : Program Ω σ α) → (Q : α → Φ → Prop) → Φ → Prop
  | .done result, Q, φ => Q result φ
  | .step act next, Q, φ => ∀ ω s value s', protocol.relies φ s →
      act ω s = some (value, s') → ok ω s s' →
        ∃ φ', protocol.moves φ ω s s' φ' ∧ Follows ok protocol (next value) Q φ'

section Follows

variable {ok : Ω → σ → σ → Prop} {protocol : Protocol Ω σ Φ} {φ : Φ}

theorem Follows.bind {p : Program Ω σ α} {next : α → Program Ω σ β} {Q : α → Φ → Prop}
    {Q' : β → Φ → Prop} (first : Follows ok protocol p Q φ)
    (rest : ∀ value φ', Q value φ' → Follows ok protocol (next value) Q' φ') :
    Follows ok protocol (p >>= next) Q' φ := by
  induction p generalizing φ with
  | done result => exact rest result φ first
  | step act after ih =>
      intro ω s value s' relies acted meets
      rcases first ω s value s' relies acted meets with ⟨φ', moves, later⟩
      exact ⟨φ', moves, ih value later⟩

theorem Follows.mono {p : Program Ω σ α} {Q Q' : α → Φ → Prop}
    (follows : Follows ok protocol p Q φ) (weaker : ∀ value φ', Q value φ' → Q' value φ') :
    Follows ok protocol p Q' φ := by
  induction p generalizing φ with
  | done result => exact weaker result φ follows
  | step act next ih =>
      intro ω s value s' relies acted meets
      rcases follows ω s value s' relies acted meets with ⟨φ', moves, later⟩
      exact ⟨φ', moves, ih value later⟩

theorem Follows.atomic {act : Ω → σ → Option (α × σ)} {Q : α → Φ → Prop}
    (acts : ∀ ω s value s', protocol.relies φ s → act ω s = some (value, s') → ok ω s s' →
      ∃ φ', protocol.moves φ ω s s' φ' ∧ Q value φ') :
    Follows ok protocol (atomic act) Q φ := acts

/-- A program whose steps are all moves that stay in the phase. -/
theorem Every.follows {R : Ω → σ → σ → Prop} {p : Program Ω σ α} (every : Every ok R p)
    (moves : ∀ ω s s', protocol.relies φ s → ok ω s s' → R ω s s' →
      protocol.moves φ ω s s' φ) :
    Follows ok protocol p (fun _ φ' => φ' = φ) φ := by
  induction p with
  | done result => rfl
  | step act next ih =>
      intro ω s value s' relies acted meets
      rcases every ω s value s' acted meets with ⟨kept, later⟩
      exact ⟨φ, moves ω s s' relies meets kept, ih value later⟩

end Follows

/-- The protocol of a program that runs alone: the phases are what is known of the state. -/
def alone : Protocol Ω σ (σ → Prop) where
  relies known s := known s
  moves _ _ _ s' known := known s'

/-- A program that follows it ends in a state of which its last phase is true. -/
theorem Follows.reaches_alone {ok : Ω → σ → σ → Prop} {p q : Program Ω σ α}
    {Q : α → (σ → Prop) → Prop} {known : σ → Prop} {s s' : σ} (follows : Follows ok alone p Q known)
    (now : known s) (reaches : Reaches ok p s q s') :
    ∃ known', known' s' ∧ Follows ok alone q Q known' := by
  induction reaches with
  | refl => exact ⟨known, now, follows⟩
  | tail before acted meets ih =>
      rcases ih with ⟨known', now', follows'⟩
      rcases follows' _ _ _ _ now' acted meets with ⟨known'', moves, later⟩
      exact ⟨known'', moves, later⟩

/-! ## Conditions as part of a protocol -/

/-- The protocol that asks nothing of a step that does not meet the condition. -/
def Protocol.given (protocol : Protocol Ω σ Φ) (ok : Ω → σ → σ → Prop) : Protocol Ω σ Φ where
  relies := protocol.relies
  moves φ ω s s' φ' := ok ω s s' → protocol.moves φ ω s s' φ'

/-- Under the condition it is the protocol itself. -/
theorem follows_given_iff {ok : Ω → σ → σ → Prop} {protocol : Protocol Ω σ Φ}
    {p : Program Ω σ α} {Q : α → Φ → Prop} {φ : Φ} :
    Follows ok (protocol.given ok) p Q φ ↔ Follows ok protocol p Q φ := by
  induction p generalizing φ with
  | done result => exact Iff.rfl
  | step act next ih =>
      constructor
      · intro follows ω s value s' relies acted meets
        rcases follows ω s value s' relies acted meets with ⟨φ', moves, later⟩
        exact ⟨φ', moves meets, (ih value).mp later⟩
      · intro follows ω s value s' relies acted meets
        rcases follows ω s value s' relies acted meets with ⟨φ', moves, later⟩
        exact ⟨φ', fun _ => moves, (ih value).mpr later⟩

/-! ## Pools of workers -/

variable {W : Type} [DecidableEq W]

/-- The programs of the workers and the state after some steps of any of them, all of
which meet the condition `ok`. -/
inductive PoolReaches (ok : Ω → σ → σ → Prop) (pool : W → Program Ω σ α) (s : σ) :
    (W → Program Ω σ α) → σ → Prop where
  | refl : PoolReaches ok pool s pool s
  | tail {pool' : W → Program Ω σ α} {s' s'' : σ} {γ : Type} {worker : W}
      {act : Ω → σ → Option (γ × σ)} {next : γ → Program Ω σ α} {ω : Ω} {value : γ}
      (before : PoolReaches ok pool s pool' s')
      (turn : pool' worker = .step act next)
      (acted : act ω s' = some (value, s'')) (meets : ok ω s' s'') :
      PoolReaches ok pool s (Function.update pool' worker (next value)) s''

/-- What the workers keep together: it gives each worker what it relies on, and no move
of a worker spoils it. -/
structure Agreement (ok : Ω → σ → σ → Prop) (protocol : W → Protocol Ω σ Φ)
    (G : (W → Φ) → σ → Prop) : Prop where
  relies : ∀ {φ s}, G φ s → ∀ worker, (protocol worker).relies (φ worker) s
  moves : ∀ {φ s ω s' worker φ'}, G φ s → ok ω s s' →
    (protocol worker).moves (φ worker) ω s s' φ' → G (Function.update φ worker φ') s'

/-- In every state that the pool reaches the agreement holds, and every worker follows its
protocol from its phase on. -/
theorem Agreement.reaches {ok : Ω → σ → σ → Prop} {protocol : W → Protocol Ω σ Φ}
    {G : (W → Φ) → σ → Prop} (agreement : Agreement ok protocol G)
    {pool pool' : W → Program Ω σ α} {s s' : σ} {φ : W → Φ} {Q : W → α → Φ → Prop}
    (begins : G φ s)
    (follows : ∀ worker, Follows ok (protocol worker) (pool worker) (Q worker) (φ worker))
    (reaches : PoolReaches ok pool s pool' s') :
    ∃ φ', G φ' s' ∧
      ∀ worker, Follows ok (protocol worker) (pool' worker) (Q worker) (φ' worker) := by
  induction reaches with
  | refl => exact ⟨φ, begins, follows⟩
  | @tail pool' s' s'' γ worker act next ω value before turn acted meets ih =>
      rcases ih with ⟨φ', holds, follows'⟩
      have mine := follows' worker
      rw [turn] at mine
      rcases mine ω s' value s'' (agreement.relies holds worker) acted meets with
        ⟨φ'', moved, later⟩
      refine ⟨Function.update φ' worker φ'', agreement.moves holds meets moved, ?_⟩
      intro other
      by_cases same : other = worker
      · subst same
        rw [Function.update_self, Function.update_self]
        exact later
      · rw [Function.update_of_ne same, Function.update_of_ne same]
        exact follows' other

/-- A run of a pool by a schedule of workers and answers, all of whose steps pass a test. -/
def runPoolIf (test : Ω → σ → σ → Bool) : (schedule : List (W × Ω)) →
    (pool : W → Program Ω σ α) → σ → Option ((W → Program Ω σ α) × σ)
  | [], pool, s => some (pool, s)
  | (worker, ω) :: schedule, pool, s =>
      match pool worker with
      | .done _ => none
      | .step act next =>
          match act ω s with
          | none => none
          | some (value, s') =>
              if test ω s s' then
                runPoolIf test schedule (Function.update pool worker (next value)) s'
              else none

theorem runPoolIf_reaches {ok : Ω → σ → σ → Prop} {test : Ω → σ → σ → Bool}
    (passes : ∀ ω s s', test ω s s' = true → ok ω s s') {schedule : List (W × Ω)}
    {start pool pool' : W → Program Ω σ α} {s₀ s s' : σ} (reached : PoolReaches ok start s₀ pool s)
    (ran : runPoolIf test schedule pool s = some (pool', s')) :
    PoolReaches ok start s₀ pool' s' := by
  induction schedule generalizing pool s with
  | nil =>
      cases ran
      exact reached
  | cons turn schedule ih =>
      rcases turn with ⟨worker, ω⟩
      simp only [runPoolIf] at ran
      split at ran
      next => simp at ran
      next γ act next isStep =>
        split at ran
        next => simp at ran
        next value after acted =>
          split at ran
          next passed => exact ih (reached.tail isStep acted (passes _ _ _ passed)) ran
          next => simp at ran

end Program

end Stepwise
