import Mathlib.Logic.Basic

/-!
# Programs of atomic steps

A program is a tree of atomic steps on a shared state.  Each step also sees an answer of
its environment, and may be impossible in a state, as a step that waits is.  Three
judgements are derived from what one step can do: a relation that every step keeps, an
invariant with a postcondition for a program that runs alone, and a protocol for a
program that runs beside others.
-/

namespace Stepwise

/-- A program with answers in `Ω`, states in `σ` and results in `α`. -/
inductive Program (Ω σ : Type) (α : Type) : Type 1 where
  | done (result : α)
  | step {β : Type} (act : Ω → σ → Option (β × σ)) (next : β → Program Ω σ α)

namespace Program

variable {Ω σ α β : Type}

/-- Run one program and then another. -/
def bind (first : Program Ω σ α) (next : α → Program Ω σ β) : Program Ω σ β :=
  match first with
  | .done result => next result
  | .step act rest => .step act fun value => (rest value).bind next

instance : Monad (Program Ω σ) where
  pure := .done
  bind := bind

@[simp] theorem pure_eq (result : α) : (pure result : Program Ω σ α) = .done result := rfl

@[simp] theorem done_bind (result : α) (next : α → Program Ω σ β) :
    (Program.done result >>= next) = next result := rfl

@[simp] theorem step_bind {γ : Type} (act : Ω → σ → Option (γ × σ))
    (rest : γ → Program Ω σ α) (next : α → Program Ω σ β) :
    (Program.step act rest >>= next) = .step act fun value => rest value >>= next := rfl

/-- A program of one step. -/
def atomic (act : Ω → σ → Option (α × σ)) : Program Ω σ α := .step act .done

@[simp] theorem atomic_bind (act : Ω → σ → Option (α × σ)) (next : α → Program Ω σ β) :
    (atomic act >>= next) = .step act next := rfl

/-! ## Runs -/

variable (ok : Ω → σ → σ → Prop)

/-- The program and the state after some steps, all of which meet the condition `ok`. -/
inductive Reaches (p : Program Ω σ α) (s : σ) : Program Ω σ α → σ → Prop where
  | refl : Reaches p s p s
  | tail {s' s'' : σ} {γ : Type}
      {act : Ω → σ → Option (γ × σ)} {next : γ → Program Ω σ α} {ω : Ω} {value : γ}
      (before : Reaches p s (.step act next) s')
      (acted : act ω s' = some (value, s'')) (meets : ok ω s' s'') :
      Reaches p s (next value) s''

/-- A run of at most `count` steps with the given answers. -/
def runWith (answer : Nat → Ω) :
    (count : Nat) → (p : Program Ω σ α) → σ → Option (Program Ω σ α × σ)
  | 0, p, s => some (p, s)
  | count + 1, p, s =>
      match runWith answer count p s with
      | some (.step act next, s) => (act (answer count) s).map fun (value, s) => (next value, s)
      | other => other

theorem runWith_reaches {answer : Nat → Ω} {count : Nat} {p q : Program Ω σ α} {s s' : σ}
    (ran : runWith answer count p s = some (q, s')) :
    Reaches (fun _ _ _ => True) p s q s' := by
  induction count generalizing q s' with
  | zero =>
      cases ran
      exact .refl
  | succ count ih =>
      simp only [runWith] at ran
      split at ran
      next act next before earlier =>
        rcases Option.map_eq_some_iff.mp ran with ⟨⟨value, after⟩, acted, same⟩
        cases same
        exact .tail (ih earlier) acted trivial
      next => exact ih ran

/-- A run of at most `count` steps with the given answers, as far as they meet the condition. -/
def runIf (ok : Ω → σ → σ → Prop) [∀ ω s s', Decidable (ok ω s s')] (answer : Nat → Ω) :
    (count : Nat) → (p : Program Ω σ α) → σ → Option (Program Ω σ α × σ)
  | 0, p, s => some (p, s)
  | count + 1, p, s =>
      match runIf ok answer count p s with
      | some (.step act next, s) =>
          (act (answer count) s).bind fun (value, s') =>
            if ok (answer count) s s' then some (next value, s') else none
      | other => other

theorem runIf_reaches {ok : Ω → σ → σ → Prop} [∀ ω s s', Decidable (ok ω s s')]
    {answer : Nat → Ω} {count : Nat} {p q : Program Ω σ α} {s s' : σ}
    (ran : runIf ok answer count p s = some (q, s')) : Reaches ok p s q s' := by
  induction count generalizing q s' with
  | zero =>
      cases ran
      exact .refl
  | succ count ih =>
      simp only [runIf] at ran
      split at ran
      next act next before earlier =>
        rcases Option.bind_eq_some_iff.mp ran with ⟨⟨value, after⟩, acted, same⟩
        split at same
        next meets =>
          cases same
          exact .tail (ih earlier) acted meets
        next => cases same
      next => exact ih ran

/-! ## Complete runs -/

section CompleteRuns

variable {ok}

theorem Reaches.trans {p q : Program Ω σ α} {s s' : σ} {r : Program Ω σ α} {s'' : σ}
    (first : Reaches ok p s q s') (later : Reaches ok q s' r s'') : Reaches ok p s r s'' := by
  induction later with
  | refl => exact first
  | tail before acted meets ih => exact .tail ih acted meets

/-- Steps that meet a condition meet a weaker one. -/
theorem Reaches.mono {ok' : Ω → σ → σ → Prop} {p q : Program Ω σ α} {s s' : σ}
    (reaches : Reaches ok p s q s') (weaker : ∀ ω s s', ok ω s s' → ok' ω s s') :
    Reaches ok' p s q s' := by
  induction reaches with
  | refl => exact .refl
  | tail before acted meets ih => exact .tail ih acted (weaker _ _ _ meets)

/-- A run begins with one step of the program. -/
theorem Reaches.head {γ : Type} {act : Ω → σ → Option (γ × σ)} {next : γ → Program Ω σ α}
    {q : Program Ω σ α} {s s' s'' : σ} {ω : Ω} {value : γ} (acted : act ω s = some (value, s'))
    (meets : ok ω s s') (later : Reaches ok (next value) s' q s'') :
    Reaches ok (.step act next) s q s'' :=
  (Reaches.tail .refl acted meets).trans later

theorem Reaches.of_step {p q : Program Ω σ α} {s s'' : σ} (reaches : Reaches ok p s q s'')
    {γ : Type} {act : Ω → σ → Option (γ × σ)} {next : γ → Program Ω σ α}
    (isStep : p = .step act next) :
    q = p ∧ s'' = s ∨ ∃ ω value s', act ω s = some (value, s') ∧ ok ω s s' ∧
      Reaches ok (next value) s' q s'' := by
  induction reaches with
  | refl => exact .inl ⟨rfl, rfl⟩
  | tail before acted meets ih =>
      right
      rcases ih with ⟨same, rfl⟩ | ⟨ω, value, s', first, meetsFirst, later⟩
      · cases same.trans isStep
        exact ⟨_, _, _, acted, meets, .refl⟩
      · exact ⟨ω, value, s', first, meetsFirst, .tail later acted meets⟩

theorem Reaches.of_done {result : α} {q : Program Ω σ α} {s s' : σ}
    (reaches : Reaches ok (.done result) s q s') : q = .done result ∧ s' = s := by
  generalize isDone : Program.done result = p at reaches
  induction reaches with
  | refl => exact ⟨rfl, rfl⟩
  | tail before acted meets ih =>
      cases ih.1.trans isDone.symm

/-- The complete runs of a program without steps. -/
theorem done_ends_iff {result result' : α} {s s' : σ} :
    Reaches ok (.done result) s (.done result') s' ↔ result' = result ∧ s' = s := by
  constructor
  · intro reaches
    rcases reaches.of_done with ⟨same, sameState⟩
    cases same
    exact ⟨rfl, sameState⟩
  · rintro ⟨rfl, rfl⟩
    exact .refl

/-- The complete runs of a program with a first step. -/
theorem step_ends_iff {γ : Type} {act : Ω → σ → Option (γ × σ)} {next : γ → Program Ω σ α}
    {result : α} {s s'' : σ} :
    Reaches ok (.step act next) s (.done result) s'' ↔
      ∃ ω value s', act ω s = some (value, s') ∧ ok ω s s' ∧
        Reaches ok (next value) s' (.done result) s'' := by
  constructor
  · intro reaches
    rcases reaches.of_step rfl with ⟨same, -⟩ | later
    · cases same
    · exact later
  · rintro ⟨ω, value, s', acted, meets, later⟩
    exact .head acted meets later

/-- The complete runs of a single step. -/
theorem atomic_ends_iff {act : Ω → σ → Option (α × σ)} {result : α} {s s' : σ} :
    Reaches ok (atomic act) s (.done result) s' ↔
      ∃ ω, act ω s = some (result, s') ∧ ok ω s s' := by
  rw [atomic, step_ends_iff]
  constructor
  · rintro ⟨ω, value, s₁, acted, meets, later⟩
    rcases done_ends_iff.mp later with ⟨rfl, rfl⟩
    exact ⟨ω, acted, meets⟩
  · rintro ⟨ω, acted, meets⟩
    exact ⟨ω, result, s', acted, meets, .refl⟩

/-- A complete run of two programs is one of the first and then one of the second; the induction
is on the first. -/
theorem bind_ends_iff {p : Program Ω σ α} {next : α → Program Ω σ β} {result : β} {s s'' : σ} :
    Reaches ok (p >>= next) s (.done result) s'' ↔
      ∃ value s', Reaches ok p s (.done value) s' ∧
        Reaches ok (next value) s' (.done result) s'' := by
  induction p generalizing s with
  | done value =>
      constructor
      · intro reaches
        exact ⟨value, s, .refl, reaches⟩
      · rintro ⟨value', s', first, later⟩
        rcases done_ends_iff.mp first with ⟨rfl, rfl⟩
        exact later
  | step act after ih =>
      rw [step_bind, step_ends_iff]
      constructor
      · rintro ⟨ω, first, s₁, acted, meets, rest⟩
        rcases (ih first).mp rest with ⟨value, s', here, later⟩
        exact ⟨value, s', .head acted meets here, later⟩
      · rintro ⟨value, s', here, later⟩
        rcases step_ends_iff.mp here with ⟨ω, first, s₁, acted, meets, rest⟩
        exact ⟨ω, first, s₁, acted, meets, (ih first).mpr ⟨value, s', rest, later⟩⟩

end CompleteRuns

/-! ## What every step does -/

/-- Every step that meets the condition is a step of `R`, from whichever state. -/
def Every (R : Ω → σ → σ → Prop) : (p : Program Ω σ α) → Prop
  | .done _ => True
  | .step act next => ∀ ω s value s', act ω s = some (value, s') → ok ω s s' →
      R ω s s' ∧ Every R (next value)

section Every

variable {ok} {R : Ω → σ → σ → Prop}

theorem Every.bind {p : Program Ω σ α} {next : α → Program Ω σ β} (first : Every ok R p)
    (rest : ∀ value, Every ok R (next value)) : Every ok R (p >>= next) := by
  induction p with
  | done result => exact rest result
  | step act after ih =>
      intro ω s value s' acted meets
      rcases first ω s value s' acted meets with ⟨kept, later⟩
      exact ⟨kept, ih value later⟩

theorem Every.atomic {act : Ω → σ → Option (α × σ)}
    (keeps : ∀ ω s value s', act ω s = some (value, s') → ok ω s s' → R ω s s') :
    Every ok R (atomic act) :=
  fun ω s value s' acted meets => ⟨keeps ω s value s' acted meets, trivial⟩

theorem Every.mono {R' : Ω → σ → σ → Prop} {p : Program Ω σ α} (every : Every ok R p)
    (weaker : ∀ ω s s', R ω s s' → R' ω s s') : Every ok R' p := by
  induction p with
  | done result => trivial
  | step act next ih =>
      intro ω s value s' acted meets
      rcases every ω s value s' acted meets with ⟨kept, later⟩
      exact ⟨weaker ω s s' kept, ih value later⟩

/-- Fewer steps meet a stronger condition. -/
theorem Every.restrict {ok' : Ω → σ → σ → Prop} {p : Program Ω σ α} (every : Every ok R p)
    (stronger : ∀ ω s s', ok' ω s s' → ok ω s s') : Every ok' R p := by
  induction p with
  | done result => trivial
  | step act next ih =>
      intro ω s value s' acted meets
      rcases every ω s value s' acted (stronger ω s s' meets) with ⟨kept, later⟩
      exact ⟨kept, ih value later⟩

end Every

/-! ## Programs that run alone -/

/-- From `s` on, every state of a run satisfies the invariant `I`, and every result the
postcondition `Q`. -/
def Safe (I : σ → Prop) : (p : Program Ω σ α) → (Q : α → σ → Prop) → σ → Prop
  | .done result, Q, s => I s ∧ Q result s
  | .step act next, Q, s => I s ∧ ∀ ω value s', act ω s = some (value, s') → ok ω s s' →
      Safe I (next value) Q s'

section Safe

variable {ok} {I : σ → Prop} {Q : α → σ → Prop} {s : σ}

theorem Safe.now {p : Program Ω σ α} (safe : Safe ok I p Q s) : I s := by
  cases p with
  | done => exact safe.1
  | step => exact safe.1

theorem Safe.bind {p : Program Ω σ α} {next : α → Program Ω σ β} {Q' : β → σ → Prop}
    (first : Safe ok I p Q s)
    (rest : ∀ value s', Q value s' → I s' → Safe ok I (next value) Q' s') :
    Safe ok I (p >>= next) Q' s := by
  induction p generalizing s with
  | done result => exact rest result s first.2 first.1
  | step act after ih =>
      refine ⟨first.1, ?_⟩
      intro ω value s' acted meets
      exact ih value (first.2 ω value s' acted meets)

theorem Safe.mono {Q' : α → σ → Prop} {p : Program Ω σ α} (safe : Safe ok I p Q s)
    (weaker : ∀ value s', Q value s' → Q' value s') : Safe ok I p Q' s := by
  induction p generalizing s with
  | done result => exact ⟨safe.1, weaker result s safe.2⟩
  | step act next ih =>
      refine ⟨safe.1, ?_⟩
      intro ω value s' acted meets
      exact ih value (safe.2 ω value s' acted meets)

theorem Safe.done {result : α} (inv : I s) (post : Q result s) :
    Safe ok I (.done result) Q s := ⟨inv, post⟩

theorem Safe.atomic {act : Ω → σ → Option (α × σ)} (inv : I s)
    (acts : ∀ ω value s', act ω s = some (value, s') → ok ω s s' → I s' ∧ Q value s') :
    Safe ok I (atomic act) Q s :=
  ⟨inv, fun ω value s' acted meets => acts ω value s' acted meets⟩

/-- A property that every step keeps is an invariant and a postcondition. -/
theorem Every.safe {R : Ω → σ → σ → Prop} {P : σ → Prop} {p : Program Ω σ α}
    (every : Every ok R p) (keeps : ∀ ω s s', P s → ok ω s s' → R ω s s' → P s')
    (implies : ∀ s, P s → I s) (now : P s) : Safe ok I p (fun _ => P) s := by
  induction p generalizing s with
  | done result => exact ⟨implies s now, now⟩
  | step act next ih =>
      refine ⟨implies s now, ?_⟩
      intro ω value s' acted meets
      rcases every ω s value s' acted meets with ⟨kept, later⟩
      exact ih value later (keeps ω s s' now meets kept)

theorem Safe.weaken {I' : σ → Prop} {p : Program Ω σ α} (safe : Safe ok I p Q s)
    (implies : ∀ s, I s → I' s) : Safe ok I' p Q s := by
  induction p generalizing s with
  | done result => exact ⟨implies s safe.1, safe.2⟩
  | step act next ih =>
      refine ⟨implies s safe.1, ?_⟩
      intro ω value s' acted meets
      exact ih value (safe.2 ω value s' acted meets)

/-- A postcondition proved by itself, and an invariant that every step keeps. -/
theorem Safe.keep {R : Ω → σ → σ → Prop} {P : σ → Prop} {p : Program Ω σ α}
    (safe : Safe ok I p Q s) (every : Every ok R p)
    (keeps : ∀ ω s s', P s → R ω s s' → P s') (now : P s) :
    Safe ok (fun s => I s ∧ P s) p (fun value s => Q value s ∧ P s) s := by
  induction p generalizing s with
  | done result => exact ⟨⟨safe.1, now⟩, safe.2, now⟩
  | step act next ih =>
      refine ⟨⟨safe.1, now⟩, ?_⟩
      intro ω value s' acted meets
      rcases every ω s value s' acted meets with ⟨kept, later⟩
      exact ih value (safe.2 ω value s' acted meets) later (keeps ω s s' now kept)

/-- Fewer runs meet a stronger condition. -/
theorem Safe.restrict {ok' : Ω → σ → σ → Prop} {p : Program Ω σ α} (safe : Safe ok I p Q s)
    (stronger : ∀ ω s s', ok' ω s s' → ok ω s s') : Safe ok' I p Q s := by
  induction p generalizing s with
  | done result => exact safe
  | step act next ih =>
      refine ⟨safe.1, ?_⟩
      intro ω value s' acted meets
      exact ih value (safe.2 ω value s' acted (stronger ω s s' meets))

/-- The invariant holds in every state reached, and the postcondition of every result. -/
theorem Safe.reaches {p q : Program Ω σ α} {s' : σ} (safe : Safe ok I p Q s)
    (reaches : Reaches ok p s q s') : Safe ok I q Q s' := by
  induction reaches with
  | refl => exact safe
  | tail before acted meets ih => exact ih.2 _ _ _ acted meets

theorem Safe.invariant {p q : Program Ω σ α} {s' : σ} (safe : Safe ok I p Q s)
    (reaches : Reaches ok p s q s') : I s' := (safe.reaches reaches).now

theorem Safe.result {p : Program Ω σ α} {result : α} {s' : σ} (safe : Safe ok I p Q s)
    (reaches : Reaches ok p s (.done result) s') : Q result s' := (safe.reaches reaches).2

end Safe

/-! ## Assertions -/

/-- From every state of which `P` is true the program keeps the invariant, and every result
satisfies the postcondition. -/
def Triple (I P : σ → Prop) (p : Program Ω σ α) (Q : α → σ → Prop) : Prop :=
  ∀ s, P s → Safe ok I p Q s

section Triple

variable {ok} {I P P' : σ → Prop} {Q Q' : α → σ → Prop} {p : Program Ω σ α}

theorem Triple.bind {next : α → Program Ω σ β} {R : β → σ → Prop} (first : Triple ok I P p Q)
    (rest : ∀ value, Triple ok I (Q value) (next value) R) : Triple ok I P (p >>= next) R :=
  fun s now => (first s now).bind fun value s' post _ => rest value s' post

theorem Triple.pre (triple : Triple ok I P p Q) (stronger : ∀ s, P' s → P s) :
    Triple ok I P' p Q :=
  fun s now => triple s (stronger s now)

theorem Triple.post (triple : Triple ok I P p Q) (weaker : ∀ value s, Q value s → Q' value s) :
    Triple ok I P p Q' :=
  fun s now => (triple s now).mono weaker

theorem Triple.done {result : α} (implies : ∀ s, P s → I s) (post : ∀ s, P s → Q result s) :
    Triple ok I P (.done result) Q :=
  fun s now => .done (implies s now) (post s now)

theorem Triple.atomic {act : Ω → σ → Option (α × σ)} (implies : ∀ s, P s → I s)
    (acts : ∀ ω s value s', P s → act ω s = some (value, s') → ok ω s s' →
      I s' ∧ Q value s') : Triple ok I P (atomic act) Q :=
  fun s now => .atomic (implies s now) fun ω value s' acted meets =>
    acts ω s value s' now acted meets

/-- What holds whatever the state is may be assumed. -/
theorem Triple.given {fact : Prop} (triple : fact → Triple ok I P p Q) :
    Triple ok I (fun s => fact ∧ P s) p Q :=
  fun s now => triple now.1 s now.2

theorem Triple.exists {ι : Type} {P : ι → σ → Prop} (triple : ∀ i, Triple ok I (P i) p Q) :
    Triple ok I (fun s => ∃ i, P i s) p Q :=
  fun s now => now.elim fun i now => triple i s now

/-- An assertion that no step spoils. -/
theorem Every.triple {R : Ω → σ → σ → Prop} (every : Every ok R p)
    (keeps : ∀ ω s s', R ω s s' → P s → P s') (implies : ∀ s, P s → I s) :
    Triple ok I P p fun _ => P :=
  fun _ now => every.safe (fun ω s s' before _ step => keeps ω s s' step before) implies now

end Triple

end Program

end Stepwise
