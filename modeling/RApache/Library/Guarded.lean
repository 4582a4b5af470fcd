import RApache.Library.Threads

/-!
# A resource that a mutex guards

Workers share a state, and a part of it belongs to whoever holds the mutex.  If nobody is
inside, the resource is at rest; the worker inside knows the stage it is in.  Without a mutex
at most one worker runs.
-/

namespace Stepwise

namespace Program

/-- Where a worker is: it never runs, it is outside, or inside at some stage. -/
inductive Place (S : Type) where
  | absent
  | outside
  | inside (stage : S)

/-- A mutex, what holds of the resource at rest and at each stage, and what a worker may do
outside.  The mutex may be missing. -/
structure Guard (Ω σ W S : Type) where
  mutex : σ → Option (Option W)
  rest : σ → Prop
  holds : W → S → σ → Prop
  outside : W → Ω → σ → σ → Prop

namespace Guard

variable {Ω σ W S α : Type} (guard : Guard Ω σ W S)

/-- Nobody holds the mutex. -/
def Free (s : σ) : Prop := ∀ worker, guard.mutex s ≠ some (some worker)

/-- The worker holds the mutex, if there is one. -/
def HeldBy (worker : W) (s : σ) : Prop :=
  guard.mutex s = none ∨ guard.mutex s = some (some worker)

/-- Steps outside leave the mutex and the resource alone. -/
structure Lawful : Prop where
  mutex : ∀ {worker ω s s'}, guard.outside worker ω s s' → guard.mutex s' = guard.mutex s
  rest : ∀ {worker ω s s'}, guard.outside worker ω s s' → guard.rest s → guard.rest s'
  holds : ∀ {worker other stage ω s s'}, guard.outside worker ω s s' → other ≠ worker →
    guard.holds other stage s → guard.holds other stage s'

/-- The protocol of a worker. -/
def protocol (worker : W) : Protocol Ω σ (Place S) where
  relies place s :=
    match place with
    | .absent => True
    | .outside => guard.Free s → guard.rest s
    | .inside stage => guard.HeldBy worker s ∧ guard.holds worker stage s
  moves place ω s s' place' :=
    match place, place' with
    | .outside, .outside => guard.outside worker ω s s'
    | .outside, .inside stage =>
        guard.Free s ∧ guard.mutex s' = (guard.mutex s).map (fun _ => some worker) ∧
          guard.holds worker stage s'
    | .inside _, .inside stage =>
        guard.mutex s' = guard.mutex s ∧ guard.holds worker stage s'
    | .inside _, .outside =>
        guard.mutex s' = (guard.mutex s).map (fun _ => none) ∧ guard.rest s'
    | _, _ => False

/-- At most one worker is inside, and what is known of the resource holds. -/
structure Agrees (places : W → Place S) (s : σ) : Prop where
  single : guard.mutex s = none →
    ∀ j k, places j ≠ .absent → places k ≠ .absent → j = k
  resource : (guard.Free s ∧ guard.rest s ∧ ∀ j stage, places j ≠ .inside stage) ∨
    ∃ j stage, places j = .inside stage ∧ guard.HeldBy j s ∧ guard.holds j stage s ∧
      ∀ k stage', places k = .inside stage' → k = j

variable {guard}

/-- The worker inside is the one that the agreement speaks of. -/
theorem Agrees.inside {places : W → Place S} {s : σ} {worker : W} {stage : S}
    (agrees : guard.Agrees places s) (isInside : places worker = .inside stage) :
    guard.HeldBy worker s ∧ guard.holds worker stage s ∧
      ∀ k stage', places k = .inside stage' → k = worker := by
  rcases agrees.resource with ⟨-, -, nobody⟩ | ⟨j, stage', isStage, held, holds, only⟩
  · exact (nobody worker stage isInside).elim
  · have same := only worker stage isInside
    subst same
    rw [isInside] at isStage
    cases isStage
    exact ⟨held, holds, only⟩

/-- Nobody is inside while the mutex is free and some other worker could enter. -/
theorem Agrees.free {places : W → Place S} {s : σ} {worker : W}
    (agrees : guard.Agrees places s) (isOutside : places worker = .outside)
    (free : guard.Free s) : guard.rest s ∧ ∀ j stage, places j ≠ .inside stage := by
  rcases agrees.resource with ⟨-, rest, nobody⟩ | ⟨j, stage, isStage, held, -, -⟩
  · exact ⟨rest, nobody⟩
  · rcases held with missing | held
    · have same := agrees.single missing j worker (by simp [isStage]) (by simp [isOutside])
      rw [same, isOutside] at isStage
      cases isStage
    · exact (free j held).elim

variable [DecidableEq W]

/-- A step after which nobody else is inside or comes to be absent or present. -/
theorem update_single {places : W → Place S} {worker : W} {place : Place S}
    (single : ∀ j k, places j ≠ .absent → places k ≠ .absent → j = k)
    (present : places worker ≠ .absent) :
    ∀ j k, Function.update places worker place j ≠ .absent →
      Function.update places worker place k ≠ .absent → j = k := by
  have before (j : W) (later : Function.update places worker place j ≠ .absent) :
      places j ≠ .absent := by
    by_cases same : j = worker
    · rw [same]
      exact present
    · rw [Function.update_of_ne same] at later
      exact later
  intro j k isJ isK
  exact single j k (before j isJ) (before k isK)

/-- The steps of the protocol keep the agreement. -/
theorem agreement {ok : Ω → σ → σ → Prop} (lawful : guard.Lawful) :
    Agreement ok guard.protocol guard.Agrees where
  relies := by
    intro places s agrees worker
    cases isPlace : places worker with
    | absent => trivial
    | outside => exact fun free => (agrees.free isPlace free).1
    | inside stage => exact ⟨(agrees.inside isPlace).1, (agrees.inside isPlace).2.1⟩
  moves := by
    intro places s ω s' worker place' agrees _ moves
    have present (mutex : guard.mutex s' = none → guard.mutex s = none)
        (here : places worker ≠ .absent) : guard.mutex s' = none →
          ∀ j k, Function.update places worker place' j ≠ .absent →
            Function.update places worker place' k ≠ .absent → j = k :=
      fun missing => update_single (agrees.single (mutex missing)) here
    cases isPlace : places worker with
    | absent => simp [protocol, isPlace] at moves
    | outside =>
        cases place' with
        | absent => simp [protocol, isPlace] at moves
        | outside =>
            simp only [protocol, isPlace] at moves
            have sameMutex := lawful.mutex moves
            have samePlaces : Function.update places worker .outside = places := by
              rw [← isPlace]
              exact Function.update_eq_self worker places
            rw [samePlaces]
            refine ⟨fun missing => agrees.single (sameMutex ▸ missing), ?_⟩
            rcases agrees.resource with
              ⟨free, rest, nobody⟩ | ⟨j, stage, isStage, held, holds, only⟩
            · exact .inl ⟨fun k => sameMutex ▸ free k, lawful.rest moves rest, nobody⟩
            · refine .inr ⟨j, stage, isStage, ?_, lawful.holds moves ?_ holds, only⟩
              · rw [HeldBy, sameMutex]
                exact held
              · rintro rfl
                rw [isPlace] at isStage
                cases isStage
        | inside stage =>
            simp only [protocol, isPlace] at moves
            rcases moves with ⟨free, mutex, holds⟩
            rcases agrees.free isPlace free with ⟨-, nobody⟩
            refine ⟨present ?_ (by simp [isPlace]), .inr ⟨worker, stage, by simp, ?_, holds, ?_⟩⟩
            · intro missing
              rw [mutex] at missing
              exact Option.map_eq_none_iff.mp missing
            · rw [HeldBy, mutex]
              cases guard.mutex s with
              | none => exact .inl rfl
              | some holder => exact .inr rfl
            · intro k stage' isInside
              by_cases same : k = worker
              · exact same
              · rw [Function.update_of_ne same] at isInside
                exact (nobody k stage' isInside).elim
    | inside stage =>
        rcases agrees.inside isPlace with ⟨held, -, only⟩
        cases place' with
        | absent => simp [protocol, isPlace] at moves
        | outside =>
            simp only [protocol, isPlace] at moves
            rcases moves with ⟨mutex, rest⟩
            refine ⟨present ?_ (by simp [isPlace]), .inl ⟨?_, rest, ?_⟩⟩
            · intro missing
              rw [mutex] at missing
              exact Option.map_eq_none_iff.mp missing
            · intro k
              rw [mutex]
              cases guard.mutex s with
              | none => simp
              | some holder => simp
            · intro k stage' isInside
              by_cases same : k = worker
              · rw [same, Function.update_self] at isInside
                cases isInside
              · rw [Function.update_of_ne same] at isInside
                exact same (only k stage' isInside)
        | inside stage' =>
            simp only [protocol, isPlace] at moves
            rcases moves with ⟨mutex, holds⟩
            refine ⟨present ?_ (by simp [isPlace]), .inr ⟨worker, stage', by simp, ?_, holds, ?_⟩⟩
            · intro missing
              rw [mutex] at missing
              exact missing
            · rw [HeldBy, mutex]
              exact held
            · intro k stage'' isInside
              by_cases same : k = worker
              · exact same
              · rw [Function.update_of_ne same] at isInside
                exact only k stage'' isInside

/-- In every state that a pool reaches whose workers follow the protocol, the resource is at
rest or one worker is inside and its stage holds. -/
theorem reaches {ok : Ω → σ → σ → Prop} (lawful : guard.Lawful) {pool pool' : W → Program Ω σ α}
    {s s' : σ} {places : W → Place S} {Q : W → α → Place S → Prop}
    (begins : guard.Agrees places s)
    (follows : ∀ worker, Follows ok (guard.protocol worker) (pool worker) (Q worker) (places worker))
    (reached : PoolReaches ok pool s pool' s') :
    ∃ places', guard.Agrees places' s' ∧
      ∀ worker, Follows ok (guard.protocol worker) (pool' worker) (Q worker) (places' worker) :=
  (agreement lawful).reaches begins follows reached

end Guard

end Program

end Stepwise
