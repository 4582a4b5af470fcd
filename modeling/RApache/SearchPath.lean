import RApache.Library.ParentChain
import RApache.Text
import Mathlib.Logic.Relation

/-!
# The search path of R

The parents of the global environment up to the base environment are R's search path.  Users
attach and detach environments, and `RefreshRApacheEnv` puts the rapache environment back before a
request is handled.
-/

namespace RApache

open Linked

/-- The environments in the variables of R and of the module. -/
structure Environments (ε : Type) where
  globalEnv : ε
  baseEnv : ε
  rapacheEnv : ε
  global_ne_base : globalEnv ≠ baseEnv
  rapache_ne_global : rapacheEnv ≠ globalEnv
  rapache_ne_base : rapacheEnv ≠ baseEnv

/-- How `RefreshRApacheEnv` ends: it returns, or the process exits with a message. -/
inductive RefreshEnding where
  | returned
  | exited (message : Bytes)
  deriving DecidableEq, Repr

namespace Environments

variable {ε : Type} [DecidableEq ε] (envs : Environments ε)

/-! ## `RefreshRApacheEnv` -/

/-- The loop that sets `envFound`. -/
def envFound (parent : ε → ε) : (fuel : Nat) → (t : ε) → Option Bool
  | 0, _ => none
  | fuel + 1, t =>
      if t = envs.baseEnv then some false
      else if t = envs.rapacheEnv then some true
      else envFound parent fuel (parent t)

/-- The loop that ends at the environment right before the base environment. -/
def beforeBase (parent : ε → ε) : (fuel : Nat) → (t : ε) → Option ε
  | 0, _ => none
  | fuel + 1, t =>
      if parent t = envs.baseEnv then some t else beforeBase parent fuel (parent t)

/-- The call of `.ResetCGIVars()`, which leaves the search path alone. -/
def resetCGIVars (evalError : Bool) : RefreshEnding :=
  if evalError then .exited (bytes "Internal Error! Error resetting CGI vars!\n\n")
  else .returned

/-- `RefreshRApacheEnv`.  There is nothing if a loop does not end with this fuel. -/
def refreshRApacheEnv (fuel : Nat) (evalError : Bool) (parent : ε → ε) :
    Option (RefreshEnding × (ε → ε)) :=
  (envs.envFound parent fuel (parent envs.globalEnv)).bind fun envFound =>
    if envFound then some (resetCGIVars evalError, parent)
    else
      (envs.beforeBase parent fuel envs.globalEnv).map fun t =>
        if parent t = envs.baseEnv then
          (resetCGIVars evalError, Function.update parent t envs.rapacheEnv)
        else (.exited (bytes "Internal Error! Error reattaching rapache environment!\n\n"), parent)

/-! ## `attach` and `detach` -/

/-- R's `attach` of a new environment behind one of the search path. -/
def attach (before new : ε) (parent : ε → ε) : ε → ε :=
  Function.update (Function.update parent new (parent before)) before new

/-- R's `detach` of the environment behind one of the search path, which gets the base environment
as its parent. -/
def detach (before : ε) (parent : ε → ε) : ε → ε :=
  Function.update (Function.update parent before (parent (parent before))) (parent before)
    envs.baseEnv

/-- `InitRApacheEnv`, as far as it attaches the rapache environment: at the position
`length(search())`, which is that of the base environment. -/
def initRApacheEnv (fuel : Nat) (parent : ε → ε) : Option (ε → ε) :=
  (envs.beforeBase parent fuel envs.globalEnv).map fun t => attach t envs.rapacheEnv parent

/-- The search path, from the global environment to the base environment.  The rapache environment
is on it or was detached from it. -/
structure SearchPath (parent : ε → ε) (path : List ε) : Prop where
  ends : Path parent envs.baseEnv envs.globalEnv path
  rapache : envs.rapacheEnv ∈ path ∨ parent envs.rapacheEnv = envs.baseEnv

/-- One step of the user, or a request that begins. -/
inductive PathStep : (ε → ε) → (ε → ε) → Prop where
  | attach {parent : ε → ε} {path : List ε} {before new : ε}
      (current : Path parent envs.baseEnv envs.globalEnv path) (onPath : before ∈ path)
      (notBase : before ≠ envs.baseEnv) (fresh : new ∉ path) (notRApache : new ≠ envs.rapacheEnv) :
      PathStep parent (attach before new parent)
  | detach {parent : ε → ε} {path : List ε} {before : ε}
      (current : Path parent envs.baseEnv envs.globalEnv path) (onPath : before ∈ path)
      (notBase : before ≠ envs.baseEnv) (notLast : parent before ≠ envs.baseEnv) :
      PathStep parent (envs.detach before parent)
  | refresh {parent parent' : ε → ε} (fuel : Nat)
      (returned : envs.refreshRApacheEnv fuel false parent = some (.returned, parent')) :
      PathStep parent parent'

/-! ## The loops -/

variable {envs} {parent parent' : ε → ε} {path : List ε} {t : ε}

theorem envFound_eq {fuel : Nat} (ends : Path parent envs.baseEnv t path)
    (enough : path.length ≤ fuel) :
    envs.envFound parent fuel t = some (decide (envs.rapacheEnv ∈ path)) := by
  induction ends generalizing fuel with
  | last =>
      obtain ⟨fuel, rfl⟩ := Nat.exists_eq_add_of_lt (Nat.lt_of_lt_of_le Nat.zero_lt_one enough)
      simp [envFound, envs.rapache_ne_base]
  | @step t path notLast ends ih =>
      cases fuel with
      | zero => simp at enough
      | succ fuel =>
          rw [envFound, if_neg notLast]
          by_cases isRApache : t = envs.rapacheEnv
          · simp [isRApache]
          · have notHead : envs.rapacheEnv ≠ t := Ne.symm isRApache
            rw [if_neg isRApache, ih (Nat.le_of_succ_le_succ enough)]
            simp [notHead]

theorem beforeBase_eq {fuel : Nat} (ends : Path parent envs.baseEnv t path)
    (notBase : t ≠ envs.baseEnv) (enough : path.length ≤ fuel) :
    ∃ front last, path = front ++ [last, envs.baseEnv] ∧ parent last = envs.baseEnv ∧
      envs.beforeBase parent fuel t = some last := by
  induction ends generalizing fuel with
  | last => exact (notBase rfl).elim
  | @step t path _ ends ih =>
      cases fuel with
      | zero => simp at enough
      | succ fuel =>
          rw [beforeBase]
          by_cases parentIsBase : parent t = envs.baseEnv
          · rw [if_pos parentIsBase]
            rw [parentIsBase] at ends
            exact ⟨[], t, by rw [ends.unique .last]; rfl, parentIsBase, rfl⟩
          · rw [if_neg parentIsBase]
            rcases ih parentIsBase (Nat.le_of_succ_le_succ enough) with
              ⟨front, last, rfl, isLast, found⟩
            exact ⟨t :: front, last, rfl, isLast, found⟩

namespace SearchPath

omit [DecidableEq ε] in
theorem mem_tail_iff (search : envs.SearchPath parent path) :
    envs.rapacheEnv ∈ path.tail ↔ envs.rapacheEnv ∈ path := by
  rw [search.ends.eq_cons, List.tail_cons, List.mem_cons, or_iff_right envs.rapache_ne_global]

omit [DecidableEq ε] in
theorem tail_ends (search : envs.SearchPath parent path) :
    Path parent envs.baseEnv (parent envs.globalEnv) path.tail :=
  search.ends.tail envs.global_ne_base

end SearchPath

/-- The rapache environment occurs once on the search path, which still ends with the base
environment and has all others in their order. -/
structure Refreshed (envs : Environments ε) (path : List ε) (parent' : ε → ε) (path' : List ε) :
    Prop where
  search : envs.SearchPath parent' path'
  once : path'.count envs.rapacheEnv = 1
  others : path'.filter (fun env => decide (env ≠ envs.rapacheEnv)) =
    path.filter fun env => decide (env ≠ envs.rapacheEnv)
  baseLast : path'.getLast? = some envs.baseEnv

omit [DecidableEq ε] in
theorem last_ne_base {front : List ε} {last : ε}
    (ends : Path parent envs.baseEnv t (front ++ [last, envs.baseEnv])) :
    last ≠ envs.baseEnv := by
  rintro rfl
  have once := ends.nodup
  simp [List.nodup_append] at once

/-- A child begins with the rapache environment right before the base environment. -/
theorem initRApacheEnv_searchPath {fuel : Nat}
    (ends : Path parent envs.baseEnv envs.globalEnv path) (fresh : envs.rapacheEnv ∉ path)
    (enough : path.length ≤ fuel) :
    ∃ parent' path', envs.initRApacheEnv fuel parent = some parent' ∧
      Refreshed envs path parent' path' := by
  rcases beforeBase_eq ends envs.global_ne_base enough with ⟨front, last, rfl, -, found⟩
  have attached := ends.insert (last_ne_base ends) fresh
  have member : envs.rapacheEnv ∈ front ++ [last, envs.rapacheEnv, envs.baseEnv] := by simp
  refine ⟨attach last envs.rapacheEnv parent, _, by rw [initRApacheEnv, found, Option.map_some],
    ⟨⟨attached, .inl member⟩, ?_, ?_, attached.getLast?_eq⟩⟩
  · exact List.count_eq_one_of_mem attached.nodup member
  · simp [List.filter_append, List.filter_cons]

theorem refreshRApacheEnv_found {fuel : Nat} (search : envs.SearchPath parent path)
    (found : envs.rapacheEnv ∈ path) (enough : path.length ≤ fuel) (evalError : Bool) :
    envs.refreshRApacheEnv fuel evalError parent = some (resetCGIVars evalError, parent) := by
  have enoughTail : path.tail.length ≤ fuel := by
    rw [List.length_tail]
    omega
  have isFound := envFound_eq search.tail_ends enoughTail
  rw [refreshRApacheEnv, isFound, Option.bind_some, decide_eq_true (search.mem_tail_iff.mpr found)]
  rfl

/-- The relinking puts the rapache environment right before the base environment: a detached one
has the base environment as its parent already. -/
theorem refreshRApacheEnv_missing {fuel : Nat} (search : envs.SearchPath parent path)
    (missing : envs.rapacheEnv ∉ path) (enough : path.length ≤ fuel) (evalError : Bool) :
    ∃ front last parent', path = front ++ [last, envs.baseEnv] ∧
      envs.refreshRApacheEnv fuel evalError parent = some (resetCGIVars evalError, parent') ∧
      Path parent' envs.baseEnv envs.globalEnv (front ++ [last, envs.rapacheEnv, envs.baseEnv]) := by
  have enoughTail : path.tail.length ≤ fuel := by
    rw [List.length_tail]
    omega
  have notFound := envFound_eq search.tail_ends enoughTail
  rw [decide_eq_false (fun found => missing (search.mem_tail_iff.mp found))] at notFound
  rcases beforeBase_eq search.ends envs.global_ne_base enough with
    ⟨front, last, rfl, parentIsBase, found⟩
  refine ⟨front, last, Function.update parent last envs.rapacheEnv, rfl, ?_, ?_⟩
  · rw [refreshRApacheEnv, notFound, Option.bind_some, found]
    simp [parentIsBase]
  · have detached := search.rapache.resolve_left missing
    have inserted := search.ends.insert (last_ne_base search.ends) missing
    rwa [parentIsBase, ← detached, Function.update_eq_self, detached] at inserted

theorem refreshRApacheEnv_refreshed {fuel : Nat} (search : envs.SearchPath parent path)
    (enough : path.length ≤ fuel) (evalError : Bool) :
    ∃ parent' path',
      envs.refreshRApacheEnv fuel evalError parent = some (resetCGIVars evalError, parent') ∧
      Refreshed envs path parent' path' ∧
      (envs.rapacheEnv ∈ path → parent' = parent ∧ path' = path) := by
  by_cases found : envs.rapacheEnv ∈ path
  · refine ⟨parent, path, refreshRApacheEnv_found search found enough evalError, ?_, fun _ =>
      ⟨rfl, rfl⟩⟩
    exact ⟨search, List.count_eq_one_of_mem search.ends.nodup found, rfl, search.ends.getLast?_eq⟩
  · rcases refreshRApacheEnv_missing search found enough evalError with
      ⟨front, last, parent', rfl, returned, ends⟩
    have member : envs.rapacheEnv ∈ front ++ [last, envs.rapacheEnv, envs.baseEnv] := by simp
    refine ⟨parent', _, returned, ⟨⟨ends, .inl member⟩, ?_, ?_, ends.getLast?_eq⟩, fun isFound =>
      (found isFound).elim⟩
    · exact List.count_eq_one_of_mem ends.nodup member
    · simp [List.filter_append, List.filter_cons]

/-! ## Runs of a session -/

theorem envFound_more {fuel : Nat} {found : Bool}
    (ended : envs.envFound parent fuel t = some found) (more : Nat) :
    envs.envFound parent (fuel + more) t = some found := by
  induction fuel generalizing t with
  | zero => cases ended
  | succ fuel ih =>
      rw [envFound] at ended
      rw [Nat.succ_add_eq_add_succ, Nat.add_succ, envFound]
      split at ended
      next isBase => rwa [if_pos isBase]
      next notBase =>
        rw [if_neg notBase]
        split at ended
        next isRApache => rwa [if_pos isRApache]
        next notRApache =>
          rw [if_neg notRApache]
          exact ih ended

theorem beforeBase_more {fuel : Nat} {last : ε}
    (ended : envs.beforeBase parent fuel t = some last) (more : Nat) :
    envs.beforeBase parent (fuel + more) t = some last := by
  induction fuel generalizing t with
  | zero => cases ended
  | succ fuel ih =>
      rw [beforeBase] at ended
      rw [Nat.succ_add_eq_add_succ, Nat.add_succ, beforeBase]
      split at ended
      next parentIsBase => rwa [if_pos parentIsBase]
      next parentNotBase =>
        rw [if_neg parentNotBase]
        exact ih ended

/-- More fuel does not change how `RefreshRApacheEnv` ends. -/
theorem refreshRApacheEnv_more {fuel : Nat} {evalError : Bool} {ended : RefreshEnding × (ε → ε)}
    (returned : envs.refreshRApacheEnv fuel evalError parent = some ended) (more : Nat) :
    envs.refreshRApacheEnv (fuel + more) evalError parent = some ended := by
  rcases Option.bind_eq_some_iff.mp returned with ⟨found, isFound, relinked⟩
  rw [refreshRApacheEnv, envFound_more isFound, Option.bind_some]
  cases found with
  | true => exact relinked
  | false =>
      rcases Option.map_eq_some_iff.mp relinked with ⟨last, isLast, same⟩
      simp only [Bool.false_eq_true, if_false, beforeBase_more isLast, Option.map_some, same]

/-- However much fuel `RefreshRApacheEnv` needs, it leaves the rapache environment once on the
search path. -/
theorem refreshed_of_ended {fuel : Nat} {evalError : Bool} {ended : RefreshEnding × (ε → ε)}
    (search : envs.SearchPath parent path)
    (returned : envs.refreshRApacheEnv fuel evalError parent = some ended) :
    ∃ path', Refreshed envs path ended.2 path' := by
  have enough : path.length ≤ fuel + path.length := Nat.le_add_left _ _
  rcases refreshRApacheEnv_refreshed search enough evalError with
    ⟨parent', path', later, refreshed, -⟩
  rw [refreshRApacheEnv_more returned] at later
  cases later
  exact ⟨path', refreshed⟩

namespace SearchPath

theorem attach {before new : ε} (search : envs.SearchPath parent path) (onPath : before ∈ path)
    (notBase : before ≠ envs.baseEnv) (fresh : new ∉ path) (notRApache : new ≠ envs.rapacheEnv) :
    ∃ path', envs.SearchPath (attach before new parent) path' := by
  obtain ⟨front, back, rfl⟩ := List.append_of_mem onPath
  refine ⟨_, search.ends.insert notBase fresh, ?_⟩
  by_cases found : envs.rapacheEnv ∈ front ++ before :: back
  · left
    simp only [List.mem_append, List.mem_cons] at found ⊢
    tauto
  · right
    have notBefore : envs.rapacheEnv ≠ before := fun same => found (same ▸ onPath)
    rw [Environments.attach, Function.update_of_ne notBefore,
      Function.update_of_ne notRApache.symm]
    exact search.rapache.resolve_left found

theorem detach {before : ε} (search : envs.SearchPath parent path) (onPath : before ∈ path)
    (notBase : before ≠ envs.baseEnv) (notLast : parent before ≠ envs.baseEnv) :
    ∃ path', envs.SearchPath (envs.detach before parent) path' := by
  obtain ⟨front, back, rfl⟩ := List.append_of_mem onPath
  have behind := search.ends.rest.tail notBase
  rw [List.tail_cons] at behind
  obtain ⟨back, rfl⟩ : ∃ rest, back = parent before :: rest := ⟨_, behind.eq_cons⟩
  refine ⟨_, search.ends.remove envs.baseEnv notLast, ?_⟩
  by_cases isGone : envs.rapacheEnv = parent before
  · right
    rw [Environments.detach, isGone, Function.update_self]
  · rw [Environments.detach, Function.update_of_ne isGone]
    by_cases found : envs.rapacheEnv ∈ front ++ before :: parent before :: back
    · left
      simp only [List.mem_append, List.mem_cons] at found ⊢
      tauto
    · right
      have notBefore : envs.rapacheEnv ≠ before := fun same => found (same ▸ onPath)
      rw [Function.update_of_ne notBefore]
      exact search.rapache.resolve_left found

theorem step (search : envs.SearchPath parent path) (stepped : envs.PathStep parent parent') :
    ∃ path', envs.SearchPath parent' path' := by
  cases stepped with
  | attach current onPath notBase fresh notRApache =>
      rw [current.unique search.ends] at onPath fresh
      exact search.attach onPath notBase fresh notRApache
  | detach current onPath notBase notLast =>
      rw [current.unique search.ends] at onPath
      exact search.detach onPath notBase notLast
  | refresh fuel returned =>
      rcases refreshed_of_ended search returned with ⟨path', refreshed⟩
      exact ⟨path', refreshed.search⟩

theorem run (search : envs.SearchPath parent path)
    (ran : Relation.ReflTransGen envs.PathStep parent parent') :
    ∃ path', envs.SearchPath parent' path' := by
  induction ran with
  | refl => exact ⟨path, search⟩
  | tail _ stepped ih =>
      rcases ih with ⟨path', search'⟩
      exact search'.step stepped

end SearchPath

/-- From every search path `RefreshRApacheEnv` ends, and puts the rapache environment once on it
without another change; after any run of attaches, detaches and requests it does so again. -/
theorem refreshRApacheEnv_keeps_one_rapache {ε : Type} [DecidableEq ε] (envs : Environments ε)
    {parent : ε → ε} {path : List ε} (search : envs.SearchPath parent path) :
    (∀ fuel evalError, path.length ≤ fuel → ∃ parent' path',
      envs.refreshRApacheEnv fuel evalError parent = some (resetCGIVars evalError, parent') ∧
      Refreshed envs path parent' path' ∧
      (envs.rapacheEnv ∈ path → parent' = parent ∧ path' = path)) ∧
    ∀ parent', Relation.ReflTransGen envs.PathStep parent parent' →
      ∃ path', envs.SearchPath parent' path' ∧ path'.count envs.rapacheEnv ≤ 1 ∧
        ∀ fuel evalError ended, envs.refreshRApacheEnv fuel evalError parent' = some ended →
          ∃ path'', Refreshed envs path' ended.2 path'' := by
  refine ⟨fun fuel evalError enough => refreshRApacheEnv_refreshed search enough evalError,
    fun parent' ran => ?_⟩
  rcases search.run ran with ⟨path', search'⟩
  exact ⟨path', search', List.nodup_iff_count_le_one.mp search'.ends.nodup _,
    fun _ _ _ ended => refreshed_of_ended search' ended⟩

/-- One attached environment; the rapache environment was detached. -/
def detachedEnvironments : Environments (Fin 4) where
  globalEnv := 0
  baseEnv := 1
  rapacheEnv := 2
  global_ne_base := by decide
  rapache_ne_global := by decide
  rapache_ne_base := by decide

/-- Their parents. -/
def detachedParent : Fin 4 → Fin 4 := fun env => if env = 0 then 3 else 1

theorem refreshRApacheEnv_reattaches : ∃ parent' path',
    detachedEnvironments.refreshRApacheEnv 3 false detachedParent =
      some (resetCGIVars false, parent') ∧
    Refreshed detachedEnvironments [0, 3, 1] parent' path' := by
  have search : detachedEnvironments.SearchPath detachedParent [0, 3, 1] :=
    ⟨.step (by decide) (.step (by decide) .last), .inr rfl⟩
  rcases (refreshRApacheEnv_keeps_one_rapache detachedEnvironments search).1 3 false (by decide)
    with ⟨parent', path', returned, refreshed, -⟩
  exact ⟨parent', path', returned, refreshed⟩

end Environments

end RApache
