import Mathlib.Data.List.Nodup
import Mathlib.Logic.Function.Basic

/-!
# Chains of parents

Every node has a parent.  A path follows the parents from a node up to a last one.  It is
unique and names no node twice, and it depends only on the parents of its own nodes, so that
changing two parents puts one node into a path or takes one out.
-/

namespace Linked

variable {ε : Type}

/-- The nodes from one node along the parents, up to the first `last`. -/
inductive Path (parent : ε → ε) (last : ε) : ε → List ε → Prop where
  | last : Path parent last last [last]
  | step {node : ε} {nodes : List ε} (notLast : node ≠ last)
      (path : Path parent last (parent node) nodes) : Path parent last node (node :: nodes)

namespace Path

variable {parent parent' : ε → ε} {last node : ε} {nodes nodes' : List ε}

theorem unique (path : Path parent last node nodes) (path' : Path parent last node nodes') :
    nodes = nodes' := by
  induction path generalizing nodes' with
  | last =>
      cases path' with
      | last => rfl
      | step notLast => exact (notLast rfl).elim
  | step notLast _ ih =>
      cases path' with
      | last => exact (notLast rfl).elim
      | step _ path' => rw [ih path']

theorem eq_cons (path : Path parent last node nodes) : nodes = node :: nodes.tail := by
  cases path with
  | last => rfl
  | step => rfl

theorem tail (path : Path parent last node nodes) (notLast : node ≠ last) :
    Path parent last (parent node) nodes.tail := by
  cases path with
  | last => exact (notLast rfl).elim
  | step _ path => exact path

theorem last_mem (path : Path parent last node nodes) : last ∈ nodes := by
  induction path with
  | last => exact List.mem_singleton_self _
  | step _ _ ih => exact List.mem_cons_of_mem _ ih

theorem getLast?_eq (path : Path parent last node nodes) : nodes.getLast? = some last := by
  induction path with
  | last => rfl
  | step _ path ih =>
      rw [List.getLast?_cons, ih]
      rfl

/-- From each of its nodes a path goes on as the rest of it. -/
theorem rest {front back : List ε} {middle : ε}
    (path : Path parent last node (front ++ middle :: back)) :
    Path parent last middle (middle :: back) := by
  induction front generalizing node with
  | nil =>
      cases path with
      | last => exact .last
      | step notLast path => exact .step notLast path
  | cons first front ih =>
      rw [List.cons_append] at path
      generalize isRest : front ++ middle :: back = nodes at path
      cases path with
      | last => simp at isRest
      | step _ path =>
          rw [← isRest] at path
          exact ih path

/-- A path names no node twice: from there it would go on in two ways. -/
theorem nodup (path : Path parent last node nodes) : nodes.Nodup := by
  induction path with
  | last => exact List.nodup_singleton _
  | step notLast path ih =>
      refine List.nodup_cons.mpr ⟨fun again => ?_, ih⟩
      obtain ⟨front, back, rfl⟩ := List.append_of_mem again
      have longer := unique (.step notLast path) path.rest
      have lengths := congrArg List.length longer
      simp only [List.length_cons, List.length_append] at lengths
      omega

/-- A path depends only on the parents of its nodes. -/
theorem congr (path : Path parent last node nodes)
    (same : ∀ node ∈ nodes, node ≠ last → parent' node = parent node) :
    Path parent' last node nodes := by
  induction path with
  | last => exact .last
  | step notLast path ih =>
      refine .step notLast ?_
      rw [same _ List.mem_cons_self notLast]
      exact ih fun node member => same node (List.mem_cons_of_mem _ member)

/-- Nodes before one whose way on is another one keep their place. -/
theorem replaceRest {front back back' : List ε} {middle : ε}
    (path : Path parent last node (front ++ middle :: back))
    (same : ∀ node ∈ front, parent' node = parent node)
    (rest' : Path parent' last middle (middle :: back')) :
    Path parent' last node (front ++ middle :: back') := by
  induction front generalizing node with
  | nil =>
      cases path with
      | last => exact rest'
      | step => exact rest'
  | cons first front ih =>
      rw [List.cons_append] at path
      generalize isRest : front ++ middle :: back = nodes at path
      cases path with
      | last => simp at isRest
      | step notLast path =>
          rw [← isRest, ← same _ List.mem_cons_self] at path
          exact .step notLast (ih path fun node member => same node (List.mem_cons_of_mem _ member))

variable [DecidableEq ε]

/-- Put a new node behind one of a path. -/
theorem insert {front back : List ε} {before new : ε}
    (path : Path parent last node (front ++ before :: back)) (notLast : before ≠ last)
    (fresh : new ∉ front ++ before :: back) :
    Path (Function.update (Function.update parent new (parent before)) before new) last node
      (front ++ before :: new :: back) := by
  have once := path.nodup
  have freshBack : new ∉ before :: back := fun member =>
    fresh (List.mem_append_right _ member)
  have newNotLast : new ≠ last := fun same => fresh (same ▸ path.last_mem)
  have newNotBefore : new ≠ before := fun same => freshBack (same ▸ List.mem_cons_self)
  refine path.replaceRest (fun other member => ?_) (.step notLast ?_)
  · have notBefore : other ≠ before := fun same =>
      (List.nodup_append.mp once).2.2 _ member _ List.mem_cons_self same
    have notNew : other ≠ new := fun same => fresh (same ▸ List.mem_append_left _ member)
    rw [Function.update_of_ne notBefore, Function.update_of_ne notNew]
  · rw [Function.update_self]
    refine .step newNotLast ?_
    rw [Function.update_of_ne newNotBefore, Function.update_self]
    cases path.rest with
    | last => exact (notLast rfl).elim
    | step _ later =>
        refine later.congr fun other member _ => ?_
        have beforeOnce := (List.nodup_cons.mp (List.nodup_append.mp once).2.1).1
        have notBefore : other ≠ before := fun same => beforeOnce (same ▸ member)
        have notNew : other ≠ new := fun same => freshBack (same ▸ List.mem_cons_of_mem _ member)
        rw [Function.update_of_ne notBefore, Function.update_of_ne notNew]

/-- Take the node behind one of a path out of it; it gets another parent. -/
theorem remove {front back : List ε} {before gone : ε} (other : ε)
    (path : Path parent last node (front ++ before :: gone :: back)) (notLast : gone ≠ last) :
    Path (Function.update (Function.update parent before (parent gone)) gone other) last node
      (front ++ before :: back) := by
  have once := path.nodup
  have onceRest := (List.nodup_append.mp once).2.1
  have goneNotBefore : before ≠ gone := fun same =>
    (List.nodup_cons.mp onceRest).1 (same ▸ List.mem_cons_self)
  refine path.replaceRest (fun node member => ?_) ?_
  · have notBefore : node ≠ before := fun same =>
      (List.nodup_append.mp once).2.2 _ member _ List.mem_cons_self same
    have notGone : node ≠ gone := fun same =>
      (List.nodup_append.mp once).2.2 _ member _ (List.mem_cons_of_mem _ List.mem_cons_self) same
    rw [Function.update_of_ne notGone, Function.update_of_ne notBefore]
  · cases path.rest with
    | step beforeNotLast later =>
        refine .step beforeNotLast ?_
        rw [Function.update_of_ne goneNotBefore, Function.update_self]
        generalize parentOf : parent before = next at later
        cases later with
        | last => exact (notLast rfl).elim
        | step _ later =>
            refine later.congr fun node member _ => ?_
            have notBefore : node ≠ before := fun same =>
              (List.nodup_cons.mp onceRest).1 (same ▸ List.mem_cons_of_mem _ member)
            have notGone : node ≠ gone := fun same =>
              (List.nodup_cons.mp (List.nodup_cons.mp onceRest).2).1 (same ▸ member)
            rw [Function.update_of_ne notGone, Function.update_of_ne notBefore]

end Path

end Linked
