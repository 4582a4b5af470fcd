import Mathlib.Data.Finset.Card
import RApache.RValue

/-!
# Lists of parameters

`AprTableToList` with `ParamsCallback` fills two R vectors from a table.  It groups the
values of array parameters, those with a name of the form `key[]`.
-/

namespace RApache

/-! ## The vectors -/

/-- `TableCtx`: R vectors of a fixed length, and how many of their elements are set. -/
structure TableCtx where
  names : List Bytes
  list : List RValue
  size : Nat

namespace TableCtx

/-- The vectors that `AprTableToList` makes. -/
def new (len : Nat) : TableCtx where
  names := .replicate len []
  list := .replicate len .null
  size := 0

/-- Set the next element. -/
def add (key : Bytes) (value : RValue) (ctx : TableCtx) : TableCtx where
  names := ctx.names.set ctx.size key
  list := ctx.list.set ctx.size value
  size := ctx.size + 1

/-- The search for an element of that name among those that are set. -/
def nameIndex (key : Bytes) (ctx : TableCtx) : Option Nat :=
  (ctx.names.take ctx.size).findIdx? (· = key)

/-- Append a string to an element. -/
def append (index : Nat) (value : Bytes) (ctx : TableCtx) : TableCtx :=
  let oldValue := ctx.list.getD index .null
  { ctx with list := ctx.list.set index (.character (oldValue.strings ++ [mkChar value])) }

/-- `ParamsCallback`. -/
def paramsCallback (ctx : TableCtx) (entry : Param) : TableCtx :=
  match arrayKey entry.name with
  | some key =>
      match ctx.nameIndex key with
      | some index => ctx.append index entry.value
      | none => ctx.add key (textValue entry.value)
  | none => ctx.add (mkChar entry.name) (textValue entry.value)

/-- The list that `AprTableToList` returns: the vectors are shortened if some of their
elements are not set. -/
def toMembers (len : Nat) (ctx : TableCtx) : Members :=
  if ctx.size < len then (ctx.names.take ctx.size).zip (ctx.list.take ctx.size)
  else ctx.names.zip ctx.list

/-- `AprTableToList` with `ParamsCallback`. -/
def aprTableToList : (t : Option ParamTable) → RValue
  | none => .null
  | some [] => .null
  | some t => .list ((t.foldl paramsCallback (new t.length)).toMembers t.length)

/-- The elements that are set. -/
def members (ctx : TableCtx) : Members :=
  (ctx.names.take ctx.size).zip (ctx.list.take ctx.size)

/-- Vectors of one length with room for so many more elements. -/
structure HasRoom (len more : Nat) (ctx : TableCtx) : Prop where
  names : ctx.names.length = len
  list : ctx.list.length = len
  size : ctx.size + more ≤ len

theorem take_set_size {α : Type} {l : List α} {n : Nat} (value : α) (room : n < l.length) :
    (l.set n value).take (n + 1) = l.take n ++ [value] := by
  rw [List.take_add_one, List.take_set_of_le (Nat.le_refl n),
    List.getElem?_set_self room]
  rfl

theorem members_add {len more : Nat} {ctx : TableCtx} (room : ctx.HasRoom len (more + 1))
    (key : Bytes) (value : RValue) :
    (ctx.add key value).members = ctx.members ++ [(key, value)] := by
  have inNames : ctx.size < ctx.names.length := by have := room.names; have := room.size; omega
  have inList : ctx.size < ctx.list.length := by have := room.list; have := room.size; omega
  simp only [members, add, take_set_size _ inNames, take_set_size _ inList]
  rw [List.zip_append (by simp; omega)]
  rfl

/-- Setting an element whose name stays as it is. -/
theorem zip_set {names : List Bytes} {list : List RValue} {index : Nat} {key : Bytes}
    {value : RValue} (inside : index < names.length) (isName : names[index] = key) :
    names.zip (list.set index value) = (names.zip list).set index (key, value) := by
  induction names generalizing list index with
  | nil => simp at inside
  | cons name names ih =>
      cases list with
      | nil => simp
      | cons first list =>
          cases index with
          | zero => simp_all
          | succ index =>
              simp only [List.set_cons_succ, List.zip_cons_cons, List.cons.injEq, true_and]
              exact ih (by simpa using inside) (by simpa using isName)

theorem appendToMember_eq (key value : Bytes) (ctx : Members) :
    appendToMember key value ctx =
      ((ctx.map Prod.fst).findIdx? (· = key)).map fun index =>
        ctx.set index (key,
          .character (((ctx.map Prod.snd).getD index .null).strings ++ [mkChar value])) := by
  induction ctx with
  | nil => rfl
  | cons member ctx ih =>
      rcases member with ⟨name, old⟩
      by_cases same : name = key
      · simp [appendToMember, List.findIdx?_cons, same]
      · simp only [appendToMember, same, if_false, ih, List.map_cons, List.findIdx?_cons,
          decide_false, Bool.false_eq_true, Option.map_map]
        congr 1

/-- On the elements that are set the loop is the fold over lists of members. -/
theorem members_paramsCallback {len more : Nat} {ctx : TableCtx}
    (room : ctx.HasRoom len (more + 1)) (entry : Param) :
    (ctx.paramsCallback entry).members = RApache.paramsCallback ctx.members entry := by
  have namesLength : ctx.members.map Prod.fst = ctx.names.take ctx.size := by
    apply List.map_fst_zip
    simp [room.names, room.list]
  have listLength : ctx.members.map Prod.snd = ctx.list.take ctx.size := by
    apply List.map_snd_zip
    simp [room.names, room.list]
  unfold paramsCallback RApache.paramsCallback
  cases arrayKey entry.name with
  | none => exact members_add room _ _
  | some key =>
      simp only [appendToMember_eq, namesLength, listLength]
      have isIndex : (ctx.names.take ctx.size).findIdx? (fun name => decide (name = key)) =
          ctx.nameIndex key := rfl
      rw [isIndex]
      cases found : ctx.nameIndex key with
      | none => exact members_add room key _
      | some index =>
          rcases List.findIdx?_eq_some_iff_getElem.mp found with ⟨inside, sameName, -⟩
          have inSize : index < ctx.size := by
            simp only [List.length_take] at inside
            omega
          simp only [Option.map_some, members, append, List.take_set]
          rw [zip_set inside (of_decide_eq_true sameName)]
          simp [List.getD_eq_getElem?_getD, inSize]

theorem HasRoom.paramsCallback {len more : Nat} {ctx : TableCtx}
    (room : ctx.HasRoom len (more + 1)) (entry : Param) :
    (ctx.paramsCallback entry).HasRoom len more := by
  rcases room with ⟨names, list, size⟩
  have added (key : Bytes) (value : RValue) : (ctx.add key value).HasRoom len more := by
    refine ⟨by simp [add, names], by simp [add, list], ?_⟩
    simp only [add]
    omega
  unfold TableCtx.paramsCallback
  split
  next =>
    split
    next => exact ⟨names, by simp [append, list], by simp only [append]; omega⟩
    next => exact added _ _
  next => exact added _ _

/-- The loop over the vectors is the fold over lists of members, and never runs out of
room; the induction is on the table. -/
theorem members_foldl (t : ParamTable) {len : Nat} {ctx : TableCtx}
    (room : ctx.HasRoom len t.length) :
    (t.foldl paramsCallback ctx).members = t.foldl RApache.paramsCallback ctx.members ∧
      (t.foldl paramsCallback ctx).HasRoom len 0 := by
  induction t generalizing ctx with
  | nil => exact ⟨rfl, room⟩
  | cons entry t ih =>
      rw [List.foldl_cons, List.foldl_cons, ← members_paramsCallback room]
      exact ih (room.paramsCallback entry)

theorem toMembers_eq {len : Nat} {ctx : TableCtx} (room : ctx.HasRoom len 0) :
    ctx.toMembers len = ctx.members := by
  unfold toMembers
  split
  next => rfl
  next full =>
    have size : ctx.size = len := Nat.le_antisymm room.size (Nat.le_of_not_lt full)
    rw [members, size, ← room.names, List.take_length, room.names, ← room.list,
      List.take_length]

/-- The function that fills vectors gives the list that the calls of R code hand out. -/
theorem aprTableToList_eq (t : Option ParamTable) :
    aprTableToList t = RApache.aprTableToList RApache.paramsCallback t := by
  match t with
  | none => rfl
  | some [] => rfl
  | some (entry :: t) =>
      have room : (new (entry :: t).length).HasRoom (entry :: t).length (entry :: t).length :=
        ⟨List.length_replicate, List.length_replicate, by simp [new]⟩
      rcases members_foldl (entry :: t) room with ⟨filled, done⟩
      simp only [aprTableToList, RApache.aprTableToList]
      rw [toMembers_eq done, filled]
      rfl

end TableCtx

/-! ## Grouping -/

/-- The name of the element that an entry of a table makes or joins. -/
def elementName (entry : Param) : Bytes := (arrayKey entry.name).getD (mkChar entry.name)

/-- The strings of the array entries of that key, in table order. -/
def arrayValues (key : Bytes) (t : ParamTable) : List Bytes :=
  (t.filter fun entry => arrayKey entry.name = some key).map fun entry => mkChar entry.value

/-- The other entries. -/
def otherEntries (key : Bytes) (t : ParamTable) : ParamTable :=
  t.filter fun entry => arrayKey entry.name ≠ some key

/-- A value with more strings appended. -/
def RValue.extend (value : RValue) : List Bytes → RValue
  | [] => value
  | more => .character (value.strings ++ more)

/-- What the grouping of a table is: each first entry makes an element, which takes up
the array entries of its name that follow. -/
def grouped : (t : ParamTable) → Members
  | [] => []
  | entry :: t =>
      (elementName entry, (textValue entry.value).extend (arrayValues (elementName entry) t)) ::
        grouped (otherEntries (elementName entry) t)
termination_by t => t.length
decreasing_by
  exact Nat.lt_succ_of_le (List.length_filter_le _ _)

/-- Members that take up the array entries of a table. -/
def joined : (ctx : Members) → (t : ParamTable) → Members
  | [], _ => []
  | (name, value) :: ctx, t =>
      (name, value.extend (arrayValues name t)) :: joined ctx (otherEntries name t)

/-- The entries that join none of these elements. -/
def newEntries (names : List Bytes) (t : ParamTable) : ParamTable :=
  t.filter fun entry => ∀ key ∈ names, arrayKey entry.name ≠ some key

theorem newEntries_cons (name : Bytes) (names : List Bytes) (t : ParamTable) :
    newEntries (name :: names) t = newEntries names (otherEntries name t) := by
  simp [newEntries, otherEntries, List.filter_filter, Bool.and_comm]

theorem newEntries_snoc (names : List Bytes) (name : Bytes) (t : ParamTable) :
    newEntries (names ++ [name]) t = otherEntries name (newEntries names t) := by
  simp only [newEntries, otherEntries, List.filter_filter]
  congr 1
  funext entry
  simp only [List.mem_append, List.mem_singleton, ← Bool.decide_and, decide_eq_decide]
  constructor
  · intro none
    exact ⟨none name (.inr rfl), fun key isName => none key (.inl isName)⟩
  · rintro ⟨notName, none⟩ key (isName | same)
    · exact none key isName
    · exact same ▸ notName

theorem otherEntries_newEntries (name : Bytes) (names : List Bytes) (t : ParamTable) :
    otherEntries name (newEntries names t) = newEntries (name :: names) t := by
  rw [newEntries_cons]
  exact List.filter_comm _ _ t

theorem joined_append (first second : Members) (t : ParamTable) :
    joined (first ++ second) t =
      joined first t ++ joined second (newEntries (first.map Prod.fst) t) := by
  induction first generalizing t with
  | nil => simp [joined, newEntries]
  | cons member first ih =>
      simp [joined, ih, newEntries_cons]

/-- An entry that joins no member. -/
theorem joined_cons_of_not_mem {ctx : Members} {entry : Param}
    (new : ∀ key ∈ ctx.map Prod.fst, arrayKey entry.name ≠ some key) (t : ParamTable) :
    joined ctx (entry :: t) = joined ctx t := by
  induction ctx generalizing t with
  | nil => rfl
  | cons member ctx ih =>
      rcases List.forall_mem_cons.mp new with ⟨notFirst, notRest⟩
      simp [joined, arrayValues, otherEntries, notFirst, ih notRest]

/-- An entry that is appended to a member. -/
theorem joined_appendToMember {ctx ctx' : Members} {entry : Param} {key : Bytes}
    (isArray : arrayKey entry.name = some key)
    (appended : appendToMember key entry.value ctx = some ctx') (t : ParamTable) :
    joined ctx' t = joined ctx (entry :: t) ∧ ctx'.map Prod.fst = ctx.map Prod.fst ∧
      key ∈ ctx.map Prod.fst := by
  induction ctx generalizing ctx' t with
  | nil => cases appended
  | cons member ctx ih =>
      rcases member with ⟨name, old⟩
      rw [appendToMember] at appended
      split at appended
      next same =>
        cases appended
        subst same
        have first : (RValue.character (old.strings ++ [mkChar entry.value])).extend
            (arrayValues name t) = old.extend (arrayValues name (entry :: t)) := by
          simp only [arrayValues, isArray, List.filter_cons, decide_true, if_true,
            List.map_cons]
          cases (t.filter fun entry => arrayKey entry.name = some name).map
            fun entry => mkChar entry.value with
          | nil => rfl
          | cons => simp [RValue.extend, RValue.strings]
        refine ⟨?_, rfl, by simp⟩
        simp [joined, first, otherEntries, isArray]
      next different =>
        rcases Option.map_eq_some_iff.mp appended with ⟨after, later, same⟩
        rcases ih later (otherEntries name t) with ⟨rest, names, isMember⟩
        subst same
        have notName : key ≠ name := fun same => different same.symm
        have values : arrayValues name (entry :: t) = arrayValues name t := by
          simp [arrayValues, isArray, notName]
        have others : otherEntries name (entry :: t) = entry :: otherEntries name t := by
          simp [otherEntries, isArray, notName]
        refine ⟨?_, by simp [names], by simp [isMember]⟩
        rw [joined, joined, values, others, rest]

theorem appendToMember_eq_none {ctx : Members} {key value : Bytes}
    (none : appendToMember key value ctx = none) : key ∉ ctx.map Prod.fst := by
  induction ctx with
  | nil => simp
  | cons member ctx ih =>
      rcases member with ⟨name, old⟩
      rw [appendToMember] at none
      split at none
      next => cases none
      next different =>
        have rest := ih (Option.map_eq_none_iff.mp none)
        simpa [Ne.symm different] using rest

/-- The fold appends what it groups to the members that are there already. -/
theorem foldl_paramsCallback (ctx : Members) (t : ParamTable) :
    t.foldl paramsCallback ctx = joined ctx t ++ grouped (newEntries (ctx.map Prod.fst) t) := by
  induction t generalizing ctx with
  | nil =>
      have same : joined ctx [] = ctx := by
        induction ctx with
        | nil => rfl
        | cons member ctx ih => exact congrArg (member :: ·) ih
      simp [same, newEntries, grouped]
  | cons entry t ih =>
      have added (new : ∀ key ∈ ctx.map Prod.fst, arrayKey entry.name ≠ some key) :
          t.foldl paramsCallback (ctx ++ [(elementName entry, textValue entry.value)]) =
            joined ctx (entry :: t) ++ grouped (newEntries (ctx.map Prod.fst) (entry :: t)) := by
        have first : newEntries (ctx.map Prod.fst) (entry :: t) =
            entry :: newEntries (ctx.map Prod.fst) t := List.filter_cons_of_pos (by simpa using new)
        rw [ih, joined_append, joined_cons_of_not_mem new, first, grouped, List.map_append,
          List.map_singleton, newEntries_snoc]
        simp [joined]
      rw [List.foldl_cons]
      cases isArray : arrayKey entry.name with
      | none =>
          have step : paramsCallback ctx entry =
              ctx ++ [(elementName entry, textValue entry.value)] := by
            simp [paramsCallback, elementName, isArray]
          rw [step]
          exact added fun key _ => by simp [isArray]
      | some key =>
          cases appended : appendToMember key entry.value ctx with
          | none =>
              have step : paramsCallback ctx entry =
                  ctx ++ [(elementName entry, textValue entry.value)] := by
                simp [paramsCallback, elementName, isArray, appended]
              have new := appendToMember_eq_none appended
              rw [step]
              apply added
              intro name isName same
              rw [isArray] at same
              exact new (Option.some.inj same ▸ isName)
          | some ctx' =>
              have step : paramsCallback ctx entry = ctx' := by
                simp [paramsCallback, isArray, appended]
              rcases joined_appendToMember isArray appended t with ⟨rest, names, isMember⟩
              have dropped : newEntries (ctx.map Prod.fst) (entry :: t) =
                  newEntries (ctx.map Prod.fst) t :=
                List.filter_cons_of_neg (by simpa [isArray] using isMember)
              rw [step, ih, rest, names, dropped]

theorem foldl_paramsCallback_nil (t : ParamTable) : t.foldl paramsCallback [] = grouped t := by
  have all : newEntries [] t = t := by simp [newEntries]
  rw [foldl_paramsCallback, joined, List.nil_append, List.map_nil, all]

/-! ## What the grouping keeps -/

/-- The entries that make an element, if there are elements of these names already. -/
def firstEntries (seen : List Bytes) : (t : ParamTable) → ParamTable
  | [] => []
  | entry :: t =>
      if (arrayKey entry.name).isSome ∧ elementName entry ∈ seen then firstEntries seen t
      else entry :: firstEntries (elementName entry :: seen) t

/-- No plain entry of that name comes before the first array entry of that key. -/
def FreshKey (t : ParamTable) (key : Bytes) : Prop :=
  ∀ entry ∈ t.takeWhile fun (entry : Param) => arrayKey entry.name ≠ some key,
    arrayKey entry.name = none → mkChar entry.name ≠ key

instance (t : ParamTable) (key : Bytes) : Decidable (FreshKey t key) :=
  inferInstanceAs (Decidable (∀ _ ∈ _, _))

/-- The keys of the array entries. -/
def arrayKeys (t : ParamTable) : List Bytes := t.filterMap fun entry => arrayKey entry.name

/-- The keys of array entries that make an element. -/
def freshKeys (t : ParamTable) : Finset Bytes := (arrayKeys t).toFinset.filter (FreshKey t)

/-- A list of parameters loses and duplicates nothing of its table. -/
structure KeepsParams (t : ParamTable) (members : Members) : Prop where
  count : members.length =
    (t.filter fun entry => arrayKey entry.name = none).length + (freshKeys t).card
  aligned : List.Forall₂ (fun entry member => member.1 = elementName entry ∧
    (arrayValues member.1 t = [] → member.2 = textValue entry.value)) (firstEntries [] t) members
  arrays : ∀ key, 2 ≤ (arrayValues key t).length →
    (∀ entry ∈ t, arrayKey entry.name = none → mkChar entry.name ≠ key) →
      members.filter (fun member => member.1 = key) = [(key, .character (arrayValues key t))]

theorem newEntries_cons_eq (seen : List Bytes) (entry : Param) (t : ParamTable) :
    newEntries seen (entry :: t) =
      if (arrayKey entry.name).isSome ∧ elementName entry ∈ seen then newEntries seen t
      else entry :: newEntries seen t := by
  have joins : (∀ key ∈ seen, arrayKey entry.name ≠ some key) ↔
      ¬ ((arrayKey entry.name).isSome ∧ elementName entry ∈ seen) := by
    cases isArray : arrayKey entry.name with
    | none => simp
    | some key =>
        have same : (∀ name ∈ seen, ¬ key = name) ↔ key ∉ seen :=
          ⟨fun none isMember => none key isMember rfl, fun new name isName same =>
            new (same ▸ isName)⟩
        simpa [elementName, isArray] using same
  rw [newEntries, List.filter_cons]
  split
  next new => rw [if_neg (joins.mp (of_decide_eq_true new))]; rfl
  next old => rw [if_pos (not_not.mp fun new => old (decide_eq_true (joins.mpr new)))]; rfl

theorem arrayValues_eq_nil {key : Bytes} {t t' : ParamTable} (part : ∀ entry ∈ t', entry ∈ t)
    (empty : arrayValues key t = []) : arrayValues key t' = [] := by
  simp only [arrayValues, List.map_eq_nil_iff, List.filter_eq_nil_iff] at empty ⊢
  intro entry isEntry
  exact empty entry (part entry isEntry)

/-- Each element has the name of its first entry, and its value if nothing is appended. -/
theorem grouped_aligned (t : ParamTable) (seen : List Bytes) :
    List.Forall₂ (fun entry member => member.1 = elementName entry ∧
        (arrayValues member.1 t = [] → member.2 = textValue entry.value))
      (firstEntries seen t) (grouped (newEntries seen t)) := by
  induction t generalizing seen with
  | nil => simp [firstEntries, newEntries, grouped]
  | cons entry t ih =>
      have weaker (seen : List Bytes) := (ih seen).imp fun first member aligned =>
        (show member.1 = elementName first ∧ (arrayValues member.1 (entry :: t) = [] →
            member.2 = textValue first.value) from
          ⟨aligned.1, fun empty =>
            aligned.2 (arrayValues_eq_nil (fun _ => List.mem_cons_of_mem _) empty)⟩)
      rw [newEntries_cons_eq, firstEntries]
      split
      next => exact weaker seen
      next =>
        rw [grouped, otherEntries_newEntries]
        refine .cons ⟨rfl, ?_⟩ (weaker _)
        intro empty
        rw [arrayValues_eq_nil ?_ empty]
        · rfl
        · intro other isOther
          exact List.mem_cons_of_mem _ (List.mem_of_mem_filter isOther)

theorem arrayKeys_cons_none {entry : Param} (t : ParamTable)
    (plain : arrayKey entry.name = none) : arrayKeys (entry :: t) = arrayKeys t :=
  List.filterMap_cons_none plain

theorem arrayKeys_cons_some {entry : Param} {key : Bytes} (t : ParamTable)
    (isArray : arrayKey entry.name = some key) : arrayKeys (entry :: t) = key :: arrayKeys t :=
  List.filterMap_cons_some isArray

theorem mem_freshKeys_cons (entry : Param) (t : ParamTable) (key : Bytes) :
    key ∈ freshKeys (entry :: t) ↔ arrayKey entry.name = some key ∨
      ¬ (arrayKey entry.name = none ∧ mkChar entry.name = key) ∧ key ∈ freshKeys t := by
  simp only [freshKeys, arrayKeys, Finset.mem_filter, List.mem_toFinset, List.mem_filterMap,
    FreshKey]
  by_cases isKey : arrayKey entry.name = some key
  · simp [isKey]
  · simp only [List.mem_cons, exists_eq_or_imp, isKey, false_or, ne_eq, not_false_eq_true,
      decide_true, List.takeWhile_cons_of_pos, forall_eq_or_imp, not_and]
    tauto

/-- The array entries among the first entries have each fresh key once. -/
theorem firstEntries_keys (t : ParamTable) (seen : List Bytes) :
    (arrayKeys (firstEntries seen t)).Nodup ∧
      ∀ key, key ∈ arrayKeys (firstEntries seen t) ↔ key ∉ seen ∧ key ∈ freshKeys t := by
  induction t generalizing seen with
  | nil => simp [firstEntries, freshKeys, arrayKeys]
  | cons entry t ih =>
      simp only [mem_freshKeys_cons]
      cases isArray : arrayKey entry.name with
      | none =>
          rcases ih (mkChar entry.name :: seen) with ⟨nodup, keys⟩
          have step : firstEntries seen (entry :: t) =
              entry :: firstEntries (mkChar entry.name :: seen) t := by
            simp [firstEntries, elementName, isArray]
          rw [step, arrayKeys_cons_none _ isArray]
          refine ⟨nodup, fun key => ?_⟩
          rw [keys, List.mem_cons]
          simp only [reduceCtorEq, true_and, false_or]
          tauto
      | some own =>
          by_cases old : own ∈ seen
          · rcases ih seen with ⟨nodup, keys⟩
            have step : firstEntries seen (entry :: t) = firstEntries seen t := by
              simp [firstEntries, elementName, isArray, old]
            rw [step]
            refine ⟨nodup, fun key => ?_⟩
            rw [keys]
            simp only [Option.some.injEq, reduceCtorEq, false_and, not_false_eq_true, true_and]
            constructor
            · rintro ⟨new, fresh⟩
              exact ⟨new, .inr fresh⟩
            · rintro ⟨new, same | fresh⟩
              · exact (new (same ▸ old)).elim
              · exact ⟨new, fresh⟩
          · rcases ih (own :: seen) with ⟨nodup, keys⟩
            have step : firstEntries seen (entry :: t) =
                entry :: firstEntries (own :: seen) t := by
              simp [firstEntries, elementName, isArray, old]
            rw [step, arrayKeys_cons_some _ isArray]
            refine ⟨List.nodup_cons.mpr ⟨by simp [keys], nodup⟩, fun key => ?_⟩
            rw [List.mem_cons, keys, List.mem_cons]
            simp only [Option.some.injEq, reduceCtorEq, false_and, not_false_eq_true, true_and]
            constructor
            · rintro (same | ⟨new, fresh⟩)
              · exact ⟨same ▸ old, .inl same.symm⟩
              · exact ⟨fun isSeen => new (.inr isSeen), .inr fresh⟩
            · rintro ⟨new, same | fresh⟩
              · exact .inl same.symm
              · by_cases same : key = own
                · exact .inl same
                · exact .inr ⟨by simp [same, new], fresh⟩

theorem firstEntries_plain (t : ParamTable) (seen : List Bytes) :
    ((firstEntries seen t).filter fun entry => arrayKey entry.name = none) =
      t.filter fun entry => arrayKey entry.name = none := by
  induction t generalizing seen with
  | nil => rfl
  | cons entry t ih =>
      rw [firstEntries]
      split
      next joins =>
        have notPlain : arrayKey entry.name ≠ none := by
          intro plain
          simp [plain] at joins
        simp [ih, notPlain]
      next =>
        simp only [List.filter_cons, ih]

theorem length_eq_plain_add_keys (t : ParamTable) :
    t.length = (t.filter fun entry => arrayKey entry.name = none).length +
      (arrayKeys t).length := by
  induction t with
  | nil => rfl
  | cons entry t ih =>
      cases isArray : arrayKey entry.name with
      | none => simp [arrayKeys_cons_none _ isArray, isArray, ih]; omega
      | some key => simp [arrayKeys_cons_some _ isArray, isArray, ih]; omega

theorem grouped_length (t : ParamTable) :
    (grouped t).length =
      (t.filter fun entry => arrayKey entry.name = none).length + (freshKeys t).card := by
  have all : newEntries [] t = t := by simp [newEntries]
  have aligned := grouped_aligned t []
  rw [all] at aligned
  rcases firstEntries_keys t [] with ⟨nodup, keys⟩
  rw [← aligned.length_eq, length_eq_plain_add_keys, firstEntries_plain,
    ← List.toFinset_card_of_nodup nodup]
  congr 2
  ext key
  simp [List.mem_toFinset, keys]

/-- The value that one string makes. -/
def textOf (text : Bytes) : RValue := if text = [] then .null else .character [text]

/-- The names of the elements are names that entries have. -/
theorem grouped_names (t : ParamTable) (member : Bytes × RValue) (isMember : member ∈ grouped t) :
    ∃ entry ∈ t, elementName entry = member.1 := by
  induction t using grouped.induct with
  | case1 => simp [grouped] at isMember
  | case2 entry t ih =>
      rw [grouped] at isMember
      rcases List.mem_cons.mp isMember with same | rest
      · exact ⟨entry, List.mem_cons_self, by rw [same]⟩
      · rcases ih rest with ⟨other, isOther, name⟩
        exact ⟨other, List.mem_cons_of_mem _ (List.mem_of_mem_filter isOther), name⟩

/-- The element of a key that only array entries have; the induction is that of the
grouping. -/
theorem grouped_arrays (t : ParamTable) {key first : Bytes} {more : List Bytes}
    (noPlain : ∀ entry ∈ t, arrayKey entry.name = none → mkChar entry.name ≠ key)
    (values : arrayValues key t = first :: more) :
    (grouped t).filter (fun member => member.1 = key) = [(key, (textOf first).extend more)] := by
  induction t using grouped.induct with
  | case1 => simp [arrayValues] at values
  | case2 entry t ih =>
      rw [grouped]
      have noPlain' : ∀ other ∈ otherEntries (elementName entry) t,
          arrayKey other.name = none → mkChar other.name ≠ key := fun other isOther =>
        noPlain other (List.mem_cons_of_mem _ (List.mem_of_mem_filter isOther))
      by_cases same : elementName entry = key
      · have isArray : arrayKey entry.name = some key := by
          cases isArray : arrayKey entry.name with
          | none =>
              rw [elementName, isArray] at same
              exact (noPlain entry List.mem_cons_self isArray same).elim
          | some own =>
              rw [elementName, isArray] at same
              exact congrArg some same
        have rest : (grouped (otherEntries key t)).filter (fun member => member.1 = key) = [] := by
          rw [List.filter_eq_nil_iff]
          intro member isMember named
          rcases grouped_names _ _ isMember with ⟨other, isOther, name⟩
          rcases List.mem_filter.mp isOther with ⟨inTable, notArray⟩
          rw [of_decide_eq_true named, elementName] at name
          cases isOtherArray : arrayKey other.name with
          | none =>
              rw [isOtherArray] at name
              exact noPlain other (List.mem_cons_of_mem _ inTable) isOtherArray name
          | some own =>
              rw [isOtherArray] at name notArray
              exact (of_decide_eq_true notArray) (congrArg some name)
        simp only [arrayValues, List.filter_cons, isArray, decide_true, if_true, List.map_cons,
          List.cons.injEq] at values
        rw [same, List.filter_cons_of_pos (by simp), rest, ← values.1, ← values.2]
        rfl
      · have values' : arrayValues key (otherEntries (elementName entry) t) = first :: more := by
          have notArray : arrayKey entry.name ≠ some key := by
            intro isArray
            simp [elementName, isArray] at same
          rw [← values]
          simp only [arrayValues, otherEntries, List.filter_filter, List.filter_cons, notArray,
            decide_false, Bool.false_eq_true, if_false]
          congr 2
          funext other
          by_cases isKey : arrayKey other.name = some key
          · simp [isKey, Ne.symm same]
          · simp [isKey]
        rw [List.filter_cons_of_neg (by simpa using same)]
        exact ih noPlain' values'

theorem aprTableToList_members (t : ParamTable) :
    (TableCtx.aprTableToList (some t)).listMembers = grouped t := by
  rw [TableCtx.aprTableToList_eq]
  cases t with
  | nil => simp [aprTableToList, RValue.listMembers, grouped]
  | cons entry t => exact foldl_paramsCallback_nil (entry :: t)

end RApache
