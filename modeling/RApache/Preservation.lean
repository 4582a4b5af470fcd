import RApache.Objects

/-!
# Objects that stay reachable

What the cached records hold is preserved for the member that holds it, and released for the same
member.  What `MR_Request` holds is only kept by R, which was given it.
-/

namespace RApache

open Stepwise
open Stepwise.Program (Every Reaches Safe Triple)

/-- Whatever a later step may use is reachable, and every call of `R_ReleaseObject` has undone
that of `R_PreserveObject` for the same member. -/
structure KeepsReachable (s : Objects) : Prop where
  members : ∀ member object, s.held member = some object → s.MayUse member → s.Reachable object
  filesVar : ∀ object, s.request.filesVar = some object → s.Reachable object
  serverVar : ∀ object, s.request.serverVar = some object → s.Reachable object
  releases : ∀ release ∈ s.releases, release.undoes = true

/-- A step is careful if input that is parsed for `POST` has no uploads, if R keeps what calls
have returned to it of the objects that `MR_Request` holds, and if no environment of a file is
released for a handler. -/
structure Careful (s s' : Objects) : Prop where
  filesFirst : s'.request.postParsed = some true →
    ∀ object, s'.request.filesVar = some object → object = .nilValue
  keeps : ∀ object ∈ s'.returned, object ∈ s'.bound
  ownEnvir : ∀ key, s'.replaced = some (.envir key) → s.shared key = false

theorem careful_iff (s s' : Objects) : Careful s s' ↔
    (s'.request.postParsed = some true → s'.request.filesVar.getD .nilValue = .nilValue) ∧
      (∀ object ∈ s'.returned, object ∈ s'.bound) ∧
      match s'.replaced with
      | some (.envir key) => s.shared key = false
      | _ => True := by
  constructor
  · intro careful
    refine ⟨?_, careful.keeps, ?_⟩
    · intro isParsed
      cases isHeld : s'.request.filesVar with
      | none => rfl
      | some object => exact careful.filesFirst isParsed object isHeld
    · split
      next key isReplaced => exact careful.ownEnvir key isReplaced
      next => trivial
  · rintro ⟨filesFirst, keeps, ownEnvir⟩
    refine ⟨?_, keeps, ?_⟩
    · intro isParsed object isHeld
      have isNil := filesFirst isParsed
      rw [isHeld] at isNil
      exact isNil
    · intro key isReplaced
      rw [isReplaced] at ownEnvir
      exact ownEnvir

instance (s s' : Objects) : Decidable (Careful s s') :=
  have : Decidable (match s'.replaced with
      | some (.envir key) => s.shared key = false
      | _ => True) := by
    split
    · infer_instance
    · infer_instance
  decidable_of_iff _ (careful_iff s s').symm

/-- No script's call can be parsed, and the call of `parse` with the name of the file can. -/
structure ProperRequest (w : World) (r : RequestRec) : Prop where
  noScript : handlerType r.handler = some .script → requestExpr w r = none
  parseCall : ∀ file, r.file = some file →
    (w.parse (callFun1strText (bytes "parse") file)).isSome

/-- The condition on steps. -/
def careful (_ : ObjectAnswer) (s s' : Objects) : Prop := Careful s s'

instance (ω : ObjectAnswer) (s s' : Objects) : Decidable (careful ω s s') :=
  inferInstanceAs (Decidable (Careful s s'))

/-! ## What is preserved -/

/-- Members hold what was preserved for them, except that the environment of a handler may be
that of its file. -/
structure MembersAnchored (s : Objects) : Prop where
  members : ∀ member object, s.held member = some object → s.replaced ≠ some member →
    (∀ key, member = .envir key → s.shared key = false) → { member, object } ∈ s.preserved
  used : ∀ key object, s.inUse = some key → s.held (.envir key) = some object →
    { member := .envir key, object } ∈ s.preserved ∨
      ∃ file, { member := .fileEnvir file, object } ∈ s.preserved
  releases : ∀ release ∈ s.releases, release.undoes = true

/-- `MR_Request` holds `R_NilValue` or what was returned to R, or an object that is being made
and protected. -/
structure RequestAnchored (making : Option RObject) (s : Objects) : Prop where
  filesVar : ∀ object, s.request.filesVar = some object →
    object = .nilValue ∨ object ∈ s.returned ∨ making = some object
  serverVar : ∀ object, s.request.serverVar = some object →
    object = .nilValue ∨ object ∈ s.returned ∨ making = some object
  making : ∀ object, making = some object → object ∈ s.protectStack
  keeps : ∀ object ∈ s.returned, object ∈ s.bound

/-- What is known at a point of the handler: the handler whose environment is in use, and the
member that is assigned next. -/
structure At (inUse : Option Bytes) (replaced : Option Member) (s : Objects) : Prop where
  anchored : MembersAnchored s
  inUse : s.inUse = inUse
  replaced : s.replaced = replaced

/-- `At`, and what is known of the request. -/
def Here (inUse : Option Bytes) (replaced : Option Member) (s : Objects) : Prop :=
  At inUse replaced s ∧ RequestAnchored none s

theorem reachable_of_preserved {s : Objects} {member : Member} {object : RObject}
    (isEntry : { member, object } ∈ s.preserved) : s.Reachable object :=
  .inr (.inl ⟨_, isEntry, rfl⟩)

theorem RequestAnchored.reachable {s : Objects} {making : Option RObject} {object : RObject}
    (anchored : RequestAnchored making s)
    (holds : object = .nilValue ∨ object ∈ s.returned ∨ making = some object) :
    s.Reachable object := by
  rcases holds with isNil | isReturned | isMade
  · exact .inl isNil
  · exact .inr (.inr (.inr (anchored.keeps object isReturned)))
  · exact .inr (.inr (.inl (anchored.making object isMade)))

/-- Both together keep everything reachable. -/
theorem keepsReachable {s : Objects} {making : Option RObject} (members : MembersAnchored s)
    (request : RequestAnchored making s) : KeepsReachable s where
  members member object isHeld mayUse := by
    cases member with
    | envir key =>
        rcases members.used key object mayUse isHeld with isEntry | ⟨file, isEntry⟩
        · exact reachable_of_preserved isEntry
        · exact reachable_of_preserved isEntry
    | expr key => exact reachable_of_preserved (members.members _ object isHeld mayUse nofun)
    | fileExprs file => exact reachable_of_preserved (members.members _ object isHeld mayUse nofun)
    | fileEnvir file => exact reachable_of_preserved (members.members _ object isHeld mayUse nofun)
  filesVar object isHeld := request.reachable (request.filesVar object isHeld)
  serverVar object isHeld := request.reachable (request.serverVar object isHeld)
  releases := members.releases

section Points

variable {inUse : Option Bytes} {replaced : Option Member} {s : Objects}

theorem Here.keepsReachable (here : Here inUse replaced s) : KeepsReachable s :=
  RApache.keepsReachable here.1.anchored here.2

/-- The parts of the state on which `At` depends. -/
structure SameMembers (s s' : Objects) : Prop where
  held : s'.held = s.held
  shared : s'.shared = s.shared
  preserved : s'.preserved = s.preserved
  replaced : s'.replaced = s.replaced
  inUse : s'.inUse = s.inUse
  releases : s'.releases = s.releases

theorem At.keeps {s' : Objects} (at_ : At inUse replaced s) (same : SameMembers s s') :
    At inUse replaced s' where
  anchored := {
    members := by
      rw [same.held, same.replaced, same.shared, same.preserved]
      exact at_.anchored.members
    used := by
      rw [same.inUse, same.held, same.preserved]
      exact at_.anchored.used
    releases := by
      rw [same.releases]
      exact at_.anchored.releases }
  inUse := same.inUse.trans at_.inUse
  replaced := same.replaced.trans at_.replaced

/-- A step that changes neither the request nor what R holds. -/
theorem RequestAnchored.unchanged {making : Option RObject} {s' : Objects}
    (anchored : RequestAnchored making s) (request : s'.request = s.request)
    (returned : s'.returned = s.returned) (bound : s'.bound = s.bound)
    (protectStack : s'.protectStack = s.protectStack) : RequestAnchored making s' where
  filesVar := by
    rw [request, returned]
    exact anchored.filesVar
  serverVar := by
    rw [request, returned]
    exact anchored.serverVar
  making := by
    rw [protectStack]
    exact anchored.making
  keeps := by
    rw [returned, bound]
    exact anchored.keeps

/-- The object of a member has been preserved for it. -/
def Owns (s : Objects) (member : Member) : Prop :=
  ∀ object, s.held member = some object → { member, object } ∈ s.preserved

/-- Releasing what was preserved for a member takes nothing from the others. -/
theorem mem_releaseOf {member other : Member} {object object' : RObject}
    {preserved : List (Preserved RObject)} (isEntry : { member, object } ∈ preserved)
    (isOther : other ≠ member) (isEntry' : { member := other, object := object' } ∈ preserved) :
    { member := other, object := object' } ∈ releaseOf member object preserved := by
  rw [releaseOf, if_pos isEntry, List.mem_erase_of_ne]
  · exact isEntry'
  · intro same
    exact isOther (congrArg Preserved.member same)

/-- A member gets an object that is preserved for it, or none, if no other is to get one. -/
theorem At.assign {s' : Objects} {member : Member} {object : Option RObject}
    (at_ : At inUse replaced s) (others : ∀ other, other ≠ member → replaced ≠ some other)
    (held : s'.held = Function.update s.held member object)
    (keeps : ∀ entry ∈ s.preserved, entry ∈ s'.preserved)
    (owns : ∀ new, object = some new → { member, object := new } ∈ s'.preserved)
    (shared : s'.shared = s.shared) (sameUse : s'.inUse = s.inUse) (done : s'.replaced = none)
    (releases : s'.releases = s.releases) : At inUse none s' := by
  have holds {other : Member} {found : RObject} (isHeld : s'.held other = some found) :
      { member := other, object := found } ∈ s'.preserved ∨
        other ≠ member ∧ s.held other = some found := by
    rw [held] at isHeld
    by_cases same : other = member
    · rw [same, Function.update_self] at isHeld
      rw [same]
      exact .inl (owns found isHeld)
    · rw [Function.update_of_ne same] at isHeld
      exact .inr ⟨same, isHeld⟩
  refine ⟨⟨?_, ?_, ?_⟩, sameUse.trans at_.inUse, done⟩
  · intro other found isHeld _ isOwn
    rw [shared] at isOwn
    rcases holds isHeld with own | ⟨isOther, isHeld'⟩
    · exact own
    · apply keeps
      apply at_.anchored.members other found isHeld' _ isOwn
      rw [at_.replaced]
      exact others other isOther
  · intro key found isUsed isHeld
    rw [sameUse] at isUsed
    rcases holds isHeld with own | ⟨-, isHeld'⟩
    · exact .inl own
    · rcases at_.anchored.used key found isUsed isHeld' with own | ⟨file, isShared⟩
      · exact .inl (keeps _ own)
      · exact .inr ⟨file, keeps _ isShared⟩
  · rw [releases]
    exact at_.anchored.releases

end Points

namespace Objects

variable {w : World} {inUse : Option Bytes} {replaced : Option Member}

/-! ## Steps on members -/

/-- A step that only reads. -/
theorem look_triple {α : Type} {P : Objects → Prop} (implies : ∀ s, P s → KeepsReachable s)
    (value : ObjectAnswer → Objects → α) :
    Triple careful KeepsReachable P (look value) fun found s => (∃ ω, value ω s = found) ∧ P s := by
  apply Triple.atomic implies
  intro ω s found s' now acted _
  cases acted
  exact ⟨implies s now, ⟨ω, rfl⟩, now⟩

theorem change_triple {P Q : Objects → Prop} {change : ObjectAnswer → Objects → Objects}
    (implies : ∀ s, P s → KeepsReachable s) (implies' : ∀ s, Q s → KeepsReachable s)
    (changes : ∀ ω s, P s → Careful s (change ω s) → Q (change ω s)) :
    Triple careful KeepsReachable P (Objects.change change) fun _ => Q := by
  apply Triple.atomic implies
  intro ω s value s' now acted meets
  cases acted
  have later := changes ω s now meets
  exact ⟨implies' _ later, later⟩

theorem exit_triple {α : Type} {P : Objects → Prop} {Q : α → Objects → Prop}
    (implies : ∀ s, P s → KeepsReachable s) : Triple careful KeepsReachable P exit Q := by
  apply Triple.atomic implies
  intro ω s value s' _ acted _
  cases acted

/-- What a member holds was preserved for it, if the member is no environment of a handler with
a file. -/
theorem At.owns {s : Objects} {member : Member} (at_ : At inUse none s)
    (isOwn : ∀ key, member = .envir key → s.shared key = false) : Owns s member := by
  intro object isHeld
  refine at_.anchored.members member object isHeld ?_ isOwn
  rw [at_.replaced]
  nofun

/-- A release undoes what was done for the same member.  The environment in use is not
released. -/
theorem release_triple {member : Member} (notUsed : inUse = none ∨ ∃ key, member = .expr key) :
    Triple careful KeepsReachable (Here inUse none) (release member)
      fun _ => Here inUse (some member) := by
  apply change_triple (fun _ here => here.keepsReachable) fun _ here => here.keepsReachable
  rintro ω s ⟨at_, request⟩ meets
  have owns : Owns s member := by
    apply At.owns at_
    rintro key rfl
    apply meets.ownEnvir key
    cases s.held (.envir key) with
    | none => rfl
    | some object => rfl
  cases isHeld : s.held member with
  | none =>
      refine ⟨⟨⟨?_, at_.anchored.used, at_.anchored.releases⟩, at_.inUse, rfl⟩,
        request.unchanged rfl rfl rfl rfl⟩
      intro other object isHeld' _ isOwn
      exact At.owns at_ isOwn object isHeld'
  | some object =>
      have isEntry := owns object isHeld
      refine ⟨⟨⟨?_, ?_, ?_⟩, at_.inUse, rfl⟩, request.unchanged rfl rfl rfl rfl⟩
      · intro other object' isHeld' isOther isOwn
        apply mem_releaseOf isEntry
        · rintro rfl
          exact isOther rfl
        · exact At.owns at_ isOwn object' isHeld'
      · intro key object' isUsed isHeld'
        rcases notUsed with unused | ⟨key', rfl⟩
        · have isUsed' : s.inUse = some key := isUsed
          rw [at_.inUse, unused] at isUsed'
          cases isUsed'
        · rcases at_.anchored.used key object' isUsed isHeld' with own | ⟨file, shared⟩
          · exact .inl (mem_releaseOf isEntry nofun own)
          · exact .inr ⟨file, mem_releaseOf isEntry nofun shared⟩
      · intro released isReleased
        rcases List.mem_cons.mp isReleased with isNow | earlier
        · rw [isNow]
          exact decide_eq_true isEntry
        · exact at_.anchored.releases released earlier

/-- A member gets a new object, if no other is to get one. -/
theorem assignPreserved_triple {member : Member}
    (others : ∀ other, other ≠ member → replaced ≠ some other) :
    Triple careful KeepsReachable (Here inUse replaced) (assignPreserved member)
      fun _ s => Owns s member ∧ Here inUse none s := by
  apply change_triple (fun _ here => here.keepsReachable) fun _ now => now.2.keepsReachable
  rintro ω s ⟨at_, request⟩ _
  refine ⟨?_, at_.assign others rfl (fun _ => List.mem_cons_of_mem _) ?_ rfl rfl rfl rfl,
    request.unchanged rfl rfl rfl rfl⟩
  · intro object isHeld
    simp only [Function.update_self, Option.some.injEq] at isHeld
    rw [← isHeld]
    exact List.mem_cons_self
  · intro new isNew
    rw [← Option.some.inj isNew]
    exact List.mem_cons_self

/-- A member that gets no object. -/
theorem assign_triple {member : Member} {object : ObjectAnswer → Option RObject}
    (others : ∀ other, other ≠ member → replaced ≠ some other) (isNull : ∀ ω, object ω = none) :
    Triple careful KeepsReachable (Here inUse replaced) (assign member object)
      fun _ => Here inUse none := by
  apply change_triple (fun _ here => here.keepsReachable) fun _ here => here.keepsReachable
  rintro ω s ⟨at_, request⟩ _
  refine ⟨at_.assign others rfl (fun _ isEntry => isEntry) ?_ rfl rfl rfl rfl,
    request.unchanged rfl rfl rfl rfl⟩
  intro new isNew
  rw [isNull] at isNew
  cases isNew

/-- No other member than the one that was released is to get an object. -/
theorem others_of_released {member : Member} :
    ∀ other, other ≠ member → some member ≠ some other :=
  fun _ isOther same => isOther (Option.some.inj same).symm

theorem others_of_none {member : Member} :
    ∀ other, other ≠ member → (none : Option Member) ≠ some other :=
  fun _ _ => nofun

/-- `NewEnv` while no environment is in use. -/
theorem newEnv_triple (member : Member) :
    Triple careful KeepsReachable (Here none none) (newEnv member)
      fun _ s => Owns s member ∧ Here none none s :=
  (release_triple (.inl rfl)).bind fun _ => assignPreserved_triple others_of_released

/-- For another member it does not matter what becomes of a handler's environment. -/
theorem notShared_of_update {shared : Bytes → Bool} {key : Bytes} {isShared : Bool}
    {member : Member} (isOther : member ≠ .envir key)
    (isOwn : ∀ key', member = .envir key' → Function.update shared key isShared key' = false)
    (key' : Bytes) (isEnvir : member = .envir key') : shared key' = false := by
  have notKey : key' ≠ key := fun same => isOther (isEnvir.trans (congrArg Member.envir same))
  have notShared := isOwn key' isEnvir
  rw [Function.update_of_ne notKey] at notShared
  exact notShared

/-- The new environment of a handler without a file is used. -/
theorem useEnvir_triple (key : Bytes) :
    Triple careful KeepsReachable (fun s => Owns s (.envir key) ∧ Here none none s)
      (Objects.change fun _ s =>
        { s with inUse := some key, shared := Function.update s.shared key false })
      fun _ => Here (some key) none := by
  apply change_triple (fun _ now => now.2.keepsReachable) fun _ here => here.keepsReachable
  rintro ω s ⟨owns, at_, request⟩ _
  refine ⟨⟨⟨?_, ?_, at_.anchored.releases⟩, rfl, at_.replaced⟩, request.unchanged rfl rfl rfl rfl⟩
  · intro member object isHeld isReplaced isOwn
    by_cases same : member = .envir key
    · rw [same] at isHeld ⊢
      exact owns object isHeld
    · apply at_.anchored.members member object isHeld isReplaced
      intro key' isEnvir
      have isOther : key' ≠ key := fun isKey => same (isEnvir.trans (congrArg Member.envir isKey))
      have notShared := isOwn key' isEnvir
      simp only [Function.update_of_ne isOther] at notShared
      exact notShared
  · intro key' object isUsed isHeld
    cases isUsed
    exact .inl (owns object isHeld)

/-- A handler takes the environment of its file. -/
theorem setEnvir_triple (key record : Bytes) :
    Triple careful KeepsReachable (Here none none) (setEnvir key record)
      fun _ => Here (some key) none := by
  apply change_triple (fun _ here => here.keepsReachable) fun _ here => here.keepsReachable
  rintro ω s ⟨at_, request⟩ _
  refine ⟨⟨⟨?_, ?_, at_.anchored.releases⟩, rfl, at_.replaced⟩, request.unchanged rfl rfl rfl rfl⟩
  · intro member object isHeld isReplaced isOwn
    by_cases same : member = .envir key
    · have notShared := isOwn key same
      simp at notShared
    · simp only [Function.update_of_ne same] at isHeld
      exact at_.anchored.members member object isHeld isReplaced (notShared_of_update same isOwn)
  · intro key' object isUsed isHeld
    cases isUsed
    simp only [Function.update_self] at isHeld
    have owns : Owns s (.fileEnvir record) := At.owns at_ nofun
    exact .inr ⟨record, owns object isHeld⟩

/-- The record of the handler's file. -/
theorem fileRecord_triple (key file : Bytes) :
    Triple careful KeepsReachable (Here inUse replaced) (fileRecord key file)
      fun _ => Here inUse replaced := by
  apply Triple.atomic fun _ here => here.keepsReachable
  rintro ω s record s' here acted _
  split at acted
  next =>
    cases acted
    exact ⟨here.keepsReachable, here⟩
  next =>
    cases acted
    have later : Here inUse replaced
        { s with parsedFile := Function.update s.parsedFile key (some file) } :=
      ⟨here.1.keeps ⟨rfl, rfl, rfl, rfl, rfl, rfl⟩, here.2.unchanged rfl rfl rfl rfl⟩
    exact ⟨later.keepsReachable, later⟩

/-! ## Steps on the request -/

/-- A point at which an object of the request may be in the making. -/
def Making (inUse : Option Bytes) (replaced : Option Member) (making : Option RObject)
    (s : Objects) : Prop :=
  At inUse replaced s ∧ RequestAnchored making s

theorem Making.keepsReachable {making : Option RObject} {s : Objects}
    (now : Making inUse replaced making s) : KeepsReachable s :=
  RApache.keepsReachable now.1.anchored now.2

/-- `R_NilValue` need not be kept. -/
theorem Making.done {making : Option RObject} {s : Objects}
    (now : Making inUse replaced making s)
    (isNil : making = none ∨ making = some .nilValue) : Here inUse replaced s := by
  have holds {object : RObject}
      (held : object = .nilValue ∨ object ∈ s.returned ∨ making = some object) :
      object = .nilValue ∨ object ∈ s.returned ∨ none = some object := by
    rcases held with nil | returned | made
    · exact .inl nil
    · exact .inr (.inl returned)
    · rcases isNil with none | nil
      · rw [none] at made
        cases made
      · rw [nil, Option.some.injEq] at made
        exact .inl made.symm
  refine ⟨now.1, ?_, ?_, nofun, now.2.keeps⟩
  · exact fun object isHeld => holds (now.2.filesVar object isHeld)
  · exact fun object isHeld => holds (now.2.serverVar object isHeld)

/-- What was being made is returned. -/
theorem returnHeld_triple {making : Option RObject} (count : Nat)
    (held : RequestObjects → Option RObject) :
    Triple careful KeepsReachable
      (fun s => Making inUse replaced making s ∧
        ∀ object, making = some object → held s.request = some object)
      (returnHeld count held) fun _ => Here inUse replaced := by
  apply Triple.atomic fun s now => now.1.keepsReachable
  rintro ω s returned s' ⟨⟨at_, request⟩, isMaking⟩ acted meets
  cases acted
  have holds {object : RObject}
      (isHeld : object = .nilValue ∨ object ∈ s.returned ∨ making = some object) :
      object = .nilValue ∨ object ∈ (held s.request).getD .nilValue :: s.returned ∨
        none = some object := by
    rcases isHeld with nil | isReturned | made
    · exact .inl nil
    · exact .inr (.inl (List.mem_cons_of_mem _ isReturned))
    · rw [isMaking object made]
      exact .inr (.inl List.mem_cons_self)
  have later : Here inUse replaced
      { s with
        protectStack := s.protectStack.drop count
        bound := (held s.request).getD .nilValue :: s.bound
        returned := (held s.request).getD .nilValue :: s.returned } := by
    refine ⟨at_.keeps ⟨rfl, rfl, rfl, rfl, rfl, rfl⟩, ?_, ?_, nofun, meets.keeps⟩
    · exact fun object isHeld => holds (request.filesVar object isHeld)
    · exact fun object isHeld => holds (request.serverVar object isHeld)
  exact ⟨later.keepsReachable, later⟩

/-- Nothing was being made. -/
theorem returnKept_triple (count : Nat) (held : RequestObjects → Option RObject) :
    Triple careful KeepsReachable (Here inUse replaced) (returnHeld count held)
      fun _ => Here inUse replaced := by
  have returns := @returnHeld_triple inUse replaced none count held
  apply returns.pre
  intro s here
  refine ⟨here, ?_⟩
  intro object isMade
  cases isMade

theorem returnNew_triple (value : ObjectAnswer → RObject) :
    Triple careful KeepsReachable (Here inUse replaced) (returnNew value)
      fun _ => Here inUse replaced := by
  apply Triple.atomic fun _ here => here.keepsReachable
  rintro ω s returned s' ⟨at_, request⟩ acted meets
  cases acted
  have later : Here inUse replaced { s with bound := value ω :: s.bound } :=
    ⟨at_.keeps ⟨rfl, rfl, rfl, rfl, rfl, rfl⟩, request.filesVar, request.serverVar, nofun,
      meets.keeps⟩
  exact ⟨later.keepsReachable, later⟩

theorem protect_triple (objects : Objects → List RObject) :
    Triple careful KeepsReachable (Here inUse replaced) (protect objects)
      fun _ => Here inUse replaced := by
  apply change_triple (fun _ here => here.keepsReachable) fun _ here => here.keepsReachable
  rintro ω s ⟨at_, request⟩ _
  exact ⟨at_.keeps ⟨rfl, rfl, rfl, rfl, rfl, rfl⟩,
    request.filesVar, request.serverVar, nofun, request.keeps⟩

theorem unprotect_triple (count : Nat) :
    Triple careful KeepsReachable (Here inUse replaced) (unprotect count)
      fun _ => Here inUse replaced := by
  apply change_triple (fun _ here => here.keepsReachable) fun _ here => here.keepsReachable
  rintro ω s ⟨at_, request⟩ _
  exact ⟨at_.keeps ⟨rfl, rfl, rfl, rfl, rfl, rfl⟩,
    request.filesVar, request.serverVar, nofun, request.keeps⟩

theorem noFiles_triple :
    Triple careful KeepsReachable (Here inUse replaced) noFiles
      fun _ => Here inUse replaced := by
  apply change_triple (fun _ here => here.keepsReachable) fun _ here => here.keepsReachable
  rintro ω s ⟨at_, request⟩ _
  refine ⟨at_.keeps ⟨rfl, rfl, rfl, rfl, rfl, rfl⟩, ?_, request.serverVar, nofun, request.keeps⟩
  intro object isHeld
  exact .inl (Option.some.inj isHeld).symm

theorem clearRequest_triple :
    Triple careful KeepsReachable (Here inUse replaced) clearRequest
      fun _ => Here inUse replaced := by
  apply change_triple (fun _ here => here.keepsReachable) fun _ here => here.keepsReachable
  rintro ω s ⟨at_, request⟩ _
  exact ⟨at_.keeps ⟨rfl, rfl, rfl, rfl, rfl, rfl⟩, nofun, nofun, nofun, nofun⟩

/-- Either list may be returned if the other is not lost with it. -/
theorem returnList_triple {making : Option RObject} (returnPost : Bool) (count : Nat)
    (isNil : returnPost = true → making = none ∨ making = some .nilValue) :
    Triple careful KeepsReachable
      (fun s => Making inUse replaced making s ∧
        ∀ object, making = some object → s.request.filesVar = some object)
      (returnList returnPost count) fun _ => Here inUse replaced := by
  cases returnPost with
  | true =>
      have here : Triple careful KeepsReachable
          (fun s => Making inUse replaced making s ∧
            ∀ object, making = some object → s.request.filesVar = some object)
          (unprotect count) fun _ => Here inUse replaced :=
        (unprotect_triple count).pre fun s now => now.1.done (isNil rfl)
      exact here.bind fun _ => returnNew_triple fun ω => ω.object
  | false => exact returnHeld_triple count RequestObjects.filesVar

/-- A second object is protected while one is being made. -/
theorem protectNew_triple {making : Option RObject} {held : Objects → Prop}
    (keeps : ∀ s stack, held s → held { s with protectStack := stack }) :
    Triple careful KeepsReachable
      (fun s => Making inUse replaced making s ∧ held s)
      (Objects.change fun ω s => { s with protectStack := ω.object :: s.protectStack })
      fun _ s => Making inUse replaced making s ∧ held s := by
  apply change_triple (fun _ now => now.1.keepsReachable) fun _ now => now.1.keepsReachable
  rintro ω s ⟨⟨at_, request⟩, isHeld⟩ _
  refine ⟨⟨at_.keeps ⟨rfl, rfl, rfl, rfl, rfl, rfl⟩, request.filesVar, request.serverVar, ?_,
    request.keeps⟩, keeps s _ isHeld⟩
  exact fun object isMade => List.mem_cons_of_mem _ (request.making object isMade)

/-- The list of the uploads is `R_NilValue`, or it is made to be returned. -/
theorem makeFiles_triple (returnPost : Bool) :
    Triple careful KeepsReachable
      (fun s => Here inUse replaced s ∧ s.request.postParsed = some returnPost)
      makeFiles fun _ s => ∃ making, (returnPost = true → making = .nilValue) ∧
        Making inUse replaced (some making) s ∧
          ∀ object, some making = some object → s.request.filesVar = some object := by
  have made : Triple careful KeepsReachable
      (fun s => Here inUse replaced s ∧ s.request.postParsed = some returnPost)
      (Objects.change fun ω s =>
        { s with
          request := { s.request with filesVar := some ω.object }
          protectStack := ω.object :: s.protectStack })
      (fun _ s => ∃ making, (returnPost = true → making = .nilValue) ∧
        Making inUse replaced (some making) s ∧
          ∀ object, some making = some object → s.request.filesVar = some object) := by
    apply change_triple (fun _ now => now.1.keepsReachable)
      fun _ ⟨_, _, now, _⟩ => now.keepsReachable
    rintro ω s ⟨⟨at_, request⟩, isParsed⟩ meets
    refine ⟨ω.object, ?_, ⟨at_.keeps ⟨rfl, rfl, rfl, rfl, rfl, rfl⟩, ?_, ?_, ?_, request.keeps⟩,
      fun _ isMade => isMade⟩
    · rintro rfl
      exact meets.filesFirst isParsed ω.object rfl
    · exact fun object isHeld => .inr (.inr isHeld)
    · intro object isHeld
      rcases request.serverVar object isHeld with nil | returned | none
      · exact .inl nil
      · exact .inr (.inl returned)
      · cases none
    · intro object isMade
      cases isMade
      exact List.mem_cons_self
  refine made.bind fun _ => ?_
  apply Triple.exists
  intro making
  apply Triple.given
  intro isNil
  apply (protectNew_triple fun _ _ held => held).post
  exact fun _ s now => ⟨making, isNil, now⟩

theorem parsePost_triple (returnPost : Bool) :
    Triple careful KeepsReachable (Here inUse replaced) (parsePost returnPost)
      fun _ => Here inUse replaced := by
  have returns : Triple careful KeepsReachable (Here inUse replaced)
      (returnList returnPost 0) fun _ => Here inUse replaced := by
    have nothing : Triple careful KeepsReachable
        (fun s => Making inUse replaced none s ∧
          ∀ object, none = some object → s.request.filesVar = some object)
        (returnList returnPost 0) fun _ => Here inUse replaced :=
      returnList_triple returnPost 0 fun _ => .inl rfl
    apply nothing.pre
    intro s here
    refine ⟨here, ?_⟩
    intro object isMade
    cases isMade
  refine (look_triple (fun _ here => here.keepsReachable) _).bind fun input => ?_
  refine Triple.pre ?_ fun _ now => now.2
  cases input with
  | ignored => exact returnNew_triple fun _ => .nilValue
  | parsed => exact returns
  | noParser => exact noFiles_triple.bind fun _ => returnNew_triple fun _ => .nilValue
  | unparsed =>
      have parsed : Triple careful KeepsReachable (Here inUse replaced)
          (Objects.change fun _ s =>
            { s with request := { s.request with postParsed := some returnPost } })
          (fun _ s =>
            Here inUse replaced s ∧ s.request.postParsed = some returnPost) := by
        apply change_triple (fun _ here => here.keepsReachable) fun _ now => now.1.keepsReachable
        rintro ω s ⟨at_, request⟩ _
        exact ⟨⟨at_.keeps ⟨rfl, rfl, rfl, rfl, rfl, rfl⟩, request.filesVar, request.serverVar,
          nofun, request.keeps⟩, rfl⟩
      refine parsed.bind fun _ => ?_
      refine (look_triple (fun _ now => now.1.keepsReachable) _).bind fun hasUploads => ?_
      refine Triple.pre ?_ fun _ now => now.2
      cases hasUploads with
      | false =>
          refine Triple.pre ?_ fun _ now => now.1
          exact noFiles_triple.bind fun _ => returns
      | true =>
          refine (makeFiles_triple returnPost).bind fun _ => ?_
          apply Triple.exists
          intro making
          apply Triple.given
          intro isNil
          exact returnList_triple returnPost 2 fun isPost => .inr (congrArg some (isNil isPost))

theorem getServer_triple :
    Triple careful KeepsReachable (Here inUse replaced) getServer
      fun _ => Here inUse replaced := by
  refine (look_triple (fun _ here => here.keepsReachable) _).bind fun active => ?_
  refine Triple.pre ?_ fun _ now => now.2
  cases active with
  | false => exact returnNew_triple fun _ => .nilValue
  | true =>
      refine (look_triple (fun _ here => here.keepsReachable) _).bind fun isMade => ?_
      refine Triple.pre ?_ fun _ now => now.2
      cases isMade with
      | true => exact returnKept_triple 0 RequestObjects.serverVar
      | false =>
          have made : Triple careful KeepsReachable (Here inUse replaced)
              (Objects.change fun ω s =>
                { s with
                  request := { s.request with serverVar := some ω.object }
                  protectStack := ω.object :: s.protectStack })
              (fun _ s => ∃ making, Making inUse replaced (some making) s ∧
                s.request.serverVar = some making) := by
            apply change_triple (fun _ here => here.keepsReachable)
              fun _ ⟨_, now, _⟩ => now.keepsReachable
            rintro ω s ⟨at_, request⟩ _
            refine ⟨ω.object, ⟨at_.keeps ⟨rfl, rfl, rfl, rfl, rfl, rfl⟩, ?_, ?_, ?_,
              request.keeps⟩, rfl⟩
            · intro object isHeld
              rcases request.filesVar object isHeld with nil | returned | none
              · exact .inl nil
              · exact .inr (.inl returned)
              · cases none
            · exact fun object isHeld => .inr (.inr isHeld)
            · intro object isMade
              cases isMade
              exact List.mem_cons_self
          refine made.bind fun _ => ?_
          apply Triple.exists
          intro making
          refine (protectNew_triple fun _ _ held => held).bind fun _ => ?_
          apply (returnHeld_triple 2 RequestObjects.serverVar).pre
          rintro s ⟨now, isHeld⟩
          refine ⟨now, ?_⟩
          intro object isMade
          cases isMade
          exact isHeld

/-- R code, whatever it does. -/
theorem runCode_triple (code : RCode) :
    Triple careful KeepsReachable (Here inUse replaced) (runCode code)
      fun _ => Here inUse replaced := by
  induction code with
  | finish => exact .done (fun _ here => here.keepsReachable) fun _ here => here
  | bind objects next ih =>
      have binds : Triple careful KeepsReachable (Here inUse replaced)
          (Objects.change fun _ s => { s with bound := objects })
          (fun _ => Here inUse replaced) := by
        apply change_triple (fun _ here => here.keepsReachable) fun _ here => here.keepsReachable
        rintro ω s ⟨at_, request⟩ meets
        exact ⟨at_.keeps ⟨rfl, rfl, rfl, rfl, rfl, rfl⟩, request.filesVar, request.serverVar,
          nofun, meets.keeps⟩
      exact binds.bind fun _ => ih
  | parsePost returnPost next ih => exact (parsePost_triple returnPost).bind fun value => ih value
  | getServer next ih => exact getServer_triple.bind fun value => ih value
  | rapacheInfo execs next ihExecs ihNext =>
      refine ihExecs.bind fun _ => ?_
      refine (look_triple (fun _ here => here.keepsReachable) _).bind fun success => ?_
      refine Triple.pre ?_ fun _ now => now.2
      cases success with
      | true => exact ihNext
      | false => exact clearRequest_triple.bind fun _ => ihNext

theorem evaluate_triple :
    Triple careful KeepsReachable (Here inUse replaced) evaluate
      fun _ => Here inUse replaced := by
  refine (look_triple (fun _ here => here.keepsReachable) _).bind fun code => ?_
  refine Triple.pre ?_ fun _ now => now.2
  refine (runCode_triple code).bind fun _ => ?_
  exact (look_triple (fun _ here => here.keepsReachable) _).post fun _ _ now => now.2

theorem evalExprs_triple (exprs envir : Member) :
    Triple careful KeepsReachable (Here inUse replaced) (evalExprs exprs envir)
      fun _ => Here inUse replaced := by
  refine (look_triple (fun _ here => here.keepsReachable) _).bind fun present => ?_
  refine Triple.pre ?_ fun _ now => now.2
  cases present with
  | false => exact exit_triple fun _ here => here.keepsReachable
  | true =>
      refine (protect_triple _).bind fun _ => ?_
      refine evaluate_triple.bind fun success => ?_
      exact (unprotect_triple 2).bind fun _ =>
        .done (fun _ here => here.keepsReachable) fun _ here => here

/-! ## The handler -/

/-- Looking is nothing to what is known here. -/
theorem lookHere_triple {α : Type} (value : ObjectAnswer → Objects → α) :
    Triple careful KeepsReachable (Here inUse replaced) (look value)
      fun _ => Here inUse replaced :=
  (look_triple (fun _ here => here.keepsReachable) value).post fun _ _ now => now.2

/-- An end of a function at this point. -/
theorem done_triple {α : Type} (value : α) :
    Triple careful KeepsReachable (Here inUse replaced) (pure value : ObjectCode α)
      fun _ => Here inUse replaced :=
  .done (fun _ here => here.keepsReachable) fun _ here => here

theorem tearDownRequest_triple :
    Triple careful KeepsReachable (Here inUse none) tearDownRequest
      fun _ => Here none none := by
  refine evaluate_triple.bind fun _ => ?_
  refine clearRequest_triple.bind fun _ => ?_
  apply change_triple (fun _ here => here.keepsReachable) fun _ here => here.keepsReachable
  rintro ω s ⟨at_, request⟩ _
  refine ⟨⟨⟨at_.anchored.members, ?_, at_.anchored.releases⟩, rfl, at_.replaced⟩,
    request.unchanged rfl rfl rfl rfl⟩
  intro key object isUsed
  cases isUsed

theorem fail_triple :
    Triple careful KeepsReachable (Here inUse none) fail fun _ => Here none none :=
  evaluate_triple.bind fun _ => tearDownRequest_triple

/-- `PrepareFileExprs` of a file whose name `parse` can be called with. -/
theorem prepareFileExprs_triple (w : World) (key file : Bytes)
    (isCall : (w.parse (callFun1strText (bytes "parse") file)).isSome) :
    Triple careful KeepsReachable (Here none none) (prepareFileExprs w key file)
      fun _ => Here none none := by
  refine (lookHere_triple _).bind fun finfo => ?_
  cases finfo with
  | none => exact .done (fun _ here => here.keepsReachable) fun _ here => here
  | some mtime =>
      refine (fileRecord_triple key file).bind fun record => ?_
      refine (lookHere_triple _).bind fun older => ?_
      cases older with
      | false => exact .done (fun _ here => here.keepsReachable) fun _ here => here
      | true =>
          refine (release_triple (.inl rfl)).bind fun _ => ?_
          rw [if_pos isCall]
          refine evaluate_triple.bind fun success => ?_
          cases success with
          | true =>
              refine (assignPreserved_triple others_of_released).bind fun _ => ?_
              have stamps : Triple careful KeepsReachable
                  (fun s => Owns s (.fileExprs record) ∧ Here none none s)
                  (Objects.change fun _ s =>
                    { s with mtime := Function.update s.mtime record mtime })
                  (fun _ => Here none none) := by
                apply change_triple (fun _ now => now.2.keepsReachable)
                  fun _ here => here.keepsReachable
                rintro ω s ⟨-, at_, request⟩ _
                exact ⟨at_.keeps ⟨rfl, rfl, rfl, rfl, rfl, rfl⟩,
                  request.unchanged rfl rfl rfl rfl⟩
              exact stamps.bind fun _ =>
                .done (fun _ here => here.keepsReachable) fun _ here => here
          | false =>
              exact (assign_triple others_of_released fun _ => rfl).bind fun _ =>
                .done (fun _ here => here.keepsReachable) fun _ here => here

/-- The expression that is built is preserved. -/
theorem buildExpr_triple (w : World) (key : Bytes) (d : RApacheDirective) :
    Triple careful KeepsReachable (Here inUse none) (buildExpr w key d)
      fun _ => Here inUse none := by
  have builds : Triple careful KeepsReachable (Here inUse none)
      (buildExpr.build w key d) fun _ => Here inUse none := by
    unfold buildExpr.build
    split
    next => exact done_triple false
    next text _ =>
      split
      next =>
        exact (assignPreserved_triple others_of_none).bind fun _ =>
          (done_triple true).pre fun _ now => now.2
      next => exact (assign_triple others_of_none fun _ => rfl).bind fun _ => done_triple false
  refine (lookHere_triple _).bind fun present => ?_
  cases present with
  | true => exact done_triple true
  | false =>
      simp only [Bool.false_eq_true, if_false]
      split
      next =>
        refine evaluate_triple.bind fun isFound => ?_
        cases isFound with
        | true => exact builds
        | false => exact done_triple false
      next => exact builds

/-- `PrepareHandlerExpr`, if it parses no script's call. -/
theorem prepareHandlerExpr_triple (w : World) (key : Bytes) (d : RApacheDirective)
    (r : RequestRec) (type : RApacheHandlerType) (isType : handlerType r.handler = some type)
    (noScript : handlerType r.handler = some .script → requestExpr w r = none) :
    Triple careful KeepsReachable (Here inUse none) (prepareHandlerExpr w key d r type)
      fun _ => Here inUse none := by
  unfold prepareHandlerExpr
  split
  next isScript =>
    rw [isScript] at isType
    have unparsed := noScript isType
    split
    next text isText =>
      refine Triple.bind ?_ fun _ => buildExpr_triple w key d
      refine (release_triple (.inr ⟨key, rfl⟩)).bind fun _ => ?_
      apply assign_triple others_of_released
      intro ω
      rw [requestExpr, isText, Option.bind_some, Option.map_eq_none_iff] at unparsed
      rw [unparsed]
      rfl
    next =>
      exact (exit_triple fun _ here => here.keepsReachable).bind fun _ => buildExpr_triple w key d
  next => exact buildExpr_triple w key d

theorem runExpr_triple (w : World) (key : Bytes) (d : RApacheDirective) (r : RequestRec)
    (type : RApacheHandlerType) (isType : handlerType r.handler = some type)
    (noScript : handlerType r.handler = some .script → requestExpr w r = none) :
    Triple careful KeepsReachable (Here inUse none) (runExpr w key d r type)
      fun _ => Here none none := by
  unfold runExpr
  split
  next =>
    refine (prepareHandlerExpr_triple w key d r type isType noScript).bind fun ready => ?_
    cases ready with
    | false => exact tearDownRequest_triple
    | true =>
        refine (evalExprs_triple _ _).bind fun success => ?_
        cases success with
        | true => exact tearDownRequest_triple
        | false => exact fail_triple
  next => exact tearDownRequest_triple

theorem runHandler_triple (w : World) (key : Bytes) (d : RApacheDirective) (r : RequestRec)
    (type : RApacheHandlerType) (isType : handlerType r.handler = some type)
    (isDirective : r.perDirConfig = some d) (proper : ProperRequest w r) :
    Triple careful KeepsReachable (Here none none) (runHandler w key d r type)
      fun _ => Here none none := by
  unfold runHandler
  split
  next =>
    refine (newEnv_triple (.envir key)).bind fun _ => ?_
    refine (useEnvir_triple key).bind fun _ => ?_
    exact runExpr_triple w key d r type isType proper.noScript
  next file isFile =>
    have isCall := proper.parseCall file (by rw [RequestRec.file, isDirective]; exact isFile)
    have settled (record : Bytes) : Triple careful KeepsReachable (Here none none)
        (setEnvir key record >>= fun _ => runExpr w key d r type) fun _ => Here none none :=
      (setEnvir_triple key record).bind fun _ =>
        runExpr_triple w key d r type isType proper.noScript
    refine (lookHere_triple _).bind fun success => ?_
    cases success with
    | false => exact tearDownRequest_triple
    | true =>
        refine (prepareFileExprs_triple w key file isCall).bind fun ready => ?_
        cases ready with
        | none => exact tearDownRequest_triple
        | some ready =>
            rcases ready with ⟨record, fileParsed⟩
            simp only
            split
            next =>
              refine (newEnv_triple (.fileEnvir record)).bind fun _ => ?_
              refine Triple.pre ?_ fun _ now => now.2
              refine (evalExprs_triple _ _).bind fun success => ?_
              cases success with
              | true => exact settled record
              | false => exact fail_triple
            next => exact settled record

theorem apHookRequestHandler_triple (w : World) (r : RequestRec) (proper : ProperRequest w r) :
    Triple careful KeepsReachable (Here none none) (apHookRequestHandler w r)
      fun _ => Here none none := by
  unfold apHookRequestHandler
  split
  next => exact done_triple ()
  next type isType =>
    refine (lookHere_triple _).bind fun success => ?_
    cases success with
    | false => exact done_triple ()
    | true =>
        have begins : Triple careful KeepsReachable (Here none none)
            (Objects.change fun _ s => { s with request := { s.request with active := true } })
            (fun _ => Here none none) := by
          apply change_triple (fun _ here => here.keepsReachable) fun _ here => here.keepsReachable
          rintro ω s ⟨at_, request⟩ _
          exact ⟨at_.keeps ⟨rfl, rfl, rfl, rfl, rfl, rfl⟩, request.filesVar, request.serverVar,
            nofun, request.keeps⟩
        refine begins.bind fun _ => ?_
        split
        next => exact fail_triple
        next =>
          split
          next d key isDirective _ =>
            split
            next => exact tearDownRequest_triple
            next =>
              refine evaluate_triple.bind fun success => ?_
              cases success with
              | true => exact runHandler_triple w key d r type isType isDirective proper
              | false => exact exit_triple fun _ here => here.keepsReachable
          next => exact tearDownRequest_triple

theorem serve_triple (w : World) (requests : List RequestRec)
    (proper : ∀ r ∈ requests, ProperRequest w r) :
    Triple careful KeepsReachable (Here none none) (serve w requests)
      fun _ => Here none none := by
  induction requests with
  | nil => exact done_triple ()
  | cons r requests ih =>
      refine (apHookRequestHandler_triple w r (proper r List.mem_cons_self)).bind fun _ => ?_
      exact ih fun r' isLater => proper r' (List.mem_cons_of_mem r isLater)

end Objects

/-! ## Requests -/

/-- The objects before the first request: R has bound some. -/
def Objects.start (bound : List RObject) : Objects := { bound }

/-- In every run of proper requests whose steps are careful, whatever a later step may use stays
reachable, and every call of `R_ReleaseObject` undoes one of `R_PreserveObject` for the same
member. -/
theorem objects_stay_reachable (w : World) (requests : List RequestRec) (bound : List RObject)
    (proper : ∀ r ∈ requests, ProperRequest w r) (rest : ObjectCode Unit) (s : Objects)
    (reaches : Reaches careful (Objects.serve w requests) (Objects.start bound) rest s) :
    KeepsReachable s := by
  have begins : Here none none (Objects.start bound) := by
    refine ⟨⟨⟨?_, ?_, ?_⟩, rfl, rfl⟩, nofun, nofun, nofun, nofun⟩
    · intro _ _ isHeld
      cases isHeld
    · intro _ _ isUsed
      cases isUsed
    · intro _ isRelease
      cases isRelease
  exact (Objects.serve_triple w requests proper _ begins).invariant reaches

/-- Some careful steps of two r-handler requests, in which R makes a new object for each step. -/
def carefulBrews (count : Nat) : Option (ObjectCode Unit × Objects) :=
  Program.runIf careful (fun step => { object := .object step }) count
    (Objects.serve plainWorld [brewRequest (bytes "r-handler"), brewRequest (bytes "r-handler")])
    (Objects.start [])

/-- The second request releases the environment of the first. -/
theorem environment_is_released_once :
    ∃ rest s, Reaches careful (Objects.serve plainWorld
        [brewRequest (bytes "r-handler"), brewRequest (bytes "r-handler")]) (Objects.start [])
        rest s ∧
      s.releases.length = 1 ∧ KeepsReachable s := by
  have ran : (carefulBrews 35).isSome := by decide +kernel
  have released : ((carefulBrews 35).get ran).2.releases.length = 1 := by decide +kernel +revert
  have reaches := Program.runIf_reaches (Option.some_get ran).symm
  refine ⟨_, _, reaches, released,
    objects_stay_reachable plainWorld _ [] ?_ _ _ reaches⟩
  intro r isRequest
  simp only [List.mem_cons, List.not_mem_nil, or_false, or_self] at isRequest
  rw [isRequest]
  constructor
  · intro isScript
    exact absurd isScript (by decide +kernel)
  · intro file isFile
    cases isFile

/-- Some steps of a request, whose R code does this. -/
def anyBrew (handler : Bytes) (code : RCode) (count : Nat) : Option (ObjectCode Unit × Objects) :=
  Program.runWith (fun step => { object := .object step, hasUploads := true, code }) count
    (Objects.serve plainWorld [brewRequest handler]) (Objects.start [])

/-- The expression of an r-script request is not preserved, and the list of the uploads is not
kept when R asks for `POST` first. -/
theorem expression_and_uploads_are_lost :
    (∃ rest s, Reaches (fun _ _ _ => True)
        (Objects.serve plainWorld [brewRequest (bytes "r-script")]) (Objects.start []) rest s ∧
      ¬ KeepsReachable s) ∧
    (∃ rest s, Reaches (fun _ _ _ => True)
        (Objects.serve plainWorld [brewRequest (bytes "r-handler")]) (Objects.start []) rest s ∧
      ¬ KeepsReachable s) := by
  constructor
  · have ran : (anyBrew (bytes "r-script") .finish 11).isSome := by decide +kernel
    have holds : ((anyBrew (bytes "r-script") .finish 11).get ran).2.held (.expr (bytes "brew")) =
        some (.object 8) := by decide +kernel +revert
    have mayUse : ((anyBrew (bytes "r-script") .finish 11).get ran).2.MayUse
        (.expr (bytes "brew")) := by decide +kernel +revert
    have lost : ¬ ((anyBrew (bytes "r-script") .finish 11).get ran).2.Reachable (.object 8) := by
      decide +kernel +revert
    refine ⟨_, _, Program.runWith_reaches (Option.some_get ran).symm, ?_⟩
    intro keeps
    exact lost (keeps.members _ _ holds mayUse)
  · have ran : (anyBrew (bytes "r-handler") (.parsePost true fun _ => .finish) 10).isSome := by
      decide +kernel
    have holds : ((anyBrew (bytes "r-handler") (.parsePost true fun _ => .finish) 10).get
        ran).2.request.filesVar = some (.object 6) := by decide +kernel +revert
    have lost : ¬ ((anyBrew (bytes "r-handler") (.parsePost true fun _ => .finish) 10).get
        ran).2.Reachable (.object 6) := by decide +kernel +revert
    refine ⟨_, _, Program.runWith_reaches (Option.some_get ran).symm, ?_⟩
    intro keeps
    exact lost (keeps.filesVar _ holds)

end RApache
