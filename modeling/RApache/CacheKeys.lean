import RApache.CacheRuns
import RApache.Library.BorrowedKeys

/-!
# The keys of the caches

`apr_hash_set` keeps the pointer to its key.  The keys of `MR_HandlerCache` and of
`MR_ParsedFileCache` are strings of directives, which live in the pool of the configuration in
which the directive was read.
-/

namespace RApache

open BorrowedKeys

/-- The pools of strings of directives: that of the main configuration, and that of a request in
which a `.htaccess` file is read. -/
inductive StringPool where
  | main
  | request (number : Nat)
  deriving DecidableEq, Repr

/-- The strings live as long as the child. -/
def StringPool.Lasts (pool : StringPool) : Prop := pool = .main

instance (pool : StringPool) : Decidable pool.Lasts := inferInstanceAs (Decidable (_ = _))

/-- A pointer to a string. -/
structure StringPtr where
  pool : StringPool
  address : Nat
  deriving DecidableEq, Repr

/-- The strings of the record of a request that the caches are asked for.  They were read together,
and `AP_merge_dir_cfg` only copies the pointers to them. -/
structure DirectiveStrings where
  pool : StringPool
  handlerKey : Nat
  file : Option Nat
  deriving DecidableEq, Repr

/-- An entry of a cache; its value is the number of a record in `MR_Pool`. -/
abbrev CacheEntry := Entry StringPtr UInt8 UInt32 Nat

/-- The strings in all pools, the requests that are being handled and the number of those that have
begun, the two caches, and the records: how many there are, and to which record of a file that of
a handler points. -/
structure CacheState where
  strings : StringPtr → Bytes
  live : List Nat := []
  begun : Nat := 0
  handlerCache : List CacheEntry := []
  parsedFileCache : List CacheEntry := []
  records : Nat := 0
  parsedFile : Nat → Option Nat := fun _ => none

namespace CacheState

variable (hashOf : Bytes → UInt32)

/-- `apr_hash_get` on `MR_HandlerCache`. -/
def findHandler (s : CacheState) (name : Bytes) : Option CacheEntry :=
  find hashOf s.strings s.handlerCache name

/-- `apr_hash_get` on `MR_ParsedFileCache`. -/
def findFile (s : CacheState) (name : Bytes) : Option CacheEntry :=
  find hashOf s.strings s.parsedFileCache name

/-- The lookup in `GetHandlerFromRequest`, which makes the entry if there is none: the record. -/
def getHandlerFromRequest (d : DirectiveStrings) (s : CacheState) : Nat × CacheState :=
  let key : StringPtr := ⟨d.pool, d.handlerKey⟩
  match s.findHandler hashOf (s.strings key) with
  | some entry => (entry.value, s)
  | none =>
      (s.records,
        { s with
          handlerCache := insert hashOf s.strings key s.records s.handlerCache
          records := s.records + 1 })

/-- The lookup in `PrepareFileExprs` for the record `h` of a handler, which makes the entry if
there is none. -/
def prepareFileExprs (d : DirectiveStrings) (h : Nat) (s : CacheState) : CacheState :=
  match s.parsedFile h, d.file with
  | some _, _ => s
  | none, none => s
  | none, some file =>
      let key : StringPtr := ⟨d.pool, file⟩
      match s.findFile hashOf (s.strings key) with
      | some entry => { s with parsedFile := Function.update s.parsedFile h (some entry.value) }
      | none =>
          { s with
            parsedFileCache := insert hashOf s.strings key s.records s.parsedFileCache
            records := s.records + 1
            parsedFile := Function.update s.parsedFile h (some s.records) }

/-- The lookups for a request; `prepares` says whether it comes to that of its file. -/
def handle (d : DirectiveStrings) (prepares : Bool) (s : CacheState) : CacheState :=
  let got := s.getHandlerFromRequest hashOf d
  if prepares then got.2.prepareFileExprs hashOf d got.1 else got.2

/-- The strings of all other pools are left alone. -/
def OnlyPool (pool : StringPool) (strings strings' : StringPtr → Bytes) : Prop :=
  ∀ ptr : StringPtr, ptr.pool ≠ pool → strings' ptr = strings ptr

/-- What happens in a child: a request begins, for which `.htaccess` files are read into its pool;
it is handled, with a directive from the main configuration or from its own pool; and its pool is
destroyed, after which the memory holds anything. -/
inductive CacheStep where
  | begins (strings : StringPtr → Bytes)
  | handles (d : DirectiveStrings) (prepares : Bool)
  | ends (number : Nat) (strings : StringPtr → Bytes)

/-- The state after a step, if it can be taken. -/
inductive Steps : CacheState → CacheStep → CacheState → Prop where
  | begins {s : CacheState} {strings : StringPtr → Bytes}
      (only : OnlyPool (.request s.begun) s.strings strings) :
      Steps s (.begins strings)
        { s with strings, live := s.begun :: s.live, begun := s.begun + 1 }
  | handles {s : CacheState} {d : DirectiveStrings} {prepares : Bool}
      (readable : d.pool = .main ∨ ∃ number ∈ s.live, d.pool = .request number) :
      Steps s (.handles d prepares) (s.handle hashOf d prepares)
  | ends {s : CacheState} {number : Nat} {strings : StringPtr → Bytes} (isLive : number ∈ s.live)
      (only : OnlyPool (.request number) s.strings strings) :
      Steps s (.ends number strings) { s with strings, live := s.live.erase number }

/-- A request whose directive is not from the main configuration finds the entries of its handler
and of its file. -/
def FindsEntries (s : CacheState) : CacheStep → Prop
  | .handles d prepares =>
      d.pool.Lasts ∨ ∃ entry, s.findHandler hashOf (s.strings ⟨d.pool, d.handlerKey⟩) = some entry ∧
        (prepares = true → s.parsedFile entry.value = none → ∀ file, d.file = some file →
          (s.findFile hashOf (s.strings ⟨d.pool, file⟩)).isSome)
  | _ => True

/-- Every stored key lives as long as the caches. -/
def KeysLast (s : CacheState) : Prop :=
  (∀ entry ∈ s.handlerCache, entry.key.pool.Lasts) ∧
    ∀ entry ∈ s.parsedFileCache, entry.key.pool.Lasts

/-- A lookup finds the entry that was made for its key and no other. -/
def FindsOwn (s : CacheState) : Prop :=
  ∀ name entry,
    (s.findHandler hashOf name = some entry ↔ entry ∈ s.handlerCache ∧ entry.name = name) ∧
    (s.findFile hashOf name = some entry ↔ entry ∈ s.parsedFileCache ∧ entry.name = name)

/-- A child in which the caches are empty, and runs of it in which every step meets a condition. -/
inductive Runs (ok : CacheState → CacheStep → Prop) (strings : StringPtr → Bytes) :
    CacheState → Prop where
  | init : Runs ok strings { strings }
  | step {s s' : CacheState} {step : CacheStep} (before : Runs ok strings s) (meets : ok s step)
      (stepped : Steps hashOf s step s') : Runs ok strings s'

/-- The keys live as long as the caches, spell the names that their entries were made for, and
there is one entry for a name. -/
structure KeysSpelled (s : CacheState) : Prop where
  handlers : Sound hashOf s.strings s.handlerCache
  files : Sound hashOf s.strings s.parsedFileCache
  last : KeysLast s

variable {hashOf} {s s' : CacheState} {d : DirectiveStrings}

/-! ## One request -/

theorem getHandlerFromRequest_found {entry : CacheEntry}
    (found : s.findHandler hashOf (s.strings ⟨d.pool, d.handlerKey⟩) = some entry) :
    s.getHandlerFromRequest hashOf d = (entry.value, s) := by
  rw [getHandlerFromRequest, found]

theorem getHandlerFromRequest_missing
    (missing : s.findHandler hashOf (s.strings ⟨d.pool, d.handlerKey⟩) = none) :
    s.getHandlerFromRequest hashOf d =
      (s.records,
        { s with
          handlerCache :=
            insert hashOf s.strings ⟨d.pool, d.handlerKey⟩ s.records s.handlerCache
          records := s.records + 1 }) := by
  rw [getHandlerFromRequest, missing]

/-- What `PrepareFileExprs` does to the caches. -/
theorem prepareFileExprs_cases (hashOf : Bytes → UInt32) (d : DirectiveStrings) (h : Nat)
    (s : CacheState) :
    (s.prepareFileExprs hashOf d h).strings = s.strings ∧
      (s.prepareFileExprs hashOf d h).handlerCache = s.handlerCache ∧
      ((s.prepareFileExprs hashOf d h).parsedFileCache = s.parsedFileCache ∨
        ∃ file, d.file = some file ∧ s.parsedFile h = none ∧
          s.findFile hashOf (s.strings ⟨d.pool, file⟩) = none ∧
          (s.prepareFileExprs hashOf d h).parsedFileCache =
            insert hashOf s.strings ⟨d.pool, file⟩ s.records s.parsedFileCache) := by
  unfold prepareFileExprs
  split
  next => exact ⟨rfl, rfl, .inl rfl⟩
  next => exact ⟨rfl, rfl, .inl rfl⟩
  next file unset isFile =>
    dsimp only
    split
    next => exact ⟨rfl, rfl, .inl rfl⟩
    next missing => exact ⟨rfl, rfl, .inr ⟨file, isFile, unset, missing, rfl⟩⟩

/-- An entry whose key is from a pool that lasts keeps the keys so. -/
theorem lasts_insert {strings : StringPtr → Bytes} {key : StringPtr} {value : Nat}
    {cache : List CacheEntry} (lasts : key.pool.Lasts)
    (before : ∀ entry ∈ cache, entry.key.pool.Lasts) :
    ∀ entry ∈ insert hashOf strings key value cache, entry.key.pool.Lasts := by
  intro entry member
  rcases List.mem_append.mp member with old | new
  · exact before entry old
  · rw [List.mem_singleton.mp new]
    exact lasts

theorem KeysSpelled.getHandlerFromRequest (spelled : KeysSpelled hashOf s)
    (lasts : d.pool.Lasts ∨
      (s.findHandler hashOf (s.strings ⟨d.pool, d.handlerKey⟩)).isSome) :
    KeysSpelled hashOf (s.getHandlerFromRequest hashOf d).2 := by
  cases found : s.findHandler hashOf (s.strings ⟨d.pool, d.handlerKey⟩) with
  | some entry =>
      rw [getHandlerFromRequest_found found]
      exact spelled
  | none =>
      rw [getHandlerFromRequest_missing found]
      have isMain : d.pool.Lasts := lasts.resolve_right (by simp [found])
      exact ⟨spelled.handlers.insert _ found, spelled.files,
        lasts_insert isMain spelled.last.1, spelled.last.2⟩

theorem KeysSpelled.prepareFileExprs (spelled : KeysSpelled hashOf s) {h : Nat}
    (lasts : d.pool.Lasts ∨ (s.parsedFile h = none → ∀ file, d.file = some file →
      (s.findFile hashOf (s.strings ⟨d.pool, file⟩)).isSome)) :
    KeysSpelled hashOf (s.prepareFileExprs hashOf d h) := by
  rcases prepareFileExprs_cases hashOf d h s with
    ⟨strings, handlers, files | ⟨file, isFile, unset, missing, files⟩⟩
  · constructor
    · rw [strings, handlers]
      exact spelled.handlers
    · rw [strings, files]
      exact spelled.files
    · rw [KeysLast, handlers, files]
      exact spelled.last
  · have isMain : d.pool.Lasts := lasts.resolve_right fun finds => by
      simpa [missing] using finds unset file isFile
    constructor
    · rw [strings, handlers]
      exact spelled.handlers
    · rw [strings, files]
      exact spelled.files.insert _ missing
    · rw [KeysLast, handlers, files]
      exact ⟨spelled.last.1, lasts_insert isMain spelled.last.2⟩

theorem KeysSpelled.handle (spelled : KeysSpelled hashOf s) {prepares : Bool}
    (finds : FindsEntries hashOf s (.handles d prepares)) :
    KeysSpelled hashOf (s.handle hashOf d prepares) := by
  have got := spelled.getHandlerFromRequest (d := d) (finds.imp_right fun ⟨entry, found, _⟩ => by
    rw [found]
    rfl)
  unfold CacheState.handle
  cases prepares with
  | false => exact got
  | true =>
      refine got.prepareFileExprs (finds.imp_right fun ⟨entry, found, finds⟩ => ?_)
      rw [getHandlerFromRequest_found found]
      exact finds rfl

/-- Changing the pool of a request changes no key. -/
theorem KeysSpelled.onlyPool (spelled : KeysSpelled hashOf s) {number : Nat}
    {strings : StringPtr → Bytes} (only : OnlyPool (.request number) s.strings strings)
    {live : List Nat} {begun : Nat} :
    KeysSpelled hashOf { s with strings, live, begun } := by
  have same (cache : List CacheEntry) (lasts : ∀ entry ∈ cache, entry.key.pool.Lasts) :
      ∀ entry ∈ cache, strings entry.key = s.strings entry.key := by
    intro entry member
    refine only entry.key ?_
    rw [lasts entry member]
    nofun
  exact ⟨spelled.handlers.congr (same _ spelled.last.1),
    spelled.files.congr (same _ spelled.last.2), spelled.last⟩

theorem KeysSpelled.step (spelled : KeysSpelled hashOf s) {step : CacheStep}
    (finds : FindsEntries hashOf s step) (stepped : Steps hashOf s step s') :
    KeysSpelled hashOf s' := by
  cases stepped with
  | begins only => exact spelled.onlyPool only
  | handles readable => exact spelled.handle finds
  | ends isLive only => exact spelled.onlyPool only

theorem KeysSpelled.findsOwn (spelled : KeysSpelled hashOf s) : FindsOwn hashOf s :=
  fun name entry => ⟨spelled.handlers.find_iff name entry, spelled.files.find_iff name entry⟩

/-- In its own step the lookup, and the entry made by it, are those of a map from names to
records. -/
theorem getHandlerFromRequest_byName (hashOf : Bytes → UInt32) (d : DirectiveStrings)
    (s : CacheState) :
    (fun name => ((s.getHandlerFromRequest hashOf d).2.findHandler hashOf name).map Entry.value) =
      Function.update (fun name => (s.findHandler hashOf name).map Entry.value)
        (s.strings ⟨d.pool, d.handlerKey⟩) (some (s.getHandlerFromRequest hashOf d).1) := by
  cases found : s.findHandler hashOf (s.strings ⟨d.pool, d.handlerKey⟩) with
  | some entry =>
      rw [getHandlerFromRequest_found found]
      funext name
      by_cases isKey : name = s.strings ⟨d.pool, d.handlerKey⟩
      · rw [isKey, Function.update_self, found]
        rfl
      · rw [Function.update_of_ne isKey]
  | none =>
      rw [getHandlerFromRequest_missing found]
      funext name
      have inserted := find_insert s.records found name
      by_cases isKey : name = s.strings ⟨d.pool, d.handlerKey⟩
      · rw [if_pos isKey] at inserted
        rw [isKey, Function.update_self, ← isKey]
        exact inserted
      · rw [if_neg isKey] at inserted
        rw [Function.update_of_ne isKey]
        exact inserted

/-! ## Runs -/

/-- A request that does not find its entries leaves a key that does not last. -/
theorem not_keysLast_of_handle {prepares : Bool}
    (misses : ¬ FindsEntries hashOf s (.handles d prepares)) :
    ¬ KeysLast (s.handle hashOf d prepares) := by
  intro last
  rcases not_or.mp misses with ⟨short, misses⟩
  cases found : s.findHandler hashOf (s.strings ⟨d.pool, d.handlerKey⟩) with
  | none =>
      have cached : (s.handle hashOf d prepares).handlerCache =
          insert hashOf s.strings ⟨d.pool, d.handlerKey⟩ s.records s.handlerCache := by
        rw [CacheState.handle, getHandlerFromRequest_missing found]
        cases prepares with
        | false => rfl
        | true => exact (prepareFileExprs_cases hashOf d _ _).2.1
      rw [KeysLast, cached] at last
      exact short (last.1 _ (List.mem_append_right _ (List.mem_singleton_self _)))
  | some entry =>
      have missesFile : ¬ (prepares = true → s.parsedFile entry.value = none → ∀ file,
          d.file = some file → (s.findFile hashOf (s.strings ⟨d.pool, file⟩)).isSome) :=
        fun finds => misses ⟨entry, found, finds⟩
      simp only [Classical.not_imp, not_forall, Bool.not_eq_true, Option.isSome_eq_false_iff,
        Option.isNone_iff_eq_none] at missesFile
      rcases missesFile with ⟨isPreparing, unset, file, isFile, missing⟩
      have cached : (s.handle hashOf d prepares).parsedFileCache =
          insert hashOf s.strings ⟨d.pool, file⟩ s.records s.parsedFileCache := by
        rw [CacheState.handle, getHandlerFromRequest_found found, isPreparing]
        simp only [if_true, CacheState.prepareFileExprs, unset, isFile, missing]
      rw [KeysLast, cached] at last
      exact short (last.2 _ (List.mem_append_right _ (List.mem_singleton_self _)))

theorem not_keysLast_of_step {step : CacheStep} (misses : ¬ FindsEntries hashOf s step)
    (stepped : Steps hashOf s step s') : ¬ KeysLast s' := by
  cases stepped with
  | begins only => exact (misses trivial).elim
  | ends isLive only => exact (misses trivial).elim
  | handles readable => exact not_keysLast_of_handle misses

theorem Runs.keysSpelled {strings : StringPtr → Bytes}
    (runs : Runs hashOf (FindsEntries hashOf) strings s) : KeysSpelled hashOf s := by
  induction runs with
  | init => exact ⟨sound_nil, sound_nil, by simp [KeysLast]⟩
  | step _ meets stepped ih => exact ih.step meets stepped

/-- In every run in which requests with a directive of their own find their entries, every stored
key lives as long as the caches, and a lookup finds the entry that was made for its key and no
other; a request that does not find its entries leaves a key that does not last. -/
theorem stored_keys_last (hashOf : Bytes → UInt32) (strings : StringPtr → Bytes) :
    (∀ s, Runs hashOf (FindsEntries hashOf) strings s → KeysLast s ∧ FindsOwn hashOf s) ∧
      ∀ s step s', Steps hashOf s step s' → ¬ FindsEntries hashOf s step → ¬ KeysLast s' :=
  ⟨fun _ runs => ⟨runs.keysSpelled.last, runs.keysSpelled.findsOwn⟩,
    fun _ _ _ stepped misses => not_keysLast_of_step misses stepped⟩

/-- The strings while a `.htaccess` file with `RHandler f` is in force, and after that request. -/
def htaccessStrings (text : Bytes) (ptr : StringPtr) : Bytes :=
  if ptr.pool = .request 0 then text else []

/-- The child after that request. -/
def afterHtaccess : CacheState :=
  { CacheState.handle (fun _ => 0) ⟨.request 0, 0, none⟩ false
      { strings := htaccessStrings (bytes "f"), live := [0], begun := 1 } with
    strings := htaccessStrings (bytes "g"), live := [] }

/-- The entry for `f` has a key whose memory holds something else behind the request, and is not
found any more. -/
theorem htaccess_key_dangles :
    Runs (fun _ => 0) (fun _ _ => True) (htaccessStrings []) afterHtaccess ∧
      ¬ KeysLast afterHtaccess ∧ ¬ FindsOwn (fun _ => 0) afterHtaccess := by
  have only (text text' : Bytes) :
      OnlyPool (.request 0) (htaccessStrings text) (htaccessStrings text') := by
    intro ptr other
    simp [htaccessStrings, other]
  refine ⟨?_, ?_, ?_⟩
  · refine .step (.step (.step .init trivial (.begins (only [] (bytes "f")))) trivial
      (@Steps.handles _ _ ⟨.request 0, 0, none⟩ false ?_)) trivial
      (@Steps.ends _ _ 0 _ ?_ (only (bytes "f") (bytes "g")))
    · exact .inr ⟨0, List.mem_singleton_self 0, rfl⟩
    · exact List.mem_singleton_self 0
  · intro last
    exact absurd (last.1 ⟨0, 1, ⟨.request 0, 0⟩, 0, bytes "f"⟩ (by decide)) (by decide)
  · intro finds
    have found := (finds (bytes "f") ⟨0, 1, ⟨.request 0, 0⟩, 0, bytes "f"⟩).1.mpr
      ⟨by decide, rfl⟩
    exact absurd found (by decide)

end CacheState

end RApache
