import Mathlib.Data.List.Nodup

/-!
# Tables with borrowed keys

A hash table that keeps the pointers to its keys compares what they point to at the time of a
lookup.  As long as every pointer spells the name that its entry was made for, a lookup finds just
the entry of a name.
-/

namespace BorrowedKeys

variable {ρ α η ν : Type}

/-- An entry has the hash value and the length of its key from when it was made, for `name`. -/
structure Entry (ρ α η ν : Type) where
  hash : η
  klen : Nat
  key : ρ
  value : ν
  name : List α
  deriving DecidableEq, Repr

variable (hashOf : List α → η)

namespace Entry

/-- The comparison of a lookup: of the hash values, of the lengths, and then of what the key of the
entry points to. -/
def Matches (memory : ρ → List α) (name : List α) (entry : Entry ρ α η ν) : Prop :=
  entry.hash = hashOf name ∧ entry.klen = name.length ∧
    (memory entry.key).take entry.klen = name

instance [DecidableEq α] [DecidableEq η] (memory : ρ → List α) (name : List α)
    (entry : Entry ρ α η ν) : Decidable (entry.Matches hashOf memory name) :=
  inferInstanceAs (Decidable (_ ∧ _))

/-- The entry as it was made, with a key that still spells its name. -/
structure Spelled (memory : ρ → List α) (entry : Entry ρ α η ν) : Prop where
  hash : entry.hash = hashOf entry.name
  klen : entry.klen = entry.name.length
  key : memory entry.key = entry.name

end Entry

/-- The lookup of a name. -/
def find [DecidableEq α] [DecidableEq η] (memory : ρ → List α) (table : List (Entry ρ α η ν))
    (name : List α) : Option (Entry ρ α η ν) :=
  table.find? fun entry => decide (entry.Matches hashOf memory name)

/-- A new entry, for a key that was not found. -/
def insert (memory : ρ → List α) (key : ρ) (value : ν) (table : List (Entry ρ α η ν)) :
    List (Entry ρ α η ν) :=
  table ++
    [{ hash := hashOf (memory key), klen := (memory key).length, key, value, name := memory key }]

/-- All keys spell the names of their entries, which are different. -/
structure Sound (memory : ρ → List α) (table : List (Entry ρ α η ν)) : Prop where
  spelled : ∀ entry ∈ table, entry.Spelled hashOf memory
  names : (table.map Entry.name).Nodup

variable {hashOf} {memory memory' : ρ → List α} {table : List (Entry ρ α η ν)}

theorem Entry.Spelled.matches_iff {entry : Entry ρ α η ν} (spelled : entry.Spelled hashOf memory)
    (name : List α) : entry.Matches hashOf memory name ↔ entry.name = name := by
  constructor
  · rintro ⟨-, -, same⟩
    rwa [spelled.key, spelled.klen, List.take_length] at same
  · rintro rfl
    exact ⟨spelled.hash, spelled.klen, by rw [spelled.key, spelled.klen, List.take_length]⟩

theorem sound_nil : Sound hashOf memory ([] : List (Entry ρ α η ν)) :=
  ⟨by simp, List.nodup_nil⟩

/-- Two entries of one name are the same. -/
theorem Sound.eq_of_name (sound : Sound hashOf memory table) {entry other : Entry ρ α η ν}
    (member : entry ∈ table) (isOther : other ∈ table) (same : entry.name = other.name) :
    entry = other :=
  List.inj_on_of_nodup_map sound.names member isOther same

section Lookup

variable [DecidableEq α] [DecidableEq η]

theorem matches_of_find {name : List α} {entry : Entry ρ α η ν}
    (found : find hashOf memory table name = some entry) :
    entry ∈ table ∧ entry.Matches hashOf memory name := by
  have isMatch := List.find?_some found
  exact ⟨List.mem_of_find?_eq_some found, by simpa using isMatch⟩

/-- A lookup finds the entry of the name and no other. -/
theorem Sound.find_iff (sound : Sound hashOf memory table) (name : List α)
    (entry : Entry ρ α η ν) :
    find hashOf memory table name = some entry ↔ entry ∈ table ∧ entry.name = name := by
  constructor
  · intro found
    rcases matches_of_find found with ⟨member, isMatch⟩
    exact ⟨member, ((sound.spelled entry member).matches_iff name).mp isMatch⟩
  · rintro ⟨member, isName⟩
    have isMatch := ((sound.spelled entry member).matches_iff name).mpr isName
    cases found : find hashOf memory table name with
    | none => exact absurd (decide_eq_true isMatch) (List.find?_eq_none.mp found entry member)
    | some other =>
        rcases matches_of_find found with ⟨isOther, matchesToo⟩
        have otherName := ((sound.spelled other isOther).matches_iff name).mp matchesToo
        rw [sound.eq_of_name isOther member (otherName.trans isName.symm)]

theorem Sound.find_none_iff (sound : Sound hashOf memory table) (name : List α) :
    find hashOf memory table name = none ↔ name ∉ table.map Entry.name := by
  rw [Option.eq_none_iff_forall_ne_some, List.mem_map]
  constructor
  · rintro none ⟨entry, member, isName⟩
    exact none entry ((sound.find_iff name entry).mpr ⟨member, isName⟩)
  · intro absent entry found
    exact absent ⟨entry, (sound.find_iff name entry).mp found⟩

/-- An entry is made if the lookup of its name finds none. -/
theorem Sound.insert (sound : Sound hashOf memory table) {key : ρ} (value : ν)
    (missing : find hashOf memory table (memory key) = none) :
    Sound hashOf memory (insert hashOf memory key value table) := by
  have fresh := (sound.find_none_iff (memory key)).mp missing
  constructor
  · intro entry member
    rcases List.mem_append.mp member with before | new
    · exact sound.spelled entry before
    · rw [List.mem_singleton.mp new]
      exact ⟨rfl, rfl, rfl⟩
  · rw [BorrowedKeys.insert, List.map_append, List.nodup_append]
    refine ⟨sound.names, List.nodup_singleton _, ?_⟩
    intro name isName other isOther same
    rw [List.map_singleton, List.mem_singleton] at isOther
    rw [same, isOther] at isName
    exact fresh isName

/-- After a new entry was made the lookups are those of a map with one more name. -/
theorem find_insert {key : ρ} (value : ν)
    (missing : find hashOf memory table (memory key) = none) (name : List α) :
    (find hashOf memory (BorrowedKeys.insert hashOf memory key value table) name).map
        Entry.value =
      if name = memory key then some value
      else (find hashOf memory table name).map Entry.value := by
  let new : Entry ρ α η ν :=
    { hash := hashOf (memory key), klen := (memory key).length, key, value, name := memory key }
  have spelled : new.Spelled hashOf memory := ⟨rfl, rfl, rfl⟩
  have appended : find hashOf memory (BorrowedKeys.insert hashOf memory key value table) name =
      (find hashOf memory table name).or (find hashOf memory [new] name) := List.find?_append
  rw [appended]
  by_cases isKey : name = memory key
  · have isMatch := (spelled.matches_iff name).mpr isKey.symm
    have found : find hashOf memory [new] name = some new := by
      simp [find, isMatch]
    rw [if_pos isKey, found, isKey, missing]
    rfl
  · have noMatch : ¬ new.Matches hashOf memory name := fun isMatch =>
      isKey ((spelled.matches_iff name).mp isMatch).symm
    have none : find hashOf memory [new] name = none := by
      simp [find, noMatch]
    rw [if_neg isKey, none, Option.or_none]

end Lookup

/-- A change of the memory leaves a table sound if no key is changed. -/
theorem Sound.congr (sound : Sound hashOf memory table)
    (same : ∀ entry ∈ table, memory' entry.key = memory entry.key) :
    Sound hashOf memory' table := by
  refine ⟨fun entry member => ?_, sound.names⟩
  have spelled := sound.spelled entry member
  exact ⟨spelled.hash, spelled.klen, (same entry member).trans spelled.key⟩

end BorrowedKeys
