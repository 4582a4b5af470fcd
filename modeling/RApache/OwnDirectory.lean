import RApache.HandlerRuns

/-!
# The directory of a file

`dirname` scans a path for its last slash.  Its result is the directory to which the handler
changes for the file of a directive, and for the file of an r-script request.
-/

namespace RApache

open Stepwise
open Stepwise.Program (Reaches atomic_ends_iff)

/-- The index of the last slash of a path. -/
def slashIndex : (path : Bytes) → Option Nat
  | [] => none
  | symbol :: path =>
      match slashIndex path with
      | some index => some (index + 1)
      | none => if symbol = byte '/' then some 0 else none

/-- The names that lead to a directory from the root, without those that stay where they are. -/
def steps (directory : Bytes) : List Bytes :=
  (directory.splitOn (byte '/')).filter fun name => decide (name ≠ [] ∧ name ≠ bytes ".")

/-- The directory in which a file is, when its path is used in a working directory: all before
the last name of the whole path. -/
def ownDirectory (cwd path : Bytes) : List Bytes :=
  steps ((resolve cwd path).take ((slashIndex (resolve cwd path)).getD 0))

/-- The change to a directory can succeed, and then leads to that of the file. -/
structure GoesToOwnDirectory (path : Bytes) (dir : Option Bytes) : Prop where
  succeeds : ∀ s : Child, ∃ s', Reaches always (Code.aprFilepathSet dir) s (.done true) s'
  own : ∀ s s' : Child, Reaches always (Code.aprFilepathSet dir) s (.done true) s' →
    steps s'.cwd = ownDirectory s.cwd path

/-- `dirname` does not depend on what its variable held before, it returns what stands before a
last slash behind the first character and in any case a name of the directory of the file, and so
do the changes of the working directory that use it. -/
structure NamesOwnDirectory (path : Bytes) : Prop where
  determined : ∀ j j', dirname j path = dirname j' path
  value : ∀ j, ∃ dir, dirname j path = some dir ∧
    (∀ index, slashIndex path = some (index + 1) → dir = path.take (index + 1)) ∧
    ∀ cwd, steps (resolve cwd dir) = ownDirectory cwd path
  script : ∀ j, GoesToOwnDirectory path (dirname j path)
  fileHandler : ∀ isFile j cmd handler c config,
    (apCmdRFileHandler isFile j cmd handler c config).message = none →
      (apCmdRFileHandler isFile j cmd handler c config).directive.file = some path →
        GoesToOwnDirectory path (apCmdRFileHandler isFile j cmd handler c config).directive.dirname
  fileEval : ∀ isFile j cmd filecode c config,
    (apCmdRFileEval isFile j cmd filecode c config).message = none →
      (apCmdRFileEval isFile j cmd filecode c config).directive.file = some path →
        GoesToOwnDirectory path (apCmdRFileEval isFile j cmd filecode c config).directive.dirname

/-! ## The last slash -/

/-- The variable of the loop has the index of the last slash, or its value from before. -/
theorem lastSlash_eq (path : Bytes) (i : Nat) (j : Int) :
    lastSlash path i j = ((slashIndex path).map fun index => ((i + index : Nat) : Int)).getD j := by
  induction path generalizing i j with
  | nil => rfl
  | cons symbol path ih =>
      rw [lastSlash, ih, slashIndex]
      cases slashIndex path with
      | some index =>
          simp only [Option.map_some, Option.getD_some]
          omega
      | none =>
          by_cases isSlash : symbol = byte '/'
          · simp [isSlash]
          · simp [isSlash]

theorem dirname_of_some {path : Bytes} {index : Nat} (found : slashIndex path = some index)
    (j : Int) : dirname j path = if index = 0 then none else some (path.take index) := by
  rw [dirname, lastSlash_eq, found]
  cases index with
  | zero => rfl
  | succ index =>
      have positive : (0 : Int) < ((index + 1 : Nat) : Int) := by omega
      simp only [Option.map_some, Option.getD_some, Nat.zero_add, Int.toNat_natCast]
      rw [if_pos positive, if_neg (Nat.succ_ne_zero index)]

theorem dirname_of_none {path : Bytes} (missing : slashIndex path = none) (j : Int) :
    dirname j path = if 0 < j then some (path.take j.toNat) else none := by
  rw [dirname, lastSlash_eq, missing]
  rfl

/-- Without a slash `dirname` reads its variable, which has no value. -/
theorem determined_iff (path : Bytes) :
    (∀ j j', dirname j path = dirname j' path) ↔ (slashIndex path).isSome := by
  cases found : slashIndex path with
  | some index =>
      have same (j j' : Int) : dirname j path = dirname j' path := by
        rw [dirname_of_some found, dirname_of_some found]
      simpa using same
  | none =>
      constructor
      · intro same
        have differ := same 0 1
        rw [dirname_of_none found, dirname_of_none found] at differ
        simp at differ
      · nofun

theorem slashIndex_prefix (front : Bytes) {path : Bytes} {index : Nat}
    (found : slashIndex path = some index) :
    slashIndex (front ++ path) = some (front.length + index) := by
  induction front with
  | nil => simpa using found
  | cons symbol front ih =>
      rw [List.cons_append, slashIndex, ih]
      simp only [List.length_cons]
      congr 1
      omega

theorem slashIndex_isSome_iff (path : Bytes) : (slashIndex path).isSome ↔ byte '/' ∈ path := by
  induction path with
  | nil => simp [slashIndex]
  | cons symbol path ih =>
      rw [slashIndex, List.mem_cons, ← ih]
      cases slashIndex path with
      | some index => simp
      | none =>
          by_cases isSlash : symbol = byte '/'
          · simp [isSlash]
          · simp [isSlash, Ne.symm isSlash]

/-- There is a slash behind the first character just when the last one stands there. -/
theorem slash_behind_iff (path : Bytes) :
    (∃ index, slashIndex path = some (index + 1)) ↔ byte '/' ∈ path.tail := by
  cases path with
  | nil => simp [slashIndex]
  | cons symbol path =>
      rw [List.tail_cons, ← slashIndex_isSome_iff, slashIndex]
      cases slashIndex path with
      | some index => simp
      | none =>
          by_cases isSlash : symbol = byte '/'
          · simp [isSlash]
          · simp [isSlash]

/-! ## The change of the working directory -/

theorem aprFilepathSet_some {dir : Bytes} {s s' : Child}
    (reaches : Reaches always (Code.aprFilepathSet (some dir)) s (.done true) s') :
    s'.cwd = resolve s.cwd dir := by
  rcases atomic_ends_iff.mp reaches with ⟨ω, acted, -⟩
  simp only at acted
  split at acted
  next =>
    cases acted
    rfl
  next => cases acted

theorem goesToOwnDirectory {path dir : Bytes}
    (names : ∀ cwd, steps (resolve cwd dir) = ownDirectory cwd path) :
    GoesToOwnDirectory path (some dir) where
  succeeds s := ⟨_, atomic_ends_iff.mpr ⟨{ success := true }, rfl, trivial⟩⟩
  own s s' reaches := by
    rw [aprFilepathSet_some reaches]
    exact names s.cwd

/-- What stands before a last slash behind the first character names the directory, in any
working directory. -/
theorem steps_take {path : Bytes} {index : Nat} (found : slashIndex path = some (index + 1))
    (cwd : Bytes) : steps (resolve cwd (path.take (index + 1))) = ownDirectory cwd path := by
  have head : (path.take (index + 1)).head? = path.head? := by
    cases path with
    | nil => rfl
    | cons symbol path => rfl
  rw [ownDirectory]
  by_cases absolute : path.head? = some (byte '/')
  · rw [resolve, resolve, head, if_pos absolute, if_pos absolute, found, Option.getD_some]
  · have whole : slashIndex (cwd ++ byte '/' :: path) =
        some ((cwd ++ [byte '/']).length + (index + 1)) := by
      rw [List.append_cons]
      exact slashIndex_prefix _ found
    rw [resolve, resolve, head, if_neg absolute, if_neg absolute, whole, Option.getD_some,
      List.append_cons, List.append_cons cwd (byte '/') path, List.take_length_add_append]

/-- An accepted `RFileHandler` stores the result of `dirname`. -/
theorem fileHandler_dirname {isFile : Bytes → Bool} {j : Int} {cmd : CmdParms} {handler : Bytes}
    {c : RApacheDirective} {config : ConfigState}
    (accepted : (apCmdRFileHandler isFile j cmd handler c config).message = none) :
    (apCmdRFileHandler isFile j cmd handler c config).directive.dirname =
      (apCmdRFileHandler isFile j cmd handler c config).directive.file.bind (dirname j) := by
  cases found : strstr (bytes "::") handler with
  | none =>
      cases present : isFile handler with
      | true => simp [apCmdRFileHandler, found, present]
      | false => simp [apCmdRFileHandler, found, present] at accepted
  | some parts =>
      cases present : isFile parts.1 with
      | true => simp [apCmdRFileHandler, found, present]
      | false => simp [apCmdRFileHandler, found, present] at accepted

/-- An accepted `RFileEval` stores the result of `dirname`. -/
theorem fileEval_dirname {isFile : Bytes → Bool} {j : Int} {cmd : CmdParms} {filecode : Bytes}
    {c : RApacheDirective} {config : ConfigState}
    (accepted : (apCmdRFileEval isFile j cmd filecode c config).message = none) :
    (apCmdRFileEval isFile j cmd filecode c config).directive.dirname =
      (apCmdRFileEval isFile j cmd filecode c config).directive.file.bind (dirname j) := by
  cases found : strstr (bytes ":") filecode with
  | none => simp [apCmdRFileEval, found] at accepted
  | some parts =>
      cases present : isFile parts.1 with
      | false => simp [apCmdRFileEval, found, present] at accepted
      | true => cases package : strstr (bytes "::") (parts.2.drop 1) <;>
          simp_all [apCmdRFileEval]

/-- `dirname` names the directory of a file just when its path has a slash behind its first
character. -/
theorem names_own_directory_iff (path : Bytes) :
    NamesOwnDirectory path ↔ byte '/' ∈ path.tail := by
  rw [← slash_behind_iff]
  constructor
  · intro names
    rcases Option.isSome_iff_exists.mp ((determined_iff path).mp names.determined) with
      ⟨index, found⟩
    cases index with
    | succ index => exact ⟨index, found⟩
    | zero =>
        rcases names.value 0 with ⟨dir, isDir, -⟩
        rw [dirname_of_some found] at isDir
        cases isDir
  · rintro ⟨index, found⟩
    have isDir (j : Int) : dirname j path = some (path.take (index + 1)) := by
      rw [dirname_of_some found, if_neg (Nat.succ_ne_zero index)]
    have goes (j : Int) : GoesToOwnDirectory path (dirname j path) := by
      rw [isDir j]
      exact goesToOwnDirectory (steps_take found)
    constructor
    · exact (determined_iff path).mpr (by rw [found]; rfl)
    · intro j
      refine ⟨path.take (index + 1), isDir j, ?_, steps_take found⟩
      intro index' found'
      rw [found] at found'
      cases found'
      rfl
    · exact goes
    · intro isFile j cmd handler c config accepted isPath
      rw [fileHandler_dirname accepted, isPath]
      exact goes j
    · intro isFile j cmd filecode c config accepted isPath
      rw [fileEval_dirname accepted, isPath]
      exact goes j

/-- For a file in the root directory there is no name, and without a slash an unset variable is
read. -/
theorem root_file_has_no_directory :
    (¬ ∀ path, NamesOwnDirectory path) ∧ (∀ j, dirname j (bytes "/a.R") = none) ∧
      dirname 0 (bytes "a.R") ≠ dirname 1 (bytes "a.R") := by
  refine ⟨?_, ?_, by decide⟩
  · intro all
    rcases (all (bytes "/a.R")).value 0 with ⟨dir, isDir, -⟩
    rw [dirname_of_some (by decide : slashIndex (bytes "/a.R") = some 0)] at isDir
    cases isDir
  · intro j
    exact dirname_of_some (by decide : slashIndex (bytes "/a.R") = some 0) j

end RApache
