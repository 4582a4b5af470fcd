import RApache.Apreq.Util

/-!
# R values handed to the handler's code

The values that the module's `.Call` functions make, and the lists they build from
`apr` tables.
-/

namespace RApache

/-- The R objects that the module makes. -/
inductive RValue where
  | null
  /-- There is no object of that name. -/
  | unbound
  | logical (value : Bool)
  | integer (value : Int)
  /-- A double that holds an integer. -/
  | numeric (value : Int)
  /-- Seconds, with class `POSIXt`, `POSIXct`. -/
  | time (seconds : Int)
  | character (strings : List Bytes)
  | raw (buffer : Bytes)
  /-- The function that R code evaluates to. -/
  | closure (code : Bytes)
  | list (members : List (Bytes × RValue))

/-- `mkChar`: a C string ends at its first NUL. -/
def mkChar (text : Bytes) : Bytes := cString text

/-- A named list under construction, as `TableCtx` holds it. -/
abbrev Members := List (Bytes × RValue)

/-- The elements of a list. -/
def RValue.listMembers : RValue → Members
  | .list members => members
  | _ => []

/-- `NULL` for a missing or empty text, else a character vector of length one. -/
def textValue (text : Bytes) : RValue :=
  if cString text = [] then .null else .character [mkChar text]

/-- `TableCallback`. -/
def tableCallback (ctx : Members) (entry : Param) : Members :=
  ctx ++ [(mkChar entry.name, textValue entry.value)]

/-- A parameter name of the form `key[]`, and its key.  The name `[]` itself is not one. -/
def arrayKey (name : Bytes) : Option Bytes :=
  let name := cString name
  if 2 < name.length && name.drop (name.length - 2) = bytes "[]" then
    some (name.take (name.length - 2))
  else none

/-- The strings of a value that is extended by one more: `NULL` has none. -/
def RValue.strings : RValue → List Bytes
  | .character strings => strings
  | _ => []

/-- The loop of `ParamsCallback`: append a value to the first member of that name. -/
def appendToMember (key value : Bytes) : (ctx : Members) → Option Members
  | [] => none
  | (name, old) :: ctx =>
      if name = key then some ((name, .character (old.strings ++ [mkChar value])) :: ctx)
      else (appendToMember key value ctx).map ((name, old) :: ·)

/-- `ParamsCallback`. -/
def paramsCallback (ctx : Members) (entry : Param) : Members :=
  match arrayKey entry.name with
  | some key =>
      match appendToMember key entry.value ctx with
      | some ctx => ctx
      | none => ctx ++ [(key, textValue entry.value)]
  | none => ctx ++ [(mkChar entry.name, textValue entry.value)]

/-- `AprTableToList`. -/
def aprTableToList (callback : Members → Param → Members) : (t : Option ParamTable) → RValue
  | none => .null
  | some [] => .null
  | some t => .list (t.foldl callback [])

end RApache
