import RApache.Text

/-!
# Configuration directives

The command functions that Apache calls for each R directive of its
configuration.  A command function fills the record of the section it stands in
and may queue code in the table of startup code.
-/

namespace RApache

/-- `RApacheDirective`: the record of one configuration section.  `none` is a
`NULL` pointer. -/
structure RApacheDirective where
  file : Option Bytes := none
  dirname : Option Bytes := none
  function : Option Bytes := none
  evalcode : Option Bytes := none
  package : Option Bytes := none
  handlerKey : Option Bytes := none
  cmdpath : Option Bytes := none
  deriving DecidableEq, Repr

/-- The part of Apache's `cmd_parms` that the command functions read: the name,
line and file of the directive and the path of its section. -/
structure CmdParms where
  directive : Bytes
  lineNum : Bytes
  filename : Bytes
  path : Option Bytes
  deriving DecidableEq, Repr

/-- Static state of the configuration phase.  `onStartup` is the table
`MR_OnStartup`, `none` until `InitRApachePool` has made it. -/
structure ConfigState where
  configPass : Nat
  onStartup : Option (List (Bytes × Bytes))
  deriving DecidableEq, Repr

/-- Result of a command function: the error message for Apache (`none` for
success), the section's record and the static state. -/
structure CommandResult where
  message : Option Bytes
  directive : RApacheDirective
  config : ConfigState
  deriving DecidableEq, Repr

/-- `InitRApachePool`: make the table once. -/
def initRApachePool (config : ConfigState) : ConfigState :=
  match config.onStartup with
  | some _ => config
  | none => { config with onStartup := some [] }

/-- `apr_table_add` on `MR_OnStartup`, under the key that every command function
makes from the kind of entry and the directive's place. -/
def addOnStartup (cmd : CmdParms) (keyFormat value : Bytes) (config : ConfigState) :
    ConfigState :=
  let key := sprintf keyFormat [cmd.directive, cmd.lineNum, cmd.filename]
  { config with onStartup := config.onStartup.map (· ++ [(key, value)]) }

/-- Key of a startup entry that is evaluated. -/
def evalKeyFormat : Bytes := bytes "e:%s on line %u of %s"

/-- Key of a startup entry that is only parsed. -/
def parseKeyFormat : Bytes := bytes "p:%s on line %u of %s"

/-- The loop of `dirname`: the index of the last slash, or the value that `j` had
before the loop. -/
def lastSlash (path : Bytes) (i : Nat) (j : Int) : Int :=
  match path with
  | [] => j
  | symbol :: path => lastSlash path (i + 1) (if symbol = byte '/' then i else j)

/-- `dirname`.  The source declares `j` without a value, so what it holds before
the loop is an argument here. -/
def dirname (uninitialised : Int) (path : Bytes) : Option Bytes :=
  let j := lastSlash path 0 uninitialised
  if 0 < j then some (path.take j.toNat) else none

/-- `AP_cmd_RHandler`. -/
def apCmdRHandler (cmd : CmdParms) (handler : Bytes) (c : RApacheDirective)
    (config : ConfigState) : CommandResult :=
  let config := initRApachePool config
  let c := { c with handlerKey := some handler }
  match strstr (bytes "::") handler with
  | some (package, part) =>
      { message := none
        directive :=
          { c with
            package := some package
            function := some (part.drop 2)
            cmdpath := cmd.path }
        config := addOnStartup cmd evalKeyFormat
          (sprintf (bytes "library(%s)") [package]) config }
  | none =>
      { message := none
        directive := { c with function := some handler, cmdpath := cmd.path }
        config }

/-- `AP_cmd_RFileHandler`.  `isFile` says for which paths `apr_stat` succeeds. -/
def apCmdRFileHandler (isFile : Bytes → Bool) (uninitialised : Int) (cmd : CmdParms)
    (handler : Bytes) (c : RApacheDirective) (config : ConfigState) : CommandResult :=
  let config := initRApachePool config
  let c := { c with handlerKey := some handler }
  let (file, c) :=
    match strstr (bytes "::") handler with
    | some (file, part) =>
        (file, { c with file := some file, function := some (part.drop 2) })
    | none => (handler, { c with file := some handler })
  if isFile file then
    { message := none
      directive := { c with cmdpath := cmd.path, dirname := dirname uninitialised file }
      config }
  else
    { message := some (sprintf (bytes "RFileHandler: %s file not found!") [file])
      directive := c
      config }

/-- `AP_cmd_REval`. -/
def apCmdREval (cmd : CmdParms) (tmpcode : Bytes) (c : RApacheDirective)
    (config : ConfigState) : CommandResult :=
  let config := initRApachePool config
  let c := { c with handlerKey := some tmpcode }
  let (c, config) :=
    match strstr (bytes "::") tmpcode with
    | some (package, _) =>
        ({ c with package := some package },
          addOnStartup cmd evalKeyFormat (sprintf (bytes "library(%s)") [package]) config)
    | none => (c, config)
  { message := none
    directive := { c with evalcode := some tmpcode, cmdpath := cmd.path }
    config := addOnStartup cmd parseKeyFormat tmpcode config }

/-- `AP_cmd_RFileEval`. -/
def apCmdRFileEval (isFile : Bytes → Bool) (uninitialised : Int) (cmd : CmdParms)
    (filecode : Bytes) (c : RApacheDirective) (config : ConfigState) : CommandResult :=
  let config := initRApachePool config
  let c := { c with handlerKey := some filecode }
  match strstr (bytes ":") filecode with
  | none =>
      { message := some (bytes "RFileEval: Takes a filename and an expression!")
        directive := c
        config }
  | some (file, part) =>
      let evalcode := part.drop 1
      let config := addOnStartup cmd parseKeyFormat evalcode config
      let c := { c with file := some file, evalcode := some evalcode }
      let (c, config) :=
        match strstr (bytes "::") evalcode with
        | some (package, _) =>
            ({ c with package := some package },
              addOnStartup cmd evalKeyFormat (sprintf (bytes "library(%s)") [package])
                config)
        | none => (c, config)
      if isFile file then
        { message := none
          directive :=
            { c with cmdpath := cmd.path, dirname := dirname uninitialised file }
          config }
      else
        { message := some (sprintf (bytes "RFileEval: %s file not found!") [file])
          directive := c
          config }

/-- `AP_cmd_REvalOnStartup`. -/
def apCmdREvalOnStartup (cmd : CmdParms) (evalstr : Bytes) (c : RApacheDirective)
    (config : ConfigState) : CommandResult :=
  { message := none
    directive := c
    config := addOnStartup cmd evalKeyFormat evalstr (initRApachePool config) }

/-- The value that `AP_cmd_RSourceOnStartup` queues for a file. -/
def sourceEntry (file : Bytes) : Bytes := sprintf (bytes "source('%s')") [file]

/-- `AP_cmd_RSourceOnStartup`: the first pass only checks that the file is there,
later passes queue it. -/
def apCmdRSourceOnStartup (isFile : Bytes → Bool) (cmd : CmdParms) (file : Bytes)
    (c : RApacheDirective) (config : ConfigState) : CommandResult :=
  let config := initRApachePool config
  if config.configPass = 1 then
    { message :=
        if isFile file then none
        else some (sprintf (bytes "RSourceFile: %s file not found!") [file])
      directive := c
      config }
  else
    { message := none
      directive := c
      config := addOnStartup cmd evalKeyFormat (sourceEntry file) config }

end RApache
