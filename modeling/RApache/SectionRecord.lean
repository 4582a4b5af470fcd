import RApache.ConfigPass

/-!
# The record of a section

The directives of one section fill one record, one after the other.  Each of the four commands
that configure a handler writes some of its members and leaves the others as they are.
-/

namespace RApache

/-- The members of a record that say what is evaluated.  `dirname` is written with `file`. -/
inductive DirectiveMember where
  | file
  | function
  | evalcode
  | package
  deriving DecidableEq, Repr

/-- A member of a record. -/
def RApacheDirective.member (c : RApacheDirective) : DirectiveMember → Option Bytes
  | .file => c.file
  | .function => c.function
  | .evalcode => c.evalcode
  | .package => c.package

/-- The command configures a handler. -/
def Command.configures : Command → Bool
  | rHandler | rFileHandler | rEval | rFileEval => true
  | rEvalOnStartup | rSourceOnStartup => false

/-- A directive that configures the handler of its section, and what its command function
finds. -/
structure HandlerDirective where
  command : Command
  cmd : CmdParms
  argument : Bytes
  read : ConfigRead
  configures : command.configures = true

namespace HandlerDirective

/-- The command function of the directive. -/
def run (d : HandlerDirective) (c : RApacheDirective) (config : ConfigState) : CommandResult :=
  d.command.run d.read d.cmd d.argument c config

/-- The members that the directive names a value for. -/
def names (d : HandlerDirective) : DirectiveMember → Bool
  | .file => d.command = .rFileHandler ∨ d.command = .rFileEval
  | .evalcode => d.command = .rEval ∨ d.command = .rFileEval
  | .function =>
      d.command = .rHandler ∨
        d.command = .rFileHandler ∧ (strstr (bytes "::") d.argument).isSome
  | .package =>
      match d.command with
      | .rFileEval =>
          ((strstr (bytes ":") d.argument).bind fun (_, part) =>
            strstr (bytes "::") (part.drop 1)).isSome
      | .rFileHandler => false
      | _ => (strstr (bytes "::") d.argument).isSome

/-- The record that the directive makes of an empty one. -/
def alone (d : HandlerDirective) : RApacheDirective :=
  (d.run {} { configPass := 1, onStartup := none }).directive

/-- The record that accepted directives leave, and none if one is rejected. -/
def runAll : List HandlerDirective → RApacheDirective → ConfigState → Option RApacheDirective
  | [], c, _ => some c
  | d :: ds, c, config =>
      let result := d.run c config
      match result.message with
      | some _ => none
      | none => runAll ds result.directive result.config

/-- What the directive makes of a record: it keeps the members that it does not name. -/
def fill (d : HandlerDirective) (c : RApacheDirective) : RApacheDirective :=
  { d.alone with
    file := if d.names .file then d.alone.file else c.file
    dirname := if d.names .file then d.alone.dirname else c.dirname
    function := if d.names .function then d.alone.function else c.function
    evalcode := if d.names .evalcode then d.alone.evalcode else c.evalcode
    package := if d.names .package then d.alone.package else c.package }

/-- What an accepted directive makes of a record. -/
structure Fills (d : HandlerDirective) (c : RApacheDirective) (config : ConfigState) : Prop where
  directive : (d.run c config).directive = d.fill c
  member : ∀ member, (d.alone.member member).isSome = d.names member
  dirname : d.names .file = false → d.alone.dirname = none

section Commands

variable {cmd : CmdParms} {argument : Bytes} {read : ConfigRead} {c : RApacheDirective}
  {config : ConfigState}

theorem rHandler_fills (configures : Command.rHandler.configures = true) :
    Fills ⟨.rHandler, cmd, argument, read, configures⟩ c config := by
  cases found : strstr (bytes "::") argument with
  | none =>
      refine ⟨by simp [fill, alone, run, Command.run, apCmdRHandler, names, found], ?_,
        by simp [alone, run, Command.run, apCmdRHandler, found]⟩
      intro member
      cases member <;>
        simp [names, alone, run, Command.run, apCmdRHandler, RApacheDirective.member, found]
  | some parts =>
      refine ⟨by simp [fill, alone, run, Command.run, apCmdRHandler, names, found], ?_,
        by simp [alone, run, Command.run, apCmdRHandler, found]⟩
      intro member
      cases member <;>
        simp [names, alone, run, Command.run, apCmdRHandler, RApacheDirective.member, found]

theorem rFileHandler_fills {configures : Command.rFileHandler.configures = true}
    (accepted :
      (run ⟨.rFileHandler, cmd, argument, read, configures⟩ c config).message = none) :
    Fills ⟨.rFileHandler, cmd, argument, read, configures⟩ c config := by
  cases found : strstr (bytes "::") argument with
  | none =>
      cases isFile : read.isFile argument with
      | false => simp [run, Command.run, apCmdRFileHandler, found, isFile] at accepted
      | true =>
          refine ⟨by
            simp [fill, alone, run, Command.run, apCmdRFileHandler, names, found, isFile], ?_,
            by simp [alone, run, Command.run, apCmdRFileHandler, names]⟩
          intro member
          cases member <;>
            simp [names, alone, run, Command.run, apCmdRFileHandler, RApacheDirective.member,
              found, isFile]
  | some parts =>
      cases isFile : read.isFile parts.1 with
      | false => simp [run, Command.run, apCmdRFileHandler, found, isFile] at accepted
      | true =>
          refine ⟨by
            simp [fill, alone, run, Command.run, apCmdRFileHandler, names, found, isFile], ?_,
            by simp [alone, run, Command.run, apCmdRFileHandler, names]⟩
          intro member
          cases member <;>
            simp [names, alone, run, Command.run, apCmdRFileHandler, RApacheDirective.member,
              found, isFile]

theorem rEval_fills (configures : Command.rEval.configures = true) :
    Fills ⟨.rEval, cmd, argument, read, configures⟩ c config := by
  cases found : strstr (bytes "::") argument with
  | none =>
      refine ⟨by simp [fill, alone, run, Command.run, apCmdREval, names, found], ?_,
        by simp [alone, run, Command.run, apCmdREval, found]⟩
      intro member
      cases member <;>
        simp [names, alone, run, Command.run, apCmdREval, RApacheDirective.member, found]
  | some parts =>
      refine ⟨by simp [fill, alone, run, Command.run, apCmdREval, names, found], ?_,
        by simp [alone, run, Command.run, apCmdREval, found]⟩
      intro member
      cases member <;>
        simp [names, alone, run, Command.run, apCmdREval, RApacheDirective.member, found]

theorem rFileEval_fills {configures : Command.rFileEval.configures = true}
    (accepted : (run ⟨.rFileEval, cmd, argument, read, configures⟩ c config).message = none) :
    Fills ⟨.rFileEval, cmd, argument, read, configures⟩ c config := by
  cases code : strstr (bytes ":") argument with
  | none => simp [run, Command.run, apCmdRFileEval, code] at accepted
  | some parts =>
      cases isFile : read.isFile parts.1 with
      | false =>
          cases found : strstr (bytes "::") parts.2.tail with
          | none => simp [run, Command.run, apCmdRFileEval, code, found, isFile] at accepted
          | some package =>
              simp [run, Command.run, apCmdRFileEval, code, found, isFile] at accepted
      | true =>
          cases found : strstr (bytes "::") parts.2.tail with
          | none =>
              refine ⟨by simp [fill, alone, run, Command.run, apCmdRFileEval, names, code,
                found, isFile], ?_, by simp [alone, run, Command.run, apCmdRFileEval, names]⟩
              intro member
              cases member <;>
                simp [names, alone, run, Command.run, apCmdRFileEval,
                  RApacheDirective.member, code, found, isFile]
          | some package =>
              refine ⟨by simp [fill, alone, run, Command.run, apCmdRFileEval, names, code,
                found, isFile], ?_, by simp [alone, run, Command.run, apCmdRFileEval, names]⟩
              intro member
              cases member <;>
                simp [names, alone, run, Command.run, apCmdRFileEval,
                  RApacheDirective.member, code, found, isFile]

end Commands

theorem run_directive {d : HandlerDirective} {c : RApacheDirective} {config : ConfigState}
    (accepted : (d.run c config).message = none) : d.Fills c config := by
  rcases d with ⟨command, cmd, argument, read, configures⟩
  cases command with
  | rHandler => exact rHandler_fills configures
  | rFileHandler => exact rFileHandler_fills accepted
  | rEval => exact rEval_fills configures
  | rFileEval => exact rFileEval_fills accepted
  | rEvalOnStartup => cases configures
  | rSourceOnStartup => cases configures

/-- The first of some accepted directives is accepted, and so are the others behind it. -/
theorem runAll_cons {d : HandlerDirective} {ds : List HandlerDirective} {c c' : RApacheDirective}
    {config : ConfigState} (accepted : runAll (d :: ds) c config = some c') :
    (d.run c config).message = none ∧
      runAll ds (d.run c config).directive (d.run c config).config = some c' := by
  rw [runAll] at accepted
  cases message : (d.run c config).message with
  | some text =>
      rw [message] at accepted
      cases accepted
  | none =>
      rw [message] at accepted
      exact ⟨rfl, accepted⟩

/-- The members of a record that accepted directives have filled are those that one of them
names, and those that it had before. -/
theorem runAll_member {ds : List HandlerDirective} {c c' : RApacheDirective}
    {config : ConfigState} (accepted : runAll ds c config = some c') (member : DirectiveMember) :
    c'.member member = none ↔
      c.member member = none ∧ ∀ d ∈ ds, d.names member = false := by
  induction ds generalizing c config with
  | nil =>
      cases accepted
      simp
  | cons d ds ih =>
      rcases runAll_cons accepted with ⟨message, rest⟩
      rcases run_directive message with ⟨filled, named, -⟩
      rw [ih rest, filled, List.forall_mem_cons, ← and_assoc]
      apply and_congr_left
      intro _
      have isSome := named member
      cases isNamed : d.names member with
      | true =>
          rw [isNamed] at isSome
          cases member <;>
            simp_all [fill, RApacheDirective.member, Option.isSome_iff_ne_none]
      | false => cases member <;> simp_all [fill, RApacheDirective.member]

/-- A record with a directory also has a file. -/
theorem runAll_dirname {ds : List HandlerDirective} {c c' : RApacheDirective}
    {config : ConfigState} (accepted : runAll ds c config = some c')
    (now : c.file = none → c.dirname = none) (noFile : c'.file = none) : c'.dirname = none := by
  induction ds generalizing c config with
  | nil =>
      cases accepted
      exact now noFile
  | cons d ds ih =>
      rcases runAll_cons accepted with ⟨message, rest⟩
      rcases run_directive message with ⟨filled, named, -⟩
      apply ih rest
      intro none
      have isSome := named .file
      cases isNamed : d.names .file with
      | true => simp_all [fill, RApacheDirective.member]
      | false => simp_all [fill]

theorem runAll_append (ds : List HandlerDirective) (last : HandlerDirective)
    {c record : RApacheDirective} {config : ConfigState}
    (accepted : runAll (ds ++ [last]) c config = some record) :
    ∃ c' config', runAll ds c config = some c' ∧ (last.run c' config').message = none ∧
      record = (last.run c' config').directive := by
  induction ds generalizing c config with
  | nil =>
      rcases runAll_cons accepted with ⟨message, isRecord⟩
      cases isRecord
      exact ⟨c, config, rfl, message, rfl⟩
  | cons d ds ih =>
      rcases runAll_cons accepted with ⟨message, rest⟩
      simp only [runAll, message]
      exact ih rest

end HandlerDirective

open HandlerDirective

/-- The record of a section is the one that its last directive makes of an empty record just
when that directive names every member that an earlier one of the section names. -/
theorem section_record_is_last_iff {ds : List HandlerDirective} {last : HandlerDirective}
    {config : ConfigState} {record : RApacheDirective}
    (accepted : runAll (ds ++ [last]) {} config = some record) :
    record = last.alone ↔
      ∀ d ∈ ds, ∀ member, d.names member = true → last.names member = true := by
  rcases runAll_append ds last accepted with ⟨c, config', before, message, isRecord⟩
  rcases run_directive message with ⟨filled, named, noDirname⟩
  have members (member : DirectiveMember) : c.member member = none ↔
      ∀ d ∈ ds, d.names member = false := by
    rw [runAll_member before member]
    cases member <;> simp [RApacheDirective.member]
  have unnamed_absent (member : DirectiveMember) (unnamed : last.names member = false) :
      last.alone.member member = none := by
    rw [← Option.not_isSome_iff_eq_none, named, unnamed]
    exact Bool.false_ne_true
  rw [isRecord, filled]
  constructor
  · intro same d isBefore member isNamed
    by_contra unnamed
    rw [Bool.not_eq_true] at unnamed
    have absent := unnamed_absent member unnamed
    have left : c.member member = none := by
      rw [← same] at absent
      cases member <;> simpa [fill, RApacheDirective.member, unnamed] using absent
    rw [(members member).mp left d isBefore] at isNamed
    cases isNamed
  · intro covers
    have unfilled (member : DirectiveMember) (unnamed : last.names member = false) :
        c.member member = none := by
      rw [members member]
      intro d isBefore
      by_contra isNamed
      rw [covers d isBefore member (by simpa using isNamed)] at unnamed
      cases unnamed
    have noDirectory (unnamed : last.names .file = false) : c.dirname = none :=
      runAll_dirname before (fun _ => rfl) (unfilled .file unnamed)
    have same (member : DirectiveMember) :
        (if last.names member = true then last.alone.member member else c.member member) =
          last.alone.member member := by
      cases isNamed : last.names member with
      | true => rfl
      | false => exact (unfilled member isNamed).trans (unnamed_absent member isNamed).symm
    have dirname : (if last.names .file = true then last.alone.dirname else c.dirname) =
        last.alone.dirname := by
      cases isNamed : last.names .file with
      | true => rfl
      | false => exact (noDirectory isNamed).trans (noDirname isNamed).symm
    have file := same .file
    have function := same .function
    have evalcode := same .evalcode
    have package := same .package
    simp only [RApacheDirective.member] at file function evalcode package
    simp only [fill, file, dirname, function, evalcode, package]

/-- An `RHandler` line of a section. -/
def handlerLine (argument : String) : HandlerDirective where
  command := .rHandler
  cmd := { directive := bytes "RHandler", lineNum := bytes "1", filename := bytes "httpd.conf",
           path := some (bytes "/app") }
  argument := bytes argument
  read := { isFile := fun _ => false }
  configures := rfl

/-- The second of two `RHandler` lines without a package is the record. -/
theorem second_handler_is_record :
    ∃ record, runAll ([handlerLine "f"] ++ [handlerLine "g"]) {}
        { configPass := 1, onStartup := none } = some record ∧
      (record = (handlerLine "g").alone ↔
        ∀ d ∈ [handlerLine "f"], ∀ member, d.names member = true →
          (handlerLine "g").names member = true) :=
  ⟨_, rfl, section_record_is_last_iff (by rfl)⟩

/-- The package of an earlier line is left over: what is called then is `tools::g()`. -/
theorem package_is_left_over :
    (¬ ∀ (ds : List HandlerDirective) (last : HandlerDirective) (config : ConfigState)
        (record : RApacheDirective), runAll (ds ++ [last]) {} config = some record →
      record = last.alone) ∧
    ∃ record, runAll ([handlerLine "tools::f"] ++ [handlerLine "g"]) {}
        { configPass := 1, onStartup := none } = some record ∧
      record.handlerKey = some (bytes "g") ∧ record.package = some (bytes "tools") ∧
      (handlerLine "g").alone.package = none := by
  have left : ∃ record, runAll ([handlerLine "tools::f"] ++ [handlerLine "g"]) {}
        { configPass := 1, onStartup := none } = some record ∧
      record.handlerKey = some (bytes "g") ∧ record.package = some (bytes "tools") ∧
      (handlerLine "g").alone.package = none :=
    ⟨_, rfl, by decide +kernel, by decide +kernel, by decide +kernel⟩
  refine ⟨?_, left⟩
  intro last
  rcases left with ⟨record, accepted, -, package, absent⟩
  rw [last _ _ _ _ accepted, absent] at package
  cases package

end RApache
