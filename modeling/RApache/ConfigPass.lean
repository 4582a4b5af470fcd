import RApache.Startup

/-!
# The number of the configuration pass

`AP_cmd_RSourceOnStartup` asks `MR_ConfigPass` whether Apache reads its configuration for the
first time.  The number is counted where Apache makes the record of a server, and it also makes
one for each virtual host.
-/

namespace RApache

/-- The command function of the directive has a message for Apache in the given pass. -/
def Command.rejects (read : ConfigRead) (pass : Nat) (argument : Bytes) : Command → Bool
  | rHandler => false
  | rFileHandler =>
      match strstr (bytes "::") argument with
      | some (file, _) => !read.isFile file
      | none => !read.isFile argument
  | rEval => false
  | rFileEval =>
      match strstr (bytes ":") argument with
      | some (file, _) => !read.isFile file
      | none => true
  | rEvalOnStartup => false
  | rSourceOnStartup => pass == 1 && !read.isFile argument

/-- The message does not depend on the section's record, nor on the table. -/
theorem Command.run_message (read : ConfigRead) (command : Command) (cmd : CmdParms)
    (argument : Bytes) (c : RApacheDirective) (config : ConfigState) :
    (command.run read cmd argument c config).message.isSome =
      command.rejects read config.configPass argument := by
  have samePass := (initRApachePool_queues config).configPass
  cases command with
  | rHandler =>
      simp only [run, apCmdRHandler, rejects]
      cases strstr (bytes "::") argument with
      | none => rfl
      | some found => rfl
  | rFileHandler =>
      simp only [run, apCmdRFileHandler, rejects]
      cases strstr (bytes "::") argument with
      | none => cases read.isFile argument <;> simp
      | some found => cases isFile : read.isFile found.1 <;> simp [isFile]
  | rEval => rfl
  | rFileEval =>
      simp only [run, apCmdRFileEval, rejects]
      cases strstr (bytes ":") argument with
      | none => rfl
      | some found => cases isFile : read.isFile found.1 <;> simp [isFile]
  | rEvalOnStartup => rfl
  | rSourceOnStartup =>
      simp only [run, apCmdRSourceOnStartup, rejects, samePass]
      by_cases first : config.configPass = 1
      · cases read.isFile argument <;> simp [first]
      · simp [first]

namespace ConfigProcess

/-- Where the reading of the configuration begins: the record of the main server is made. -/
def beginReading (build : ModuleBuild) (process : ConfigProcess) : ConfigProcess :=
  let config := match build with
    | .dso => { configPass := 1, onStartup := none }
    | .static => process.config
  { process with config, records := fun _ => {} : ConfigProcess }.apCreateSrvCfg

theorem readConfig_eq (build : ModuleBuild) (items : List ConfigItem) (read : ConfigRead)
    (process : ConfigProcess) :
    process.readConfig build items read = readItems read items (process.beginReading build) := rfl

/-- `MR_ConfigPass` at each directive to which Apache comes. -/
def passes (read : ConfigRead) : List ConfigItem → ConfigProcess → List Nat
  | [], _ => []
  | .virtualHost :: items, process => passes read items process.apCreateSrvCfg
  | .directive place command cmd argument :: items, process =>
      process.config.configPass ::
        match process.readItem read (.directive place command cmd argument) with
        | some process => passes read items process
        | none => []

/-- `MR_ConfigPass` at the directives of each pass over the configuration. -/
def passesOf (build : ModuleBuild) (items : List ConfigItem) :
    List ConfigRead → ConfigProcess → List (List Nat)
  | [], _ => []
  | read :: reads, process =>
      passes read items (process.beginReading build) ::
        match process.readConfig build items read with
        | some process => passesOf build items reads process
        | none => []

end ConfigProcess

/-- `MR_ConfigPass` is 1 at the directives of the first pass over a configuration and 2 at those
of the others, and the first pass rejects files to be sourced that are not there. -/
structure CountsPasses (build : ModuleBuild) (items : List ConfigItem) (first : ConfigRead)
    (later : List ConfigRead) : Prop where
  ones : ∀ seen ∈ (ConfigProcess.passesOf build items (first :: later) {}).head?,
    ∀ pass ∈ seen, pass = 1
  twos : ∀ seen ∈ (ConfigProcess.passesOf build items (first :: later) {}).tail,
    ∀ pass ∈ seen, pass = 2
  missing : ∀ place cmd file, .directive place .rSourceOnStartup cmd file ∈ items →
    first.isFile file = false → ConfigProcess.readConfig build items first {} = none

/-- No directive stands behind the start of a virtual host, unless a directive in front of all
virtual hosts is rejected. -/
def DirectivesFirst (read : ConfigRead) : List ConfigItem → Prop
  | [] => True
  | .virtualHost :: items => ∀ item ∈ items, item = .virtualHost
  | .directive _ command _ argument :: items =>
      command.rejects read 1 argument = true ∨ DirectivesFirst read items

namespace ConfigProcess

/-- What reading a directive keeps. -/
theorem readItem_directive {read : ConfigRead} {process process' : ConfigProcess} {place : Nat}
    {command : Command} {cmd : CmdParms} {argument : Bytes}
    (done : process.readItem read (.directive place command cmd argument) = some process') :
    process'.cfgPass = process.cfgPass ∧
      process'.config.configPass = process.config.configPass := by
  simp only [readItem] at done
  split at done
  next => cases done
  next =>
    cases done
    exact ⟨rfl, (command.run_queues read cmd argument _ process.config).configPass⟩

theorem readItem_eq_none_iff (read : ConfigRead) (process : ConfigProcess) (place : Nat)
    (command : Command) (cmd : CmdParms) (argument : Bytes) :
    process.readItem read (.directive place command cmd argument) = none ↔
      command.rejects read process.config.configPass argument = true := by
  rw [← command.run_message read cmd argument (process.records place) process.config]
  simp only [readItem]
  cases (command.run read cmd argument (process.records place) process.config).message with
  | none => simp
  | some message => simp

/-- From the second record of a server on every directive finds a later pass. -/
theorem passes_later {read : ConfigRead} {items : List ConfigItem} {process : ConfigProcess}
    (started : process.cfgPass.isSome) (pass : process.config.configPass = 2) :
    ∀ seen ∈ passes read items process, seen = 2 := by
  induction items generalizing process with
  | nil => simp [passes]
  | cons item items ih =>
      cases item with
      | virtualHost =>
          rcases Option.isSome_iff_exists.mp started with ⟨count, isCount⟩
          exact ih rfl (by simp [apCreateSrvCfg, initConfigPass, isCount])
      | directive place command cmd argument =>
          simp only [passes, List.mem_cons]
          intro seen isSeen
          rcases isSeen with here | behind
          · exact here.trans pass
          · cases done : process.readItem read (.directive place command cmd argument) with
            | none => simp [done] at behind
            | some process' =>
                rcases readItem_directive done with ⟨sameCount, samePass⟩
                rw [done] at behind
                exact ih (by rw [sameCount]; exact started) (samePass.trans pass) seen behind

/-- A directive behind a virtual host is always reached. -/
theorem passes_behind_hosts {read : ConfigRead} {items : List ConfigItem}
    {process : ConfigProcess} (started : process.cfgPass.isSome)
    (pass : process.config.configPass = 2) (ones : ∀ seen ∈ passes read items process, seen = 1) :
    ∀ item ∈ items, item = .virtualHost := by
  induction items generalizing process with
  | nil => simp
  | cons item items ih =>
      cases item with
      | virtualHost =>
          rcases Option.isSome_iff_exists.mp started with ⟨count, isCount⟩
          have rest := @ih process.apCreateSrvCfg rfl
            (by simp [apCreateSrvCfg, initConfigPass, isCount]) ones
          intro item isItem
          rcases List.mem_cons.mp isItem with here | behind
          · exact here
          · exact rest item behind
      | directive place command cmd argument =>
          have one := ones process.config.configPass (by simp [passes])
          rw [pass] at one
          cases one

theorem passes_of_hosts {read : ConfigRead} {items : List ConfigItem} {process : ConfigProcess}
    (hosts : ∀ item ∈ items, item = .virtualHost) : passes read items process = [] := by
  induction items generalizing process with
  | nil => rfl
  | cons item items ih =>
      rw [hosts item List.mem_cons_self]
      exact ih fun item isItem => hosts item (List.mem_cons_of_mem _ isItem)

/-- The first pass: the induction is on the items in front of the first virtual host. -/
theorem passes_first {read : ConfigRead} {items : List ConfigItem} {process : ConfigProcess}
    (started : process.cfgPass.isSome) (pass : process.config.configPass = 1) :
    (∀ seen ∈ passes read items process, seen = 1) ↔ DirectivesFirst read items := by
  induction items generalizing process with
  | nil => simp [passes, DirectivesFirst]
  | cons item items ih =>
      cases item with
      | virtualHost =>
          rcases Option.isSome_iff_exists.mp started with ⟨count, isCount⟩
          constructor
          · intro ones
            exact @passes_behind_hosts read items process.apCreateSrvCfg rfl
              (by simp [apCreateSrvCfg, initConfigPass, isCount]) ones
          · intro hosts
            simp [passes, passes_of_hosts hosts]
      | directive place command cmd argument =>
          have rejected := readItem_eq_none_iff read process place command cmd argument
          rw [pass] at rejected
          simp only [passes, List.forall_mem_cons, pass, true_and, DirectivesFirst]
          cases done : process.readItem read (.directive place command cmd argument) with
          | none => simp [rejected.mp done]
          | some process' =>
              rcases readItem_directive done with ⟨sameCount, samePass⟩
              have accepted : command.rejects read 1 argument ≠ true := by
                intro isRejected
                rw [rejected.mpr isRejected] at done
                cases done
              simp only [accepted, Bool.false_eq_true, false_or]
              exact ih (by rw [sameCount]; exact started) (samePass.trans pass)

/-- A missing file is found in front of the virtual hosts. -/
theorem readItems_missing {read : ConfigRead} {items : List ConfigItem} {process : ConfigProcess}
    (pass : process.config.configPass = 1) (first : DirectivesFirst read items)
    {place : Nat} {cmd : CmdParms} {file : Bytes}
    (isItem : .directive place .rSourceOnStartup cmd file ∈ items)
    (missing : read.isFile file = false) : readItems read items process = none := by
  induction items generalizing process with
  | nil => cases isItem
  | cons item items ih =>
      cases item with
      | virtualHost =>
          rcases List.mem_cons.mp isItem with here | behind
          · cases here
          · cases first _ behind
      | directive place' command cmd' argument =>
          have rejected := readItem_eq_none_iff read process place' command cmd' argument
          rw [pass] at rejected
          simp only [readItems]
          cases done : process.readItem read (.directive place' command cmd' argument) with
          | none => rfl
          | some process' =>
              have accepted : command.rejects read 1 argument ≠ true := by
                intro isRejected
                rw [rejected.mpr isRejected] at done
                cases done
              rcases List.mem_cons.mp isItem with here | behind
              · cases here
                simp [Command.rejects, missing] at accepted
              · exact ih ((readItem_directive done).2.trans pass)
                  (first.resolve_left accepted) behind

/-- The first record is that of the first pass. -/
theorem beginReading_first (build : ModuleBuild) :
    (beginReading build {}).cfgPass.isSome ∧ (beginReading build {}).config.configPass = 1 := by
  cases build with
  | dso => exact ⟨rfl, rfl⟩
  | static => exact ⟨rfl, rfl⟩

theorem beginReading_later {process : ConfigProcess} (build : ModuleBuild)
    (started : process.cfgPass.isSome) :
    (process.beginReading build).cfgPass.isSome ∧
      (process.beginReading build).config.configPass = 2 := by
  rcases Option.isSome_iff_exists.mp started with ⟨count, isCount⟩
  cases build with
  | dso => simp [beginReading, apCreateSrvCfg, initConfigPass, isCount]
  | static => simp [beginReading, apCreateSrvCfg, initConfigPass, isCount]

/-- Each pass behind the first one counts as the second. -/
theorem passesOf_later {build : ModuleBuild} {items : List ConfigItem} {reads : List ConfigRead}
    {process : ConfigProcess} (started : process.cfgPass.isSome) :
    ∀ seen ∈ passesOf build items reads process, ∀ pass ∈ seen, pass = 2 := by
  induction reads generalizing process with
  | nil => simp [passesOf]
  | cons read reads ih =>
      rcases beginReading_later build started with ⟨stays, second⟩
      intro seen isSeen
      simp only [passesOf, List.mem_cons] at isSeen
      rcases isSeen with here | behind
      · rw [here]
        exact passes_later stays second
      · cases done : process.readConfig build items read with
        | none => simp [done] at behind
        | some process' =>
            rw [done] at behind
            exact ih (readConfig_entries done).1 seen behind

end ConfigProcess

/-- The count is right for a configuration just when its directives stand in front of its virtual
hosts, or one that does is rejected. -/
theorem countsPasses_iff (build : ModuleBuild) (items : List ConfigItem) (first : ConfigRead)
    (later : List ConfigRead) :
    CountsPasses build items first later ↔ DirectivesFirst first items := by
  rcases ConfigProcess.beginReading_first build with ⟨started, pass⟩
  have ones := @ConfigProcess.passes_first first items _ started pass
  constructor
  · intro counts
    exact ones.mp (counts.ones _ rfl)
  · intro early
    constructor
    · intro seen isSeen
      cases isSeen
      exact ones.mpr early
    · intro seen isSeen
      simp only [ConfigProcess.passesOf, List.tail_cons] at isSeen
      cases done : ConfigProcess.readConfig build items first {} with
      | none => simp [done] at isSeen
      | some process =>
          rw [done] at isSeen
          exact ConfigProcess.passesOf_later (ConfigProcess.readConfig_entries done).1 seen isSeen
    · intro place cmd file isItem missing
      rw [ConfigProcess.readConfig_eq]
      exact ConfigProcess.readItems_missing pass early isItem missing

/-- A virtual host and behind it a file to be sourced. -/
def hostItems : List ConfigItem :=
  [.virtualHost,
    .directive 0 .rSourceOnStartup
      { directive := bytes "RSourceOnStartup", lineNum := bytes "4", filename := bytes "httpd.conf",
        path := none } (bytes "/etc/missing.R")]

/-- Behind a virtual host the first pass counts as the second, and a missing file is queued. -/
theorem directive_behind_host_is_second_pass :
    ¬ (∀ (build : ModuleBuild) (items : List ConfigItem) (first : ConfigRead)
        (later : List ConfigRead), CountsPasses build items first later) ∧
      ConfigProcess.passesOf .dso hostItems twoReadings {} = [[2], [2]] ∧
      (ConfigProcess.readConfig .dso hostItems { isFile := fun _ => false } {}).isSome := by
  refine ⟨?_, by decide +kernel, by decide +kernel⟩
  intro counts
  have two := (counts .dso hostItems { isFile := fun _ => false } []).ones [2] (by decide +kernel)
    2 List.mem_cons_self
  cases two

end RApache
