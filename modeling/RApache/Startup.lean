import RApache.Directive

/-!
# Startup code

The command functions queue startup code in `MR_OnStartup` while Apache reads its
configuration, which it does at least twice.  `init_R` of a child works through the table.
-/

namespace RApache

/-! ## Reading the configuration -/

/-- The directives of the module that take an argument. -/
inductive Command where
  | rHandler
  | rFileHandler
  | rEval
  | rFileEval
  | rEvalOnStartup
  | rSourceOnStartup
  deriving DecidableEq, Repr

/-- What a configuration holds, in order: directives of the module, each in some section,
and starts of virtual hosts. -/
inductive ConfigItem where
  | directive (place : Nat) (command : Command) (cmd : CmdParms) (argument : Bytes)
  | virtualHost

/-- What the command functions find while Apache reads the configuration once. -/
structure ConfigRead where
  isFile : Bytes → Bool
  uninitialised : Int := 0

/-- Whether the module is loaded again for each reading or is linked into the server. -/
inductive ModuleBuild where
  | dso
  | static
  deriving DecidableEq, Repr

/-- What lasts while the configuration is read: the user data `R_language` of the process
pool, the static variables, and the record of each section. -/
structure ConfigProcess where
  cfgPass : Option Nat := none
  config : ConfigState := { configPass := 1, onStartup := none }
  records : Nat → RApacheDirective := fun _ => {}

/-- The command function of a directive. -/
def Command.run (read : ConfigRead) (command : Command) (cmd : CmdParms) (argument : Bytes)
    (c : RApacheDirective) (config : ConfigState) : CommandResult :=
  match command with
  | rHandler => apCmdRHandler cmd argument c config
  | rFileHandler => apCmdRFileHandler read.isFile read.uninitialised cmd argument c config
  | rEval => apCmdREval cmd argument c config
  | rFileEval => apCmdRFileEval read.isFile read.uninitialised cmd argument c config
  | rEvalOnStartup => apCmdREvalOnStartup cmd argument c config
  | rSourceOnStartup => apCmdRSourceOnStartup read.isFile cmd argument c config

namespace ConfigProcess

/-- `init_config_pass`. -/
def initConfigPass (process : ConfigProcess) : ConfigProcess :=
  let pass := match process.cfgPass with
    | none => 1
    | some _ => 2
  { process with
    cfgPass := some pass
    config := { process.config with configPass := pass } }

/-- `AP_create_srv_cfg`, which Apache calls for the main server and for each virtual host. -/
def apCreateSrvCfg (process : ConfigProcess) : ConfigProcess := process.initConfigPass

/-- One item of the configuration.  Apache gives up when a command function has a message. -/
def readItem (read : ConfigRead) (process : ConfigProcess) : ConfigItem → Option ConfigProcess
  | .virtualHost => some process.apCreateSrvCfg
  | .directive place command cmd argument =>
      let result := command.run read cmd argument (process.records place) process.config
      match result.message with
      | some _ => none
      | none =>
          some
            { process with
              config := result.config
              records := Function.update process.records place result.directive }

/-- The items of the configuration, in order. -/
def readItems (read : ConfigRead) : List ConfigItem → ConfigProcess → Option ConfigProcess
  | [], process => some process
  | item :: items, process => (process.readItem read item).bind (readItems read items)

/-- The configuration read once. -/
def readConfig (build : ModuleBuild) (items : List ConfigItem) (read : ConfigRead)
    (process : ConfigProcess) : Option ConfigProcess :=
  let config := match build with
    | .dso => { configPass := 1, onStartup := none }
    | .static => process.config
  readItems read items
    { process with config, records := fun _ => {} : ConfigProcess }.apCreateSrvCfg

/-- The configuration read again and again. -/
def readConfigs (build : ModuleBuild) (items : List ConfigItem) :
    List ConfigRead → ConfigProcess → Option ConfigProcess
  | [], process => some process
  | read :: reads, process =>
      (process.readConfig build items read).bind (readConfigs build items reads)

end ConfigProcess

/-! ## A child starts -/

/-- R as `init_R` uses it: parsing and evaluating code in the global environment, and
parsing a text; the truth value tells that there was no error. -/
structure EmbeddedR (σ : Type) where
  parseEval : Bytes → σ → Bool × σ
  parseText : Bytes → σ → Bool × σ

/-- What `OnStartupCallback` asks of R for an entry of the table. -/
inductive StartupEntry where
  | evaluate (code : Bytes)
  | parse (text : Bytes)
  deriving DecidableEq, Repr

/-- R in a child that starts, and the entries it was asked to process. -/
structure Started (σ : Type) where
  state : σ
  processed : List StartupEntry := []

/-- The child goes on, or it has ended with a message on `stderr`. -/
inductive Startup (σ : Type) where
  | running (started : Started σ)
  | exited (message : Bytes) (started : Started σ)

/-- R when the child goes on or has ended. -/
def Startup.started {σ : Type} : Startup σ → Started σ
  | running started => started
  | exited _ started => started

/-- The static variables that `init_R` uses. -/
structure ChildStatics where
  initStatus : Nat := 0
  config : ConfigState

section InitR

variable {σ : Type}

/-- `OnStartupCallback`. -/
def onStartupCallback (r : EmbeddedR σ) (key value : Bytes) (started : Started σ) : Startup σ :=
  match key with
  -- `e:`
  | 101 :: 58 :: place =>
      let (succeeded, state) := r.parseEval value started.state
      let started := { state, processed := started.processed ++ [.evaluate value] }
      if succeeded then .running started
      else .exited (sprintf (bytes " From directive %s.\n") [place]) started
  -- `p:`
  | 112 :: 58 :: place =>
      let (succeeded, state) := r.parseText value started.state
      let started := { state, processed := started.processed ++ [.parse value] }
      if succeeded then .running started
      else
        .exited (sprintf (bytes "Parse error in '%s' from directive %s.\n") [value, place])
          started
  | _ => .running started

/-- `apr_table_do(OnStartupCallback,NULL,table,NULL)`; the callback always returns 1. -/
def aprTableDoOnStartup (r : EmbeddedR σ) : List (Bytes × Bytes) → Started σ → Startup σ
  | [], started => .running started
  | (key, value) :: table, started =>
      match onStartupCallback r key value started with
      | .running started => aprTableDoOnStartup r table started
      | exited => exited

/-- What `init_R` does with the startup code. -/
def initR (r : EmbeddedR σ) (child : ChildStatics) (started : Started σ) :
    ChildStatics × Startup σ :=
  if child.initStatus ≠ 0 then (child, .running started)
  else
    let config := initRApachePool child.config
    match aprTableDoOnStartup r (config.onStartup.getD []) started with
    | .running started =>
        ({ initStatus := 1, config := { config with onStartup := some [] } }, .running started)
    | exited => ({ initStatus := 1, config }, exited)

end InitR

/-! ## The startup entries of a configuration -/

/-- Code before `::` names a package to load. -/
def libraryEntries (code : Bytes) : List StartupEntry :=
  match strstr (bytes "::") code with
  | some (package, _) => [.evaluate (sprintf (bytes "library(%s)") [package])]
  | none => []

/-- The startup code of a directive. -/
def Command.startupEntries (argument : Bytes) : Command → List StartupEntry
  | rHandler => libraryEntries argument
  | rFileHandler => []
  | rEval => libraryEntries argument ++ [.parse argument]
  | rFileEval =>
      match strstr (bytes ":") argument with
      | some (_, part) => .parse (part.drop 1) :: libraryEntries (part.drop 1)
      | none => []
  | rEvalOnStartup => [.evaluate argument]
  | rSourceOnStartup => [.evaluate (sourceEntry argument)]

/-- The startup code of an item of a configuration. -/
def ConfigItem.startupEntries : ConfigItem → List StartupEntry
  | directive _ command _ argument => command.startupEntries argument
  | virtualHost => []

/-- The startup code of a configuration, in order. -/
def startupEntries (items : List ConfigItem) : List StartupEntry :=
  items.flatMap ConfigItem.startupEntries

/-- A child processes these entries, each once and in order: all of them if it starts, and
otherwise those up to one that fails. -/
def ProcessesOnce (config : ConfigState) (entries : List StartupEntry) : Prop :=
  ∀ (σ : Type) (r : EmbeddedR σ) (state : σ),
    match (initR r { config } { state }).2 with
    | .running started => started.processed = entries
    | .exited _ started => started.processed <+: entries

/-! ## What the table holds -/

/-- What `OnStartupCallback` makes of an entry of the table. -/
def entryOf (entry : Bytes × Bytes) : Option StartupEntry :=
  match entry.1 with
  | 101 :: 58 :: _ => some (.evaluate entry.2)
  | 112 :: 58 :: _ => some (.parse entry.2)
  | _ => none

/-- The startup code in the table. -/
def ConfigState.entries (config : ConfigState) : List StartupEntry :=
  (config.onStartup.getD []).filterMap entryOf

/-- The second state is the first one after this startup code has been queued. -/
structure Queues (entries : List StartupEntry) (config config' : ConfigState) : Prop where
  configPass : config'.configPass = config.configPass
  made : config'.onStartup.isSome
  entries : config'.entries = config.entries ++ entries

theorem initRApachePool_queues (config : ConfigState) :
    Queues [] config (initRApachePool config) := by
  rcases config with ⟨configPass, _ | table⟩
  · exact ⟨rfl, rfl, rfl⟩
  · exact ⟨rfl, rfl, (List.append_nil _).symm⟩

/-- An entry behind those that are queued. -/
theorem Queues.add {entries : List StartupEntry} {config config' : ConfigState}
    (queues : Queues entries config config') (cmd : CmdParms) (keyFormat value : Bytes)
    {entry : StartupEntry}
    (isEntry : entryOf (sprintf keyFormat [cmd.directive, cmd.lineNum, cmd.filename], value) =
      some entry) :
    Queues (entries ++ [entry]) config (addOnStartup cmd keyFormat value config') := by
  constructor
  · exact queues.configPass
  · simpa [addOnStartup] using queues.made
  · rw [← List.append_assoc, ← queues.entries]
    rcases Option.isSome_iff_exists.mp queues.made with ⟨table, isTable⟩
    simp [addOnStartup, ConfigState.entries, isTable, isEntry]

theorem Queues.evaluate {entries : List StartupEntry} {config config' : ConfigState}
    (queues : Queues entries config config') (cmd : CmdParms) (code : Bytes) :
    Queues (entries ++ [.evaluate code]) config (addOnStartup cmd evalKeyFormat code config') :=
  queues.add cmd evalKeyFormat code rfl

theorem Queues.parse {entries : List StartupEntry} {config config' : ConfigState}
    (queues : Queues entries config config') (cmd : CmdParms) (text : Bytes) :
    Queues (entries ++ [.parse text]) config (addOnStartup cmd parseKeyFormat text config') :=
  queues.add cmd parseKeyFormat text rfl

/-- The startup code that a directive queues: only for files to be sourced does it depend on
the pass. -/
def Command.queued (pass : Nat) (argument : Bytes) (command : Command) : List StartupEntry :=
  if command = rSourceOnStartup ∧ pass = 1 then [] else command.startupEntries argument

/-- A command function queues the startup code of its directive. -/
theorem Command.run_queues (read : ConfigRead) (command : Command) (cmd : CmdParms)
    (argument : Bytes) (c : RApacheDirective) (config : ConfigState) :
    Queues (command.queued config.configPass argument) config
      (command.run read cmd argument c config).config := by
  have pool := initRApachePool_queues config
  cases command with
  | rHandler =>
      simp only [run, apCmdRHandler, queued, startupEntries, libraryEntries]
      cases strstr (bytes "::") argument with
      | none => exact pool
      | some found => exact pool.evaluate cmd _
  | rFileHandler =>
      simp only [run, apCmdRFileHandler, queued, startupEntries, reduceCtorEq, false_and, if_false]
      cases strstr (bytes "::") argument with
      | none =>
          simp only
          split
          next => exact pool
          next => exact pool
      | some found =>
          simp only
          split
          next => exact pool
          next => exact pool
  | rEval =>
      simp only [run, apCmdREval, queued, startupEntries, libraryEntries]
      cases strstr (bytes "::") argument with
      | none => exact pool.parse cmd argument
      | some found => exact (pool.evaluate cmd _).parse cmd argument
  | rFileEval =>
      simp only [run, apCmdRFileEval, queued, startupEntries, libraryEntries, reduceCtorEq,
        false_and, if_false]
      cases strstr (bytes ":") argument with
      | none => exact pool
      | some found =>
          have parsed := pool.parse cmd (found.2.drop 1)
          cases isPackage : strstr (bytes "::") (found.2.drop 1) with
          | none =>
              simp only [isPackage]
              split
              next => exact parsed
              next => exact parsed
          | some package =>
              simp only [isPackage]
              split
              next => exact parsed.evaluate cmd _
              next => exact parsed.evaluate cmd _
  | rEvalOnStartup => exact pool.evaluate cmd argument
  | rSourceOnStartup =>
      have samePass := pool.configPass
      simp only [run, apCmdRSourceOnStartup, queued, startupEntries, true_and, samePass]
      split
      next => exact pool
      next => exact pool.evaluate cmd _

/-- The startup code that items queue if the first of them is read in the given pass. -/
def queuedAt : (pass : Nat) → List ConfigItem → List StartupEntry
  | _, [] => []
  | _, .virtualHost :: items => queuedAt 2 items
  | pass, .directive _ command _ argument :: items =>
      command.queued pass argument ++ queuedAt pass items

namespace ConfigProcess

/-- Reading items adds what they queue. -/
theorem readItems_entries {read : ConfigRead} {items : List ConfigItem}
    {process process' : ConfigProcess} (done : readItems read items process = some process')
    (started : process.cfgPass.isSome) :
    process'.cfgPass.isSome ∧
      process'.config.entries =
        process.config.entries ++ queuedAt process.config.configPass items := by
  induction items generalizing process with
  | nil =>
      simp only [readItems, Option.some.injEq] at done
      subst done
      exact ⟨started, by simp [queuedAt]⟩
  | cons item items ih =>
      simp only [readItems, Option.bind_eq_some_iff] at done
      rcases done with ⟨next, isNext, rest⟩
      cases item with
      | virtualHost =>
          simp only [readItem, Option.some.injEq] at isNext
          subst isNext
          rcases Option.isSome_iff_exists.mp started with ⟨pass, isPass⟩
          have later := ih rest rfl
          simpa [apCreateSrvCfg, initConfigPass, isPass, ConfigState.entries, queuedAt] using later
      | directive place command cmd argument =>
          simp only [readItem] at isNext
          split at isNext
          next => cases isNext
          next =>
            simp only [Option.some.injEq] at isNext
            subst isNext
            have queues :=
              command.run_queues read cmd argument (process.records place) process.config
            rcases ih rest started with ⟨stays, later⟩
            refine ⟨stays, ?_⟩
            rw [later, queues.entries, queues.configPass, queuedAt, List.append_assoc]

end ConfigProcess

theorem queuedAt_later (items : List ConfigItem) {pass : Nat} (later : pass ≠ 1) :
    queuedAt pass items = startupEntries items := by
  induction items generalizing pass with
  | nil => rfl
  | cons item items ih =>
      cases item with
      | virtualHost => exact ih (Nat.succ_ne_self 1)
      | directive place command cmd argument =>
          simp only [queuedAt, Command.queued, later, and_false, if_false, ih later]
          rfl

/-- All startup code comes from files to be sourced, in front of the virtual hosts. -/
def OnlyEarlySources : List ConfigItem → Prop
  | [] => True
  | .virtualHost :: items => startupEntries items = []
  | .directive _ command _ argument :: items =>
      (command = .rSourceOnStartup ∨ command.startupEntries argument = []) ∧
        OnlyEarlySources items

/-- The first reading queues nothing in just this case. -/
theorem queuedAt_first (items : List ConfigItem) :
    queuedAt 1 items = [] ↔ OnlyEarlySources items := by
  induction items with
  | nil => exact iff_of_true rfl trivial
  | cons item items ih =>
      cases item with
      | virtualHost =>
          rw [queuedAt, queuedAt_later items (Nat.succ_ne_self 1)]
          rfl
      | directive place command cmd argument =>
          rw [queuedAt, List.append_eq_nil_iff, ih, OnlyEarlySources]
          apply and_congr_left
          intro _
          rw [Command.queued]
          split
          next source => exact iff_of_true rfl (.inl source.1)
          next notSource => simp_all

/-! ## What a child processes -/

section InitR

variable {σ : Type}

/-- The callback asks R for the entry, whether the child ends or not. -/
theorem onStartupCallback_processed (r : EmbeddedR σ) (key value : Bytes)
    (started : Started σ) :
    (onStartupCallback r key value started).started.processed =
      started.processed ++ (entryOf (key, value)).toList := by
  unfold onStartupCallback
  split
  next place =>
    rcases r.parseEval value started.state with ⟨_ | _, state⟩
    · rfl
    · rfl
  next place =>
    rcases r.parseText value started.state with ⟨_ | _, state⟩
    · rfl
    · rfl
  next noEval noParse =>
    have none : entryOf (key, value) = none := by
      unfold entryOf
      split
      next place same => exact (noEval place same).elim
      next place same => exact (noParse place same).elim
      next => rfl
    rw [none]
    exact (List.append_nil _).symm

theorem aprTableDoOnStartup_processed (r : EmbeddedR σ) (table : List (Bytes × Bytes))
    (started : Started σ) :
    match aprTableDoOnStartup r table started with
    | .running after => after.processed = started.processed ++ table.filterMap entryOf
    | .exited _ after => after.processed <+: started.processed ++ table.filterMap entryOf := by
  induction table generalizing started with
  | nil => simp [aprTableDoOnStartup]
  | cons entry table ih =>
      rcases entry with ⟨key, value⟩
      have all : ((key, value) :: table).filterMap entryOf =
          (entryOf (key, value)).toList ++ table.filterMap entryOf := by
        cases isEntry : entryOf (key, value) with
        | none => simp [isEntry]
        | some entry => simp [isEntry]
      have first := onStartupCallback_processed r key value started
      rw [aprTableDoOnStartup, all, ← List.append_assoc]
      cases called : onStartupCallback r key value started with
      | running after =>
          rw [called] at first
          rw [← first]
          exact ih after
      | exited message after =>
          rw [called] at first
          rw [← first]
          exact List.prefix_append _ _

/-- An R in which nothing fails. -/
def willingR : EmbeddedR Unit where
  parseEval _ _ := (true, ())
  parseText _ _ := (true, ())

theorem aprTableDoOnStartup_willing (table : List (Bytes × Bytes)) (started : Started Unit) :
    ∃ after, aprTableDoOnStartup willingR table started = .running after := by
  induction table generalizing started with
  | nil => exact ⟨started, rfl⟩
  | cons entry table ih =>
      rcases entry with ⟨key, value⟩
      have runs : ∃ next, onStartupCallback willingR key value started = .running next := by
        unfold onStartupCallback
        split
        next => exact ⟨_, rfl⟩
        next => exact ⟨_, rfl⟩
        next => exact ⟨_, rfl⟩
      rcases runs with ⟨next, called⟩
      rcases ih next with ⟨after, done⟩
      exact ⟨after, by rw [aprTableDoOnStartup, called]; exact done⟩

end InitR

/-- A child processes what is in the table. -/
theorem processesOnce_iff (config : ConfigState) (entries : List StartupEntry) :
    ProcessesOnce config entries ↔ config.entries = entries := by
  have table : ((initRApachePool config).onStartup.getD []).filterMap entryOf = config.entries := by
    rcases config with ⟨configPass, _ | table⟩
    · rfl
    · rfl
  constructor
  · intro once
    have processed := once Unit willingR ()
    rcases aprTableDoOnStartup_willing ((initRApachePool config).onStartup.getD [])
      { state := () } with ⟨after, done⟩
    have all := aprTableDoOnStartup_processed willingR
      ((initRApachePool config).onStartup.getD []) { state := () }
    simp only [done, table, List.nil_append] at all
    simp only [initR, ne_eq, not_true_eq_false, if_false, done, all] at processed
    exact processed
  · intro same σ r state
    have all := aprTableDoOnStartup_processed r
      ((initRApachePool config).onStartup.getD []) { state }
    rw [table, same] at all
    simp only [initR, ne_eq, not_true_eq_false, if_false]
    cases done : aprTableDoOnStartup r ((initRApachePool config).onStartup.getD [])
      { state } with
    | running after =>
        simp only [done, List.nil_append] at all ⊢
        exact all
    | exited message after =>
        simp only [done, List.nil_append] at all ⊢
        exact all

/-! ## Each entry once -/

/-- Something in front of repetitions of a list leaves the list if it is empty and there is
one repetition, or nothing to repeat. -/
theorem append_repeated_eq_iff {α : Type} (front once : List α) (more : Nat) :
    front ++ (List.replicate (more + 1) once).flatten = once ↔
      front = [] ∧ (more = 0 ∨ once = []) := by
  rw [List.replicate_succ', List.flatten_append, List.flatten_singleton, ← List.append_assoc,
    List.append_left_eq_self, List.append_eq_nil_iff]
  apply and_congr_right
  intro _
  simp only [List.flatten_eq_nil_iff, List.mem_replicate, and_imp, ne_eq]
  constructor
  · intro none
    rcases Nat.eq_zero_or_pos more with zero | some
    · exact .inl zero
    · exact .inr (none once (Nat.ne_of_gt some) rfl)
  · rintro (zero | empty) each some same
    · exact (some zero).elim
    · rw [same, empty]

/-- Without startup code there is none in front of the virtual hosts. -/
theorem onlyEarlySources_of_none {items : List ConfigItem} (none : startupEntries items = []) :
    OnlyEarlySources items := by
  induction items with
  | nil => trivial
  | cons item items ih =>
      cases item with
      | virtualHost => exact none
      | directive place command cmd argument =>
          rcases List.append_eq_nil_iff.mp none with ⟨here, later⟩
          exact ⟨.inr here, ih later⟩

/-- When each startup entry of a configuration that is read so often is queued once. -/
def QueuedOnce (build : ModuleBuild) (items : List ConfigItem) (readings : Nat) : Prop :=
  build = .dso ∨ startupEntries items = [] ∨ readings = 2 ∧ OnlyEarlySources items

namespace ConfigProcess

/-- One more reading of the configuration. -/
theorem readConfig_entries {build : ModuleBuild} {items : List ConfigItem} {read : ConfigRead}
    {process process' : ConfigProcess}
    (done : process.readConfig build items read = some process') :
    process'.cfgPass.isSome ∧
      process'.config.entries =
        (if build = .dso then [] else process.config.entries) ++
          (if process.cfgPass = none then queuedAt 1 items else startupEntries items) := by
  rcases readItems_entries done rfl with ⟨later, entries⟩
  refine ⟨later, ?_⟩
  rw [entries]
  rcases process with ⟨_ | pass, config, records⟩
  · cases build with
    | dso => rfl
    | static => rfl
  · have again := queuedAt_later items (Nat.succ_ne_self 1)
    cases build with
    | dso => exact congrArg ([] ++ ·) again
    | static => exact congrArg (config.entries ++ ·) again

/-- The readings behind the first one. -/
theorem readConfigs_entries {build : ModuleBuild} {items : List ConfigItem}
    {reads : List ConfigRead} {process process' : ConfigProcess}
    (done : readConfigs build items reads process = some process')
    (later : process.cfgPass.isSome) :
    process'.config.entries =
      match build, reads with
      | .dso, _ :: _ => startupEntries items
      | _, _ =>
          process.config.entries ++ (List.replicate reads.length (startupEntries items)).flatten := by
  induction reads generalizing process with
  | nil =>
      simp only [readConfigs, Option.some.injEq] at done
      subst done
      simp
  | cons read reads ih =>
      simp only [readConfigs, Option.bind_eq_some_iff] at done
      rcases done with ⟨next, isNext, rest⟩
      rcases readConfig_entries isNext with ⟨stays, entries⟩
      rw [if_neg (Option.isSome_iff_ne_none.mp later)] at entries
      have all := ih rest stays
      cases build with
      | dso =>
          rw [if_pos rfl, List.nil_append] at entries
          cases reads with
          | nil => simpa [entries] using all
          | cons again reads => exact all
      | static =>
          rw [if_neg (by decide)] at entries
          rw [all, entries, List.append_assoc]
          rfl

end ConfigProcess

/-- A child processes each startup entry once, in order and nothing else, just when the
module is loaded for each reading, or there is no startup code, or all of it is sourced and
read in the second of two passes only. -/
theorem startup_entries_once_iff {build : ModuleBuild} {items : List ConfigItem}
    {reads : List ConfigRead} {process : ConfigProcess} (twice : 2 ≤ reads.length)
    (read : ConfigProcess.readConfigs build items reads {} = some process) :
    ProcessesOnce process.config (startupEntries items) ↔
      QueuedOnce build items reads.length := by
  rw [processesOnce_iff]
  match reads, twice with
  | first :: second :: reads, _ =>
      simp only [ConfigProcess.readConfigs, Option.bind_eq_some_iff] at read
      rcases read with ⟨process₁, isFirst, process₂, isSecond, rest⟩
      rcases ConfigProcess.readConfig_entries isFirst with ⟨later, entries₁⟩
      have all := @ConfigProcess.readConfigs_entries build items (second :: reads) process₁ process
        (by simp only [ConfigProcess.readConfigs, isSecond, Option.bind_some]; exact rest) later
      rw [if_pos rfl] at entries₁
      cases build with
      | dso => exact iff_of_true all (.inl rfl)
      | static =>
          rw [if_neg (by decide)] at entries₁
          rw [all, entries₁]
          -- nothing may be queued by the first reading, and the others queue everything
          have once := append_repeated_eq_iff (queuedAt 1 items) (startupEntries items) reads.length
          rw [queuedAt_first] at once
          refine Iff.trans once ?_
          constructor
          · rintro ⟨early, last | nothing⟩
            · exact .inr (.inr ⟨congrArg (· + 2) last, early⟩)
            · exact .inr (.inl nothing)
          · rintro (dso | nothing | ⟨two, early⟩)
            · cases dso
            · exact ⟨onlyEarlySources_of_none nothing, .inr nothing⟩
            · exact ⟨early, .inl (by simpa using two)⟩

/-- A configuration with one line, `REvalOnStartup f()`. -/
def startupItems : List ConfigItem :=
  [.directive 0 .rEvalOnStartup
    { directive := bytes "REvalOnStartup", lineNum := bytes "1", filename := bytes "httpd.conf",
      path := none } (bytes "f()")]

/-- Reading the configuration twice. -/
def twoReadings : List ConfigRead := [{ isFile := fun _ => false }, { isFile := fun _ => false }]

/-- With the module loaded for each reading the code is evaluated once. -/
theorem startup_code_runs_once :
    2 ≤ twoReadings.length ∧
      ∃ process, ConfigProcess.readConfigs .dso startupItems twoReadings {} = some process ∧
        (ProcessesOnce process.config (startupEntries startupItems) ↔
          QueuedOnce .dso startupItems twoReadings.length) :=
  ⟨by decide, _, rfl,
    startup_entries_once_iff (by decide) (by rfl)⟩

/-- Linked into the server the module evaluates the code twice. -/
theorem startup_code_runs_twice :
    ¬ ∀ (build : ModuleBuild) (items : List ConfigItem) (reads : List ConfigRead)
        (process : ConfigProcess), 2 ≤ reads.length →
      ConfigProcess.readConfigs build items reads {} = some process →
        ProcessesOnce process.config (startupEntries items) := by
  intro once
  have processed := once .static startupItems twoReadings _ (by decide) rfl
  rw [processesOnce_iff] at processed
  exact absurd processed (by decide +kernel)

end RApache
