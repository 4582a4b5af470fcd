import RApache.SectionRecord

/-!
# Nested sections

Apache makes a record for a section when it comes to the first directive of the module in it, and
merges the records of the sections that a request is in, from the outermost to the innermost.
-/

namespace RApache

/-! ## The directives of a section -/

/-- `AP_cmd_ROutputErrors`, which only warns. -/
def apCmdROutputErrors (c : RApacheDirective) (config : ConfigState) : CommandResult :=
  { message := none, directive := c, config }

/-- `AP_cmd_RPreserveEnv`, which only warns. -/
def apCmdRPreserveEnv (c : RApacheDirective) (config : ConfigState) : CommandResult :=
  { message := none, directive := c, config }

/-- A directive of a section, and what its command function finds. -/
inductive SectionDirective where
  | ofCommand (command : Command) (cmd : CmdParms) (argument : Bytes) (read : ConfigRead)
  | rOutputErrors
  | rPreserveEnv

namespace SectionDirective

/-- The command function of the directive. -/
def run (d : SectionDirective) (c : RApacheDirective) (config : ConfigState) : CommandResult :=
  match d with
  | .ofCommand command cmd argument read => command.run read cmd argument c config
  | .rOutputErrors => apCmdROutputErrors c config
  | .rPreserveEnv => apCmdRPreserveEnv c config

/-- The directive configures a handler. -/
def configures : SectionDirective → Bool
  | .ofCommand command _ _ _ => command.configures
  | .rOutputErrors => false
  | .rPreserveEnv => false

end SectionDirective

/-- `AP_create_dir_cfg`. -/
def apCreateDirCfg : RApacheDirective := {}

/-- `AP_merge_dir_cfg`, which copies the whole new record. -/
def apMergeDirCfg (_parent new : RApacheDirective) : RApacheDirective := new

/-- The directives of a section, in order, on its record.  There is nothing if one is rejected. -/
def runSection : List SectionDirective → RApacheDirective → ConfigState →
    Option (RApacheDirective × ConfigState)
  | [], c, config => some (c, config)
  | d :: ds, c, config =>
      let result := d.run c config
      match result.message with
      | some _ => none
      | none => runSection ds result.directive result.config

/-- A section, read with the record that the sections around it have together: Apache makes a
record only for directives of the module, and merges where there are two. -/
def readSection (ds : List SectionDirective) (parent : Option RApacheDirective)
    (config : ConfigState) : Option (Option RApacheDirective × ConfigState) :=
  match ds with
  | [] => some (parent, config)
  | d :: ds =>
      (runSection (d :: ds) apCreateDirCfg config).map fun (new, config) =>
        (some (match parent with
          | some parent => apMergeDirCfg parent new
          | none => new), config)

/-- The record in effect in the innermost of some sections, from the outermost on.  There is
nothing if a directive is rejected. -/
def inEffect : List (List SectionDirective) → Option RApacheDirective → ConfigState →
    Option (Option RApacheDirective)
  | [], record, _ => some record
  | ds :: sections, record, config =>
      (readSection ds record config).bind fun (record, config) => inEffect sections record config

/-! ## What a section leaves -/

/-- The record that the directives of a section make, if they are accepted. -/
def recordOf (ds : List SectionDirective) : RApacheDirective :=
  ds.foldl (fun c d => (d.run c { configPass := 1, onStartup := none }).directive) apCreateDirCfg

/-- `AP_cmd_REvalOnStartup` and `AP_cmd_RSourceOnStartup` leave the record alone. -/
theorem Command.run_record_of_not_configures {command : Command}
    (startup : command.configures = false) (read : ConfigRead) (cmd : CmdParms)
    (argument : Bytes) (c : RApacheDirective) (config : ConfigState) :
    (command.run read cmd argument c config).directive = c := by
  cases command with
  | rHandler => cases startup
  | rFileHandler => cases startup
  | rEval => cases startup
  | rFileEval => cases startup
  | rEvalOnStartup => rfl
  | rSourceOnStartup =>
      simp only [run, apCmdRSourceOnStartup]
      split <;> rfl

/-- A command that configures a handler makes a record that names it, and the same one
whatever was queued before. -/
theorem Command.run_configures {command : Command} (configures : command.configures = true)
    (read : ConfigRead) (cmd : CmdParms) (argument : Bytes) (c : RApacheDirective) :
    ∃ record : RApacheDirective,
      (∀ config, (command.run read cmd argument c config).directive = record) ∧
        record.handlerKey = some argument := by
  cases command with
  | rHandler =>
      simp only [run, apCmdRHandler]
      cases strstr (bytes "::") argument <;> exact ⟨_, fun _ => rfl, rfl⟩
  | rFileHandler =>
      simp only [run, apCmdRFileHandler]
      cases strstr (bytes "::") argument with
      | none => cases read.isFile argument <;> exact ⟨_, fun _ => rfl, rfl⟩
      | some parts => cases read.isFile parts.1 <;> exact ⟨_, fun _ => rfl, rfl⟩
  | rEval =>
      simp only [run, apCmdREval]
      cases strstr (bytes "::") argument <;> simp only <;> exact ⟨_, fun _ => rfl, rfl⟩
  | rFileEval =>
      simp only [run, apCmdRFileEval]
      cases strstr (bytes ":") argument with
      | none => exact ⟨_, fun _ => rfl, rfl⟩
      | some parts =>
          rcases parts with ⟨file, part⟩
          cases found : strstr (bytes "::") (part.drop 1) <;>
            cases isFile : read.isFile file <;>
              simp only [found, isFile, if_true, if_false, Bool.false_eq_true] <;>
                exact ⟨_, fun _ => rfl, rfl⟩
  | rEvalOnStartup => cases configures
  | rSourceOnStartup => cases configures

/-- A command function makes the same record of a record whatever was queued before. -/
theorem Command.run_record (read : ConfigRead) (command : Command) (cmd : CmdParms)
    (argument : Bytes) (c : RApacheDirective) (config config' : ConfigState) :
    (command.run read cmd argument c config).directive =
      (command.run read cmd argument c config').directive := by
  cases isHandler : command.configures with
  | true =>
      rcases run_configures isHandler read cmd argument c with ⟨record, made, -⟩
      rw [made, made]
  | false => rw [run_record_of_not_configures isHandler, run_record_of_not_configures isHandler]

/-- The record of accepted directives. -/
theorem runSection_eq {ds : List SectionDirective} {c c' : RApacheDirective}
    {config config' : ConfigState} (accepted : runSection ds c config = some (c', config')) :
    c' = ds.foldl
      (fun c d => (d.run c { configPass := 1, onStartup := none }).directive) c := by
  induction ds generalizing c config with
  | nil =>
      cases accepted
      rfl
  | cons d ds ih =>
      simp only [runSection] at accepted
      cases message : (d.run c config).message with
      | some text => simp [message] at accepted
      | none =>
          rw [message] at accepted
          rw [List.foldl_cons, ih accepted]
          cases d with
          | ofCommand command cmd argument read =>
              rw [SectionDirective.run, SectionDirective.run, command.run_record]
          | rOutputErrors => rfl
          | rPreserveEnv => rfl

/-- Directives that configure no handler make an empty record. -/
theorem recordOf_of_not_configures {ds : List SectionDirective}
    (others : ∀ d ∈ ds, d.configures = false) : recordOf ds = apCreateDirCfg := by
  rw [recordOf]
  generalize apCreateDirCfg = c
  induction ds with
  | nil => rfl
  | cons d ds ih =>
      rcases List.forall_mem_cons.mp others with ⟨first, rest⟩
      have same : (d.run c { configPass := 1, onStartup := none }).directive = c := by
        cases d with
        | ofCommand command cmd argument read =>
            exact Command.run_record_of_not_configures first read cmd argument c _
        | rOutputErrors => rfl
        | rPreserveEnv => rfl
      rw [List.foldl_cons, same]
      exact ih rest

/-- The record of a section with a directive that configures a handler has a name for it. -/
theorem recordOf_of_configures {ds : List SectionDirective} {d : SectionDirective}
    (isMember : d ∈ ds) (configures : d.configures = true) :
    (recordOf ds).handlerKey.isSome := by
  have named (d : SectionDirective) (c : RApacheDirective) (config : ConfigState)
      (already : d.configures = true ∨ c.handlerKey.isSome) :
      (d.run c config).directive.handlerKey.isSome := by
    cases d with
    | ofCommand command cmd argument read =>
        cases isHandler : command.configures with
        | true =>
            rcases Command.run_configures isHandler read cmd argument c with
              ⟨record, made, isNamed⟩
            rw [SectionDirective.run, made, isNamed]
            rfl
        | false =>
            rw [SectionDirective.run, Command.run_record_of_not_configures isHandler]
            refine already.resolve_left ?_
            rw [SectionDirective.configures, isHandler]
            exact Bool.false_ne_true
    | rOutputErrors => exact already.resolve_left Bool.false_ne_true
    | rPreserveEnv => exact already.resolve_left Bool.false_ne_true
  rw [recordOf]
  have present : (∃ d ∈ ds, d.configures = true) ∨ apCreateDirCfg.handlerKey.isSome :=
    .inl ⟨d, isMember, configures⟩
  clear isMember
  generalize apCreateDirCfg = c at present ⊢
  induction ds generalizing c with
  | nil => simpa using present
  | cons first ds ih =>
      rw [List.foldl_cons]
      apply ih
      rcases present with ⟨d, isMember, configures⟩ | already
      · rcases List.mem_cons.mp isMember with same | later
        · exact .inr (named first c _ (.inl (same ▸ configures)))
        · exact .inl ⟨d, later, configures⟩
      · exact .inr (named first c _ (.inr already))

/-! ## The record in effect -/

/-- The record that Apache has for a section, if it has one. -/
def sectionRecord (ds : List SectionDirective) : Option RApacheDirective :=
  match ds with
  | [] => none
  | d :: ds => some (recordOf (d :: ds))

/-- The record that Apache has for the innermost of the sections that have one. -/
def innermostRecord (sections : List (List SectionDirective)) (record : Option RApacheDirective) :
    Option RApacheDirective :=
  (sections.reverse.findSome? sectionRecord).or record

/-- A section that has a record replaces the one around it. -/
theorem readSection_eq {ds : List SectionDirective} {parent record : Option RApacheDirective}
    {config config' : ConfigState}
    (accepted : readSection ds parent config = some (record, config')) :
    record = (sectionRecord ds).or parent := by
  cases ds with
  | nil =>
      cases accepted
      rfl
  | cons d ds =>
      rcases Option.map_eq_some_iff.mp accepted with ⟨⟨new, after⟩, made, same⟩
      have isNew : new = recordOf (d :: ds) := runSection_eq made
      cases same
      rw [isNew]
      cases parent <;> rfl

theorem inEffect_eq {sections : List (List SectionDirective)}
    {base record : Option RApacheDirective} {config : ConfigState}
    (accepted : inEffect sections base config = some record) :
    record = innermostRecord sections base := by
  induction sections generalizing base config with
  | nil =>
      cases accepted
      rfl
  | cons ds sections ih =>
      rcases Option.bind_eq_some_iff.mp accepted with ⟨⟨outer, after⟩, read, rest⟩
      rw [ih rest, readSection_eq read, innermostRecord, innermostRecord, List.reverse_cons,
        List.findSome?_append, Option.or_assoc]
      congr 1
      rw [List.findSome?_cons, List.findSome?_nil]
      cases sectionRecord ds <;> rfl

/-- Behind a section that has a record there are only sections without one. -/
theorem innermostRecord_append {outer inner : List (List SectionDirective)}
    {ds : List SectionDirective} {base : Option RApacheDirective} (present : ds ≠ [])
    (empty : ∀ other ∈ inner, other = []) :
    innermostRecord (outer ++ ds :: inner) base = some (recordOf ds) := by
  have none : inner.reverse.findSome? sectionRecord = none := by
    rw [List.findSome?_eq_none_iff]
    intro other isInner
    rw [empty other (List.mem_reverse.mp isInner)]
    rfl
  rw [innermostRecord, List.reverse_append, List.reverse_cons, List.append_assoc,
    List.findSome?_append, none]
  cases ds with
  | nil => exact (present rfl).elim
  | cons d ds => rfl

/-- Sections that configure no handler leave an empty record, if they have one. -/
theorem innermostRecord_others {inner : List (List SectionDirective)}
    {base record : Option RApacheDirective}
    (others : ∀ other ∈ inner, ∀ d ∈ other, d.configures = false)
    (found : innermostRecord inner base = record) :
    (∀ other ∈ inner, other = []) ∧ record = base ∨ record = some apCreateDirCfg := by
  rw [← found, innermostRecord]
  cases isFound : inner.reverse.findSome? sectionRecord with
  | none =>
      refine .inl ⟨?_, rfl⟩
      intro other isInner
      have absent := List.findSome?_eq_none_iff.mp isFound other (List.mem_reverse.mpr isInner)
      cases other with
      | nil => rfl
      | cons d ds => cases absent
  | some new =>
      right
      rcases List.exists_of_findSome?_eq_some isFound with ⟨other, isInner, isNew⟩
      have unhandled := recordOf_of_not_configures (others other (List.mem_reverse.mp isInner))
      cases other with
      | nil => cases isNew
      | cons d ds =>
          cases isNew
          rw [unhandled]
          rfl

/-- In effect is the record of the innermost section with any directive of the module.  It is
that of the innermost section that configures a handler just when no section inside of this one
has other directives. -/
theorem innermost_section_is_in_effect {sections : List (List SectionDirective)}
    {base record : Option RApacheDirective} {config : ConfigState}
    (accepted : inEffect sections base config = some record) :
    (∀ parent new, apMergeDirCfg parent new = new) ∧
      (∀ outer ds inner, sections = outer ++ ds :: inner → ds ≠ [] →
        (∀ other ∈ inner, other = []) → record = some (recordOf ds)) ∧
      ((∀ ds ∈ sections, ds = []) → record = base) ∧
      (∀ ds ∈ sections, (∀ d ∈ ds, d.configures = false) → recordOf ds = apCreateDirCfg) ∧
      ∀ outer ds inner, sections = outer ++ ds :: inner → (∃ d ∈ ds, d.configures = true) →
        (∀ other ∈ inner, ∀ d ∈ other, d.configures = false) →
          (record = some (recordOf ds) ↔ ∀ other ∈ inner, other = []) := by
  have isRecord := inEffect_eq accepted
  refine ⟨fun _ _ => rfl, ?_, ?_, fun ds _ => recordOf_of_not_configures, ?_⟩
  · rintro outer ds inner rfl present empty
    rw [isRecord, innermostRecord_append present empty]
  · intro empty
    rw [isRecord]
    have none : sections.reverse.findSome? sectionRecord = none := by
      rw [List.findSome?_eq_none_iff]
      intro ds isSection
      rw [empty ds (List.mem_reverse.mp isSection)]
      rfl
    rw [innermostRecord, none]
    rfl
  · rintro outer ds inner rfl ⟨d, isMember, configures⟩ others
    constructor
    · intro same
      have after : innermostRecord (outer ++ ds :: inner) base =
          innermostRecord inner (innermostRecord (outer ++ [ds]) base) := by
        simp [innermostRecord, List.findSome?_append, Option.or_assoc]
      rcases innermostRecord_others others rfl with ⟨empty, -⟩ | emptied
      · exact empty
      · have named := recordOf_of_configures isMember configures
        rw [isRecord, after, emptied, Option.some.injEq] at same
        rw [← same] at named
        cases named
    · intro empty
      rw [isRecord, innermostRecord_append (List.ne_nil_of_mem isMember) empty]

/-- A directive of the section `/app`. -/
def sectionLine (command : Command) (argument : String) : SectionDirective :=
  .ofCommand command
    { directive := bytes "R", lineNum := bytes "1", filename := bytes "httpd.conf",
      path := some (bytes "/app") }
    (bytes argument) { isFile := fun _ => true }

/-- A handler in a section inside of another one. -/
theorem inner_handler_is_in_effect :
    ∃ record, inEffect [[sectionLine .rHandler "f"], [sectionLine .rHandler "g"]] none
        { configPass := 1, onStartup := none } = some record ∧
      record = some (recordOf [sectionLine .rHandler "g"]) := by
  refine ⟨_, rfl, ?_⟩
  have accepted : inEffect [[sectionLine .rHandler "f"], [sectionLine .rHandler "g"]] none
      { configPass := 1, onStartup := none } =
        some (some (recordOf [sectionLine .rHandler "g"])) := rfl
  exact (innermost_section_is_in_effect accepted).2.1 [[sectionLine .rHandler "f"]] _ [] rfl
    (by simp) (by simp)

/-- A section that only has startup code takes the handler of the section around it away. -/
theorem startup_code_hides_handler :
    (¬ ∀ (outer : List (List SectionDirective)) (ds : List SectionDirective)
        (inner : List (List SectionDirective)) (base : Option RApacheDirective)
        (config : ConfigState) (record : Option RApacheDirective),
      inEffect (outer ++ ds :: inner) base config = some record →
      (∃ d ∈ ds, d.configures = true) →
      (∀ other ∈ inner, ∀ d ∈ other, d.configures = false) → record = some (recordOf ds)) ∧
    (recordOf [sectionLine .rHandler "f"]).handlerKey = some (bytes "f") ∧
    apMergeDirCfg (recordOf [sectionLine .rHandler "f"])
      (recordOf [sectionLine .rEvalOnStartup "x <- 1"]) = {} := by
  refine ⟨?_, by decide, rfl⟩
  intro inherits
  have same := inherits [] [sectionLine .rHandler "f"] [[sectionLine .rEvalOnStartup "x <- 1"]] none
    { configPass := 1, onStartup := none } _ rfl ⟨_, List.mem_singleton_self _, rfl⟩
    (by simp [sectionLine, SectionDirective.configures, Command.configures])
  have absent : (recordOf [sectionLine .rHandler "f"]).handlerKey = none := by
    rw [← Option.some.inj same]
    rfl
  exact absurd absent (by decide)

end RApache
