import RApache.LockDiscipline
import RApache.Output

/-!
# The messages of a request

`RApacheError` and the errors that R prints on the console collect messages in `MR_BBerr`.
`TearDownRequest` writes them to the error log of the request.
-/

namespace RApache

open Stepwise
open Stepwise.Program (Every Follows Guard)

/-! ## The messages of a step -/

namespace Session

/-- The message of `ReadRequestBody` once the body is parsed. -/
def readMessages (s : Session) : List Bytes :=
  if s.request.postParsed then [bytes "Can't read with R since libapreq already started!"]
  else []

/-- The message of `parsePost` once R code has started to read. -/
def parseMessages (s : Session) : List Bytes :=
  if s.request.r.isSome ∧ s.request.readStarted then
    [bytes "Oops! Your R code has already started reading the request."]
  else []

/-- The messages of the call that `.ResetCGIVars` delays for a variable. -/
def promiseMessages (s : Session) : CgiVar → List Bytes
  | .post | .files => s.parseMessages
  | .get | .cookies | .server => []

/-- The messages of a call: those with which it calls `RApacheError`, and console output that
is for errors or meets `WriteConsoleErrorOnly`. -/
def callMessages (s : Session) : Call → List Bytes
  | .parsePost | .parseFiles => s.parseMessages
  | .force var => if s.attached ∧ (s.vars var).isNone then s.promiseMessages var else []
  | .receiveBin llen => if llen = 0 then [] else s.readMessages
  | .readConsole _ => s.readMessages
  | .writeConsole buf errorFlag =>
      match s.writer with
      | .writeConsoleEx => if errorFlag then [buf] else []
      | .writeConsoleErrorOnly => [buf]
  | .parseGet | .parseCookies | .getServer | .assign _ _ | .sendBin _ | .setStatus _
  | .setContentType _ | .internals _ | .detach => []

end Session

/-- The messages of a step. -/
def SessionStep.messages (step : SessionStep) : List Bytes :=
  match step.op with
  | .call call => step.before.callMessages call
  | .error msg | .errorInPool msg => [msg]
  | _ => []

/-- What the module writes to the error log of a request. -/
inductive LogEntry where
  /-- The line `rApache Notice!`. -/
  | notice
  /-- The content of `MR_BBerr`. -/
  | text (content : Bytes)
  deriving DecidableEq, Repr

/-- The entries that a step writes to the error log: a notice if it creates `MR_BBerr`, and the
content of `MR_BBerr` when `TearDownRequest` empties it. -/
def SessionStep.errorLog (step : SessionStep) : List LogEntry :=
  match step.op, step.value with
  | .logErrors, .raw content => [.text content]
  | _, _ =>
      if step.messages ≠ [] ∧ step.before.request.r.isSome ∧ step.before.bbErr = none then
        [.notice]
      else []

/-- The messages of some steps, in order. -/
def messages (steps : List SessionStep) : List Bytes := steps.flatMap SessionStep.messages

/-- The entries that some steps write to the error log, in order. -/
def errorLog (steps : List SessionStep) : List LogEntry := steps.flatMap SessionStep.errorLog

theorem messages_snoc (steps : List SessionStep) (step : SessionStep) :
    messages (steps ++ [step]) = messages steps ++ step.messages := by
  simp [messages]

theorem errorLog_snoc (steps : List SessionStep) (step : SessionStep) :
    errorLog (steps ++ [step]) = errorLog steps ++ step.errorLog := by
  simp [errorLog]

/-- A step does not write its messages to the output. -/
theorem SessionStep.written_of_messages {step : SessionStep} (speaks : step.messages ≠ []) :
    step.written = [] := by
  rcases step with ⟨before, op, value⟩
  cases op with
  | call call =>
      cases call with
      | writeConsole buf errorFlag =>
          cases errorFlag with
          | true => rfl
          | false =>
              cases writer : before.writer with
              | writeConsoleEx => simp [messages, Session.callMessages, writer] at speaks
              | writeConsoleErrorOnly => simp [written, writer]
      | sendBin buffers => exact (speaks rfl).elim
      | parseGet => rfl
      | parsePost => rfl
      | parseFiles => rfl
      | parseCookies => rfl
      | getServer => rfl
      | force var => rfl
      | assign var value => rfl
      | receiveBin llen => rfl
      | readConsole size => rfl
      | setStatus status => rfl
      | setContentType stype => rfl
      | internals str => rfl
      | detach => rfl
  | puts text => exact (speaks rfl).elim
  | contentType type => rfl
  | error msg => rfl
  | errorInPool msg => rfl
  | setWriter writer => rfl
  | cleanReading => rfl
  | cleanWriting flush => rfl
  | logErrors => rfl
  | clear => rfl

/-! ## What `MR_BBerr` collects -/

namespace Session

/-- `MR_BBerr` holds these messages, and is only created for the first of them. -/
def Collects (messages : List Bytes) (s : Session) : Prop :=
  s.bbErr = if messages = [] then none else some messages

theorem Collects.keep {messages : List Bytes} {s s' : Session} (collects : Collects messages s)
    (same : s'.bbErr = s.bbErr) : Collects (messages ++ []) s' := by
  rw [List.append_nil, Collects, same]
  exact collects

/-- `RApacheError` adds a message. -/
theorem Collects.add {messages : List Bytes} {msg : Bytes} {s s' : Session}
    (collects : Collects messages s) (called : s.rApacheError msg = some s') :
    Collects (messages ++ [msg]) s' := by
  unfold rApacheError at called
  rw [Collects] at collects
  cases messages with
  | nil =>
      rw [if_pos rfl] at collects
      simp only [collects, Option.map_eq_some_iff] at called
      rcases called with ⟨r, -, same⟩
      rw [← same]
      rfl
  | cons first messages =>
      rw [if_neg (by simp)] at collects
      simp only [collects, Option.some.injEq] at called
      rw [← called]
      rfl

theorem Collects.returning {messages : List Bytes} {msg : Bytes} {value value' : RValue}
    {s s' : Session} (collects : Collects messages s)
    (called : returning value s (s.rApacheError msg) = (.returned value', s')) :
    Collects (messages ++ [msg]) s' :=
  collects.add (returning_some called)

/-- Reading with R adds a message if the body is parsed. -/
theorem Collects.read {messages : List Bytes} {size : Int32} {got : Bytes} {s s' : Session}
    (collects : Collects messages s) (called : s.readRequestBody size = some (got, s')) :
    Collects (messages ++ s.readMessages) s' := by
  rcases readRequestBody_cases called with ⟨parsed, -⟩ | ⟨notParsed, bbIn, more, same, -⟩
  · rw [readMessages, if_pos parsed]
    unfold readRequestBody at called
    split at called
    next => cases called
    next =>
      rw [if_pos parsed] at called
      rcases Option.map_eq_some_iff.mp called with ⟨after, error, same⟩
      cases same
      exact collects.add error
  · rw [readMessages, if_neg (by simp [notParsed]), same]
    exact collects.keep rfl

/-- The loop of `RApache_receiveBin` adds one message if the body is parsed, and then ends. -/
theorem Collects.receiveAll {messages : List Bytes} {fuel : Nat} {size blen : UInt64}
    {buf : Bytes} {value : RValue} {s s' : Session} (collects : Collects messages s)
    (called : receiveAll fuel size blen buf s = (.returned value, s')) :
    Collects (messages ++ s.readMessages) s' := by
  induction fuel generalizing messages size blen buf s with
  | zero => cases called
  | succ fuel ih =>
      simp only [Session.receiveAll] at called
      split at called
      next => cases called
      next got after read =>
        have added := collects.read read
        split at called
        next more =>
          rcases readRequestBody_cases read with ⟨-, none, -⟩ | ⟨notParsed, bbIn, reads, same, -⟩
          · rw [none] at more
            exact absurd more (by decide)
          · have silent : after.readMessages = [] := by
              rw [same, readMessages]
              simp [notParsed]
            simpa [silent] using ih added called
        next =>
          cases called
          exact added

theorem Collects.receiveBin {messages : List Bytes} {fuel : Nat} {llen : Int32} {value : RValue}
    {s s' : Session} (collects : Collects messages s)
    (called : s.receiveBin fuel llen = (.returned value, s')) :
    Collects (messages ++ s.callMessages (.receiveBin llen)) s' := by
  unfold Session.receiveBin at called
  split at called
  next positive =>
    have nonzero : llen ≠ 0 := by
      rintro rfl
      exact absurd positive (by decide)
    split at called
    next => cases called
    next read =>
      cases called
      simpa [callMessages, nonzero] using collects.read read
  next notPositive =>
    split at called
    next negative =>
      have nonzero : llen ≠ 0 := by
        rintro rfl
        exact absurd negative (by decide)
      simpa [callMessages, nonzero] using collects.receiveAll called
    next notNegative =>
      have zero : llen = 0 :=
        Int32.le_antisymm (by simpa using notPositive) (by simpa using notNegative)
      cases called
      simpa [callMessages, zero] using collects

theorem startParse_bbErr (fuel : Nat) (returnPost : Bool) (r : RequestRec) (contentType : Bytes)
    (pfn : ParserFunction) (s : Session) :
    (startParse fuel returnPost r contentType pfn s).2.bbErr = s.bbErr := by
  simp only [startParse]
  split
  next => rfl
  next => rfl
  next => rfl

/-- `parsePost` adds a message if R code has started to read. -/
theorem Collects.parsePost {messages : List Bytes} {fuel : Nat} {returnPost : Bool}
    {value : RValue} {s s' : Session} (collects : Collects messages s)
    (called : s.parsePost fuel returnPost = (.returned value, s')) :
    Collects (messages ++ s.parseMessages) s' := by
  unfold Session.parsePost at called
  split at called
  next noRequest =>
    cases called
    rw [parseMessages, if_neg (by simp [noRequest])]
    exact collects.keep rfl
  next r isRequest =>
    split at called
    next started =>
      rw [parseMessages, if_pos ⟨by simp [isRequest], started⟩]
      exact collects.returning called
    next notStarted =>
      rw [parseMessages, if_neg fun both => notStarted both.2]
      split at called
      next =>
        cases called
        exact collects.keep rfl
      next =>
        split at called
        next =>
          cases called
          exact collects.keep rfl
        next =>
          split at called
          next =>
            cases called
            exact collects.keep rfl
          next contentType pfn _ =>
            have same := startParse_bbErr fuel returnPost r contentType pfn s
            rw [called] at same
            exact collects.keep same

theorem Remembers.collects {messages : List Bytes} {s s' : Session} (remembers : Remembers s s')
    (collects : Collects messages s) : Collects (messages ++ []) s' := by
  rcases remembers.request with ⟨argsTable, cookiesTable, serverVar, rfl⟩
  exact collects.keep rfl

/-- Reading a variable adds the messages of its promise. -/
theorem Collects.force {messages : List Bytes} {fuel : Nat} {var : CgiVar} {value : RValue}
    {s s' : Session} (collects : Collects messages s)
    (called : s.force fuel var = (.returned value, s')) :
    Collects (messages ++ s.callMessages (.force var)) s' := by
  have promise {value : RValue} {after : Session}
      (evaluated : s.evalPromise fuel var = (.returned value, after)) :
      Collects (messages ++ s.promiseMessages var) after := by
    have same : (s.evalPromise fuel var).2 = after := congrArg Prod.snd evaluated
    cases var with
    | get => exact same ▸ (parseGet_remembers s).collects collects
    | post => exact collects.parsePost evaluated
    | cookies => exact same ▸ (parseCookies_remembers s).collects collects
    | files => exact collects.parsePost evaluated
    | server => exact same ▸ (getServer_remembers s).collects collects
  unfold Session.force at called
  split at called
  next attached =>
    split at called
    next found =>
      cases called
      rw [callMessages, if_neg (by simp [found])]
      exact collects.keep rfl
    next delayed =>
      rw [callMessages, if_pos ⟨attached, by simp [delayed]⟩]
      split at called
      next after evaluated =>
        cases called
        exact (promise evaluated : Collects _ after)
      next unfinished _ =>
        cases called
        exact (unfinished _ rfl).elim
  next detached =>
    cases called
    rw [callMessages, if_neg fun both => detached both.1]
    exact collects.keep rfl

theorem Collects.writeConsole {messages : List Bytes} {buf : Bytes} {errorFlag : Bool}
    {value : RValue} {s s' : Session} (collects : Collects messages s)
    (present : s.request.r.isSome)
    (called : s.writeConsole buf errorFlag = (.returned value, s')) :
    Collects (messages ++ s.callMessages (.writeConsole buf errorFlag)) s' := by
  simp only [Session.writeConsole, writeConsoleEx, writeConsoleErrorOnly, if_pos present] at called
  cases writer : s.writer with
  | writeConsoleErrorOnly =>
      simp only [writer] at called
      simpa [callMessages, writer] using collects.returning called
  | writeConsoleEx =>
      simp only [writer] at called
      cases errorFlag with
      | true => simpa [callMessages, writer] using collects.returning called
      | false =>
          simp only [Bool.false_eq_true, if_false] at called
          rcases Option.map_eq_some_iff.mp (returning_some called) with ⟨held, -, same⟩
          have silent : s.callMessages (.writeConsole buf false) = [] := by
            simp [callMessages, writer]
          rw [silent, ← same]
          exact collects.keep rfl

/-- A call of R code during a request adds its messages. -/
theorem Collects.exec {messages : List Bytes} {call : Call} {fuel : Nat} {value : RValue}
    {s s' : Session} (collects : Collects messages s) (present : s.request.r.isSome)
    (executed : s.exec fuel call = (.returned value, s')) :
    Collects (messages ++ s.callMessages call) s' := by
  have after : (s.exec fuel call).2 = s' := congrArg Prod.snd executed
  cases call with
  | parseGet => exact after ▸ (parseGet_remembers s).collects collects
  | parsePost => exact collects.parsePost executed
  | parseFiles => exact collects.parsePost executed
  | parseCookies => exact after ▸ (parseCookies_remembers s).collects collects
  | getServer => exact after ▸ (getServer_remembers s).collects collects
  | force var => exact collects.force executed
  | assign var value =>
      refine after ▸ collects.keep ?_
      simp only [Session.exec]
      split
      next => rfl
      next => rfl
  | receiveBin llen => exact collects.receiveBin executed
  | readConsole size =>
      simp only [Session.exec, readConsole] at executed
      split at executed
      next => cases executed
      next read =>
        cases executed
        exact collects.read read
  | writeConsole buf errorFlag => exact collects.writeConsole present executed
  | sendBin buffers =>
      simp only [Session.exec, sendBin, if_pos present] at executed
      rcases brigadeWrites_eq (returning_some executed) with ⟨bbOut, same⟩
      rw [same]
      exact collects.keep rfl
  | setStatus status =>
      simp only [Session.exec, setStatus, if_pos present] at after
      exact after ▸ collects.keep rfl
  | setContentType stype =>
      refine after ▸ collects.keep ?_
      simp only [Session.exec, setContentType]
      split
      next => rfl
      next => rfl
  | internals str => exact after ▸ collects.keep rfl
  | detach => exact after ▸ collects.keep rfl

/-- A step that works for a request adds its messages. -/
theorem Collects.perform {messages : List Bytes} {op : SessionOp} {fuel : Nat} {value : RValue}
    {s s' : Session} (collects : Collects messages s) (present : s.request.r.isSome)
    (isWork : op.isWork = true) (performed : s.perform fuel op = (.returned value, s')) :
    Collects (messages ++ SessionStep.messages ⟨s, op, value⟩) s' := by
  have after : (s.perform fuel op).2 = s' := congrArg Prod.snd performed
  cases op with
  | call call => exact collects.exec present performed
  | contentType type =>
      simp only [Session.perform, if_pos present] at after
      exact after ▸ collects.keep rfl
  | error msg => exact collects.returning performed
  | errorInPool msg =>
      simp only [Session.perform, if_pos present] at performed
      exact collects.returning performed
  | puts text =>
      rcases Option.map_eq_some_iff.mp (returning_some performed) with ⟨held, -, same⟩
      rw [← same]
      exact collects.keep rfl
  | setWriter writer => cases isWork
  | cleanReading => cases isWork
  | cleanWriting flush => cases isWork
  | logErrors => cases isWork
  | clear => cases isWork

theorem cleanWriting_bbErr (flush : Bool) (s : Session) :
    (s.cleanWriting flush).2.bbErr = s.bbErr := by
  unfold cleanWriting
  split
  next => rfl
  next => rfl
  next =>
    split
    next => rfl
    next =>
      split
      next => rfl
      next => rfl

/-- `TearDownRequest` writes what was collected, as one text, and nothing if there was
nothing. -/
theorem Collects.logErrors {messages : List Bytes} {value : RValue} {s s' : Session}
    (collects : Collects messages s) (performed : s.logErrors = (.returned value, s')) :
    SessionStep.errorLog ⟨s, .logErrors, value⟩ =
        (if messages = [] then [] else [.text messages.flatten]) ∧
      s'.bbErr = none ∧ s'.writer = s.writer := by
  rw [Collects] at collects
  unfold Session.logErrors at performed
  cases messages with
  | nil =>
      rw [if_pos rfl] at collects
      simp only [collects] at performed
      cases performed
      exact ⟨rfl, collects, rfl⟩
  | cons first messages =>
      rw [if_neg (by simp)] at collects
      simp only [collects] at performed
      split at performed
      next =>
        cases performed
        exact ⟨rfl, rfl, rfl⟩
      next => cases performed

end Session

/-! ## The protocol of the error log -/

/-- A request that is over, with its steps. -/
structure ServedRequest where
  who : Owner
  r : RequestRec
  steps : List SessionStep

/-- The request that is cleared in a step of the lock. -/
def LockEvent.clears : LockEvent → Option (Owner × Option RequestRec)
  | cleared who r => some (who, r)
  | _ => none

/-- The requests that `TearDownRequest` has cleared, in order. -/
def clearedRequests (events : List LockEvent) : List (Owner × Option RequestRec) :=
  events.reverse.filterMap LockEvent.clears

theorem clearedRequests_cons (event : LockEvent) (events : List LockEvent) :
    clearedRequests (event :: events) = clearedRequests events ++ event.clears.toList := by
  rw [clearedRequests, List.reverse_cons, List.filterMap_append]
  cases found : event.clears with
  | none => simp [clearedRequests, found]
  | some request => simp [clearedRequests, found]

/-- An event that clears no request. -/
theorem clearedRequests_skip {event : LockEvent} (clears : event.clears = none)
    (events : List LockEvent) : clearedRequests (event :: events) = clearedRequests events := by
  rw [clearedRequests_cons, clears]
  exact List.append_nil _

theorem mem_clearedRequests {events : List LockEvent} {who : Owner} {r : Option RequestRec} :
    (who, r) ∈ clearedRequests events ↔ .cleared who r ∈ events := by
  simp only [clearedRequests, List.mem_filterMap, List.mem_reverse]
  constructor
  · rintro ⟨event, isEvent, same⟩
    cases event with
    | cleared owner cleared =>
        cases same
        exact isEvent
    | entered => cases same
    | working => cases same
    | tornDown => cases same
    | left => cases same
    | execFailed => cases same
    | returned => cases same
  · exact fun isEvent => ⟨_, isEvent, rfl⟩

/-- The steps have a notice in the error log if there were messages, and `MR_BBerr` holds
them. -/
structure Collecting (steps : List SessionStep) (s : Session) : Prop where
  collects : s.Collects (messages steps)
  notice : errorLog steps = if messages steps = [] then [] else [.notice]

/-- The error log has a notice and then all messages in one piece, or nothing if there were
none. -/
def LogsMessages (steps : List SessionStep) : Prop :=
  errorLog steps =
    if messages steps = [] then [] else [.notice, .text (messages steps).flatten]

/-- The last of the steps clears the request, when `MR_BBerr` is gone and `ptr_R_WriteConsoleEx`
is `WriteConsoleEx`. -/
def EndsQuietly (steps : List SessionStep) : Prop :=
  ∃ before, steps.getLast? = some ⟨before, .clear, .null⟩ ∧ before.bbErr = none ∧
    before.writer = .writeConsoleEx

/-- The requests before the current one have logged their messages. -/
structure PastLogged (past : List ServedRequest) (events : List LockEvent) : Prop where
  cleared : clearedRequests events = past.map fun request => (request.who, some request.r)
  logged : ∀ request ∈ past, LogsMessages request.steps ∧ EndsQuietly request.steps

/-- How far a request is with its messages. -/
inductive LogPhase where
  | locked
  | current (r : RequestRec)
  | working (r : RequestRec) (writer : ConsoleWriter)
  | written (r : RequestRec)
  | logged (r : RequestRec)

/-- The requests, as far as their output is concerned. -/
def outputs (past : List ServedRequest) : List (RequestRec × List SessionStep) :=
  past.map fun request => (request.r, request.steps)

theorem outputs_steps (past : List ServedRequest) :
    (outputs past).flatMap Prod.snd = past.flatMap ServedRequest.steps := by
  simp [outputs, List.flatMap_map]

/-- How far the request is with its output. -/
def LogPhase.output (past : List ServedRequest) : LogPhase → OutputStage
  | locked => .locked (outputs past)
  | current r => .current (outputs past) r
  | working r _ => .writing (outputs past) r
  | written r => .written (outputs past) r
  | logged r => .written (outputs past) r

/-- What is known of the errors of a request, whose steps so far are these. -/
def LogPhase.Errors (steps : List SessionStep) (s : Session) : LogPhase → Prop
  | locked => steps = [] ∧ s.bbErr = none ∧ s.writer = .writeConsoleEx
  | current _ => steps = [] ∧ s.bbErr = none ∧ s.writer = .writeConsoleEx
  | working _ writer => Collecting steps s ∧ s.writer = writer
  | written _ => Collecting steps s ∧ s.writer = .writeConsoleEx
  | logged _ => LogsMessages steps ∧ s.bbErr = none ∧ s.writer = .writeConsoleEx

/-- What is known at each phase. -/
structure LogPhase.Holds (past : List ServedRequest) (s : Child) (phase : LogPhase) : Prop where
  output : (phase.output past).Holds s
  earlier : PastLogged past s.lockEvents
  errors : ∃ steps, s.log = past.flatMap ServedRequest.steps ++ steps ∧
    phase.Errors steps s.session

/-- The error log and the console writer, which the lock guards. -/
def logGuard : Guard Answer Child Nat (List ServedRequest × LogPhase) where
  mutex s := s.mutex
  rest s := ∃ past, LogPhase.locked.Holds past s
  holds _ stage s := stage.2.Holds stage.1 s
  outside _ _ s s' := s'.mutex = s.mutex ∧ s'.session = s.session ∧ s'.log = s.log ∧
    clearedRequests s'.lockEvents = clearedRequests s.lockEvents

/-- What is known only depends on the request, the output, the errors, the writer, the steps and
the cleared requests. -/
theorem LogPhase.Holds.of_eq {past : List ServedRequest} {phase : LogPhase} {s s' : Child}
    (holds : phase.Holds past s) (request : s'.session.request.r = s.session.request.r)
    (bbOut : s'.session.bbOut = s.session.bbOut) (bbErr : s'.session.bbErr = s.session.bbErr)
    (writer : s'.session.writer = s.session.writer) (log : s'.log = s.log)
    (cleared : clearedRequests s'.lockEvents = clearedRequests s.lockEvents) :
    phase.Holds past s' := by
  rcases holds.errors with ⟨steps, isLog, errors⟩
  refine ⟨holds.output.of_eq request bbOut log, ⟨cleared.trans holds.earlier.cleared,
    holds.earlier.logged⟩, steps, log.trans isLog, ?_⟩
  have collecting (known : Collecting steps s.session) : Collecting steps s'.session :=
    ⟨bbErr.trans known.collects, known.notice⟩
  cases phase with
  | locked => exact ⟨errors.1, bbErr.trans errors.2.1, writer.trans errors.2.2⟩
  | current r => exact ⟨errors.1, bbErr.trans errors.2.1, writer.trans errors.2.2⟩
  | working r found => exact ⟨collecting errors.1, writer.trans errors.2⟩
  | written r => exact ⟨collecting errors.1, writer.trans errors.2⟩
  | logged r => exact ⟨errors.1, bbErr.trans errors.2.1, writer.trans errors.2.2⟩

theorem logGuard_lawful : logGuard.Lawful where
  mutex outside := outside.1
  rest := by
    rintro worker ω s s' ⟨-, session, log, cleared⟩ ⟨past, holds⟩
    exact ⟨past, holds.of_eq (by rw [session]) (by rw [session]) (by rw [session])
      (by rw [session]) log cleared⟩
  holds := by
    rintro worker other stage ω s s' ⟨-, session, log, cleared⟩ - holds
    exact LogPhase.Holds.of_eq holds (by rw [session]) (by rw [session]) (by rw [session])
      (by rw [session]) log cleared

/-- A step without messages that does not end them. -/
theorem Collecting.quiet {steps : List SessionStep} {s s' : Session} {op : SessionOp}
    {value : RValue} (known : Collecting steps s) (bbErr : s'.bbErr = s.bbErr)
    (silent : SessionStep.messages ⟨s, op, value⟩ = [])
    (noEntry : SessionStep.errorLog ⟨s, op, value⟩ = []) :
    Collecting (steps ++ [⟨s, op, value⟩]) s' := by
  constructor
  · rw [messages_snoc, silent]
    exact known.collects.keep bbErr
  · rw [errorLog_snoc, messages_snoc, silent, noEntry, List.append_nil, List.append_nil]
    exact known.notice

/-- A step that works for the request. -/
theorem Collecting.work {steps : List SessionStep} {s s' : Session} {op : SessionOp}
    {fuel : Nat} {value : RValue} (known : Collecting steps s) (present : s.request.r.isSome)
    (isWork : op.isWork = true) (performed : s.perform fuel op = (.returned value, s')) :
    Collecting (steps ++ [⟨s, op, value⟩]) s' := by
  have entry : SessionStep.errorLog ⟨s, op, value⟩ =
      if SessionStep.messages ⟨s, op, value⟩ ≠ [] ∧ s.request.r.isSome ∧ s.bbErr = none then
        [.notice]
      else [] := by
    cases op <;> first | rfl | cases isWork
  constructor
  · rw [messages_snoc]
    exact known.collects.perform present isWork performed
  · rw [errorLog_snoc, messages_snoc, known.notice, entry, known.collects]
    by_cases none : messages steps = []
    · by_cases silent : SessionStep.messages ⟨s, op, value⟩ = []
      · simp [none, silent]
      · simp [none, silent, present]
    · simp [none]

section Serving

variable {w : World} {me : Owner} {r : RequestRec} {past : List ServedRequest}

/-- A step in the section that changes nothing that is known. -/
theorem logGuard_stays {phase : LogPhase} {ω : Answer} {s s' : Child}
    (mutex : s'.mutex = s.mutex) (request : s'.session.request.r = s.session.request.r)
    (bbOut : s'.session.bbOut = s.session.bbOut) (bbErr : s'.session.bbErr = s.session.bbErr)
    (writer : s'.session.writer = s.session.writer) (log : s'.log = s.log)
    (cleared : clearedRequests s'.lockEvents = clearedRequests s.lockEvents) :
    Code.Stays (logGuard.protocol me.worker) (.inside (past, phase)) ω s s' :=
  fun relies => ⟨mutex, relies.2.of_eq request bbOut bbErr writer log cleared⟩

/-- A step of the module that leads to another phase: what is known of the output and of the
errors behind it is enough. -/
theorem LogPhase.Holds.performed {phase phase' : LogPhase} {ω : Answer} {op : SessionOp}
    {value : RValue} {session : Session} {s : Child} (holds : phase.Holds past s)
    (output : (phase'.output past).Holds (s.performed ω op value session))
    (errors : ∀ steps, phase.Errors steps s.session →
      phase'.Errors (steps ++ [⟨s.session, op, value⟩]) session) :
    phase'.Holds past (s.performed ω op value session) := by
  rcases holds.errors with ⟨steps, log, known⟩
  refine ⟨output, holds.earlier, steps ++ [⟨s.session, op, value⟩], ?_, errors steps known⟩
  simp [Child.performed, log]

/-- While a request is worked for, a step of the module for it keeps what is known. -/
theorem working_session {writer : ConsoleWriter} {ω : Answer} {op : SessionOp} {value : RValue}
    {session : Session} {s : Child} (holds : (LogPhase.working r writer).Holds past s)
    (isWork : op.isWork = true)
    (performed : s.session.perform w.fuel op = (.returned value, session)) :
    (LogPhase.working r writer).Holds past (s.performed ω op value session) := by
  have kept := Session.perform_keeps w.fuel op s.session
  rw [performed] at kept
  have present : s.session.request.r.isSome := by
    rcases holds.output with ⟨-, -, -, -, current, -⟩
    simp [current]
  refine holds.performed ?_ fun steps errors => ⟨errors.1.work present isWork performed, ?_⟩
  · exact writing_performed holds.output (kept.1 (SessionOp.isWork_notClear isWork))
      (isWork_flushes isWork _ _) fun _ output =>
        Session.perform_holds output present isWork performed
  · exact (kept.2 (SessionOp.isWork_notWriter isWork)).trans errors.2

theorem logGuard_allowsHandler (writer : ConsoleWriter) :
    Code.AllowsHandler NoExecFailure
      (Code.Stays (logGuard.protocol me.worker) (.inside (past, .working r writer))) w me where
  toAllowsCode := by
    apply Code.AllowsWork.code
    constructor
    intro ω s s' step
    cases step with
    | read => exact logGuard_stays rfl rfl rfl rfl rfl rfl rfl
    | directory cwd => exact logGuard_stays rfl rfl rfl rfl rfl rfl rfl
    | session isWork performed =>
        rintro ⟨held, holds⟩
        exact ⟨rfl, working_session holds isWork performed⟩
  caches := by
    intro ω s s' step
    cases step with
    | change => exact logGuard_stays rfl rfl rfl rfl rfl rfl rfl
    | nullUse => exact logGuard_stays rfl rfl rfl rfl rfl rfl rfl

/-- `PrintTraceback` sets the console writer and sets it back. -/
theorem logGuard_traceback :
    Follows NoExecFailure (logGuard.protocol me.worker) (Code.printTraceback w me)
      (fun _ place => place = .inside (past, .working r .writeConsoleEx))
      (.inside (past, .working r .writeConsoleEx)) := by
  have set (before after : ConsoleWriter) :
      Follows NoExecFailure (logGuard.protocol me.worker) (Code.perform w (.setWriter after))
        (fun _ place => place = .inside (past, .working r after))
        (.inside (past, .working r before)) := by
    apply Code.follows_perform
    rintro ω s value session ⟨held, holds⟩ performed
    cases performed
    have output (buffers : List Bytes) (output : s.session.Holds buffers) :
        Session.Holds (buffers ++ []) { s.session with writer := after } := output.keep ⟨rfl, rfl⟩
    have known : (LogPhase.working r after).Holds past
        (s.performed ω (.setWriter after) .null { s.session with writer := after }) :=
      holds.performed (writing_performed holds.output rfl rfl output)
        fun steps errors => ⟨errors.1.quiet rfl rfl rfl, rfl⟩
    exact ⟨.inside (past, .working r after), ⟨rfl, known⟩, rfl⟩
  refine (set _ _).bind ?_
  rintro _ _ rfl
  refine (Code.follows_of_every
    (Code.tryEval_every (logGuard_allowsHandler .writeConsoleErrorOnly).toAllowsCode)).bind ?_
  rintro _ _ rfl
  exact (set _ _).bind fun _ _ now => now

theorem LogsMessages.snoc {steps : List SessionStep} {step : SessionStep}
    (logs : LogsMessages steps) (silent : step.messages = []) (noEntry : step.errorLog = []) :
    LogsMessages (steps ++ [step]) := by
  rw [LogsMessages, errorLog_snoc, messages_snoc, silent, noEntry, List.append_nil,
    List.append_nil]
  exact logs

/-- A request that is cleared is over. -/
theorem logged_cleared {s s' : Child} {steps : List SessionStep}
    (holds : (LogPhase.logged r).Holds past s)
    (log : s.log = past.flatMap ServedRequest.steps ++ steps)
    (errors : (LogPhase.logged r).Errors steps s.session)
    (session : s'.session = { s.session with request := {} })
    (events : s'.lockEvents = .cleared me s.session.request.r :: s.lockEvents)
    (isLog : s'.log = s.log ++ [⟨s.session, .clear, .null⟩]) :
    LogPhase.locked.Holds (past ++ [⟨me, r, steps ++ [⟨s.session, .clear, .null⟩]⟩]) s' := by
  rcases errors with ⟨logs, bbErr, writer⟩
  rcases written_cleared holds.output with ⟨current, steps', log', isPast⟩
  rw [outputs_steps, log, List.append_cancel_left_eq] at log'
  rw [← log', ← isLog] at isPast
  refine ⟨?_, ⟨?_, ?_⟩, [], ?_, rfl, ?_, ?_⟩
  · simpa [LogPhase.output, OutputStage.Holds, outputs] using isPast
  · rw [events, clearedRequests_cons, current, holds.earlier.cleared]
    simp [LockEvent.clears]
  · intro request isRequest
    rcases List.mem_append.mp isRequest with earlier | last
    · exact holds.earlier.logged request earlier
    · rw [List.mem_singleton.mp last]
      exact ⟨logs.snoc rfl rfl, s.session, by simp, bbErr, writer⟩
  · simp [isLog, log]
  · rw [session]
    exact bbErr
  · rw [session]
    exact writer

/-- The writing of the output keeps the messages. -/
theorem logGuard_cleanWriting (flush : Bool) :
    Follows NoExecFailure (logGuard.protocol me.worker)
    (Code.perform w (.cleanWriting flush))
    (fun _ place => place = .inside (past, .written r))
    (.inside (past, .working r .writeConsoleEx)) := by
  apply Code.follows_perform
  rintro ω s value session ⟨held, holds⟩ performed
  have kept := (Session.perform_keeps w.fuel (.cleanWriting flush) s.session).2 (by nofun)
  have bbErr := Session.cleanWriting_bbErr flush s.session
  rw [performed] at kept
  rw [show s.session.cleanWriting flush = (.returned value, session) from performed] at bbErr
  have known : (LogPhase.written r).Holds past
      (s.performed ω (.cleanWriting flush) value session) :=
    holds.performed (writing_cleaned holds.output performed)
      fun steps errors => ⟨errors.1.quiet bbErr rfl rfl, kept.trans errors.2⟩
  exact ⟨.inside (past, .written r), ⟨rfl, known⟩, rfl⟩

/-- The error log gets the messages behind the notice. -/
theorem logGuard_logErrors :
    Follows NoExecFailure (logGuard.protocol me.worker) (Code.perform w .logErrors)
    (fun _ place => place = .inside (past, .logged r)) (.inside (past, .written r)) := by
  apply Code.follows_perform
  rintro ω s value session ⟨held, holds⟩ performed
  have request := (Session.perform_keeps w.fuel .logErrors s.session).1 (by nofun)
  rw [performed] at request
  have known : (LogPhase.logged r).Holds past (s.performed ω .logErrors value session) := by
    refine holds.performed (written_performed holds.output request rfl rfl) ?_
    rintro steps ⟨collecting, writer⟩
    rcases collecting.collects.logErrors performed with ⟨entry, bbErr, sameWriter⟩
    refine ⟨?_, bbErr, sameWriter.trans writer⟩
    have silent : SessionStep.messages ⟨s.session, .logErrors, value⟩ = [] := rfl
    rw [LogsMessages, errorLog_snoc, messages_snoc, silent, entry, collecting.notice,
      List.append_nil]
    split
    next => rfl
    next => rfl
  exact ⟨.inside (past, .logged r), ⟨rfl, known⟩, rfl⟩

theorem logGuard_clearRequest :
    Follows NoExecFailure (logGuard.protocol me.worker) (Code.clearRequest w me)
    (fun _ place => ∃ past, place = .inside (past, .locked)) (.inside (past, .logged r)) := by
  apply Code.follows_modify
  rintro ω s ⟨held, holds⟩
  rcases holds.errors with ⟨steps, log, errors⟩
  refine ⟨.inside (past ++ [⟨me, r, steps ++ [⟨s.session, .clear, .null⟩]⟩], .locked),
    ⟨rfl, ?_⟩, _, rfl⟩
  exact logged_cleared holds log errors rfl rfl rfl

/-- `TearDownRequest` writes all messages to the log, those of its own code too, before it clears
the request. -/
theorem logGuard_tearDown (flush : Bool) :
    Follows NoExecFailure (logGuard.protocol me.worker) (Code.tearDownRequest w me flush)
      (fun _ place => place = .outside) (.inside (past, .working r .writeConsoleEx)) := by
  have restored : Follows NoExecFailure (logGuard.protocol me.worker)
      (Code.restoreDirectory me)
      (fun _ place => place = .inside (past, .working r .writeConsoleEx))
      (.inside (past, .working r .writeConsoleEx)) := by
    apply Code.follows_atomic
    intro ω s value s' relies acted _
    cases acted
    exact ⟨_, logGuard_stays rfl rfl rfl rfl rfl rfl (clearedRequests_skip rfl _) relies, rfl⟩
  have pushedBack : Follows NoExecFailure (logGuard.protocol me.worker) (Code.clearPushBack w)
      (fun _ place => place = .inside (past, .working r .writeConsoleEx))
      (.inside (past, .working r .writeConsoleEx)) :=
    Code.follows_of_every
      (Code.clearPushBack_every (logGuard_allowsHandler .writeConsoleEx).toAllowsWork)
  have readingCleaned : Follows NoExecFailure (logGuard.protocol me.worker)
      (Code.perform w .cleanReading)
      (fun _ place => place = .inside (past, .working r .writeConsoleEx))
      (.inside (past, .working r .writeConsoleEx)) := by
    apply Code.follows_perform
    rintro ω s value session ⟨held, holds⟩ performed
    cases performed
    have output (buffers : List Bytes) (output : s.session.Holds buffers) :
        Session.Holds (buffers ++ []) { s.session with bbIn := none } := output.keep ⟨rfl, rfl⟩
    have known : (LogPhase.working r .writeConsoleEx).Holds past
        (s.performed ω .cleanReading .null { s.session with bbIn := none }) :=
      holds.performed (writing_performed holds.output rfl rfl output)
        fun steps errors => ⟨errors.1.quiet rfl rfl rfl, errors.2⟩
    exact ⟨.inside (past, .working r .writeConsoleEx), ⟨rfl, known⟩, rfl⟩
  have unlocked (past : List ServedRequest) :
      Follows NoExecFailure (logGuard.protocol me.worker) (Code.unlock me)
        (fun _ place => place = .outside) (.inside (past, .locked)) := by
    apply Code.guard_unlock fun _ => rfl
    intro ω s _ holds
    exact ⟨past, LogPhase.Holds.of_eq holds rfl rfl rfl rfl rfl (clearedRequests_skip rfl _)⟩
  apply Code.follows_tearDownRequest restored pushedBack readingCleaned
    (logGuard_cleanWriting flush) logGuard_logErrors logGuard_clearRequest
  rintro _ ⟨past', rfl⟩
  exact unlocked past'

/-- Every request keeps to the protocol of the error log. -/
theorem logGuard_serving :
    Code.Serving NoExecFailure (logGuard.protocol me.worker) .outside
      (fun past => .inside (past, .locked)) (fun past => .inside (past, .current r))
      (fun past => .inside (past, .working r .writeConsoleEx))
      (fun _ place => place = .outside) w me r where
  working past :=
    Code.working_exits (logGuard_allowsHandler .writeConsoleEx) logGuard_tearDown
      logGuard_traceback
  refused _ _ _ := rfl
  filepath := Code.guard_filepath fun _ _ _ => ⟨rfl, rfl, rfl, rfl⟩
  lock := by
    refine Code.guard_lock (fun _ => rfl) (fun _ _ => ⟨rfl, rfl, rfl, rfl⟩) ?_
    rintro ω s ⟨past, holds⟩
    exact ⟨past, LogPhase.Holds.of_eq holds rfl rfl rfl rfl rfl (clearedRequests_skip rfl _)⟩
  setRequest := by
    intro past
    apply Code.follows_modify
    rintro ω s ⟨held, holds⟩
    rcases holds.errors with ⟨steps, log, errors⟩
    refine ⟨.inside (past, .current r), ⟨rfl, ⟨holds.output, rfl⟩, ⟨?_, holds.earlier.logged⟩,
      steps, log, errors⟩, rfl⟩
    exact (clearedRequests_skip rfl _).trans holds.earlier.cleared
  createOut := by
    intro past
    have begun {s s' : Child} (holds : (LogPhase.current r).Holds past s)
        (output : s'.session.Holds []) (request : s'.session.request.r = s.session.request.r)
        (bbErr : s'.session.bbErr = s.session.bbErr)
        (writer : s'.session.writer = s.session.writer) (log : s'.log = s.log)
        (events : s'.lockEvents = s.lockEvents) :
        (LogPhase.working r .writeConsoleEx).Holds past s' := by
      rcases holds.errors with ⟨steps, isLog, none, noErrors, isWriter⟩
      refine ⟨writing_begun holds.output output request log, events ▸ holds.earlier, steps,
        log.trans isLog, ⟨?_, ?_⟩, writer.trans isWriter⟩
      · rw [none]
        exact bbErr.trans noErrors
      · rw [none]
        rfl
    apply Code.follows_createOut
    · rintro ω s ⟨held, holds⟩
      exact ⟨.inside (past, .working r .writeConsoleEx),
        ⟨rfl, begun holds (.inl rfl) rfl rfl rfl rfl rfl⟩, rfl⟩
    · rintro ω s ⟨held, holds⟩
      exact ⟨.inside (past, .working r .writeConsoleEx),
        ⟨rfl, begun holds (.inr ⟨rfl, rfl⟩) rfl rfl rfl rfl rfl⟩, rfl⟩
  setHandler := by
    intro past h
    apply Code.follows_modify
    intro ω s relies
    exact ⟨_, logGuard_stays rfl rfl rfl rfl rfl rfl rfl relies, rfl⟩
  refresh := by
    intro past h
    apply Code.follows_refresh
    exact fun ω s relies => ⟨_, logGuard_stays rfl rfl rfl rfl rfl rfl rfl relies, rfl⟩
  tearDown past := logGuard_tearDown false
  info past := Code.info_exits (logGuard_allowsHandler .writeConsoleEx) logGuard_tearDown

end Serving

/-! ## All threads -/

theorem logGuard_follows (workers : Workers) (w : World) (worker : Nat) :
    Follows NoExecFailure (logGuard.protocol worker) (workers.pool w worker)
      (fun _ _ => True) .outside := by
  refine Code.guard_serve ?_ fun _ _ _ => ⟨rfl, rfl, rfl, clearedRequests_skip rfl _⟩
  intro number r _
  exact (@logGuard_serving w { worker, number } r).apHookRequestHandler

/-- What a request that is over has done with its messages. -/
structure ServedRequest.Logged (request : ServedRequest) : Prop where
  /-- All its steps worked on its own error log and output. -/
  taken : TakenFor request.r request.steps
  /-- Its error log got a notice and then all its messages, in order and each once. -/
  logs : LogsMessages request.steps
  /-- When it was cleared, `MR_BBerr` was gone and `ptr_R_WriteConsoleEx` was `WriteConsoleEx`. -/
  ends : EndsQuietly request.steps
  /-- The client got what was written, or nothing. -/
  output : AllOrNothing request.steps
  /-- What has messages does not write. -/
  apart : ∀ step ∈ request.steps, step.messages ≠ [] → step.written = []

/-- The log of the module's steps is made of those of one request after the other.  Every request
that was cleared has logged its messages; one that returns has been cleared; and between two
requests no messages are left and `ptr_R_WriteConsoleEx` is `WriteConsoleEx`. -/
structure MessagesAreLogged (past : List ServedRequest) (s : Child) : Prop where
  cleared : clearedRequests s.lockEvents = past.map fun request => (request.who, some request.r)
  logged : ∀ request ∈ past, request.Logged
  returned : ∀ who r, s.lockEvents.head? = some (.returned who) →
    .working who r ∈ s.lockEvents → ∃ request ∈ past, request.who = who ∧ request.r = r
  between : s.session.request.r = none → s.log = past.flatMap ServedRequest.steps ∧
    s.session.bbErr = none ∧ s.session.writer = .writeConsoleEx
  during : past.flatMap ServedRequest.steps <+: s.log

/-- What is known at a phase says what the requests before have logged. -/
theorem LogPhase.Holds.logged {past : List ServedRequest} {phase : LogPhase} {s : Child}
    (holds : phase.Holds past s) : ∀ request ∈ past, request.Logged := by
  have complete : ∀ output ∈ outputs past, TakenFor output.1 output.2 ∧ AllOrNothing output.2 := by
    have output := holds.output
    cases phase with
    | locked => exact output.2
    | current r => exact output.1.2
    | working r writer =>
        rcases output with ⟨before, steps, log, isPast, -⟩
        exact isPast.2
    | written r =>
        rcases output with ⟨before, steps, log, isPast, -⟩
        exact isPast.2
    | logged r =>
        rcases output with ⟨before, steps, log, isPast, -⟩
        exact isPast.2
  intro request isRequest
  rcases holds.earlier.logged request isRequest with ⟨logs, ends⟩
  rcases complete (request.r, request.steps) (List.mem_map_of_mem isRequest) with ⟨taken, all⟩
  exact ⟨taken, logs, ends, all, fun _ _ speaks => SessionStep.written_of_messages speaks⟩

/-- When no request is served, all steps are those of requests that are over, no messages are left
and `ptr_R_WriteConsoleEx` is `WriteConsoleEx`. -/
theorem LogPhase.Holds.between {past : List ServedRequest} {phase : LogPhase} {s : Child}
    (holds : phase.Holds past s) (noRequest : s.session.request.r = none) :
    s.log = past.flatMap ServedRequest.steps ∧ s.session.bbErr = none ∧
      s.session.writer = .writeConsoleEx := by
  have absent {r : RequestRec} (current : s.session.request.r = some r) : False := by
    rw [noRequest] at current
    cases current
  cases phase with
  | locked =>
      rcases holds.errors with ⟨steps, log, none, bbErr, writer⟩
      rw [none, List.append_nil] at log
      exact ⟨log, bbErr, writer⟩
  | current r => exact (absent holds.output.2).elim
  | working r writer =>
      rcases holds.output with ⟨-, -, -, -, current, -⟩
      exact (absent current).elim
  | written r =>
      rcases holds.output with ⟨-, -, -, -, current, -⟩
      exact (absent current).elim
  | logged r =>
      rcases holds.output with ⟨-, -, -, -, current, -⟩
      exact (absent current).elim

/-- As long as no `EXEC` fails, every request logs all its messages once, in its own error log
and not in the output, in any order of the threads' steps. -/
theorem messages_are_logged (workers : Workers) (w : World) (cwd : Bytes) (files : Files)
    (s : Child) (reach : workers.Reach NoExecFailure w cwd files s) :
    ∃ past, MessagesAreLogged past s := by
  have begins : LogPhase.locked.Holds [] (workers.start cwd files) :=
    ⟨⟨rfl, by simp [outputs]⟩, ⟨rfl, by simp⟩, [], rfl, rfl, rfl, rfl⟩
  rcases Workers.agrees logGuard_lawful (fun _ => rfl) ⟨[], begins⟩ (logGuard_follows workers w)
    reach with ⟨places, agrees⟩
  have known {past : List ServedRequest} {phase : LogPhase} (holds : phase.Holds past s) :
      MessagesAreLogged past s := by
    rcases holds.errors with ⟨steps, log, -⟩
    refine ⟨holds.earlier.cleared, holds.logged, ?_, holds.between, ⟨steps, log.symm⟩⟩
    intro who r last worked
    rcases reach_orderly reach with ⟨inside, orderly⟩
    have cleared := mem_clearedRequests.mpr (orderly.returned_cleared last worked)
    rw [holds.earlier.cleared, List.mem_map] at cleared
    rcases cleared with ⟨request, isRequest, same⟩
    simp only [Prod.mk.injEq, Option.some.injEq] at same
    exact ⟨request, isRequest, same⟩
  rcases agrees.resource with ⟨-, ⟨past, holds⟩, -⟩ | ⟨worker, ⟨past, phase⟩, -, -, holds, -⟩
  · exact ⟨past, known holds⟩
  · exact ⟨past, known holds⟩

/-- Code that prints an error. -/
def printsError : RBehaviour :=
  .call (.writeConsole (bytes "x") true) fun _ => .finish (some .other)

/-- The error is in the log, behind the notice. -/
theorem printed_error_is_logged :
    ∃ s, oneCaller.Reach NoExecFailure plainWorld (bytes "/") (fun _ => []) s ∧
      (∃ past, MessagesAreLogged past s) ∧ errorLog s.log = [.notice, .text (bytes "x")] ∧
      delivered s.log = [] := by
  have ran : (oneCall noExecFailure printsError 25).isSome := rfl
  have reach := oneCall_reach (fun _ _ _ => noExecFailure_iff) ran
  exact ⟨_, reach, messages_are_logged oneCaller plainWorld _ _ _ reach, rfl, rfl⟩

/-- Code that shows the r-info page, for which no code can be evaluated, and prints an error. -/
def showsPageAndPrintsError : RBehaviour :=
  .rapacheInfo (fun _ => .finish none)
    (.call (.writeConsole (bytes "x") true) fun _ => .finish (some .other))

/-- The handler returns, but the error that its code has printed is in no log. -/
theorem failed_exec_loses_message :
    ∃ s, oneCaller.Reach always plainWorld (bytes "/") (fun _ => []) s ∧
      s.lockEvents.head? = some (.returned { worker := 0, number := 0 }) ∧
      messages s.log = [bytes "x"] ∧ errorLog s.log = [] := by
  have ran : (oneCall (fun _ _ _ => true) showsPageAndPrintsError 35).isSome := rfl
  have reach := @oneCall_reach always _ _ _ (fun _ _ _ _ => trivial) ran
  exact ⟨_, reach, rfl, rfl, rfl⟩

end RApache
