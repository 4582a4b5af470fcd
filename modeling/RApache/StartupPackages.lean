import RApache.CodeText
import RApache.Startup

/-!
# Packages that are loaded at startup

Three command functions queue a call of `library` for what stands in front of the first `::` of
their code.  R itself takes a double colon for a qualifier only between names: not in a literal,
a comment or an operator.
-/

namespace RApache

open QuotedLiteral

/-! ## Tokens of R code -/

/-- A token of R code, as far as names and qualifiers are concerned. -/
inductive RToken where
  | word (text : Bytes)
  | number (text : Bytes)
  | literal (value : Bytes)
  | comment (text : Bytes)
  /-- `::` and `:::`. -/
  | qualifier
  /-- An operator between two percent signs. -/
  | special (text : Bytes)
  | symbol (symbol : UInt8)
  deriving DecidableEq, Repr

/-- An ASCII letter. -/
def isLetter (symbol : UInt8) : Bool :=
  byte 'a' ≤ symbol && symbol ≤ byte 'z' || byte 'A' ≤ symbol && symbol ≤ byte 'Z'

/-- An ASCII digit. -/
def isDigit (symbol : UInt8) : Bool := byte '0' ≤ symbol && symbol ≤ byte '9'

/-- What a name goes on with; bytes that are not ASCII belong to letters. -/
def inWord (symbol : UInt8) : Bool :=
  isLetter symbol || isDigit symbol || symbol = byte '.' || symbol = byte '_' || 128 ≤ symbol

/-- A name begins with this symbol, if no number does. -/
def startsWord (symbol : UInt8) : Bool :=
  isLetter symbol || symbol = byte '.' || 128 ≤ symbol

/-- A number begins here: with a digit, or with a point and a digit. -/
def startsNumber (symbol : UInt8) (text : Bytes) : Bool :=
  isDigit symbol || symbol = byte '.' && text.head?.any isDigit

/-- What may stand between two percent signs. -/
def inSpecial (symbol : UInt8) : Bool := symbol ≠ byte '%' && symbol ≠ byte '\n'

/-- The first token of a text, and the text behind it. -/
def nextToken (escapes : Escapes) : Bytes → Option (RToken × Bytes)
  | [] => none
  | symbol :: text =>
      if symbol = byte '#' then
        some (.comment (text.takeWhile (· ≠ byte '\n')), text.dropWhile (· ≠ byte '\n'))
      else if isQuote symbol then
        ((rRule escapes).readLiteral symbol text).map fun (value, rest) => (.literal value, rest)
      else if symbol = byte '%' then
        match text.dropWhile inSpecial with
        | [] => none
        | closing :: rest =>
            if closing = byte '%' then some (.special (text.takeWhile inSpecial), rest) else none
      else if startsNumber symbol text then
        some (.number (symbol :: text.takeWhile inWord), text.dropWhile inWord)
      else if startsWord symbol then
        some (.word (symbol :: text.takeWhile inWord), text.dropWhile inWord)
      else
        match symbol, text with
        | 58, 58 :: 58 :: rest => some (.qualifier, rest)
        | 58, 58 :: rest => some (.qualifier, rest)
        | symbol, text => some (.symbol symbol, text)

theorem dropWhile_length_le (keep : UInt8 → Bool) (text : Bytes) :
    (text.dropWhile keep).length ≤ text.length := by
  have whole := congrArg List.length (@List.takeWhile_append_dropWhile _ keep text)
  rw [List.length_append] at whole
  omega

theorem nextToken_length {escapes : Escapes} {text rest : Bytes} {token : RToken}
    (next : nextToken escapes text = some (token, rest)) : rest.length < text.length := by
  cases text with
  | nil => cases next
  | cons symbol text =>
      rw [List.length_cons, Nat.lt_succ_iff]
      simp only [nextToken] at next
      split at next
      next =>
        cases next
        exact dropWhile_length_le _ text
      next =>
        split at next
        next =>
          rcases Option.map_eq_some_iff.mp next with ⟨⟨value, behind⟩, read, same⟩
          cases same
          have shorter := (rRule escapes).readLiteral_length read
          change behind.length ≤ text.length
          omega
        next =>
          split at next
          next =>
            have shorter := dropWhile_length_le inSpecial text
            split at next
            next => cases next
            next closing behind found =>
              split at next
              next =>
                cases next
                rw [found, List.length_cons] at shorter
                omega
              next => cases next
          next =>
            split at next
            next =>
              cases next
              exact dropWhile_length_le _ text
            next =>
              split at next
              next =>
                cases next
                exact dropWhile_length_le _ text
              next =>
                split at next
                next =>
                  cases next
                  simp only [List.length_cons]
                  omega
                next =>
                  cases next
                  simp only [List.length_cons]
                  omega
                next =>
                  cases next
                  exact Nat.le_refl _

/-- The tokens of a text, if R's lexer accepts it. -/
def tokens (escapes : Escapes) (text : Bytes) : Option (List RToken) :=
  if text = [] then some []
  else
    match _next : nextToken escapes text with
    | none => none
    | some (token, rest) => (tokens escapes rest).map (token :: ·)
termination_by text.length
decreasing_by exact nextToken_length _next

theorem tokens_of_next {escapes : Escapes} {text rest : Bytes} {token : RToken}
    (next : nextToken escapes text = some (token, rest)) :
    tokens escapes text = (tokens escapes rest).map (token :: ·) := by
  have some : text ≠ [] := by
    rintro rfl
    cases next
  rw [tokens, if_neg some]
  split
  next absent =>
    rw [absent] at next
    cases next
  next token' rest' found =>
    rw [found] at next
    cases next
    rfl

/-! ## Package names -/

/-- R's rule for the names of packages: letters, digits and points, the first of them a letter
and the last, which is another one, no point. -/
def isPackageName (name : Bytes) : Bool :=
  2 ≤ name.length && name.head?.any isLetter &&
    name.getLast?.any (fun symbol => isLetter symbol || isDigit symbol) &&
    name.all fun symbol => isLetter symbol || isDigit symbol || symbol = byte '.'

/-- The word stands immediately in front of a double colon. -/
def Qualifies (escapes : Escapes) (code package : Bytes) : Prop :=
  ∃ before after, tokens escapes code = some (before ++ .word package :: .qualifier :: after)

theorem isLetter_iff (symbol : UInt8) : isLetter symbol = true ↔
    97 ≤ symbol.toNat ∧ symbol.toNat ≤ 122 ∨ 65 ≤ symbol.toNat ∧ symbol.toNat ≤ 90 := by
  simp only [isLetter, byte, Bool.or_eq_true, Bool.and_eq_true, decide_eq_true_eq,
    UInt8.le_iff_toNat_le]
  rfl

theorem isDigit_iff (symbol : UInt8) :
    isDigit symbol = true ↔ 48 ≤ symbol.toNat ∧ symbol.toNat ≤ 57 := by
  simp only [isDigit, byte, Bool.and_eq_true, decide_eq_true_eq, UInt8.le_iff_toNat_le]
  rfl

/-- Where a name begins with a letter, no other token begins. -/
theorem nextToken_letter (escapes : Escapes) {symbol : UInt8} (letter : isLetter symbol = true)
    (text : Bytes) :
    nextToken escapes (symbol :: text) =
      some (.word (symbol :: text.takeWhile inWord), text.dropWhile inWord) := by
  have other {char : Char} (noLetter : isLetter (byte char) = false) : symbol ≠ byte char := by
    rintro rfl
    rw [letter] at noLetter
    cases noLetter
  have noComment := @other '#' (by decide)
  have noQuote : isQuote symbol = false := by
    simp [isQuote, @other '\'' (by decide), @other '"' (by decide), @other '`' (by decide)]
  have noSpecial := @other '%' (by decide)
  have noNumber : startsNumber symbol text = false := by
    have noDigit : isDigit symbol = false := by
      rw [isLetter_iff] at letter
      rw [← Bool.not_eq_true, isDigit_iff]
      omega
    simp [startsNumber, noDigit, @other '.' (by decide)]
  have word : startsWord symbol = true := by simp [startsWord, letter]
  simp only [nextToken, noComment, noQuote, noSpecial, noNumber, word, if_false, if_true,
    Bool.false_eq_true]

theorem nextToken_qualifier (escapes : Escapes) (text : Bytes) :
    ∃ rest, nextToken escapes (byte ':' :: byte ':' :: text) = some (.qualifier, rest) := by
  by_cases third : text.head? = some (byte ':')
  · rcases List.head?_eq_some_iff.mp third with ⟨rest, rfl⟩
    exact ⟨rest, rfl⟩
  · refine ⟨text, ?_⟩
    cases text with
    | nil => rfl
    | cons symbol text =>
        have notColon : symbol ≠ 58 := fun same => third (congrArg some same)
        unfold nextToken
        dsimp only
        rw [if_neg (by decide), if_neg (by decide), if_neg (by decide),
          if_neg (show ¬ startsNumber (byte ':') (byte ':' :: symbol :: text) = true from
            Bool.false_ne_true),
          if_neg (by decide)]
        split
        next same =>
          cases same
          exact (notColon rfl).elim
        next same =>
          cases same
          rfl
        next notQualifier => exact (notQualifier _ rfl rfl).elim

/-- A package name in front of a double colon is read as a word. -/
theorem tokens_qualified (escapes : Escapes) {package rest : Bytes} {ts : List RToken}
    (isName : isPackageName package = true)
    (lexed : tokens escapes (package ++ byte ':' :: byte ':' :: rest) = some ts) :
    ∃ after, ts = .word package :: .qualifier :: after := by
  cases package with
  | nil => simp [isPackageName] at isName
  | cons symbol package =>
      simp only [isPackageName, Bool.and_eq_true, List.head?_cons, Option.any_some,
        List.all_cons] at isName
      rcases isName with ⟨⟨⟨-, letter⟩, -⟩, -, all⟩
      have word : ∀ symbol ∈ package, inWord symbol = true := by
        intro symbol isSymbol
        have := List.all_eq_true.mp all symbol isSymbol
        simp only [Bool.or_eq_true, decide_eq_true_eq] at this
        rcases this with (isLetter | isDigit) | isPoint
        · simp [inWord, isLetter]
        · simp [inWord, isDigit]
        · simp [inWord, isPoint]
      have colon : inWord (byte ':') = false := by decide
      have first := nextToken_letter escapes letter (package ++ byte ':' :: byte ':' :: rest)
      rw [List.takeWhile_append_of_pos word, List.dropWhile_append_of_pos word,
        List.takeWhile_cons_of_neg (by simp [colon]), List.dropWhile_cons_of_neg (by simp [colon]),
        List.append_nil] at first
      rcases nextToken_qualifier escapes rest with ⟨behind, second⟩
      rw [List.cons_append, tokens_of_next first, tokens_of_next second, Option.map_map] at lexed
      rcases Option.map_eq_some_iff.mp lexed with ⟨after, -, same⟩
      exact ⟨after, same.symm⟩

/-! ## What is queued -/

/-- The text that is queued for a package. -/
def libraryCall (package : Bytes) : Bytes := sprintf (bytes "library(%s)") [package]

theorem libraryCall_injective {package package' : Bytes}
    (same : libraryCall package = libraryCall package') : package = package' := by
  have spelled (package : Bytes) :
      libraryCall package = bytes "library(" ++ (package ++ bytes ")") := by rfl
  rw [spelled, spelled] at same
  exact List.append_cancel_right (List.append_cancel_left same)

/-- The code of a directive that may name a package. -/
def Command.code (argument : Bytes) : Command → Option Bytes
  | rHandler => some argument
  | rEval => some argument
  | rFileEval => (strstr (bytes ":") argument).map fun (_, part) => part.drop 1
  | _ => none

/-- The startup code that the directive queues when nothing is queued yet. -/
def Command.table (read : ConfigRead) (command : Command) (cmd : CmdParms)
    (argument : Bytes) (c : RApacheDirective) (pass : Nat) : ConfigState :=
  (command.run read cmd argument c { configPass := pass, onStartup := none }).config

theorem Command.table_entries {command : Command} {argument code : Bytes}
    (isCode : command.code argument = some code) (read : ConfigRead) (cmd : CmdParms)
    (c : RApacheDirective) (pass : Nat) {entry : StartupEntry}
    (queued : entry ∈ (command.table read cmd argument c pass).entries) :
    entry = .parse code ∨ entry ∈ libraryEntries code := by
  have entries := (command.run_queues read cmd argument c
    { configPass := pass, onStartup := none }).entries
  rw [table, entries] at queued
  simp only [ConfigState.entries, Option.getD_none, List.filterMap_nil, List.nil_append] at queued
  cases command with
  | rHandler =>
      cases isCode
      exact .inr queued
  | rFileHandler => cases isCode
  | rEval =>
      cases isCode
      rcases List.mem_append.mp queued with isCall | isText
      · exact .inr isCall
      · exact .inl (List.mem_singleton.mp isText)
  | rFileEval =>
      rcases Option.map_eq_some_iff.mp isCode with ⟨parts, found, same⟩
      subst same
      simp only [Command.queued, reduceCtorEq, false_and, if_false, startupEntries, found,
        List.mem_cons] at queued
      exact queued
  | rEvalOnStartup => cases isCode
  | rSourceOnStartup => cases isCode

/-- The code's part in front of its first `::` is queued. -/
theorem Command.table_library {command : Command} {argument code package rest : Bytes}
    (isCode : command.code argument = some code)
    (found : strstr (bytes "::") code = some (package, rest)) (read : ConfigRead) (cmd : CmdParms)
    (c : RApacheDirective) (pass : Nat) :
    .evaluate (libraryCall package) ∈
      (command.table read cmd argument c pass).entries := by
  have entries := (command.run_queues read cmd argument c
    { configPass := pass, onStartup := none }).entries
  have isEntry : .evaluate (libraryCall package) ∈ libraryEntries code := by
    simp [libraryEntries, libraryCall, found]
  rw [table, entries]
  cases command with
  | rHandler =>
      cases isCode
      exact List.mem_append_right _ isEntry
  | rFileHandler => cases isCode
  | rEval =>
      cases isCode
      exact List.mem_append_right _ (List.mem_append_left _ isEntry)
  | rFileEval =>
      rcases Option.map_eq_some_iff.mp isCode with ⟨parts, isParts, same⟩
      subst same
      simp only [Command.queued, reduceCtorEq, false_and, if_false, startupEntries, isParts]
      exact List.mem_append_right _ (List.mem_cons_of_mem _ isEntry)
  | rEvalOnStartup => cases isCode
  | rSourceOnStartup => cases isCode

/-- R can load the packages that qualify names in the code, and parses it. -/
structure Accepts {σ : Type} (r : EmbeddedR σ) (escapes : Escapes) (code : Bytes) : Prop where
  loads : ∀ package state, isPackageName package = true → Qualifies escapes code package →
    (r.parseEval (libraryCall package) state).1 = true
  parses : ∀ state, (r.parseText code state).1 = true

/-- Each call of `library` that the directive queues is for a package that qualifies a name in
its code, and a child that starts does not end because of it. -/
structure LoadsPackages (escapes : Escapes) (command : Command) (argument code : Bytes) :
    Prop where
  calls : ∀ read cmd c pass text,
    .evaluate text ∈ (command.table read cmd argument c pass).entries →
      ∃ package, text = libraryCall package ∧ isPackageName package = true ∧
        Qualifies escapes code package
  silent : (∀ ts, tokens escapes code = some ts → .qualifier ∉ ts) → ∀ read cmd c pass text,
    .evaluate text ∉ (command.table read cmd argument c pass).entries
  starts : ∀ {σ : Type} (r : EmbeddedR σ), Accepts r escapes code → ∀ read cmd c pass state,
    ∃ started, (initR r { config := command.table read cmd argument c pass } { state }).2 =
      .running started

/-- The code has no `::`, or the text in front of its first one is the name of a package. -/
def BeginsWithPackage (code : Bytes) : Prop :=
  ∀ package rest, strstr (bytes "::") code = some (package, rest) → isPackageName package = true

/-! ## A child that starts -/

theorem onStartupCallback_running {σ : Type} (r : EmbeddedR σ) (key value : Bytes)
    (started : Started σ)
    (evaluates : entryOf (key, value) = some (.evaluate value) →
      (r.parseEval value started.state).1 = true)
    (parses : entryOf (key, value) = some (.parse value) →
      (r.parseText value started.state).1 = true) :
    ∃ after, onStartupCallback r key value started = .running after := by
  unfold onStartupCallback
  split
  next place =>
    simp [evaluates rfl]
  next place =>
    simp [parses rfl]
  next => exact ⟨started, rfl⟩

/-- A child starts if R accepts what is in its table. -/
theorem initR_running {σ : Type} {r : EmbeddedR σ} {config : ConfigState}
    (evaluates : ∀ code, .evaluate code ∈ config.entries → ∀ state,
      (r.parseEval code state).1 = true)
    (parses : ∀ text, .parse text ∈ config.entries → ∀ state,
      (r.parseText text state).1 = true) (state : σ) :
    ∃ started, (initR r { config } { state }).2 = .running started := by
  have table (entries : List (Bytes × Bytes)) (started : Started σ)
      (inside : ∀ entry ∈ entries.filterMap entryOf, entry ∈ config.entries) :
      ∃ after, aprTableDoOnStartup r entries started = .running after := by
    induction entries generalizing started with
    | nil => exact ⟨started, rfl⟩
    | cons entry entries ih =>
        rcases entry with ⟨key, value⟩
        rcases onStartupCallback_running r key value started
          (fun isEntry => evaluates value (inside _ (by simp [isEntry])) _)
          (fun isEntry => parses value (inside _ (by simp [isEntry])) _) with ⟨next, called⟩
        rw [aprTableDoOnStartup, called]
        apply ih
        intro entry isEntry
        apply inside
        rw [List.filterMap_cons]
        split
        next => exact isEntry
        next => exact List.mem_cons_of_mem _ isEntry
  have made : (initRApachePool config).entries = config.entries := by
    simpa using (initRApachePool_queues config).entries
  rcases table ((initRApachePool config).onStartup.getD []) { state }
    (fun entry isEntry => made ▸ isEntry) with ⟨after, done⟩
  refine ⟨after, ?_⟩
  simp only [initR, ne_eq, not_true_eq_false, if_false, done]

/-- The calls of `library` are right just when the code has no `::`, or begins with the name of a
package and `::`. -/
theorem loads_packages_iff (escapes : Escapes) {command : Command} {argument code : Bytes}
    {ts : List RToken} (isCode : command.code argument = some code)
    (lexed : tokens escapes code = some ts) :
    LoadsPackages escapes command argument code ↔ BeginsWithPackage code := by
  constructor
  · intro loads package rest found
    have queued := Command.table_library isCode found { isFile := fun _ => true }
      ⟨[], [], [], none⟩ {} 1
    rcases loads.calls _ _ _ _ _ queued with ⟨package', same, isName, -⟩
    rw [libraryCall_injective same]
    exact isName
  · intro begins
    have calls : ∀ read cmd c pass text,
        .evaluate text ∈ (command.table read cmd argument c pass).entries →
          ∃ package, text = libraryCall package ∧ isPackageName package = true ∧
            ∃ after, ts = .word package :: .qualifier :: after := by
      intro read cmd c pass text queued
      rcases Command.table_entries isCode read cmd c pass queued with isText | isCall
      · cases isText
      · simp only [libraryEntries] at isCall
        split at isCall
        next package rest found =>
          have isName := begins package rest found
          cases List.mem_singleton.mp isCall
          refine ⟨package, rfl, isName, ?_⟩
          rcases strstr_prefix found with ⟨behind, isBehind⟩
          have whole : code = package ++ byte ':' :: byte ':' :: behind := by
            rw [strstr_append found, ← isBehind]
            rfl
          exact tokens_qualified escapes isName (whole ▸ lexed)
        next => cases isCall
    constructor
    · intro read cmd c pass text queued
      rcases calls read cmd c pass text queued with ⟨package, same, isName, after, isTokens⟩
      exact ⟨package, same, isName, [], after, by rw [lexed, isTokens]; rfl⟩
    · intro unqualified read cmd c pass text queued
      rcases calls read cmd c pass text queued with ⟨package, -, -, after, isTokens⟩
      exact unqualified ts lexed (by simp [isTokens])
    · intro σ r accepts read cmd c pass state
      refine initR_running ?_ ?_ state
      · intro text queued state
        rcases calls read cmd c pass text queued with ⟨package, same, isName, after, isTokens⟩
        rw [same]
        exact accepts.loads package state isName ⟨[], after, by rw [lexed, isTokens]; rfl⟩
      · intro text queued state
        rcases Command.table_entries isCode read cmd c pass queued with isText | isCall
        · cases isText
          exact accepts.parses state
        · simp only [libraryEntries] at isCall
          split at isCall
          next => cases List.mem_singleton.mp isCall
          next => cases isCall

/-- The code `stats::sd(1)` of an `REval` line loads the package `stats`. -/
theorem qualified_call_loads_package :
    ∃ ts, tokens characterEscapes (bytes "stats::sd(1)") = some ts ∧
      Command.rEval.code (bytes "stats::sd(1)") = some (bytes "stats::sd(1)") ∧
      (LoadsPackages characterEscapes .rEval (bytes "stats::sd(1)") (bytes "stats::sd(1)") ↔
        BeginsWithPackage (bytes "stats::sd(1)")) := by
  have lexed : (tokens characterEscapes (bytes "stats::sd(1)")).isSome := by decide +kernel
  rcases Option.isSome_iff_exists.mp lexed with ⟨ts, isTokens⟩
  exact ⟨ts, isTokens, rfl, loads_packages_iff characterEscapes rfl isTokens⟩

/-- An R that parses all texts and has every package. -/
def wellStockedR : EmbeddedR Unit where
  parseEval code _ := (isPackageName (code.drop 8).dropLast, ())
  parseText _ _ := (true, ())

theorem wellStockedR_accepts (escapes : Escapes) (code : Bytes) :
    Accepts wellStockedR escapes code := by
  constructor
  · intro package state isName _
    have spelled : libraryCall package = bytes "library(" ++ (package ++ bytes ")") := by rfl
    have cut : ((libraryCall package).drop 8).dropLast = package := by
      rw [spelled, List.drop_left' (by rfl)]
      exact List.dropLast_concat
    exact (congrArg isPackageName cut).trans isName
  · intro state
    rfl

/-- The directive `REval x<-stats::sd(1)` of a server whose startup code is still empty. -/
def assignmentTable : ConfigState :=
  Command.rEval.table { isFile := fun _ => false }
    { directive := bytes "REval", lineNum := bytes "7", filename := bytes "httpd.conf",
      path := none } (bytes "x<-stats::sd(1)") {} 2

/-- With an assignment in front of the package it is the assignment that is to be loaded, and the
child ends. -/
theorem assignment_is_loaded :
    (¬ ∀ (escapes : Escapes) (command : Command) (argument code : Bytes) (ts : List RToken),
        command.code argument = some code → tokens escapes code = some ts →
      LoadsPackages escapes command argument code) ∧
    tokens characterEscapes (bytes "x<-stats::sd(1)") = some
      [.word (bytes "x"), .symbol (byte '<'), .symbol (byte '-'), .word (bytes "stats"),
        .qualifier, .word (bytes "sd"), .symbol (byte '('), .number (bytes "1"),
        .symbol (byte ')')] ∧
    assignmentTable.entries =
      [.evaluate (bytes "library(x<-stats)"), .parse (bytes "x<-stats::sd(1)")] ∧
    ∃ message started,
      (initR wellStockedR { config := assignmentTable } { state := () }).2 =
        .exited message started := by
  have lexed : tokens characterEscapes (bytes "x<-stats::sd(1)") = some
      [.word (bytes "x"), .symbol (byte '<'), .symbol (byte '-'), .word (bytes "stats"),
        .qualifier, .word (bytes "sd"), .symbol (byte '('), .number (bytes "1"),
        .symbol (byte ')')] := by decide +kernel
  have ends : ∃ message started,
      (initR wellStockedR { config := assignmentTable } { state := () }).2 =
        .exited message started := ⟨_, _, rfl⟩
  refine ⟨?_, lexed, by decide +kernel, ends⟩
  intro loads
  rcases ends with ⟨message, started, isEnd⟩
  rcases (loads characterEscapes .rEval _ _ _ rfl lexed).starts wellStockedR
    (wellStockedR_accepts _ _) { isFile := fun _ => false }
    { directive := bytes "REval", lineNum := bytes "7", filename := bytes "httpd.conf",
      path := none } {} 2 () with ⟨started', isRunning⟩
  rw [assignmentTable, isRunning] at isEnd
  cases isEnd

end RApache
