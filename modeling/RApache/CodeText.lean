import RApache.Directive
import RApache.Library.QuotedLiteral

/-!
# R code built around names

The module makes R code by formatting names between single quotes.  This file
defines those texts and compares what R's lexer reads in them with the call that
was meant.
-/

namespace RApache

open QuotedLiteral

/-! ## R's rule for quoted literals -/

/-- Reader of R's escapes: it is given the text behind a backslash. -/
structure Escapes where
  read : Bytes → Option (Bytes × Bytes)
  read_length : ∀ {text value rest},
    read text = some (value, rest) → value.length + rest.length ≤ text.length
  read_append : ∀ {text value rest} more, rest ≠ [] →
    read text = some (value, rest) → read (text ++ more) = some (value, rest ++ more)

/-- The escapes of one character, such as `\n` and `\'`. -/
def characterEscapes : Escapes where
  read
    | [] => none
    | symbol :: text =>
        let escapes :=
          [('n', '\n'), ('t', '\t'), ('r', '\r'), ('\\', '\\'), ('\'', '\''), ('"', '"')]
        (escapes.find? fun (name, _) => byte name = symbol).map fun (_, value) =>
          ([byte value], text)
  read_length := by
    intro text value rest found
    cases text with
    | nil => simp at found
    | cons symbol text =>
        simp only [Option.map_eq_some_iff, Prod.mk.injEq] at found
        obtain ⟨_, -, rfl, rfl⟩ := found
        simp [Nat.add_comm]
  read_append := by
    intro text value rest more _ found
    cases text with
    | nil => simp at found
    | cons symbol text =>
        simp only [List.cons_append, Option.map_eq_some_iff, Prod.mk.injEq] at found ⊢
        obtain ⟨escape, isEscape, rfl, rfl⟩ := found
        exact ⟨escape, isEscape, rfl, rfl⟩

/-- The symbols that open a literal in R code: a single quote, a double quote and
a backtick. -/
def isQuote (symbol : UInt8) : Bool :=
  symbol = byte '\'' || symbol = byte '"' || symbol = byte '`'

/-- R's rule for literals: a backslash introduces an escape. -/
def rRule (escapes : Escapes) : Rule UInt8 where
  opens := isQuote
  escape := byte '\\'
  readEscape := escapes.read
  readEscape_length := escapes.read_length
  readEscape_append := escapes.read_append

/-- Code that opens no literal. -/
def PlainCode (text : Bytes) : Prop := ∀ symbol ∈ text, isQuote symbol = false

instance (text : Bytes) : Decidable (PlainCode text) :=
  inferInstanceAs (Decidable (∀ symbol ∈ text, _))

/-- Code without literals, as lexed pieces. -/
def code (text : Bytes) : List (Piece UInt8) := text.map .code

/-- The text is exactly one call of `callee` with the given lexed arguments.  The
text of the callee is complete code by itself. -/
def IsCallOf (escapes : Escapes) (callee text : Bytes) (arguments : List (Piece UInt8)) :
    Prop :=
  ∃ pieces, (rRule escapes).lex callee = some pieces ∧
    (rRule escapes).lex text =
      some (pieces ++ code (bytes "(") ++ arguments ++ code (bytes ")"))

/-- A file name that a single-quoted literal denotes as it stands. -/
def PlainName (name : Bytes) : Prop :=
  ∀ symbol ∈ name, symbol ≠ byte '\'' ∧ symbol ≠ byte '\\'

instance (name : Bytes) : Decidable (PlainName name) :=
  inferInstanceAs (Decidable (∀ symbol ∈ name, _))

/-! ## The texts -/

/-- `fmt1` of `PrepareHandlerExpr`. -/
def fmt1 : Bytes := bytes "%s()"

/-- `fmt2` of `PrepareHandlerExpr`. -/
def fmt2 : Bytes := bytes "%s::%s()"

/-- `fmt3` of `PrepareHandlerExpr`. -/
def fmt3 : Bytes := bytes "%s(file='%s',envir=.rAenv)"

/-- `fmt4` of `PrepareHandlerExpr`. -/
def fmt4 : Bytes := bytes "%s::%s(file='%s',envir=.rAenv)"

/-- The text for an r-script request. -/
def scriptText (package : Option Bytes) (function filename : Bytes) : Bytes :=
  match package with
  | some package => sprintf fmt4 [package, function, filename]
  | none => sprintf fmt3 [function, filename]

/-- The text of a call without arguments. -/
def functionText (package : Option Bytes) (function : Bytes) : Bytes :=
  match package with
  | some package => sprintf fmt2 [package, function]
  | none => sprintf fmt1 [function]

/-- The text that `CallFun1str` evaluates. -/
def callFun1strText (fun_ arg : Bytes) : Bytes := sprintf (bytes "%s('%s')") [fun_, arg]

/-- The configured function as R code. -/
def calleeText (package : Option Bytes) (function : Bytes) : Bytes :=
  match package with
  | some package => package ++ bytes "::" ++ function
  | none => function

theorem scriptText_eq (package : Option Bytes) (function filename : Bytes) :
    scriptText package function filename =
      calleeText package function ++ (bytes "(file=" ++
        (byte '\'' :: (filename ++ byte '\'' :: bytes ",envir=.rAenv)"))) := by
  cases package with
  | none => rfl
  | some package =>
      change package ++ (bytes "::" ++ (function ++ _)) = _
      simp only [calleeText, List.append_assoc]
      rfl

theorem callFun1strText_eq (fun_ arg : Bytes) :
    callFun1strText fun_ arg =
      fun_ ++ (bytes "(" ++ (byte '\'' :: (arg ++ byte '\'' :: bytes ")"))) := by
  rfl

theorem sourceEntry_eq (file : Bytes) :
    sourceEntry file = callFun1strText (bytes "source") file := by
  rfl

/-! ## What R reads in them -/

/-- Lexed arguments of the call that an r-script request asks for. -/
def scriptArguments (filename : Bytes) : List (Piece UInt8) :=
  code (bytes "file=") ++ [.literal filename] ++ code (bytes ",envir=.rAenv")

/-- Common shape of all texts: code, a quoted name, code.  It lexes to the call
that was meant exactly when the name is plain. -/
theorem isCallOf_quoted_iff (escapes : Escapes) (callee before name after : Bytes)
    (plainBefore : PlainCode (bytes "(" ++ before))
    (plainAfter : PlainCode (after ++ bytes ")")) :
    IsCallOf escapes callee
        (callee ++ (bytes "(" ++ before ++
          byte '\'' :: (name ++ byte '\'' :: (after ++ bytes ")"))))
        (code before ++ [.literal name] ++ code after) ↔
      ((rRule escapes).lex callee).isSome ∧ PlainName name := by
  have opens : (rRule escapes).opens (byte '\'') = true := by rfl
  have opensBefore : (rRule escapes).Plain (bytes "(" ++ before) := plainBefore
  have opensAfter : (rRule escapes).Plain (after ++ bytes ")") := plainAfter
  have quoted := (rRule escapes).lex_quoted_iff opens name opensAfter
  simp only [IsCallOf]
  constructor
  · rintro ⟨pieces, lexedCallee, lexed⟩
    refine ⟨by simp [lexedCallee], ?_⟩
    apply quoted.mp
    rw [(rRule escapes).lex_append _ lexedCallee,
      (rRule escapes).lex_plain_append opensBefore] at lexed
    simpa [Option.map_map, Option.map_eq_some_iff, code] using lexed
  · rintro ⟨isCode, plain⟩
    obtain ⟨pieces, lexedCallee⟩ := Option.isSome_iff_exists.mp isCode
    refine ⟨pieces, lexedCallee, ?_⟩
    rw [(rRule escapes).lex_append _ lexedCallee,
      (rRule escapes).lex_plain_append opensBefore, quoted.mpr plain]
    simp [code]

theorem scriptText_isCallOf_iff (escapes : Escapes) (package : Option Bytes)
    (function filename : Bytes) :
    IsCallOf escapes (calleeText package function)
        (scriptText package function filename) (scriptArguments filename) ↔
      ((rRule escapes).lex (calleeText package function)).isSome ∧
        PlainName filename := by
  rw [scriptText_eq]
  exact isCallOf_quoted_iff escapes _ (bytes "file=") filename (bytes ",envir=.rAenv")
    (by decide +kernel) (by decide +kernel)

theorem callFun1strText_isCallOf_iff (escapes : Escapes) (fun_ arg : Bytes)
    (plain : PlainCode fun_) :
    IsCallOf escapes fun_ (callFun1strText fun_ arg) [.literal arg] ↔ PlainName arg := by
  have opensNone : (rRule escapes).Plain fun_ := plain
  have quoted := isCallOf_quoted_iff escapes fun_ [] arg [] (by decide +kernel) (by decide +kernel)
  rw [callFun1strText_eq]
  simpa [(rRule escapes).lex_plain opensNone, code] using quoted

/-- Each text is the call that was meant exactly when the file name is plain (and,
for the configured function, when the directive's own text is complete code). -/
theorem fileName_is_data_iff (escapes : Escapes) (package : Option Bytes)
    (function filename : Bytes) :
    (IsCallOf escapes (calleeText package function)
        (scriptText package function filename) (scriptArguments filename) ↔
      ((rRule escapes).lex (calleeText package function)).isSome ∧
        PlainName filename) ∧
    (IsCallOf escapes (bytes "parse") (callFun1strText (bytes "parse") filename)
        [.literal filename] ↔ PlainName filename) ∧
    (IsCallOf escapes (bytes "source") (sourceEntry filename) [.literal filename] ↔
      PlainName filename) := by
  refine ⟨scriptText_isCallOf_iff escapes package function filename, ?_, ?_⟩
  · exact callFun1strText_isCallOf_iff escapes (bytes "parse") filename (by decide +kernel)
  · rw [sourceEntry_eq]
    exact callFun1strText_isCallOf_iff escapes (bytes "source") filename (by decide +kernel)

/-- A file name with quotes in it ends the literal and goes on as code: here the
client's `q()` is lexed outside every literal. -/
theorem fileName_runs_as_code :
    (rRule characterEscapes).lex
        (scriptText none (bytes "brew") (bytes "/www/x');q();('")) =
      some (code (bytes "brew(file=") ++ [.literal (bytes "/www/x")] ++
        code (bytes ");q();(") ++ [.literal []] ++ code (bytes ",envir=.rAenv)")) ∧
    ¬ IsCallOf characterEscapes (bytes "brew")
        (scriptText none (bytes "brew") (bytes "/www/x');q();('"))
        (scriptArguments (bytes "/www/x');q();('")) := by
  constructor
  · have spelled : scriptText none (bytes "brew") (bytes "/www/x');q();('") =
        bytes "brew(file=" ++ (byte '\'' :: (bytes "/www/x" ++ byte '\'' ::
          (bytes ");q();(" ++ (byte '\'' :: ([] ++ byte '\'' ::
            bytes ",envir=.rAenv)"))))) := by rfl
    have opens : (rRule characterEscapes).opens (byte '\'') = true := by rfl
    have before : (rRule characterEscapes).Plain (bytes "brew(file=") := by decide
    have between : (rRule characterEscapes).Plain (bytes ");q();(") := by decide
    have after : (rRule characterEscapes).Plain (bytes ",envir=.rAenv)") := by decide
    have first := (rRule characterEscapes).readLiteral_verbatim (byte '\'')
      (bytes "/www/x") (bytes ");q();(" ++ (byte '\'' :: ([] ++ byte '\'' ::
        bytes ",envir=.rAenv)"))) (by decide)
    have second := (rRule characterEscapes).readLiteral_verbatim (byte '\'')
      [] (bytes ",envir=.rAenv)") (by decide)
    rw [spelled, Rule.lex_plain_append _ before, Rule.lex_literal _ opens first,
      Rule.lex_plain_append _ between, Rule.lex_literal _ opens second,
      Rule.lex_plain _ after]
    rfl
  · intro isCall
    have plain := ((scriptText_isCallOf_iff characterEscapes none (bytes "brew")
      (bytes "/www/x');q();('")).mp isCall).2
    revert plain
    decide

end RApache
