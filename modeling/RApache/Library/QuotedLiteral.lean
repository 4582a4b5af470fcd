import Mathlib.Data.List.Basic

/-!
# Quoted literals in a line of code

A language with quoted literals is described by the symbols that open a literal,
the symbol that introduces an escape inside one, and the reader of an escape's
spelling.  The lexer splits a text into symbols of code and denoted literals.

The results identify the spellings that denote themselves: text between two
quotes is read back unchanged exactly when it contains neither the closing quote
nor the escape symbol.
-/

namespace QuotedLiteral

variable {α : Type}

/-- Lexical rule for quoted literals.  A literal ends at the first unescaped
occurrence of the symbol that opened it.  `readEscape` is given the text after
the escape symbol and returns the denoted symbols and the rest of the text.  An
escape never denotes more symbols than its spelling has after the escape symbol,
and text behind an escape that has already ended does not change it. -/
structure Rule (α : Type) where
  opens : α → Bool
  escape : α
  readEscape : List α → Option (List α × List α)
  readEscape_length : ∀ {text value rest},
    readEscape text = some (value, rest) → value.length + rest.length ≤ text.length
  readEscape_append : ∀ {text value rest} more, rest ≠ [] →
    readEscape text = some (value, rest) →
      readEscape (text ++ more) = some (value, rest ++ more)

/-- One piece of lexed code: a symbol outside every literal, or the value that a
literal denotes. -/
inductive Piece (α : Type) where
  | code (symbol : α)
  | literal (value : List α)
  deriving DecidableEq, Repr

namespace Rule

variable [DecidableEq α] (rule : Rule α)

/-- Read the text of a literal opened by `quote` up to its closing quote. -/
def readLiteral (quote : α) : (text : List α) → Option (List α × List α)
  | [] => none
  | symbol :: text =>
      if symbol = quote then some ([], text)
      else if symbol = rule.escape then
        match _found : rule.readEscape text with
        | none => none
        | some (value, rest) =>
            (readLiteral quote rest).map fun (tail, rest) => (value ++ tail, rest)
      else
        (readLiteral quote text).map fun (tail, rest) => (symbol :: tail, rest)
termination_by text => text.length
decreasing_by
  · have bound := rule.readEscape_length _found
    simp only [List.length_cons]
    omega
  · simp

/-- Every symbol of the text stands for itself inside a literal opened by
`quote`. -/
def Verbatim (quote : α) (text : List α) : Prop :=
  ∀ symbol ∈ text, symbol ≠ quote ∧ symbol ≠ rule.escape

instance (quote : α) (text : List α) : Decidable (rule.Verbatim quote text) :=
  inferInstanceAs (Decidable (∀ symbol ∈ text, _))

/-- Verbatim text followed by the closing quote is read back unchanged. -/
theorem readLiteral_verbatim (quote : α) (value rest : List α)
    (verbatim : rule.Verbatim quote value) :
    rule.readLiteral quote (value ++ quote :: rest) = some (value, rest) := by
  induction value with
  | nil => simp [readLiteral]
  | cons symbol value ih =>
      obtain ⟨⟨notQuote, notEscape⟩, verbatim⟩ := List.forall_mem_cons.mp verbatim
      rw [List.cons_append, readLiteral]
      simp only [notQuote, notEscape, ↓reduceIte, ih verbatim, Option.map_some]

/-- A literal is either spelled verbatim, or its spelling is longer than its
value: every escape symbol costs one symbol of text. -/
theorem readLiteral_cases (quote : α) (text value rest : List α)
    (read : rule.readLiteral quote text = some (value, rest)) :
    (rule.Verbatim quote value ∧ text = value ++ quote :: rest) ∨
      value.length + rest.length + 1 < text.length := by
  fun_induction readLiteral rule quote text generalizing value rest with
  | case1 => simp at read
  | case2 text =>
      obtain ⟨rfl, rfl⟩ := Prod.mk.inj (Option.some.inj read)
      exact .inl ⟨by simp [Verbatim], rfl⟩
  | case3 => simp at read
  | case4 text escaped afterEscape found notQuote ih =>
      have bound := rule.readEscape_length found
      simp only [Option.map_eq_some_iff, Prod.exists, Prod.mk.injEq] at read
      obtain ⟨tail, rest', readTail, rfl, rfl⟩ := read
      right
      simp only [List.length_append, List.length_cons]
      rcases ih tail rest' readTail with ⟨-, spelled⟩ | longer
      · have spelledLength := congrArg List.length spelled
        simp only [List.length_append, List.length_cons] at spelledLength
        omega
      · omega
  | case5 symbol text notQuote notEscape ih =>
      simp only [Option.map_eq_some_iff, Prod.exists, Prod.mk.injEq] at read
      obtain ⟨tail, rest', readTail, rfl, rfl⟩ := read
      rcases ih tail rest' readTail with ⟨verbatim, spelled⟩ | longer
      · left
        exact ⟨List.forall_mem_cons.mpr ⟨⟨notQuote, notEscape⟩, verbatim⟩,
          by simp [spelled]⟩
      · right
        simp only [List.length_cons]
        omega

/-- Text between quotes denotes itself exactly when it is verbatim. -/
theorem readLiteral_eq_self_iff (quote : α) (value rest : List α) :
    rule.readLiteral quote (value ++ quote :: rest) = some (value, rest) ↔
      rule.Verbatim quote value := by
  constructor
  · intro read
    rcases rule.readLiteral_cases quote _ _ _ read with ⟨verbatim, -⟩ | longer
    · exact verbatim
    · simp only [List.length_append, List.length_cons] at longer
      omega
  · exact rule.readLiteral_verbatim quote value rest

theorem readLiteral_length {quote : α} {text value rest : List α}
    (read : rule.readLiteral quote text = some (value, rest)) :
    value.length + rest.length < text.length := by
  rcases rule.readLiteral_cases quote _ _ _ read with ⟨-, spelled⟩ | longer
  · simp only [spelled, List.length_append, List.length_cons]
    omega
  · omega

/-- A closed literal does not depend on the text behind it. -/
theorem readLiteral_append {quote : α} {text value rest : List α} (more : List α)
    (read : rule.readLiteral quote text = some (value, rest)) :
    rule.readLiteral quote (text ++ more) = some (value, rest ++ more) := by
  fun_induction readLiteral rule quote text generalizing value rest with
  | case1 => simp at read
  | case2 text =>
      obtain ⟨rfl, rfl⟩ := Prod.mk.inj (Option.some.inj read)
      simp [readLiteral]
  | case3 => simp at read
  | case4 text escaped afterEscape found notQuote ih =>
      simp only [Option.map_eq_some_iff, Prod.exists, Prod.mk.injEq] at read
      obtain ⟨tail, rest', readTail, rfl, rfl⟩ := read
      have nonempty : afterEscape ≠ [] := by
        rintro rfl
        simp [readLiteral] at readTail
      have foundMore := rule.readEscape_append more nonempty found
      rw [List.cons_append, readLiteral, if_neg notQuote, if_pos rfl]
      split
      next absent => simp [foundMore] at absent
      next value' rest'' found' =>
        obtain ⟨rfl, rfl⟩ := Prod.mk.inj (Option.some.inj (foundMore.symm.trans found'))
        simp [ih readTail]
  | case5 symbol text notQuote notEscape ih =>
      simp only [Option.map_eq_some_iff, Prod.exists, Prod.mk.injEq] at read
      obtain ⟨tail, rest', readTail, rfl, rfl⟩ := read
      rw [List.cons_append, readLiteral]
      simp only [notQuote, notEscape, ↓reduceIte, ih readTail, Option.map_some]

/-- Split a text into code symbols and literals.  There is no result when a
literal is left open or contains an unreadable escape. -/
def lex : (text : List α) → Option (List (Piece α))
  | [] => some []
  | symbol :: text =>
      if rule.opens symbol then
        match _read : rule.readLiteral symbol text with
        | none => none
        | some (value, rest) => (lex rest).map (.literal value :: ·)
      else (lex text).map (.code symbol :: ·)
termination_by text => text.length
decreasing_by
  · have shorter := rule.readLiteral_length _read
    simp only [List.length_cons]
    omega
  · simp

/-- No symbol of the text opens a literal. -/
def Plain (text : List α) : Prop := ∀ symbol ∈ text, rule.opens symbol = false

instance (text : List α) : Decidable (rule.Plain text) :=
  inferInstanceAs (Decidable (∀ symbol ∈ text, _))

/-- Lexing is compositional behind text that closes all its literals. -/
theorem lex_append {text : List α} {pieces : List (Piece α)} (more : List α)
    (lexed : rule.lex text = some pieces) :
    rule.lex (text ++ more) = (rule.lex more).map (pieces ++ ·) := by
  fun_induction lex rule text generalizing pieces with
  | case1 =>
      obtain rfl := Option.some.inj lexed
      simp
  | case2 => simp at lexed
  | case3 symbol text opens value rest read ih =>
      simp only [Option.map_eq_some_iff] at lexed
      obtain ⟨pieces, lexedRest, rfl⟩ := lexed
      have readMore := rule.readLiteral_append more read
      rw [List.cons_append, lex, if_pos opens]
      split
      next absent => simp [readMore] at absent
      next value' rest' read' =>
        obtain ⟨rfl, rfl⟩ := Prod.mk.inj (Option.some.inj (readMore.symm.trans read'))
        rw [ih lexedRest, Option.map_map]
        rfl
  | case4 symbol text plain ih =>
      simp only [Option.map_eq_some_iff] at lexed
      obtain ⟨pieces, lexedRest, rfl⟩ := lexed
      rw [List.cons_append, lex, if_neg plain, ih lexedRest, Option.map_map]
      rfl

/-- Text without literals lexes to itself. -/
theorem lex_plain {text : List α} (plain : rule.Plain text) :
    rule.lex text = some (text.map .code) := by
  induction text with
  | nil => simp [lex]
  | cons symbol text ih =>
      obtain ⟨notOpen, plain⟩ := List.forall_mem_cons.mp plain
      simp [lex, notOpen, ih plain]

theorem lex_plain_append {text : List α} (plain : rule.Plain text) (more : List α) :
    rule.lex (text ++ more) = (rule.lex more).map (text.map .code ++ ·) :=
  rule.lex_append more (rule.lex_plain plain)

/-- Text that lexes to code symbols only is those symbols. -/
theorem eq_of_lex_eq_code {text symbols : List α}
    (lexed : rule.lex text = some (symbols.map .code)) : text = symbols := by
  fun_induction lex rule text generalizing symbols with
  | case1 => simpa using lexed
  | case2 => simp at lexed
  | case3 symbol text opens value rest read ih =>
      cases symbols <;> simp [Option.map_eq_some_iff] at lexed
  | case4 symbol text plain ih =>
      cases symbols with
      | nil => simp [Option.map_eq_some_iff] at lexed
      | cons head symbols =>
          simp only [List.map_cons, Option.map_eq_some_iff, List.cons.injEq,
            Piece.code.injEq] at lexed
          obtain ⟨pieces, lexedRest, rfl, rfl⟩ := lexed
          rw [ih lexedRest]

/-- Lexing a literal in front of a text. -/
theorem lex_literal {quote : α} {text value rest : List α} (opens : rule.opens quote)
    (read : rule.readLiteral quote text = some (value, rest)) :
    rule.lex (quote :: text) = (rule.lex rest).map (.literal value :: ·) := by
  rw [lex, if_pos opens]
  split
  next absent => simp [read] at absent
  next value' rest' read' =>
    obtain ⟨rfl, rfl⟩ := Prod.mk.inj (Option.some.inj (read.symm.trans read'))
    rfl

/-- A quoted text behind an opening quote lexes to the literal that denotes it,
followed by the pieces of the code behind the closing quote, exactly when it is
verbatim. -/
theorem lex_quoted_iff {quote : α} (opens : rule.opens quote) (value : List α)
    {rest : List α} (plain : rule.Plain rest) :
    rule.lex (quote :: (value ++ quote :: rest)) =
        some (.literal value :: rest.map .code) ↔
      rule.Verbatim quote value := by
  constructor
  · intro lexed
    cases read : rule.readLiteral quote (value ++ quote :: rest) with
    | none =>
        rw [lex, if_pos opens] at lexed
        split at lexed
        next => simp at lexed
        next present => simp [read] at present
    | some result =>
        obtain ⟨value', rest'⟩ := result
        rw [rule.lex_literal opens read] at lexed
        simp only [Option.map_eq_some_iff, List.cons.injEq, Piece.literal.injEq] at lexed
        obtain ⟨pieces, lexedRest, rfl, rfl⟩ := lexed
        obtain rfl := rule.eq_of_lex_eq_code lexedRest
        exact (rule.readLiteral_eq_self_iff quote value' rest').mp read
  · intro verbatim
    rw [rule.lex_literal opens (rule.readLiteral_verbatim quote value rest verbatim),
      rule.lex_plain plain]
    rfl

end Rule

end QuotedLiteral
