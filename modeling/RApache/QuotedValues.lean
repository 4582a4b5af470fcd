import RApache.CookiesSent

/-!
# Quoted values

`apreq_quote` and `apreq_quote_once` write values for headers, `get_pair` reads them, and
`is_quoted` decides whether a text is such a value already.
-/

namespace RApache

/-! ## The functions -/

/-- The loop of `is_quoted`, up to the last quote. -/
def isQuotedLoop : (backslash : Bool) → (text : Bytes) → Bool
  | backslash, [] => !backslash
  | backslash, symbol :: text =>
      if symbol = 92 then isQuotedLoop (!backslash) text
      else if symbol = 0 || (symbol = 34 && !backslash) then false
      else isQuotedLoop false text

/-- `is_quoted`. -/
def isQuoted (p : Bytes) : Bool :=
  1 < p.length && p.head? = some 34 && p.getLast? = some 34 && isQuotedLoop false p.tail.dropLast

/-- What `apreq_quote` writes for a symbol. -/
def quoteSymbol (symbol : UInt8) : Bytes :=
  if symbol = 0 then [92, 48]
  else if symbol = 92 || symbol = 34 then [92, symbol]
  else [symbol]

/-- `apreq_quote`: what is before the NUL that it writes last. -/
def apreqQuote (src : Bytes) : Bytes :=
  if src.length = 0 then [] else 34 :: (src.flatMap quoteSymbol ++ [34])

/-- `apreq_quote_once`. -/
def apreqQuoteOnce (src : Bytes) : Bytes := if isQuoted src then src else apreqQuote src

/-! ## What is quoted -/

theorem map_cons_eq_some {symbols text : Bytes} {found : Option (Bytes × Bytes)} :
    found.map (fun found => (symbols ++ found.1, found.2)) = some (symbols ++ text, [34]) ↔
      found = some (text, [34]) := by
  cases found with
  | none => simp
  | some found => simp [Prod.ext_iff]

/-- `is_quoted` and `get_pair` agree on what a backslash keeps. -/
theorem isQuotedLoop_iff (text : Bytes) :
    isQuotedLoop false text = true ↔
      lookForEndQuote (text ++ [34]) = some (text, [34]) ∧ 0 ∉ text := by
  fun_induction lookForEndQuote text with
  | case1 => simp [isQuotedLoop, lookForEndQuote]
  | case2 text => simp [isQuotedLoop, lookForEndQuote]
  | case3 symbol text ih =>
      have step : lookForEndQuote (92 :: symbol :: text ++ [34]) =
          (lookForEndQuote (text ++ [34])).map fun found => ([92, symbol] ++ found.1, found.2) :=
        rfl
      have whole : 92 :: symbol :: text = [92, symbol] ++ text := rfl
      have loop : isQuotedLoop false (92 :: symbol :: text) =
          (decide (symbol ≠ 0) && isQuotedLoop false text) := by
        by_cases escape : symbol = 92
        · simp [isQuotedLoop, escape]
        · by_cases nul : symbol = 0
          · simp [isQuotedLoop, nul]
          · simp [isQuotedLoop, escape, nul]
      rw [step, loop, whole, map_cons_eq_some, Bool.and_eq_true, decide_eq_true_iff, ih]
      simp [and_left_comm, eq_comm]
  | case4 symbol text notQuote notEscape ih =>
      by_cases escape : symbol = 92
      · cases text with
        | nil => simp [isQuotedLoop, lookForEndQuote, escape]
        | cons symbol' text => exact absurd rfl (notEscape symbol' text escape)
      · have step : lookForEndQuote (symbol :: text ++ [34]) =
            (lookForEndQuote (text ++ [34])).map fun found => ([symbol] ++ found.1, found.2) := by
          refine lookForEndQuote.eq_4 _ _ notQuote fun symbol' text' same => ?_
          exact absurd same escape
        have whole : symbol :: text = [symbol] ++ text := rfl
        have loop : isQuotedLoop false (symbol :: text) =
            (decide (symbol ≠ 0) && isQuotedLoop false text) := by
          by_cases nul : symbol = 0
          · simp [isQuotedLoop, nul]
          · have notClosed : symbol ≠ 34 := notQuote
            simp [isQuotedLoop, escape, nul, notClosed]
        rw [step, loop, whole, map_cons_eq_some, Bool.and_eq_true, decide_eq_true_iff, ih]
        simp [and_left_comm, eq_comm]

/-- A text counts as quoted if it is read as one value between quotes. -/
theorem isQuoted_iff (p : Bytes) :
    isQuoted p = true ↔ 0 ∉ p ∧ p.head? = some 34 ∧ PairValue p := by
  have between (text : Bytes) : isQuoted (34 :: text ++ [34]) = isQuotedLoop false text := by
    have last : (34 :: (text ++ [34])).getLast? = some 34 := by
      rw [← List.cons_append, List.getLast?_concat]
    simp [isQuoted, last]
  constructor
  · intro quoted
    have ends := quoted
    simp only [isQuoted, Bool.and_eq_true, decide_eq_true_iff] at ends
    rcases ends with ⟨⟨⟨long, first⟩, last⟩, -⟩
    rcases List.getLast?_eq_some_iff.mp last with ⟨front, rfl⟩
    cases front with
    | nil => exact absurd long (by decide)
    | cons symbol text =>
        cases first
        rw [between, isQuotedLoop_iff] at quoted
        exact ⟨by simp [quoted.2], rfl, .quoted quoted.1⟩
  · rintro ⟨noNul, begins, isValue⟩
    cases isValue with
    | token symbols first => exact absurd rfl (first 34 begins).2
    | @quoted text closed =>
        rw [between, isQuotedLoop_iff]
        exact ⟨closed, fun isNul => noNul (by simp [isNul])⟩

/-! ## What is written -/

/-- A NUL is read back as the digit zero. -/
def nulDigit (symbol : UInt8) : UInt8 := if symbol = 0 then 48 else symbol

/-- A symbol is written as it is, or behind a backslash. -/
theorem quoteSymbol_cases (symbol : UInt8) :
    quoteSymbol symbol = [92, nulDigit symbol] ∨
      quoteSymbol symbol = [symbol] ∧ nulDigit symbol = symbol ∧ symbol ≠ 34 ∧ symbol ≠ 92 := by
  by_cases nul : symbol = 0
  · exact .inl (by simp [quoteSymbol, nulDigit, nul])
  · by_cases escaped : symbol = 92 ∨ symbol = 34
    · exact .inl (by simp [quoteSymbol, nulDigit, nul, escaped])
    · rw [not_or] at escaped
      exact .inr ⟨by simp [quoteSymbol, nul, escaped], if_neg nul, escaped.2, escaped.1⟩

theorem lookForEndQuote_quoted (src rest : Bytes) :
    lookForEndQuote (src.flatMap quoteSymbol ++ 34 :: rest) =
      some (src.flatMap quoteSymbol, 34 :: rest) := by
  induction src with
  | nil => rfl
  | cons symbol src ih =>
      rw [List.flatMap_cons, List.append_assoc]
      rcases quoteSymbol_cases symbol with escaped | ⟨plain, -, notQuote, notEscape⟩
      · rw [escaped]
        simp [lookForEndQuote, ih]
      · rw [plain, List.singleton_append, lookForEndQuote.eq_4 _ _ notQuote, ih]
        · rfl
        · intro symbol' text same
          exact absurd same notEscape

theorem unescape_quoted (src : Bytes) : unescape (src.flatMap quoteSymbol) = src.map nulDigit := by
  induction src with
  | nil => rfl
  | cons symbol src ih =>
      rw [List.flatMap_cons, List.map_cons]
      rcases quoteSymbol_cases symbol with escaped | ⟨plain, same, notQuote, notEscape⟩
      · rw [escaped]
        simp [unescape, ih]
      · rw [plain, List.singleton_append, unescape.eq_4, ih, same]
        · intro isEscape
          exact absurd isEscape notEscape
        · intro symbol' text isEscape
          exact absurd isEscape notEscape

theorem apreqQuote_eq {src : Bytes} (notEmpty : src ≠ []) :
    apreqQuote src = 34 :: src.flatMap quoteSymbol ++ [34] := by
  rw [apreqQuote, if_neg (by simpa using notEmpty), List.cons_append]

theorem isQuoted_apreqQuote {src : Bytes} (notEmpty : src ≠ []) :
    isQuoted (apreqQuote src) = true := by
  have noNul : 0 ∉ src.flatMap quoteSymbol := by
    intro isNul
    rcases List.mem_flatMap.mp isNul with ⟨symbol, -, isNul⟩
    have digit : nulDigit symbol ≠ 0 := by
      unfold nulDigit
      split
      next => decide
      next nonzero => exact nonzero
    rcases quoteSymbol_cases symbol with escaped | ⟨plain, same, -⟩
    · simp [escaped, Ne.symm digit] at isNul
    · simp [plain, Ne.symm (same ▸ digit)] at isNul
  rw [apreqQuote_eq notEmpty, isQuoted_iff]
  exact ⟨by simp [noNul], rfl, .quoted (lookForEndQuote_quoted src [])⟩

/-- What has been quoted once stays as it is. -/
theorem apreqQuoteOnce_apreqQuoteOnce (src : Bytes) :
    apreqQuoteOnce (apreqQuoteOnce src) = apreqQuoteOnce src := by
  have quoted : isQuoted (apreqQuoteOnce src) = true ∨ apreqQuoteOnce src = [] := by
    unfold apreqQuoteOnce
    split
    next quoted => exact .inl quoted
    next =>
      by_cases empty : src = []
      · exact .inr (by rw [empty]; rfl)
      · exact .inl (isQuoted_apreqQuote empty)
  rcases quoted with quoted | empty
  · rw [apreqQuoteOnce, if_pos quoted]
  · rw [empty]
    rfl

/-- A value that `apreq_quote` writes is read back by `get_pair`, whatever symbols are in it. -/
theorem getPair_apreqQuote {name rest : Bytes} (isName : PairName name) (ends : EndsPair rest)
    (src : Bytes) :
    getPair (name ++ 61 :: (apreqQuote src ++ rest)) true =
      .ok ⟨name, src.map nulDigit, rest⟩ := by
  by_cases empty : src = []
  · subst empty
    exact @getPair_of name [] rest isName (.token (by simp) (by simp)) ends true
  · have plain : plainValue (34 :: src.flatMap quoteSymbol ++ [34]) = src.map nulDigit := by
      rw [List.cons_append, plainValue, List.dropLast_concat, unescape_quoted]
    rw [apreqQuote_eq empty,
      getPair_of isName (.quoted (lookForEndQuote_quoted src [])) ends true, if_pos rfl, plain]

/-- A value with a semicolon, a quote, a backslash and a NUL. -/
theorem getPair_apreqQuote_symbols :
    getPair (bytes "a=\"x;\\\"y\\\\\\0\"; b=1") true =
      .ok ⟨bytes "a", bytes "x;\"y\\0", bytes "; b=1"⟩ := by
  have first : (bytes "; b=1").head? = some 59 := by decide +kernel
  have ends : EndsPair (bytes "; b=1") := by
    intro symbol isFirst
    rw [first] at isFirst
    cases isFirst
    rfl
  have text : bytes "a" ++ 61 :: (apreqQuote (bytes "x;\"y\\" ++ [0]) ++ bytes "; b=1") =
      bytes "a=\"x;\\\"y\\\\\\0\"; b=1" := by decide +kernel
  have value : (bytes "x;\"y\\" ++ [0]).map nulDigit = bytes "x;\"y\\0" := by decide +kernel
  have pair := @getPair_apreqQuote (bytes "a") _ ⟨by decide +kernel, by decide +kernel⟩ ends
    (bytes "x;\"y\\" ++ [0])
  rwa [text, value] at pair

end RApache
