import RApache.EnDecode
import RApache.Library.Reader

/-!
# `url_decode` as a reader

`url_decode` takes one escape or one byte in each turn and stops where the text ends inside an
escape.  No turn depends on text behind it.
-/

namespace RApache

open Incremental

/-! ## Escapes of continuation bytes -/

/-- The text is made of escapes of continuation bytes, of which the last may be cut off. -/
def escapesOnly : (word : Bytes) → Bool
  | [] => true
  | [percent] => percent = 37
  | [percent, first] => percent = 37 && is89AB first
  | percent :: first :: second :: word =>
      percent = 37 && is89AB first && aprIsxdigit second && escapesOnly word

theorem isEnc8_eq (word : Bytes) (wlen : Nat) (enough : 3 * wlen ≤ word.length) :
    isEnc8 word wlen = escapesOnly (word.take (3 * wlen)) := by
  fun_induction isEnc8 word wlen with
  | case1 => simp [escapesOnly]
  | case2 percent first second word wlen ih =>
      have tail : 3 * wlen ≤ word.length := by
        simp only [List.length_cons] at enough
        omega
      have three : 3 * (wlen + 1) = 3 * wlen + 1 + 1 + 1 := by omega
      rw [three]
      simp only [List.take_succ_cons, escapesOnly, ih tail]
  | case3 word wlen short =>
      match word, short, enough with
      | percent :: first :: second :: word, short, _ => exact absurd rfl (short _ _ _ _)
      | [], _, enough | [_], _, enough | [_, _], _, enough =>
          simp only [List.length_cons, List.length_nil] at enough
          omega

theorem fragmentCharset_eq (word : Bytes) :
    fragmentCharset word = if escapesOnly word then .utf8 else .latin1 := by
  fun_induction escapesOnly word with
  | case1 => rfl
  | case2 percent => simp [fragmentCharset, isEnc8]
  | case3 percent first => simp [fragmentCharset, isEnc8, and_comm]
  | case4 percent first second word ih =>
      have third : (percent :: first :: second :: word).length / 3 = word.length / 3 + 1 := by
        simp only [List.length_cons]
        omega
      have three : 3 * (word.length / 3 + 1) = 3 * (word.length / 3) + 1 + 1 + 1 := by omega
      simp only [fragmentCharset] at ih
      simp only [fragmentCharset, third, isEnc8, three, List.drop_succ_cons]
      cases ahead : decide (percent = 37) && is89AB first && aprIsxdigit second with
      | false => simp
      | true => simpa using ih

/-- What more text does to a text that escapes of continuation bytes do not begin. -/
theorem escapesOnly_append {word : Bytes} (more : Bytes) (broken : escapesOnly word = false) :
    escapesOnly (word ++ more) = false := by
  fun_induction escapesOnly word with
  | case1 => simp at broken
  | case2 percent =>
      have notPercent : percent ≠ 37 := by simpa using broken
      match more with
      | [] | [_] | _ :: _ :: _ => simp [escapesOnly, notPercent]
  | case3 percent first =>
      match more with
      | [] => simpa [escapesOnly] using broken
      | second :: more =>
          simp only [List.cons_append, List.nil_append, escapesOnly, broken, Bool.false_and]
  | case4 percent first second word ih =>
      simp only [List.cons_append, escapesOnly]
      cases ahead : decide (percent = 37) && is89AB first && aprIsxdigit second with
      | false => simp
      | true =>
          rw [ahead, Bool.true_and] at broken
          simp [ih broken]

theorem isEnc8_append {word : Bytes} {wlen : Nat} (more : Bytes)
    (enough : 3 * wlen ≤ word.length) : isEnc8 (word ++ more) wlen = isEnc8 word wlen := by
  rw [isEnc8_eq word wlen enough, isEnc8_eq (word ++ more) wlen (by simp; omega),
    List.take_append_of_le_length enough]

theorem isEnc8_broken {word : Bytes} {wlen : Nat} (more : Bytes)
    (broken : escapesOnly word = false) (short : word.length < 3 * wlen)
    (enough : 3 * wlen ≤ (word ++ more).length) : isEnc8 (word ++ more) wlen = false := by
  rw [isEnc8_eq (word ++ more) wlen enough, List.take_append,
    List.take_of_length_le (Nat.le_of_lt short)]
  exact escapesOnly_append _ broken

theorem escapedBytes_append {word : Bytes} {wlen : Nat} (more : Bytes)
    (enough : 3 * wlen ≤ word.length) :
    escapedBytes (word ++ more) wlen = escapedBytes word wlen := by
  fun_induction escapedBytes word wlen with
  | case1 percent first second word wlen ih =>
      have tail : 3 * wlen ≤ word.length := by
        simp only [List.length_cons] at enough
        omega
      simp only [List.cons_append, escapedBytes, ih tail]
  | case2 word wlen short =>
      match word, wlen, short, enough with
      | _, 0, _, _ => simp [escapedBytes]
      | _ :: _ :: _ :: _, _ + 1, short, _ => exact absurd rfl (short _ _ _ _ _ rfl)
      | [], _ + 1, _, enough | [_], _ + 1, _, enough | [_, _], _ + 1, _, enough =>
          simp only [List.length_cons, List.length_nil] at enough
          omega

/-! ### One escape and the text behind it -/

theorem utf8Lead_append {lead : Nat} {c : UInt8} {rest rest' : Bytes} {st next : UrlState}
    (more : Bytes) (escape : utf8Lead lead c rest st = some (next, rest')) :
    utf8Lead lead c (rest ++ more) st = some (next, rest' ++ more) := by
  unfold utf8Lead at escape ⊢
  split at escape
  next short =>
    split at escape
    next => cases escape
    next notUtf8 =>
      cases escape
      have broken : escapesOnly rest = false := by
        rw [fragmentCharset_eq] at notUtf8
        simpa using notUtf8
      have latin1 : fragmentCharset rest = .latin1 := by simp [fragmentCharset_eq, broken]
      have latin1' : fragmentCharset (rest ++ more) = .latin1 := by
        simp [fragmentCharset_eq, escapesOnly_append more broken]
      split
      next => simp [latin1, latin1']
      next enough =>
        rw [isEnc8_broken more broken short (by omega), latin1]
        rfl
  next enough =>
    have enough' : ¬ (rest ++ more).length < 3 * lead := by
      simp only [List.length_append]
      omega
    rw [if_neg enough', isEnc8_append more (by omega)]
    split at escape
    next isEnc =>
      cases escape
      rw [if_pos isEnc, escapedBytes_append more (by omega),
        List.drop_append_of_le_length (by omega)]
    next notEnc =>
      cases escape
      rw [if_neg notEnc]

theorem hexEscape_append {c : UInt8} {rest rest' : Bytes} {st next : UrlState} (more : Bytes)
    (escape : hexEscape c rest st = some (next, rest')) :
    hexEscape c (rest ++ more) st = some (next, rest' ++ more) := by
  unfold hexEscape at escape ⊢
  split_ifs at escape ⊢ <;> first | exact utf8Lead_append more escape | (cases escape; rfl)

/-- A sequence in `utf8` that is cut off is looked at again in the same way when the charset
has become `utf8`. -/
theorem hexEscape_cutOff {c : UInt8} {rest : Bytes} {st : UrlState} (more : Bytes)
    (escape : hexEscape c rest st = none) :
    hexEscape c (rest ++ more) (st.setCharset .utf8) = hexEscape c (rest ++ more) st := by
  have lead (count : Nat) : utf8Lead count c (rest ++ more) (st.setCharset .utf8) =
      utf8Lead count c (rest ++ more) st := rfl
  unfold hexEscape at escape ⊢
  split at escape
  next => cases escape
  next notPlain =>
    rcases not_or.mp notPlain with ⟨large, notCp1252⟩
    rw [if_neg (by simp [large]), if_neg notPlain]
    split at escape
    next => cases escape
    next notControl =>
      split at escape
      next => cases escape
      next notPunctuation =>
        split at escape
        next => cases escape
        next notLatin1 =>
          simp only [if_neg notControl, if_neg notPunctuation, if_neg notLatin1,
            UrlState.setCharset_charset, reduceCtorEq, if_false, lead]
          rfl

theorem unicodeEscape_append {behind : Bytes} (more : Bytes) (long : 5 ≤ behind.length) :
    unicodeEscape (behind ++ more) =
      (unicodeEscape behind).map fun (c, rest) => (c, rest ++ more) := by
  match behind, long with
  | u :: h1 :: h2 :: h3 :: h4 :: rest, _ =>
      simp only [List.cons_append, unicodeEscape]
      split
      next => rfl
      next => rfl

theorem unicodeEscape_notU {first : UInt8} (behind : Bytes) (notU : first ≠ 117 ∧ first ≠ 85) :
    unicodeEscape (first :: behind) = none := by
  unfold unicodeEscape
  split
  next text =>
    cases text
    simp [notU]
  next => rfl

theorem unicodeEscape_notDigit (first : UInt8) {second : UInt8} (behind : Bytes)
    (notDigit : aprIsxdigit second = false) :
    unicodeEscape (first :: second :: behind) = none := by
  unfold unicodeEscape
  split
  next text =>
    cases text
    simp [notDigit]
  next => rfl

/-- A text that cannot become an escape does not become one. -/
theorem badSequence_append {behind : Bytes} (more : Bytes) (bad : badSequence behind)
    (notUnicode : unicodeEscape behind = none) :
    badSequence (behind ++ more) ∧ unicodeEscape (behind ++ more) = none := by
  match behind with
  | [] => simp [badSequence] at bad
  | [first] =>
      have never : (!aprIsxdigit first && first ≠ 117 && first ≠ 85) = true := bad
      refine ⟨?_, unicodeEscape_notU more ?_⟩
      · cases more with
        | nil => exact bad
        | cons second more =>
            simp only [List.cons_append, List.nil_append, badSequence, never, Bool.or_true]
      · simp only [ne_eq, Bool.and_eq_true, decide_eq_true_eq] at never
        exact ⟨never.1.2, never.2⟩
  | first :: second :: rest =>
      simp only [badSequence, List.cons_append, Bool.or_eq_true, Bool.not_eq_true',
        decide_eq_true_eq, Bool.and_eq_true, ne_eq] at bad ⊢
      rcases bad with (long | notDigit) | never
      · refine ⟨.inl (.inl ?_), ?_⟩
        · simp only [List.length_append]
          omega
        · have longer := unicodeEscape_append more
            (show 5 ≤ List.length (first :: second :: rest) by simpa using long)
          rw [notUnicode] at longer
          exact longer
      · exact ⟨.inl (.inr notDigit), unicodeEscape_notDigit first _ notDigit⟩
      · exact ⟨.inr never, unicodeEscape_notU _ ⟨never.1.2, never.2⟩⟩

theorem otherEscape_next {behind rest : Bytes} {st next : UrlState} (more : Bytes)
    (escape : otherEscape behind st = .inr (next, rest)) :
    otherEscape (behind ++ more) st = .inr (next, rest ++ more) := by
  unfold otherEscape at escape
  split at escape
  next c rest' found =>
    have long := unicodeEscape_length found
    split at escape
    next unicode =>
      cases escape
      rw [otherEscape, unicodeEscape_append more (by omega), found]
      exact if_pos unicode
    next => cases escape
  next =>
    split at escape
    next => cases escape
    next => cases escape

theorem otherEscape_long {behind rest : Bytes} {st next : UrlState}
    (escape : otherEscape behind st = .inr (next, rest)) : 5 ≤ behind.length := by
  unfold otherEscape at escape
  split at escape
  next found =>
    have long := unicodeEscape_length found
    omega
  next => split at escape <;> cases escape

/-- The text behind a percent sign is an error whatever comes behind it, or may become an
escape. -/
theorem otherEscape_result {behind : Bytes} {st : UrlState} {result : UrlDecoded}
    (escape : otherEscape behind st = .inl result) :
    (result.status = .badSeq ∧ ∀ more, otherEscape (behind ++ more) st = .inl result) ∨
      result.status = .incomplete ∧ result.charset = st.charset := by
  unfold otherEscape at escape
  split at escape
  next c rest found =>
    have long := unicodeEscape_length found
    split at escape
    next => cases escape
    next notUnicode =>
      cases escape
      refine .inl ⟨rfl, fun more => ?_⟩
      rw [otherEscape, unicodeEscape_append more (by omega), found]
      exact if_neg notUnicode
  next notUnicode =>
    split at escape
    next bad =>
      cases escape
      refine .inl ⟨rfl, fun more => ?_⟩
      have worse := badSequence_append more bad notUnicode
      rw [otherEscape, worse.2]
      exact if_pos worse.1
    next =>
      cases escape
      exact .inr ⟨rfl, rfl⟩

/-- Behind a percent sign there are not two digits, and none will be. -/
def NotHex (behind : Bytes) : Prop :=
  ∀ first second rest, behind = first :: second :: rest →
    (aprIsxdigit first && aprIsxdigit second) = false

theorem percentEscape_notHex {behind : Bytes} (notHex : NotHex behind) (st : UrlState) :
    percentEscape behind st = otherEscape behind st := by
  unfold percentEscape
  split
  next first second rest => simp [notHex first second rest rfl]
  next => rfl

theorem percentEscape_hex {first second : UInt8}
    (isHex : (aprIsxdigit first && aprIsxdigit second) = true) (rest : Bytes) (st : UrlState) :
    percentEscape (first :: second :: rest) st =
      match hexEscape (hex2ToChar first second) rest st with
      | some next => .inr next
      | none => .inl ((st.setCharset .utf8).incomplete (37 :: first :: second :: rest)) :=
  if_pos isHex

/-- An escape of a byte, or a text that is none. -/
theorem hex_or_notHex (behind : Bytes) :
    NotHex behind ∨ ∃ first second rest, behind = first :: second :: rest ∧
      (aprIsxdigit first && aprIsxdigit second) = true := by
  match behind with
  | [] => exact .inl (by simp [NotHex])
  | [first] => exact .inl (by simp [NotHex])
  | first :: second :: rest =>
      cases isHex : aprIsxdigit first && aprIsxdigit second with
      | false =>
          refine .inl fun first' second' rest' same => ?_
          cases same
          exact isHex
      | true => exact .inr ⟨first, second, rest, rfl, isHex⟩

theorem NotHex.append {behind : Bytes} (notHex : NotHex behind) (long : 2 ≤ behind.length)
    (more : Bytes) : NotHex (behind ++ more) := by
  match behind, long with
  | first :: second :: rest, _ =>
      intro first' second' rest' same
      cases same
      exact notHex first second rest rfl

/-- Text behind a bad sequence does not make an escape of it. -/
theorem NotHex.append_bad {behind : Bytes} {st : UrlState} {result : UrlDecoded}
    (notHex : NotHex behind) (escape : otherEscape behind st = .inl result)
    (bad : result.status = .badSeq) (more : Bytes) : NotHex (behind ++ more) := by
  match behind with
  | [] =>
      simp only [otherEscape, unicodeEscape, badSequence] at escape
      cases escape
      cases bad
  | [first] =>
      intro first' second' rest' same
      have isFirst : first = first' := (List.cons.inj same).1
      subst isFirst
      by_cases never : badSequence [first] = true
      · simp only [badSequence, Bool.and_eq_true, Bool.not_eq_true'] at never
        simp [never.1.1]
      · simp only [otherEscape, unicodeEscape, never] at escape
        cases escape
        cases bad
  | first :: second :: rest => exact notHex.append (by simp) more

theorem percentEscape_next {behind rest : Bytes} {st next : UrlState} (more : Bytes)
    (escape : percentEscape behind st = .inr (next, rest)) :
    percentEscape (behind ++ more) st = .inr (next, rest ++ more) := by
  rcases hex_or_notHex behind with notHex | ⟨first, second, behind, rfl, isHex⟩
  · rw [percentEscape_notHex notHex] at escape
    have long := otherEscape_long escape
    rw [percentEscape_notHex (notHex.append (by omega) more)]
    exact otherEscape_next more escape
  · rw [percentEscape_hex isHex] at escape
    split at escape
    next found =>
      cases escape
      rw [List.cons_append, List.cons_append, percentEscape_hex isHex, hexEscape_append more found]
    next => cases escape

theorem utf8Lead_suffix {lead : Nat} {c : UInt8} {rest rest' : Bytes} {st next : UrlState}
    (escape : utf8Lead lead c rest st = some (next, rest')) : rest' <:+ rest := by
  unfold utf8Lead at escape
  split_ifs at escape
  · cases escape
    exact List.suffix_refl _
  · cases escape
    exact List.drop_suffix _ _
  · cases escape
    exact List.suffix_refl _

theorem hexEscape_suffix {c : UInt8} {rest rest' : Bytes} {st next : UrlState}
    (escape : hexEscape c rest st = some (next, rest')) : rest' <:+ rest := by
  unfold hexEscape at escape
  split_ifs at escape <;>
    first | exact utf8Lead_suffix escape | (cases escape; exact List.suffix_refl _)

theorem unicodeEscape_suffix {behind rest : Bytes} {c : UInt16}
    (escape : unicodeEscape behind = some (c, rest)) : rest <:+ behind := by
  unfold unicodeEscape at escape
  split at escape
  next u h1 h2 h3 h4 rest' =>
    split at escape
    next =>
      cases escape
      exact List.suffix_append [u, h1, h2, h3, h4] rest
    next => cases escape
  next => cases escape

theorem percentEscape_suffix {behind rest : Bytes} {st next : UrlState}
    (escape : percentEscape behind st = .inr (next, rest)) : rest <:+ behind := by
  rcases hex_or_notHex behind with notHex | ⟨first, second, behind, rfl, isHex⟩
  · rw [percentEscape_notHex notHex] at escape
    unfold otherEscape at escape
    split at escape
    next found =>
      split at escape
      next =>
        cases escape
        exact unicodeEscape_suffix found
      next => cases escape
    next => split at escape <;> cases escape
  · rw [percentEscape_hex isHex] at escape
    split at escape
    next found =>
      cases escape
      exact (hexEscape_suffix found).trans (List.suffix_append [first, second] behind)
    next => cases escape

theorem percentEscape_result {behind : Bytes} {st : UrlState} {result : UrlDecoded}
    (escape : percentEscape behind st = .inl result) :
    (result.status = .badSeq ∧ ∀ more, percentEscape (behind ++ more) st = .inl result) ∨
      result.status = .incomplete ∧ ∀ more,
        percentEscape (behind ++ more) (st.setCharset result.charset) =
          percentEscape (behind ++ more) st := by
  rcases hex_or_notHex behind with notHex | ⟨first, second, rest, rfl, isHex⟩
  · rw [percentEscape_notHex notHex] at escape
    rcases otherEscape_result escape with ⟨bad, forever⟩ | ⟨incomplete, charset⟩
    · refine .inl ⟨bad, fun more => ?_⟩
      rw [percentEscape_notHex (notHex.append_bad escape bad more), forever]
    · exact .inr ⟨incomplete, fun more => by rw [charset]; rfl⟩
  · rw [percentEscape_hex isHex] at escape
    split at escape
    next => cases escape
    next cutOff =>
      cases escape
      refine .inr ⟨rfl, fun more => ?_⟩
      have again : hexEscape (hex2ToChar first second) (rest ++ more) (st.setCharset .utf8) =
          hexEscape (hex2ToChar first second) (rest ++ more) st := hexEscape_cutOff more cutOff
      rw [List.cons_append, List.cons_append, percentEscape_hex isHex, percentEscape_hex isHex]
      change (match hexEscape (hex2ToChar first second) (rest ++ more) (st.setCharset .utf8) with
        | some next => _
        | none => _) = _
      rw [again]
      rfl

/-! ### The reader -/

/-- The turn at a percent sign. -/
def percentTurn (behind : Bytes) (st : UrlState) : Turn UInt8 UrlState UrlDecoded :=
  match percentEscape behind st with
  | .inr (next, rest) => .next next rest
  | .inl result =>
      if result.status = .badSeq then .stop result else .wait (st.setCharset result.charset)

/-- One turn of the loop of `url_decode`. -/
def urlTurn (st : UrlState) : (s : Bytes) → Turn UInt8 UrlState UrlDecoded
  | [] => .wait st
  | c :: s =>
      if c = 43 then .next (st.put 32) s
      else if c = 37 then percentTurn s st
      else .next (st.put c) s

theorem urlTurn_plain {c : UInt8} (plain : c ≠ 37) (s : Bytes) (st : UrlState) :
    urlTurn st (c :: s) = .next (st.put (if c = 43 then 32 else c)) s := by
  rw [urlTurn]
  split
  next => rfl
  next => rfl

@[simp] theorem urlTurn_percent (s : Bytes) (st : UrlState) :
    urlTurn st (37 :: s) = percentTurn s st := by
  rw [urlTurn, if_neg (by decide), if_pos rfl]

/-- Whatever a turn is, it is one at a percent sign, at another byte, or at the end. -/
theorem urlTurn_cases {P : UrlState → Bytes → Turn UInt8 UrlState UrlDecoded → Prop}
    (nil : ∀ st, P st [] (.wait st))
    (plain : ∀ st c s, c ≠ 37 → P st (c :: s) (.next (st.put (if c = 43 then 32 else c)) s))
    (percent : ∀ st s, P st (37 :: s) (percentTurn s st)) (st : UrlState) (s : Bytes) :
    P st s (urlTurn st s) := by
  cases s with
  | nil => exact nil st
  | cons c s =>
      by_cases isPercent : c = 37
      · subst isPercent
        rw [urlTurn_percent]
        exact percent st s
      · rw [urlTurn_plain isPercent]
        exact plain st c s isPercent

theorem percentTurn_next {behind rest : Bytes} {st next : UrlState}
    (turn : percentTurn behind st = .next next rest) :
    percentEscape behind st = .inr (next, rest) := by
  unfold percentTurn at turn
  split at turn
  next escape =>
    cases turn
    exact escape
  next => split at turn <;> cases turn

theorem percentTurn_wait {behind : Bytes} {st st' : UrlState}
    (turn : percentTurn behind st = .wait st') :
    ∃ result, percentEscape behind st = .inl result ∧ result.status ≠ .badSeq ∧
      st' = st.setCharset result.charset := by
  unfold percentTurn at turn
  split at turn
  next => cases turn
  next result escape =>
    split at turn
    next => cases turn
    next open_ =>
      cases turn
      exact ⟨result, escape, open_, rfl⟩

theorem percentTurn_stop {behind : Bytes} {st : UrlState} {result : UrlDecoded}
    (turn : percentTurn behind st = .stop result) :
    percentEscape behind st = .inl result ∧ result.status = .badSeq := by
  unfold percentTurn at turn
  split at turn
  next => cases turn
  next escape =>
    split at turn
    next bad =>
      cases turn
      exact ⟨escape, bad⟩
    next => cases turn

/-- `url_decode` takes at least a byte in each turn. -/
def urlReader : Reader UInt8 UrlState UrlDecoded where
  turn := urlTurn
  shorter := by
    intro st next s rest
    refine urlTurn_cases (P := fun _ s turn => turn = .next next rest → rest.length < s.length)
      ?_ ?_ ?_ st s
    · intro st turn
      cases turn
    · intro st c s _ turn
      cases turn
      simp
    · intro st s turn
      have shorter := (percentEscape_escaped (percentTurn_next turn)).length
      simp only [List.length_cons]
      omega

@[simp] theorem urlReader_turn : urlReader.turn = urlTurn := rfl

theorem urlReader_lawful : urlReader.Lawful where
  next := by
    intro st next s rest more
    refine urlTurn_cases (P := fun st s turn => turn = .next next rest →
      urlTurn st (s ++ more) = .next next (rest ++ more)) ?_ ?_ ?_ st s
    · intro st turn
      cases turn
    · intro st c s plain turn
      cases turn
      exact urlTurn_plain plain _ _
    · intro st s turn
      rw [List.cons_append, urlTurn_percent, percentTurn,
        percentEscape_next more (percentTurn_next turn)]
  wait := by
    intro st st' s more
    refine urlTurn_cases (P := fun st s turn => turn = .wait st' →
      urlTurn st' (s ++ more) = urlTurn st (s ++ more)) ?_ ?_ ?_ st s
    · intro st turn
      cases turn
      rfl
    · intro st c s plain turn
      cases turn
    · intro st s turn
      rcases percentTurn_wait turn with ⟨result, escape, open_, rfl⟩
      rcases percentEscape_result escape with ⟨bad, -⟩ | ⟨-, again⟩
      · exact absurd bad open_
      · rw [List.cons_append, urlTurn_percent, urlTurn_percent, percentTurn, again more]
        rfl
  stop := by
    intro st s result more
    refine urlTurn_cases (P := fun st s turn => turn = .stop result →
      urlTurn st (s ++ more) = .stop result) ?_ ?_ ?_ st s
    · intro st turn
      cases turn
    · intro st c s plain turn
      cases turn
    · intro st s turn
      rcases percentTurn_stop turn with ⟨escape, bad⟩
      rcases percentEscape_result escape with ⟨-, forever⟩ | ⟨incomplete, -⟩
      · rw [List.cons_append, urlTurn_percent, percentTurn, forever more]
        exact if_pos bad
      · simp [bad] at incomplete

/-- What `url_decode` leaves when its text ends. -/
def UrlState.ended (st : UrlState) (kept : Bytes) : UrlDecoded :=
  if kept = [] then st.finish .success else st.incomplete kept

/-- How `url_decode` ends, from how the reading does. -/
def urlEnd : Reading UInt8 UrlState UrlDecoded → UrlDecoded
  | .waiting st kept => st.ended kept
  | .stopped result => result

theorem percentEscape_open {behind : Bytes} {st : UrlState} {result : UrlDecoded}
    (escape : percentEscape behind st = .inl result) (open_ : result.status ≠ .badSeq) :
    result = (st.setCharset result.charset).incomplete (37 :: behind) := by
  rcases hex_or_notHex behind with notHex | ⟨first, second, rest, rfl, isHex⟩
  · rw [percentEscape_notHex notHex] at escape
    unfold otherEscape at escape
    split at escape
    next =>
      split at escape
      next => cases escape
      next =>
        cases escape
        exact absurd rfl open_
    next =>
      split at escape
      next =>
        cases escape
        exact absurd rfl open_
      next =>
        cases escape
        rfl
  · rw [percentEscape_hex isHex] at escape
    split at escape
    next => cases escape
    next =>
      cases escape
      rfl

theorem urlReader_plain {c : UInt8} (plain : c ≠ 37) (s : Bytes) (st : UrlState) :
    urlReader.turn st (c :: s) = .next (st.put (if c = 43 then 32 else c)) s :=
  urlTurn_plain plain s st

/-- `url_decode` is the reading of its text. -/
theorem urlDecode_eq_read (s : Bytes) (st : UrlState) :
    urlDecode s st = urlEnd (urlReader.read st s) := by
  fun_induction urlDecode s st with
  | case1 st => rw [urlReader.read_wait rfl, urlEnd, UrlState.ended, if_pos rfl]
  | case2 st s ih => rw [ih, urlReader.read_next (urlReader_plain (by decide) s st), if_pos rfl]
  | case3 st s result escape =>
      by_cases bad : result.status = .badSeq
      · have turn : urlReader.turn st (37 :: s) = .stop result := by
          simp [percentTurn, escape, bad]
        rw [urlReader.read_stop turn, urlEnd]
      · have turn : urlReader.turn st (37 :: s) = .wait (st.setCharset result.charset) := by
          simp [percentTurn, escape, bad]
        rw [urlReader.read_wait turn, urlEnd, UrlState.ended, if_neg (by simp)]
        exact percentEscape_open escape bad
  | case4 st s next rest escape _ ih =>
      have turn : urlReader.turn st (37 :: s) = .next next rest := by
        simp [percentTurn, escape]
      rw [ih, urlReader.read_next turn]
  | case5 st c s notPlus notPercent ih =>
      rw [ih, urlReader.read_next (urlReader_plain notPercent s st), if_neg notPlus]

/-! ## Writes that came before -/

/-- The same state with writes before its own. -/
def UrlState.prepend (before : List (Nat × UInt8)) (st : UrlState) : UrlState :=
  { st with writes := before ++ st.writes }

def UrlDecoded.prepend (before : List (Nat × UInt8)) (result : UrlDecoded) : UrlDecoded :=
  { result with writes := before ++ result.writes }

section Prepend

variable (before : List (Nat × UInt8)) (st : UrlState)

@[simp] theorem UrlState.prepend_d : (st.prepend before).d = st.d := rfl
@[simp] theorem UrlState.prepend_charset : (st.prepend before).charset = st.charset := rfl

@[simp] theorem UrlState.put_prepend (c : UInt8) :
    (st.prepend before).put c = (st.put c).prepend before := by
  simp [UrlState.put, UrlState.prepend]

@[simp] theorem UrlState.skip_prepend :
    (st.prepend before).skip = st.skip.prepend before := rfl

@[simp] theorem UrlState.setCharset_prepend (charset : Charset) :
    (st.prepend before).setCharset charset = (st.setCharset charset).prepend before := rfl

@[simp] theorem UrlState.puts_prepend (buffer : Bytes) :
    (st.prepend before).puts buffer = (st.puts buffer).prepend before := by
  induction buffer generalizing st with
  | nil => rfl
  | cons c buffer ih => simp only [puts_cons, put_prepend, ih]

@[simp] theorem UrlState.finish_prepend (status : DecodeStatus) :
    (st.prepend before).finish status = (st.finish status).prepend before := by
  rw [UrlState.finish, UrlState.put_prepend]
  rfl

@[simp] theorem UrlState.incomplete_prepend (s : Bytes) :
    (st.prepend before).incomplete s = (st.incomplete s).prepend before := by
  rw [UrlState.incomplete, UrlState.puts_prepend, UrlState.put_prepend]
  rfl

theorem utf8Lead_prepend (lead : Nat) (c : UInt8) (rest : Bytes) :
    utf8Lead lead c rest (st.prepend before) =
      (utf8Lead lead c rest st).map fun (next, rest) => (next.prepend before, rest) := by
  unfold utf8Lead
  split_ifs <;> simp

theorem hexEscape_prepend (c : UInt8) (rest : Bytes) :
    hexEscape c rest (st.prepend before) =
      (hexEscape c rest st).map fun (next, rest) => (next.prepend before, rest) := by
  unfold hexEscape
  simp only [UrlState.prepend_charset, UrlState.put_prepend, UrlState.setCharset_prepend,
    UrlState.skip_prepend, utf8Lead_prepend]
  split_ifs <;> rfl

/-- The outcome of an escape with writes before those of the escape. -/
def prependOutcome :
    UrlDecoded ⊕ UrlState × Bytes → UrlDecoded ⊕ UrlState × Bytes
  | .inl result => .inl (result.prepend before)
  | .inr (next, rest) => .inr (next.prepend before, rest)

theorem otherEscape_prepend (behind : Bytes) :
    otherEscape behind (st.prepend before) = prependOutcome before (otherEscape behind st) := by
  unfold otherEscape
  cases unicodeEscape behind with
  | some found =>
      simp only [UrlState.prepend_charset, UrlState.setCharset_prepend, UrlState.puts_prepend,
        UrlState.finish_prepend]
      split_ifs <;> rfl
  | none =>
      simp only [UrlState.finish_prepend, UrlState.incomplete_prepend]
      split_ifs <;> rfl

theorem percentEscape_prepend (behind : Bytes) :
    percentEscape behind (st.prepend before) =
      prependOutcome before (percentEscape behind st) := by
  rcases hex_or_notHex behind with notHex | ⟨first, second, rest, rfl, isHex⟩
  · rw [percentEscape_notHex notHex, percentEscape_notHex notHex, otherEscape_prepend]
  · rw [percentEscape_hex isHex, percentEscape_hex isHex, hexEscape_prepend]
    cases hexEscape (hex2ToChar first second) rest st with
    | none => simp [prependOutcome]
    | some next => rfl

/-- What is read does not depend on the writes before. -/
theorem urlReader_prepend (s : Bytes) :
    urlReader.read (st.prepend before) s =
      (urlReader.read st s).map (·.prepend before) (·.prepend before) := by
  refine urlReader.read_map (fun st s => ?_) st s
  refine urlTurn_cases (P := fun st s turn => urlTurn (st.prepend before) s =
    turn.map (·.prepend before) (·.prepend before)) ?_ ?_ ?_ st s
  · intro st
    rfl
  · intro st c s plain
    rw [urlTurn_plain plain, UrlState.put_prepend]
    rfl
  · intro st s
    rw [urlTurn_percent, percentTurn, percentTurn, percentEscape_prepend]
    cases percentEscape s st with
    | inr found => rfl
    | inl result =>
        simp only [prependOutcome]
        change (if result.status = .badSeq then _ else _) = _
        split_ifs <;> rfl

end Prepend

end RApache
