import RApache.Apreq.PairValue

/-!
# Attributes of a header

`apreq_header_attribute` searches for equals signs and compares what is before them with the name.
For a header of attributes that are well formed it finds the first one with this name, whatever is
in the values of the others.
-/

namespace RApache

/-! ## Keys -/

/-- A name of an attribute, all of whose symbols are `is_2616_token`. -/
structure AttributeKey (key : Bytes) : Prop where
  notEmpty : key ≠ []
  tokens : ∀ symbol ∈ key, is2616Token symbol = true

theorem is2616Token_symbols (symbol : UInt8) :
    is2616Token (aprTolower symbol) = is2616Token symbol ∧
      (is2616Token symbol = true → aprIsspace symbol = false ∧ symbol ≠ 61) := by
  have every : ∀ i : Fin 256, is2616Token (aprTolower (UInt8.ofNat i)) =
      is2616Token (UInt8.ofNat i) ∧ (is2616Token (UInt8.ofNat i) = true →
        aprIsspace (UInt8.ofNat i) = false ∧ UInt8.ofNat i ≠ 61) := by decide +kernel
  simpa using every ⟨symbol.toNat, symbol.toNat_lt⟩

/-- A text that is compared as equal with a name has only symbols of tokens. -/
theorem strcaseeq_tokens {text name : Bytes} (isName : AttributeKey name)
    (same : strcaseeq text name = true) : ∀ symbol ∈ text, is2616Token symbol = true := by
  intro symbol isSymbol
  have lower : aprTolower symbol ∈ name.map aprTolower := by
    rw [← of_decide_eq_true same]
    exact List.mem_map_of_mem isSymbol
  rcases List.mem_map.mp lower with ⟨other, isOther, sameLower⟩
  rw [← (is2616Token_symbols symbol).1, ← sameLower, (is2616Token_symbols other).1]
  exact isName.tokens other isOther

theorem strcaseeq_length {text name : Bytes} (same : strcaseeq text name = true) :
    text.length = name.length := by
  have lengths := congrArg List.length (of_decide_eq_true same)
  simpa using lengths

theorem strcaseeq_of_length {text name : Bytes} (differ : text.length ≠ name.length) :
    strcaseeq text name = false :=
  Bool.eq_false_iff.mpr fun same => differ (strcaseeq_length same)

theorem strcaseeq_of_mem {text name : Bytes} (isName : AttributeKey name) {symbol : UInt8}
    (isSymbol : symbol ∈ text) (noToken : is2616Token symbol = false) :
    strcaseeq text name = false := by
  refine Bool.eq_false_iff.mpr fun same => ?_
  rw [strcaseeq_tokens isName same symbol isSymbol] at noToken
  cases noToken

/-- The blanks behind a key are skipped, unless they are so near to the beginning that the name
cannot be before them. -/
theorem keyEnd_gap {before key gap : Bytes} {limit : Nat}
    (blanks : ∀ symbol ∈ gap, aprIsspace symbol = true) (isKey : AttributeKey key) :
    ∃ more, keyEnd (before ++ (key ++ gap)) limit ((before ++ (key ++ gap)).length - 1) =
        before.length + key.length - 1 + more ∧
      (more = 0 ∨ ∃ symbol, gap[more - 1]? = some symbol ∧ 0 < more ∧
        before.length + key.length - 1 + more ≤ limit) := by
  have nonempty : 0 < key.length := List.length_pos_iff.mpr isKey.notEmpty
  have from_ (count : Nat) (inside : count ≤ gap.length) :
      ∃ more, keyEnd (before ++ (key ++ gap)) limit (before.length + key.length - 1 + count) =
          before.length + key.length - 1 + more ∧
        (more = 0 ∨ ∃ symbol, gap[more - 1]? = some symbol ∧ 0 < more ∧
          before.length + key.length - 1 + more ≤ limit) := by
    induction count with
    | zero =>
        refine ⟨0, ?_, .inl rfl⟩
        rw [Nat.add_zero]
        cases isLast : before.length + key.length - 1 with
        | zero => rfl
        | succ index =>
            have isSymbol : (before ++ (key ++ gap)).getD (index + 1) 0 =
                key.getLast isKey.notEmpty := by
              rw [← isLast, List.getD_eq_getElem?_getD, List.getElem?_append_right (by omega),
                List.getElem?_append_left (by omega), List.getLast_eq_getElem,
                List.getElem?_eq_getElem (by omega), Option.getD_some]
              congr 1
              omega
            have noBlank := (is2616Token_symbols _).2
              (isKey.tokens _ (List.getLast_mem isKey.notEmpty))
            rw [keyEnd, isSymbol, noBlank.1]
            rfl
    | succ count ih =>
        have isGap : (before ++ (key ++ gap)).getD (before.length + key.length - 1 + count + 1) 0 =
            gap[count] := by
          rw [List.getD_eq_getElem?_getD, List.getElem?_append_right (by omega),
            List.getElem?_append_right (by omega), List.getElem?_eq_getElem (by omega),
            Option.getD_some]
          congr 1
          omega
        rw [← Nat.add_assoc, keyEnd, isGap, blanks _ (List.getElem_mem _), Bool.true_and]
        by_cases far : limit < before.length + key.length - 1 + count + 1
        · rw [if_pos (decide_eq_true far)]
          exact ih (by omega)
        · rw [if_neg (by simpa using far)]
          exact ⟨count + 1, rfl, .inr ⟨gap[count], by simp, by omega, by omega⟩⟩
  have length : (before ++ (key ++ gap)).length - 1 =
      before.length + key.length - 1 + gap.length := by
    simp only [List.length_append]
    omega
  rw [length]
  exact from_ gap.length (le_refl _)

/-- The symbol behind `before` is in a part of the text that begins in `before`, if this is long
enough. -/
theorem mem_window {before behind : Bytes} {symbol : UInt8} {start length : Nat}
    (begins : start ≤ before.length) (long : before.length < start + length) :
    symbol ∈ ((before ++ symbol :: behind).drop start).take length := by
  refine List.mem_of_getElem? (i := before.length - start) ?_
  rw [List.getElem?_take_of_lt (by omega), List.getElem?_drop,
    Nat.add_sub_cancel' begins, List.getElem?_append_right (le_refl _), Nat.sub_self]
  rfl

/-- What comes before a key: a text that ends with a symbol that is in no token, or nothing at the
beginning of a header. -/
def LeadsKey (seen lead gap : Bytes) : Prop :=
  (∃ front separator, lead = front ++ [separator] ∧ is2616Token separator = false) ∨
    seen = [] ∧ lead = [] ∧ gap = []

/-- A part of the text that a symbol of no token is in does not match. -/
theorem window_differs {before behind name : Bytes} {symbol : UInt8} {start : Nat}
    (isName : AttributeKey name) (noToken : is2616Token symbol = false)
    (begins : start ≤ before.length) (long : before.length < start + name.length) :
    strcaseeq (((before ++ symbol :: behind).drop start).take name.length) name = false :=
  strcaseeq_of_mem isName (mem_window begins long) noToken

/-- The comparison when the blanks behind the key are skipped. -/
theorem key_compared {seen lead key gap name : Bytes} (isKey : AttributeKey key)
    (isName : AttributeKey name) (leads : LeadsKey seen lead gap)
    (enough : name.length ≤ (seen ++ lead).length + key.length) :
    (strcaseeq (((seen ++ (lead ++ (key ++ gap))).drop
        ((seen ++ lead).length + key.length - name.length)).take name.length) name &&
      (decide ((seen ++ lead).length + key.length - name.length = seen.length) ||
        (decide (0 < (seen ++ lead).length + key.length - name.length) &&
          !is2616Token ((seen ++ (lead ++ (key ++ gap))).getD
            ((seen ++ lead).length + key.length - name.length - 1) 0)))) =
      strcaseeq key name := by
  have named : 0 < name.length := List.length_pos_iff.mpr isName.notEmpty
  have whole : seen ++ (lead ++ (key ++ gap)) = (seen ++ lead) ++ (key ++ gap) := by simp
  rcases Nat.lt_trichotomy name.length key.length with shorter | same | longer
  · -- The symbol before the part that is compared is one of the key.
    have index : (seen ++ lead).length + key.length - name.length - 1 - (seen ++ lead).length <
        key.length := by omega
    have isSymbol : (seen ++ (lead ++ (key ++ gap))).getD
        ((seen ++ lead).length + key.length - name.length - 1) 0 = key[
          (seen ++ lead).length + key.length - name.length - 1 - (seen ++ lead).length] := by
      rw [whole, List.getD_eq_getElem?_getD, List.getElem?_append_right (by omega),
        List.getElem?_append_left index, List.getElem?_eq_getElem index, Option.getD_some]
    have inside : (seen ++ lead).length + key.length - name.length ≠ seen.length := by
      rw [List.length_append]
      omega
    rw [strcaseeq_of_length (Nat.ne_of_gt shorter), isSymbol,
      isKey.tokens _ (List.getElem_mem index), decide_eq_false inside]
    simp
  · have start : (seen ++ lead).length + key.length - name.length = (seen ++ lead).length := by
      omega
    have isPart : ((seen ++ (lead ++ (key ++ gap))).drop (seen ++ lead).length).take name.length =
        key := by
      rw [whole, List.drop_left, same, List.take_left]
    rw [start, isPart]
    rcases leads with ⟨front, separator, rfl, noToken⟩ | ⟨rfl, rfl, -⟩
    · have length : (seen ++ (front ++ [separator])).length - 1 = (seen ++ front).length := by
        simp only [List.length_append, List.length_singleton]
        omega
      have isSeparator : (seen ++ (front ++ [separator] ++ (key ++ gap))).getD
          ((seen ++ (front ++ [separator])).length - 1) 0 = separator := by
        have split : seen ++ (front ++ [separator] ++ (key ++ gap)) =
            (seen ++ front) ++ separator :: (key ++ gap) := by simp
        rw [split, length, List.getD_eq_getElem?_getD, List.getElem?_append_right (le_refl _),
          Nat.sub_self]
        rfl
      have positive : 0 < (seen ++ (front ++ [separator])).length := by
        simp only [List.length_append, List.length_singleton]
        omega
      rw [isSeparator, noToken, decide_eq_true positive]
      simp
    · simp
  · rw [strcaseeq_of_length (Nat.ne_of_lt longer)]
    rcases leads with ⟨front, separator, rfl, noToken⟩ | ⟨rfl, rfl, -⟩
    · have split : seen ++ (front ++ [separator] ++ (key ++ gap)) =
          (seen ++ front) ++ separator :: (key ++ gap) := by simp
      have length : (seen ++ (front ++ [separator])).length = (seen ++ front).length + 1 := by
        simp only [List.length_append, List.length_singleton]
        omega
      rw [split, length, window_differs isName noToken (by omega) (by omega), Bool.false_and]
    · simp only [List.append_nil, List.length_nil] at enough
      omega

/-- A key matches just the names that are equal to it, up to the case of letters. -/
theorem keyMatches_eq {seen lead key gap name : Bytes} (isKey : AttributeKey key)
    (isName : AttributeKey name) (blanks : ∀ symbol ∈ gap, aprIsspace symbol = true)
    (leads : LeadsKey seen lead gap) :
    keyMatches (seen ++ (lead ++ (key ++ gap))) seen.length name = strcaseeq key name := by
  have nonempty : 0 < key.length := List.length_pos_iff.mpr isKey.notEmpty
  have named : 0 < name.length := List.length_pos_iff.mpr isName.notEmpty
  rcases @keyEnd_gap (seen ++ lead) key gap (seen.length + name.length) blanks isKey with
    ⟨more, isEnd, isMore⟩
  rw [List.append_assoc] at isEnd
  rw [keyMatches, isEnd]
  rcases isMore with rfl | ⟨symbol, isGap, positive, near⟩
  · have length : (seen ++ lead).length + key.length - 1 + 0 + 1 =
        (seen ++ lead).length + key.length := by omega
    rw [length]
    by_cases short : (seen ++ lead).length + key.length < name.length
    · rw [if_pos short, strcaseeq_of_length (by omega)]
    · rw [if_neg short]
      exact key_compared isKey isName leads (by omega)
  · -- A blank is compared with the last symbol of the name, and the key is too short for it.
    rcases leads with ⟨front, separator, rfl, -⟩ | ⟨-, -, rfl⟩
    · have shorter : key.length ≠ name.length := by
        simp only [List.length_append, List.length_singleton] at near
        omega
      rcases List.getElem?_eq_some_iff.mp isGap with ⟨inside, rfl⟩
      have noToken : is2616Token gap[more - 1] = false := by
        refine Bool.eq_false_iff.mpr fun token => ?_
        have noBlank := ((is2616Token_symbols _).2 token).1
        rw [blanks _ (List.getElem_mem inside)] at noBlank
        cases noBlank
      have split : seen ++ (front ++ [separator] ++ (key ++ gap)) =
          (seen ++ (front ++ [separator]) ++ key ++ gap.take (more - 1)) ++
            gap[more - 1] :: gap.drop (more - 1 + 1) := by
        rw [← List.drop_eq_getElem_cons inside]
        simp
      have length : (seen ++ (front ++ [separator]) ++ key ++ gap.take (more - 1)).length =
          (seen ++ (front ++ [separator])).length + key.length - 1 + more := by
        simp only [List.length_append, List.length_take]
        omega
      rw [strcaseeq_of_length shorter, split]
      split
      next => rfl
      next enough =>
        change (_ && _) = false
        rw [window_differs isName noToken, Bool.false_and]
        · rw [length]
          omega
        · rw [length]
          omega
    · cases isGap

/-! ## The loop -/

section Loop

variable {name seen before space : Bytes}

theorem takeWhile_sign (noSign : 61 ∉ before) (behind : Bytes) :
    (before ++ 61 :: behind).takeWhile (fun symbol => decide (symbol ≠ 61)) = before ∧
      (before ++ 61 :: behind).dropWhile (fun symbol => decide (symbol ≠ 61)) = 61 :: behind := by
  have notSign : ∀ symbol ∈ before, decide (symbol ≠ 61) = true := by
    intro symbol isSymbol
    have differs : symbol ≠ 61 := fun same => noSign (same ▸ isSymbol)
    simpa using differs
  rw [List.takeWhile_append_of_pos notSign, List.dropWhile_append_of_pos notSign]
  simp

theorem takeWhile_blanks (blanks : ∀ symbol ∈ space, aprIsspace symbol = true) {text : Bytes}
    (first : ∀ symbol ∈ text.head?, aprIsspace symbol = false) :
    (space ++ text).takeWhile aprIsspace = space ∧
      (space ++ text).dropWhile aprIsspace = text := by
  have kept : text.takeWhile aprIsspace = [] := by
    cases text with
    | nil => rfl
    | cons symbol text => rw [List.takeWhile_cons_of_neg (by simp [first symbol rfl])]
  rw [List.takeWhile_append_of_pos blanks, List.dropWhile_append_of_pos blanks, kept,
    dropWhile_eq_self.mpr first, List.append_nil]
  exact ⟨rfl, rfl⟩

/-- An attribute with quotes. -/
theorem headerAttributeLoop_quoted (noSign : 61 ∉ before)
    (blanks : ∀ symbol ∈ space, aprIsspace symbol = true) {text value rest : Bytes}
    (closed : lookForEndQuote text = some (value, rest)) :
    headerAttributeLoop name seen (before ++ 61 :: (space ++ 34 :: text)) =
      if keyMatches (seen ++ before) seen.length name then .ok value
      else headerAttributeLoop name (seen ++ before ++ 61 :: space ++ 34 :: value) rest := by
  rcases takeWhile_sign noSign (space ++ 34 :: text) with ⟨isBefore, isBehind⟩
  rcases takeWhile_blanks blanks (show ∀ symbol ∈ (34 :: text).head?, aprIsspace symbol = false by
    simp [aprIsspace]) with ⟨isSpace, isText⟩
  rw [headerAttributeLoop]
  split
  next none =>
    rw [isBehind] at none
    cases none
  next sign behind found =>
    rw [isBehind] at found
    cases found
    split
    next text' quoted =>
      rw [isText] at quoted
      cases quoted
      split
      next open_ =>
        rw [closed] at open_
        cases open_
      next value' rest' closed' =>
        rw [closed] at closed'
        cases closed'
        rw [isBefore, isSpace]
    next notQuoted => exact absurd isText (notQuoted text)

/-- An attribute whose value is a token. -/
theorem headerAttributeLoop_token (noSign : 61 ∉ before)
    (blanks : ∀ symbol ∈ space, aprIsspace symbol = true) {value rest : Bytes}
    (symbols : ∀ symbol ∈ value, isTerminator symbol = false)
    (first : ∀ symbol ∈ (value ++ rest).head?, aprIsspace symbol = false ∧ symbol ≠ 34)
    (ends : ∀ symbol ∈ rest.head?, isTerminator symbol = true) :
    headerAttributeLoop name seen (before ++ 61 :: (space ++ (value ++ rest))) =
      if keyMatches (seen ++ before) seen.length name then .ok value
      else headerAttributeLoop name (seen ++ before ++ 61 :: space ++ value) rest := by
  rcases takeWhile_sign noSign (space ++ (value ++ rest)) with ⟨isBefore, isBehind⟩
  rcases takeWhile_blanks blanks fun symbol isFirst => (first symbol isFirst).1 with
    ⟨isSpace, isText⟩
  have isValue : (value ++ rest).takeWhile (fun symbol => !isTerminator symbol) = value ∧
      (value ++ rest).dropWhile (fun symbol => !isTerminator symbol) = rest := by
    rw [List.takeWhile_append_of_pos (by simpa using symbols),
      List.dropWhile_append_of_pos (by simpa using symbols)]
    cases rest with
    | nil => simp
    | cons symbol rest => simp [ends symbol rfl]
  rw [headerAttributeLoop]
  split
  next none =>
    rw [isBehind] at none
    cases none
  next sign behind found =>
    rw [isBehind] at found
    cases found
    split
    next text quoted =>
      rw [isText] at quoted
      exact absurd rfl (first 34 (by rw [quoted]; rfl)).2
    next notQuoted => rw [isText, isBefore, isSpace, isValue.1, isValue.2]

/-- Behind the last attribute. -/
theorem headerAttributeLoop_none {rest : Bytes} (noSign : 61 ∉ rest) :
    headerAttributeLoop name seen rest = .error .noAttr := by
  have nothing : rest.dropWhile (fun symbol => decide (symbol ≠ 61)) = [] := by
    rw [List.dropWhile_eq_nil_iff]
    intro symbol isRest
    have differs : symbol ≠ 61 := fun same => noSign (same ▸ isRest)
    simpa using differs
  rw [headerAttributeLoop]
  split
  next => rfl
  next found =>
    rw [nothing] at found
    cases found

end Loop

/-! ## Headers -/

/-- An attribute as it is written behind a semicolon. -/
structure HeaderAttribute where
  blanks : Bytes
  key : Bytes
  /-- The blanks before the equals sign. -/
  gap : Bytes
  /-- The blanks behind the equals sign. -/
  space : Bytes
  value : Bytes
  isKey : AttributeKey key
  areBlanks : ∀ symbol ∈ blanks ++ (gap ++ space), aprIsspace symbol = true
  isValue : PairValue value

/-- A value without its quotes; the escapes in it stay. -/
def withoutQuotes : Bytes → Bytes
  | 34 :: text => text.dropLast
  | value => value

theorem withoutQuotes_token {value : Bytes} (notQuote : ∀ symbol ∈ value.head?, symbol ≠ 34) :
    withoutQuotes value = value := by
  unfold withoutQuotes
  split
  next => exact absurd rfl (notQuote 34 rfl)
  next => rfl

namespace HeaderAttribute

/-- The attribute without what separates it from the one before. -/
def pair (attr : HeaderAttribute) : Bytes :=
  attr.key ++ (attr.gap ++ 61 :: (attr.space ++ attr.value))

def text (attr : HeaderAttribute) : Bytes := 59 :: (attr.blanks ++ attr.pair)

/-- The values of the attributes of a name. -/
def find (attrs : List HeaderAttribute) (name : Bytes) : Except AprStatus Bytes :=
  match attrs.find? fun attr => strcaseeq attr.key name with
  | some attr => .ok (withoutQuotes attr.value)
  | none => .error .noAttr

theorem find_cons (attr : HeaderAttribute) (attrs : List HeaderAttribute) (name : Bytes) :
    find (attr :: attrs) name =
      if strcaseeq attr.key name then .ok (withoutQuotes attr.value) else find attrs name := by
  cases same : strcaseeq attr.key name with
  | true => simp [find, same]
  | false => simp [find, same]

variable (attr : HeaderAttribute)

theorem noSign {lead : Bytes} (noSign : 61 ∉ lead) : 61 ∉ lead ++ (attr.key ++ attr.gap) := by
  intro isSign
  rcases List.mem_append.mp isSign with inLead | inKey
  · exact noSign inLead
  · rcases List.mem_append.mp inKey with inKey | inGap
    · exact ((is2616Token_symbols 61).2 (attr.isKey.tokens 61 inKey)).2 rfl
    · have blank := attr.areBlanks 61 (by simp [inGap])
      revert blank
      decide

/-- The search takes the attribute, or goes on behind its value. -/
theorem headerAttributeLoop_pair {name seen lead rest : Bytes} (isName : AttributeKey name)
    (noSign : 61 ∉ lead) (leads : LeadsKey seen lead attr.gap) (ends : EndsPair rest) :
    ∃ seen' lead', 61 ∉ lead' ∧
      headerAttributeLoop name seen (lead ++ (attr.pair ++ rest)) =
        if strcaseeq attr.key name then .ok (withoutQuotes attr.value)
        else headerAttributeLoop name seen' (lead' ++ rest) := by
  have blanks : ∀ symbol ∈ attr.gap, aprIsspace symbol = true := fun symbol isSymbol =>
    attr.areBlanks symbol (by simp [isSymbol])
  have spaces : ∀ symbol ∈ attr.space, aprIsspace symbol = true := fun symbol isSymbol =>
    attr.areBlanks symbol (by simp [isSymbol])
  have matches_ := keyMatches_eq attr.isKey isName blanks leads
  have before := attr.noSign noSign
  have isText : lead ++ (attr.pair ++ rest) =
      (lead ++ (attr.key ++ attr.gap)) ++ 61 :: (attr.space ++ (attr.value ++ rest)) := by
    simp [pair]
  rw [isText]
  have isValue := attr.isValue
  generalize attr.value = value at isValue ⊢
  cases isValue with
  | @token value symbols first =>
      have firstOf : ∀ symbol ∈ (value ++ rest).head?, aprIsspace symbol = false ∧ symbol ≠ 34 := by
        cases value with
        | nil =>
            intro symbol isFirst
            refine ⟨ends.notBlank symbol isFirst, ?_⟩
            rw [ends symbol isFirst]
            decide
        | cons symbol value => exact first
      have endsOf : ∀ symbol ∈ rest.head?, isTerminator symbol = true := by
        intro symbol isFirst
        rw [ends symbol isFirst]
        decide
      have step := @headerAttributeLoop_token name seen _ _ before spaces value rest symbols
        firstOf endsOf
      rw [matches_] at step
      rw [withoutQuotes_token fun symbol isFirst => (first symbol isFirst).2]
      exact ⟨_, [], List.not_mem_nil, step⟩
  | @quoted text closed =>
      have longer := (lookForEndQuote_append closed rest).1
      have step := @headerAttributeLoop_quoted name seen _ _ before spaces _ _ _ longer
      rw [matches_] at step
      have isQuoted : withoutQuotes (34 :: text ++ [34]) = text := List.dropLast_concat
      rw [isQuoted]
      exact ⟨_, [34], by decide, step⟩

theorem blanks_noToken {blank : UInt8} (isBlank : blank ∈ attr.blanks) :
    is2616Token blank = false := by
  refine Bool.eq_false_iff.mpr fun token => ?_
  have blanks := attr.areBlanks blank (List.mem_append_left _ isBlank)
  rw [((is2616Token_symbols blank).2 token).1] at blanks
  cases blanks

theorem blanks_noSign : 61 ∉ attr.blanks := by
  intro isSign
  have blank := attr.areBlanks 61 (List.mem_append_left _ isSign)
  revert blank
  decide

/-- What comes before the key of an attribute. -/
theorem leadsKey (seen lead : Bytes) : LeadsKey seen (lead ++ 59 :: attr.blanks) attr.gap := by
  left
  rcases List.eq_nil_or_concat attr.blanks with isBlanks | ⟨blanks, blank, isBlanks⟩
  · exact ⟨lead, 59, by rw [isBlanks], by decide⟩
  · exact ⟨lead ++ 59 :: blanks, blank, by simp [isBlanks], attr.blanks_noToken (by simp [isBlanks])⟩

/-- The search passes over the attributes that have another name. -/
theorem headerAttributeLoop_attributes {name : Bytes} (isName : AttributeKey name)
    (attrs : List HeaderAttribute) (seen lead : Bytes) (noSign : 61 ∉ lead) :
    headerAttributeLoop name seen (lead ++ attrs.flatMap text) = find attrs name := by
  induction attrs generalizing seen lead with
  | nil =>
      rw [List.flatMap_nil, List.append_nil]
      exact headerAttributeLoop_none noSign
  | cons attr attrs ih =>
      have isText : lead ++ (attr :: attrs).flatMap text =
          (lead ++ 59 :: attr.blanks) ++ (attr.pair ++ attrs.flatMap text) := by
        simp [text]
      have noSign' : 61 ∉ lead ++ 59 :: attr.blanks := by
        intro isSign
        rcases List.mem_append.mp isSign with inLead | inBlanks
        · exact noSign inLead
        · rcases List.mem_cons.mp inBlanks with same | inBlanks
          · exact absurd same (by decide)
          · exact attr.blanks_noSign inBlanks
      have ends : EndsPair (attrs.flatMap text) := by
        simpa using endsPair_flatMap (fun _ => rfl) attrs (show EndsPair [] by simp [EndsPair])
      rcases attr.headerAttributeLoop_pair isName noSign' (attr.leadsKey seen lead) ends with
        ⟨seen', lead', noSign'', step⟩
      rw [isText, step, find_cons, ih seen' lead' noSign'']

end HeaderAttribute

/-- `apreq_header_attribute` finds the first attribute of the name behind any value of the
header. -/
theorem apreqHeaderAttribute_attributes {main name : Bytes} (noSign : 61 ∉ main)
    (isName : AttributeKey name) (attrs : List HeaderAttribute) :
    apreqHeaderAttribute (main ++ attrs.flatMap HeaderAttribute.text) name =
      HeaderAttribute.find attrs name := by
  have kept : (main ++ attrs.flatMap HeaderAttribute.text).dropWhile (fun c => decide (c = 61)) =
      main ++ attrs.flatMap HeaderAttribute.text := by
    rw [dropWhile_eq_self]
    intro symbol isFirst
    cases main with
    | nil =>
        have ends : EndsPair (attrs.flatMap HeaderAttribute.text ++ []) :=
          endsPair_flatMap (fun _ => rfl) attrs (by simp [EndsPair])
        rw [List.append_nil] at ends
        rw [ends symbol isFirst]
        decide
    | cons first main =>
        cases isFirst
        have differs : symbol ≠ 61 := fun same => noSign (same ▸ List.mem_cons_self)
        simpa using differs
  rw [apreqHeaderAttribute, kept]
  exact HeaderAttribute.headerAttributeLoop_attributes isName attrs [] main noSign

/-- An attribute whose value looks like another one, and one with blanks around its sign. -/
theorem apreqHeaderAttribute_attributes_case :
    apreqHeaderAttribute (bytes "form-data; filename=\"; name=x\";Name = \ty") (bytes "name") =
      .ok (bytes "y") := by
  let filename : HeaderAttribute := ⟨bytes " ", bytes "filename", [], [], bytes "\"; name=x\"",
    ⟨by decide +kernel, by decide +kernel⟩, by decide +kernel,
    @PairValue.quoted (bytes "; name=x") (by decide +kernel)⟩
  let name : HeaderAttribute := ⟨[], bytes "Name", bytes " ", bytes " \t", bytes "y",
    ⟨by decide +kernel, by decide +kernel⟩, by decide +kernel,
    .token (by decide +kernel) (by decide +kernel)⟩
  have text : bytes "form-data" ++ [filename, name].flatMap HeaderAttribute.text =
      bytes "form-data; filename=\"; name=x\";Name = \ty" := by decide +kernel
  have found := @apreqHeaderAttribute_attributes (bytes "form-data") (bytes "name")
    (by decide +kernel) ⟨by decide +kernel, by decide +kernel⟩ [filename, name]
  rw [text] at found
  exact found.trans (by decide +kernel)

end RApache
