import RApache.Apreq.Urlencoded
import RApache.Library.Cut
import RApache.Library.Reader

/-!
# The words of an urlencoded body

`apreq_parse_urlencoded` works on buckets.  Here is what it finds in the bytes alone: it reads
one word after the other, and what it finds does not depend on how the body was cut into
buckets and brigades.
-/

namespace RApache

open Incremental

/-- The symbol behind a name. -/
def isEquals (symbol : UInt8) : Bool := symbol = byte '='

/-- The symbols behind a value. -/
def isSeparator (symbol : UInt8) : Bool := symbol = byte '&' || symbol = byte ';'

variable (env : Environment)

/-- The parameter of a word with a name.  The value is decoded before the name. -/
def decodePair (decode : Bytes → Except AprStatus Bytes) (name value : Bytes) :
    Except AprStatus Param :=
  match decode value, decode name with
  | .ok value, .ok name => .ok ⟨name, value, false⟩
  | .error status, _ => .error status
  | .ok _, .error status => .error status

/-- The parameter of a word. -/
def wordParam (name value : Bytes) : Except AprStatus Param :=
  if name = [] then .error .badArg else decodePair env.decodev name value

/-- One word of a body, with its name and its value. -/
def wordTurn (t : ParamTable) (text : Bytes) :
    Turn UInt8 ParamTable (AprStatus × ParamTable) :=
  match cutAt isEquals text with
  | none => .wait t
  | some (name, text) =>
      match cutAt isSeparator text with
      | none => .wait t
      | some (value, behind) =>
          match wordParam env name value with
          | .ok param => .next (t ++ [param]) behind
          | .error status => .stop (status, t)

/-- Whatever a turn is, a whole word is there or not. -/
theorem wordTurn_cases {P : Bytes → Turn UInt8 ParamTable (AprStatus × ParamTable) → Prop}
    (t : ParamTable) (text : Bytes)
    (word : ∀ name value behind separated, cutAt isEquals text = some (name, separated) →
      cutAt isSeparator separated = some (value, behind) →
        P text (match wordParam env name value with
          | .ok param => .next (t ++ [param]) behind
          | .error status => .stop (status, t)))
    (unfinished : P text (.wait t)) : P text (wordTurn env t text) := by
  unfold wordTurn
  cases named : cutAt isEquals text with
  | none => exact unfinished
  | some found =>
      rcases found with ⟨name, separated⟩
      simp only
      cases valued : cutAt isSeparator separated with
      | none => exact unfinished
      | some found => exact word name found.1 found.2 separated named valued

/-- A word that is there is read whatever comes behind it. -/
theorem wordTurn_of_cut {t : ParamTable} {text name separated value behind : Bytes}
    (named : cutAt isEquals text = some (name, separated))
    (valued : cutAt isSeparator separated = some (value, behind)) :
    wordTurn env t text =
      match wordParam env name value with
      | .ok param => .next (t ++ [param]) behind
      | .error status => .stop (status, t) := by
  simp only [wordTurn, named, valued]

/-- A body, read word after word. -/
def formReader : Reader UInt8 ParamTable (AprStatus × ParamTable) where
  turn := wordTurn env
  shorter := by
    intro t t' text rest
    refine wordTurn_cases env (P := fun text turn => turn = .next t' rest →
      rest.length < text.length) t text ?_ ?_
    · intro name value behind separated named valued turn
      have nameLength := cutAt_length named
      have valueLength := cutAt_length valued
      split at turn
      next =>
        cases turn
        omega
      next => cases turn
    · intro turn
      cases turn

theorem formReader_lawful : (formReader env).Lawful where
  next := by
    intro t t' text rest more
    refine wordTurn_cases env (P := fun text turn => turn = .next t' rest →
      wordTurn env t (text ++ more) = .next t' (rest ++ more)) t text ?_ ?_
    · intro name value behind separated named valued turn
      rw [wordTurn_of_cut env (cutAt_append named more) (cutAt_append valued more)]
      split at turn
      next =>
        cases turn
        rfl
      next => cases turn
    · intro turn
      cases turn
  wait := by
    intro t t' text more
    refine wordTurn_cases env (P := fun text turn => turn = .wait t' →
      wordTurn env t' (text ++ more) = wordTurn env t (text ++ more)) t text ?_ ?_
    · intro name value behind separated named valued turn
      split at turn <;> cases turn
    · intro turn
      cases turn
      rfl
  stop := by
    intro t text result more
    refine wordTurn_cases env (P := fun text turn => turn = .stop result →
      wordTurn env t (text ++ more) = .stop result) t text ?_ ?_
    · intro name value behind separated named valued turn
      rw [wordTurn_of_cut env (cutAt_append named more) (cutAt_append valued more)]
      split at turn
      next => cases turn
      next =>
        cases turn
        rfl
    · intro turn
      cases turn

/-- What the end of the stream makes of the text behind the last separator.  A name without an
equals sign is dropped. -/
def formEnd (t : ParamTable) (kept : Bytes) : AprStatus × ParamTable :=
  match cutAt isEquals kept with
  | none => (.success, t)
  | some (name, value) =>
      match wordParam env name value with
      | .ok param => (.success, t ++ [param])
      | .error status => (status, t)

/-- The status and the table that the end of the stream leaves. -/
def formOutcome : Reading UInt8 ParamTable (AprStatus × ParamTable) → AprStatus × ParamTable
  | .waiting t kept => formEnd env t kept
  | .stopped result => result

/-- The status and the table of a whole body. -/
def formResult (body : Bytes) : AprStatus × ParamTable :=
  formOutcome env ((formReader env).read [] body)

/-! ## Scanning a brigade -/

/-- Where the scan of a brigade stands: the bytes of the name, or the buckets of the name with
its equals sign and the bytes of the value. -/
inductive Scanning : UrlCounts → Brigade → (seen : Bytes) → Prop where
  | name {front : Brigade} {seen : Bytes} :
      (∀ symbol ∈ front.content ++ seen, ¬ isEquals symbol) → .eos ∉ front →
        Scanning ⟨.name, (front.content ++ seen).length, 0⟩ front seen
  | value {nameBuckets front : Brigade} {name seen : Bytes} :
      nameBuckets.content = name ++ [byte '='] → (∀ symbol ∈ name, ¬ isEquals symbol) →
      (∀ symbol ∈ front.content ++ seen, ¬ isSeparator symbol) → .eos ∉ nameBuckets ++ front →
        Scanning ⟨.value, name.length, (front.content ++ seen).length⟩ (nameBuckets ++ front) seen

/-- A word with its separator in buckets of its own. -/
structure WordBuckets (counts : UrlCounts) (buckets : Brigade) (name value : Bytes) : Prop where
  counts : counts = ⟨.value, name.length, value.length⟩
  named : ∀ symbol ∈ name, ¬ isEquals symbol
  valued : ∀ symbol ∈ value, ¬ isSeparator symbol
  noEos : .eos ∉ buckets
  split : ∃ nameBuckets valueBuckets separator, buckets = nameBuckets ++ valueBuckets ∧
    nameBuckets.content = name ++ [byte '='] ∧
      valueBuckets.content = value ++ [separator] ∧ isSeparator separator

/-- What scanning one bucket finds. -/
def UrlBucket.Scans (before : Brigade) (text : Bytes) : UrlBucket → Prop
  | .through counts front =>
      Scanning counts (before ++ front) [] ∧ (before ++ front).content = text
  | .word counts front behind =>
      ∃ name value, WordBuckets counts (before ++ front) name value ∧
        (before ++ front).content ++ behind = text

theorem Scanning.flush {counts : UrlCounts} {front : Brigade} {seen : Bytes}
    (scanning : Scanning counts front seen) : Scanning counts (front ++ [.data seen]) [] := by
  cases scanning with
  | name noEquals noEos =>
      have content : Brigade.content (front ++ [.data seen]) ++ [] = front.content ++ seen := by
        simp [Bucket.read]
      rw [← content] at noEquals ⊢
      exact .name noEquals (by simp [noEos])
  | @value nameBuckets front name seen isName noEquals noSeparator noEos =>
      have content : Brigade.content (front ++ [.data seen]) ++ [] = front.content ++ seen := by
        simp [Bucket.read]
      rw [List.append_assoc, ← content]
      refine .value isName noEquals ?_ ?_
      · rwa [content]
      · rw [← List.append_assoc]
        simpa using noEos

theorem Scanning.atName {counts : UrlCounts} {front : Brigade} {seen : Bytes}
    (scanning : Scanning counts front seen) (atName : counts.status = .name) :
    counts = ⟨.name, (front.content ++ seen).length, 0⟩ ∧
      (∀ symbol ∈ front.content ++ seen, ¬ isEquals symbol) ∧ .eos ∉ front := by
  cases scanning with
  | name noEquals noEos => exact ⟨rfl, noEquals, noEos⟩
  | value => cases atName

theorem Scanning.atValue {counts : UrlCounts} {front : Brigade} {seen : Bytes}
    (scanning : Scanning counts front seen) (atValue : counts.status = .value) :
    ∃ nameBuckets valueBuckets name, front = nameBuckets ++ valueBuckets ∧
      counts = ⟨.value, name.length, (valueBuckets.content ++ seen).length⟩ ∧
      nameBuckets.content = name ++ [byte '='] ∧ (∀ symbol ∈ name, ¬ isEquals symbol) ∧
      (∀ symbol ∈ valueBuckets.content ++ seen, ¬ isSeparator symbol) ∧
      .eos ∉ nameBuckets ++ valueBuckets := by
  cases scanning with
  | name => cases atValue
  | @value nameBuckets front name seen isName noEquals noSeparator noEos =>
      exact ⟨nameBuckets, front, name, rfl, rfl, isName, noEquals, noSeparator, noEos⟩

theorem Scanning.noEos {counts : UrlCounts} {front : Brigade} {seen : Bytes}
    (scanning : Scanning counts front seen) : .eos ∉ front := by
  cases scanning with
  | name _ noEos => exact noEos
  | value _ _ _ noEos => exact noEos

theorem Scanning.status {counts : UrlCounts} {front : Brigade} {seen : Bytes}
    (scanning : Scanning counts front seen) :
    counts.status = .name ∨ counts.status = .value := by
  cases scanning with
  | name => exact .inl rfl
  | value => exact .inr rfl

/-- A further byte of a text without some symbol. -/
theorem forall_mem_push {p : UInt8 → Bool} {text : Bytes} {last : UInt8}
    (none : ∀ symbol ∈ text, ¬ p symbol) (other : ¬ p last) :
    ∀ symbol ∈ text ++ [last], ¬ p symbol := by
  intro symbol isSymbol
  rcases List.mem_append.mp isSymbol with isSymbol | isSymbol
  · exact none symbol isSymbol
  · rwa [List.mem_singleton.mp isSymbol]

namespace Scanning

variable {counts : UrlCounts} {front : Brigade} {seen : Bytes}

theorem pushName {symbol : UInt8} (scanning : Scanning counts front seen)
    (atName : counts.status = .name) (other : ¬ isEquals symbol) :
    Scanning { counts with nlen := counts.nlen + 1 } front (seen ++ [symbol]) := by
  rcases scanning.atName atName with ⟨rfl, noEquals, noEos⟩
  have length : (front.content ++ seen).length + 1 =
      (front.content ++ (seen ++ [symbol])).length := by
    simp only [List.length_append, List.length_cons, List.length_nil]
    omega
  simp only [length]
  refine .name ?_ noEos
  rw [← List.append_assoc]
  exact forall_mem_push noEquals other

theorem equals (scanning : Scanning counts front seen) (atName : counts.status = .name) :
    Scanning { counts with status := .value } (front ++ [.data (seen ++ [byte '='])]) [] := by
  rcases scanning.atName atName with ⟨rfl, noEquals, noEos⟩
  have content : Brigade.content (front ++ [.data (seen ++ [byte '='])]) =
      (front.content ++ seen) ++ [byte '='] := by
    simp [Bucket.read]
  have none : ∀ symbol ∈ Brigade.content [] ++ [], ¬ isSeparator symbol := by simp
  have scanning' := Scanning.value content noEquals none (by simp [noEos])
  simpa using scanning'

theorem pushValue {symbol : UInt8} (scanning : Scanning counts front seen)
    (atValue : counts.status = .value) (other : ¬ isSeparator symbol) :
    Scanning { counts with vlen := counts.vlen + 1 } front (seen ++ [symbol]) := by
  rcases scanning.atValue atValue with
    ⟨nameBuckets, valueBuckets, name, rfl, rfl, isName, noEquals, noSeparator, noEos⟩
  have length : (valueBuckets.content ++ seen).length + 1 =
      (valueBuckets.content ++ (seen ++ [symbol])).length := by
    simp only [List.length_append, List.length_cons, List.length_nil]
    omega
  simp only [length]
  refine .value isName noEquals ?_ noEos
  rw [← List.append_assoc]
  exact forall_mem_push noSeparator other

theorem word {separator : UInt8} (scanning : Scanning counts front seen)
    (atValue : counts.status = .value) (separates : isSeparator separator) :
    ∃ name value, WordBuckets counts (front ++ [.data (seen ++ [separator])]) name value := by
  rcases scanning.atValue atValue with
    ⟨nameBuckets, valueBuckets, name, rfl, rfl, isName, noEquals, noSeparator, noEos⟩
  refine ⟨name, valueBuckets.content ++ seen, rfl, noEquals, noSeparator, by simpa using noEos,
    nameBuckets, valueBuckets ++ [.data (seen ++ [separator])], separator, by simp, isName, ?_,
    separates⟩
  simp [Bucket.read]

end Scanning

theorem parseUrlBucket_scans (before front : Brigade) (seen : Bytes) (counts : UrlCounts)
    (data : Bytes) (scanning : Scanning counts (before ++ front) seen) :
    (parseUrlBucket front seen counts data).Scans before
      ((before ++ front).content ++ seen ++ data) := by
  fun_induction parseUrlBucket front seen counts data with
  | case1 front seen counts =>
      refine ⟨?_, by simp [Bucket.read]⟩
      rw [← List.append_assoc]
      exact scanning.flush
  | case2 front seen counts data atName ih =>
      have read := ih (by simpa using scanning.equals atName)
      simpa [Bucket.read] using read
  | case3 front seen counts symbol data atName other ih =>
      have read := ih (scanning.pushName atName (by simpa [isEquals] using other))
      simpa using read
  | case4 front seen counts symbol data atValue separator =>
      rcases scanning.word atValue (by simpa [isSeparator] using separator) with
        ⟨name, value, isWord⟩
      exact ⟨name, value, by simpa using isWord, by simp [Bucket.read]⟩
  | case5 front seen counts symbol data atValue other ih =>
      have read := ih (scanning.pushValue atValue (by simpa [isSeparator] using other))
      simpa using read
  | case6 front seen counts symbol data finished =>
      rcases scanning.status with atName | atValue
      · simp [atName] at finished
      · simp [atValue] at finished
  | case7 front seen counts symbol data failed =>
      rcases scanning.status with atName | atValue
      · simp [atName] at failed
      · simp [atValue] at failed

/-- The end of the stream, or of what has come so far. -/
def Brigade.Ends (tail : Brigade) : Prop := tail = [] ∨ ∃ after, tail = .eos :: after

/-- What scanning a brigade with some text before its `tail` finds. -/
def UrlScan.Scans (text : Bytes) (tail : Brigade) : UrlScan → Prop
  | .word counts buckets rest =>
      ∃ name value datas, WordBuckets counts buckets name value ∧ rest = datas ++ tail ∧
        .eos ∉ datas ∧ buckets.content ++ Brigade.content datas = text
  | .incomplete counts bb => Scanning counts bb [] ∧ bb.content = text ∧ tail = []
  | .endOfStream counts bb =>
      ∃ front after, bb = front ++ tail ∧ Scanning counts front [] ∧
        Brigade.content front = text ∧ tail = .eos :: after

theorem parseUrlBrigade_scans {before : Brigade} {counts : UrlCounts} {datas tail : Brigade}
    (scanning : Scanning counts before []) (noEos : .eos ∉ datas) (ends : tail.Ends) :
    (parseUrlBrigade before counts (datas ++ tail)).Scans
      (before.content ++ Brigade.content datas) tail := by
  induction datas generalizing before counts with
  | nil =>
      rcases ends with rfl | ⟨after, rfl⟩
      · exact ⟨scanning, by simp, rfl⟩
      · exact ⟨before, after, rfl, scanning, by simp, rfl⟩
  | cons bucket datas ih =>
      cases bucket with
      | eos => simp at noEos
      | data buffer =>
          have noEos' : .eos ∉ datas := by simpa using noEos
          have scans := parseUrlBucket_scans before [] [] counts buffer (by simpa using scanning)
          simp only [List.append_nil] at scans
          simp only [List.cons_append, parseUrlBrigade]
          cases scanned : parseUrlBucket [] [] counts buffer with
          | through counts' front =>
              rw [scanned] at scans
              have rest := ih scans.1 noEos'
              rw [scans.2] at rest
              simpa [Bucket.read] using rest
          | word counts' front behind =>
              rw [scanned] at scans
              rcases scans with ⟨name, value, isWord, content⟩
              refine ⟨name, value, .data behind :: datas, isWord, rfl, by simpa using noEos', ?_⟩
              rw [Brigade.content_cons, ← List.append_assoc]
              simp only [Bucket.read, content, Brigade.content_cons, List.append_assoc]

/-! ## Copying the bytes of a word -/

theorem takeWord_data {len : Nat} {buffer : Bytes} (fits : buffer.length ≤ len) (pos : 0 < len)
    (bb : Brigade) :
    takeWord len (.data buffer :: bb) =
      (takeWord (len - buffer.length) bb).map fun (taken, rest) => (buffer ++ taken, rest) := by
  rcases Nat.exists_eq_succ_of_ne_zero (Nat.ne_of_gt pos) with ⟨len, rfl⟩
  rw [takeWord, if_pos fits]

/-- Whole buckets are taken; empty ones behind the last byte stay. -/
theorem takeWord_whole {word : Brigade} (noEos : .eos ∉ word) (rest : Brigade) :
    ∃ empty, takeWord word.size (word ++ rest) = some (word.content, empty ++ rest) ∧
      Brigade.content empty = [] ∧ .eos ∉ empty := by
  induction word with
  | nil => exact ⟨[], by simp [takeWord], rfl, by simp⟩
  | cons bucket word ih =>
      cases bucket with
      | eos => simp at noEos
      | data buffer =>
          have noEos' : .eos ∉ word := by simpa using noEos
          rcases ih noEos' with ⟨empty, taken, noBytes, open_⟩
          by_cases none : Brigade.size (.data buffer :: word) = 0
          · have content : Brigade.content (.data buffer :: word) = [] := by
              simpa [Brigade.size] using none
            refine ⟨.data buffer :: word, ?_, content, noEos⟩
            rw [none, content]
            rfl
          · refine ⟨empty, ?_, noBytes, open_⟩
            have size : Brigade.size (.data buffer :: word) - buffer.length =
                Brigade.size word := by
              simp [Bucket.read]
            rw [List.cons_append, takeWord_data (by simp [Bucket.read]) (by omega), size, taken]
            rfl

/-- The end of the stream ends a value that has no separator. -/
theorem takeWord_eos {word : Brigade} (noEos : .eos ∉ word) (after : Brigade) :
    takeWord (word.size + 1) (word ++ .eos :: after) = some (word.content, .eos :: after) := by
  induction word with
  | nil => rfl
  | cons bucket word ih =>
      cases bucket with
      | eos => simp at noEos
      | data buffer =>
          have size : Brigade.size (.data buffer :: word) + 1 - buffer.length =
              Brigade.size word + 1 := by
            simp only [Brigade.size_cons, Bucket.read]
            omega
          rw [List.cons_append, takeWord_data (by simp [Bucket.read]; omega) (by omega), size,
            ih (by simpa using noEos)]
          rfl

/-! ## One word -/

/-- `split_urlword` once the bytes of the word are copied. -/
theorem splitUrlword_of_taken {bb afterName rest : Brigade} {vlen : Nat}
    {name value nameBytes valueBytes : Bytes}
    (named : takeWord (name.length + 1) bb = some (nameBytes, afterName))
    (valued : takeWord (vlen + 1) afterName = some (valueBytes, rest))
    (isName : nameBytes.take name.length = name) (isValue : valueBytes.take vlen = value) :
    splitUrlword env bb ⟨.value, name.length, vlen⟩ =
      some ((wordParam env name value).map fun param => (param, rest)) := by
  unfold splitUrlword wordParam decodePair
  simp only [List.length_eq_zero_iff]
  split
  next => rfl
  next =>
    simp only [named, valued, Option.bind_eq_bind, Option.bind_some, isName, isValue]
    cases env.decodev value with
    | error status => rfl
    | ok value =>
        cases env.decodev name with
        | error status => rfl
        | ok name => rfl

/-- A word with its separator is split off, whatever its buckets are. -/
theorem splitUrlword_word {counts : UrlCounts} {buckets : Brigade} {name value : Bytes}
    (isWord : WordBuckets counts buckets name value) (rest : Brigade) :
    ∃ empty, Brigade.content empty = [] ∧ .eos ∉ empty ∧
      splitUrlword env (buckets ++ rest) counts =
        some ((wordParam env name value).map fun param => (param, empty ++ rest)) := by
  rcases isWord with ⟨rfl, -, -, noEos, nameBuckets, valueBuckets, separator, rfl, isName,
    isValue, -⟩
  rcases not_or.mp (mt List.mem_append.mpr noEos) with ⟨nameOpen, valueOpen⟩
  rcases takeWord_whole nameOpen (valueBuckets ++ rest) with ⟨empty, named, noBytes, emptyOpen⟩
  have nameSize : nameBuckets.size = name.length + 1 := by simp [Brigade.size, isName]
  rw [nameSize, isName] at named
  have bothOpen : .eos ∉ empty ++ valueBuckets := by simp [emptyOpen, valueOpen]
  rcases takeWord_whole bothOpen rest with ⟨empty', valued, noBytes', emptyOpen'⟩
  have bothContent : Brigade.content (empty ++ valueBuckets) = value ++ [separator] := by
    rw [Brigade.content_append, noBytes, isValue, List.nil_append]
  have valueSize : Brigade.size (empty ++ valueBuckets) = value.length + 1 := by
    simp [Brigade.size, bothContent]
  rw [valueSize, bothContent, List.append_assoc] at valued
  refine ⟨empty', noBytes', emptyOpen', ?_⟩
  rw [List.append_assoc]
  exact splitUrlword_of_taken env named valued (by simp) (by simp)

/-- A word at the end of the stream. -/
theorem splitUrlword_last {counts : UrlCounts} {front : Brigade} (after : Brigade)
    (scanning : Scanning counts front []) (atValue : counts.status = .value) :
    ∃ name value, cutAt isEquals front.content = some (name, value) ∧
      splitUrlword env (front ++ .eos :: after) counts =
        some ((wordParam env name value).map fun param => (param, .eos :: after)) := by
  rcases scanning.atValue atValue with
    ⟨nameBuckets, valueBuckets, name, rfl, rfl, isName, noEquals, -, noEos⟩
  rcases not_or.mp (mt List.mem_append.mpr noEos) with ⟨nameOpen, valueOpen⟩
  rcases takeWord_whole nameOpen (valueBuckets ++ .eos :: after) with
    ⟨empty, named, noBytes, emptyOpen⟩
  have nameSize : nameBuckets.size = name.length + 1 := by simp [Brigade.size, isName]
  rw [nameSize, isName] at named
  have bothOpen : .eos ∉ empty ++ valueBuckets := by simp [emptyOpen, valueOpen]
  have bothContent : Brigade.content (empty ++ valueBuckets) = valueBuckets.content := by
    rw [Brigade.content_append, noBytes, List.nil_append]
  have valued := takeWord_eos bothOpen after
  rw [Brigade.size, bothContent, List.append_assoc] at valued
  refine ⟨name, valueBuckets.content, ?_, ?_⟩
  · rw [Brigade.content_append, isName, List.append_assoc]
    exact cutAt_of noEquals (by decide) _
  · rw [List.append_assoc, List.append_nil]
    exact splitUrlword_of_taken env named valued (by simp) (by simp)

/-! ## The parser -/

/-- The text that the scan has passed holds no whole word. -/
theorem Scanning.wordTurn {counts : UrlCounts} {front : Brigade} (t : ParamTable)
    (scanning : Scanning counts front []) :
    RApache.wordTurn env t front.content = .wait t := by
  cases scanning with
  | name noEquals =>
      rw [List.append_nil] at noEquals
      simp only [RApache.wordTurn, cutAt_eq_none.mpr noEquals]
  | @value nameBuckets valueBuckets name seen isName noEquals noSeparator =>
      have named : cutAt isEquals (nameBuckets ++ valueBuckets).content =
          some (name, valueBuckets.content) := by
        rw [Brigade.content_append, isName, List.append_assoc]
        exact cutAt_of noEquals (by decide) _
      rw [List.append_nil] at noSeparator
      simp only [RApache.wordTurn, named, cutAt_eq_none.mpr noSeparator]

/-- The text of a word begins with that word. -/
theorem WordBuckets.wordTurn {counts : UrlCounts} {buckets : Brigade} {name value : Bytes}
    (isWord : WordBuckets counts buckets name value) (t : ParamTable) (behind : Bytes) :
    RApache.wordTurn env t (buckets.content ++ behind) =
      match wordParam env name value with
      | .ok param => .next (t ++ [param]) behind
      | .error status => .stop (status, t) := by
  rcases isWord with ⟨rfl, noEquals, noSeparator, -, nameBuckets, valueBuckets, separator, rfl,
    isName, isValue, separates⟩
  have named : cutAt isEquals ((nameBuckets ++ valueBuckets).content ++ behind) =
      some (name, value ++ separator :: behind) := by
    rw [Brigade.content_append, isName, isValue]
    simp only [List.append_assoc, List.cons_append, List.nil_append]
    exact cutAt_of noEquals (by decide) _
  exact wordTurn_of_cut env named (cutAt_of noSeparator separates behind)

/-- What a run of the parser leaves, from what reading the bytes before `tail` gives. -/
def UrlRun.Reads (run : UrlRun) (tail : Brigade) :
    Reading UInt8 ParamTable (AprStatus × ParamTable) → Prop
  | .stopped (status, t) =>
      run.status = status ∧ run.t = t ∧ run.ctx.status = .error ∧ run.bb = []
  | .waiting t kept =>
      match tail with
      | [] => run.status = .incomplete ∧ run.t = t ∧ run.bb = [] ∧ .eos ∉ run.ctx.bb ∧
          run.ctx.bb.content = kept ∧ (run.ctx.status = .name ∨ run.ctx.status = .value)
      | _ => (run.status, run.t) = formEnd env t kept ∧ ∃ front, run.bb = front ++ tail

theorem parseUrlLoop_reads (t : ParamTable) {datas tail : Brigade} (noEos : .eos ∉ datas)
    (ends : tail.Ends) :
    ∃ run, parseUrlLoop env t (datas ++ tail) = some run ∧
      run.Reads env tail ((formReader env).read t (Brigade.content datas)) := by
  generalize isLength : (Brigade.content datas).length = length
  induction length using Nat.strong_induction_on generalizing t datas with
  | h length ih =>
      have start : Scanning ⟨.name, 0, 0⟩ [] [] :=
        .name (show ∀ symbol ∈ Brigade.content [] ++ [], ¬ isEquals symbol by simp) (by simp)
      have scans := parseUrlBrigade_scans start noEos ends
      rw [Brigade.content_nil, List.nil_append] at scans
      rw [parseUrlLoop]
      split
      next counts bb scanned =>
        rw [scanned] at scans
        rcases scans with ⟨front, after, rfl, scanning, content, rfl⟩
        have waits := (formReader env).read_wait (scanning.wordTurn env t)
        rw [content] at waits
        rw [waits]
        split
        next atName =>
          refine ⟨_, rfl, ?_⟩
          have noEquals := (scanning.atName atName).2.1
          rw [List.append_nil, content] at noEquals
          simp only [UrlRun.Reads, formEnd, cutAt_eq_none.mpr noEquals]
          exact ⟨trivial, front, rfl⟩
        next notName =>
          have atValue := scanning.status.resolve_left notName
          rcases splitUrlword_last env after scanning atValue with ⟨name, value, named, word⟩
          rw [content] at named
          cases isParam : wordParam env name value with
          | error status =>
              simp only [word, isParam, Except.map]
              refine ⟨_, rfl, ?_⟩
              simp only [UrlRun.Reads, formEnd, named, isParam]
              exact ⟨trivial, front, rfl⟩
          | ok param =>
              simp only [word, isParam, Except.map]
              refine ⟨_, rfl, ?_⟩
              simp only [UrlRun.Reads, formEnd, named, isParam]
              exact ⟨trivial, [], rfl⟩
      next counts bb scanned =>
        rw [scanned] at scans
        rcases scans with ⟨scanning, content, rfl⟩
        have waits := (formReader env).read_wait (scanning.wordTurn env t)
        rw [content] at waits
        rw [waits]
        exact ⟨_, rfl, rfl, rfl, rfl, scanning.noEos, content, scanning.status⟩
      next counts buckets rest scanned =>
        rw [scanned] at scans
        rcases scans with ⟨name, value, datas', isWord, rfl, noEos', content⟩
        have turn := isWord.wordTurn env t (Brigade.content datas')
        rw [content] at turn
        rcases splitUrlword_word env isWord (datas' ++ tail) with
          ⟨empty, noBytes, emptyOpen, word⟩
        cases isParam : wordParam env name value with
        | error status =>
            rw [isParam] at turn
            rw [(formReader env).read_stop turn]
            split
            next copied => simp [word, isParam, Except.map] at copied
            next copied =>
              simp only [word, isParam, Except.map, Option.some.injEq, Except.error.injEq] at copied
              exact ⟨_, rfl, copied.symm, rfl, rfl, rfl⟩
            next copied => simp [word, isParam, Except.map] at copied
        | ok param =>
            rw [isParam] at turn
            rw [(formReader env).read_next turn]
            split
            next copied => simp [word, isParam, Except.map] at copied
            next copied => simp [word, isParam, Except.map] at copied
            next copied =>
              simp only [word, isParam, Except.map, Option.some.injEq, Except.ok.injEq,
                Prod.mk.injEq] at copied
              rcases copied with ⟨rfl, rfl⟩
              have shorter := (formReader env).shorter turn
              have content' : Brigade.content (empty ++ datas') = Brigade.content datas' := by
                rw [Brigade.content_append, noBytes, List.nil_append]
              have reads := ih _ (isLength ▸ shorter) (t ++ [param])
                (show .eos ∉ empty ++ datas' by simp [emptyOpen, noEos'])
                (congrArg List.length content')
              rw [content', List.append_assoc] at reads
              exact reads

end RApache
