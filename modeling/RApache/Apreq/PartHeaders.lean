import RApache.Apreq.Headers
import RApache.Library.Search

/-!
# The headers of a part

However a block of header lines is cut into buckets, `apreq_parse_headers` reads these lines and
leaves what comes behind them.
-/

namespace RApache

open Incremental

/-- A header line with its name, the blanks behind the colon, and its value. -/
structure HeaderLine where
  name : Bytes
  gap : Bytes
  value : Bytes
  named : name ≠ []
  isName : ∀ symbol ∈ name, symbol ≠ 58 ∧ symbol ≠ 10
  begins : ∀ symbol ∈ name.head?, symbol ≠ 32 ∧ symbol ≠ 9
  isGap : ∀ symbol ∈ gap, symbol = 32 ∨ symbol = 9
  isValue : ∀ symbol ∈ value, symbol ≠ 10
  beginsValue : ∀ symbol ∈ value.head?, symbol ≠ 32 ∧ symbol ≠ 9
  /-- The entries of the table are C strings. -/
  noNul : 0 ∉ name ∧ 0 ∉ value

namespace HeaderLine

def text (line : HeaderLine) : Bytes :=
  line.name ++ 58 :: (line.gap ++ (line.value ++ [13, 10]))

/-- The entry of the table. -/
def param (line : HeaderLine) : Param := ⟨line.name, line.value, false⟩

/-- The counts of a scan that has read the line. -/
def counts (line : HeaderLine) : HdrCounts :=
  ⟨.newline, line.name.length, line.gap.length + 1, line.value.length + 2⟩

end HeaderLine

/-! ## One line -/

/-- What a scan has found of a line in the buckets that are split off and in the current one, and
what it has not yet read of it. -/
inductive HdrPieces (line : HeaderLine) :
    HdrCounts → (front : Brigade) → (seen todo : Bytes) → Prop where
  | name {front : Brigade} {seen done todo : Bytes} (whole : line.name = done ++ todo)
      (content : front.content ++ seen = done) :
      HdrPieces line ⟨.name, done.length, 0, 0⟩ front seen
        (todo ++ 58 :: (line.gap ++ (line.value ++ [13, 10])))
  | gap {names gaps : Brigade} {seen done todo : Bytes} (whole : line.gap = done ++ todo)
      (name : names.content = line.name) (content : gaps.content ++ seen = 58 :: done) :
      HdrPieces line ⟨.gap, line.name.length, done.length + 1, 0⟩ (names ++ gaps) seen
        (todo ++ (line.value ++ [13, 10]))
  | value {names gaps values : Brigade} {seen done todo : Bytes}
      (whole : line.value ++ [13] = done ++ todo) (name : names.content = line.name)
      (gap : gaps.content = 58 :: line.gap) (content : values.content ++ seen = done) :
      HdrPieces line ⟨.value, line.name.length, line.gap.length + 1, done.length⟩
        (names ++ (gaps ++ values)) seen (todo ++ [10])
  | newline {names gaps values : Brigade} {seen : Bytes} (name : names.content = line.name)
      (gap : gaps.content = 58 :: line.gap)
      (content : values.content ++ seen = line.value ++ [13, 10]) :
      HdrPieces line line.counts (names ++ (gaps ++ values)) seen []

variable {line : HeaderLine}

/-- At the end of a bucket. -/
theorem HdrPieces.bucket {counts : HdrCounts} {front : Brigade} {seen todo : Bytes}
    (pieces : HdrPieces line counts front seen todo) :
    HdrPieces line counts (front ++ [.data seen]) [] todo := by
  cases pieces with
  | name whole content => exact .name whole (by simpa [Bucket.read] using content)
  | @gap names gaps _ _ _ whole name content =>
      rw [List.append_assoc]
      exact .gap whole name (by simpa [Bucket.read] using content)
  | @value names gaps values _ _ _ whole name gap content =>
      rw [List.append_assoc, List.append_assoc]
      exact .value whole name gap (by simpa [Bucket.read] using content)
  | @newline names gaps values _ name gap content =>
      rw [List.append_assoc, List.append_assoc]
      exact .newline name gap (by simpa [Bucket.read] using content)

theorem splitBefore_content (front : Brigade) (seen : Bytes) :
    (splitBefore front seen).content = front.content ++ seen := by
  unfold splitBefore
  split
  next empty => simp [empty]
  next => simp [Bucket.read]

theorem splitBefore_open {front : Brigade} (open_ : .eos ∉ front) (seen : Bytes) :
    .eos ∉ splitBefore front seen := by
  unfold splitBefore
  split
  next => exact open_
  next => simpa using open_

theorem splitBefore_append (before front : Brigade) (seen : Bytes) :
    splitBefore (before ++ front) seen = before ++ splitBefore front seen := by
  unfold splitBefore
  split
  next => rfl
  next => rw [List.append_assoc]

/-- The first byte behind the gap. -/
theorem HeaderLine.value_first (line : HeaderLine) :
    ∃ first rest, line.value ++ [13] = first :: rest ∧ first ≠ 32 ∧ first ≠ 9 ∧ first ≠ 10 := by
  cases isValue : line.value with
  | nil => exact ⟨13, [], rfl, by decide, by decide, by decide⟩
  | cons first rest =>
      have begins := line.beginsValue first (by simp [isValue])
      exact ⟨first, rest ++ [13], rfl, begins.1, begins.2, line.isValue first (by simp [isValue])⟩

/-- One byte of the line. -/
theorem parseHdrBucket_step {counts : HdrCounts} {before front : Brigade} {seen todo : Bytes}
    {symbol : UInt8} (pieces : HdrPieces line counts (before ++ front) seen (symbol :: todo))
    (open_ : .eos ∉ front) :
    ∃ counts' front' seen', HdrPieces line counts' (before ++ front') seen' todo ∧
      .eos ∉ front' ∧ ∀ data, parseHdrBucket front seen counts (symbol :: data) =
        parseHdrBucket front' seen' counts' data := by
  have split := splitBefore_content front seen
  have opens := splitBefore_open open_ seen
  generalize isFront : before ++ front = all at pieces
  generalize isTodo : symbol :: todo = text at pieces
  cases pieces with
  | @name _ _ done rest whole content =>
      subst isFront
      rw [Brigade.content_append, List.append_assoc] at content
      cases rest with
      | nil =>
          -- The colon begins the gap.
          cases isTodo
          rw [List.append_nil] at whole
          have pieces := @HdrPieces.gap line (before ++ splitBefore front seen) [] [58] [] line.gap
            rfl (by rw [Brigade.content_append, split, content, whole]) rfl
          rw [whole, List.append_nil] at pieces
          exact ⟨_, _, _, pieces, opens, fun data => rfl⟩
      | cons first rest =>
          cases isTodo
          have plain := line.isName symbol (by simp [whole])
          have pieces := @HdrPieces.name line (before ++ front) (seen ++ [symbol])
            (done ++ [symbol]) rest (by simp [whole]) (by simp [← content])
          rw [List.length_append, List.length_singleton] at pieces
          refine ⟨_, _, _, pieces, open_, fun data => ?_⟩
          simp [parseHdrBucket, byte, plain.1, plain.2]
  | @gap names gaps _ done rest whole name content =>
      cases rest with
      | nil =>
          -- The first byte that is not blank begins the value.
          rcases line.value_first with ⟨first, rest, isValue, notBlank, notTab, notNewline⟩
          have split' : before ++ splitBefore front seen =
              names ++ (splitBefore gaps seen ++ []) := by
            rw [List.append_nil, ← splitBefore_append, isFront, splitBefore_append]
          have pieces := @HdrPieces.value line names (splitBefore gaps seen) [] [first] [first] rest
            isValue name (by rw [splitBefore_content, content, whole, List.append_nil]) rfl
          have isText : line.value ++ [13, 10] = (line.value ++ [13]) ++ [10] := by simp
          rw [isText, isValue] at isTodo
          cases isTodo
          rw [← split'] at pieces
          rw [List.append_nil] at whole
          refine ⟨_, _, _, pieces, opens, fun data => ?_⟩
          simp [parseHdrBucket, byte, notBlank, notTab, notNewline, whole]
      | cons first rest =>
          cases isTodo
          have blank := line.isGap symbol (by simp [whole])
          have pieces := @HdrPieces.gap line names gaps (seen ++ [symbol]) (done ++ [symbol]) rest
            (by simp [whole]) name (by simp [← List.append_assoc, content])
          rw [List.length_append, List.length_singleton, ← isFront] at pieces
          refine ⟨_, _, _, pieces, open_, fun data => ?_⟩
          simp [parseHdrBucket, byte, blank]
  | @value names gaps values _ done rest whole name gap content =>
      cases rest with
      | nil =>
          cases isTodo
          rw [List.append_nil] at whole
          have pieces := @HdrPieces.newline line names gaps values (seen ++ [10]) name gap
            (by rw [← List.append_assoc, content, ← whole]; simp)
          rw [← isFront] at pieces
          refine ⟨_, _, _, pieces, open_, fun data => ?_⟩
          have length := congrArg List.length whole
          simp only [List.length_append, List.length_singleton] at length
          simp [parseHdrBucket, byte, HeaderLine.counts, ← length]
      | cons first rest =>
          cases isTodo
          have notNewline : symbol ≠ 10 := by
            have isSymbol : symbol ∈ line.value ++ [13] := by simp [whole]
            rcases List.mem_append.mp isSymbol with isSymbol | isSymbol
            · exact line.isValue symbol isSymbol
            · rw [List.mem_singleton.mp isSymbol]
              decide
          have pieces := @HdrPieces.value line names gaps values (seen ++ [symbol])
            (done ++ [symbol]) rest (by simp [whole]) name gap
            (by rw [← List.append_assoc, content])
          rw [List.length_append, List.length_singleton, ← isFront] at pieces
          refine ⟨_, _, _, pieces, open_, fun data => ?_⟩
          simp [parseHdrBucket, byte, notNewline]
  | newline => cases isTodo

/-- A first part of a text ends before a place in it or behind it. -/
theorem append_eq_append_cons {left right text behind : Bytes} {symbol : UInt8}
    (same : left ++ right = text ++ symbol :: behind) :
    (∃ text', text = left ++ text' ∧ right = text' ++ symbol :: behind) ∨
      ∃ left', left = text ++ symbol :: left' ∧ behind = left' ++ right := by
  rcases List.append_eq_append_iff.mp same with ⟨text', isText, isRight⟩ | ⟨left', isLeft, isRest⟩
  · exact .inl ⟨text', isText, isRight⟩
  · cases left' with
    | nil => exact .inl ⟨[], by simpa using isLeft.symm, by simpa using isRest.symm⟩
    | cons first left' =>
        rw [List.cons_append] at isRest
        cases isRest
        exact .inr ⟨left', isLeft, rfl⟩

/-- A bucket inside the line. -/
theorem parseHdrBucket_inside {counts : HdrCounts} {before front : Brigade} {seen todo : Bytes}
    (data : Bytes) (pieces : HdrPieces line counts (before ++ front) seen (data ++ todo))
    (open_ : .eos ∉ front) :
    ∃ counts' front', parseHdrBucket front seen counts data = .through counts' front' ∧
      HdrPieces line counts' (before ++ front') [] todo ∧ .eos ∉ front' := by
  induction data generalizing counts front seen with
  | nil =>
      refine ⟨counts, front ++ [.data seen], by rw [parseHdrBucket], ?_, by simpa using open_⟩
      rw [← List.append_assoc]
      exact pieces.bucket
  | cons symbol data ih =>
      rcases parseHdrBucket_step pieces open_ with ⟨counts', front', seen', pieces', open', step⟩
      rw [step]
      exact ih pieces' open'

/-- A bucket with the end of the line and a byte behind it. -/
theorem parseHdrBucket_line {counts : HdrCounts} {before front : Brigade} {seen todo : Bytes}
    (pieces : HdrPieces line counts (before ++ front) seen todo) (open_ : .eos ∉ front)
    {next : UInt8} (notBlank : next ≠ 32 ∧ next ≠ 9) (behind : Bytes) :
    ∃ front', parseHdrBucket front seen counts (todo ++ next :: behind) =
        .line line.counts front' (next :: behind) ∧
      HdrPieces line line.counts (before ++ front') [] [] ∧ .eos ∉ front' := by
  induction todo generalizing counts front seen with
  | nil =>
      generalize isFront : before ++ front = all at pieces
      generalize isTodo : ([] : Bytes) = todo at pieces
      cases pieces with
      | name => simp at isTodo
      | gap => simp at isTodo
      | value => simp at isTodo
      | @newline names gaps values _ name gap content =>
          refine ⟨splitBefore front seen, ?_, ?_, splitBefore_open open_ seen⟩
          · simp [parseHdrBucket, HeaderLine.counts, byte, notBlank]
          · rw [← splitBefore_append, isFront, splitBefore_append, splitBefore_append]
            exact .newline name gap (by rw [splitBefore_content, List.append_nil, content])
  | cons symbol todo ih =>
      rcases parseHdrBucket_step pieces open_ with ⟨counts', front', seen', pieces', open', step⟩
      rw [List.cons_append, step]
      exact ih pieces' open'

/-- A brigade inside the line. -/
theorem parseHdrBrigade_inside {counts : HdrCounts} {before : Brigade} {todo : Bytes}
    (rest : Brigade) (pieces : HdrPieces line counts before [] (rest.content ++ todo))
    (open_ : .eos ∉ before) (openRest : .eos ∉ rest) :
    ∃ counts' bb, parseHdrBrigade before counts rest = .incomplete counts' bb ∧
      HdrPieces line counts' bb [] todo ∧ .eos ∉ bb := by
  induction rest generalizing counts before with
  | nil => exact ⟨counts, before, rfl, pieces, open_⟩
  | cons bucket rest ih =>
      have openTail : .eos ∉ rest := fun isEos => openRest (List.mem_cons_of_mem _ isEos)
      cases bucket with
      | eos => simp at openRest
      | data buffer =>
          rw [Brigade.content_cons, Bucket.read, List.append_assoc, ← List.append_nil before] at pieces
          rcases parseHdrBucket_inside buffer pieces (by simp) with
            ⟨counts', front', through, pieces', open'⟩
          rw [parseHdrBrigade, through]
          exact ih pieces' (by simp [open_, open']) openTail

/-- A brigade with the end of the line and a byte behind it. -/
theorem parseHdrBrigade_line {counts : HdrCounts} {before : Brigade} {todo : Bytes}
    {rest : Brigade} (pieces : HdrPieces line counts before [] todo) (open_ : .eos ∉ before)
    (openRest : .eos ∉ rest) {next : UInt8} (notBlank : next ≠ 32 ∧ next ≠ 9) {behind : Bytes}
    (content : rest.content = todo ++ next :: behind) :
    ∃ front tail, parseHdrBrigade before counts rest = .line line.counts (front ++ tail) ∧
      HdrPieces line line.counts front [] [] ∧ tail.content = next :: behind ∧
        .eos ∉ front ++ tail := by
  induction rest generalizing counts before todo with
  | nil => simp at content
  | cons bucket rest ih =>
      have openTail : .eos ∉ rest := fun isEos => openRest (List.mem_cons_of_mem _ isEos)
      cases bucket with
      | eos => simp at openRest
      | data buffer =>
          rw [Brigade.content_cons, Bucket.read] at content
          rw [← List.append_nil before] at pieces
          rw [parseHdrBrigade]
          rcases append_eq_append_cons content with ⟨todo', rfl, content'⟩ | ⟨data, rfl, rfl⟩
          · rcases parseHdrBucket_inside buffer pieces (by simp) with
              ⟨counts', front', through, pieces', open'⟩
            rw [through]
            exact ih pieces' (by simp [open_, open']) openTail content'
          · rcases parseHdrBucket_line pieces (by simp) notBlank data with
              ⟨front', isLine, pieces', open'⟩
            rw [isLine]
            refine ⟨before ++ front', .data (next :: data) :: rest, rfl, pieces', ?_, ?_⟩
            · simp [Bucket.read]
            · simp [open_, open', openTail]

/-! ## The empty line -/

/-- A text that may be part of a name. -/
def NamePart (text : Bytes) : Prop := ∀ symbol ∈ text, symbol ≠ 58 ∧ symbol ≠ 10

theorem parseHdrBucket_name {counts : HdrCounts} (atName : counts.status = .name)
    (front : Brigade) (seen : Bytes) {data : Bytes} (plain : NamePart data) :
    ∃ counts', counts'.status = .name ∧
      parseHdrBucket front seen counts data = .through counts' (front ++ [.data (seen ++ data)]) ∧
      ∀ behind, parseHdrBucket front seen counts (data ++ 10 :: behind) = .emptyLine behind := by
  induction data generalizing counts seen with
  | nil =>
      refine ⟨counts, atName, by simp [parseHdrBucket], fun behind => ?_⟩
      simp [parseHdrBucket, atName, byte]
  | cons symbol data ih =>
      have first := plain symbol List.mem_cons_self
      have later := @ih { counts with nlen := counts.nlen + 1 } atName (seen ++ [symbol])
        fun symbol isSymbol => plain symbol (List.mem_cons_of_mem _ isSymbol)
      have step (data : Bytes) : parseHdrBucket front seen counts (symbol :: data) =
          parseHdrBucket front (seen ++ [symbol]) { counts with nlen := counts.nlen + 1 } data := by
        simp [parseHdrBucket, atName, byte, first]
      rcases later with ⟨counts', atName', through, emptyLine⟩
      refine ⟨counts', atName', ?_, fun behind => ?_⟩
      · rw [step, through, List.append_assoc]
        rfl
      · rw [List.cons_append, step, emptyLine]

/-- A brigade that ends before the end of the first line. -/
theorem parseHdrBrigade_name {counts : HdrCounts} (atName : counts.status = .name)
    {before : Brigade} (rest : Brigade) (plain : NamePart rest.content) (open_ : .eos ∉ before)
    (openRest : .eos ∉ rest) :
    ∃ counts' bb, parseHdrBrigade before counts rest = .incomplete counts' bb ∧
      counts'.status = .name ∧ bb.content = before.content ++ rest.content ∧ .eos ∉ bb := by
  induction rest generalizing counts before with
  | nil => exact ⟨counts, before, rfl, atName, by simp, open_⟩
  | cons bucket rest ih =>
      have openTail : .eos ∉ rest := fun isEos => openRest (List.mem_cons_of_mem _ isEos)
      cases bucket with
      | eos => simp at openRest
      | data buffer =>
          rw [Brigade.content_cons, Bucket.read] at plain ⊢
          have first : NamePart buffer := fun symbol isSymbol =>
            plain symbol (List.mem_append_left _ isSymbol)
          rcases parseHdrBucket_name atName [] [] first with ⟨counts', atName', through, -⟩
          have later := @ih counts' atName' (before ++ [.data buffer])
            (fun symbol isSymbol => plain symbol (List.mem_append_right _ isSymbol))
            (by simp [open_]) openTail
          rw [parseHdrBrigade, through]
          simpa [Bucket.read] using later

/-- A brigade with the empty line. -/
theorem parseHdrBrigade_empty {counts : HdrCounts} (atName : counts.status = .name)
    (before : Brigade) {rest : Brigade} {text behind : Bytes} (plain : NamePart text)
    (openRest : .eos ∉ rest) (content : rest.content = text ++ 10 :: behind) :
    ∃ tail, parseHdrBrigade before counts rest = .endOfBlock tail ∧ tail.content = behind ∧
      .eos ∉ tail := by
  induction rest generalizing counts before text with
  | nil => simp at content
  | cons bucket rest ih =>
      have openTail : .eos ∉ rest := fun isEos => openRest (List.mem_cons_of_mem _ isEos)
      cases bucket with
      | eos => simp at openRest
      | data buffer =>
          rw [Brigade.content_cons, Bucket.read] at content
          rcases append_eq_append_cons content with ⟨text', rfl, content'⟩ | ⟨data, rfl, rfl⟩
          · have first : NamePart buffer := fun symbol isSymbol =>
              plain symbol (List.mem_append_left _ isSymbol)
            rcases parseHdrBucket_name atName [] [] first with ⟨counts', atName', through, -⟩
            rw [parseHdrBrigade, through]
            exact ih atName' _ (fun symbol isSymbol =>
              plain symbol (List.mem_append_right _ isSymbol)) openTail content'
          · rcases parseHdrBucket_name atName [] [] plain with ⟨-, -, -, emptyLine⟩
            rw [parseHdrBrigade, emptyLine]
            simp only
            split
            next empty => exact ⟨rest, rfl, by simp [empty], openTail⟩
            next => exact ⟨_, rfl, by simp [Bucket.read], by simpa using openTail⟩

/-! ## Copying the line -/

/-- Buckets that hold as many bytes as are asked for. -/
theorem takeBuckets_of {front : Brigade} (open_ : .eos ∉ front) (rest : Brigade) :
    ∃ left, takeBuckets front.size (front ++ rest) = some (front.content, left ++ rest) ∧
      left.content = [] ∧ .eos ∉ left := by
  induction front with
  | nil => exact ⟨[], by simp [takeBuckets], rfl, by simp⟩
  | cons bucket front ih =>
      have openTail : .eos ∉ front := fun isEos => open_ (List.mem_cons_of_mem _ isEos)
      rcases ih openTail with ⟨left, taken, empty, openLeft⟩
      rw [Brigade.size_cons, List.cons_append]
      cases size : bucket.read.length + Brigade.size front with
      | zero =>
          have noBytes : Brigade.content (bucket :: front) = [] := by
            rw [← List.length_eq_zero_iff, Brigade.content_cons, List.length_append]
            exact size
          exact ⟨bucket :: front, by rw [noBytes]; rfl, noBytes, open_⟩
      | succ len =>
          refine ⟨left, ?_, empty, openLeft⟩
          have others : len + 1 - bucket.read.length = Brigade.size front := by omega
          rw [takeBuckets, if_pos (by omega), others, taken]
          rfl

theorem dropCrlf_crlf (value : Bytes) : dropCrlf (value ++ [13, 10]) = value := by
  have last : (value ++ [13, 10]).dropLast = value ++ [13] := by
    rw [show value ++ [13, 10] = value ++ [13] ++ [10] by simp, List.dropLast_concat]
  rw [dropCrlf, last, List.getLast?_concat, if_pos (by decide), List.dropLast_concat]

theorem of_guard {p : Prop} [Decidable p] {done : Unit} (passed : guard p = some done) : p := by
  unfold guard at passed
  split at passed
  next holds => exact holds
  next => cases passed

/-- A line whose name, gap and value are taken one after the other. -/
theorem splitHeaderLine_taken {bb afterName afterGap rest : Brigade} {counts : HdrCounts}
    {name gap value : Bytes} (named : counts.nlen ≠ 0)
    (readName : takeBuckets counts.nlen bb = some (name, afterName))
    (readGap : takeBuckets counts.glen afterName = some (gap, afterGap)) (valued : 0 < counts.vlen)
    (readValue : takeBuckets counts.vlen afterGap = some (value, rest))
    (ended : value.getLast? = some (byte '\n')) :
    splitHeaderLine bb counts = some (.ok (⟨name, dropCrlf value, false⟩, rest)) := by
  rw [splitHeaderLine, if_neg named]
  refine Option.bind_eq_some_iff.mpr ⟨_, readName, ?_⟩
  refine Option.bind_eq_some_iff.mpr ⟨_, readGap, ?_⟩
  refine Option.bind_eq_some_iff.mpr ⟨(), if_pos valued, ?_⟩
  refine Option.bind_eq_some_iff.mpr ⟨_, readValue, ?_⟩
  exact Option.bind_eq_some_iff.mpr ⟨(), if_pos ended, rfl⟩

/-- The line is copied into a parameter, and what comes behind it is left. -/
theorem splitHeaderLine_of {front tail : Brigade}
    (pieces : HdrPieces line line.counts front [] []) (open_ : .eos ∉ front ++ tail) :
    ∃ rest, splitHeaderLine (front ++ tail) line.counts = some (.ok (line.param, rest)) ∧
      rest.content = tail.content ∧ .eos ∉ rest := by
  generalize isTodo : ([] : Bytes) = todo at pieces
  generalize isCounts : line.counts = counts at pieces
  cases pieces with
  | name => simp at isTodo
  | gap => simp at isTodo
  | value => simp at isTodo
  | @newline names gaps values _ name gap content =>
      rw [List.append_nil] at content
      simp only [List.mem_append, not_or] at open_
      rcases open_ with ⟨⟨openNames, openGaps, openValues⟩, openTail⟩
      have nameSize : names.size = line.name.length := by rw [Brigade.size, name]
      rcases takeBuckets_of openNames (gaps ++ values ++ tail) with ⟨left, taken, empty, openLeft⟩
      have gapSize : Brigade.size (left ++ gaps) = line.gap.length + 1 := by
        simp [Brigade.size, empty, gap]
      rcases @takeBuckets_of (left ++ gaps) (by simp [openLeft, openGaps]) (values ++ tail) with
        ⟨left', taken', empty', openLeft'⟩
      have valueSize : Brigade.size (left' ++ values) = line.value.length + 2 := by
        simp [Brigade.size, empty', content]
      rcases @takeBuckets_of (left' ++ values) (by simp [openLeft', openValues]) tail with
        ⟨left'', taken'', empty'', openLeft''⟩
      refine ⟨left'' ++ tail, ?_, by simp [empty''], by simp [openLeft'', openTail]⟩
      have named : line.counts.nlen ≠ 0 := by simpa [HeaderLine.counts] using line.named
      rw [nameSize] at taken
      rw [gapSize] at taken'
      rw [valueSize] at taken''
      simp only [List.append_assoc] at taken taken' taken'' ⊢
      have isName : names.content = line.name := name
      have isValue : Brigade.content (left' ++ values) = line.value ++ [13, 10] := by
        simp [empty', content]
      have last : (line.value ++ [13, 10]).getLast? = some (byte '\n') := by
        rw [List.getLast?_append]
        rfl
      rw [splitHeaderLine_taken named taken taken' (Nat.succ_pos _) taken'' (isValue ▸ last), isName,
        isValue, dropCrlf_crlf]
      rfl

/-! ## The block -/

/-- The lines of a part and the empty line behind them. -/
def blockText (lines : List HeaderLine) : Bytes := lines.flatMap HeaderLine.text ++ [13, 10]

theorem blockText_cons (line : HeaderLine) (lines : List HeaderLine) :
    blockText (line :: lines) = line.text ++ blockText lines := by
  simp [blockText]

/-- No line and no block begins with a blank. -/
theorem blockText_first (lines : List HeaderLine) (behind : Bytes) :
    ∃ next rest, blockText lines ++ behind = next :: rest ∧ next ≠ 32 ∧ next ≠ 9 := by
  cases lines with
  | nil => exact ⟨13, 10 :: behind, rfl, by decide, by decide⟩
  | cons line lines =>
      cases isName : line.name with
      | nil => exact absurd isName line.named
      | cons next name =>
          have begins := line.begins next (by simp [isName])
          exact ⟨next, _, by rw [blockText_cons, HeaderLine.text, isName]; rfl, begins⟩

/-- What a run of the parser makes of the beginning of a block, when `future` is still to come. -/
inductive HdrRun.Read (t : ParamTable) (lines : List HeaderLine) (behind future : Bytes)
    (run : HdrRun) : Prop where
  | done (status : run.status = .success) (table : run.t = t ++ lines.map HeaderLine.param)
      (content : run.bb.content ++ future = behind) (open_ : .eos ∉ run.bb)
  | waiting {read left : List HeaderLine} (whole : lines = read ++ left)
      (status : run.status = .incomplete) (table : run.t = t ++ read.map HeaderLine.param)
      (empty : run.bb = []) (content : run.ctx.bb.content ++ future = blockText left ++ behind)
      (open_ : .eos ∉ run.ctx.bb) (active : run.ctx.status ≠ .complete ∧ run.ctx.status ≠ .error)
      (more : future ≠ [])

theorem HdrPieces.active {counts : HdrCounts} {front : Brigade} {seen todo : Bytes}
    (pieces : HdrPieces line counts front seen todo) :
    counts.status ≠ .complete ∧ counts.status ≠ .error := by
  cases pieces with
  | name | gap | value | newline => exact ⟨by simp [HeaderLine.counts], by simp [HeaderLine.counts]⟩

theorem HdrPieces.content {counts : HdrCounts} {front : Brigade} {seen todo : Bytes}
    (pieces : HdrPieces line counts front seen todo) :
    front.content ++ seen ++ todo = line.text := by
  cases pieces with
  | name whole content => rw [content, ← List.append_assoc, ← whole, HeaderLine.text]
  | @gap names gaps _ done rest whole name content =>
      rw [Brigade.content_append, List.append_assoc names.content, content, name, HeaderLine.text,
        whole]
      simp
  | @value names gaps values _ done rest whole name gap content =>
      have text : line.value ++ [13, 10] = done ++ (rest ++ [10]) := by
        rw [← List.append_assoc, ← whole]
        simp
      simp [name, gap, HeaderLine.text, text, ← content]
  | newline name gap content => simp [name, gap, HeaderLine.text, ← content]

theorem HdrPieces.start (line : HeaderLine) :
    HdrPieces line ⟨.name, 0, 0, 0⟩ [] [] line.text :=
  @HdrPieces.name line [] [] [] line.name rfl rfl

theorem parseHdrLoop_endOfBlock {ctxBb rest : Brigade}
    (scanned : parseHdrBrigade [] ⟨.name, 0, 0, 0⟩ ctxBb = .endOfBlock rest) (t : ParamTable) :
    parseHdrLoop t ctxBb = some ⟨.success, ⟨[], .complete⟩, t, rest⟩ := by
  rw [parseHdrLoop]
  split
  next scanned' =>
    rw [scanned] at scanned'
    cases scanned'
  next scanned' =>
    rw [scanned] at scanned'
    cases scanned'
    rfl
  next scanned' =>
    rw [scanned] at scanned'
    cases scanned'
  next scanned' =>
    rw [scanned] at scanned'
    cases scanned'

theorem parseHdrLoop_incomplete {ctxBb ctxBb' : Brigade} {counts : HdrCounts}
    (scanned : parseHdrBrigade [] ⟨.name, 0, 0, 0⟩ ctxBb = .incomplete counts ctxBb')
    (t : ParamTable) :
    parseHdrLoop t ctxBb = some ⟨.incomplete, ⟨ctxBb', counts.status⟩, t, []⟩ := by
  rw [parseHdrLoop]
  split
  next scanned' =>
    rw [scanned] at scanned'
    cases scanned'
  next scanned' =>
    rw [scanned] at scanned'
    cases scanned'
  next scanned' =>
    rw [scanned] at scanned'
    cases scanned'
    rfl
  next scanned' =>
    rw [scanned] at scanned'
    cases scanned'

theorem parseHdrLoop_line {ctxBb ctxBb' rest : Brigade} {counts : HdrCounts} {param : Param}
    (scanned : parseHdrBrigade [] ⟨.name, 0, 0, 0⟩ ctxBb = .line counts ctxBb')
    (copied : splitHeaderLine ctxBb' counts = some (.ok (param, rest))) (t : ParamTable) :
    parseHdrLoop t ctxBb = parseHdrLoop (t ++ [param]) rest := by
  rw [parseHdrLoop]
  split
  next scanned' =>
    rw [scanned] at scanned'
    cases scanned'
  next scanned' =>
    rw [scanned] at scanned'
    cases scanned'
  next scanned' =>
    rw [scanned] at scanned'
    cases scanned'
  next scanned' =>
    rw [scanned] at scanned'
    cases scanned'
    split
    next copied' =>
      rw [copied] at copied'
      cases copied'
    next copied' =>
      rw [copied] at copied'
      cases copied'
    next copied' =>
      rw [copied] at copied'
      cases copied'
      rfl

/-! ## What comes behind the block -/

theorem parseHdrBrigade_endOfBlock_append {before : Brigade} {counts : HdrCounts}
    {rest tail : Brigade} (scanned : parseHdrBrigade before counts rest = .endOfBlock tail)
    (more : Brigade) :
    parseHdrBrigade before counts (rest ++ more) = .endOfBlock (tail ++ more) := by
  induction rest generalizing before counts with
  | nil => cases scanned
  | cons bucket rest ih =>
      cases bucket with
      | eos => cases scanned
      | data buffer =>
          rw [parseHdrBrigade] at scanned
          rw [List.cons_append, parseHdrBrigade]
          cases found : parseHdrBucket [] [] counts buffer with
          | through counts' front =>
              rw [found] at scanned
              exact ih scanned
          | emptyLine behind =>
              rw [found] at scanned
              cases scanned
              by_cases empty : behind = []
              · simp [empty]
              · simp [empty]
          | line =>
              rw [found] at scanned
              cases scanned

theorem parseHdrBrigade_line_append {before : Brigade} {counts counts' : HdrCounts}
    {rest bb : Brigade} (scanned : parseHdrBrigade before counts rest = .line counts' bb)
    (more : Brigade) :
    parseHdrBrigade before counts (rest ++ more) = .line counts' (bb ++ more) := by
  induction rest generalizing before counts with
  | nil => cases scanned
  | cons bucket rest ih =>
      cases bucket with
      | eos => cases scanned
      | data buffer =>
          rw [parseHdrBrigade] at scanned
          rw [List.cons_append, parseHdrBrigade]
          cases found : parseHdrBucket [] [] counts buffer with
          | through counts' front =>
              rw [found] at scanned
              exact ih scanned
          | emptyLine behind =>
              rw [found] at scanned
              cases scanned
          | line =>
              rw [found] at scanned
              cases scanned
              simp

theorem takeBuckets_append {len : Nat} {bb rest : Brigade} {taken : Bytes}
    (reached : takeBuckets len bb = some (taken, rest)) (more : Brigade) :
    takeBuckets len (bb ++ more) = some (taken, rest ++ more) := by
  induction bb generalizing len taken rest with
  | nil =>
      cases len with
      | zero =>
          simp only [takeBuckets, Option.some.injEq, Prod.mk.injEq] at reached
          simp [takeBuckets, ← reached.1, ← reached.2]
      | succ len => simp [takeBuckets] at reached
  | cons bucket bb ih =>
      cases len with
      | zero =>
          simp only [takeBuckets, Option.some.injEq, Prod.mk.injEq] at reached
          simp [takeBuckets, ← reached.1, ← reached.2]
      | succ len =>
          simp only [takeBuckets] at reached
          rw [List.cons_append, takeBuckets]
          split at reached
          next fits =>
            simp only [Option.map_eq_some_iff, Prod.exists, Prod.mk.injEq] at reached
            rcases reached with ⟨taken', rest', reached, rfl, rfl⟩
            rw [if_pos fits, ih reached]
            rfl
          next => cases reached

theorem splitHeaderLine_append {bb rest : Brigade} {counts : HdrCounts} {param : Param}
    (copied : splitHeaderLine bb counts = some (.ok (param, rest))) (more : Brigade) :
    splitHeaderLine (bb ++ more) counts = some (.ok (param, rest ++ more)) := by
  unfold splitHeaderLine at copied
  by_cases unnamed : counts.nlen = 0
  · rw [if_pos unnamed] at copied
    cases copied
  · rw [if_neg unnamed] at copied
    rcases Option.bind_eq_some_iff.mp copied with ⟨⟨name, afterName⟩, readName, copied⟩
    rcases Option.bind_eq_some_iff.mp copied with ⟨⟨gap, afterGap⟩, readGap, copied⟩
    rcases Option.bind_eq_some_iff.mp copied with ⟨_, valued, copied⟩
    rcases Option.bind_eq_some_iff.mp copied with ⟨⟨value, afterValue⟩, readValue, copied⟩
    rcases Option.bind_eq_some_iff.mp copied with ⟨_, ended, isLine⟩
    cases isLine
    exact splitHeaderLine_taken unnamed (takeBuckets_append readName more)
      (takeBuckets_append readGap more) (of_guard valued) (takeBuckets_append readValue more)
      (of_guard ended)

/-- The parser reads the lines of a block that begins the brigade, as far as they have come.  What
is behind the end of the block does not matter. -/
theorem parseHdrLoop_reads (t : ParamTable) (lines : List HeaderLine) {behind future : Bytes}
    {ctxBb : Brigade} (open_ : .eos ∉ ctxBb)
    (content : ctxBb.content ++ future = blockText lines ++ behind) :
    ∃ run, parseHdrLoop t ctxBb = some run ∧ run.Read t lines behind future ∧
      (run.status = .success → ∀ more,
        parseHdrLoop t (ctxBb ++ more) = some { run with bb := run.bb ++ more }) := by
  induction lines generalizing t ctxBb with
  | nil =>
      have isText : ctxBb.content ++ future = [13] ++ 10 :: behind := content
      have plain : NamePart [13] := by simp [NamePart]
      rcases append_eq_append_cons isText with ⟨text', isCr, isFuture⟩ | ⟨left, isContent, isRest⟩
      · have plainContent : NamePart ctxBb.content := fun symbol isSymbol =>
          plain symbol (isCr ▸ List.mem_append_left _ isSymbol)
        rcases @parseHdrBrigade_name ⟨.name, 0, 0, 0⟩ rfl [] ctxBb plainContent (by simp) open_ with
          ⟨counts', bb, scanned, atName, isBb, openBb⟩
        refine ⟨_, parseHdrLoop_incomplete scanned t, ?_, by simp⟩
        refine @HdrRun.Read.waiting t [] behind future _ [] [] rfl rfl (by simp) rfl ?_ openBb
          (by simp [atName]) (by simp [isFuture])
        simpa [isBb] using content
      · rcases @parseHdrBrigade_empty ⟨.name, 0, 0, 0⟩ rfl [] ctxBb [13] left plain open_ isContent
          with ⟨tail, scanned, isTail, openTail⟩
        exact ⟨_, parseHdrLoop_endOfBlock scanned t, .done rfl (by simp) (by simp [isTail, isRest])
          openTail, fun _ more =>
            parseHdrLoop_endOfBlock (parseHdrBrigade_endOfBlock_append scanned more) t⟩
  | cons line lines ih =>
      rcases blockText_first lines behind with ⟨next, rest, isRest, notBlank⟩
      rw [blockText_cons, List.append_assoc, isRest] at content
      rcases append_eq_append_cons content with
        ⟨text', isText, isFuture⟩ | ⟨left, isContent, isRest'⟩
      · have pieces := HdrPieces.start line
        rw [isText] at pieces
        rcases parseHdrBrigade_inside ctxBb pieces (by simp) open_ with
          ⟨counts', bb, scanned, pieces', openBb⟩
        refine ⟨_, parseHdrLoop_incomplete scanned t, ?_, by simp⟩
        have isBb := pieces'.content
        rw [List.append_nil] at isBb
        refine @HdrRun.Read.waiting t (line :: lines) behind future _ [] (line :: lines) rfl rfl
          (by simp) rfl ?_ openBb pieces'.active (by simp [isFuture])
        rw [isFuture, blockText_cons, ← isBb, List.append_assoc, List.append_assoc, ← isRest,
          ← List.append_assoc, ← List.append_assoc]
      · rcases parseHdrBrigade_line (HdrPieces.start line) (by simp) open_ notBlank isContent with
          ⟨front, tail, scanned, pieces, isTail, openTail⟩
        rcases splitHeaderLine_of pieces openTail with ⟨rest', copied, isRest'', openRest⟩
        rw [parseHdrLoop_line scanned copied]
        rcases ih (t ++ [line.param]) openRest
          (by rw [isRest'', isTail, isRest, isRest', List.cons_append]) with
          ⟨run, parsed, read, behind'⟩
        refine ⟨run, parsed, ?_, fun success more => ?_⟩
        · cases read with
          | done status table content openBb =>
              exact .done status (by simpa using table) content openBb
          | @waiting read left whole status table empty content openBb active more =>
              exact @HdrRun.Read.waiting t (line :: lines) behind future run (line :: read) left
                (by simp [whole]) status (by simpa using table) empty content openBb active more
        · rw [parseHdrLoop_line (parseHdrBrigade_line_append scanned more)
            (splitHeaderLine_append copied more)]
          exact behind' success more

/-! ## In several brigades -/

theorem apreqParseHeaders_active {ctx : Option HdrCtx} {hdr : HdrCtx}
    (isHdr : ctx.getD ⟨[], .name⟩ = hdr) (active : hdr.status ≠ .complete ∧ hdr.status ≠ .error)
    (t : ParamTable) (bb : Brigade) :
    apreqParseHeaders ctx t bb = parseHdrLoop t (hdr.bb ++ bb) := by
  simp only [apreqParseHeaders, isHdr]
  split
  next failed => exact absurd failed active.2
  next complete => exact absurd complete active.1
  next => rfl

/-- Runs of the parser over brigades, until it no longer waits for more. -/
def parseHeaderBrigades (ctx : Option HdrCtx) (t : ParamTable) :
    (brigades : List Brigade) → Option (HdrRun × List Brigade)
  | [] => none
  | bb :: brigades =>
      match apreqParseHeaders ctx t bb with
      | none => none
      | some run =>
          if run.status = .incomplete then parseHeaderBrigades (some run.ctx) run.t brigades
          else some (run, brigades)

theorem parseHeaderBrigades_rest {ctx : Option HdrCtx} {hdr : HdrCtx} {t : ParamTable}
    {lines : List HeaderLine} {behind : Bytes} {brigades : List Brigade}
    (isHdr : ctx.getD ⟨[], .name⟩ = hdr) (active : hdr.status ≠ .complete ∧ hdr.status ≠ .error)
    (openHdr : .eos ∉ hdr.bb) (open_ : ∀ bb ∈ brigades, Bucket.eos ∉ bb)
    (content : hdr.bb.content ++ brigades.flatMap Brigade.content = blockText lines ++ behind)
    (more : brigades.flatMap Brigade.content ≠ []) :
    ∃ run left, parseHeaderBrigades ctx t brigades = some (run, left) ∧ run.status = .success ∧
      run.t = t ++ lines.map HeaderLine.param ∧
        run.bb.content ++ left.flatMap Brigade.content = behind := by
  induction brigades generalizing ctx hdr t lines with
  | nil => exact absurd rfl more
  | cons bb brigades ih =>
      have openAll : .eos ∉ hdr.bb ++ bb := by
        simpa [openHdr] using open_ bb List.mem_cons_self
      rw [List.flatMap_cons, ← List.append_assoc, ← Brigade.content_append] at content
      rcases parseHdrLoop_reads t lines openAll content with ⟨run, parsed, read, -⟩
      rw [parseHeaderBrigades, apreqParseHeaders_active isHdr active, parsed]
      cases read with
      | done success table isBehind openBb =>
          refine ⟨run, brigades, if_neg (by simp [success]), success, table, isBehind⟩
      | @waiting read left whole incomplete table empty content' openBb active' more' =>
          dsimp only
          rw [if_pos incomplete]
          rcases @ih (some run.ctx) run.ctx run.t left rfl active' openBb
            (fun bb isLater => open_ bb (List.mem_cons_of_mem _ isLater)) content' more' with
            ⟨last, left', ran, success, table', isBehind⟩
          refine ⟨last, left', ran, success, ?_, isBehind⟩
          rw [table', table, whole, List.map_append, List.append_assoc]

/-- However a block of header lines is cut into brigades and buckets, `apreq_parse_headers` puts
these lines into the table and leaves what comes behind the block. -/
theorem parseHeaderBrigades_reads {lines : List HeaderLine} {behind : Bytes}
    {brigades : List Brigade} (open_ : ∀ bb ∈ brigades, Bucket.eos ∉ bb)
    (content : brigades.flatMap Brigade.content = blockText lines ++ behind) :
    ∃ run left, parseHeaderBrigades none [] brigades = some (run, left) ∧ run.status = .success ∧
      run.t = lines.map HeaderLine.param ∧
        run.bb.content ++ left.flatMap Brigade.content = behind := by
  have more : brigades.flatMap Brigade.content ≠ [] := by
    rw [content]
    simp [blockText]
  exact @parseHeaderBrigades_rest none ⟨[], .name⟩ [] lines behind brigades rfl (by simp) (by simp)
    open_ content more

/-- A line with blanks behind its colon and one whose value is empty, cut in the name, in the blanks
and in both line ends. -/
theorem parseHeaderBrigades_reads_cut :
    ∃ run left, parseHeaderBrigades none [] [[.data (bytes "A"), .data (bytes "b: ")],
        [.data (bytes "\tc:d\r")], [.data (bytes "\nE:\r\n\r")], [.data (bytes "\nx")], []] =
          some (run, left) ∧ run.status = .success ∧
      run.t = [⟨bytes "Ab", bytes "c:d", false⟩, ⟨bytes "E", [], false⟩] ∧
        run.bb.content ++ left.flatMap Brigade.content = bytes "x" := by
  let first : HeaderLine := ⟨bytes "Ab", bytes " \t", bytes "c:d", by decide +kernel,
    by decide +kernel, by decide +kernel, by decide +kernel, by decide +kernel, by decide +kernel,
    by decide +kernel⟩
  let second : HeaderLine := ⟨bytes "E", [], [], by decide +kernel, by decide +kernel,
    by decide +kernel, by decide +kernel, by decide +kernel, by decide +kernel, by decide +kernel⟩
  exact @parseHeaderBrigades_reads [first, second] (bytes "x") _ (by decide +kernel)
    (by decide +kernel)

end RApache
