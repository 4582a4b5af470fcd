import RApache.Apreq.Delimiter
import RApache.Apreq.PartHeaders
import RApache.Apreq.Uploads

/-!
# The parts of a multipart body

A body is a list of parts with a delimiter before each of them and behind the last one.  Between
two brigades the parser has read some of the parts, and what its brigades hold is the beginning of
what is left.
-/

namespace RApache

open Incremental

/-! ## Parts -/

/-- What a part of a form is: a field with a name, or an upload with its parameter. -/
inductive PartKind where
  | field (name : Bytes)
  | upload (param : Param)
  deriving DecidableEq, Repr

/-- The kind that the headers of a part of `multipart/form-data` or `multipart/related` give it, if
it is no `multipart/mixed` part. -/
def partKind (info : ParamTable) : Option PartKind :=
  match aprTableGet info (bytes "Content-Disposition") with
  | some cd =>
      match apreqHeaderAttribute cd (bytes "name") with
      | .error _ => none
      | .ok name =>
          match apreqHeaderAttribute cd (bytes "filename") with
          | .ok filename => some (.upload ⟨name, filename, true⟩)
          | .error _ =>
              match aprTableGet info (bytes "Content-Type") with
              | some ct =>
                  if (bytes "multipart/mixed").isPrefixOf ct then none else some (.field name)
              | none => some (.field name)
  | none =>
      (aprTableGet info (bytes "Content-ID")).map fun name => .upload ⟨name, [], true⟩

/-- A part of a body with this boundary.  Its content does not hold the delimiter, and it does not
begin with the delimiter's own line. -/
structure FormPart (boundary : Bytes) where
  lines : List HeaderLine
  content : Bytes
  kind : PartKind
  isKind : partKind (lines.map HeaderLine.param) = some kind
  noDelimiter : ¬ bytes "\r\n--" ++ boundary <:+: content
  begins : ¬ bytes "--" ++ boundary <+: content

namespace FormPart

variable {boundary : Bytes}

/-- The parameter of the part. -/
def param (part : FormPart boundary) : Param :=
  match part.kind with
  | .field name => ⟨name, part.content, false⟩
  | .upload param => param

/-- The bytes of the file, if the part is an upload. -/
def file (part : FormPart boundary) : Option Bytes :=
  match part.kind with
  | .field _ => none
  | .upload _ => some part.content

end FormPart

theorem partKind_upload {info : ParamTable} {param : Param}
    (isKind : partKind info = some (.upload param)) : param.upload = true := by
  unfold partKind at isKind
  split at isKind
  next cd _ =>
    split at isKind
    next => cases isKind
    next name _ =>
      split at isKind
      next filename _ =>
        cases isKind
        rfl
      next =>
        split at isKind
        next ct _ =>
          split at isKind
          next => cases isKind
          next => cases isKind
        next => cases isKind
  next =>
    rcases Option.map_eq_some_iff.mp isKind with ⟨name, -, isParam⟩
    cases isParam
    rfl

/-- The table has a parameter with an upload for each file. -/
theorem uploads_length {boundary : Bytes} (parts : List (FormPart boundary)) :
    ((parts.map FormPart.param).filter Param.upload).length =
      (parts.filterMap FormPart.file).length := by
  induction parts with
  | nil => rfl
  | cons part parts ih =>
      cases kind : part.kind with
      | field name =>
          simp [FormPart.param, FormPart.file, kind, ih]
      | upload param =>
          have isUpload := partKind_upload (part.isKind.trans (congrArg some kind))
          simp [FormPart.param, FormPart.file, kind, isUpload, ih]

/-- The body behind a delimiter. -/
def partsText (boundary epilogue : Bytes) : List (FormPart boundary) → Bytes
  | [] => bytes "--\r\n" ++ epilogue
  | part :: parts =>
      bytes "\r\n" ++ (blockText part.lines ++
        (part.content ++ (bytes "\r\n--" ++ boundary ++ partsText boundary epilogue parts)))

/-- A body with these parts. -/
def multipartText (boundary epilogue : Bytes) (parts : List (FormPart boundary)) : Bytes :=
  bytes "--" ++ boundary ++ partsText boundary epilogue parts

/-- What comes behind the headers of a part. -/
def bodyText (boundary epilogue : Bytes) (part : FormPart boundary)
    (parts : List (FormPart boundary)) : Bytes :=
  part.content ++ (bytes "\r\n--" ++ boundary ++ partsText boundary epilogue parts)

/-! ## Between two brigades -/

variable {Mix : Type} {boundary epilogue : Bytes}

/-- The parser has read some of the parts.  The content of its brigades and the bytes that are
still to come make up what is left, and `written` is the part of an upload that is in its file. -/
inductive Awaits (epilogue future : Bytes) (ctx : MfdCtx Mix) (data : Brigade) :
    (written : Bytes) → List (FormPart boundary) → Prop where
  | init {parts : List (FormPart boundary)} (status : ctx.status = .init) (empty : ctx.bb = [])
      (content : data.content ++ future = multipartText boundary epilogue parts) :
      Awaits epilogue future ctx data [] parts
  | nextline {part : FormPart boundary} {parts : List (FormPart boundary)}
      (status : ctx.status = .nextline) (empty : ctx.bb = [])
      (content : data.content ++ future = partsText boundary epilogue (part :: parts)) :
      Awaits epilogue future ctx data [] (part :: parts)
  | last {before rest : Bytes} (status : ctx.status = .nextline)
      (first : (data.content ++ future).dropInfix? (bytes "\r\n") = some (before, rest))
      (dashes : ctx.bb ≠ [] ∨ before ≠ []) : Awaits epilogue future ctx data [] []
  | header {part : FormPart boundary} {parts : List (FormPart boundary)}
      {read left : List HeaderLine} {hdr : HdrCtx} (status : ctx.status = .header)
      (empty : ctx.bb = []) (isHdr : (if ctx.info = none then none else ctx.hdrParser).getD
        ⟨[], .name⟩ = hdr)
      (active : hdr.status ≠ .complete ∧ hdr.status ≠ .error) (open_ : .eos ∉ hdr.bb)
      (whole : part.lines = read ++ left) (info : ctx.info.getD [] = read.map HeaderLine.param)
      (content : hdr.bb.content ++ (data.content ++ future) =
        blockText left ++ bodyText boundary epilogue part parts) :
      Awaits epilogue future ctx data [] (part :: parts)
  | postHeader {part : FormPart boundary} {parts : List (FormPart boundary)}
      (status : ctx.status = .postHeader) (empty : ctx.bb = [])
      (info : ctx.info.getD [] = part.lines.map HeaderLine.param)
      (content : data.content ++ future = bodyText boundary epilogue part parts) :
      Awaits epilogue future ctx data [] (part :: parts)
  | field {part : FormPart boundary} {parts : List (FormPart boundary)} {name left : Bytes}
      (status : ctx.status = .param) (isName : ctx.paramName = some name)
      (kind : part.kind = .field name)
      (first : (data.content ++ future).dropInfix? ctx.bdry =
        some (left, partsText boundary epilogue parts))
      (whole : ctx.bb.content ++ left = part.content) :
      Awaits epilogue future ctx data [] (part :: parts)
  | upload {part : FormPart boundary} {parts : List (FormPart boundary)} {param : Param}
      {written left : Bytes} (status : ctx.status = .upload) (isParam : ctx.upload = some param)
      (kind : part.kind = .upload param) (empty : ctx.bb = [])
      (first : (data.content ++ future).dropInfix? ctx.bdry =
        some (left, partsText boundary epilogue parts))
      (whole : written ++ left = part.content) :
      Awaits epilogue future ctx data written (part :: parts)

/-- The parser between two steps, with the parts that it has read and the calls that it has made.
Behind the bytes of its input there is `tail`; then no byte is still to come. -/
structure PartsRun (epilogue future : Bytes) (tail : Brigade) (all : List (FormPart boundary))
    (writes : List Write) (run : Run (MfdCtx Mix)) : Prop where
  boundary : run.ctx.boundary = boundary
  mix : run.ctx.mixParser.isSome
  bb : run.bb = []
  ends : tail = [] ∨ future = []
  parts : ∃ data done left written, all = done ++ left ∧ run.t = done.map FormPart.param ∧
    Filed writes (done.filterMap FormPart.file ++ [written]) ∧ run.ctx.in_ = data ++ tail ∧
    .eos ∉ data ∧
      Awaits epilogue future run.ctx data written left

/-- What a step comes to. -/
inductive Turned (epilogue future : Bytes) (tail : Brigade) (all : List (FormPart boundary))
    (writes : List Write) : MfdProgress Mix → Prop where
  | again {after : Run (MfdCtx Mix)} (reading : PartsRun epilogue future tail all writes after) :
      Turned epilogue future tail all writes (.again after)
  | waiting {status : AprStatus} {after : Run (MfdCtx Mix)} (more : future ≠ [])
      (reading : PartsRun epilogue future [] all writes after) :
      Turned epilogue future tail all writes (.stop status after)
  | complete {status : AprStatus} {after : Run (MfdCtx Mix)} {rest : Brigade}
      (complete : after.ctx.status = .complete) (table : after.t = all.map FormPart.param)
      (filed : Filed writes (all.filterMap FormPart.file)) (bb : after.bb = rest ++ tail)
      (open_ : .eos ∉ rest) : Turned epilogue future tail all writes (.stop status after)

section Steps

variable {epilogue future : Bytes} {tail data : Brigade} {all done left : List (FormPart boundary)}
variable {writes : List Write} {written : Bytes} {run : Run (MfdCtx Mix)}

theorem crlf_beginsOnce : BeginsOnce (bytes "\r\n") :=
  ⟨13, [10], rfl, by decide⟩

/-- Two beginnings of a text. -/
theorem compatible_of_append {left right text more more' : Bytes} (isLeft : text = left ++ more)
    (isRight : text = right ++ more') : Compatible left right :=
  List.prefix_or_prefix_of_prefix ⟨more, isLeft.symm⟩ ⟨more', isRight.symm⟩

/-- What is held back is no whole text that begins with the delimiter. -/
theorem Held.more {bdry text : Bytes} {off : Nat} {held : Brigade} (partly : Held bdry off held)
    (whole : held.content ++ future = bdry ++ text) : future ≠ [] := by
  rintro rfl
  have length := congrArg List.length whole
  have short := partly.short
  have size := partly.size_eq
  simp only [List.append_nil, List.length_append] at length
  rw [Brigade.size] at size
  omega

/-- What a delimiter at the beginning of the input leaves. -/
theorem splitOnBdry_turn {bdry text : Bytes} (nonempty : bdry ≠ []) (out : Brigade)
    (open_ : .eos ∉ data) (ends : tail = [] ∨ future = [])
    (content : data.content ++ future = bdry ++ text) :
    (∃ rest, splitOnBdry false bdry out (data ++ tail) = ⟨.success, out, rest ++ tail⟩ ∧
      .eos ∉ rest ∧ rest.content ++ future = text) ∨
    (∃ rest, splitOnBdry false bdry out (data ++ tail) = ⟨.incomplete, out, rest⟩ ∧
      .eos ∉ rest ∧ rest.content = data.content ∧ future ≠ []) := by
  have begins : Compatible bdry data.content := compatible_of_append rfl content.symm
  have searched := splitOnBdry_begins false nonempty out open_ begins
  generalize isSplit : splitOnBdry false bdry out data = split at searched
  cases searched with
  | found status isOut isText openRest =>
      left
      rw [isText, List.append_assoc] at content
      refine ⟨split.rest, ?_, openRest, List.append_cancel_left content⟩
      rw [splitOnBdry_append (by rw [isSplit, status]), isSplit, ← isOut, ← status]
  | missing status isOut partly isText =>
      right
      have more : future ≠ [] := partly.more (by rw [← isText, content])
      have noTail : tail = [] := ends.resolve_right more
      refine ⟨split.rest, ?_, partly.not_eos, isText.symm, more⟩
      rw [noTail, List.append_nil, isSplit, ← isOut, ← status]

/-- What the search for the delimiter behind a content leaves. -/
theorem splitOnBdry_content (pattern : Bool) {bdry left rest : Bytes} (once : BeginsOnce bdry)
    (out : Brigade) (open_ : .eos ∉ data) (ends : tail = [] ∨ future = [])
    (first : (data.content ++ future).dropInfix? bdry = some (left, rest)) :
    (∃ moved behind, splitOnBdry pattern bdry out (data ++ tail) =
        ⟨.success, out ++ moved, behind ++ tail⟩ ∧ .data [] ∉ moved ∧ .eos ∉ behind ∧
          moved.content = left ∧ behind.content ++ future = rest) ∨
    (∃ moved behind left', splitOnBdry pattern bdry out (data ++ tail) =
        ⟨.incomplete, out ++ moved, behind⟩ ∧ .data [] ∉ moved ∧ .eos ∉ behind ∧
          moved.content ++ left' = left ∧
          (behind.content ++ future).dropInfix? bdry = some (left', rest) ∧ future ≠ []) := by
  have searched := splitOnBdry_searches pattern once out open_
  generalize isSplit : splitOnBdry pattern bdry out data = split at searched
  cases searched with
  | @found moved status isOut full first' openRest =>
      left
      have found := dropInfix?_append first' future
      rw [first] at found
      cases found
      refine ⟨moved, split.rest, ?_, full, openRest, rfl, rfl⟩
      rw [splitOnBdry_append (by rw [isSplit, status]), isSplit, ← isOut, ← status]
  | @missing moved off status isOut full partly isText skips =>
      right
      rw [isText, List.append_assoc, dropInfix?_skip (skips future)] at first
      simp only [Option.map_eq_some_iff, Prod.exists, Prod.mk.injEq] at first
      rcases first with ⟨left', rest', first, isLeft, rfl⟩
      have whole := (dropInfix?_some.mp first).1
      have more : future ≠ [] := by
        rintro rfl
        have length := congrArg List.length whole
        have short := partly.short
        have size := partly.size_eq
        simp only [List.append_nil, List.length_append] at length
        rw [Brigade.size] at size
        omega
      have noTail : tail = [] := ends.resolve_right more
      refine ⟨moved, split.rest, left', ?_, full, partly.not_eos, isLeft, first, more⟩
      rw [noTail, List.append_nil, isSplit, ← isOut, ← status]

/-- What a split moves out does not end the stream. -/
theorem splitOnBdry_open {pattern : Bool} {bdry : Bytes} (nonempty : bdry ≠ [])
    {in_ moved rest : Brigade} {status : AprStatus}
    (split : splitOnBdry pattern bdry [] in_ = ⟨status, [] ++ moved, rest⟩) : .eos ∉ moved := by
  have spec := splitOnBdry_spec pattern nonempty [] in_
  rw [split] at spec
  exact spec.noEos (by simp)

/-- Behind a delimiter. -/
theorem Awaits.behind {ctx : MfdCtx Mix} {parts : List (FormPart boundary)}
    (status : ctx.status = .nextline) (empty : ctx.bb = [])
    (content : data.content ++ future = partsText boundary epilogue parts) :
    Awaits epilogue future ctx data [] parts := by
  cases parts with
  | nil =>
      have none : ¬ bytes "\r\n" <:+: bytes "--" := by decide +kernel
      have text : data.content ++ future = bytes "--" ++ bytes "\r\n" ++ epilogue := content
      have first := dropInfix?_of crlf_beginsOnce none epilogue
      rw [← text] at first
      exact .last status first (.inr (by decide))
  | cons part parts => exact .nextline status empty content

/-! ## One state at a time -/

variable (nested : Run Mix → List Write)

theorem mfdInit_reads (reading : PartsRun epilogue future tail all writes run)
    (atInit : run.ctx.status = .init) :
    Turned epilogue future tail all (writes ++ mfdWrites nested run) (mfdInit run) := by
  rcases reading with ⟨sameBoundary, mix, bb, ends, data, done, left, written, whole, table, filed,
    isIn, open_, awaits⟩
  cases awaits with
  | init status empty content =>
      have nonempty : run.ctx.delimiter ≠ [] :=
        List.ne_nil_of_length_pos (Nat.lt_of_lt_of_le Nat.zero_lt_two run.ctx.delimiter_length)
      have isText : data.content ++ future =
          run.ctx.delimiter ++ partsText boundary epilogue left := by
        rw [content, multipartText, MfdCtx.delimiter, sameBoundary]
      have noWrites : mfdWrites nested run = [] := by simp [mfdWrites, atInit]
      rw [noWrites, List.append_nil]
      rcases splitOnBdry_turn nonempty [] open_ ends isText with
        ⟨rest, split, openRest, content'⟩ | ⟨rest, split, openRest, content', more⟩
      · simp only [mfdInit, isIn, empty, split, if_true, bb, List.append_nil]
        exact .again ⟨sameBoundary, mix, rfl, ends, rest, done, left, [], whole, table, filed, rfl,
          openRest, .behind rfl rfl content'⟩
      · have notFound : AprStatus.incomplete ≠ .success := by decide
        simp only [mfdInit, isIn, empty, split, if_neg notFound]
        exact .waiting more ⟨sameBoundary, mix, bb, .inl rfl, rest, done, left, [], whole, table,
          filed, (List.append_nil rest).symm, openRest,
          .init atInit rfl (by rw [content', content])⟩
  | nextline status => simp [status] at atInit
  | last status => simp [status] at atInit
  | header status => simp [status] at atInit
  | postHeader status => simp [status] at atInit
  | field status => simp [status] at atInit
  | upload status => simp [status] at atInit

theorem mfdNextline_reads (reading : PartsRun epilogue future tail all writes run)
    (atNextline : run.ctx.status = .nextline) :
    Turned epilogue future tail all (writes ++ mfdWrites nested run) (mfdNextline run) := by
  rcases reading with ⟨sameBoundary, mix, bb, ends, data, done, left, written, whole, table, filed,
    isIn, open_, awaits⟩
  have noWrites : mfdWrites nested run = [] := by simp [mfdWrites, atNextline]
  have notFound : AprStatus.incomplete ≠ .success := by decide +kernel
  rw [noWrites, List.append_nil]
  cases awaits with
  | @nextline part parts status empty content =>
      have nonempty : bytes "\r\n" ≠ [] := by decide +kernel
      rcases splitOnBdry_turn nonempty [] open_ ends content with
        ⟨rest, split, openRest, content'⟩ | ⟨rest, split, openRest, content', more⟩
      · have noText : ¬ ([] : Brigade) ≠ [] := fun other => other rfl
        simp only [mfdNextline, isIn, empty, split, if_true, if_neg noText]
        refine .again ⟨sameBoundary, mix, bb, ends, rest, done, part :: parts, [], whole, table,
          filed, rfl, openRest, ?_⟩
        exact @Awaits.header _ _ _ _ _ _ part parts [] part.lines ⟨[], .name⟩ rfl rfl rfl
          (by simp) (by simp) rfl rfl content'
      · simp only [mfdNextline, isIn, empty, split, if_neg notFound]
        exact .waiting more ⟨sameBoundary, mix, bb, .inl rfl, rest, done, part :: parts, [], whole,
          table, filed, (List.append_nil rest).symm, openRest,
          .nextline atNextline rfl (by rw [content', content])⟩
  | @last before rest status first dashes =>
      rcases splitOnBdry_content false crlf_beginsOnce run.ctx.bb open_ ends first with
        ⟨moved, behind, split, full, openBehind, isBefore, content⟩ |
          ⟨moved, behind, left', split, full, openBehind, isBefore, first', more⟩
      · have someText : run.ctx.bb ++ moved ≠ [] := by
          intro isEmpty
          rcases List.append_eq_nil_iff.mp isEmpty with ⟨noBb, rfl⟩
          rcases dashes with dashes | dashes
          · exact dashes noBb
          · exact dashes isBefore.symm
        simp only [mfdNextline, isIn, split, if_true, if_pos someText, bb, List.nil_append]
        rw [List.append_nil] at whole
        subst whole
        exact .complete rfl table (filed_next.mp filed) rfl openBehind
      · simp only [mfdNextline, isIn, split, if_neg notFound]
        refine .waiting more ⟨sameBoundary, mix, bb, .inl rfl, behind, done, [], [], whole, table,
          filed, (List.append_nil behind).symm, openBehind, .last atNextline first' ?_⟩
        rcases dashes with dashes | dashes
        · exact .inl fun isEmpty => dashes (List.append_eq_nil_iff.mp isEmpty).1
        · by_cases nothing : moved = []
          · subst nothing
            exact .inr (by rwa [← isBefore] at dashes)
          · exact .inl fun isEmpty => nothing (List.append_eq_nil_iff.mp isEmpty).2
  | init status => simp [status] at atNextline
  | header status => simp [status] at atNextline
  | postHeader status => simp [status] at atNextline
  | field status => simp [status] at atNextline
  | upload status => simp [status] at atNextline

theorem mfdHeader_reads (reading : PartsRun epilogue future tail all writes run)
    (atHeader : run.ctx.status = .header) :
    ∃ progress, mfdHeader run = some progress ∧
      Turned epilogue future tail all (writes ++ mfdWrites nested run) progress := by
  rcases reading with ⟨sameBoundary, mix, bb, ends, data, done, left, written, whole, table, filed,
    isIn, open_, awaits⟩
  have noWrites : mfdWrites nested run = [] := by simp [mfdWrites, atHeader]
  rw [noWrites, List.append_nil]
  cases awaits with
  | @header part parts read left hdr status empty isHdr active openHdr isLines info content =>
      have openAll : .eos ∉ hdr.bb ++ data := by simp [openHdr, open_]
      have isText : Brigade.content (hdr.bb ++ data) ++ future =
          blockText left ++ bodyText boundary epilogue part parts := by
        rw [Brigade.content_append, List.append_assoc, content]
      rcases parseHdrLoop_reads (run.ctx.info.getD []) left openAll isText with
        ⟨hdrRun, parsed, isRead, behind⟩
      have isRun := apreqParseHeaders_active isHdr active (run.ctx.info.getD []) run.ctx.in_
      rw [isIn, ← List.append_assoc] at isRun
      have isInfo (t : ParamTable) (lines : List HeaderLine)
          (isTable : t = run.ctx.info.getD [] ++ lines.map HeaderLine.param) :
          t = (read ++ lines).map HeaderLine.param := by
        rw [isTable, info, List.map_append]
      cases isRead with
      | done success table' content' openBb =>
          rw [behind success tail] at isRun
          refine ⟨_, by simp only [mfdHeader, isIn, isRun, Option.map_some]; rfl, ?_⟩
          simp only [success]
          exact .again ⟨sameBoundary, mix, bb, ends, hdrRun.bb, done, part :: parts, [], whole,
            table, filed, rfl, openBb,
            .postHeader rfl empty (by rw [isLines]; exact isInfo _ _ table') content'⟩
      | @waiting read' left' isLeft incomplete table' empty' content' openBb active' more =>
          have noTail : tail = [] := ends.resolve_right more
          subst noTail
          rw [List.append_nil, List.append_nil, parsed] at isRun
          refine ⟨_, by simp only [mfdHeader, isIn, List.append_nil, isRun, Option.map_some]; rfl,
            ?_⟩
          simp only [incomplete]
          refine .waiting more ⟨sameBoundary, mix, bb, .inl rfl, [], done, part :: parts, [], whole,
            table, filed, empty', by simp, ?_⟩
          exact .header atHeader empty (by simp) active' openBb
            (by rw [isLines, isLeft, ← List.append_assoc])
            (isInfo _ _ table') content'
  | init status => simp [status] at atHeader
  | nextline status => simp [status] at atHeader
  | last status => simp [status] at atHeader
  | postHeader status => simp [status] at atHeader
  | field status => simp [status] at atHeader
  | upload status => simp [status] at atHeader

theorem brigadeStartString_data (symbol : UInt8) (start buffer : Bytes) (bb : Brigade) :
    brigadeStartString (symbol :: start) (.data buffer :: bb) =
      if buffer = [] then brigadeStartString (symbol :: start) bb
      else if agree (symbol :: start) buffer then
        brigadeStartString ((symbol :: start).drop buffer.length) bb
      else .general := by
  rw [brigadeStartString]
  simp

/-- A brigade that does not begin with the string. -/
theorem brigadeStartString_differs {start : Bytes} {bb : Brigade} (open_ : .eos ∉ bb)
    (differs : ¬ Compatible start bb.content) (tail : Brigade) :
    brigadeStartString start (bb ++ tail) = .general := by
  induction bb generalizing start with
  | nil => exact absurd (.inr List.nil_prefix) differs
  | cons bucket bb ih =>
      have openTail : .eos ∉ bb := fun isEos => open_ (List.mem_cons_of_mem _ isEos)
      cases bucket with
      | eos => simp at open_
      | data buffer =>
          rw [Brigade.content_cons, Bucket.read] at differs
          cases start with
          | nil => exact absurd (.inl List.nil_prefix) differs
          | cons symbol start =>
              rw [List.cons_append, brigadeStartString_data]
              split
              next empty =>
                subst empty
                exact ih openTail differs
              next =>
                split
                next agrees =>
                  refine ih openTail fun compatible => differs ?_
                  rcases agree_iff.mp agrees with isPrefix | isPrefix
                  · exact .inl (isPrefix.trans (List.prefix_append _ _))
                  · rw [← List.prefix_iff_eq_append.mp isPrefix]
                    exact compatible.append buffer
                next => rfl

/-- A brigade with a part of the string. -/
theorem brigadeStartString_part {start : Bytes} {bb : Brigade} (open_ : .eos ∉ bb)
    (isPrefix : bb.content <+: start) (short : bb.content ≠ start) :
    brigadeStartString start bb = .incomplete := by
  induction bb generalizing start with
  | nil => simp [brigadeStartString]
  | cons bucket bb ih =>
      have openTail : .eos ∉ bb := fun isEos => open_ (List.mem_cons_of_mem _ isEos)
      cases bucket with
      | eos => simp at open_
      | data buffer =>
          rw [Brigade.content_cons, Bucket.read] at isPrefix short
          cases start with
          | nil => exact absurd (List.prefix_nil.mp isPrefix) short
          | cons symbol start =>
              rw [brigadeStartString_data]
              split
              next empty =>
                subst empty
                exact ih openTail isPrefix short
              next =>
                have first := (List.prefix_append buffer (Brigade.content bb)).trans isPrefix
                rw [← List.prefix_iff_eq_append.mp first] at isPrefix short
                rw [if_pos (agree_iff.mpr (.inr first))]
                exact ih openTail ((List.prefix_append_right_inj buffer).mp isPrefix)
                  fun same => short (by rw [same])

/-- No part begins with the delimiter. -/
theorem FormPart.bodyText_begins (noCr : 13 ∉ boundary) (part : FormPart boundary)
    (parts : List (FormPart boundary)) :
    ¬ bytes "--" ++ boundary <+: bodyText boundary epilogue part parts := by
  intro isPrefix
  have noCr' : 13 ∉ bytes "--" ++ boundary := by
    have dashes : 13 ∉ bytes "--" := by decide +kernel
    simp [dashes, noCr]
  rcases List.prefix_or_prefix_of_prefix isPrefix (List.prefix_append part.content _) with
    inside | ⟨rest, isDelimiter⟩
  · exact part.begins inside
  · cases rest with
    | nil => exact part.begins (by rw [← isDelimiter, List.append_nil])
    | cons first rest =>
        rw [← isDelimiter, bodyText, List.prefix_append_right_inj] at isPrefix
        have isCr : first = 13 := (List.cons_prefix_cons.mp isPrefix).1
        refine noCr' ?_
        rw [← isDelimiter, isCr]
        simp

/-- The context for a part of a kind. -/
def MfdCtx.begin (ctx : MfdCtx Mix) : PartKind → MfdCtx Mix
  | .field name => { ctx with paramName := some name, status := .param }
  | .upload param => { ctx with upload := some param, status := .upload }

theorem MfdCtx.begin_keeps (ctx : MfdCtx Mix) (kind : PartKind) :
    (ctx.begin kind).boundary = ctx.boundary ∧ (ctx.begin kind).mixParser = ctx.mixParser ∧
      (ctx.begin kind).in_ = ctx.in_ ∧ (ctx.begin kind).bb = ctx.bb := by
  cases kind <;> exact ⟨rfl, rfl, rfl, rfl⟩

theorem bdry_beginsOnce {ctx : MfdCtx Mix} (noCr : 13 ∉ ctx.boundary) : BeginsOnce ctx.bdry := by
  refine ⟨13, 10 :: ctx.delimiter, rfl, ?_⟩
  have dashes : 13 ∉ bytes "--" := by decide +kernel
  simp [MfdCtx.delimiter, dashes, noCr]

/-- The content of a part begins. -/
theorem Awaits.content {ctx : MfdCtx Mix} (noCr : 13 ∉ ctx.boundary)
    (part : FormPart ctx.boundary) (parts : List (FormPart ctx.boundary)) (empty : ctx.bb = [])
    (content : data.content ++ future = bodyText ctx.boundary epilogue part parts) :
    Awaits epilogue future (ctx.begin part.kind) data [] (part :: parts) := by
  have isBdry : ctx.bdry = bytes "\r\n--" ++ ctx.boundary := rfl
  have first : (data.content ++ future).dropInfix? ctx.bdry =
      some (part.content, partsText ctx.boundary epilogue parts) := by
    rw [content, bodyText, ← isBdry, ← List.append_assoc]
    exact dropInfix?_of (bdry_beginsOnce noCr) part.noDelimiter _
  cases kind : part.kind with
  | field name => exact .field rfl rfl kind first (by simp [MfdCtx.begin, empty])
  | upload param => exact .upload rfl rfl kind empty first rfl

variable [MixParser Mix]

theorem mfdPartKind_of {kind : PartKind} (mix : run.ctx.mixParser.isSome)
    (isKind : partKind (run.ctx.info.getD []) = some kind) :
    mfdPartKind run = some (.again { run with ctx := run.ctx.begin kind }) := by
  rcases run with ⟨⟨info, in_, bb, hdrParser, mixParser, boundary, status, paramName, upload⟩, t,
    runBb, spools⟩
  rcases Option.isSome_iff_exists.mp mix with ⟨mixParser, rfl⟩
  simp only at isKind
  unfold partKind at isKind
  unfold mfdPartKind
  cases disposition : aprTableGet (info.getD []) (bytes "Content-Disposition") with
  | none =>
      simp only [disposition, Option.map_eq_some_iff] at isKind
      rcases isKind with ⟨name, isName, rfl⟩
      simp only [disposition, isName]
      rfl
  | some cd =>
      simp only [disposition] at isKind
      simp only [disposition]
      cases isName : apreqHeaderAttribute cd (bytes "name") with
      | error status => simp [isName] at isKind
      | ok name =>
          cases isFile : apreqHeaderAttribute cd (bytes "filename") with
          | ok filename =>
              simp only [isName, isFile, Option.some.injEq] at isKind
              subst isKind
              rfl
          | error status =>
              simp only [isName, isFile] at isKind
              cases isType : aprTableGet (info.getD []) (bytes "Content-Type") with
              | none =>
                  simp only [isType, Option.some.injEq] at isKind
                  subst isKind
                  rfl
              | some ct =>
                  simp only [isType] at isKind
                  split at isKind
                  next => cases isKind
                  next notMixed =>
                    cases isKind
                    simp only
                    rw [if_neg notMixed]
                    rfl

theorem mfdPostHeader_reads (noCr : 13 ∉ boundary)
    (reading : PartsRun epilogue future tail all writes run)
    (atPostHeader : run.ctx.status = .postHeader) :
    ∃ progress, mfdPostHeader run = some progress ∧
      Turned epilogue future tail all (writes ++ mfdWrites nested run) progress := by
  rcases reading with ⟨rfl, mix, bb, ends, data, done, left, written, whole, table, filed,
    isIn, open_, awaits⟩
  have noWrites : mfdWrites nested run = [] := by simp [mfdWrites, atPostHeader]
  rw [noWrites, List.append_nil]
  cases awaits with
  | @postHeader part parts status empty info content =>
      have notHere := @FormPart.bodyText_begins _ epilogue noCr part parts
      have isDelimiter : run.ctx.delimiter = bytes "--" ++ run.ctx.boundary := rfl
      rw [← isDelimiter, ← content] at notHere
      by_cases compatible : Compatible run.ctx.delimiter data.content
      · -- The brigade ends inside of what may still be the delimiter.
        have isPrefix := compatible.resolve_left fun isPrefix =>
          notHere (isPrefix.trans (List.prefix_append _ _))
        have short : data.content ≠ run.ctx.delimiter := by
          intro same
          exact notHere (by rw [same]; exact List.prefix_append _ _)
        have more : future ≠ [] := by
          rintro rfl
          rw [List.append_nil] at content
          have length := isPrefix.length_le
          rw [content, isDelimiter, bodyText] at length
          have crlf : (bytes "\r\n--").length = 4 := rfl
          have dashes : (bytes "--").length = 2 := rfl
          simp only [List.length_append] at length
          omega
        have noTail : tail = [] := ends.resolve_right more
        have incomplete := brigadeStartString_part open_ isPrefix short
        refine ⟨.stop .incomplete run, ?_, .waiting more ⟨rfl, mix, bb, .inl rfl, data, done,
          part :: parts, [], whole, table, filed, by rw [isIn, noTail], open_,
          .postHeader status empty info content⟩⟩
        simp only [mfdPostHeader, isIn, noTail, List.append_nil, incomplete]
      · have differs := brigadeStartString_differs open_ compatible tail
        have isKind := part.isKind
        rw [← info] at isKind
        rcases run.ctx.begin_keeps part.kind with ⟨sameBoundary, sameMix, sameIn, -⟩
        have next : mfdPostHeader run =
            some (.again { run with ctx := run.ctx.begin part.kind }) := by
          simp only [mfdPostHeader, isIn, differs]
          exact mfdPartKind_of mix isKind
        exact ⟨_, next, .again ⟨sameBoundary, by simpa [sameMix] using mix, bb, ends, data, done,
          part :: parts, [], whole, table, filed, by rw [sameIn, isIn], open_,
          .content noCr part parts empty content⟩⟩
  | init status => simp [status] at atPostHeader
  | nextline status => simp [status] at atPostHeader
  | last status => simp [status] at atPostHeader
  | header status => simp [status] at atPostHeader
  | field status => simp [status] at atPostHeader
  | upload status => simp [status] at atPostHeader

omit [MixParser Mix] in
theorem mfdParam_reads (noCr : 13 ∉ boundary)
    (reading : PartsRun epilogue future tail all writes run) (atParam : run.ctx.status = .param) :
    ∃ progress, mfdParam run = some progress ∧
      Turned epilogue future tail all (writes ++ mfdWrites nested run) progress := by
  rcases reading with ⟨rfl, mix, bb, ends, data, done, left, written, whole, table, filed,
    isIn, open_, awaits⟩
  have noWrites : mfdWrites nested run = [] := by simp [mfdWrites, atParam]
  rw [noWrites, List.append_nil]
  cases awaits with
  | @field part parts name left status isName kind first isContent =>
      rcases splitOnBdry_content true (bdry_beginsOnce noCr) run.ctx.bb open_ ends first with
        ⟨moved, behind, split, full, openBehind, isLeft, content⟩ |
          ⟨moved, behind, left', split, full, openBehind, isLeft, first', more⟩
      · have isParam : part.param = ⟨name, Brigade.content (run.ctx.bb ++ moved), false⟩ := by
          rw [FormPart.param, kind, Brigade.content_append, isLeft, isContent]
        have noFile : part.file = none := by rw [FormPart.file, kind]
        refine ⟨_, by simp only [mfdParam, isIn, split, isName, Option.map_some]; rfl, ?_⟩
        refine .again ⟨rfl, mix, bb, ends, behind, done ++ [part], parts, [], by simp [whole],
          by simp [table, isParam], ?_, rfl, openBehind, .behind rfl rfl content⟩
        rw [List.filterMap_append, List.filterMap_cons_none noFile, List.filterMap_nil,
          List.append_nil]
        exact filed
      · refine ⟨_, by simp only [mfdParam, isIn, split]; rfl, ?_⟩
        refine .waiting more ⟨rfl, mix, bb, .inl rfl, behind, done, part :: parts, [], whole, table,
          filed, (List.append_nil behind).symm, openBehind, ?_⟩
        exact .field atParam isName kind first' (by simp [isLeft, isContent])
  | init status => simp [status] at atParam
  | nextline status => simp [status] at atParam
  | last status => simp [status] at atParam
  | header status => simp [status] at atParam
  | postHeader status => simp [status] at atParam
  | upload status => simp [status] at atParam

omit [MixParser Mix] in
theorem mfdUpload_reads {env : Environment} (stored : ∀ spool, env.concat spool = .stored)
    (noCr : 13 ∉ boundary) (reading : PartsRun epilogue future tail all writes run)
    (atUpload : run.ctx.status = .upload) :
    ∃ progress, mfdUpload env run = some progress ∧
      Turned epilogue future tail all (writes ++ mfdWrites nested run) progress := by
  rcases reading with ⟨rfl, mix, bb, ends, data, done, left, written, whole, table, filed,
    isIn, open_, awaits⟩
  have sameLength : (run.t.filter Param.upload).length =
      (done.filterMap FormPart.file).length := by rw [table, uploads_length]
  have once := bdry_beginsOnce noCr
  cases awaits with
  | @upload part parts param _ left status isParam kind empty first isContent =>
      rcases splitOnBdry_content true once [] open_ ends first with
        ⟨moved, behind, split, full, openBehind, isLeft, content⟩ |
          ⟨moved, behind, left', split, full, openBehind, isLeft, first', more⟩
      · have isWrite : mfdWrites nested run = [⟨(done.filterMap FormPart.file).length, moved⟩] := by
          simp [mfdWrites, atUpload, isIn, empty, split, sameLength]
        have filed' := filed.write (splitOnBdry_open once.ne_nil split)
        rw [isLeft, isContent] at filed'
        have isFile : part.file = some part.content := by rw [FormPart.file, kind]
        have isParam' : part.param = param := by rw [FormPart.param, kind]
        refine ⟨_, by simp only [mfdUpload, isIn, empty, split, isParam, stored, Option.map_some]; rfl,
          ?_⟩
        rw [isWrite]
        refine .again ⟨rfl, mix, bb, ends, behind, done ++ [part], parts, [], by simp [whole],
          by simp [table, isParam'], ?_, rfl, openBehind, .behind rfl rfl content⟩
        rw [List.filterMap_append, List.filterMap_cons_some isFile, List.filterMap_nil]
        exact filed_next.mpr filed'
      · have isWrite : mfdWrites nested run = [⟨(done.filterMap FormPart.file).length, moved⟩] := by
          simp [mfdWrites, atUpload, isIn, empty, split, sameLength]
        refine ⟨_, by simp only [mfdUpload, isIn, empty, split, stored]; rfl, ?_⟩
        rw [isWrite]
        refine .waiting more ⟨rfl, mix, bb, .inl rfl, behind, done, part :: parts,
          written ++ moved.content, whole, table, filed.write (splitOnBdry_open once.ne_nil split),
          (List.append_nil behind).symm, openBehind, ?_⟩
        exact .upload atUpload isParam kind rfl first' (by simp [isLeft, isContent])
  | init status => simp [status] at atUpload
  | nextline status => simp [status] at atUpload
  | last status => simp [status] at atUpload
  | header status => simp [status] at atUpload
  | postHeader status => simp [status] at atUpload
  | field status => simp [status] at atUpload

/-! ## Runs -/

variable {env : Environment}

theorem mfdStep_reads (stored : ∀ spool, env.concat spool = .stored) (noCr : 13 ∉ boundary)
    (reading : PartsRun epilogue future tail all writes run) :
    ∃ progress, mfdStep env run = some progress ∧
      Turned epilogue future tail all (writes ++ mfdWrites nested run) progress := by
  cases status : run.ctx.status with
  | init =>
      simp only [mfdStep, status]
      exact ⟨_, rfl, mfdInit_reads nested reading status⟩
  | nextline =>
      simp only [mfdStep, status]
      exact ⟨_, rfl, mfdNextline_reads nested reading status⟩
  | header =>
      simp only [mfdStep, status]
      exact mfdHeader_reads nested reading status
  | postHeader =>
      simp only [mfdStep, status]
      exact mfdPostHeader_reads nested noCr reading status
  | param =>
      simp only [mfdStep, status]
      exact mfdParam_reads nested noCr reading status
  | upload =>
      simp only [mfdStep, status]
      exact mfdUpload_reads nested stored noCr reading status
  | mixed | complete | error =>
      rcases reading.parts with ⟨_, _, _, _, -, -, -, -, -, awaits⟩
      cases awaits with
      | init atOther | nextline atOther | last atOther | header atOther | postHeader atOther
      | field atOther | upload atOther => simp [atOther] at status

theorem mfdLoop_again {after : Run (MfdCtx Mix)} (stepped : mfdStep env run = some (.again after)) :
    mfdLoop env run = mfdLoop env after := by
  rw [mfdLoop]
  split
  next absent =>
    rw [stepped] at absent
    cases absent
  next stopped =>
    rw [stepped] at stopped
    cases stopped
  next continued =>
    rw [stepped] at continued
    cases continued
    rfl

/-- The label `mfd_parse_brigade` reads parts until its input is used up or the body has ended. -/
theorem mfdLoop_reads (stored : ∀ spool, env.concat spool = .stored) (noCr : 13 ∉ boundary)
    (reading : PartsRun epilogue future tail all writes run) :
    ∃ status after, mfdLoop env run = some (status, after) ∧
      Turned epilogue future tail all (writes ++ mfdLoopWrites env nested run)
        (.stop status after) := by
  induction potential : run.potential using Nat.strong_induction_on generalizing run writes with
  | _ size ih =>
      rcases mfdStep_reads nested stored noCr reading with ⟨progress, stepped, turned⟩
      cases progress with
      | stop status after =>
          rw [mfdLoopWrites_stop env nested stepped]
          exact ⟨status, after, mfdLoop_stop stepped, turned⟩
      | again after =>
          cases turned with
          | again reading' =>
              have smaller := mfdStep_again stepped
              rw [potential] at smaller
              rcases ih _ smaller reading' rfl with ⟨status, last, looped, turned⟩
              refine ⟨status, last, ?_, ?_⟩
              · rw [mfdLoop_again stepped, looped]
              · rw [mfdLoopWrites_again env nested stepped, ← List.append_assoc]
                exact turned

omit [MixParser Mix] in
/-- More bytes come. -/
theorem Awaits.deliver {ctx : MfdCtx Mix} {buffers : Brigade} {parts : List (FormPart boundary)}
    (awaits : Awaits epilogue (buffers.content ++ future) ctx data written parts)
    (in_ : Brigade) :
    Awaits epilogue future { ctx with in_ } (data ++ buffers) written parts := by
  have same : (data ++ buffers).content ++ future =
      data.content ++ (buffers.content ++ future) := by
    rw [Brigade.content_append, List.append_assoc]
  cases awaits with
  | init status empty content => exact .init status empty (by rw [same, content])
  | nextline status empty content => exact .nextline status empty (by rw [same, content])
  | last status first dashes => exact .last status (by rw [same]; exact first) dashes
  | header status empty isHdr active openHdr whole info content =>
      exact .header status empty isHdr active openHdr whole info (by rw [same, content])
  | postHeader status empty info content =>
      exact .postHeader status empty info (by rw [same, content])
  | field status isName kind first whole =>
      exact .field status isName kind (by rw [same]; exact first) whole
  | upload status isParam kind empty first whole =>
      exact .upload status isParam kind empty (by rw [same]; exact first) whole

omit [MixParser Mix] in
theorem PartsRun.deliver {buffers : Brigade}
    (reading : PartsRun epilogue (buffers.content ++ future) [] all writes run)
    (open_ : .eos ∉ buffers) (ends : tail = [] ∨ future = []) :
    PartsRun epilogue future tail all writes
      (Run.concat { run with bb := buffers ++ tail }) := by
  rcases reading with ⟨sameBoundary, mix, -, -, data, done, left, written, whole, table, filed,
    isIn, openData, awaits⟩
  refine ⟨sameBoundary, mix, rfl, ends, data ++ buffers, done, left, written, whole, table, filed,
    ?_, by simp [openData, open_], awaits.deliver _⟩
  simp [Run.concat, isIn]

omit [MixParser Mix] in
theorem PartsRun.active (reading : PartsRun epilogue future tail all writes run) :
    run.ctx.status ≠ .error ∧ run.ctx.status ≠ .complete := by
  rcases reading.parts with ⟨_, _, _, _, -, -, -, -, -, awaits⟩
  cases awaits with
  | init status | nextline status | last status | header status | postHeader status
  | field status | upload status => exact ⟨by simp [status], by simp [status]⟩

/-- `apreq_parse_multipart` over a brigade of a body. -/
theorem runMultipart_reads (stored : ∀ spool, env.concat spool = .stored) (noCr : 13 ∉ boundary)
    {buffers : Brigade}
    (reading : PartsRun epilogue (buffers.content ++ future) [] all writes run)
    (open_ : .eos ∉ buffers) (ends : tail = [] ∨ future = []) :
    ∃ status after, runMultipart env { run with bb := buffers ++ tail } = some (status, after) ∧
      Turned epilogue future tail all
        (writes ++ runMultipartWrites env nested { run with bb := buffers ++ tail })
        (.stop status after) := by
  rcases reading.active with ⟨notError, notComplete⟩
  have delivered := reading.deliver open_ ends
  rcases mfdLoop_reads nested stored noCr delivered with ⟨status, after, looped, turned⟩
  have isRun : runMultipart env { run with bb := buffers ++ tail } =
      mfdLoop env (Run.concat { run with bb := buffers ++ tail }) := by
    unfold runMultipart
    split
    next failed => exact absurd failed notError
    next complete => exact absurd complete notComplete
    next => rfl
  have isWrites : runMultipartWrites env nested { run with bb := buffers ++ tail } =
      mfdLoopWrites env nested (Run.concat { run with bb := buffers ++ tail }) := by
    unfold runMultipartWrites
    split
    next failed => exact absurd failed notError
    next complete => exact absurd complete notComplete
    next => rfl
  rw [isRun, isWrites]
  exact ⟨status, after, looped, turned⟩

end Steps

end RApache
