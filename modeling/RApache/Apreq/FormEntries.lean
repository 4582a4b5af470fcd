import RApache.Apreq.HeaderAttributes
import RApache.Apreq.MultipartParts

/-!
# The entries of a form

What `apreq_parse_multipart` makes of a part depends on two attributes of its header
`Content-Disposition`.  Their values may be any text that can stand between quotes, and R sees it
as it stands there, with its escapes.
-/

namespace RApache

/-! ## Attributes -/

/-- An attribute with quotes, as browsers write it. -/
def quotedAttribute {key text : Bytes} (isKey : AttributeKey key) (quoted : QuotedText text) :
    HeaderAttribute where
  blanks := [32]
  key
  gap := []
  space := []
  value := 34 :: text ++ [34]
  isKey
  areBlanks := by decide +kernel
  isValue := .quoted (quoted.lookForEndQuote [])

theorem withoutQuotes_quoted (text : Bytes) : withoutQuotes (34 :: text ++ [34]) = text :=
  List.dropLast_concat

theorem isName_name : AttributeKey (bytes "name") := ⟨by decide +kernel, by decide +kernel⟩

theorem isName_filename : AttributeKey (bytes "filename") := ⟨by decide +kernel, by decide +kernel⟩

theorem isName_boundary : AttributeKey (bytes "boundary") := ⟨by decide +kernel, by decide +kernel⟩

/-- The boundary is the first attribute of this name in `Content-Type`.  A blank before the equals
sign of an attribute that comes right behind the first semicolon would hide it. -/
theorem multipartBoundary_attributes {main : Bytes} (noSemicolon : 59 ∉ main)
    (attr : HeaderAttribute) (attrs : List HeaderAttribute)
    (near : attr.blanks ≠ [] ∨ attr.gap = []) :
    multipartBoundary (main ++ (attr :: attrs).flatMap HeaderAttribute.text) =
      (HeaderAttribute.find (attr :: attrs) (bytes "boundary")).toOption := by
  have split : (attr :: attrs).flatMap HeaderAttribute.text =
      59 :: (attr.blanks ++ (attr.pair ++ attrs.flatMap HeaderAttribute.text)) := by
    simp [HeaderAttribute.text]
  have cut : (main ++ (attr :: attrs).flatMap HeaderAttribute.text).dropWhile
      (fun symbol => decide (symbol ≠ byte ';')) =
        59 :: (attr.blanks ++ (attr.pair ++ attrs.flatMap HeaderAttribute.text)) := by
    rw [split, List.dropWhile_append_of_pos, List.dropWhile_cons_of_neg (by decide)]
    intro symbol isSymbol
    have differs : symbol ≠ 59 := fun same => noSemicolon (same ▸ isSymbol)
    exact decide_eq_true differs
  have kept : (attr.blanks ++ (attr.pair ++ attrs.flatMap HeaderAttribute.text)).dropWhile
      (fun symbol => decide (symbol = 61)) =
        attr.blanks ++ (attr.pair ++ attrs.flatMap HeaderAttribute.text) := by
    rw [dropWhile_eq_self]
    intro symbol isFirst
    rw [decide_eq_false_iff_not]
    rintro rfl
    cases isBlanks : attr.blanks with
    | nil =>
        rcases List.exists_cons_of_ne_nil attr.isKey.notEmpty with ⟨first, key, isKey⟩
        have token := attr.isKey.tokens first (by simp [isKey])
        have same : first = 61 := by simpa [isBlanks, HeaderAttribute.pair, isKey] using isFirst
        exact ((is2616Token_symbols first).2 token).2 same
    | cons blank blanks =>
        have same : blank = 61 := by simpa [isBlanks] using isFirst
        exact attr.blanks_noSign (by simp [isBlanks, same])
  have leads : LeadsKey [] attr.blanks attr.gap := by
    rcases List.eq_nil_or_concat attr.blanks with isBlanks | ⟨blanks, blank, isBlanks⟩
    · exact .inr ⟨rfl, isBlanks, near.resolve_left (not_not_intro isBlanks)⟩
    · exact .inl ⟨blanks, blank, by simpa using isBlanks, attr.blanks_noToken (by simp [isBlanks])⟩
  have ends : EndsPair (attrs.flatMap HeaderAttribute.text) := by
    simpa using endsPair_flatMap (fun _ => rfl) attrs (show EndsPair [] by simp [EndsPair])
  have found : apreqHeaderAttribute (attr.blanks ++ (attr.pair ++
      attrs.flatMap HeaderAttribute.text)) (bytes "boundary") =
        HeaderAttribute.find (attr :: attrs) (bytes "boundary") := by
    rcases attr.headerAttributeLoop_pair isName_boundary attr.blanks_noSign leads ends with
      ⟨seen, lead, noSign, step⟩
    rw [apreqHeaderAttribute, kept, step, HeaderAttribute.find_cons,
      HeaderAttribute.headerAttributeLoop_attributes isName_boundary attrs seen lead noSign]
  rw [multipartBoundary, cut]
  simp only [found]
  cases HeaderAttribute.find (attr :: attrs) (bytes "boundary") with
  | error => rfl
  | ok => rfl

/-- A boundary behind another attribute. -/
theorem multipartBoundary_attributes_case :
    multipartBoundary (bytes "multipart/form-data; charset=\"a;b\"; boundary=x") =
      some (bytes "x") := by
  let charset : HeaderAttribute := ⟨bytes " ", bytes "charset", [], [], bytes "\"a;b\"",
    ⟨by decide +kernel, by decide +kernel⟩, by decide +kernel,
    @PairValue.quoted (bytes "a;b") (by decide +kernel)⟩
  let boundary : HeaderAttribute := ⟨bytes " ", bytes "boundary", [], [], bytes "x",
    isName_boundary, by decide +kernel, .token (by decide +kernel) (by decide +kernel)⟩
  have text : bytes "multipart/form-data" ++ [charset, boundary].flatMap HeaderAttribute.text =
      bytes "multipart/form-data; charset=\"a;b\"; boundary=x" := by decide +kernel
  have found := @multipartBoundary_attributes (bytes "multipart/form-data") (by decide +kernel)
    charset [boundary] (by decide +kernel)
  rw [text] at found
  exact found.trans (by decide +kernel)

/-! ## Entries -/

theorem aprTableGet_cons (param : Param) (table : ParamTable) (key : Bytes) :
    aprTableGet (param :: table) key =
      if strcaseeq param.name key then some param.value else aprTableGet table key := by
  rw [aprTableGet, List.find?_cons]
  cases strcaseeq param.name key with
  | true => rfl
  | false => rfl

/-- What a form sends for one of its fields, or for a file. -/
structure FormEntry (boundary : Bytes) where
  name : Bytes
  filename : Option Bytes
  /-- The lines behind `Content-Disposition`. -/
  more : List HeaderLine
  content : Bytes
  isName : QuotedText name
  isFilename : ∀ text ∈ filename, QuotedText text
  notMixed : ∀ ct ∈ aprTableGet (more.map HeaderLine.param) (bytes "Content-Type"),
    (bytes "multipart/mixed").isPrefixOf ct = false
  noDelimiter : ¬ bytes "\r\n--" ++ boundary <:+: content
  begins : ¬ bytes "--" ++ boundary <+: content

namespace FormEntry

variable {boundary : Bytes} (entry : FormEntry boundary)

/-- The attribute of a file. -/
def filenameText : Option Bytes → Bytes
  | none => []
  | some filename => bytes "; filename=\"" ++ (filename ++ [34])

/-- The value of `Content-Disposition`. -/
def disposition : Bytes :=
  bytes "form-data; name=\"" ++ (entry.name ++ (34 :: filenameText entry.filename))

/-- The attributes of `Content-Disposition`. -/
def attributes : List HeaderAttribute :=
  quotedAttribute isName_name entry.isName ::
    match _isFile : entry.filename with
    | none => []
    | some filename => [quotedAttribute isName_filename (entry.isFilename filename _isFile)]

theorem disposition_eq :
    entry.disposition = bytes "form-data" ++ entry.attributes.flatMap HeaderAttribute.text := by
  have start : bytes "form-data; name=\"" = bytes "form-data" ++ 59 :: 32 :: (bytes "name" ++
      [61, 34]) := by decide +kernel
  have next : bytes "; filename=\"" = 59 :: 32 :: (bytes "filename" ++ [61, 34]) := by
    decide +kernel
  rw [disposition, attributes, start]
  split
  next none => simp [none, filenameText, quotedAttribute, HeaderAttribute.text, HeaderAttribute.pair]
  next filename isFile =>
    simp [isFile, filenameText, next, quotedAttribute, HeaderAttribute.text, HeaderAttribute.pair]

theorem disposition_name :
    apreqHeaderAttribute entry.disposition (bytes "name") = .ok entry.name := by
  have same : strcaseeq (bytes "name") (bytes "name") = true := by decide +kernel
  rw [disposition_eq, apreqHeaderAttribute_attributes (by decide +kernel) isName_name, attributes,
    HeaderAttribute.find_cons, quotedAttribute, if_pos same]
  exact congrArg Except.ok (withoutQuotes_quoted entry.name)

theorem disposition_filename :
    apreqHeaderAttribute entry.disposition (bytes "filename") =
      match entry.filename with
      | some filename => .ok filename
      | none => .error .noAttr := by
  have other : ¬ strcaseeq (bytes "name") (bytes "filename") = true := by decide +kernel
  have same : strcaseeq (bytes "filename") (bytes "filename") = true := by decide +kernel
  rw [disposition_eq, apreqHeaderAttribute_attributes (by decide +kernel) isName_filename,
    attributes, HeaderAttribute.find_cons, quotedAttribute, if_neg other]
  split
  next none =>
    rw [none]
    rfl
  next filename isFile =>
    rw [HeaderAttribute.find_cons, quotedAttribute, if_pos same, withoutQuotes_quoted, isFile]

theorem filenameText_symbols {filename : Option Bytes}
    (quoted : ∀ text ∈ filename, QuotedText text) :
    ∀ symbol ∈ filenameText filename, symbol ≠ 10 ∧ symbol ≠ 0 := by
  cases filename with
  | none => simp [filenameText]
  | some text =>
      have inside := (quoted text rfl).symbols
      have key : ∀ symbol ∈ bytes "; filename=\"", symbol ≠ 10 ∧ symbol ≠ 0 := by decide +kernel
      have closing : ∀ symbol ∈ [(34 : UInt8)], symbol ≠ 10 ∧ symbol ≠ 0 := by decide +kernel
      rw [filenameText, List.forall_mem_append, List.forall_mem_append]
      exact ⟨key, inside, closing⟩

theorem disposition_symbols : ∀ symbol ∈ entry.disposition, symbol ≠ 10 ∧ symbol ≠ 0 := by
  have key : ∀ symbol ∈ bytes "form-data; name=\"", symbol ≠ 10 ∧ symbol ≠ 0 := by decide +kernel
  have closing : (34 : UInt8) ≠ 10 ∧ (34 : UInt8) ≠ 0 := by decide +kernel
  rw [disposition, List.forall_mem_append, List.forall_mem_append, List.forall_mem_cons]
  exact ⟨key, entry.isName.symbols, closing, filenameText_symbols entry.isFilename⟩

/-- The header of the part. -/
def dispositionLine : HeaderLine where
  name := bytes "Content-Disposition"
  gap := [32]
  value := entry.disposition
  named := by decide +kernel
  isName := by decide +kernel
  begins := by decide +kernel
  isGap := by decide +kernel
  isValue symbol isSymbol := (entry.disposition_symbols symbol isSymbol).1
  beginsValue := by
    have first : entry.disposition.head? = some 102 := rfl
    rw [first]
    decide +kernel
  noNul := ⟨by decide +kernel, fun isSymbol => (entry.disposition_symbols 0 isSymbol).2 rfl⟩

/-- The lines of the part. -/
def lines : List HeaderLine := entry.dispositionLine :: entry.more

/-- What the part is. -/
def kind : PartKind :=
  match entry.filename with
  | none => .field entry.name
  | some filename => .upload ⟨entry.name, filename, true⟩

theorem partKind_lines : partKind (entry.lines.map HeaderLine.param) = some entry.kind := by
  have isDisposition : aprTableGet (entry.lines.map HeaderLine.param)
      (bytes "Content-Disposition") = some entry.disposition := by
    rw [lines, List.map_cons, aprTableGet_cons]
    exact if_pos rfl
  have isType : aprTableGet (entry.lines.map HeaderLine.param) (bytes "Content-Type") =
      aprTableGet (entry.more.map HeaderLine.param) (bytes "Content-Type") := by
    have other : strcaseeq (bytes "Content-Disposition") (bytes "Content-Type") = false := by
      decide +kernel
    rw [lines, List.map_cons, aprTableGet_cons]
    exact if_neg (by simp [HeaderLine.param, dispositionLine, other])
  simp only [partKind, isDisposition, isType, disposition_name, disposition_filename, kind]
  cases entry.filename with
  | some filename => rfl
  | none =>
      cases found : aprTableGet (entry.more.map HeaderLine.param) (bytes "Content-Type") with
      | none => rfl
      | some ct =>
          have notMixed := entry.notMixed ct found
          simp [notMixed]

/-- The part that is sent. -/
def part : FormPart boundary where
  lines := entry.lines
  content := entry.content
  kind := entry.kind
  isKind := entry.partKind_lines
  noDelimiter := entry.noDelimiter
  begins := entry.begins

/-- The parameter that R is given. -/
def param : Param :=
  match entry.filename with
  | none => ⟨entry.name, entry.content, false⟩
  | some filename => ⟨entry.name, filename, true⟩

theorem part_param : entry.part.param = entry.param := by
  unfold param
  cases isFile : entry.filename with
  | none => simp [FormPart.param, part, kind, isFile]
  | some filename => simp [FormPart.param, part, kind, isFile]

/-- The bytes of the file. -/
def file : Option Bytes :=
  match entry.filename with
  | none => none
  | some _ => some entry.content

theorem part_file : entry.part.file = entry.file := by
  unfold file
  cases isFile : entry.filename with
  | none => simp [FormPart.file, part, kind, isFile]
  | some filename => simp [FormPart.file, part, kind, isFile]

end FormEntry

end RApache
