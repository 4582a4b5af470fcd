import RApache.Apreq.MultipartRun

/-!
# What is written for uploads

Each call of `apreq_brigade_concat` appends the brigade of the parser to the brigade of the
upload that is being read.  An upload is named by the index that its parameter has, or will have,
among the uploads in the table.
-/

namespace RApache

/-- One call of `apreq_brigade_concat`: the brigade that an upload is to have behind its own. -/
structure Write where
  upload : Nat
  bb : Brigade
  deriving DecidableEq, Repr

/-- The bytes of the call. -/
def Write.text (write : Write) : Bytes := write.bb.content

/-- The calls for an upload. -/
def writesOf (writes : List Write) (upload : Nat) : List Write :=
  writes.filter fun write => write.upload = upload

/-- The bytes that are written for an upload. -/
def fileOf (writes : List Write) (upload : Nat) : Bytes :=
  (writesOf writes upload).flatMap Write.text

theorem fileOf_append (writes writes' : List Write) (upload : Nat) :
    fileOf (writes ++ writes') upload = fileOf writes upload ++ fileOf writes' upload := by
  simp [fileOf, writesOf]

/-- The bytes that have been written for each upload, in brigades without an end of stream. -/
structure Filed (writes : List Write) (files : List Bytes) : Prop where
  text : ∀ upload, fileOf writes upload = files.getD upload []
  open_ : ∀ write ∈ writes, .eos ∉ write.bb

/-- Nothing has been written for the next upload. -/
theorem filed_next {writes : List Write} {files : List Bytes} :
    Filed writes (files ++ [[]]) ↔ Filed writes files := by
  have same (upload : Nat) : (files ++ [[]]).getD upload [] = files.getD upload [] := by
    simp only [List.getD_eq_getElem?_getD]
    by_cases inside : upload < files.length
    · rw [List.getElem?_append_left inside]
    · rw [List.getElem?_append_right (Nat.le_of_not_lt inside),
        List.getElem?_eq_none (Nat.le_of_not_lt inside)]
      cases upload - files.length with
      | zero => rfl
      | succ index => rfl
  constructor
  · intro filed
    exact ⟨fun upload => by rw [filed.text, same], filed.open_⟩
  · intro filed
    exact ⟨fun upload => by rw [filed.text, same], filed.open_⟩

/-- More bytes for the upload that is being read. -/
theorem Filed.write {writes : List Write} {files : List Bytes} {file : Bytes}
    (filed : Filed writes (files ++ [file])) {bb : Brigade} (open_ : .eos ∉ bb) :
    Filed (writes ++ [⟨files.length, bb⟩]) (files ++ [file ++ bb.content]) := by
  refine ⟨fun upload => ?_, ?_⟩
  · rw [fileOf_append, filed.text upload]
    simp only [List.getD_eq_getElem?_getD]
    by_cases inside : upload < files.length
    · have other : ¬ files.length = upload := by omega
      rw [List.getElem?_append_left inside, List.getElem?_append_left inside]
      simp [fileOf, writesOf, other]
    · rw [List.getElem?_append_right (Nat.le_of_not_lt inside),
        List.getElem?_append_right (Nat.le_of_not_lt inside)]
      cases index : upload - files.length with
      | zero =>
          have same : files.length = upload := by omega
          simp [fileOf, writesOf, Write.text, same]
      | succ index =>
          have other : ¬ files.length = upload := by omega
          simp [fileOf, writesOf, other]
  · intro write isWrite
    rcases List.mem_append.mp isWrite with isWrite | isWrite
    · exact filed.open_ write isWrite
    · rw [List.mem_singleton.mp isWrite]
      exact open_

/-! ## The calls of a run -/

variable {Mix : Type} [MixParser Mix] (env : Environment) (nested : Run Mix → List Write)

/-- The calls of one step; `nested` are those of a run of the parser of nested parts. -/
def mfdWrites (run : Run (MfdCtx Mix)) : List Write :=
  match run.ctx.status with
  | .upload =>
      let split := splitOnBdry true run.ctx.bdry run.ctx.bb run.ctx.in_
      if split.status = .success ∨ split.status = .incomplete then
        [⟨(run.t.filter Param.upload).length, split.out⟩]
      else []
  | .mixed =>
      match run.ctx.mixParser with
      | none => []
      | some mix => nested ⟨mix, run.t, run.ctx.in_, run.spools⟩
  | _ => []

/-- The calls of the label `mfd_parse_brigade`. -/
def mfdLoopWrites (run : Run (MfdCtx Mix)) : List Write :=
  mfdWrites nested run ++
    match _stepped : mfdStep env run with
    | some (.again after) => mfdLoopWrites after
    | _ => []
termination_by run.potential
decreasing_by exact mfdStep_again _stepped

/-- The calls of `apreq_parse_multipart` with a context. -/
def runMultipartWrites (run : Run (MfdCtx Mix)) : List Write :=
  match run.ctx.status with
  | .error | .complete => []
  | _ => mfdLoopWrites env nested run.concat

/-- The calls of the parser of nested parts. -/
def runMixWrites (run : Run MixCtx) : List Write :=
  match run.ctx with
  | none => []
  | some ctx => runMultipartWrites env (fun nested => nested.ctx.elim) { run with ctx := ctx }

theorem mfdLoopWrites_again {run after : Run (MfdCtx Mix)}
    (stepped : mfdStep env run = some (.again after)) :
    mfdLoopWrites env nested run = mfdWrites nested run ++ mfdLoopWrites env nested after := by
  rw [mfdLoopWrites]
  split
  next stepped' =>
    rw [stepped] at stepped'
    cases stepped'
    rfl
  next other => exact absurd stepped (other after)

theorem mfdLoopWrites_stop {run after : Run (MfdCtx Mix)} {status : AprStatus}
    (stepped : mfdStep env run = some (.stop status after)) :
    mfdLoopWrites env nested run = mfdWrites nested run := by
  rw [mfdLoopWrites]
  split
  next stepped' =>
    rw [stepped] at stepped'
    cases stepped'
  next => rw [List.append_nil]

end RApache
