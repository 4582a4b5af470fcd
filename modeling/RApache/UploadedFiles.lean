import RApache.Apreq.Spool
import RApache.MultipartBody

/-!
# Uploaded files

`FILES` names the temporary file of each upload that is not empty, and that file holds the bytes
of its part, however the body is cut and however few bytes each call of `apr_file_writev` writes.
-/

namespace RApache

/-- The file name that `FileUploadsCallback` finds: that of the spool file, unless it is empty. -/
def uploadTmpName (tmpName : Bytes) (upload : UploadBrigade) : Option Bytes :=
  match apreqBrigadeSpoolfile upload with
  | none => none
  | some file => if file = [] then none else some tmpName

/-- The calls of `apreq_brigade_concat` for an upload, with the limit that `parsePost` gives to
`apreq_parser_make`. -/
def uploadRun (fs : FileSystem) (writes : List Write) (upload : Nat) : UploadRun :=
  concatAll fs 0 {} ((writesOf writes upload).map Write.bb)

section Run

variable {fs : FileSystem} {writes : List Write} {files : List Bytes} {upload : Nat}

theorem Filed.brigades_open (filed : Filed writes files) (upload : Nat) :
    ∀ bb ∈ (writesOf writes upload).map Write.bb, Brigade.endsEos bb = false := by
  intro bb isBrigade
  rcases List.mem_map.mp isBrigade with ⟨write, isWrite, rfl⟩
  exact Brigade.not_endsEos (filed.open_ write (List.mem_of_mem_filter isWrite))

theorem Filed.brigades_content (filed : Filed writes files) (upload : Nat) :
    ((writesOf writes upload).map Write.bb).flatMap Brigade.content = files.getD upload [] := by
  rw [List.flatMap_map, ← filed.text upload]
  rfl

theorem uploadRun_works (works : fs.Works) (filed : Filed writes files) :
    (uploadRun fs writes upload).failed = false :=
  concatAll_works works .empty rfl (filed.brigades_open upload)

/-- The spool file of an upload that is not empty. -/
theorem uploadRun_spoolfile (works : fs.Works) (filed : Filed writes files)
    (nonempty : files.getD upload [] ≠ []) :
    apreqBrigadeSpoolfile (uploadRun fs writes upload).out = some (files.getD upload []) := by
  have isFile := filed.brigades_content upload
  have some_ : (writesOf writes upload).map Write.bb ≠ [] := by
    intro none
    rw [none] at isFile
    exact nonempty isFile.symm
  rw [← isFile]
  exact concatAll_spoolfile fs some_ (filed.brigades_open upload) (uploadRun_works works filed)

/-- The name that is found for an upload. -/
theorem uploadTmpName_of (tmpName : Bytes) (works : fs.Works) (filed : Filed writes files) :
    uploadTmpName tmpName (uploadRun fs writes upload).out =
      if files.getD upload [] = [] then none else some tmpName := by
  by_cases empty : files.getD upload [] = []
  · have content := (concatAll_content fs 0 (filed.brigades_open upload)).2.2
      (uploadRun_works works filed)
    rw [filed.brigades_content upload, empty] at content
    rw [if_pos empty, uploadTmpName]
    cases isFile : apreqBrigadeSpoolfile (uploadRun fs writes upload).out with
    | none => rfl
    | some file =>
        have same : file = [] := (content.2 file isFile).trans content.1
        exact if_pos same
  · rw [if_neg empty, uploadTmpName, uploadRun_spoolfile works filed empty]
    exact if_neg empty

end Run

/-! ## The value of `FILES` -/

variable {contentType boundary epilogue : Bytes}

/-- The uploads of a form with the bytes of their files. -/
def formUploads (entries : List (FormEntry boundary)) : List (Param × Bytes) :=
  entries.filterMap fun entry => entry.file.map fun file => (entry.param, file)

/-- `FILES` when the temporary files have these names. -/
def formFiles (tmpNames : Nat → Bytes) (uploads : List (Param × Bytes)) : RValue :=
  if uploads.isEmpty then .null
  else
    .list <| uploads.zipIdx.map fun ((param, file), upload) =>
      if file = [] then (mkChar param.name, .null)
      else
        (mkChar param.name,
          .list [(bytes "name", .character [mkChar param.value]),
            (bytes "tmp_name", .character [mkChar (tmpNames upload)])])

/-- The file system works, and the names of the spool files are those that `FileUploadsCallback`
finds for the calls of `apreq_brigade_concat` in `parsePost`. -/
structure Spools (fs : Nat → FileSystem) (tmpNames : Nat → Bytes) (r : RequestRec)
    (writes : List Write) : Prop where
  works : ∀ upload, (fs upload).Works
  spoolFile : ∀ upload, r.spoolFile upload =
    uploadTmpName (tmpNames upload) (uploadRun (fs upload) writes upload).out

theorem formUploads_params (entries : List (FormEntry boundary)) :
    (entries.map FormEntry.param).filter Param.upload = (formUploads entries).map Prod.fst := by
  induction entries with
  | nil => rfl
  | cons entry entries ih =>
      cases isFile : entry.filename with
      | none => simpa [formUploads, FormEntry.param, FormEntry.file, isFile] using ih
      | some filename => simpa [formUploads, FormEntry.param, FormEntry.file, isFile] using ih

theorem formUploads_files (entries : List (FormEntry boundary)) :
    (entries.map FormEntry.part).filterMap FormPart.file = (formUploads entries).map Prod.snd := by
  induction entries with
  | nil => rfl
  | cons entry entries ih =>
      have isPart := entry.part_file
      cases isFile : entry.filename with
      | none => simpa [formUploads, FormEntry.file, isFile, isPart] using ih
      | some filename => simpa [formUploads, FormEntry.file, isFile, isPart] using ih

/-- `FILES` of a form has each of its uploads, and names a temporary file for those that are not
empty, in which their bytes are. -/
theorem parsePost_files {fs : Nat → FileSystem} {tmpNames : Nat → Bytes}
    (noCr : 13 ∉ boundary) (entries : List (FormEntry boundary)) {s : Session} {r : RequestRec}
    {body : Delivery} {fuel : Nat} (unread : Session.Unread r s)
    (posts : PostsParts s r contentType boundary body)
    (isBody : body.bytes = multipartText boundary epilogue (entries.map FormEntry.part))
    (enough : body.brigades.length ≤ fuel)
    (spools : Spools fs tmpNames r (parsePostWrites r.apreq body.getBrigade fuel 0
      (parsePostStart contentType .multipart))) :
    (s.parsePost fuel false).1 = .returned (formFiles tmpNames (formUploads entries)) ∧
      ∀ upload param file, (formUploads entries)[upload]? = some (param, file) → file ≠ [] →
        apreqBrigadeSpoolfile (uploadRun (fs upload) (parsePostWrites r.apreq body.getBrigade
          fuel 0 (parsePostStart contentType .multipart)) upload).out = some file := by
  rcases parsePostLoop_multipart posts.stores posts.isBoundary noCr _ isBody enough with
    ⟨reads, run, looped, table, filed⟩
  rw [formUploads_files] at filed
  have isFile {upload : Nat} {param : Param} {file : Bytes}
      (isUpload : (formUploads entries)[upload]? = some (param, file)) :
      ((formUploads entries).map Prod.snd).getD upload [] = file := by
    simp [List.getD_eq_getElem?_getD, isUpload]
  constructor
  · rw [(multipartForm_values noCr entries unread posts isBody enough).2, filesValue,
      formUploads_params, formFiles, List.isEmpty_map]
    congr 3
    rw [Session.fileUploads, List.zipIdx_map, List.map_map]
    refine List.map_congr_left ?_
    rintro ⟨⟨param, file⟩, upload⟩ isUpload
    have found := isFile (List.mem_zipIdx_iff_getElem?.mp isUpload)
    have isName := spools.spoolFile upload
    rw [uploadTmpName_of (tmpNames upload) (spools.works upload) filed, found] at isName
    simp only [Function.comp_apply, Prod.map_apply, id_eq, isName]
    by_cases empty : file = []
    · rw [if_pos empty, if_pos empty]
    · rw [if_neg empty, if_neg empty]
  · intro upload param file isUpload nonempty
    have found := isFile isUpload
    rw [← found] at nonempty ⊢
    exact uploadRun_spoolfile (spools.works upload) filed nonempty

/-- A file system that writes one byte at a time. -/
def slowDisk : FileSystem where
  mktemp _ := none
  seek _ := none
  writev _ := (none, 1)

/-- A request whose uploads are stored there. -/
def spooledRequest (fuel : Nat) (body : Delivery) : RequestRec :=
  { partsRequest body with
    spoolFile := fun upload => uploadTmpName (bytes "/tmp/apreqAb3dEf")
      (uploadRun slowDisk (parsePostWrites ⟨.ok, fun _ => .stored⟩ body.getBrigade fuel 0
        (parsePostStart (bytes "multipart/form-data; boundary=b") .multipart)) upload).out }

theorem parsePost_files_cut :
    (({ request := { r := some (spooledRequest 5 cutParts) } } : Session).parsePost 5 false).1 =
        .returned (formFiles (fun _ => bytes "/tmp/apreqAb3dEf") (formUploads sampleEntries)) ∧
      ∀ upload param file, (formUploads sampleEntries)[upload]? = some (param, file) → file ≠ [] →
        apreqBrigadeSpoolfile (uploadRun slowDisk (parsePostWrites ⟨.ok, fun _ => .stored⟩
          cutParts.getBrigade 5 0
          (parsePostStart (bytes "multipart/form-data; boundary=b") .multipart)) upload).out =
            some file := by
  have posts : PostsParts { request := { r := some (spooledRequest 5 cutParts) } }
      (spooledRequest 5 cutParts) (bytes "multipart/form-data; boundary=b") (bytes "b") cutParts :=
    ⟨postParser_multipart rfl rfl, by decide +kernel, fun _ => rfl, fun read => by
      simp [spooledRequest, partsRequest, Session.limits]⟩
  have spools : Spools (fun _ => slowDisk) (fun _ => bytes "/tmp/apreqAb3dEf")
      (spooledRequest 5 cutParts) (parsePostWrites ⟨.ok, fun _ => .stored⟩ cutParts.getBrigade 5 0
        (parsePostStart (bytes "multipart/form-data; boundary=b") .multipart)) :=
    ⟨fun _ => ⟨fun _ => rfl, fun _ => rfl, fun _ => ⟨rfl, Nat.one_pos⟩⟩, fun _ => rfl⟩
  exact parsePost_files (by decide +kernel) sampleEntries ⟨rfl, rfl, rfl⟩ posts cutParts_bytes
    (show cutParts.brigades.length ≤ 5 by decide +kernel) spools

end RApache
