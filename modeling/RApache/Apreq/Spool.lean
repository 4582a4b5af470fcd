import RApache.Apreq.Brigade
import RApache.Library.Pieces

/-!
# Spool files

`apreq_brigade_concat` appends a brigade to the brigade of an upload.  As long as both stay below
the limit they stay in memory; then all that the upload has is copied to a temporary file, and the
upload ends in a bucket for what is written behind that copy.  A call of `apr_file_writev` may
write fewer bytes than it is given.
-/

namespace RApache

open Incremental

/-- What the file system answers to the calls that are made of it, which are counted together. -/
structure FileSystem where
  /-- The error of `apreq_file_mktemp`. -/
  mktemp : Nat → Option Nat
  /-- The error of `apr_file_seek`. -/
  seek : Nat → Option Nat
  /-- The error of `apr_file_writev` and the most bytes that it writes. -/
  writev : Nat → Option Nat × Nat

variable (fs : FileSystem)

/-! ## Writing a brigade -/

/-- How `apreq_fwritev` returns: the buffers that are left of `v`, and `*bytes_written`. -/
structure Fwritev where
  status : AprStatus
  left : List Bytes
  written : Nat
  file : Bytes
  calls : Nat

/-- `apreq_fwritev`, at a position of the file and with `*bytes_written` so far. -/
def apreqFwritev (position : Nat) (v : List Bytes) (written : Nat) (file : Bytes)
    (calls : Nat) : Fwritev :=
  let len := min (fs.writev calls).2 v.flatten.length
  let file := overwrite file (position + written) (v.flatten.take len)
  match (fs.writev calls).1 with
  | some error => ⟨.other error, v, written + len, file, calls + 1⟩
  | none =>
      match _shifted : dropWritten len v with
      | (_, []) => ⟨.success, [], written + len, file, calls + 1⟩
      | (_ + 1, buffer :: left) =>
          ⟨.success, buffer :: left, written + len, file, calls + 1⟩
      | (0, buffer :: left) =>
          -- The first buffer is not yet written: look for an endless loop.
          if _stuck : len = 0 then ⟨.general, v, written, file, calls + 1⟩
          else apreqFwritev position (buffer :: left) (written + len) file (calls + 1)
termination_by v.flatten.length
decreasing_by
  have rest := congrArg List.length (dropWritten_flatten len v)
  rw [_shifted, List.length_drop] at rest
  dsimp only at rest
  omega

/-- A call that succeeds has written at least the first buffer. -/
theorem apreqFwritev_shorter {position written : Nat} {v : List Bytes} {file : Bytes} {calls : Nat}
    (success : (apreqFwritev fs position v written file calls).status = .success)
    (nonempty : v ≠ []) :
    (apreqFwritev fs position v written file calls).left.length < v.length := by
  fun_induction apreqFwritev fs position v written file calls with
  | case1 v written file calls len file' error failed => cases success
  | case2 v written file calls len file' ok whole shifted =>
      exact List.length_pos_of_ne_nil nonempty
  | case3 v written file calls len file' ok whole buffer left shifted =>
      have fewer := dropWritten_length len v
      rw [shifted] at fewer
      simp only at fewer ⊢
      omega
  | case4 v written file calls len file' ok buffer left shifted stuck => cases success
  | case5 v written file calls len file' ok buffer left shifted goesOn ih =>
      have fewer := dropWritten_length len v
      rw [shifted] at fewer
      have less := ih success (by simp)
      simp only at fewer
      omega

/-- What a call of `apreq_fwritev` has written, and what it has left. -/
structure Fwritev.Spec (position : Nat) (v : List Bytes) (written : Nat) (file text rest : Bytes)
    (out : Fwritev) : Prop where
  whole : v.flatten = text ++ rest
  file : out.file = overwrite file (position + written) text
  written : out.written = written + text.length
  left : out.status = .success → out.left.flatten = rest

/-- One call of `apr_file_writev` that is the last one. -/
theorem Fwritev.spec_of {position written len : Nat} {v left : List Bytes} {file : Bytes}
    (fits : len ≤ v.flatten.length) (status : AprStatus) (calls : Nat)
    (isLeft : status = .success → left.flatten = v.flatten.drop len) :
    Fwritev.Spec position v written file (v.flatten.take len) (v.flatten.drop len)
      ⟨status, left, written + len, overwrite file (position + written) (v.flatten.take len),
        calls⟩ where
  whole := (List.take_append_drop len _).symm
  file := rfl
  written := by rw [List.length_take, Nat.min_eq_left fits]
  left := isLeft

theorem apreqFwritev_spec {position written : Nat} {v : List Bytes} {file : Bytes} (calls : Nat)
    (inside : position + written ≤ file.length) :
    ∃ text rest, (apreqFwritev fs position v written file calls).Spec position v written file
      text rest := by
  fun_induction apreqFwritev fs position v written file calls with
  | case1 v written file calls len file' error failed =>
      exact ⟨_, _, Fwritev.spec_of (Nat.min_le_right _ _) _ _ (by simp)⟩
  | case2 v written file calls len file' ok whole shifted =>
      have rest := dropWritten_flatten len v
      rw [shifted] at rest
      exact ⟨_, _, Fwritev.spec_of (Nat.min_le_right _ _) _ _ fun _ => rest⟩
  | case3 v written file calls len file' ok whole buffer left shifted =>
      have rest := dropWritten_flatten len v
      rw [shifted] at rest
      exact ⟨_, _, Fwritev.spec_of (Nat.min_le_right _ _) _ _ fun _ => rest⟩
  | case4 v written file calls len file' ok buffer left shifted stuck =>
      have nothing : file' = overwrite file (position + written) (v.flatten.take 0) := by
        rw [← stuck]
      rw [nothing]
      exact ⟨_, _, Fwritev.spec_of (Nat.zero_le _) _ _ (by simp)⟩
  | case5 v written file calls len file' ok buffer left shifted goesOn ih =>
      have rest := dropWritten_flatten len v
      rw [shifted] at rest
      have length : (v.flatten.take len).length = len := by
        rw [List.length_take, Nat.min_eq_left (Nat.min_le_right _ _)]
      have end_ : position + (written + len) = position + written + (v.flatten.take len).length := by
        rw [length, Nat.add_assoc]
      have inside' : position + (written + len) ≤ file'.length := by
        rw [length_overwrite inside, ← end_]
        exact Nat.le_max_right _ _
      rcases ih inside' with ⟨text, rest', spec⟩
      refine ⟨v.flatten.take len ++ text, rest', ?_, ?_, ?_, spec.left⟩
      · rw [List.append_assoc, ← spec.whole, rest, List.take_append_drop]
      · rw [spec.file, end_, overwrite_append inside]
      · rw [spec.written, List.length_append, length, Nat.add_assoc]

/-- How `apreq_brigade_fwrite` returns, with `*wlen`. -/
structure Fwrite where
  status : AprStatus
  wlen : Nat
  file : Bytes
  calls : Nat

/-- `APREQ_DEFAULT_NELTS`. -/
def apreqDefaultNelts : Nat := 8

/-- The loop of `apreq_brigade_fwrite` behind the buckets. -/
def fwriteRest (position : Nat) (v : List Bytes) (wlen : Nat) (file : Bytes) (calls : Nat) :
    Fwrite :=
  if _empty : v = [] then ⟨.success, wlen, file, calls⟩
  else
    let part := apreqFwritev fs (position + wlen) v 0 file calls
    if _success : part.status = .success then
      fwriteRest position part.left (wlen + part.written) part.file part.calls
    else ⟨part.status, wlen, part.file, part.calls⟩
termination_by v.length
decreasing_by exact apreqFwritev_shorter fs _success _empty

/-- The loop over the buckets.  Of each of them it gets its bytes; it writes when `v` is full. -/
def fwriteBuckets (position : Nat) (v : List Bytes) (wlen : Nat) (file : Bytes) (calls : Nat) :
    (buffers : List Bytes) → Fwrite
  | [] => fwriteRest fs position v wlen file calls
  | buffer :: buffers =>
      if v.length = apreqDefaultNelts then
        let part := apreqFwritev fs (position + wlen) v 0 file calls
        if part.status = .success then
          fwriteBuckets position (part.left ++ [buffer]) (wlen + part.written) part.file part.calls
            buffers
        else ⟨part.status, wlen, part.file, part.calls⟩
      else fwriteBuckets position (v ++ [buffer]) wlen file calls buffers

/-- `apreq_brigade_fwrite` of buckets with these bytes, at a position of the file. -/
def apreqBrigadeFwrite (position : Nat) (file : Bytes) (calls : Nat) (buffers : List Bytes) :
    Fwrite :=
  fwriteBuckets fs position [] 0 file calls buffers

/-- What is written of a text, from `wlen` on. -/
structure Fwrite.Spec (position wlen : Nat) (file whole text : Bytes) (out : Fwrite) : Prop where
  part : text <+: whole
  file : out.file = overwrite file (position + wlen) text
  success : out.status = .success → text = whole ∧ out.wlen = wlen + whole.length

/-- A first part has been written. -/
theorem Fwrite.Spec.behind {position wlen : Nat} {file first rest text : Bytes} {out : Fwrite}
    (inside : position + wlen ≤ file.length)
    (spec : out.Spec position (wlen + first.length) (overwrite file (position + wlen) first) rest
      text) : out.Spec position wlen file (first ++ rest) (first ++ text) where
  part := (List.prefix_append_right_inj first).mpr spec.part
  file := by rw [spec.file, ← Nat.add_assoc, overwrite_append inside]
  success isSuccess := by
    rcases spec.success isSuccess with ⟨rfl, isLength⟩
    exact ⟨rfl, by rw [isLength, List.length_append, Nat.add_assoc]⟩

theorem fwriteRest_spec {position wlen : Nat} {v : List Bytes} {file : Bytes} {calls : Nat}
    (inside : position + wlen ≤ file.length) :
    ∃ text, (fwriteRest fs position v wlen file calls).Spec position wlen file v.flatten text := by
  fun_induction fwriteRest fs position v wlen file calls with
  | case1 wlen file calls => exact ⟨[], List.prefix_refl [], by simp, fun _ => ⟨rfl, rfl⟩⟩
  | case2 v wlen file calls nonempty part success ih =>
      rcases apreqFwritev_spec fs calls (show position + wlen + 0 ≤ file.length from inside) with
        ⟨first, rest, spec⟩
      have isWritten : part.written = first.length := by rw [spec.written, Nat.zero_add]
      have isFile : part.file = overwrite file (position + wlen) first := spec.file
      have inside' : position + (wlen + part.written) ≤ part.file.length := by
        rw [isWritten, isFile, length_overwrite inside, Nat.add_assoc]
        exact Nat.le_max_right _ _
      rcases ih inside' with ⟨text, later⟩
      rw [isWritten, isFile, spec.left success] at later
      rw [spec.whole, isWritten, isFile]
      exact ⟨first ++ text, later.behind inside⟩
  | case3 v wlen file calls nonempty part failed =>
      rcases apreqFwritev_spec fs calls (show position + wlen + 0 ≤ file.length from inside) with
        ⟨first, rest, spec⟩
      rw [spec.whole]
      exact ⟨first, List.prefix_append _ _, spec.file, fun success => absurd success failed⟩

theorem fwriteBuckets_spec {position wlen : Nat} {v : List Bytes} {file : Bytes} {calls : Nat}
    (inside : position + wlen ≤ file.length) (buffers : List Bytes) :
    ∃ text, (fwriteBuckets fs position v wlen file calls buffers).Spec position wlen file
      (v.flatten ++ buffers.flatten) text := by
  induction buffers generalizing v wlen file calls with
  | nil =>
      rw [List.flatten_nil, List.append_nil]
      exact fwriteRest_spec fs inside
  | cons buffer buffers ih =>
      rw [fwriteBuckets]
      split
      next full =>
        rcases apreqFwritev_spec fs calls (show position + wlen + 0 ≤ file.length from inside) with
          ⟨first, rest, spec⟩
        generalize isPart : apreqFwritev fs (position + wlen) v 0 file calls = part at spec
        have isWritten : part.written = first.length := by rw [spec.written, Nat.zero_add]
        have isFile : part.file = overwrite file (position + wlen) first := spec.file
        dsimp only
        split
        next success =>
          have inside' : position + (wlen + part.written) ≤ part.file.length := by
            rw [isWritten, isFile, length_overwrite inside, Nat.add_assoc]
            exact Nat.le_max_right _ _
          rcases @ih _ (part.left ++ [buffer]) _ part.calls inside' with ⟨text, later⟩
          rw [isWritten, isFile] at later
          rw [spec.whole, List.append_assoc]
          refine ⟨first ++ text, Fwrite.Spec.behind inside ?_⟩
          rw [isWritten, isFile]
          simpa [spec.left success] using later
        next failed =>
          rw [spec.whole, List.append_assoc]
          exact ⟨first, List.prefix_append _ _, spec.file, fun success => absurd success failed⟩
      next =>
        have later := @ih _ (v ++ [buffer]) _ calls inside
        simpa using later

/-- `apreq_brigade_fwrite` writes the bytes of its buckets one behind the other, or the beginning
of them if it fails. -/
theorem apreqBrigadeFwrite_spec {position : Nat} {file : Bytes} (calls : Nat)
    (buffers : List Bytes) (inside : position ≤ file.length) :
    ∃ text, (apreqBrigadeFwrite fs position file calls buffers).Spec position 0 file
      buffers.flatten text :=
  @fwriteBuckets_spec fs position 0 [] file calls inside buffers

/-! ## The brigade of an upload -/

/-- A bucket of an upload: one that was handed over, or the spool bucket with its file. -/
inductive UploadBucket where
  | bucket (bucket : Bucket)
  | spool (file : Bytes) (start length : Nat)
  deriving DecidableEq, Repr

namespace UploadBucket

/-- What `apr_bucket_read` returns. -/
def read : UploadBucket → Bytes
  | .bucket e => e.read
  | .spool file start length => (file.drop start).take length

/-- The member `length`. -/
def length : UploadBucket → Nat
  | .bucket e => e.read.length
  | .spool _ _ length => length

end UploadBucket

/-- The member `upload` of a parameter. -/
abbrev UploadBrigade := List UploadBucket

namespace UploadBrigade

/-- The bytes of the upload. -/
def content (out : UploadBrigade) : Bytes := out.flatMap UploadBucket.read

/-- `apr_brigade_length`. -/
def size (out : UploadBrigade) : Nat := (out.map UploadBucket.length).sum

end UploadBrigade

/-- `apreq_brigade_spoolfile`, with the bytes of the file. -/
def apreqBrigadeSpoolfile (out : UploadBrigade) : Option Bytes :=
  match out.getLast? with
  | some (.spool file _ _) => some file
  | _ => none

/-- How `apreq_brigade_concat` returns. -/
structure Concat where
  status : AprStatus
  out : UploadBrigade
  in_ : Brigade
  calls : Nat

/-- The part of `apreq_brigade_concat` that writes `in` behind the spool bucket; `before` are the
buckets before it. -/
def spoolIn (before : UploadBrigade) (file : Bytes) (start length : Nat) (in_ : Brigade)
    (calls : Nat) : Concat :=
  let data := if in_.endsEos then in_.dropLast else in_
  let written := apreqBrigadeFwrite fs (start + length) file calls (data.map Bucket.read)
  if written.status = .success then
    let eos := if in_.endsEos then [.bucket .eos] else []
    ⟨.success, before ++ .spool written.file start (length + written.wlen) :: eos, [],
      written.calls⟩
  else ⟨written.status, before ++ [.spool written.file start length], [], written.calls⟩

/-- `apreq_brigade_concat`. -/
def apreqBrigadeConcat (heapLimit calls : Nat) (out : UploadBrigade) (in_ : Brigade) : Concat :=
  if out.getLast? = some (.bucket .eos) then ⟨.eof, out, in_, calls⟩
  else if out.size < heapLimit ∧ in_.size < heapLimit - out.size then
    ⟨.success, out ++ in_.map .bucket, [], calls⟩
  else
    match out.getLast? with
    | some (.spool file start length) =>
        match fs.seek calls with
        | some error => ⟨.other error, out, in_, calls + 1⟩
        | none => spoolIn fs out.dropLast file start length in_ (calls + 1)
    | _ =>
        match fs.mktemp calls with
        | some error => ⟨.other error, out, in_, calls + 1⟩
        | none =>
            let copied := apreqBrigadeFwrite fs 0 [] (calls + 1) (out.map UploadBucket.read)
            if copied.status = .success then
              spoolIn fs out copied.file copied.wlen 0 in_ copied.calls
            else ⟨copied.status, out, in_, copied.calls⟩

/-- The upload has these bytes.  If it ends in a spool bucket then all of them begin its file, and
they are the whole file as long as no call has failed. -/
structure UploadBrigade.Holds (out : UploadBrigade) (text : Bytes) (failed : Bool) : Prop where
  content : out.content = text
  open_ : out.getLast? ≠ some (.bucket .eos)
  spool : ∀ file start length, out.getLast? = some (.spool file start length) →
    ∃ more, file = text ++ more ∧ start + length = text.length ∧ (failed = false → more = [])

theorem UploadBrigade.Holds.empty : UploadBrigade.Holds [] [] false :=
  ⟨rfl, by simp, by simp⟩

namespace UploadBrigade

theorem content_append (left right : UploadBrigade) :
    content (left ++ right) = left.content ++ right.content :=
  List.flatMap_append

theorem content_buckets (bb : Brigade) : content (bb.map .bucket) = bb.content := by
  rw [content, List.flatMap_map]
  rfl

theorem content_spool {text more : Bytes} {start length : Nat}
    (isEnd : start + length = text.length) :
    content [.spool (text ++ more) start length] = text.drop start := by
  have fits : start ≤ text.length := by omega
  have size : (text.drop start).length = length := by
    rw [List.length_drop]
    omega
  rw [content, List.flatMap_singleton, UploadBucket.read, List.drop_append_of_le_length fits,
    List.take_left' size]

theorem flatten_read (out : UploadBrigade) : (out.map UploadBucket.read).flatten = out.content :=
  List.flatMap_def.symm

end UploadBrigade

/-- An upload whose last bucket is a spool bucket. -/
theorem UploadBrigade.Holds.of_spool {before : UploadBrigade} {text more : Bytes}
    {start length : Nat} {failed : Bool} (isBefore : before.content = text.take start)
    (isEnd : start + length = text.length) (exact_ : failed = false → more = []) :
    UploadBrigade.Holds (before ++ [.spool (text ++ more) start length]) text failed where
  content := by
    rw [content_append, isBefore, content_spool isEnd, List.take_append_drop]
  open_ := by simp
  spool file' start' length' isLast := by
    rw [List.getLast?_concat] at isLast
    cases isLast
    exact ⟨more, rfl, isEnd, exact_⟩

/-- What is in memory before the spool bucket. -/
theorem UploadBrigade.Holds.before {out : UploadBrigade} {text file : Bytes} {start length : Nat}
    {failed : Bool} (holds : out.Holds text failed)
    (isLast : out.getLast? = some (.spool file start length)) :
    UploadBrigade.content out.dropLast = text.take start := by
  rcases holds.spool file start length isLast with ⟨more, rfl, isEnd, -⟩
  have whole := holds.content
  rw [← List.dropLast_append_getLast? _ isLast, content_append, content_spool isEnd] at whole
  nth_rewrite 2 [← List.take_append_drop start text] at whole
  exact List.append_cancel_right whole

theorem content_dropEos {in_ : Brigade} (ends : in_.endsEos) :
    Brigade.content in_.dropLast = in_.content := by
  have isLast : in_.getLast? = some .eos := by simpa [Brigade.endsEos] using ends
  conv_rhs => rw [← List.dropLast_append_getLast? _ isLast]
  simp [Bucket.read]

theorem spoolIn_open {in_ : Brigade} (open_ : in_.endsEos = false) {before : UploadBrigade}
    {file : Bytes} {start length calls : Nat} :
    spoolIn fs before file start length in_ calls =
      let written := apreqBrigadeFwrite fs (start + length) file calls (in_.map Bucket.read)
      if written.status = .success then
        ⟨.success, before ++ [.spool written.file start (length + written.wlen)], [], written.calls⟩
      else ⟨written.status, before ++ [.spool written.file start length], [], written.calls⟩ := by
  simp [spoolIn, open_]

/-- A call that writes `in` either appends it or leaves the upload as it is. -/
theorem spoolIn_spec {before : UploadBrigade} {text more : Bytes} {start length : Nat}
    {failed : Bool} {in_ : Brigade} (calls : Nat) (isBefore : before.content = text.take start)
    (isEnd : start + length = text.length) (exact_ : failed = false → more = [])
    (open_ : in_.endsEos = false) :
    ((spoolIn fs before (text ++ more) start length in_ calls).status = .success →
      (spoolIn fs before (text ++ more) start length in_ calls).out.Holds (text ++ in_.content)
        failed) ∧
    ((spoolIn fs before (text ++ more) start length in_ calls).status ≠ .success →
      (spoolIn fs before (text ++ more) start length in_ calls).out.Holds text true) := by
  have inside : start + length ≤ (text ++ more).length := by
    rw [isEnd, List.length_append]
    exact Nat.le_add_right _ _
  rcases apreqBrigadeFwrite_spec fs calls (in_.map Bucket.read) inside with ⟨part, spec⟩
  have isFile : (apreqBrigadeFwrite fs (start + length) (text ++ more) calls
      (in_.map Bucket.read)).file = text ++ (part ++ more.drop part.length) := by
    rw [spec.file, Nat.add_zero, overwrite, isEnd, List.take_left, List.drop_length_add_append]
  have isBytes : (in_.map Bucket.read).flatten = in_.content := List.flatMap_def.symm
  rw [isBytes] at spec
  generalize isWrite : apreqBrigadeFwrite fs (start + length) (text ++ more) calls
    (in_.map Bucket.read) = written at spec isFile
  simp only [spoolIn_open fs open_, isWrite]
  split
  next success =>
    refine ⟨fun _ => ?_, fun failed => absurd rfl failed⟩
    rcases spec.success success with ⟨rfl, isLength⟩
    rw [isFile, ← List.append_assoc]
    refine .of_spool ?_ ?_ fun exact' => by rw [exact_ exact', List.drop_nil]
    · have fits : start ≤ text.length := by omega
      rw [isBefore, List.take_append_of_le_length fits]
    · rw [List.length_append, isLength]
      omega
  next error =>
    refine ⟨fun success => absurd success error, fun _ => ?_⟩
    rw [isFile]
    exact .of_spool isBefore isEnd (by simp)

theorem UploadBrigade.Holds.failing {out : UploadBrigade} {text : Bytes} {failed : Bool}
    (holds : out.Holds text failed) : out.Holds text true where
  content := holds.content
  open_ := holds.open_
  spool file start length isLast := by
    rcases holds.spool file start length isLast with ⟨more, isFile, isEnd, -⟩
    exact ⟨more, isFile, isEnd, by simp⟩

/-- A call either appends its brigade or leaves what can be read of the upload as it is. -/
theorem apreqBrigadeConcat_spec (heapLimit calls : Nat) {out : UploadBrigade} {in_ : Brigade}
    {text : Bytes} {failed : Bool} (holds : out.Holds text failed) (open_ : in_.endsEos = false) :
    ((apreqBrigadeConcat fs heapLimit calls out in_).status = .success →
      (apreqBrigadeConcat fs heapLimit calls out in_).out.Holds (text ++ in_.content) failed) ∧
    ((apreqBrigadeConcat fs heapLimit calls out in_).status ≠ .success →
      (apreqBrigadeConcat fs heapLimit calls out in_).out.Holds text true) := by
  unfold apreqBrigadeConcat
  rw [if_neg holds.open_]
  split
  next small =>
    refine ⟨fun _ => ?_, fun failed => absurd rfl failed⟩
    rcases List.eq_nil_or_concat' in_ with rfl | ⟨front, last, rfl⟩
    · simpa using holds
    · have isLast : (out ++ (front ++ [last]).map UploadBucket.bucket).getLast? =
          some (.bucket last) := by
        rw [List.map_append, ← List.append_assoc]
        exact List.getLast?_concat
      refine ⟨?_, ?_, ?_⟩
      · rw [UploadBrigade.content_append, UploadBrigade.content_buckets, holds.content]
      · simpa [isLast, Brigade.endsEos] using open_
      · intro file start length isSpool
        cases isLast.symm.trans isSpool
  next large =>
    split
    next file start length isLast =>
      split
      next error refused => exact ⟨by simp, fun _ => holds.failing⟩
      next =>
        rcases holds.spool file start length isLast with ⟨more, rfl, isEnd, exact_⟩
        exact spoolIn_spec fs _ (holds.before isLast) isEnd exact_ open_
    next notSpool =>
      split
      next error refused => exact ⟨by simp, fun _ => holds.failing⟩
      next =>
        rcases apreqBrigadeFwrite_spec fs (calls + 1) (out.map UploadBucket.read)
          (Nat.zero_le (List.length [])) with ⟨part, spec⟩
        dsimp only
        split
        next success =>
          rcases spec.success success with ⟨isPart, isLength⟩
          rw [UploadBrigade.flatten_read, holds.content] at isPart isLength
          have isFile : (apreqBrigadeFwrite fs 0 [] (calls + 1)
              (out.map UploadBucket.read)).file = text ++ [] := by
            rw [spec.file, isPart]
            simp [overwrite]
          have isEnd : (apreqBrigadeFwrite fs 0 [] (calls + 1)
              (out.map UploadBucket.read)).wlen + 0 = text.length := by
            rw [isLength, Nat.zero_add, Nat.add_zero]
          rw [isFile]
          refine spoolIn_spec fs _ ?_ isEnd (fun _ => rfl) open_
          rw [holds.content, ← Nat.add_zero (Fwrite.wlen _), isEnd, List.take_length]
        next error => exact ⟨fun success => absurd success error, fun _ => holds.failing⟩

/-! ## All brigades of an upload -/

/-- An upload with the bytes of the calls that have succeeded. -/
structure UploadRun where
  out : UploadBrigade := []
  stored : Bytes := []
  failed : Bool := false
  calls : Nat := 0

/-- The calls of `apreq_brigade_concat` for an upload, one after the other. -/
def concatAll (heapLimit : Nat) (run : UploadRun) : (brigades : List Brigade) → UploadRun
  | [] => run
  | in_ :: brigades =>
      let step := apreqBrigadeConcat fs heapLimit run.calls run.out in_
      let stored := if step.status = .success then in_.content else []
      concatAll heapLimit ⟨step.out, run.stored ++ stored,
        run.failed || decide (step.status ≠ .success), step.calls⟩ brigades

theorem concatAll_holds {heapLimit : Nat} {run : UploadRun} {brigades : List Brigade}
    (holds : run.out.Holds run.stored run.failed)
    (open_ : ∀ in_ ∈ brigades, Brigade.endsEos in_ = false) :
    (concatAll fs heapLimit run brigades).out.Holds (concatAll fs heapLimit run brigades).stored
      (concatAll fs heapLimit run brigades).failed := by
  induction brigades generalizing run with
  | nil => exact holds
  | cons in_ brigades ih =>
      rw [concatAll]
      refine ih ?_ fun in_ isLater => open_ in_ (List.mem_cons_of_mem _ isLater)
      rcases apreqBrigadeConcat_spec fs heapLimit run.calls holds
        (open_ in_ List.mem_cons_self) with ⟨appends, leaves⟩
      by_cases success : (apreqBrigadeConcat fs heapLimit run.calls run.out in_).status = .success
      · simpa [success] using appends success
      · simpa [success] using leaves success

theorem concatAll_stored {heapLimit : Nat} {run : UploadRun} {brigades : List Brigade}
    (succeeds : (concatAll fs heapLimit run brigades).failed = false) :
    run.failed = false ∧ (concatAll fs heapLimit run brigades).stored =
      run.stored ++ brigades.flatMap Brigade.content := by
  induction brigades generalizing run with
  | nil => exact ⟨succeeds, (List.append_nil _).symm⟩
  | cons in_ brigades ih =>
      rw [concatAll] at succeeds ⊢
      rcases ih succeeds with ⟨notFailed, stored⟩
      simp only [Bool.or_eq_false_iff, decide_eq_false_iff_not, not_not] at notFailed
      refine ⟨notFailed.1, ?_⟩
      rw [stored, if_pos notFailed.2, List.append_assoc, List.flatMap_cons]

/-- Whatever the limit is, and however few bytes the calls of `apr_file_writev` write, an upload has
the bytes of the calls that have succeeded, and a spool file begins with them. -/
theorem concatAll_content (heapLimit : Nat) {brigades : List Brigade}
    (open_ : ∀ in_ ∈ brigades, Brigade.endsEos in_ = false) :
    let run := concatAll fs heapLimit {} brigades
    run.out.content = run.stored ∧
      (∀ file ∈ apreqBrigadeSpoolfile run.out, run.stored <+: file) ∧
      (run.failed = false → run.stored = brigades.flatMap Brigade.content ∧
        ∀ file ∈ apreqBrigadeSpoolfile run.out, file = run.stored) := by
  intro run
  have holds : run.out.Holds run.stored run.failed := concatAll_holds fs .empty open_
  have spooled {file : Bytes} (isFile : file ∈ apreqBrigadeSpoolfile run.out) :
      ∃ more, file = run.stored ++ more ∧ (run.failed = false → more = []) := by
    unfold apreqBrigadeSpoolfile at isFile
    split at isFile
    next found start length isLast =>
      cases isFile
      rcases holds.spool file start length isLast with ⟨more, isFile, -, exact_⟩
      exact ⟨more, isFile, exact_⟩
    next => cases isFile
  refine ⟨holds.content, fun file isFile => ?_, fun succeeds => ⟨?_, fun file isFile => ?_⟩⟩
  · rcases spooled isFile with ⟨more, rfl, -⟩
    exact List.prefix_append _ _
  · exact (concatAll_stored fs succeeds).2
  · rcases spooled isFile with ⟨more, rfl, exact_⟩
    rw [exact_ succeeds, List.append_nil]

/-- A full disk, to which at most two bytes are written at a time. -/
def fullDisk : FileSystem where
  mktemp _ := none
  seek _ := none
  writev call := (if call = 5 then some 28 else none, 2)

theorem concatAll_content_full :
    let run := concatAll fullDisk 3 {}
      [[.data (bytes "a"), .data (bytes "b")], [.data (bytes "cde")], [.data (bytes "fg")],
        [.data (bytes "h")]]
    run.out.content = run.stored ∧
      (∀ file ∈ apreqBrigadeSpoolfile run.out, run.stored <+: file) ∧
      (run.failed = false → run.stored = List.flatMap Brigade.content
          [[.data (bytes "a"), .data (bytes "b")], [.data (bytes "cde")], [.data (bytes "fg")],
            [.data (bytes "h")]] ∧
        ∀ file ∈ apreqBrigadeSpoolfile run.out, file = run.stored) :=
  concatAll_content fullDisk 3 (by decide)

theorem spoolIn_spools {before : UploadBrigade} {file : Bytes} {start length calls : Nat}
    {in_ : Brigade} (open_ : in_.endsEos = false) :
    (apreqBrigadeSpoolfile (spoolIn fs before file start length in_ calls).out).isSome := by
  rw [spoolIn_open fs open_]
  dsimp only
  split
  next => simp [apreqBrigadeSpoolfile]
  next => simp [apreqBrigadeSpoolfile]

/-- With a limit of 0 an upload is in its file from the first call on. -/
theorem apreqBrigadeConcat_spools {calls : Nat} {out : UploadBrigade} {in_ : Brigade}
    (open_ : in_.endsEos = false)
    (success : (apreqBrigadeConcat fs 0 calls out in_).status = .success) :
    (apreqBrigadeSpoolfile (apreqBrigadeConcat fs 0 calls out in_).out).isSome := by
  revert success
  unfold apreqBrigadeConcat
  split
  next => exact nofun
  next notEnded =>
    rw [if_neg (by simp)]
    split
    next file start length isLast =>
      split
      next => exact nofun
      next => exact fun _ => spoolIn_spools fs open_
    next =>
      split
      next => exact nofun
      next =>
        dsimp only
        split
        next => exact fun _ => spoolIn_spools fs open_
        next error => exact fun success => absurd success error

/-- A sequence of calls that succeed with a limit of 0 leaves the bytes of their brigades in the
spool file. -/
theorem concatAll_spoolfile {brigades : List Brigade} (some_ : brigades ≠ [])
    (open_ : ∀ in_ ∈ brigades, Brigade.endsEos in_ = false)
    (succeeds : (concatAll fs 0 {} brigades).failed = false) :
    apreqBrigadeSpoolfile (concatAll fs 0 {} brigades).out =
      some (brigades.flatMap Brigade.content) := by
  have spools {run : UploadRun} {brigades : List Brigade}
      (either : brigades ≠ [] ∨ (apreqBrigadeSpoolfile run.out).isSome)
      (open_ : ∀ in_ ∈ brigades, Brigade.endsEos in_ = false)
      (succeeds : (concatAll fs 0 run brigades).failed = false) :
      (apreqBrigadeSpoolfile (concatAll fs 0 run brigades).out).isSome := by
    induction brigades generalizing run with
    | nil => exact either.resolve_left fun nonempty => nonempty rfl
    | cons in_ brigades ih =>
        rw [concatAll] at succeeds ⊢
        have notFailed := (concatAll_stored fs succeeds).1
        simp only [Bool.or_eq_false_iff, decide_eq_false_iff_not, not_not] at notFailed
        refine ih (.inr ?_) (fun in_ isLater => open_ in_ (List.mem_cons_of_mem _ isLater)) succeeds
        exact apreqBrigadeConcat_spools fs (open_ in_ List.mem_cons_self) notFailed.2
  rcases Option.isSome_iff_exists.mp (spools (.inl some_) open_ succeeds) with ⟨file, isFile⟩
  rcases (concatAll_content fs 0 open_).2.2 succeeds with ⟨stored, exact_⟩
  rw [isFile, exact_ file isFile, stored]

/-! ## A file system that works -/

/-- No call fails, and each call of `apr_file_writev` writes at least one byte. -/
structure FileSystem.Works (fs : FileSystem) : Prop where
  mktemp : ∀ call, fs.mktemp call = none
  seek : ∀ call, fs.seek call = none
  writev : ∀ call, (fs.writev call).1 = none ∧ 0 < (fs.writev call).2

section Works

variable {fs} (works : fs.Works)
include works

/-- The test for an endless loop does not stop a write that makes progress. -/
theorem apreqFwritev_works {position written : Nat} {v : List Bytes} {file : Bytes}
    {calls : Nat} : (apreqFwritev fs position v written file calls).status = .success := by
  fun_induction apreqFwritev fs position v written file calls with
  | case1 v written file calls len file' error failed =>
      rw [(works.writev calls).1] at failed
      cases failed
  | case2 => rfl
  | case3 => rfl
  | case4 v written file calls len file' ok buffer left shifted stuck =>
      -- Then there is nothing left to write, and all buffers are dropped.
      have positive := (works.writev calls).2
      have nothing : v.flatten.length = 0 := by omega
      have rest := dropWritten_flatten len v
      have first := List.length_pos_of_ne_nil (dropWritten_long shifted)
      rw [shifted] at rest
      have short := congrArg List.length rest
      rw [List.length_drop] at short
      simp only [List.flatten_cons, List.length_append] at short
      omega
  | case5 v written file calls len file' ok buffer left shifted goesOn ih => exact ih

theorem fwriteRest_works {position wlen : Nat} {v : List Bytes} {file : Bytes} {calls : Nat} :
    (fwriteRest fs position v wlen file calls).status = .success := by
  fun_induction fwriteRest fs position v wlen file calls with
  | case1 => rfl
  | case2 v wlen file calls nonempty part success ih => exact ih
  | case3 v wlen file calls nonempty part failed =>
      exact absurd (apreqFwritev_works works) failed

theorem fwriteBuckets_works {position wlen : Nat} {v : List Bytes} {file : Bytes} {calls : Nat}
    (buffers : List Bytes) :
    (fwriteBuckets fs position v wlen file calls buffers).status = .success := by
  induction buffers generalizing v wlen file calls with
  | nil => exact fwriteRest_works works
  | cons buffer buffers ih =>
      rw [fwriteBuckets]
      split
      next =>
        dsimp only
        rw [if_pos (apreqFwritev_works works)]
        exact ih
      next => exact ih

theorem spoolIn_works {before : UploadBrigade} {file : Bytes} {start length calls : Nat}
    {in_ : Brigade} : (spoolIn fs before file start length in_ calls).status = .success := by
  rw [spoolIn]
  exact congrArg Concat.status (if_pos (fwriteBuckets_works works _))

theorem apreqBrigadeConcat_works (heapLimit calls : Nat) {out : UploadBrigade}
    (open_ : out.getLast? ≠ some (.bucket .eos)) (in_ : Brigade) :
    (apreqBrigadeConcat fs heapLimit calls out in_).status = .success := by
  rw [apreqBrigadeConcat, if_neg open_]
  split
  next => rfl
  next =>
    split
    next file start length isLast =>
      rw [works.seek]
      exact spoolIn_works works
    next =>
      rw [works.mktemp]
      dsimp only
      rw [apreqBrigadeFwrite, if_pos (fwriteBuckets_works works _)]
      exact spoolIn_works works

theorem concatAll_works {heapLimit : Nat} {run : UploadRun} {brigades : List Brigade}
    (holds : run.out.Holds run.stored run.failed) (notFailed : run.failed = false)
    (open_ : ∀ in_ ∈ brigades, Brigade.endsEos in_ = false) :
    (concatAll fs heapLimit run brigades).failed = false := by
  induction brigades generalizing run with
  | nil => exact notFailed
  | cons in_ brigades ih =>
      have success := apreqBrigadeConcat_works works heapLimit run.calls holds.open_ in_
      rcases apreqBrigadeConcat_spec fs heapLimit run.calls holds
        (open_ in_ List.mem_cons_self) with ⟨appends, -⟩
      rw [concatAll]
      refine ih ?_ ?_ fun in_ isLater => open_ in_ (List.mem_cons_of_mem _ isLater)
      · simpa [success] using appends success
      · simp [success, notFailed]

end Works

end RApache
