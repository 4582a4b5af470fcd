import RApache.Text

/-!
# Bucket brigades and the search for a delimiter

A brigade is a list of buckets.  A bucket holds bytes or marks the end of the
stream.  `splitOnBdry` moves buckets from one brigade to another up to a
delimiter that may be cut into several buckets; what it returns when it meets the
end of the stream decides how the body parsers end.
-/

namespace RApache

/-- The `apr_status_t` values that the parsers distinguish.  `general` is
`APREQ_ERROR_GENERAL` and `badSeq` is `APREQ_ERROR_BADSEQ`. -/
inductive AprStatus where
  | success
  | incomplete
  | eof
  | badArg
  | general
  | badSeq
  | noAttr
  | other (status : Nat)
  deriving DecidableEq, Repr

/-- A bucket: bytes in memory, or `APR_BUCKET_IS_EOS`. -/
inductive Bucket where
  | data (buffer : Bytes)
  | eos
  deriving DecidableEq, Repr

abbrev Brigade := List Bucket

namespace Bucket

/-- What `apr_bucket_read` returns; reading a metadata bucket gives no bytes. -/
def read : Bucket → Bytes
  | data buffer => buffer
  | eos => []

end Bucket

namespace Brigade

/-- All bytes of the brigade, as `apr_brigade_flatten` copies them. -/
def content (brigade : Brigade) : Bytes := brigade.flatMap Bucket.read

/-- `apr_brigade_length`. -/
def size (brigade : Brigade) : Nat := brigade.content.length

/-- Number of bytes and buckets, the measure of loops over a brigade. -/
def weight : Brigade → Nat
  | [] => 0
  | bucket :: brigade => bucket.read.length + 1 + weight brigade

/-- `APR_BUCKET_IS_EOS(APR_BRIGADE_LAST(bb))`.  The sentinel of an empty brigade is
not an EOS bucket. -/
def endsEos (brigade : Brigade) : Bool := brigade.getLast? = some .eos

@[simp] theorem content_nil : content [] = [] := rfl

@[simp] theorem content_cons (bucket : Bucket) (brigade : Brigade) :
    content (bucket :: brigade) = bucket.read ++ content brigade := rfl

@[simp] theorem content_append (left right : Brigade) :
    content (left ++ right) = content left ++ content right := by
  exact List.flatMap_append

@[simp] theorem size_nil : size [] = 0 := rfl

@[simp] theorem size_cons (bucket : Bucket) (brigade : Brigade) :
    size (bucket :: brigade) = bucket.read.length + size brigade := by
  simp [size]

@[simp] theorem size_append (left right : Brigade) :
    size (left ++ right) = size left + size right := by
  simp [size]

theorem endsEos_append (left : Brigade) {right : Brigade} (ends : right.endsEos) :
    endsEos (left ++ right) := by
  cases right with
  | nil => simp [endsEos] at ends
  | cons bucket right =>
      simpa [endsEos, List.getLast?_append] using ends

theorem endsEos_cons {bucket : Bucket} {brigade : Brigade}
    (ends : endsEos (bucket :: brigade)) (data : bucket ≠ .eos) : endsEos brigade := by
  cases brigade with
  | nil =>
      simp only [endsEos, List.getLast?_singleton, Option.some.injEq, decide_eq_true_eq]
        at ends
      exact absurd ends data
  | cons next brigade => simpa [endsEos] using ends

theorem not_endsEos {brigade : Brigade} (open_ : Bucket.eos ∉ brigade) :
    brigade.endsEos = false := by
  simp only [endsEos, decide_eq_false_iff_not]
  intro last
  exact open_ (List.mem_of_getLast? last)

end Brigade

/-! ## Searching one buffer -/

/-- `strncmp(left, right, min(strlen(left), len(right))) == 0`: one of the two is a
prefix of the other. -/
def agree : (left right : Bytes) → Bool
  | symbol :: left, symbol' :: right => symbol = symbol' && agree left right
  | _, _ => true

/-- `apreq_index` with `APREQ_MATCH_PARTIAL`: the first place where the needle
matches up to the end of the buffer. -/
def apreqIndex (needle : Bytes) : (hay : Bytes) → Option Nat
  | [] => none
  | symbol :: hay =>
      if agree needle (symbol :: hay) then some 0
      else (apreqIndex needle hay).map (· + 1)

/-- `apr_strmatch`: the first place where the whole needle matches. -/
def aprStrmatch (needle : Bytes) : (hay : Bytes) → Option Nat
  | [] => none
  | symbol :: hay =>
      if needle.isPrefixOf (symbol :: hay) then some 0
      else (aprStrmatch needle hay).map (· + 1)

/-- The index at which `split_on_bdry` cuts a buffer that does not begin with the
delimiter.  With a compiled pattern, a long buffer is searched for the whole
delimiter and then its end for the beginning of one. -/
def bdryIndex (pattern : Bool) (bdry buffer : Bytes) : Option Nat :=
  if pattern && bdry.length ≤ buffer.length then
    match aprStrmatch bdry buffer with
    | some index => some index
    | none =>
        let tail := buffer.length - bdry.length
        (apreqIndex bdry (buffer.drop tail)).map (· + tail)
  else apreqIndex bdry buffer

theorem agree_of_isPrefixOf {needle hay : Bytes} (isPrefix : needle.isPrefixOf hay) :
    agree needle hay := by
  induction needle generalizing hay with
  | nil => simp [agree]
  | cons symbol needle ih =>
      cases hay with
      | nil => simp at isPrefix
      | cons symbol' hay =>
          simp only [List.isPrefixOf_cons_cons, Bool.and_eq_true, beq_iff_eq] at isPrefix
          simp [agree, isPrefix.1, ih isPrefix.2]

theorem apreqIndex_zero {needle hay : Bytes} (found : apreqIndex needle hay = some 0) :
    agree needle hay := by
  cases hay with
  | nil => simp [apreqIndex] at found
  | cons symbol hay =>
      simp only [apreqIndex] at found
      split at found
      next agrees => exact agrees
      next => simp at found

/-- A buffer that does not begin with the delimiter is cut behind its first
byte. -/
theorem bdryIndex_pos {pattern : Bool} {bdry buffer : Bytes} {index : Nat}
    (found : bdryIndex pattern bdry buffer = some index)
    (differs : agree bdry buffer = false) : 0 < index := by
  apply Nat.pos_of_ne_zero
  rintro rfl
  have agrees : agree bdry buffer := by
    simp only [bdryIndex] at found
    split at found
    next =>
      cases whole : aprStrmatch bdry buffer with
      | some index =>
          rw [whole] at found
          obtain rfl : index = 0 := Option.some.inj found
          cases buffer with
          | nil => simp [aprStrmatch] at whole
          | cons symbol buffer =>
              simp only [aprStrmatch] at whole
              split at whole
              next isPrefix => exact agree_of_isPrefixOf isPrefix
              next => simp at whole
      | none =>
          simp only [whole, Option.map_eq_some_iff] at found
          obtain ⟨index, found, sum⟩ := found
          obtain ⟨rfl, tail⟩ : index = 0 ∧ buffer.length - bdry.length = 0 := by omega
          rw [tail, List.drop_zero] at found
          exact apreqIndex_zero found
    next => exact apreqIndex_zero found
  rw [differs] at agrees
  simp at agrees

/-! ## Splitting a brigade -/

/-- What a call of `split_on_bdry` leaves: its status and the two brigades. -/
structure Split where
  status : AprStatus
  out : Brigade
  rest : Brigade
  deriving DecidableEq, Repr

/-- The bucket that `apr_bucket_split` leaves behind the first `point` bytes; there
is none when the split would be at the end. -/
def splitRest (buffer : Bytes) (point : Nat) : Brigade :=
  if point < buffer.length then [.data (buffer.drop point)] else []

/-- The loop of `split_on_bdry`.  `held` are the buckets of `in` before `e`: their
bytes are the first `off` bytes of the delimiter. -/
def splitOnBdryLoop (pattern : Bool) (bdry : Bytes) :
    (out held : Brigade) → (off : Nat) → (rest : Brigade) → Split
  | out, held, _, [] => ⟨.incomplete, out, held⟩
  | out, held, _, .eos :: rest => ⟨.eof, out, held ++ .eos :: rest⟩
  | out, held, off, .data buffer :: rest =>
      if buffer = [] then splitOnBdryLoop pattern bdry out held off rest
      else if _agrees : agree (bdry.drop off) buffer then
        if bdry.length - off ≤ buffer.length then
          ⟨.success, out, splitRest buffer (bdry.length - off) ++ rest⟩
        else
          splitOnBdryLoop pattern bdry out (held ++ [.data buffer])
            (off + buffer.length) rest
      else if 0 < off then
        -- The held buckets are not a delimiter: retest this one against all of it.
        splitOnBdryLoop pattern bdry (out ++ held) [] 0 (.data buffer :: rest)
      else
        match _found : bdryIndex pattern bdry buffer with
        | none => splitOnBdryLoop pattern bdry (out ++ [.data buffer]) [] 0 rest
        | some index =>
            splitOnBdryLoop pattern bdry (out ++ [.data (buffer.take index)]) [] 0
              (.data (buffer.drop index) :: rest)
termination_by _ _ off rest => (Brigade.weight rest, off)
decreasing_by
  · apply Prod.Lex.left
    simp [Brigade.weight]
  · apply Prod.Lex.left
    simp [Brigade.weight]
  · apply Prod.Lex.right
    assumption
  · apply Prod.Lex.left
    simp [Brigade.weight]
  · apply Prod.Lex.left
    have off_zero : off = 0 := by omega
    subst off_zero
    have positive := bdryIndex_pos _found (by simpa using _agrees)
    have nonempty : 0 < buffer.length := List.length_pos_of_ne_nil (by assumption)
    simp only [Brigade.weight, Bucket.read, List.length_drop]
    omega

/-- `split_on_bdry`. -/
def splitOnBdry (pattern : Bool) (bdry : Bytes) (out in_ : Brigade) : Split :=
  splitOnBdryLoop pattern bdry out [] 0 in_

/-- The buckets that a split holds back: non-empty buckets whose bytes are a proper
prefix of the delimiter. -/
structure Held (bdry : Bytes) (off : Nat) (held : Brigade) : Prop where
  buckets : ∀ bucket ∈ held, ∃ buffer, buffer ≠ [] ∧ bucket = .data buffer
  spelled : Brigade.content held = bdry.take off
  short : off < bdry.length

theorem Held.nil {bdry : Bytes} (nonempty : bdry ≠ []) : Held bdry 0 [] where
  buckets := by simp
  spelled := by simp
  short := List.length_pos_of_ne_nil nonempty

theorem Held.size_eq {bdry : Bytes} {off : Nat} {held : Brigade}
    (partly : Held bdry off held) : held.size = off := by
  have short := partly.short
  rw [Brigade.size, partly.spelled, List.length_take]
  omega

/-- The shorter of two agreeing texts is a prefix of the other. -/
theorem agree_take {left right : Bytes} (agrees : agree left right)
    (shorter : right.length ≤ left.length) : right = left.take right.length := by
  induction left generalizing right with
  | nil => simpa using shorter
  | cons symbol left ih =>
      cases right with
      | nil => simp
      | cons symbol' right =>
          simp only [agree, Bool.and_eq_true, decide_eq_true_eq] at agrees
          simp only [List.length_cons, Nat.add_le_add_iff_right] at shorter
          rw [List.length_cons, List.take_succ_cons, ← ih agrees.2 shorter, agrees.1]

theorem agree_self_take (left : Bytes) (size : Nat) : agree left (left.take size) := by
  induction left generalizing size with
  | nil => simp [agree]
  | cons symbol left ih =>
      cases size with
      | zero => simp [agree]
      | succ size => simp [agree, ih size]

/-- One more bucket that agrees with the rest of the delimiter but does not complete
it is held back too. -/
theorem Held.snoc {bdry buffer : Bytes} {off : Nat} {held : Brigade}
    (partly : Held bdry off held) (nonempty : buffer ≠ [])
    (agrees : agree (bdry.drop off) buffer)
    (short : ¬ bdry.length - off ≤ buffer.length) :
    Held bdry (off + buffer.length) (held ++ [.data buffer]) where
  buckets := by
    intro bucket member
    rcases List.mem_append.mp member with old | new
    · exact partly.buckets bucket old
    · exact ⟨buffer, nonempty, by simpa using new⟩
  spelled := by
    have isPrefix := agree_take agrees (by rw [List.length_drop]; omega)
    rw [List.take_add, ← isPrefix]
    simp [partly.spelled, Bucket.read]
  short := by omega

/-- What a split guarantees when it starts with the brigade `out` and `size` bytes in
its two brigades. -/
structure Split.Spec (bdry : Bytes) (out : Brigade) (size : Nat) (split : Split) :
    Prop where
  size_le : Brigade.size split.out + Brigade.size split.rest ≤ size
  success : split.status = .success →
    Brigade.size split.out + Brigade.size split.rest + bdry.length ≤ size
  eof : split.status = .eof →
    ∃ off held tail, Held bdry off held ∧ split.rest = held ++ .eos :: tail
  status : split.status = .success ∨ split.status = .incomplete ∨ split.status = .eof
  noEos : Bucket.eos ∉ out → Bucket.eos ∉ split.out

theorem Split.Spec.of_out {bdry : Bytes} {out' : Brigade} {size : Nat}
    {split : Split} (spec : split.Spec bdry out' size) (out : Brigade)
    (noEos : Bucket.eos ∉ out → Bucket.eos ∉ out') : split.Spec bdry out size :=
  { spec with noEos := fun out => spec.noEos (noEos out) }

theorem splitRest_size (buffer : Bytes) (point : Nat) :
    Brigade.size (splitRest buffer point) = buffer.length - point := by
  rw [splitRest]
  split
  next => simp [Bucket.read]
  next => simp; omega

theorem Held.not_eos {bdry : Bytes} {off : Nat} {held : Brigade}
    (partly : Held bdry off held) : Bucket.eos ∉ held := by
  intro member
  rcases partly.buckets _ member with ⟨buffer, -, isData⟩
  simp at isData

theorem splitOnBdryLoop_spec (pattern : Bool) (bdry : Bytes) (out held : Brigade)
    (off : Nat) (rest : Brigade) (partly : Held bdry off held) :
    (splitOnBdryLoop pattern bdry out held off rest).Spec bdry out
      (out.size + off + rest.size) := by
  have heldLength := partly.size_eq
  have heldData := partly.not_eos
  have short := partly.short
  have none := Held.nil (List.ne_nil_of_length_pos (by omega : 0 < bdry.length))
  fun_induction splitOnBdryLoop pattern bdry out held off rest with
  | case1 out held off =>
      exact ⟨by simp [heldLength], by simp, by simp, by simp, id⟩
  | case2 off out held rest =>
      exact ⟨by simp [heldLength, Bucket.read]; omega, by simp,
        fun _ => ⟨off, held, rest, partly, rfl⟩, by simp, id⟩
  | case3 out held off rest ih =>
      simpa [Bucket.read] using ih partly heldLength heldData short
  | case4 out held off buffer rest nonempty agrees complete =>
      refine ⟨?_, ?_, by simp, by simp, id⟩
      all_goals
        simp only [Brigade.size_append, splitRest_size, Brigade.size_cons, Bucket.read]
        omega
  | case5 out held off buffer rest nonempty agrees incomplete ih =>
      have longer := partly.snoc nonempty agrees incomplete
      have spec := ih longer longer.size_eq longer.not_eos longer.short
      simpa [Bucket.read, Nat.add_assoc] using spec
  | case6 out held off buffer rest nonempty differs positive ih =>
      have spec := (ih none rfl none.not_eos none.short).of_out out
        (by simp [heldData])
      simpa [heldLength] using spec
  | case7 out held off buffer rest nonempty differs zero found ih =>
      have spec := (ih none rfl none.not_eos none.short).of_out out
        (by simp)
      have off_zero : off = 0 := by omega
      simpa [off_zero, Bucket.read, Nat.add_assoc] using spec
  | case8 out held off buffer rest nonempty differs zero index found ih =>
      have spec := (ih none rfl none.not_eos none.short).of_out out
        (by simp)
      have sizes : Brigade.size (out ++ [.data (buffer.take index)]) + 0 +
          Brigade.size (.data (buffer.drop index) :: rest) =
          out.size + off + Brigade.size (.data buffer :: rest) := by
        simp only [Brigade.size_append, Brigade.size_cons, Brigade.size_nil, Bucket.read,
          List.length_take, List.length_drop]
        omega
      rwa [sizes] at spec

theorem splitOnBdry_spec (pattern : Bool) {bdry : Bytes} (nonempty : bdry ≠ [])
    (out in_ : Brigade) :
    (splitOnBdry pattern bdry out in_).Spec bdry out (out.size + in_.size) := by
  exact splitOnBdryLoop_spec pattern bdry out [] 0 in_ (Held.nil nonempty)

/-- A brigade that ends the stream is never too short, and its end stays where it
is. -/
theorem splitOnBdryLoop_endsEos (pattern : Bool) (bdry : Bytes) (out held : Brigade)
    (off : Nat) (rest : Brigade) (ends : rest.endsEos) :
    (splitOnBdryLoop pattern bdry out held off rest).status ≠ .incomplete ∧
      (splitOnBdryLoop pattern bdry out held off rest).rest.endsEos := by
  fun_induction splitOnBdryLoop pattern bdry out held off rest with
  | case1 => simp [Brigade.endsEos] at ends
  | case2 off out held rest =>
      exact ⟨by simp, Brigade.endsEos_append held ends⟩
  | case3 out held off rest ih => exact ih (Brigade.endsEos_cons ends (by simp))
  | case4 out held off buffer rest =>
      exact ⟨by simp, Brigade.endsEos_append _ (Brigade.endsEos_cons ends (by simp))⟩
  | case5 out held off buffer rest _ _ _ ih =>
      exact ih (Brigade.endsEos_cons ends (by simp))
  | case6 out held off buffer rest _ _ _ ih => exact ih ends
  | case7 out held off buffer rest _ _ _ _ ih =>
      exact ih (Brigade.endsEos_cons ends (by simp))
  | case8 out held off buffer rest _ _ _ index _ ih =>
      have tail := Brigade.endsEos_cons ends (by simp)
      exact ih (Brigade.endsEos_append [.data (buffer.drop index)] tail)

theorem splitOnBdry_endsEos (pattern : Bool) (bdry : Bytes) (out : Brigade)
    {in_ : Brigade} (ends : in_.endsEos) :
    (splitOnBdry pattern bdry out in_).status ≠ .incomplete ∧
      (splitOnBdry pattern bdry out in_).rest.endsEos := by
  exact splitOnBdryLoop_endsEos pattern bdry out [] 0 in_ ends

/-- Buckets that were held back are held back again: with the end of the stream
behind them no later call gets past them. -/
theorem splitOnBdryLoop_held (pattern : Bool) (bdry : Bytes) (out before : Brigade)
    (off : Nat) (held tail : Brigade)
    (buckets : ∀ bucket ∈ held, ∃ buffer, buffer ≠ [] ∧ bucket = .data buffer)
    (spelled : Brigade.content held = (bdry.drop off).take (Brigade.size held))
    (short : off + Brigade.size held < bdry.length) :
    splitOnBdryLoop pattern bdry out before off (held ++ .eos :: tail) =
      ⟨.eof, out, before ++ (held ++ .eos :: tail)⟩ := by
  induction held generalizing before off with
  | nil => simp [splitOnBdryLoop]
  | cons bucket held ih =>
      obtain ⟨buffer, nonempty, rfl⟩ := buckets bucket (by simp)
      simp only [Brigade.content_cons, Brigade.size_cons, Bucket.read] at spelled short
      have first : buffer = (bdry.drop off).take buffer.length := by
        have cut := congrArg (List.take buffer.length) spelled
        simpa [List.take_take] using cut
      have others : Brigade.content held =
          (bdry.drop (off + buffer.length)).take (Brigade.size held) := by
        have cut := congrArg (List.drop buffer.length) spelled
        simpa [List.drop_take, List.drop_drop] using cut
      have agrees : agree (bdry.drop off) buffer := by
        rw [first]
        exact agree_self_take _ _
      rw [List.cons_append, splitOnBdryLoop, if_neg nonempty, dif_pos agrees,
        if_neg (by omega), ih _ _ (fun bucket member =>
          buckets bucket (List.mem_cons_of_mem _ member)) others (by omega)]
      simp

theorem splitOnBdry_held (pattern : Bool) {bdry : Bytes} {off : Nat} {held : Brigade}
    (partly : Held bdry off held) (out tail : Brigade) :
    splitOnBdry pattern bdry out (held ++ .eos :: tail) =
      ⟨.eof, out, held ++ .eos :: tail⟩ := by
  have size := partly.size_eq
  have short := partly.short
  have scanned := splitOnBdryLoop_held pattern bdry out [] 0 held tail partly.buckets
    (by rw [partly.spelled, size, List.drop_zero]) (by omega)
  simpa [splitOnBdry] using scanned

end RApache
