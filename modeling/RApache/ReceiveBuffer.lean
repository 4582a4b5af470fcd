import RApache.Body

/-!
# The buffer of `receiveBin`

`RApache_receiveBin` manages its buffer by hand.  It enlarges it as long as it reads something and
frees it before it returns.
-/

namespace RApache

/-- What a call of `RApache_receiveBin` has done with its buffer.  The blocks that it gets from
`R_Calloc` and `R_Realloc` are counted; the variable `buf` points to one of them once it is set. -/
structure BufferUse where
  buf : Option Nat := none
  allocations : Nat := 0
  /-- The blocks that were released by `R_Realloc` and `R_Free`, in order. -/
  released : List Nat := []
  /-- Reads of `buf` before it was set. -/
  unsetReads : Nat := 0
  /-- Releases of pointers that the call did not get. -/
  foreignReleases : Nat := 0
  deriving DecidableEq, Repr

namespace BufferUse

/-- The variable `buf` is read. -/
def readBuf (u : BufferUse) : BufferUse :=
  match u.buf with
  | some _ => u
  | none => { u with unsetReads := u.unsetReads + 1 }

/-- `buf = R_Calloc(..)`, which succeeds. -/
def rCalloc (u : BufferUse) : BufferUse :=
  { u with buf := some u.allocations, allocations := u.allocations + 1 }

/-- The block that `buf` points to is released.  A variable that is not set points to something
else. -/
def release (u : BufferUse) : BufferUse :=
  match u.buf with
  | some block => { u with released := u.released ++ [block] }
  | none => { u with foreignReleases := u.foreignReleases + 1 }

/-- `buf = R_Realloc(buf,..)`, which succeeds. -/
def rRealloc (u : BufferUse) : BufferUse := u.readBuf.release.rCalloc

/-- `if (buf) R_Free(buf)`.  A variable that is not set is `NULL` or not by chance. -/
def freeIfSet (garbage : Bool) (u : BufferUse) : BufferUse :=
  match u.buf with
  | some _ => u.readBuf.release
  | none => if garbage then u.readBuf.release else u.readBuf

end BufferUse

namespace Session

/-- The end of `RApache_receiveBin`: the bytes are copied, and the buffer is freed. -/
def returnBuffer (garbage : Bool) (bytes : Bytes) (s : Session) (u : BufferUse) :
    CallEnd × Session × BufferUse :=
  let u := if 0 < bytes.length then u.readBuf else u
  (.returned (.raw bytes), s, u.freeIfSet garbage)

/-- The loop of `RApache_receiveBin`, with its uses of the buffer. -/
def receiveAllBuffer (garbage : Bool) : (fuel : Nat) → (size blen : UInt64) → (buf : Bytes) →
    (s : Session) → (u : BufferUse) → CallEnd × Session × BufferUse
  | 0, _, _, _, s, u => (.unfinished, s, u)
  | fuel + 1, size, blen, buf, s, u =>
      match s.readRequestBody (intOfSize (size - blen)) with
      | none => (.ended, s, u.readBuf)
      | some (got, s) =>
          let u := u.readBuf
          let len := sizeOfInt (intOfSize (UInt64.ofNat got.length))
          let buf := buf.take blen.toNat ++ got
          let blen := blen + len
          if 0 < len then
            receiveAllBuffer garbage fuel (UInt64.ofNat (size.toNat * 3 / 2)) blen buf s
              u.rRealloc.readBuf
          else returnBuffer garbage (buf.take blen.toNat) s u

/-- `RApache_receiveBin`, with its uses of the buffer.  The allocations succeed, so that each test
for `NULL` behind one only reads the variable. -/
def receiveBinBuffer (garbage : Bool) (fuel : Nat) (llen : Int32) (s : Session) :
    CallEnd × Session × BufferUse :=
  let u : BufferUse := {}
  if 0 < llen then
    let u := u.rCalloc.readBuf
    match s.readRequestBody llen with
    | none => (.ended, s, u.readBuf)
    | some (buf, s) => returnBuffer garbage buf s u.readBuf
  else if llen < 0 then receiveAllBuffer garbage fuel 8192 0 [] s u.rCalloc.readBuf
  else returnBuffer garbage [] s u

end Session

/-- The body of the request ends: its input filters give at most so many bytes, however they are
read. -/
def RequestRec.GivesAtMost (r : RequestRec) (bound : Nat) : Prop :=
  ∀ limits, (r.delivered [] limits).length ≤ bound

/-- In a call of `receiveBin` no variable is read before it is set and nothing but the buffer is
released.  The call returns if the body ends, it has then released every block once, and for a
length of zero the result is empty and the body untouched. -/
structure FreesOwnBuffer (llen : Int32) (s : Session) : Prop where
  isSet : ∀ garbage fuel, (s.receiveBinBuffer garbage fuel llen).2.2.unsetReads = 0
  own : ∀ garbage fuel, (s.receiveBinBuffer garbage fuel llen).2.2.foreignReleases = 0
  returns : ∀ r bound, s.request.r = some r → r.GivesAtMost bound →
    ∃ enough, ∀ garbage fuel, enough ≤ fuel →
      ∃ value, (s.receiveBinBuffer garbage fuel llen).1 = .returned value
  once : ∀ garbage fuel value s' u,
    s.receiveBinBuffer garbage fuel llen = (.returned value, s', u) →
      u.released = List.range u.allocations
  empty : llen = 0 → ∀ garbage fuel, ∃ u,
    s.receiveBinBuffer garbage fuel llen = (.returned (.raw []), s, u)

namespace BufferUse

/-- The variable points to the last block, and all others have been released once. -/
structure Owns (u : BufferUse) : Prop where
  buf : ∃ block, u.buf = some block ∧ u.allocations = block + 1 ∧ u.released = List.range block
  isSet : u.unsetReads = 0
  own : u.foreignReleases = 0

/-- All blocks have been released once. -/
structure Released (u : BufferUse) : Prop where
  once : u.released = List.range u.allocations
  isSet : u.unsetReads = 0
  own : u.foreignReleases = 0

variable {u : BufferUse}

theorem rCalloc_owns : (rCalloc {}).Owns := ⟨⟨0, rfl, rfl, rfl⟩, rfl, rfl⟩

theorem Owns.readBuf_eq (owns : u.Owns) : u.readBuf = u := by
  rcases owns.buf with ⟨block, points, -⟩
  rw [readBuf, points]

theorem Owns.readBuf (owns : u.Owns) : u.readBuf.Owns := by
  rw [owns.readBuf_eq]
  exact owns

theorem Owns.release (owns : u.Owns) : u.release.Released := by
  rcases owns.buf with ⟨block, points, count, released⟩
  rw [BufferUse.release, points]
  refine ⟨?_, owns.isSet, owns.own⟩
  simp only [released, count, List.range_succ]

theorem Released.rCalloc (released : u.Released) : u.rCalloc.Owns :=
  ⟨⟨u.allocations, rfl, rfl, released.once⟩, released.isSet, released.own⟩

theorem Owns.rRealloc (owns : u.Owns) : u.rRealloc.Owns := by
  rw [BufferUse.rRealloc, owns.readBuf_eq]
  exact owns.release.rCalloc

theorem Owns.freeIfSet (owns : u.Owns) (garbage : Bool) : (u.freeIfSet garbage).Released := by
  have released := owns.release
  rcases owns.buf with ⟨block, points, -⟩
  rw [← owns.readBuf_eq] at released
  rw [BufferUse.freeIfSet, points]
  exact released

end BufferUse

namespace Session

open BufferUse

/-- A part of the call keeps the buffer or, if it returns, has released it. -/
def Manages (result : CallEnd × Session × BufferUse) : Prop :=
  match result.1 with
  | .returned _ => result.2.2.Released
  | _ => result.2.2.Owns

theorem Manages.isSet {result : CallEnd × Session × BufferUse} (manages : Manages result) :
    result.2.2.unsetReads = 0 := by
  unfold Manages at manages
  split at manages
  next => exact manages.isSet
  next => exact manages.isSet

theorem Manages.own {result : CallEnd × Session × BufferUse} (manages : Manages result) :
    result.2.2.foreignReleases = 0 := by
  unfold Manages at manages
  split at manages
  next => exact manages.own
  next => exact manages.own

theorem returnBuffer_manages {u : BufferUse} (owns : u.Owns) (garbage : Bool) (bytes : Bytes)
    (s : Session) : Manages (returnBuffer garbage bytes s u) := by
  have read : (if 0 < bytes.length then u.readBuf else u) = u := by
    rw [owns.readBuf_eq, ite_self]
  rw [returnBuffer, read]
  exact owns.freeIfSet garbage

/-- The induction is on the passes of the loop; each begins with a buffer. -/
theorem receiveAllBuffer_manages (garbage : Bool) (fuel : Nat) (size blen : UInt64) (buf : Bytes)
    (s : Session) {u : BufferUse} (owns : u.Owns) :
    Manages (receiveAllBuffer garbage fuel size blen buf s u) := by
  induction fuel generalizing size blen buf s u with
  | zero => exact owns
  | succ fuel ih =>
      rw [receiveAllBuffer, owns.readBuf_eq]
      split
      next => exact owns
      next got s' _ =>
        dsimp only
        split
        next => exact ih _ _ _ _ owns.rRealloc.readBuf
        next => exact returnBuffer_manages owns garbage _ _

theorem receiveBinBuffer_manages (garbage : Bool) (fuel : Nat) {llen : Int32} (s : Session)
    (notZero : llen ≠ 0) : Manages (s.receiveBinBuffer garbage fuel llen) := by
  have owns := rCalloc_owns
  rw [receiveBinBuffer]
  dsimp only
  rw [owns.readBuf_eq, owns.readBuf_eq]
  split
  next =>
    split
    next => exact owns
    next => exact returnBuffer_manages owns garbage _ _
  next notPositive =>
    have negative : llen < 0 :=
      Int32.lt_of_le_of_ne (Int32.not_lt.mp notPositive) notZero
    rw [if_pos negative]
    exact receiveAllBuffer_manages garbage fuel _ _ _ s owns

/-! ## The calls return -/

/-- A bound on what a read can still get. -/
def unread (r : RequestRec) (bound : Nat) (s : Session) : Nat :=
  bound - (r.delivered [] s.limits).length + (s.bbIn.getD []).content.length

theorem delivered_noteRead (r : RequestRec) (s : Session) (length : Nat) :
    r.delivered [] (s.noteRead .r length).limits =
      r.delivered [] s.limits ++ r.delivered s.limits [length] := by
  have appended := r.delivered_append [] s.limits [length]
  rw [List.nil_append] at appended
  rw [← appended]
  simp [limits, noteRead_reads]

theorem unread_of_error {r : RequestRec} {bound length : Nat} {s : Session} {error : AprStatus}
    (failed : r.getBrigade s.limits length = .error error) :
    unread r bound (s.noteRead .r length) = unread r bound s := by
  rw [unread, delivered_noteRead, RequestRec.delivered, failed]
  simp [RequestRec.delivered, unread, noteRead]

/-- What a read gets from the input filters goes behind what was in the brigade. -/
theorem unread_of_ok {r : RequestRec} {bound length : Nat} {s : Session} {bb brigade : Brigade}
    (ends : r.GivesAtMost bound) (answer : r.getBrigade s.limits length = .ok bb) :
    unread r bound { s.noteRead .r length with bbIn := some brigade } +
        (s.bbIn.getD [] ++ bb).content.length =
      brigade.content.length + unread r bound s := by
  have given := delivered_noteRead r s length
  have most := ends (s.noteRead .r length).limits
  rw [RequestRec.delivered, answer] at given
  simp only [RequestRec.delivered, List.append_nil] at given
  have isLimits : limits { s.noteRead .r length with bbIn := some brigade } =
      (s.noteRead .r length).limits := rfl
  rw [given, List.length_append] at most
  rw [unread, unread, isLimits, given, Brigade.content_append, List.length_append,
    List.length_append]
  simp only [Option.getD_some]
  omega

/-- What the loop places in the buffer cannot be read again. -/
theorem readRequestBodyLoop_unread {r : RequestRec} {bound : Nat} (ends : r.GivesAtMost bound)
    (size : Nat) (buf : Bytes) (s : Session) :
    (readRequestBodyLoop r size buf s).1.length +
        unread r bound (readRequestBodyLoop r size buf s).2 ≤
      buf.length + unread r bound s := by
  fun_induction readRequestBodyLoop r size buf s with
  | case1 buf s room len error failed => rw [unread_of_error failed]
  | case2 buf s room len bb answer brigade unreadable =>
      have left := @unread_of_ok _ _ _ _ _ brigade ends answer
      simp only [brigade] at left ⊢
      omega
  | case3 buf s room len bb answer brigade readable got =>
      have left := @unread_of_ok _ _ _ _ _ [] ends answer
      simp only [Brigade.content_nil, List.length_nil] at left ⊢
      omega
  | case4 buf s room len bb answer brigade readable symbol more got ih =>
      have left := @unread_of_ok _ _ _ _ _ [] ends answer
      have placed : (symbol :: more).length ≤ (s.bbIn.getD [] ++ bb).content.length := by
        rw [← got]
        exact List.length_take_le' _ _
      simp only [Brigade.content_nil, List.length_nil] at left
      simp only [List.length_append, List.length_cons] at ih placed ⊢
      omega
  | case5 buf s noRoom => exact Nat.le_refl _

/-- During a request `ReadRequestBody` returns, and what it has read cannot be read again. -/
theorem readRequestBody_unread {r : RequestRec} {bound : Nat} {s : Session}
    (current : s.request.r = some r) (ends : r.GivesAtMost bound) (size : Int32) :
    ∃ got s', s.readRequestBody size = some (got, s') ∧ s'.request.r = some r ∧
      got.length + unread r bound s' ≤ unread r bound s := by
  have present : (s.readRequestBody size).isSome := by
    unfold readRequestBody
    simp only [current]
    split
    next =>
      unfold rApacheError
      split <;> simp [current]
    next => rfl
  rcases Option.isSome_iff_exists.mp present with ⟨⟨got, s'⟩, called⟩
  refine ⟨got, s', called, ?_, ?_⟩
  · rcases readRequestBody_cases called with ⟨-, -, bbErr, same⟩ | ⟨-, bbIn, more, same, -⟩
    · rw [same]
      exact current
    · rw [same]
      exact current
  · by_cases parsed : s.request.postParsed = true
    · rcases readRequestBody_cases called with ⟨-, rfl, bbErr, rfl⟩ | ⟨notParsed, -⟩
      · simp [unread, limits]
      · simp [parsed] at notParsed
    · let started : Session :=
        { s with
          request := { s.request with readStarted := true }
          bbIn := some (s.bbIn.getD []) }
      have isLoop : s.readRequestBody size =
          some (readRequestBodyLoop r (sizeOfInt size).toNat [] started) := by
        simp [readRequestBody, current, parsed, started]
      have spec := readRequestBodyLoop_unread ends (sizeOfInt size).toNat [] started
      rw [← Option.some.inj (called.symm.trans isLoop)] at spec
      simpa [unread, limits, started] using spec

/-- Every pass but the last reads something of the body. -/
theorem receiveAllBuffer_returns {r : RequestRec} {bound : Nat} (ends : r.GivesAtMost bound)
    (garbage : Bool) {fuel : Nat} (size blen : UInt64) (buf : Bytes) {s : Session}
    (current : s.request.r = some r) (u : BufferUse) (enough : unread r bound s < fuel) :
    ∃ value, (receiveAllBuffer garbage fuel size blen buf s u).1 = .returned value := by
  induction fuel generalizing size blen buf s u with
  | zero => omega
  | succ fuel ih =>
      rcases readRequestBody_unread current ends (intOfSize (size - blen)) with
        ⟨got, s', read, current', less⟩
      rw [receiveAllBuffer, read]
      dsimp only
      split
      next more =>
        have nonempty : got.length ≠ 0 := by
          intro empty
          rw [empty] at more
          exact absurd more (by decide)
        exact ih _ _ _ current' _ (by omega)
      next => exact ⟨_, rfl⟩

theorem receiveBinBuffer_returns {r : RequestRec} {bound : Nat} {s : Session}
    (current : s.request.r = some r) (ends : r.GivesAtMost bound) (garbage : Bool) {fuel : Nat}
    (llen : Int32) (enough : unread r bound s < fuel) :
    ∃ value, (s.receiveBinBuffer garbage fuel llen).1 = .returned value := by
  rw [receiveBinBuffer]
  dsimp only
  split
  next =>
    rcases readRequestBody_unread current ends llen with ⟨got, s', read, -⟩
    rw [read]
    exact ⟨_, rfl⟩
  next =>
    split
    next => exact receiveAllBuffer_returns ends garbage _ _ _ current _ enough
    next => exact ⟨_, rfl⟩

/-! ## The results -/

theorem receiveAllBuffer_result (garbage : Bool) (fuel : Nat) (size blen : UInt64) (buf : Bytes)
    (s : Session) (u : BufferUse) :
    ((receiveAllBuffer garbage fuel size blen buf s u).1,
      (receiveAllBuffer garbage fuel size blen buf s u).2.1) =
        receiveAll fuel size blen buf s := by
  induction fuel generalizing size blen buf s u with
  | zero => rfl
  | succ fuel ih =>
      rw [receiveAllBuffer, receiveAll]
      cases s.readRequestBody (intOfSize (size - blen)) with
      | none => rfl
      | some read =>
          dsimp only
          split
          next => exact ih ..
          next => rfl

/-- The uses of the buffer leave the result of the call as it is. -/
theorem receiveBinBuffer_result (garbage : Bool) (fuel : Nat) (llen : Int32) (s : Session) :
    ((s.receiveBinBuffer garbage fuel llen).1, (s.receiveBinBuffer garbage fuel llen).2.1) =
      s.receiveBin fuel llen := by
  rw [receiveBinBuffer, receiveBin]
  dsimp only
  split
  next =>
    cases s.readRequestBody llen with
    | none => rfl
    | some read => rfl
  next =>
    split
    next => exact receiveAllBuffer_result ..
    next => rfl

/-- For a length of zero the variable is never set. -/
theorem receiveBinBuffer_zero (garbage : Bool) (fuel : Nat) (s : Session) :
    s.receiveBinBuffer garbage fuel 0 =
      (.returned (.raw []), s, ({} : BufferUse).freeIfSet garbage) := by
  simp [receiveBinBuffer, returnBuffer]

end Session

open Session in
/-- `RApache_receiveBin` reads its variable `buf` before it is set exactly for a length of zero; for
all others it releases what it has got, once. -/
theorem frees_own_buffer_iff (llen : Int32) (s : Session) : FreesOwnBuffer llen s ↔ llen ≠ 0 := by
  constructor
  · rintro frees rfl
    have isSet := frees.isSet false 0
    rw [receiveBinBuffer_zero] at isSet
    cases isSet
  · intro notZero
    have manages (garbage : Bool) (fuel : Nat) :=
      receiveBinBuffer_manages garbage fuel s notZero
    refine ⟨fun garbage fuel => ?_, fun garbage fuel => ?_, fun r bound current ends => ?_,
      fun garbage fuel value s' u returned => ?_, fun isZero => (notZero isZero).elim⟩
    · exact (manages garbage fuel).isSet
    · exact (manages garbage fuel).own
    · exact ⟨unread r bound s + 1, fun garbage fuel enough =>
        receiveBinBuffer_returns current ends garbage llen enough⟩
    · have released := manages garbage fuel
      rw [Manages, returned] at released
      exact released.once

/-- `receiveBin(0L)` in a request frees the variable if it happens not to be `NULL`. -/
theorem receiveBin_zero_frees_unset : ¬ FreesOwnBuffer 0
    (Session.setUp {} { address := 0, handler := bytes "r-handler" } none) := by
  intro frees
  have own := frees.own true 0
  rw [Session.receiveBinBuffer_zero] at own
  cases own

end RApache
