import RApache.Body

/-!
# Reading the rest of the body at once

`receiveBin` with a negative length reads in a buffer that grows.  The room in the buffer
is an `apr_size_t`, but it is passed as an `int`.
-/

namespace RApache

namespace Session

/-! ## The passes of the loop -/

/-- One pass of the loop of `RApache_receiveBin`: the size of the buffer, the bytes in it
before, and those that `ReadRequestBody` places behind them. -/
structure ReceivePass where
  size : UInt64
  blen : UInt64
  got : Bytes

/-- The passes of the loop. -/
def receivePasses : (fuel : Nat) → (size blen : UInt64) → (s : Session) → List ReceivePass
  | 0, _, _, _ => []
  | fuel + 1, size, blen, s =>
      match s.readRequestBody (intOfSize (size - blen)) with
      | none => []
      | some (got, s) =>
          let len := sizeOfInt (intOfSize (UInt64.ofNat got.length))
          { size, blen, got } ::
            if 0 < len then
              receivePasses fuel (UInt64.ofNat (size.toNat * 3 / 2)) (blen + len) s
            else []

/-- In a pass there is room, which keeps its value as an `int`, and only the room is
written to. -/
structure ReceivePass.Sound (pass : ReceivePass) : Prop where
  blen : pass.blen ≤ pass.size
  room : (intOfSize (pass.size - pass.blen)).toInt = pass.size.toNat - pass.blen.toNat
  positive : 0 < pass.size - pass.blen
  inside : pass.blen.toNat + pass.got.length ≤ pass.size.toNat

/-- `receiveBin` of a negative length returns exactly these bytes, with all of its passes
sound. -/
structure ReceivesAll (rest : Bytes) (fuel : Nat) (llen : Int32) (s : Session) : Prop where
  all : ∃ s', s.receiveBin fuel llen = (.returned (.raw rest), s')
  sound : ∀ pass ∈ receivePasses fuel 8192 0 s, pass.Sound

/-! ## One pass -/

/-- A size of which nothing is lost in a `double`. -/
def Small (size : Nat) : Prop := size < 2 ^ 50

theorem ofNat_toNat {size : Nat} (small : Small size) : (UInt64.ofNat size).toNat = size := by
  rw [UInt64.toNat_ofNat']
  exact Nat.mod_eq_of_lt (Nat.lt_trans small (by decide))

theorem room_toNat {size blen : Nat} (small : Small size) (le : blen ≤ size) :
    (UInt64.ofNat size - UInt64.ofNat blen).toNat = size - blen := by
  have smallBlen : Small blen := Nat.lt_of_le_of_lt le small
  have isLe : UInt64.ofNat blen ≤ UInt64.ofNat size := by
    rw [UInt64.le_iff_toNat_le, ofNat_toNat small, ofNat_toNat smallBlen]
    exact le
  rw [UInt64.toNat_sub_of_le _ _ isLe, ofNat_toNat small, ofNat_toNat smallBlen]

/-- An `apr_size_t` keeps its value as an `int` exactly below `2 ^ 31`. -/
theorem intOfSize_toInt_iff (size : UInt64) :
    (intOfSize size).toInt = size.toNat ↔ size.toNat < 2 ^ 31 := by
  have value : size.toUInt32.toBitVec.toNat = size.toNat % 2 ^ 32 := UInt64.toNat_toUInt32 size
  have bound := size.toUInt32.toBitVec.isLt
  change size.toUInt32.toBitVec.toInt = _ ↔ _
  rw [BitVec.toInt_eq_toNat_cond]
  split
  next => omega
  next => omega

theorem intOfSize_positive {size : UInt64} (positive : 0 < size.toNat)
    (fits : size.toNat < 2 ^ 31) : 0 < intOfSize size := by
  rw [Int32.lt_iff_toInt_lt, (intOfSize_toInt_iff size).mpr fits, Int32.toInt_zero]
  omega

/-- A small room is filled with what remains of the body. -/
theorem readRequestBody_room {r : RequestRec} {body rest : Bytes} {s : Session}
    (gives : r.Gives body) (reading : Reading r body rest s) {size blen : Nat}
    (small : Small size) (lt : blen < size) (fits : size - blen < 2 ^ 31) :
    ∃ s', s.readRequestBody (intOfSize (UInt64.ofNat size - UInt64.ofNat blen)) =
        some (rest.take (size - blen), s') ∧
      Reading r body (rest.drop (size - blen)) s' := by
  have room := room_toNat small (Nat.le_of_lt lt)
  have positive : 0 < intOfSize (UInt64.ofNat size - UInt64.ofNat blen) :=
    intOfSize_positive (by omega) (by omega)
  have read := readRequestBody_reading gives reading positive
  rw [(intOfSize_toInt_iff _).mpr (by omega), room] at read
  simpa using read

/-- The number of bytes of a read keeps its value. -/
theorem got_length (got : Bytes) (fits : got.length < 2 ^ 31) :
    sizeOfInt (intOfSize (UInt64.ofNat got.length)) = UInt64.ofNat got.length := by
  have small : Small got.length := Nat.lt_trans fits (by decide)
  have value := ofNat_toNat small
  have toInt : (intOfSize (UInt64.ofNat got.length)).toInt = got.length := by
    rw [(intOfSize_toInt_iff _).mpr (by omega), value]
  have nonneg : 0 ≤ (intOfSize (UInt64.ofNat got.length)).toInt64 := by
    rw [Int64.le_iff_toInt_le, Int32.toInt_toInt64, toInt]
    simp
  apply UInt64.toNat.inj
  rw [sizeOfInt, Int64.toNat_toUInt64_of_le nonneg, Int64.toNatClampNeg, Int32.toInt_toInt64,
    toInt, value]
  simp

/-- A pass with a small room. -/
theorem pass_sound {size blen : Nat} (small : Small size) (lt : blen < size)
    (fits : size - blen < 2 ^ 31) {got : Bytes} (inside : got.length ≤ size - blen) :
    ReceivePass.Sound { size := UInt64.ofNat size, blen := UInt64.ofNat blen, got } := by
  have smallBlen : Small blen := Nat.lt_trans lt small
  have room := room_toNat small (Nat.le_of_lt lt)
  have toInt : (intOfSize (UInt64.ofNat size - UInt64.ofNat blen)).toInt = (size - blen : Nat) := by
    rw [(intOfSize_toInt_iff _).mpr (by omega), room]
  refine ⟨?_, ?_, ?_, ?_⟩
  · simp only [UInt64.le_iff_toNat_le, ofNat_toNat small, ofNat_toNat smallBlen]
    omega
  · simp only [toInt, ofNat_toNat small, ofNat_toNat smallBlen]
    omega
  · simp only [UInt64.lt_iff_toNat_lt, room, UInt64.toNat_zero]
    omega
  · simp only [ofNat_toNat small, ofNat_toNat smallBlen]
    omega

/-- A pass with a room from `2 ^ 31` on. -/
theorem pass_not_sound {size blen : Nat} (small : Small size) (large : 2 ^ 31 ≤ size - blen)
    {got : Bytes} :
    ¬ ReceivePass.Sound { size := UInt64.ofNat size, blen := UInt64.ofNat blen, got } := by
  have le : blen ≤ size := by omega
  have smallBlen : Small blen := Nat.lt_of_le_of_lt le small
  intro sound
  have room := sound.room
  have value := room_toNat small le
  simp only [ofNat_toNat small, ofNat_toNat smallBlen] at room
  have same : (intOfSize (UInt64.ofNat size - UInt64.ofNat blen)).toInt =
      (UInt64.ofNat size - UInt64.ofNat blen).toNat := by
    rw [room, value]
    omega
  have fits := (intOfSize_toInt_iff _).mp same
  omega

/-! ## The whole loop -/

/-- With `n` bytes remaining all rooms of the loop are small and it ends within so many
passes. -/
def RoomsFit : (passes : Nat) → (size blen n : Nat) → Prop
  | 0, _, _, _ => False
  | passes + 1, size, blen, n =>
      Small size ∧ blen < size ∧ size - blen < 2 ^ 31 ∧
        (n = 0 ∨ RoomsFit passes (size * 3 / 2) (blen + min (size - blen) n) (n - (size - blen)))

/-- With `n` bytes remaining one of the first rooms of the loop is too large. -/
def RoomTooLarge : (passes : Nat) → (size blen n : Nat) → Prop
  | 0, _, _, _ => False
  | passes + 1, size, blen, n =>
      Small size ∧ blen < size ∧ (2 ^ 31 ≤ size - blen ∨ size - blen < 2 ^ 31 ∧ 0 < n ∧
        RoomTooLarge passes (size * 3 / 2) (blen + min (size - blen) n) (n - (size - blen)))

/-- One pass of the loop over a small room: it ends, or it has read something. -/
theorem receiveAll_pass {r : RequestRec} {body rest : Bytes} {s : Session}
    (gives : r.Gives body) (reading : Reading r body rest s) {size blen : Nat}
    (small : Small size) (lt : blen < size) (fits : size - blen < 2 ^ 31) (fuel : Nat)
    {buf : Bytes} (filled : buf.length = blen) :
    ∃ s' pass, pass.Sound ∧ Reading r body (rest.drop (size - blen)) s' ∧
      (rest = [] →
        receiveAll (fuel + 1) (UInt64.ofNat size) (UInt64.ofNat blen) buf s =
            (.returned (.raw buf), s') ∧
          receivePasses (fuel + 1) (UInt64.ofNat size) (UInt64.ofNat blen) s = [pass]) ∧
      (rest ≠ [] →
        receiveAll (fuel + 1) (UInt64.ofNat size) (UInt64.ofNat blen) buf s =
            receiveAll fuel (UInt64.ofNat (size * 3 / 2))
              (UInt64.ofNat (blen + min (size - blen) rest.length))
              (buf ++ rest.take (size - blen)) s' ∧
          receivePasses (fuel + 1) (UInt64.ofNat size) (UInt64.ofNat blen) s =
            pass :: receivePasses fuel (UInt64.ofNat (size * 3 / 2))
              (UInt64.ofNat (blen + min (size - blen) rest.length)) s') := by
  rcases readRequestBody_room gives reading small lt fits with ⟨s', read, after⟩
  have smallBlen : Small blen := Nat.lt_trans lt small
  have inside : (rest.take (size - blen)).length ≤ size - blen := List.length_take_le _ _
  have len := got_length (rest.take (size - blen)) (by omega)
  refine ⟨s', _, pass_sound small lt fits inside, after, ?_, ?_⟩
  · intro empty
    subst empty
    have whole : buf.take (UInt64.ofNat blen).toNat = buf := by
      rw [ofNat_toNat smallBlen, ← filled, List.take_length]
    have none : sizeOfInt (intOfSize (UInt64.ofNat ([] : Bytes).length)) = 0 := by
      simpa using len
    rw [List.take_nil] at read
    simp only [receiveAll, receivePasses, read, none, UInt64.lt_irrefl, if_false,
      UInt64.add_zero, List.append_nil, whole, List.take_nil, and_self]
  · intro more
    have count : 0 < (rest.take (size - blen)).length := by
      have positive := List.length_pos_iff.mpr more
      rw [List.length_take]
      omega
    have isMore : (0 : UInt64) < UInt64.ofNat (rest.take (size - blen)).length := by
      rw [UInt64.lt_iff_toNat_lt, ofNat_toNat (Nat.lt_of_le_of_lt inside
        (Nat.lt_of_le_of_lt (Nat.sub_le _ _) small))]
      exact count
    have whole : buf.take (UInt64.ofNat blen).toNat = buf := by
      rw [ofNat_toNat smallBlen, ← filled, List.take_length]
    have next : UInt64.ofNat blen + UInt64.ofNat (rest.take (size - blen)).length =
        UInt64.ofNat (blen + min (size - blen) rest.length) := by
      rw [← UInt64.ofNat_add, List.length_take]
    simp only [receiveAll, receivePasses, read, len, isMore, if_true, whole, next,
      ofNat_toNat small, and_self]

/-- If all rooms fit, the loop returns the rest of the body; the induction is on the
number of passes. -/
theorem receiveAll_of_fits {r : RequestRec} {body : Bytes} (gives : r.Gives body)
    {passes fuel : Nat} (enough : passes ≤ fuel) {size blen : Nat} {rest buf : Bytes}
    {s : Session} (reading : Reading r body rest s) (filled : buf.length = blen)
    (fit : RoomsFit passes size blen rest.length) :
    (∃ s', receiveAll fuel (UInt64.ofNat size) (UInt64.ofNat blen) buf s =
        (.returned (.raw (buf ++ rest)), s')) ∧
      ∀ pass ∈ receivePasses fuel (UInt64.ofNat size) (UInt64.ofNat blen) s, pass.Sound := by
  induction passes generalizing fuel size blen rest buf s with
  | zero => cases fit
  | succ passes ih =>
      cases fuel with
      | zero => omega
      | succ fuel =>
          rcases fit with ⟨small, lt, fits, later⟩
          rcases receiveAll_pass gives reading small lt fits fuel filled with
            ⟨s', pass, sound, after, ends, goesOn⟩
          by_cases empty : rest = []
          · rcases ends empty with ⟨returned, last⟩
            rw [returned, last, empty, List.append_nil]
            exact ⟨⟨s', rfl⟩, by simpa using sound⟩
          · rcases goesOn empty with ⟨next, more⟩
            have nonempty : rest.length ≠ 0 := fun zero => empty (List.length_eq_zero_iff.mp zero)
            have fit' := later.resolve_left nonempty
            rw [← List.length_drop] at fit'
            have filled' : (buf ++ rest.take (size - blen)).length =
                blen + min (size - blen) rest.length := by
              simp [filled]
            rcases ih (Nat.le_of_succ_le_succ enough) after filled' fit' with
              ⟨⟨s'', returned⟩, sounds⟩
            rw [next, more]
            refine ⟨⟨s'', ?_⟩, ?_⟩
            · rw [returned, List.append_assoc, List.take_append_drop]
            · intro other isOther
              rcases List.mem_cons.mp isOther with same | inRest
              · exact same ▸ sound
              · exact sounds other inRest

/-- If a room is too large, its pass is not sound. -/
theorem receivePasses_of_tooLarge {r : RequestRec} {body : Bytes} (gives : r.Gives body)
    {passes fuel : Nat} (enough : passes ≤ fuel) {size blen : Nat} {rest : Bytes}
    {s : Session} (reading : Reading r body rest s)
    (large : RoomTooLarge passes size blen rest.length) :
    ∃ pass ∈ receivePasses fuel (UInt64.ofNat size) (UInt64.ofNat blen) s, ¬ pass.Sound := by
  induction passes generalizing fuel size blen rest s with
  | zero => cases large
  | succ passes ih =>
      cases fuel with
      | zero => omega
      | succ fuel =>
          rcases large with ⟨small, lt, now | ⟨fits, nonempty, later⟩⟩
          · have present : (s.readRequestBody
                (intOfSize (UInt64.ofNat size - UInt64.ofNat blen))).isSome := by
              simp [readRequestBody, reading.current, reading.notParsed]
            rcases Option.isSome_iff_exists.mp present with ⟨⟨got, s'⟩, called⟩
            have bad : ¬ ReceivePass.Sound ⟨UInt64.ofNat size, UInt64.ofNat blen, got⟩ :=
              pass_not_sound small now
            refine ⟨_, ?_, bad⟩
            simp [receivePasses, called]
          · have isMore : rest ≠ [] := List.length_pos_iff.mp nonempty
            have zeros : (List.replicate blen (0 : UInt8)).length = blen := List.length_replicate
            rcases receiveAll_pass gives reading small lt fits fuel zeros with
              ⟨s', pass, -, after, -, goesOn⟩
            rw [← List.length_drop] at later
            rcases ih (Nat.le_of_succ_le_succ enough) after later with ⟨bad, isBad, notSound⟩
            rw [(goesOn isMore).2]
            exact ⟨bad, List.mem_cons_of_mem _ isBad, notSound⟩

/-! ## The sizes of the buffer -/

/-- The size of the buffer after so many enlargements. -/
def receiveSize : Nat → Nat
  | 0 => 8192
  | count + 1 => receiveSize count * 3 / 2

/-- The bytes in the buffer then, if it was always filled. -/
def receiveFilled : Nat → Nat
  | 0 => 0
  | count + 1 => receiveSize count

theorem RoomsFit.more {passes passes' size blen n : Nat} (fit : RoomsFit passes size blen n)
    (le : passes ≤ passes') : RoomsFit passes' size blen n := by
  induction passes generalizing passes' size blen n with
  | zero => cases fit
  | succ passes ih =>
      cases passes' with
      | zero => omega
      | succ passes' =>
          rcases fit with ⟨small, lt, fits, later⟩
          exact ⟨small, lt, fits, later.imp_right fun fit => ih fit (Nat.le_of_succ_le_succ le)⟩

theorem RoomTooLarge.more {passes passes' size blen n : Nat}
    (large : RoomTooLarge passes size blen n) (le : passes ≤ passes') :
    RoomTooLarge passes' size blen n := by
  induction passes generalizing passes' size blen n with
  | zero => cases large
  | succ passes ih =>
      cases passes' with
      | zero => omega
      | succ passes' =>
          rcases large with ⟨small, lt, later⟩
          refine ⟨small, lt, later.imp_right ?_⟩
          rintro ⟨fits, nonempty, large⟩
          exact ⟨fits, nonempty, ih large (Nat.le_of_succ_le_succ le)⟩

/-- Up to the size of about five gigabytes all rooms between two sizes are small. -/
theorem receiveSize_room : ∀ count ≤ 33, Small (receiveSize count) ∧
    receiveFilled count < receiveSize count ∧
      receiveSize count - receiveFilled count < 2 ^ 31 := by
  unfold Small
  decide

/-- The first passes fill the buffer while more remains. -/
theorem first_passes {passes n : Nat} (count : Nat) (few : count ≤ 34)
    (enough : receiveFilled count < n ∨ count = 0) :
    (RoomsFit passes (receiveSize count) (receiveFilled count) (n - receiveFilled count) →
        RoomsFit (passes + count) 8192 0 n) ∧
      (RoomTooLarge passes (receiveSize count) (receiveFilled count)
          (n - receiveFilled count) → RoomTooLarge (passes + count) 8192 0 n) := by
  induction count generalizing passes with
  | zero => exact ⟨id, id⟩
  | succ count ih =>
      rcases receiveSize_room count (by omega) with ⟨small, lt, fits⟩
      have filled : receiveSize count < n := by
        rcases enough with filled | zero
        · exact filled
        · cases zero
      have step := @ih (passes + 1) (by omega) (.inl (Nat.lt_trans lt filled))
      have rest : n - receiveFilled count - (receiveSize count - receiveFilled count) =
          n - receiveSize count := by omega
      have blen : receiveFilled count + min (receiveSize count - receiveFilled count)
          (n - receiveFilled count) = receiveSize count := by omega
      rw [show passes + (count + 1) = passes + 1 + count by omega]
      constructor
      · intro fit
        refine step.1 ⟨small, lt, fits, .inr ?_⟩
        rw [rest, blen]
        exact fit
      · intro large
        refine step.2 ⟨small, lt, .inr ⟨fits, by omega, ?_⟩⟩
        rw [rest, blen]
        exact large

/-- The pass that reads the last bytes is followed by one that reads nothing. -/
theorem last_passes {count n : Nat} (few : count ≤ 33)
    (within : receiveFilled count < n ∨ count = 0) (le : n ≤ receiveSize count) :
    (receiveSize (count + 1) - n < 2 ^ 31 → RoomsFit (2 + count) 8192 0 n) ∧
      (2 ^ 31 ≤ receiveSize (count + 1) - n → 0 < n → RoomTooLarge (2 + count) 8192 0 n) := by
  rcases receiveSize_room count few with ⟨small, lt, fits⟩
  have filled : receiveFilled count ≤ n := by
    rcases within with lt | zero
    · exact Nat.le_of_lt lt
    · rw [zero]
      exact Nat.zero_le n
  have grown : receiveSize count < receiveSize (count + 1) := by
    have enlarged : receiveSize (count + 1) = receiveSize count * 3 / 2 := rfl
    have large : 8192 ≤ receiveSize count := by
      have atLeast : ∀ count ≤ 33, 8192 ≤ receiveSize count := by decide
      exact atLeast count few
    omega
  have small' : Small (receiveSize (count + 1)) := by
    have all : ∀ count ≤ 33, receiveSize (count + 1) < 2 ^ 50 := by decide
    exact all count few
  have blen : receiveFilled count + min (receiveSize count - receiveFilled count)
      (n - receiveFilled count) = n := by omega
  have rest : n - receiveFilled count - (receiveSize count - receiveFilled count) = 0 := by
    omega
  constructor
  · intro fits'
    refine (first_passes count (by omega) within).1 ⟨small, lt, fits, .inr ?_⟩
    rw [blen, rest]
    exact ⟨small', Nat.lt_of_le_of_lt le grown, fits', .inl rfl⟩
  · intro large nonempty
    have more : 0 < n - receiveFilled count := by
      rcases within with lt | zero
      · omega
      · rw [zero]
        exact nonempty
    refine (first_passes count (by omega) within).2 ⟨small, lt, .inr ⟨fits, more, ?_⟩⟩
    rw [blen, rest]
    exact ⟨small', Nat.lt_of_le_of_lt le grown, .inl large⟩

theorem exists_last_pass {count n : Nat} (le : n ≤ receiveSize count) :
    ∃ last ≤ count, n ≤ receiveSize last ∧ (receiveFilled last < n ∨ last = 0) := by
  induction count with
  | zero => exact ⟨0, Nat.le_refl 0, le, .inr rfl⟩
  | succ count ih =>
      by_cases earlier : n ≤ receiveSize count
      · rcases ih earlier with ⟨last, few, found⟩
        exact ⟨last, Nat.le_succ_of_le few, found⟩
      · exact ⟨count + 1, Nat.le_refl _, le, .inl (Nat.lt_of_not_le earlier)⟩

/-- The numbers of bytes that are read with small rooms only. -/
def ReadInSmallRooms (n : Nat) : Prop :=
  n ≤ 2356236256 ∨ 3154047929 ≤ n ∧ n ≤ 3534354384

theorem rooms_fit {n : Nat} (reads : ReadInSmallRooms n) : RoomsFit 40 8192 0 n := by
  rcases reads with le | ⟨ge, le⟩
  · have le31 : n ≤ receiveSize 31 := le
    rcases exists_last_pass le31 with ⟨last, few, within, filled⟩
    have spread : ∀ count ≤ 31, receiveSize (count + 1) - receiveFilled count < 2 ^ 31 := by
      decide
    have room := spread last few
    refine ((last_passes (by omega) filled within).1 ?_).more (by omega)
    rcases filled with lt | zero
    · omega
    · subst zero
      simp only [receiveFilled] at room
      omega
  · have filled : receiveFilled 32 < n := Nat.lt_of_lt_of_le (by decide) ge
    have next : receiveSize 33 - n < 2 ^ 31 := by
      have value : receiveSize 33 = 5301531576 := by decide
      omega
    exact ((@last_passes 32 n (by omega) (.inl filled) le).1 next).more (by omega)

theorem room_too_large {n : Nat} (reads : ¬ ReadInSmallRooms n) : RoomTooLarge 40 8192 0 n := by
  simp only [ReadInSmallRooms, not_or, not_and_or, Nat.not_le] at reads
  rcases reads with ⟨gt, lt | gt'⟩
  · have next : 2 ^ 31 ≤ receiveSize 33 - n := by
      have value : receiveSize 33 = 5301531576 := by decide
      omega
    have within : n ≤ receiveSize 32 := by
      have value : receiveSize 32 = 3534354384 := by decide
      omega
    exact ((@last_passes 32 n (by omega) (.inl gt) within).2 next (by omega)).more
      (by omega)
  · have size33 : receiveSize 33 = 5301531576 := by decide
    have size34 : receiveSize 34 = 7952297364 := by decide
    by_cases within : n ≤ receiveSize 33
    · have next : 2 ^ 31 ≤ receiveSize 34 - n := by omega
      exact ((@last_passes 33 n (by omega) (.inl gt') within).2 next (by omega)).more
        (by omega)
    · have filled : receiveFilled 34 < n := Nat.lt_of_not_le within
      have large : RoomTooLarge 1 (receiveSize 34) (receiveFilled 34) (n - receiveFilled 34) := by
        refine ⟨?_, ?_, .inl ?_⟩
        · unfold Small
          decide
        · decide
        · decide
      exact ((first_passes 34 (by omega) (.inl filled)).2 large).more (by omega)

/-! ## `receiveBin` of a negative length -/

theorem receivesAll_of_reading {r : RequestRec} {body rest : Bytes} {s : Session}
    (gives : r.Gives body) (reading : Reading r body rest s) {llen : Int32}
    (negative : llen < 0) :
    (∃ enough, ∀ fuel, enough ≤ fuel → ReceivesAll rest fuel llen s) ↔
      ReadInSmallRooms rest.length := by
  have called (fuel : Nat) : s.receiveBin fuel llen = receiveAll fuel 8192 0 [] s := by
    have notPositive : ¬ 0 < llen := fun positive => absurd negative (Int32.lt_asymm positive)
    simp [receiveBin, notPositive, negative]
  constructor
  · rintro ⟨enough, receives⟩
    by_contra large
    rcases receivePasses_of_tooLarge gives (Nat.le_max_right enough 40) reading
      (room_too_large large) with ⟨pass, isPass, notSound⟩
    exact notSound ((receives _ (Nat.le_max_left enough 40)).sound pass isPass)
  · intro small
    have empty : ([] : Bytes).length = 0 := rfl
    refine ⟨40, fun fuel le => ?_⟩
    rcases receiveAll_of_fits gives le reading empty (rooms_fit small) with ⟨all, sound⟩
    exact ⟨by rw [called]; exact all, sound⟩

/-- `receiveBin` of a negative length reads what remains of a body in sound passes exactly
when all rooms are below `2 ^ 31`.  A larger room is a negative `int`, which
`ReadRequestBody` compares as an `apr_size_t`. -/
theorem receivesAll_iff (left : Session) (r : RequestRec) (handler : Option RApacheDirective)
    {body : Bytes} (gives : r.Gives body) (fuel : Nat) (calls : List BodyCall) (llen : Int32)
    (negative : llen < 0) :
    let s := ((setUp left r handler).execAll fuel (calls.map BodyCall.call)).2
    let rest := body.drop (calls.map BodyCall.size).sum
    (∃ enough, ∀ fuel, enough ≤ fuel → ReceivesAll rest fuel llen s) ↔
      ReadInSmallRooms rest.length := by
  intro s rest
  rcases execAll_reading fuel gives (setUp_reading left r handler body) calls with
    ⟨s', executed, reading⟩
  have isState : s = s' := congrArg Prod.snd executed
  rw [← isState] at reading
  exact receivesAll_of_reading gives reading negative

/-- Three bytes are read at once. -/
theorem abc_is_received_at_once :
    ∃ enough, ∀ fuel, enough ≤ fuel →
      ReceivesAll (bytes "abc") fuel (-1) (setUp {} (bodyRequest (bytes "abc")) none) :=
  (receivesAll_iff {} (bodyRequest (bytes "abc")) none (bodyRequest_gives _) 0 [] (-1)
    (by decide)).mpr (.inl (by decide))

/-- A body one byte longer than one of the sizes of the buffer. -/
theorem large_body_overflows_int :
    ¬ ∃ enough, ∀ fuel, enough ≤ fuel →
      ReceivesAll (List.replicate 2356236257 0) fuel (-1)
        (setUp {} (bodyRequest (List.replicate 2356236257 0)) none) := by
  intro receives
  have small := (receivesAll_of_reading (bodyRequest_gives _)
    (setUp_reading {} _ none _) (by decide)).mp receives
  rw [List.length_replicate] at small
  rcases small with le | ⟨ge, -⟩
  · omega
  · omega

end Session

end RApache
