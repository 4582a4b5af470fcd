import Mathlib.Tactic.Linarith
import RApache.SendBinBlocks

/-!
# The arithmetic of `sendBin`

`RApache_sendBin` allocates the buffer with sizes of the machine, and computes positions and
lengths in it with `int`.
-/

namespace RApache

namespace SendBinM

/-! ## Computations that stay exact -/

section Exact

variable {int : Int → Int} {bound : Int}

/-- A computation is exact, and so is what follows it. -/
theorem compute_congr {β : Type} {z : Int} {rest rest' : Int → SendBinM β} (precise : int z = z)
    (same : rest z = rest' z) : (compute int z >>= rest) = (compute id z >>= rest') := by
  have computes : compute int z = compute id z := by
    funext b
    rw [compute, compute, precise]
    rfl
  rw [computes]
  funext b
  have computed : compute id z b = .ok (z, { b with computed := b.computed ++ [z] }) := rfl
  rw [bind_ok computed, bind_ok computed, same]

theorem then_congr {steps steps' : SendBinM Unit} {β : Type} {rest rest' : Unit → SendBinM β}
    (first : steps = steps') (same : rest () = rest' ()) :
    (steps >>= rest) = (steps' >>= rest') := by
  have isRest : rest = rest' := funext fun _ => same
  rw [first, isRest]

variable (precise : ∀ z, 0 ≤ z → z ≤ bound → int z = z)

include precise

theorem copyAll_exact {size : Int} {len : Nat} {src : Bytes} (positive : 0 ≤ size)
    (small : size * len ≤ bound) : copyAll int size len src = copyAll id size len src :=
  compute_congr (precise _ (by positivity) small) rfl

theorem copyLoop_exact {size j : Int} {elements : List Bytes} (positive : 0 ≤ size) (begins : 0 ≤ j)
    (small : j + size * elements.length ≤ bound) :
    copyLoop int size elements j = copyLoop id size elements j := by
  induction elements generalizing j with
  | nil => rfl
  | cons element elements ih =>
      have after : j + size + size * elements.length ≤ bound := by
        rw [List.length_cons] at small
        push_cast at small
        linarith
      have rest : 0 ≤ size * elements.length := by positivity
      refine then_congr rfl (compute_congr (precise _ (by omega) (by omega)) ?_)
      exact ih (by omega) after

theorem swapLoop_exact {size i : Int} {rounds : Nat} (positive : 0 ≤ size) (begins : 0 ≤ i)
    (small : size * (i + rounds) ≤ bound) :
    swapLoop int size rounds i = swapLoop id size rounds i := by
  induction rounds generalizing i with
  | zero => rfl
  | succ rounds ih =>
      have later : size * (i + 1 + rounds) ≤ bound := by
        push_cast at small
        linarith
      have here : size * i ≤ size * (i + (rounds + 1 : Nat)) :=
        mul_le_mul_of_nonneg_left (by omega) positive
      refine compute_congr (precise _ (by positivity) (by omega)) ?_
      exact then_congr rfl (ih (by omega) later)

theorem swapHalvesLoop_exact {i : Int} {rounds : Nat} (begins : 0 ≤ i)
    (small : 16 * (i + rounds) ≤ bound) :
    swapHalvesLoop int 16 rounds i = swapHalvesLoop id 16 rounds i := by
  induction rounds generalizing i with
  | zero => rfl
  | succ rounds ih =>
      refine compute_congr (precise (8 * 2) (by omega) (by omega)) ?_
      refine compute_congr (precise (8 * 2 * i) (by omega) (by omega)) (then_congr rfl ?_)
      refine compute_congr (precise (2 * i) (by omega) (by omega)) ?_
      refine compute_congr (precise (2 * i + 1) (by omega) (by omega)) ?_
      refine compute_congr (precise (8 * (2 * i + 1)) (by omega) (by omega)) (then_congr rfl ?_)
      exact ih (by omega) (by omega)

theorem fillInts_exact {p : Platform} {size : Int} {elements : List Int32} (positive : 0 ≤ size)
    (small : size * elements.length ≤ bound) :
    fillBuffer.ints int p size elements = fillBuffer.ints id p size elements := by
  have loops (bytes : Int32 → Bytes) : copyLoop int size (elements.map bytes) 0 =
      copyLoop id size (elements.map bytes) 0 :=
    copyLoop_exact precise positive le_rfl (by rwa [List.length_map, Int.zero_add])
  simp only [fillBuffer.ints, copyAll_exact precise positive small, loops]

theorem fillBuffer_exact {p : Platform} {object : RVector} {size : Int} (positive : 0 ≤ size)
    (small : size * object.length ≤ bound) :
    fillBuffer int p size object = fillBuffer id p size object := by
  cases object with
  | logical elements => exact fillInts_exact precise positive small
  | integer elements => exact fillInts_exact precise positive small
  | real elements =>
      have loops (bytes : UInt64 → Bytes) : copyLoop int size (elements.map bytes) 0 =
          copyLoop id size (elements.map bytes) 0 :=
        copyLoop_exact precise positive le_rfl (by rwa [List.length_map, Int.zero_add])
      have whole (src : Bytes) : copyAll int size elements.length src =
          copyAll id size elements.length src := copyAll_exact precise positive small
      simp only [fillBuffer, whole, loops]
  | complex elements => exact copyAll_exact precise positive small
  | raw elements => rfl
  | character elements => rfl
  | other => rfl

theorem swapElements_exact {p : Platform} {object : RVector} {ssize : Int32} {size : Int}
    (swap : Bool) (accepted : elementSize p object ssize = .ok size)
    (small : size * object.length ≤ bound) :
    swapElements int object size swap = swapElements id object size swap := by
  have positive := elementSize_pos accepted
  have loops : swapLoop int size object.length 0 = swapLoop id size object.length 0 :=
    swapLoop_exact precise positive.le le_rfl (by rwa [Int.zero_add])
  unfold swapElements
  split
  next =>
    cases object with
    | complex elements =>
        cases complex_ok accepted
        exact swapHalvesLoop_exact precise le_rfl (by rwa [Int.zero_add])
    | logical elements => exact loops
    | integer elements => exact loops
    | real elements => exact loops
    | raw elements => exact loops
    | character elements => exact loops
    | other => exact loops
  next => rfl

/-- Nothing changes with an `int` that holds every position in the buffer. -/
theorem sendBuffer_exact {p : Platform} {object : RVector} {ssize : Int32} {size : Int}
    (swap : Bool) (accepted : elementSize p object ssize = .ok size)
    (small : size * object.length ≤ bound) :
    sendBuffer int p object size swap = sendBuffer id p object size swap := by
  have positive := elementSize_pos accepted
  refine then_congr (fillBuffer_exact precise positive.le small) ?_
  refine then_congr (swapElements_exact precise swap accepted small) ?_
  exact compute_congr (precise _ (by positivity) small) rfl

end Exact

/-! ## A length that is no `int` -/

theorem bind_error {α β : Type} {steps : SendBinM α} {rest : α → SendBinM β} {b : SendBuffer}
    {failure : SendBinFailure} (fails : steps b = .error failure) :
    (steps >>= rest) b = .error failure := by
  change (steps b >>= fun after => rest after.1 after.2) = _
  rw [fails]
  rfl

theorem bind_ok_cases {α β : Type} {steps : SendBinM α} {rest : α → SendBinM β} {b : SendBuffer}
    {after : β × SendBuffer} (ran : (steps >>= rest) b = .ok after) :
    ∃ value b', steps b = .ok (value, b') ∧ rest value b' = .ok after := by
  cases isFirst : steps b with
  | ok first => exact ⟨first.1, first.2, rfl, (bind_ok isFirst).symm.trans ran⟩
  | error failure =>
      rw [bind_error isFirst] at ran
      cases ran

/-- At most as many bytes are handed over as the `int` says. -/
theorem sendBuffer_length {int : Int → Int} {p : Platform} {object : RVector} {size : Int}
    {swap : Bool} {b work : SendBuffer} {passed : Bytes}
    (ran : sendBuffer int p object size swap b = .ok (passed, work)) :
    (passed.length : Int) ≤ max 0 (int (size * object.length)) := by
  rcases bind_ok_cases ran with ⟨-, b₁, -, swaps⟩
  rcases bind_ok_cases swaps with ⟨-, b₂, -, passes⟩
  rw [passBuffer_eq] at passes
  split at passes
  next =>
    cases passes
    rw [List.length_take]
    omega
  next => cases passes

/-- A length below zero is a size that no memory has. -/
theorem copyAll_negative {int : Int → Int} {size : Int} {len : Nat} {src : Bytes} (b : SendBuffer)
    (negative : int (size * len) < 0) : copyAll int size len src b = .error .memory := by
  have outside : ¬ (0 ≤ (0 : Int) ∧ 0 ≤ int (size * len) ∧
      0 + int (size * len) ≤ b.buf.length ∧ int (size * len) ≤ src.length) := by
    omega
  have computed : compute int (size * len) b =
      .ok (int (size * len), { b with computed := b.computed ++ [int (size * len)] }) := rfl
  rw [copyAll, bind_ok computed]
  exact if_neg outside

end SendBinM

/-! ## When the computations are exact -/

theorem int32_eq {z : Int} (atLeast : 0 ≤ z) (atMost : z ≤ intMax) : int32 z = z := by
  apply Int.bmod_eq_of_le_mul_two
  · omega
  · rw [intMax] at atMost
    omega

theorem int32_le (z : Int) : int32 z ≤ intMax := by
  have below := @Int.bmod_lt z (2 ^ 32) (by decide)
  rw [int32, intMax]
  omega

/-- With `int` of 32 bits everything is computed, and ends, as with unbounded numbers; and for a
size that is known, all bytes of the vector are copied, turned round if that is asked for, and
handed over, inside of a buffer of this many bytes. -/
structure ComputesExactly (p : Platform) (object : RVector) (ssize : Int32) (swap : Bool) :
    Prop where
  same : sendObject int32 p object ssize (some swap) = sendObject id p object ssize (some swap)
  whole : ∀ size, elementSize p object ssize = .ok size →
    ∃ buffers work, sendObject int32 p object ssize (some swap) = .returned buffers work ∧
      (buffers.flatten.length : Int) = object.length * size ∧
      work.buf.length = buffers.flatten.length ∧
      work.copied = buffers.flatten.length ∧
      (work.swapped = if swap ∧ 1 < size then buffers.flatten.length else 0)

variable {p : Platform} {object : RVector} {ssize : Int32} {swap : Bool}

theorem sendObject_exact (small : ∀ size, elementSize p object ssize = .ok size →
      size * object.length ≤ intMax) :
    sendObject int32 p object ssize (some swap) = sendObject id p object ssize (some swap) := by
  have same : sendVector int32 p object ssize swap = sendVector id p object ssize swap := by
    cases isSize : elementSize p object ssize with
    | error msg => simp only [sendVector, isSize]
    | ok size =>
        rw [sendVector_eq int32 swap isSize, sendVector_eq id swap isSize,
          SendBinM.sendBuffer_exact (fun _ => int32_eq) swap isSize (small size isSize)]
  simp only [sendObject, same]

/-- The 32 bits of an `int` are enough just when the output of the vector has fewer than 2^31
bytes. -/
theorem computes_exactly_iff (p : Platform) (object : RVector) (ssize : Int32) (swap : Bool) :
    ComputesExactly p object ssize swap ↔
      ∀ size, elementSize p object ssize = .ok size → size * object.length ≤ intMax := by
  constructor
  · intro exact size accepted
    by_contra large
    rcases exact.whole size accepted with ⟨buffers, work, returned, isLength, -⟩
    have atomic := isVectorAtomic_of_accepted accepted
    simp only [sendObject, atomic, Bool.not_true, Bool.false_eq_true, if_false] at returned
    split at returned
    next => cases returned
    next =>
      split at returned
      next empty =>
        rw [empty] at large
        exact large (by simp [intMax])
      next =>
        rw [sendVector_eq int32 swap accepted] at returned
        cases isRun : SendBinM.sendBuffer int32 p object size swap
          { buf := List.replicate (object.length * size.toNat) 0 } with
        | error failure =>
            rw [isRun] at returned
            cases failure with
            | error msg => cases returned
            | memory => cases returned
        | ok run =>
            rw [isRun] at returned
            cases returned
            have atMost := SendBinM.sendBuffer_length isRun
            have small := int32_le (size * object.length)
            have positive : 0 ≤ intMax := by decide
            simp only [List.flatten_cons, List.flatten_nil, List.append_nil] at isLength
            rw [isLength, Int.mul_comm] at atMost
            omega
  · intro small
    refine ⟨sendObject_exact small, fun size accepted => ?_⟩
    rw [sendObject_exact small]
    have positive := SendBinM.elementSize_pos accepted
    have isWidth : (size.toNat : Int) = size := Int.toNat_of_nonneg positive.le
    have atomic := isVectorAtomic_of_accepted accepted
    by_cases empty : object.length = 0
    · refine ⟨[], {}, by simp [sendObject, atomic, empty, intMax], ?_⟩
      simp [empty]
    · have short : ¬ intMax < object.length := by
        have bound := small size accepted
        have atLeast : 1 * (object.length : Int) ≤ size * object.length :=
          mul_le_mul_of_nonneg_right positive (Int.natCast_nonneg _)
        omega
      rcases sendVector_sends swap accepted with ⟨work, sent, isWork⟩
      have isBuf := congrArg SendProgress.buf isWork
      have isCopied := congrArg SendProgress.copied isWork
      have isSwapped := congrArg SendProgress.swapped isWork
      have isLength := SendBinM.length_flatten_blocks accepted swap
      refine ⟨_, work, by simpa [sendObject, atomic, empty, short] using sent, ?_⟩
      simp only [List.flatten_cons, List.flatten_nil, List.append_nil]
      refine ⟨?_, congrArg List.length isBuf, isCopied.trans isLength.symm, ?_⟩
      · rw [isLength]
        push_cast
        rw [isWidth]
      · rw [isLength]
        exact isSwapped

theorem integers_end {elements : List Int32} (isLength : elements.length = 2 ^ 29) :
    sendObject int32 p (.integer elements) 4 (some false) = .ended := by
  have negative : int32 (4 * elements.length) < 0 := by
    rw [isLength]
    decide
  have accepted : elementSize p (.integer elements) 4 = .ok 4 := rfl
  have fills (b : SendBuffer) : SendBinM.fillBuffer int32 p 4 (.integer elements) b =
      .error .memory := SendBinM.copyAll_negative b negative
  have sent : sendVector int32 p (.integer elements) 4 false = .ended := by
    rw [sendVector_eq int32 false accepted, SendBinM.sendBuffer, SendBinM.bind_error (fills _)]
    rfl
  have short : ¬ intMax < (RVector.integer elements).length := by
    rw [RVector.length, isLength]
    decide
  have some : ¬ (RVector.integer elements).length = 0 := by
    rw [RVector.length, isLength]
    decide
  simp only [sendObject, short, some, sent, if_false]
  rfl

/-- 2^29 integers of four bytes each: `size * len` is negative, and `memcpy` reads and writes
outside of the vector and the buffer. -/
theorem integers_are_not_copied :
    ∃ (p : Platform) (elements : List Int32), (elements.length : Int) ≤ intMax ∧
      elementSize p (.integer elements) 4 = .ok 4 ∧
      int32 (4 * elements.length) = -(2 ^ 31) ∧
      sendObject int32 p (.integer elements) 4 (some false) = .ended ∧
      ¬ ComputesExactly p (.integer elements) 4 false := by
  have isLength : (List.replicate (2 ^ 29) (0 : Int32)).length = 2 ^ 29 := List.length_replicate
  refine ⟨⟨.little, true, fun _ => 0, none⟩, List.replicate (2 ^ 29) 0, ?_, rfl, ?_,
    integers_end isLength, fun exact => ?_⟩
  · rw [isLength]
    decide
  · rw [isLength]
    decide
  · rcases exact.whole 4 rfl with ⟨buffers, work, returned, -⟩
    rw [integers_end isLength] at returned
    cases returned

end RApache
