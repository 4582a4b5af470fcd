import Mathlib.Tactic.Ring
import RApache.SendBin

/-!
# What `sendBin` writes

With unbounded offsets, `RApache_sendBin` writes one block of bytes for every element.
-/

namespace RApache

/-! ## Steps on the buffer -/

/-- The buffer, and how many bytes are copied and turned round. -/
structure SendProgress where
  buf : Bytes
  copied : Nat
  swapped : Nat

/-- What a buffer holds, without the results of computations. -/
def SendBuffer.progress (b : SendBuffer) : SendProgress :=
  { buf := b.buf, copied := b.copied, swapped := b.swapped }

namespace SendBinM

/-- Steps come to their end, and take the buffer from one state to the other. -/
def Leads (steps : SendBinM Unit) (before after : SendProgress) : Prop :=
  ∀ b : SendBuffer, b.progress = before → ∃ b', steps b = .ok ((), b') ∧ b'.progress = after

/-- Steps that have come to their end go on with the rest. -/
theorem bind_ok {α β : Type} {steps : SendBinM α} {rest : α → SendBinM β} {b b' : SendBuffer}
    {value : α} (ran : steps b = .ok (value, b')) : (steps >>= rest) b = rest value b' := by
  change (steps b >>= fun after => rest after.1 after.2) = _
  rw [ran]
  rfl

theorem Leads.done {before after : SendProgress} (same : before = after) :
    Leads (pure ()) before after :=
  fun b isBefore => ⟨b, rfl, isBefore.trans same⟩

theorem Leads.bind {steps : SendBinM Unit} {rest : Unit → SendBinM Unit}
    {before between after : SendProgress} (first : Leads steps before between)
    (next : Leads (rest ()) between after) : Leads (steps >>= rest) before after := by
  intro b isBefore
  rcases first b isBefore with ⟨b₁, ran, isBetween⟩
  rcases next b₁ isBetween with ⟨b₂, ran', isAfter⟩
  exact ⟨b₂, (bind_ok ran).trans ran', isAfter⟩

/-- A computation changes nothing else. -/
theorem Leads.computed {int : Int → Int} {z : Int} {rest : Int → SendBinM Unit}
    {before after : SendProgress} (next : Leads (rest (int z)) before after) :
    Leads (compute int z >>= rest) before after := by
  intro b isBefore
  have computed : compute int z b = .ok (int z, { b with computed := b.computed ++ [int z] }) := rfl
  rcases next { b with computed := b.computed ++ [int z] } isBefore with ⟨b', ran, isAfter⟩
  exact ⟨b', (bind_ok computed).trans ran, isAfter⟩

variable {copied swapped : Nat}

/-- Bytes are copied into a gap of their length. -/
theorem memcpy_leads (front : Bytes) {gap src : Bytes} (back : Bytes)
    (same : gap.length = src.length) :
    Leads (memcpy front.length src src.length) ⟨front ++ (gap ++ back), copied, swapped⟩
      ⟨front ++ (src ++ back), copied + src.length, swapped⟩ := by
  intro b isBefore
  have isBuf : b.buf = front ++ (gap ++ back) := congrArg SendProgress.buf isBefore
  have isCopied : b.copied = copied := congrArg SendProgress.copied isBefore
  have isSwapped : b.swapped = swapped := congrArg SendProgress.swapped isBefore
  have inside : 0 ≤ (front.length : Int) ∧ 0 ≤ (src.length : Int) ∧
      (front.length : Int) + src.length ≤ b.buf.length ∧ (src.length : Int) ≤ src.length := by
    simp only [isBuf, List.length_append]
    omega
  have behind : ((front.length : Int) + src.length).toNat = (front ++ gap).length := by
    rw [List.length_append]
    omega
  have before : b.buf.take front.length = front := by rw [isBuf, List.take_left]
  have after : b.buf.drop (front ++ gap).length = back := by
    rw [isBuf, ← List.append_assoc, List.drop_left]
  refine ⟨_, if_pos inside, ?_⟩
  simp only [SendBuffer.progress, behind, Int.toNat_natCast, before, after, List.take_length,
    isCopied, isSwapped, List.append_assoc]

theorem copyAll_leads {size : Int} {len : Nat} {buf src : Bytes}
    (isLength : size * len = src.length) (room : buf.length = src.length) :
    Leads (copyAll id size len src) ⟨buf, copied, swapped⟩
      ⟨src, copied + src.length, swapped⟩ := by
  refine .computed ?_
  rw [id, isLength]
  simpa using memcpy_leads [] [] room

theorem copyLoop_leads {width : Nat} {elements : List Bytes}
    (each : ∀ element ∈ elements, element.length = width) {front gap : Bytes}
    (room : gap.length = elements.length * width) :
    Leads (copyLoop id width elements front.length) ⟨front ++ gap, copied, swapped⟩
      ⟨front ++ elements.flatten, copied + elements.length * width, swapped⟩ := by
  induction elements generalizing front gap copied with
  | nil =>
      have noGap : gap = [] := by simpa using room
      exact .done (by simp [noGap])
  | cons element elements ih =>
      have isWidth : element.length = width := each element List.mem_cons_self
      rw [List.length_cons, Nat.succ_mul] at room
      have here : (gap.take width).length = element.length := by
        rw [List.length_take, isWidth]
        omega
      have rest : (gap.drop width).length = elements.length * width := by
        rw [List.length_drop]
        omega
      have placed := @memcpy_leads copied swapped front _ _ (gap.drop width) here
      rw [List.take_append_drop, isWidth] at placed
      have later := @ih (copied + width)
        (fun other isOther => each other (List.mem_cons_of_mem _ isOther)) (front ++ element)
        (gap.drop width) rest
      have position : ((front ++ element).length : Int) = front.length + width := by
        simp [isWidth]
      have total : copied + width + elements.length * width =
          copied + (element :: elements).length * width := by
        rw [List.length_cons, Nat.succ_mul]
        omega
      rw [position, total, List.append_assoc, List.append_assoc, ← List.flatten_cons] at later
      exact placed.bind (.computed later)

theorem storeLoop_leads {elements front gap : Bytes} (room : gap.length = elements.length) :
    Leads (storeLoop elements front.length) ⟨front ++ gap, copied, swapped⟩
      ⟨front ++ elements, copied + elements.length, swapped⟩ := by
  induction elements generalizing front gap copied with
  | nil =>
      have noGap : gap = [] := by simpa using room
      exact .done (by simp [noGap])
  | cons element elements ih =>
      cases gap with
      | nil => cases room
      | cons old gap =>
          have placed := @memcpy_leads copied swapped front [old] [element] gap rfl
          have later := @ih (copied + 1) (front ++ [element]) gap (Nat.succ.inj room)
          have position : ((front ++ [element]).length : Int) = front.length + 1 := by simp
          have total : copied + 1 + elements.length = copied + (element :: elements).length := by
            rw [List.length_cons]
            omega
          rw [position, total, List.append_assoc, List.append_assoc] at later
          exact placed.bind later

/-! ## Turning bytes round -/

theorem exchange_leads (front middle back : Bytes) (x y : UInt8) :
    Leads (exchange front.length (front.length + (middle.length + 1)))
      ⟨front ++ x :: (middle ++ y :: back), copied, swapped⟩
      ⟨front ++ y :: (middle ++ x :: back), copied, swapped⟩ := by
  intro b isBefore
  have isBuf : b.buf = front ++ x :: (middle ++ y :: back) := congrArg SendProgress.buf isBefore
  have isCopied : b.copied = copied := congrArg SendProgress.copied isBefore
  have isSwapped : b.swapped = swapped := congrArg SendProgress.swapped isBefore
  have natural : ((front.length : Int) + (middle.length + 1)).toNat =
      front.length + (middle.length + 1) := by omega
  have first : b.buf[front.length]? = some x := by simp [isBuf]
  have second : b.buf[front.length + (middle.length + 1)]? = some y := by
    rw [isBuf, List.getElem?_append_right (by omega)]
    simp
  have inside : 0 ≤ (front.length : Int) ∧ 0 ≤ (front.length : Int) + (middle.length + 1) := by
    omega
  have exchanged : (b.buf.set front.length y).set (front.length + (middle.length + 1)) x =
      front ++ y :: (middle ++ x :: back) := by
    rw [isBuf, List.set_append_right _ _ (by omega), List.set_append_right _ _ (by omega)]
    simp
  refine ⟨{ b with buf := front ++ y :: (middle ++ x :: back) }, ?_, ?_⟩
  · simp only [exchange, inside, and_self, if_true, Int.toNat_natCast, natural, first, second,
      exchanged]
  · simp only [SendBuffer.progress, isCopied, isSwapped]

/-- From the round `i` on, `swapb` turns the bytes between the ones that it has exchanged. -/
theorem swapbLoop_leads {p size i : Int} {rounds : Nat} {front inner back : Bytes}
    (first : p + i = front.length) (last : p + (size - i) = front.length + inner.length)
    (isRounds : rounds = inner.length / 2) :
    Leads (swapbLoop p size rounds i) ⟨front ++ (inner ++ back), copied, swapped⟩
      ⟨front ++ (inner.reverse ++ back), copied, swapped⟩ := by
  induction rounds generalizing i front inner back with
  | zero =>
      have short : inner.length ≤ 1 := by omega
      match inner, short with
      | [], _ => exact .done rfl
      | [x], _ => exact .done rfl
  | succ rounds ih =>
      cases inner with
      | nil => simp at isRounds
      | cons x inner =>
          rcases List.eq_nil_or_concat' inner with isNil | ⟨middle, y, isInner⟩
          · simp [isNil] at isRounds
          · subst isInner
            simp only [List.length_cons, List.length_append, List.length_nil] at last isRounds
            have exchanged := @exchange_leads copied swapped front middle back x y
            have position : p + (size - i - 1) = front.length + (middle.length + 1) := by omega
            have later := @ih (i + 1) (front ++ [y]) middle (x :: back)
              (by simp; omega) (by simp; omega) (by omega)
            rw [← position, ← first] at exchanged
            simp only [List.append_assoc, List.singleton_append] at later
            have given : x :: (middle ++ [y]) ++ back = x :: (middle ++ y :: back) := by simp
            have turned : (x :: (middle ++ [y])).reverse ++ back =
                y :: (middle.reverse ++ x :: back) := by simp
            rw [given, turned]
            exact exchanged.bind later

/-- `swapb` turns a block round. -/
theorem swapb_leads (front : Bytes) {block : Bytes} (back : Bytes) (long : 1 < block.length) :
    Leads (swapb front.length block.length) ⟨front ++ (block ++ back), copied, swapped⟩
      ⟨front ++ (block.reverse ++ back), copied, swapped + block.length⟩ := by
  have notOne : ¬ (block.length : Int) = 1 := by omega
  have rounds : ((block.length : Int).tdiv 2).toNat = block.length / 2 := by
    rw [Int.tdiv_eq_ediv_of_nonneg (Int.natCast_nonneg _)]
    omega
  have turned := @swapbLoop_leads copied swapped front.length block.length 0
    (block.length / 2) front block back (by omega) (by omega) rfl
  have counted : Leads (modify fun b : SendBuffer => { b with swapped := b.swapped + block.length })
      ⟨front ++ (block.reverse ++ back), copied, swapped⟩
      ⟨front ++ (block.reverse ++ back), copied, swapped + block.length⟩ := by
    intro b isBefore
    have isSwapped : b.swapped = swapped := congrArg SendProgress.swapped isBefore
    refine ⟨{ b with swapped := b.swapped + block.length }, rfl, ?_⟩
    rw [SendBuffer.progress, SendProgress.mk.injEq]
    exact ⟨congrArg SendProgress.buf isBefore, congrArg SendProgress.copied isBefore,
      congrArg (· + block.length) isSwapped⟩
  simp only [swapb, notOne, if_false, rounds, Int.toNat_natCast]
  exact turned.bind counted

/-- The loop over the elements turns every block round. -/
theorem swapLoop_leads {width : Nat} (wide : 1 < width) {blocks : List Bytes}
    (each : ∀ block ∈ blocks, block.length = width) {front : Bytes} {i : Int}
    (position : width * i = front.length) :
    Leads (swapLoop id width blocks.length i) ⟨front ++ blocks.flatten, copied, swapped⟩
      ⟨front ++ (blocks.map List.reverse).flatten, copied, swapped + blocks.length * width⟩ := by
  induction blocks generalizing front i swapped with
  | nil => exact .done (by simp)
  | cons block blocks ih =>
      have isWidth : block.length = width := each block List.mem_cons_self
      have turned := @swapb_leads copied swapped front block blocks.flatten (isWidth ▸ wide)
      have next : width * (i + 1) = ((front ++ block.reverse).length : Int) := by
        rw [Int.mul_add, position]
        simp [isWidth]
      have later := @ih (swapped + width)
        (fun other isOther => each other (List.mem_cons_of_mem _ isOther)) (front ++ block.reverse)
        (i + 1) next
      have total : swapped + width + blocks.length * width =
          swapped + (block :: blocks).length * width := by
        rw [List.length_cons, Nat.succ_mul]
        omega
      rw [total, List.append_assoc, List.append_assoc, ← List.flatten_cons] at later
      rw [isWidth, ← List.flatten_cons, ← position] at turned
      exact .computed (turned.bind later)

/-- The loop for complex vectors turns both halves of every block round. -/
theorem swapHalvesLoop_leads {width : Nat} (wide : 1 < width) {blocks : List (Bytes × Bytes)}
    (each : ∀ block ∈ blocks, block.1.length = width ∧ block.2.length = width) {front : Bytes}
    {i : Int} (position : width * 2 * i = front.length) :
    Leads (swapHalvesLoop id (width * 2 : Nat) blocks.length i)
      ⟨front ++ blocks.flatMap fun block => block.1 ++ block.2, copied, swapped⟩
      ⟨front ++ blocks.flatMap fun block => block.1.reverse ++ block.2.reverse, copied,
        swapped + blocks.length * (width * 2)⟩ := by
  induction blocks generalizing front i swapped with
  | nil => exact .done (by simp)
  | cons block blocks ih =>
      rcases each block List.mem_cons_self with ⟨isLow, isHigh⟩
      have half : ((width * 2 : Nat) : Int).tdiv 2 = width := by
        rw [Int.tdiv_eq_ediv_of_nonneg (Int.natCast_nonneg _)]
        omega
      let rest := blocks.flatMap fun block => block.1 ++ block.2
      have low := @swapb_leads copied swapped front block.1 (block.2 ++ rest) (isLow ▸ wide)
      have high := @swapb_leads copied (swapped + width) (front ++ block.1.reverse) block.2 rest
        (isHigh ▸ wide)
      have middle : width * (2 * i + 1) = ((front ++ block.1.reverse).length : Int) := by
        rw [List.length_append, List.length_reverse, isLow]
        push_cast
        rw [← position]
        ring
      have next : width * 2 * (i + 1) =
          ((front ++ block.1.reverse ++ block.2.reverse).length : Int) := by
        rw [List.length_append, List.length_append, List.length_reverse, List.length_reverse, isLow,
          isHigh]
        push_cast
        rw [← position]
        ring
      have later := @ih (swapped + width + width)
        (fun other isOther => each other (List.mem_cons_of_mem _ isOther))
        (front ++ block.1.reverse ++ block.2.reverse) (i + 1) next
      have total : swapped + width + width + blocks.length * (width * 2) =
          swapped + (block :: blocks).length * (width * 2) := by
        rw [List.length_cons, Nat.succ_mul]
        omega
      rw [isLow, ← position] at low
      rw [isHigh, ← middle] at high
      rw [total] at later
      simp only [List.append_assoc] at low high later
      simp only [List.flatMap_cons, List.append_assoc, List.length_cons, swapHalvesLoop, half]
      exact .computed (.computed (low.bind (.computed (.computed (.computed (high.bind later))))))

end SendBinM

/-! ## Blocks -/

/-- A block as it is, or with its bytes turned round. -/
def turn (swap : Bool) (block : Bytes) : Bytes := if swap then block.reverse else block

@[simp] theorem length_turn (swap : Bool) (block : Bytes) :
    (turn swap block).length = block.length := by
  cases swap with
  | false => rfl
  | true => exact List.length_reverse

/-- The bytes of a double in this size. -/
def Platform.realBlock (p : Platform) (size : Int) (x : UInt64) : Bytes :=
  if size = 8 then p.double x
  else if size = 4 then p.order.encode 4 (p.toFloat x).toNat
  else (p.longDouble.map fun t => t.bytes x).getD []

/-- The blocks that are to be written for a vector, one for each element. -/
def RVector.blocks (p : Platform) (size : Int) (swap : Bool) : RVector → List Bytes
  | logical elements => elements.map fun x => turn swap (p.order.encode size.toNat x.toInt)
  | integer elements => elements.map fun x => turn swap (p.order.encode size.toNat x.toInt)
  | real elements => elements.map fun x => turn swap (p.realBlock size x)
  | complex elements => elements.map fun x => turn swap (p.double x.1) ++ turn swap (p.double x.2)
  | raw elements => elements.map fun x => [x]
  | character _ => []
  | other => []

/-- What `swap` does to the bytes of an element. -/
def RVector.turnBlock (object : RVector) (block : Bytes) : Bytes :=
  match object with
  | complex _ => (block.take 8).reverse ++ (block.drop 8).reverse
  | _ => block.reverse

namespace SendBinM

variable {p : Platform}

/-- The sizes that the first `switch` lets through. -/
theorem ints_ok {ssize : Int32} {size : Int} (accepted : elementSize.ints p ssize = .ok size) :
    size = 1 ∨ size = 2 ∨ size = 4 ∨ size = 8 ∧ p.long8 := by
  unfold elementSize.ints at accepted
  simp only at accepted
  split at accepted
  next allowed =>
    cases accepted
    exact allowed
  next => cases accepted

theorem int_encode (x : Int32) : p.int x = p.order.encode 4 x.toInt := rfl

/-- What `(short)` keeps of a number is what two bytes hold. -/
theorem short_encode (x : Int32) :
    p.order.encode 2 x.toInt16.toInt = p.order.encode 2 x.toInt := by
  apply ByteOrder.encode_congr
  rw [Int32.toInt_toInt16]
  exact Int.bmod_emod

theorem signedChar_encode (x : Int8) : p.order.encode 1 x.toInt = [x.toUInt8] := by
  have residue : (x.toInt % 2 ^ 8).toNat = x.toUInt8.toNat := by
    rw [← Int8.toNat_toBitVec, ← @BitVec.ofInt_toInt 8 x.toBitVec, BitVec.toNat_ofInt]
    rfl
  have digit : ByteOrder.digits 1 (x.toInt % 256 ^ 1).toNat = [x.toUInt8] := by
    change [UInt8.ofNat ((x.toInt % 2 ^ 8).toNat % 256)] = _
    rw [residue, Nat.mod_eq_of_lt x.toUInt8.toNat_lt, UInt8.ofNat_toNat]
  rw [ByteOrder.encode, digit]
  cases p.order with
  | little => rfl
  | big => rfl

/-- What `(signed char)` keeps of a number is what one byte holds. -/
theorem char_encode (x : Int32) : p.order.encode 1 x.toInt = [x.toInt8.toUInt8] := by
  rw [← signedChar_encode]
  apply ByteOrder.encode_congr
  rw [Int32.toInt_toInt8]
  exact Int.bmod_emod.symm

theorem fillInts_leads {elements : List Int32} {size : Int} {buf : Bytes}
    (allowed : size = 1 ∨ size = 2 ∨ size = 4 ∨ size = 8 ∧ p.long8)
    (room : buf.length = elements.length * size.toNat) :
    Leads (fillBuffer.ints id p size elements) ⟨buf, 0, 0⟩
      ⟨(elements.map fun x => p.order.encode size.toNat x.toInt).flatten,
        elements.length * size.toNat, 0⟩ := by
  have each (width : Nat) (x : Int32 → Int) (element : Bytes)
      (isElement : element ∈ elements.map fun y => p.order.encode width (x y)) :
      element.length = width := by
    rcases List.mem_map.mp isElement with ⟨y, -, rfl⟩
    exact ByteOrder.length_encode ..
  rcases allowed with rfl | rfl | rfl | ⟨rfl, long8⟩
  · have stored := @storeLoop_leads 0 0 (elements.map fun x => x.toInt8.toUInt8) [] buf
      (by simpa using room)
    have flat : (elements.map fun x => p.order.encode 1 x.toInt).flatten =
        elements.map fun x => x.toInt8.toUInt8 := by
      rw [← List.flatMap_def, List.map_eq_flatMap]
      exact List.flatMap_congr fun x _ => char_encode x
    change Leads (storeLoop _ 0) _ ⟨(elements.map fun x => p.order.encode 1 x.toInt).flatten, _, 0⟩
    rw [flat]
    simpa using stored
  · have same := List.map_congr_left fun x (_ : x ∈ elements) => @short_encode p x
    have copied := @copyLoop_leads 0 0 2 _ (each 2 Int32.toInt) [] buf (by simpa using room)
    change Leads (copyLoop id 2 (elements.map fun x => p.order.encode 2 x.toInt16.toInt) 0) _ _
    rw [same]
    simpa using copied
  · have long : (elements.flatMap p.int).length = elements.length * 4 := by
      simp [List.length_flatMap, int_encode]
    have copied := @copyAll_leads 0 0 4 elements.length buf (elements.flatMap p.int)
      (by omega) (room.trans long.symm)
    rw [long, Nat.zero_add] at copied
    exact copied
  · have copied := @copyLoop_leads 0 0 8 _ (each 8 fun x => x.toInt64.toInt) [] buf
      (by simpa using room)
    simpa [fillBuffer.ints, long8] using copied

/-- The sizes that the first `switch` lets through for doubles. -/
theorem real_ok {elements : List UInt64} {ssize : Int32} {size : Int}
    (accepted : elementSize p (.real elements) ssize = .ok size) :
    size = 8 ∨ size = 4 ∨ ∃ t, p.longDouble = some t ∧ size = t.size := by
  simp only [elementSize] at accepted
  split at accepted
  next allowed =>
    cases accepted
    rcases allowed with eight | four | long
    · exact .inl eight
    · exact .inr (.inl four)
    · right
      right
      cases isLong : p.longDouble with
      | none => simp [isLong] at long
      | some t => exact ⟨t, rfl, by simpa [isLong] using long⟩
  next => cases accepted

theorem fillReal_leads {elements : List UInt64} {size : Int} {buf : Bytes}
    (allowed : size = 8 ∨ size = 4 ∨ ∃ t, p.longDouble = some t ∧ size = t.size)
    (room : buf.length = elements.length * size.toNat) :
    Leads (fillBuffer id p size (.real elements)) ⟨buf, 0, 0⟩
      ⟨(elements.map (p.realBlock size)).flatten, elements.length * size.toNat, 0⟩ := by
  rcases allowed with rfl | rfl | ⟨t, isLong, rfl⟩
  · have long : (elements.flatMap p.double).length = elements.length * 8 := by
      simp [List.length_flatMap, Platform.double]
    have copied := @copyAll_leads 0 0 8 elements.length buf (elements.flatMap p.double)
      (by omega) (room.trans long.symm)
    rw [long, Nat.zero_add] at copied
    exact copied
  · have each : ∀ element ∈ elements.map fun x => p.order.encode 4 (p.toFloat x).toNat,
        element.length = 4 := by
      simp
    have copied := @copyLoop_leads 0 0 4 _ each [] buf (by simpa using room)
    change Leads (copyLoop id 4 _ 0) _ ⟨(elements.map fun x => p.order.encode 4 _).flatten, _, 0⟩
    simpa using copied
  · have each : ∀ element ∈ elements.map t.bytes, element.length = t.size := by
      simp [t.length_bytes]
    have copied := @copyLoop_leads 0 0 t.size _ each [] buf (by simpa using room)
    have wider := t.wider
    have notEight : ¬ (t.size : Int) = 8 := by omega
    have notFour : ¬ (t.size : Int) = 4 := by omega
    have same : elements.map (p.realBlock t.size) = elements.map t.bytes := by
      refine List.map_congr_left fun x _ => ?_
      simp [Platform.realBlock, notEight, notFour, isLong]
    rw [same]
    simpa [fillBuffer, notEight, notFour, isLong] using copied

theorem complex_ok {elements : List (UInt64 × UInt64)} {ssize : Int32} {size : Int}
    (accepted : elementSize p (.complex elements) ssize = .ok size) : size = 16 := by
  simp only [elementSize] at accepted
  split at accepted
  next sixteen =>
    cases accepted
    exact sixteen
  next => cases accepted

theorem raw_ok {elements : List UInt8} {ssize : Int32} {size : Int}
    (accepted : elementSize p (.raw elements) ssize = .ok size) : size = 1 := by
  simp only [elementSize] at accepted
  split at accepted
  next one =>
    cases accepted
    exact one
  next => cases accepted

/-- A size that the first `switch` lets through is that of some bytes. -/
theorem elementSize_pos {object : RVector} {ssize : Int32} {size : Int}
    (accepted : elementSize p object ssize = .ok size) : 0 < size := by
  cases object with
  | logical elements =>
      have allowed := ints_ok accepted
      omega
  | integer elements =>
      have allowed := ints_ok accepted
      omega
  | real elements =>
      rcases real_ok accepted with eight | four | ⟨t, -, long⟩
      · omega
      · omega
      · have wider := t.wider
        omega
  | complex elements =>
      have sixteen := complex_ok accepted
      omega
  | raw elements =>
      have one := raw_ok accepted
      omega
  | character elements => cases accepted
  | other => cases accepted

/-- The second `switch` fills the buffer with the blocks of the elements. -/
theorem fillBuffer_leads {object : RVector} {ssize : Int32} {size : Int} {buf : Bytes}
    (accepted : elementSize p object ssize = .ok size)
    (room : buf.length = object.length * size.toNat) :
    Leads (fillBuffer id p size object) ⟨buf, 0, 0⟩
      ⟨(object.blocks p size false).flatten, object.length * size.toNat, 0⟩ := by
  cases object with
  | logical elements => exact fillInts_leads (ints_ok accepted) room
  | integer elements => exact fillInts_leads (ints_ok accepted) room
  | real elements => exact fillReal_leads (real_ok accepted) room
  | complex elements =>
      cases complex_ok accepted
      have long : (elements.flatMap p.rcomplex).length = elements.length * 16 := by
        simp [List.length_flatMap, Platform.rcomplex, Platform.double]
      have copied := @copyAll_leads 0 0 16 elements.length buf (elements.flatMap p.rcomplex)
        (by omega) (room.trans long.symm)
      rw [long, Nat.zero_add] at copied
      exact copied
  | raw elements =>
      cases raw_ok accepted
      have same : buf.length = elements.length := by simpa [RVector.length] using room
      have copied := @memcpy_leads 0 0 [] buf elements [] same
      have flat : (elements.map fun x => [x]).flatten = elements := by
        rw [← List.flatMap_def, List.flatMap_singleton']
      change Leads (memcpy 0 elements elements.length) _
        ⟨(elements.map fun x => [x]).flatten, elements.length * 1, 0⟩
      rw [flat, Nat.mul_one]
      simpa using copied
  | character elements => cases accepted
  | other => cases accepted

/-- Every block has the size that R code asks for. -/
theorem length_blocks {object : RVector} {ssize : Int32} {size : Int}
    (accepted : elementSize p object ssize = .ok size) (swap : Bool) :
    ∀ block ∈ object.blocks p size swap, block.length = size.toNat := by
  intro block isBlock
  cases object with
  | logical elements =>
      rcases List.mem_map.mp isBlock with ⟨x, -, rfl⟩
      simp
  | integer elements =>
      rcases List.mem_map.mp isBlock with ⟨x, -, rfl⟩
      simp
  | real elements =>
      rcases List.mem_map.mp isBlock with ⟨x, -, rfl⟩
      rw [length_turn, Platform.realBlock]
      rcases real_ok accepted with rfl | rfl | ⟨t, isLong, rfl⟩
      · simp [Platform.double]
      · simp
      · have wider := t.wider
        have notEight : ¬ (t.size : Int) = 8 := by omega
        have notFour : ¬ (t.size : Int) = 4 := by omega
        simp [notEight, notFour, isLong, t.length_bytes]
  | complex elements =>
      rcases List.mem_map.mp isBlock with ⟨x, -, rfl⟩
      simp [complex_ok accepted, Platform.double]
  | raw elements =>
      rcases List.mem_map.mp isBlock with ⟨x, -, rfl⟩
      simp [raw_ok accepted]
  | character elements => cases accepted
  | other => cases accepted

/-- The blocks with `swap` are the blocks without it, each turned round. -/
theorem blocks_swap (p : Platform) (object : RVector) (size : Int) :
    object.blocks p size true = (object.blocks p size false).map object.turnBlock := by
  cases object with
  | logical elements => simp [RVector.blocks, RVector.turnBlock, turn]
  | integer elements => simp [RVector.blocks, RVector.turnBlock, turn]
  | real elements => simp [RVector.blocks, RVector.turnBlock, turn]
  | complex elements =>
      refine Eq.trans (List.map_congr_left fun x _ => ?_) List.map_map.symm
      have low : (p.double x.1).length = 8 := ByteOrder.length_encode ..
      simp [RVector.turnBlock, turn, ← low]
  | raw elements => simp [RVector.blocks, RVector.turnBlock]
  | character elements => rfl
  | other => rfl

/-- Turned round twice, a block is as it was. -/
theorem turnBlock_turnBlock {object : RVector} {ssize : Int32} {size : Int} {block : Bytes}
    (accepted : elementSize p object ssize = .ok size) (long : block.length = size.toNat) :
    object.turnBlock (object.turnBlock block) = block := by
  cases object with
  | complex elements =>
      have sixteen : block.length = 16 := by
        rw [long, complex_ok accepted]
        rfl
      have low : (block.take 8).reverse.length = 8 := by simp [sixteen]
      simp only [RVector.turnBlock, List.take_left' low, List.drop_left' low, List.reverse_reverse,
        List.take_append_drop]
  | logical elements => exact List.reverse_reverse block
  | integer elements => exact List.reverse_reverse block
  | real elements => exact List.reverse_reverse block
  | raw elements => exact List.reverse_reverse block
  | character elements => exact List.reverse_reverse block
  | other => exact List.reverse_reverse block

/-- There is nothing to turn round in one byte. -/
theorem turnBlock_one {object : RVector} {ssize : Int32} {block : Bytes}
    (accepted : elementSize p object ssize = .ok 1) (long : block.length = 1) :
    object.turnBlock block = block := by
  rcases List.length_eq_one_iff.mp long with ⟨byte, rfl⟩
  cases object with
  | complex elements => cases complex_ok accepted
  | logical elements => rfl
  | integer elements => rfl
  | real elements => rfl
  | raw elements => rfl
  | character elements => rfl
  | other => rfl

theorem blocks_one {object : RVector} {ssize : Int32} (swap : Bool)
    (accepted : elementSize p object ssize = .ok 1) :
    object.blocks p 1 swap = object.blocks p 1 false := by
  cases swap with
  | false => rfl
  | true =>
      rw [blocks_swap]
      refine (List.map_congr_left fun block isBlock => ?_).trans (List.map_id _)
      exact turnBlock_one accepted (length_blocks accepted false block isBlock)

/-- There is a block for every element. -/
theorem count_blocks {object : RVector} {ssize : Int32} {size : Int}
    (accepted : elementSize p object ssize = .ok size) (swap : Bool) :
    (object.blocks p size swap).length = object.length := by
  cases object with
  | logical elements => exact List.length_map _
  | integer elements => exact List.length_map _
  | real elements => exact List.length_map _
  | complex elements => exact List.length_map _
  | raw elements => exact List.length_map _
  | character elements => cases accepted
  | other => cases accepted

/-- Vectors that are not complex. -/
theorem swapLoop_blocks {object : RVector} {ssize : Int32} {size : Int} {copied : Nat}
    (accepted : elementSize p object ssize = .ok size) (wide : 1 < size)
    (turns : object.turnBlock = List.reverse) :
    Leads (swapLoop id size object.length 0) ⟨(object.blocks p size false).flatten, copied, 0⟩
      ⟨(object.blocks p size true).flatten, copied, object.length * size.toNat⟩ := by
  have isWidth : (size.toNat : Int) = size := Int.toNat_of_nonneg (by omega)
  have turned := @swapLoop_leads copied 0 size.toNat (by omega) (object.blocks p size false)
    (length_blocks accepted false) [] 0 (by simp)
  rw [count_blocks accepted, ← turns, ← blocks_swap, isWidth] at turned
  simpa using turned

theorem blocks_restored {object : RVector} {ssize : Int32} {size : Int}
    (accepted : elementSize p object ssize = .ok size) :
    (object.blocks p size true).map object.turnBlock = object.blocks p size false := by
  rw [blocks_swap, List.map_map]
  refine (List.map_congr_left fun block isBlock => ?_).trans (List.map_id _)
  exact turnBlock_turnBlock accepted (length_blocks accepted false block isBlock)

theorem swapElements_leads {object : RVector} {ssize : Int32} {size : Int} (swap : Bool)
    {copied : Nat} (accepted : elementSize p object ssize = .ok size) :
    Leads (swapElements id object size swap) ⟨(object.blocks p size false).flatten, copied, 0⟩
      ⟨(object.blocks p size swap).flatten, copied,
        if swap ∧ 1 < size then object.length * size.toNat else 0⟩ := by
  have positive := elementSize_pos accepted
  by_cases turns : swap ∧ 1 < size
  · rcases turns with ⟨rfl, wide⟩
    unfold swapElements
    rw [if_pos ⟨rfl, wide⟩, if_pos ⟨rfl, wide⟩]
    cases object with
    | complex elements =>
        cases complex_ok accepted
        have each : ∀ block ∈ elements.map fun x => (p.double x.1, p.double x.2),
            block.1.length = 8 ∧ block.2.length = 8 := by
          intro block isBlock
          rcases List.mem_map.mp isBlock with ⟨x, -, rfl⟩
          exact ⟨ByteOrder.length_encode .., ByteOrder.length_encode ..⟩
        have turned := @swapHalvesLoop_leads copied 0 8 (by decide) _ each [] 0 (by simp)
        simpa [RVector.blocks, RVector.length, turn, List.flatMap_def, Function.comp_def]
          using turned
    | logical elements => exact swapLoop_blocks accepted wide rfl
    | integer elements => exact swapLoop_blocks accepted wide rfl
    | real elements => exact swapLoop_blocks accepted wide rfl
    | raw elements => exact swapLoop_blocks accepted wide rfl
    | character elements => cases accepted
    | other => cases accepted
  · have same : object.blocks p size swap = object.blocks p size false := by
      cases swap with
      | false => rfl
      | true =>
          have one : size = 1 := by
            have notLong : ¬ 1 < size := fun long => turns ⟨rfl, long⟩
            omega
          subst one
          exact blocks_one true accepted
    unfold swapElements
    rw [if_neg turns, if_neg turns, same]
    exact .done rfl

theorem length_flatten_blocks {object : RVector} {ssize : Int32} {size : Int}
    (accepted : elementSize p object ssize = .ok size) (swap : Bool) :
    (object.blocks p size swap).flatten.length = object.length * size.toNat := by
  have lengths : (object.blocks p size swap).map List.length =
      List.replicate object.length size.toNat := by
    rw [List.eq_replicate_iff, List.length_map, count_blocks accepted]
    refine ⟨rfl, fun length isLength => ?_⟩
    rcases List.mem_map.mp isLength with ⟨block, isBlock, rfl⟩
    exact length_blocks accepted swap block isBlock
  rw [List.length_flatten, lengths, List.sum_replicate_nat]

theorem passBuffer_eq (int : Int → Int) (size : Int) (len : Nat) (b : SendBuffer) :
    passBuffer int size len b =
      if 0 ≤ int (size * len) ∧ int (size * len) ≤ b.buf.length then
        .ok (b.buf.take (int (size * len)).toNat,
          { b with computed := b.computed ++ [int (size * len)] })
      else .error .memory := by
  change (if 0 ≤ int (size * len) ∧ int (size * len) ≤ b.buf.length then
    (pure (b.buf.take (int (size * len)).toNat) : SendBinM Bytes) else throw .memory) _ = _
  split
  next => rfl
  next => rfl

/-- With unbounded offsets, the blocks of the vector are handed over. -/
theorem sendBuffer_run {object : RVector} {ssize : Int32} {size : Int}
    (accepted : elementSize p object ssize = .ok size) (swap : Bool) (b : SendBuffer)
    (isNew : b.progress = ⟨List.replicate (object.length * size.toNat) 0, 0, 0⟩) :
    ∃ work, sendBuffer id p object size swap b =
        .ok ((object.blocks p size swap).flatten, work) ∧
      work.progress = ⟨(object.blocks p size swap).flatten, object.length * size.toNat,
        if swap ∧ 1 < size then object.length * size.toNat else 0⟩ := by
  have filled := fillBuffer_leads accepted (@List.length_replicate _ _ (0 : UInt8))
  rcases filled b isNew with ⟨b₁, ran₁, isFilled⟩
  rcases swapElements_leads swap accepted b₁ isFilled with ⟨b₂, ran₂, isSwapped⟩
  have isBuf : b₂.buf = (object.blocks p size swap).flatten :=
    congrArg SendProgress.buf isSwapped
  have isLength : b₂.buf.length = object.length * size.toNat := by
    rw [isBuf, length_flatten_blocks accepted]
  have isWidth : (size.toNat : Int) = size := Int.toNat_of_nonneg (elementSize_pos accepted).le
  have whole : size * object.length = b₂.buf.length := by
    rw [isLength]
    push_cast
    rw [isWidth, Int.mul_comm]
  have inside : 0 ≤ size * (object.length : Int) ∧ size * object.length ≤ b₂.buf.length := by
    omega
  refine ⟨{ b₂ with computed := b₂.computed ++ [size * object.length] }, ?_, isSwapped⟩
  rw [sendBuffer, bind_ok ran₁, bind_ok ran₂, passBuffer_eq, id, if_pos inside, ← isBuf, whole,
    Int.toNat_natCast, List.take_length]

end SendBinM

/-! ## The function -/

/-- All buffers are written if there is a brigade. -/
theorem Session.sendBin_writes {buffers : List Bytes} (written : List Bytes) {s : Session}
    (inRequest : s.request.r.isSome) (isOut : s.bbOut = some buffers) :
    s.sendBin written = (.returned .null, { s with bbOut := some (buffers ++ written) }) := by
  have writes : written.foldlM (fun s buf => s.brigadeWrite buf) s =
      some { s with bbOut := some (buffers ++ written) } := by
    clear inRequest
    induction written generalizing buffers s with
    | nil =>
        rw [List.append_nil, ← isOut]
        rfl
    | cons buf written ih =>
        rw [List.foldlM_cons, Session.brigadeWrite, isOut]
        exact (@ih (buffers ++ [buf]) { s with bbOut := some (buffers ++ [buf]) } rfl).trans
          (by simp)
  rw [Session.sendBin, if_pos inRequest, writes]
  rfl

/-- The sizes of the numbers that so many bytes can hold, with a sign. -/
def Fits (size x : Int) : Prop := -(256 ^ size.toNat) ≤ x * 2 ∧ x * 2 < 256 ^ size.toNat

/-- During a request, the bytes of the blocks are added to those in `MR_BBout`, and `NULL` is
returned. -/
def Sends (p : Platform) (object : RVector) (ssize : Int32) (swap : Bool) (s : Session)
    (buffers blocks : List Bytes) : Prop :=
  ∃ written work, rApacheSendBin id p object ssize (some swap) s =
      (.returned written work, { s with bbOut := some (buffers ++ written) }) ∧
    written.flatten = blocks.flatten

section Sends

variable {p : Platform} {object : RVector} {ssize : Int32} {size : Int}

theorem sendVector_eq (int : Int → Int) (swap : Bool)
    (accepted : elementSize p object ssize = .ok size) :
    sendVector int p object ssize swap =
      .ofRun (SendBinM.sendBuffer int p object size swap
        { buf := List.replicate (object.length * size.toNat) 0 }) := by
  cases object with
  | character elements => cases accepted
  | other => cases accepted
  | logical elements => simp only [sendVector, RVector.strings, accepted]
  | integer elements => simp only [sendVector, RVector.strings, accepted]
  | real elements => simp only [sendVector, RVector.strings, accepted]
  | complex elements => simp only [sendVector, RVector.strings, accepted]
  | raw elements => simp only [sendVector, RVector.strings, accepted]

theorem sendVector_sends (swap : Bool) (accepted : elementSize p object ssize = .ok size) :
    ∃ work, sendVector id p object ssize swap =
        .returned [(object.blocks p size swap).flatten] work ∧
      work.progress = ⟨(object.blocks p size swap).flatten, object.length * size.toNat,
        if swap ∧ 1 < size then object.length * size.toNat else 0⟩ := by
  rcases SendBinM.sendBuffer_run accepted swap
    { buf := List.replicate (object.length * size.toNat) 0 } rfl with ⟨work, ran, isWork⟩
  refine ⟨work, ?_, isWork⟩
  rw [sendVector_eq id swap accepted, ran]
  rfl

/-- A vector with a size is neither a character vector nor another object. -/
theorem isVectorAtomic_of_accepted (accepted : elementSize p object ssize = .ok size) :
    object.isVectorAtomic := by
  cases object with
  | other => cases accepted
  | _ => rfl

/-- With unbounded offsets, the blocks of a vector are written. -/
theorem rApacheSendBin_sends {s : Session} {buffers : List Bytes}
    (accepted : elementSize p object ssize = .ok size) (short : object.length ≤ intMax)
    (inRequest : s.request.r.isSome) (isOut : s.bbOut = some buffers) (swap : Bool) :
    Sends p object ssize swap s buffers (object.blocks p size swap) := by
  have atomic := isVectorAtomic_of_accepted accepted
  by_cases empty : object.length = 0
  · have noBlocks : object.blocks p size swap = [] := by
      rw [← List.length_eq_zero_iff, SendBinM.count_blocks accepted, empty]
    have sent : sendObject id p object ssize (some swap) = .returned [] {} := by
      simp [sendObject, atomic, empty, intMax]
    refine ⟨[], {}, ?_, by rw [noBlocks]⟩
    simp only [rApacheSendBin, inRequest, if_true, sent, s.sendBin_writes [] inRequest isOut]
  · rcases sendVector_sends swap accepted with ⟨work, sent, -⟩
    have isSent : sendObject id p object ssize (some swap) =
        .returned [(object.blocks p size swap).flatten] work := by
      simp [sendObject, atomic, empty, not_lt.mpr short, sent]
    refine ⟨[(object.blocks p size swap).flatten], work, ?_, by simp⟩
    simp only [rApacheSendBin, inRequest, if_true, isSent, s.sendBin_writes _ inRequest isOut]

/-- A size that is not known is an error before there is a buffer. -/
theorem sendObject_refuses {msg : Bytes} (refused : elementSize p object ssize = .error msg)
    (numeric : object.isNumeric) (short : object.length ≤ intMax) (some : 0 < object.length)
    (swap : Bool) : sendObject id p object ssize (.some swap) = .error msg false := by
  rw [RVector.isNumeric, Bool.and_eq_true] at numeric
  have noStrings : object.strings = none := Option.isNone_iff_eq_none.mp numeric.2
  have refuses : sendVector id p object ssize swap = .error msg false := by
    simp only [sendVector, noStrings, refused]
  simp [sendObject, numeric.1, not_lt.mpr short, some.ne', refuses]

/-- No error is raised behind the allocation of the buffer. -/
theorem sendObject_error {sswap : Option Bool} {msg : Bytes} {allocated : Bool}
    (isError : sendObject id p object ssize sswap = .error msg allocated) : allocated = false := by
  simp only [sendObject] at isError
  split at isError
  next =>
    cases isError
    rfl
  next =>
    split at isError
    next =>
      cases isError
      rfl
    next swap =>
      split at isError
      next =>
        cases isError
        rfl
      next =>
        split at isError
        next => cases isError
        next =>
          cases isSize : elementSize p object ssize with
          | ok size =>
              rcases sendVector_sends swap isSize with ⟨work, sent, -⟩
              rw [sent] at isError
              cases isError
          | error msg' =>
              rw [sendVector] at isError
              split at isError
              next => cases isError
              next =>
                rw [isSize] at isError
                cases isError
                rfl

/-- The number in a block of a logical or integer vector. -/
theorem decode_block {swap : Bool} {i : Nat} {x : Int32} (isElement : object.ints[i]? = some x)
    (fits : Fits size x.toInt) :
    ∃ block, (object.blocks p size swap)[i]? = some block ∧
      (if swap then p.order.opposite else p.order).decode block = x.toInt := by
  have decoded : (if swap then p.order.opposite else p.order).decode
      (turn swap (p.order.encode size.toNat x.toInt)) = x.toInt := by
    cases swap with
    | false => exact p.order.decode_encode_of_fits fits.1 fits.2
    | true =>
        exact (p.order.decode_opposite_reverse _).trans
          (p.order.decode_encode_of_fits fits.1 fits.2)
  refine ⟨turn swap (p.order.encode size.toNat x.toInt), ?_, decoded⟩
  cases object with
  | logical elements => simp [RVector.blocks, show elements[i]? = some x from isElement]
  | integer elements => simp [RVector.blocks, show elements[i]? = some x from isElement]
  | real elements => cases isElement
  | complex elements => cases isElement
  | raw elements => cases isElement
  | character elements => cases isElement
  | other => cases isElement

end Sends

/-- What is written for a vector and a size that is known: one block for each element, which is
the element where it is an integer, and turned round by `swap`. -/
structure WritesBlocks (p : Platform) (object : RVector) (ssize : Int32) (size : Int) (s : Session)
    (buffers : List Bytes) : Prop where
  sends : ∀ swap, Sends p object ssize swap s buffers (object.blocks p size swap)
  count : ∀ swap, (object.blocks p size swap).length = object.length
  length : ∀ swap, ∀ block ∈ object.blocks p size swap, (block.length : Int) = size
  decode : ∀ (swap : Bool) (i : Nat) (x : Int32), object.ints[i]? = some x → Fits size x.toInt →
    ∃ block, (object.blocks p size swap)[i]? = some block ∧
      (if swap then p.order.opposite else p.order).decode block = x.toInt
  swapped : object.blocks p size true = (object.blocks p size false).map object.turnBlock
  restored : (object.blocks p size true).map object.turnBlock = object.blocks p size false
  one : size = 1 → object.blocks p size true = object.blocks p size false

/-- With unbounded offsets, a vector that is not empty is written as blocks, or refused before
there is a buffer; the second `switch` finds every size that the first one lets through. -/
theorem sendBin_writes_blocks (p : Platform) (object : RVector) (ssize : Int32) (s : Session)
    (buffers : List Bytes) (numeric : object.isNumeric) (short : object.length ≤ intMax)
    (inRequest : s.request.r.isSome) (isOut : s.bbOut = some buffers) :
    (∀ size, elementSize p object ssize = .ok size → WritesBlocks p object ssize size s buffers) ∧
      (∀ msg swap, elementSize p object ssize = .error msg → 0 < object.length →
        rApacheSendBin id p object ssize (some swap) s = (.error msg false, s)) ∧
      ∀ sswap msg s', rApacheSendBin id p object ssize sswap s ≠ (.error msg true, s') := by
  refine ⟨fun size accepted => ?_, fun msg swap refused some => ?_, fun sswap msg s' isError => ?_⟩
  · have isWidth : (size.toNat : Int) = size :=
      Int.toNat_of_nonneg (SendBinM.elementSize_pos accepted).le
    exact
      { sends := rApacheSendBin_sends accepted short inRequest isOut
        count := SendBinM.count_blocks accepted
        length := fun swap block isBlock =>
          (congrArg Int.ofNat (SendBinM.length_blocks accepted swap block isBlock)).trans isWidth
        decode := fun _ _ _ isElement fits => decode_block isElement fits
        swapped := SendBinM.blocks_swap p object size
        restored := SendBinM.blocks_restored accepted
        one := fun isOne => by
          subst isOne
          exact SendBinM.blocks_one true accepted }
  · have refuses := sendObject_refuses refused numeric short some swap
    simp only [rApacheSendBin, inRequest, if_true, refuses]
  · have isEnd : sendObject id p object ssize sswap = .error msg true := by
      simp only [rApacheSendBin, inRequest, if_true] at isError
      split at isError
      next buffers work isSent =>
        rw [s.sendBin_writes buffers inRequest isOut] at isError
        rw [isSent] at isError
        cases isError
      next =>
        exact (Prod.mk.inj isError).1
    cases sendObject_error isEnd

/-- Two bytes for the numbers 1 and -2 on a machine that stores the lowest byte first. -/
theorem short_numbers_are_written :
    WritesBlocks ⟨.little, true, fun _ => 0, none⟩ (.integer [1, -2]) 2 2
      { request := { r := some { address := 0, handler := [] } }, bbOut := some [] } [] :=
  (sendBin_writes_blocks ⟨.little, true, fun _ => 0, none⟩ (.integer [1, -2]) 2
    { request := { r := some { address := 0, handler := [] } }, bbOut := some [] } []
    (by decide) (by decide) rfl rfl).1 2 (by decide)

/-- An empty vector is returned from before its size is looked at, and `LENGTH` refuses a vector of
2^31 bytes whose size is known. -/
theorem empty_vector_has_any_size :
    ∃ (p : Platform) (s : Session), s.request.r.isSome ∧ s.bbOut = some [] ∧
      (elementSize p (.integer []) 3 = .error (unknownSize 3) ∧
        rApacheSendBin id p (.integer []) 3 (some false) s = (.returned [] {}, s)) ∧
      elementSize p (.raw (List.replicate (2 ^ 31) 0)) 1 = .ok 1 ∧
        rApacheSendBin id p (.raw (List.replicate (2 ^ 31) 0)) 1 (some false) s =
          (.error (bytes "long vectors not supported yet") false, s) := by
  refine ⟨⟨.little, true, fun _ => 0, none⟩,
    { request := { r := some { address := 0, handler := [] } }, bbOut := some [] }, rfl, rfl,
    ⟨by decide +kernel, rfl⟩, by decide, ?_⟩
  have long : intMax < (RVector.raw (List.replicate (2 ^ 31) 0)).length := by
    rw [RVector.length, List.length_replicate]
    decide
  simp only [rApacheSendBin, sendObject, long, if_true]
  rfl

end RApache
