import RApache.Library.ByteOrder
import RApache.Session

/-!
# Binary output

`RApache_sendBin` writes the elements of a vector in a size that R code chooses, with the bytes
of every element turned round if R code asks for it.  It computes positions and lengths with
`int`, here with any function that says what becomes of a result.
-/

namespace RApache

/-- `NA_INTEGER`. -/
def naInteger : Int32 := Int32.minValue

/-- The largest `int`. -/
def intMax : Int := 2 ^ 31 - 1

/-- What an `int` of 32 bits makes of a result. -/
def int32 (z : Int) : Int := z.bmod (2 ^ 32)

/-- The R objects that can be handed over: atomic vectors, doubles as their bits, and any other
object. -/
inductive RVector where
  | logical (elements : List Int32)
  | integer (elements : List Int32)
  | real (elements : List UInt64)
  | complex (elements : List (UInt64 × UInt64))
  | raw (elements : List UInt8)
  | character (elements : List Bytes)
  | other
  deriving DecidableEq, Repr

namespace RVector

def length : RVector → Nat
  | logical elements => elements.length
  | integer elements => elements.length
  | real elements => elements.length
  | complex elements => elements.length
  | raw elements => elements.length
  | character elements => elements.length
  | other => 0

/-- `isVectorAtomic`. -/
def isVectorAtomic (object : RVector) : Bool := object ≠ other

/-- The elements of a logical or integer vector. -/
def ints : RVector → List Int32
  | logical elements => elements
  | integer elements => elements
  | _ => []

/-- The strings of a character vector. -/
def strings : RVector → Option (List Bytes)
  | character elements => some elements
  | _ => none

/-- Atomic, and no character vector. -/
def isNumeric (object : RVector) : Bool := object.isVectorAtomic && object.strings.isNone

end RVector

/-- A `long double` that is wider than a `double`: its size and its bytes for a double. -/
structure LongDouble where
  size : Nat
  bytes : UInt64 → Bytes
  wider : 8 < size
  length_bytes : ∀ x, (bytes x).length = size

/-- What the compiler decides: the byte order, whether `long` or `long long` has eight bytes, the
`float` for a double, and `long double`. -/
structure Platform where
  order : ByteOrder
  long8 : Bool
  toFloat : UInt64 → UInt32
  longDouble : Option LongDouble := none

namespace Platform

variable (p : Platform)

/-- The bytes of an `int`. -/
def int (x : Int32) : Bytes := p.order.encode 4 x.toInt

/-- The bytes of a double. -/
def double (x : UInt64) : Bytes := p.order.encode 8 x.toNat

/-- The bytes of an `Rcomplex`. -/
def rcomplex (x : UInt64 × UInt64) : Bytes := p.double x.1 ++ p.double x.2

end Platform

/-! ## The size of an element -/

/-- The error for a size that the platform does not have. -/
def unknownSize (size : Int) : Bytes :=
  bytes "size " ++ bytes (toString size) ++ bytes " is unknown on this machine"

/-- `if(size == NA_INTEGER) size = ...`. -/
def sizeOr (memory : Int) (size : Int32) : Int := if size = naInteger then memory else size.toInt

/-- The first `switch` over the type: the size of an element in the output. -/
def elementSize (p : Platform) : RVector → (size : Int32) → Except Bytes Int
  | .logical _, size => ints size
  | .integer _, size => ints size
  | .real _, size =>
      let size := sizeOr 8 size
      if size = 8 ∨ size = 4 ∨ p.longDouble.any fun t => size = t.size then .ok size
      else .error (unknownSize size)
  | .complex _, size =>
      let size := sizeOr 16 size
      if size = 16 then .ok size
      else .error (bytes "size changing is not supported for complex vectors")
  | .raw _, size =>
      let size := sizeOr 1 size
      if size = 1 then .ok size
      else .error (bytes "size changing is not supported for raw vectors")
  | _, _ => .error (bytes "unimplemented type in sendBin")
where
  /-- The sizes for logical and integer vectors. -/
  ints (size : Int32) : Except Bytes Int :=
    let size := sizeOr 4 size
    if size = 1 ∨ size = 2 ∨ size = 4 ∨ size = 8 ∧ p.long8 then .ok size
    else .error (unknownSize size)

/-! ## The buffer -/

/-- The buffer, and what is done with it: the results of the computations with `int`, and how
many bytes are copied into it and turned round in it. -/
structure SendBuffer where
  buf : Bytes := []
  computed : List Int := []
  copied : Nat := 0
  swapped : Nat := 0
  deriving DecidableEq, Repr

/-- A step may raise an R error, or touch memory outside of the buffer or the vector. -/
inductive SendBinFailure where
  | error (msg : Bytes)
  | memory
  deriving DecidableEq, Repr

/-- Steps on the buffer. -/
abbrev SendBinM := StateT SendBuffer (Except SendBinFailure)

namespace SendBinM

variable (int : Int → Int)

/-- A result is kept in an `int`. -/
def compute (z : Int) : SendBinM Int := fun b =>
  .ok (int z, { b with computed := b.computed ++ [int z] })

/-- `memcpy(buf + offset, src, n)`. -/
def memcpy (offset : Int) (src : Bytes) (n : Int) : SendBinM Unit := fun b =>
  if 0 ≤ offset ∧ 0 ≤ n ∧ offset + n ≤ b.buf.length ∧ n ≤ src.length then
    .ok ((),
      { b with
        buf := b.buf.take offset.toNat ++ src.take n.toNat ++ b.buf.drop (offset + n).toNat
        copied := b.copied + n.toNat })
  else .error .memory

/-- Exchange two bytes of the buffer. -/
def exchange (i j : Int) : SendBinM Unit := fun b =>
  if 0 ≤ i ∧ 0 ≤ j then
    match b.buf[i.toNat]?, b.buf[j.toNat]? with
    | some x, some y =>
        .ok ((), { b with buf := (b.buf.set i.toNat y).set j.toNat x })
    | _, _ => .error .memory
  else .error .memory

/-- The loop of `swapb`, with its number of rounds from `i` on. -/
def swapbLoop (p size : Int) : (rounds : Nat) → (i : Int) → SendBinM Unit
  | 0, _ => pure ()
  | rounds + 1, i => do
      exchange (p + i) (p + (size - i - 1))
      swapbLoop p size rounds (i + 1)

/-- `swapb(buf + p, size)`. -/
def swapb (p size : Int) : SendBinM Unit := do
  if size = 1 then pure ()
  else
    swapbLoop p size (size.tdiv 2).toNat 0
    modify fun b => { b with swapped := b.swapped + size.toNat }

/-- `for (i = 0, j = 0; i < len; i++, j += size)`, which copies element after element. -/
def copyLoop (size : Int) : (elements : List Bytes) → (j : Int) → SendBinM Unit
  | [], _ => pure ()
  | element :: elements, j => do
      memcpy j element size
      let j ← compute int (j + size)
      copyLoop size elements j

/-- `for (i = 0; i < len; i++) buf[i] = ...`. -/
def storeLoop : (elements : List UInt8) → (i : Int) → SendBinM Unit
  | [], _ => pure ()
  | element :: elements, i => do
      memcpy i [element] 1
      storeLoop elements (i + 1)

/-- `memcpy(buf, src, size * len)`. -/
def copyAll (size : Int) (len : Nat) (src : Bytes) : SendBinM Unit := do
  let n ← compute int (size * len)
  memcpy 0 src n

/-- The second `switch` over the type. -/
def fillBuffer (p : Platform) (size : Int) : RVector → SendBinM Unit
  | .logical elements => ints elements
  | .integer elements => ints elements
  | .real elements =>
      if size = 8 then copyAll int size elements.length (elements.flatMap p.double)
      else if size = 4 then
        copyLoop int size (elements.map fun x => p.order.encode 4 (p.toFloat x).toNat) 0
      else
        match p.longDouble with
        | some t =>
            if size = t.size then copyLoop int size (elements.map t.bytes) 0
            else throw (.error (unknownSize size))
        | none => throw (.error (unknownSize size))
  | .complex elements => copyAll int size elements.length (elements.flatMap p.rcomplex)
  | .raw elements => memcpy 0 elements elements.length
  | _ => pure ()
where
  /-- Logical and integer vectors. -/
  ints (elements : List Int32) : SendBinM Unit :=
    if size = 4 then copyAll int size elements.length (elements.flatMap p.int)
    else if size = 8 ∧ p.long8 then
      copyLoop int size (elements.map fun x => p.order.encode 8 x.toInt64.toInt) 0
    else if size = 2 then
      copyLoop int size (elements.map fun x => p.order.encode 2 x.toInt16.toInt) 0
    else if size = 1 then storeLoop (elements.map fun x => x.toInt8.toUInt8) 0
    else throw (.error (unknownSize size))

/-- The loop over the elements that turns them round, with its number of rounds from `i` on. -/
def swapLoop (size : Int) : (rounds : Nat) → (i : Int) → SendBinM Unit
  | 0, _ => pure ()
  | rounds + 1, i => do
      let p ← compute int (size * i)
      swapb p size
      swapLoop size rounds (i + 1)

/-- The same loop for complex vectors, which turns both halves of an element round. -/
def swapHalvesLoop (size : Int) : (rounds : Nat) → (i : Int) → SendBinM Unit
  | 0, _ => pure ()
  | rounds + 1, i => do
      let sz := size.tdiv 2
      let twice ← compute int (sz * 2)
      let p ← compute int (twice * i)
      swapb p sz
      let double ← compute int (2 * i)
      let next ← compute int (double + 1)
      let p ← compute int (sz * next)
      swapb p sz
      swapHalvesLoop size rounds (i + 1)

/-- `if(swap && size > 1)`. -/
def swapElements (object : RVector) (size : Int) (swap : Bool) : SendBinM Unit :=
  if swap ∧ 1 < size then
    match object with
    | .complex elements => swapHalvesLoop int size elements.length 0
    | _ => swapLoop int size object.length 0
  else pure ()

/-- What is handed over to `apr_brigade_write`. -/
def passBuffer (size : Int) (len : Nat) : SendBinM Bytes := do
  let n ← compute int (size * len)
  let b ← get
  if 0 ≤ n ∧ n ≤ b.buf.length then pure (b.buf.take n.toNat) else throw .memory

/-- The part of `RApache_sendBin` behind the first `switch`, for the new buffer. -/
def sendBuffer (p : Platform) (object : RVector) (size : Int) (swap : Bool) : SendBinM Bytes := do
  fillBuffer int p size object
  swapElements int object size swap
  passBuffer int size object.length

end SendBinM

/-! ## The function -/

/-- How `RApache_sendBin` ends. -/
inductive SendBinEnd where
  /-- `R_NilValue`, after it has handed over these buffers. -/
  | returned (buffers : List Bytes) (work : SendBuffer)
  /-- An R error, before or after the buffer was allocated. -/
  | error (msg : Bytes) (allocated : Bool)
  /-- Memory outside of the buffer or the vector is used. -/
  | ended
  deriving DecidableEq, Repr

/-- The end of the function, by that of the steps on the buffer. -/
def SendBinEnd.ofRun : Except SendBinFailure (Bytes × SendBuffer) → SendBinEnd
  | .ok (passed, work) => returned [passed] work
  | .error (.error msg) => error msg true
  | .error .memory => ended

/-- `RApache_sendBin` of an atomic vector that is not empty. -/
def sendVector (int : Int → Int) (p : Platform) (object : RVector) (size : Int32) (swap : Bool) :
    SendBinEnd :=
  match object.strings with
  | some strings => .returned (strings.map cString) {}
  | none =>
      match elementSize p object size with
      | .error msg => .error msg false
      | .ok size =>
          .ofRun (SendBinM.sendBuffer int p object size swap
            { buf := List.replicate (object.length * size.toNat) 0 })

/-- `RApache_sendBin` during a request, for arguments as `asInteger` and `asLogical` read them;
`LENGTH` refuses vectors whose length is no `int`. -/
def sendObject (int : Int → Int) (p : Platform) (object : RVector) (ssize : Int32)
    (sswap : Option Bool) : SendBinEnd :=
  if !object.isVectorAtomic then .error (bytes "'x' is not an atomic vector type") false
  else
    match sswap with
    | none => .error (bytes "invalid 'swap' argument") false
    | some swap =>
        if intMax < object.length then .error (bytes "long vectors not supported yet") false
        else if object.length = 0 then .returned [] {}
        else sendVector int p object ssize swap

/-- `RApache_sendBin`. -/
def rApacheSendBin (int : Int → Int) (p : Platform) (object : RVector) (ssize : Int32)
    (sswap : Option Bool) (s : Session) : SendBinEnd × Session :=
  if s.request.r.isSome then
    let sendEnd := sendObject int p object ssize sswap
    match sendEnd with
    | .returned buffers _ =>
        match s.sendBin buffers with
        | (.returned _, s) => (sendEnd, s)
        | (_, s) => (.ended, s)
    | _ => (sendEnd, s)
  else (.returned [] {}, s)

end RApache
