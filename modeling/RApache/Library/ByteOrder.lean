import Mathlib.Tactic.Positivity

/-!
# Numbers in memory

The bytes of a number of fixed width, in either byte order, and the signed number that they
stand for.
-/

/-- The order in which a machine stores the bytes of a number. -/
inductive ByteOrder where
  /-- The lowest byte first. -/
  | little
  /-- The highest byte first. -/
  | big
  deriving DecidableEq, Repr

namespace ByteOrder

/-- The lowest bytes of a natural number, the lowest first. -/
def digits : (width : Nat) → (n : Nat) → List UInt8
  | 0, _ => []
  | width + 1, n => UInt8.ofNat (n % 256) :: digits width (n / 256)

/-- The natural number with these bytes, the lowest first. -/
def value : List UInt8 → Nat
  | [] => 0
  | byte :: bytes => byte.toNat + 256 * value bytes

@[simp] theorem length_digits (width n : Nat) : (digits width n).length = width := by
  induction width generalizing n with
  | zero => rfl
  | succ width ih => rw [digits, List.length_cons, ih]

theorem value_digits (width n : Nat) : value (digits width n) = n % 256 ^ width := by
  induction width generalizing n with
  | zero => simp [digits, value, Nat.mod_one]
  | succ width ih =>
      have lowest : (UInt8.ofNat (n % 256)).toNat = n % 256 := by simp
      rw [digits, value, ih, lowest, Nat.pow_succ', Nat.mod_mul]

/-- The other order. -/
def opposite : ByteOrder → ByteOrder
  | little => big
  | big => little

/-- Bytes in this order, from bytes in little-endian order, and the other way round. -/
def arrange : ByteOrder → List UInt8 → List UInt8
  | little, bytes => bytes
  | big, bytes => bytes.reverse

variable (order : ByteOrder)

@[simp] theorem length_arrange (bytes : List UInt8) :
    (order.arrange bytes).length = bytes.length := by
  cases order with
  | little => rfl
  | big => exact List.length_reverse

@[simp] theorem arrange_arrange (bytes : List UInt8) :
    order.arrange (order.arrange bytes) = bytes := by
  cases order with
  | little => rfl
  | big => exact List.reverse_reverse bytes

theorem arrange_opposite_reverse (bytes : List UInt8) :
    order.opposite.arrange bytes.reverse = order.arrange bytes := by
  cases order with
  | little => exact List.reverse_reverse bytes
  | big => rfl

/-- The bytes of an integer; what they cannot hold is lost. -/
def encode (width : Nat) (z : Int) : List UInt8 :=
  order.arrange (digits width (z % 256 ^ width).toNat)

/-- The signed number with these bytes. -/
def decode (bytes : List UInt8) : Int :=
  Int.bmod (value (order.arrange bytes)) (256 ^ bytes.length)

@[simp] theorem length_encode (width : Nat) (z : Int) : (order.encode width z).length = width := by
  rw [encode, length_arrange, length_digits]

/-- Only the residue matters. -/
theorem encode_congr {width : Nat} {z z' : Int} (same : z % 256 ^ width = z' % 256 ^ width) :
    order.encode width z = order.encode width z' := by
  rw [encode, encode, same]

theorem decode_encode (width : Nat) (z : Int) :
    order.decode (order.encode width z) = z.bmod (256 ^ width) := by
  have positive : (0 : Int) < 256 ^ width := by positivity
  have bound := Int.emod_lt_of_pos z positive
  have natural : ((z % 256 ^ width).toNat : Int) = z % 256 ^ width :=
    Int.toNat_of_nonneg (Int.emod_nonneg z positive.ne')
  have fits : (z % 256 ^ width).toNat < 256 ^ width := by
    have cast : ((256 ^ width : Nat) : Int) = 256 ^ width := by push_cast; rfl
    omega
  rw [decode, length_encode, encode, arrange_arrange, value_digits, Nat.mod_eq_of_lt fits, natural]
  simpa using @Int.emod_bmod z (256 ^ width)

/-- A number that the width can hold is read back. -/
theorem decode_encode_of_fits {width : Nat} {z : Int} (atLeast : -(256 ^ width) ≤ z * 2)
    (below : z * 2 < 256 ^ width) : order.decode (order.encode width z) = z := by
  have cast : ((256 ^ width : Nat) : Int) = 256 ^ width := by push_cast; rfl
  rw [decode_encode]
  apply Int.bmod_eq_of_le_mul_two
  · rw [cast]
    omega
  · rw [cast]
    omega

/-- Bytes turned round are the same number in the other order. -/
theorem decode_opposite_reverse (bytes : List UInt8) :
    order.opposite.decode bytes.reverse = order.decode bytes := by
  rw [decode, arrange_opposite_reverse, List.length_reverse, decode]

end ByteOrder
