import Mathlib.Algebra.Order.Ring.Nat

/-! # Little-endian numbers

A number is written in a fixed number of bytes, the lowest first. A number that fits is read back, an
`int` in four bytes and a pointer in eight.
-/

namespace LittleEndian

/-- The lowest bytes of a number. -/
def encode : ℕ → ℕ → List UInt8
  | 0, _ => []
  | width + 1, value => UInt8.ofNat (value % 256) :: encode width (value / 256)

def decode (bytes : List UInt8) : ℕ := bytes.foldr (fun byte rest => byte.toNat + 256 * rest) 0

@[simp] theorem length_encode (width value : ℕ) : (encode width value).length = width := by
  induction width generalizing value with
  | zero => rfl
  | succ width ih => rw [encode, List.length_cons, ih]

theorem decode_cons (byte : UInt8) (rest : List UInt8) :
    decode (byte :: rest) = byte.toNat + 256 * decode rest := rfl

theorem decode_encode {width value : ℕ} (fits : value < 256 ^ width) : decode (encode width value) = value := by
  induction width generalizing value with
  | zero => exact (Nat.lt_one_iff.mp fits).symm
  | succ width ih =>
    have byte : (UInt8.ofNat (value % 256)).toNat = value % 256 :=
      UInt8.toNat_ofNat_of_lt' (Nat.mod_lt _ (by decide))
    rw [Nat.pow_succ] at fits
    rw [encode, decode_cons, byte, ih (Nat.div_lt_of_lt_mul (by omega))]
    exact Nat.mod_add_div value 256

/-! ## `int` and pointers -/

def encodeInt (value : ℤ) : List UInt8 := encode 4 (Int32.ofInt value).toUInt32.toNat

def decodeInt (bytes : List UInt8) : ℤ := (UInt32.ofNat (decode bytes)).toInt32.toInt

def encodePtr (address : ℕ) : List UInt8 := encode 8 address

theorem length_encodeInt (value : ℤ) : (encodeInt value).length = 4 := length_encode ..

theorem length_encodePtr (address : ℕ) : (encodePtr address).length = 8 := length_encode ..

theorem decodeInt_encodeInt {value : ℤ} (lower : -2 ^ 31 ≤ value) (upper : value < 2 ^ 31) :
    decodeInt (encodeInt value) = value := by
  have fits : (Int32.ofInt value).toUInt32.toNat < 256 ^ 4 := (Int32.ofInt value).toUInt32.toNat_lt
  rw [decodeInt, encodeInt, decode_encode fits, UInt32.ofNat_toNat, Int32.toInt32_toUInt32,
    Int32.toInt_ofInt_of_le lower upper]

theorem decode_encodePtr {address : ℕ} (fits : address < 256 ^ 8) : decode (encodePtr address) = address :=
  decode_encode fits

end LittleEndian
