import Mathlib.Data.Nat.Digits.Defs

/-!
# Bytes in memory

Numbers as the bytes that hold them on a little-endian machine, least significant byte first,
and the reversal of these bytes that `htons` and its relatives perform.
-/

namespace NetProg

/-- The number that little-endian bytes hold. -/
def loadLE (bytes : List UInt8) : Nat := Nat.ofDigits 256 (bytes.map UInt8.toNat)

/-- The `width` bytes of a number. -/
def storeLE : Nat → Nat → List UInt8
  | 0, _ => []
  | width + 1, n => UInt8.ofNat n :: storeLE width (n / 256)

/-- The number with its `width` bytes in the opposite order. -/
def swapBytes (width n : Nat) : Nat := loadLE (storeLE width n).reverse

@[simp] theorem loadLE_nil : loadLE [] = 0 := rfl

@[simp] theorem loadLE_cons (byte : UInt8) (bytes : List UInt8) :
    loadLE (byte :: bytes) = byte.toNat + 256 * loadLE bytes := by
  simp [loadLE, Nat.ofDigits_cons]

@[simp] theorem storeLE_length (width n : Nat) : (storeLE width n).length = width := by
  induction width generalizing n with
  | zero => rfl
  | succ width ih => simp [storeLE, ih]

theorem loadLE_lt (bytes : List UInt8) : loadLE bytes < 256 ^ bytes.length := by
  induction bytes with
  | nil => simp
  | cons byte bytes ih =>
      have small := byte.toNat_lt
      rw [loadLE_cons, List.length_cons, pow_succ]
      omega

/-- Storing and loading again. -/
theorem loadLE_storeLE {width n : Nat} (fits : n < 256 ^ width) :
    loadLE (storeLE width n) = n := by
  induction width generalizing n with
  | zero =>
      have zero : n = 0 := by simpa using fits
      simp [storeLE, zero]
  | succ width ih =>
      have quotient : n / 256 < 256 ^ width := by
        apply Nat.div_lt_of_lt_mul
        rw [← pow_succ']
        exact fits
      have low : (UInt8.ofNat n).toNat = n % 256 := UInt8.toNat_ofNat'
      rw [storeLE, loadLE_cons, ih quotient, low]
      omega

/-- Loading and storing again. -/
theorem storeLE_loadLE (bytes : List UInt8) : storeLE bytes.length (loadLE bytes) = bytes := by
  induction bytes with
  | nil => rfl
  | cons byte bytes ih =>
      have small := byte.toNat_lt
      have high : (byte.toNat + 256 * loadLE bytes) / 256 = loadLE bytes := by omega
      have low : UInt8.ofNat (byte.toNat + 256 * loadLE bytes) = byte := by
        apply UInt8.toNat_inj.mp
        rw [UInt8.toNat_ofNat']
        omega
      rw [List.length_cons, loadLE_cons, storeLE, high, low, ih]

theorem swapBytes_lt (width n : Nat) : swapBytes width n < 256 ^ width := by
  have bound := loadLE_lt (storeLE width n).reverse
  rw [List.length_reverse, storeLE_length] at bound
  exact bound

/-- Reversing the bytes twice. -/
theorem swapBytes_swapBytes {width n : Nat} (fits : n < 256 ^ width) :
    swapBytes width (swapBytes width n) = n := by
  have stored := storeLE_loadLE (storeLE width n).reverse
  rw [List.length_reverse, storeLE_length] at stored
  rw [swapBytes, swapBytes, stored, List.reverse_reverse, loadLE_storeLE fits]

end NetProg
