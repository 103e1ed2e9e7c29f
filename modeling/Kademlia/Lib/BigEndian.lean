import Mathlib.Algebra.Group.Nat.Defs
import Mathlib.Data.List.Induction
import Mathlib.Order.Compare

/-!
# Numbers as bytes

A number in a fixed number of bytes, the most significant one first.  The byte strings of one
length are ordered like their numbers, and bitwise operations on the bytes are those on the
numbers.
-/

namespace Kademlia
namespace Lib
namespace BigEndian

def toBytes : Nat → Nat → List UInt8
  | 0, _ => []
  | width + 1, n => toBytes width (n / 256) ++ [UInt8.ofNat n]

def ofBytes (bytes : List UInt8) : Nat := bytes.foldl (fun n byte => n * 256 + byte.toNat) 0

@[simp] theorem length_toBytes (width n : Nat) : (toBytes width n).length = width := by
  induction width generalizing n with
  | zero => rfl
  | succ width ih => rw [toBytes, List.length_append, ih, List.length_singleton]

theorem ofBytes_concat (bytes : List UInt8) (byte : UInt8) :
    ofBytes (bytes ++ [byte]) = ofBytes bytes * 256 + byte.toNat := by
  rw [ofBytes, List.foldl_append]
  rfl

/-- A number that fits is read back. -/
theorem ofBytes_toBytes {width n : Nat} (h : n < 256 ^ width) : ofBytes (toBytes width n) = n := by
  induction width generalizing n with
  | zero =>
    rw [Nat.pow_zero] at h
    exact (Nat.lt_one_iff.mp h).symm
  | succ width ih =>
    have hdiv : n / 256 < 256 ^ width := by
      rw [Nat.pow_succ] at h
      exact Nat.div_lt_of_lt_mul (by omega)
    have hbyte : (UInt8.ofNat n).toNat = n % 256 := UInt8.toNat_ofNat'
    rw [toBytes, ofBytes_concat, ih hdiv, hbyte]
    omega

theorem ofBytes_lt (bytes : List UInt8) : ofBytes bytes < 256 ^ bytes.length := by
  induction bytes using List.reverseRecOn with
  | nil => exact Nat.zero_lt_one
  | append_singleton bytes last ih =>
    have hlast : last.toNat < 256 := last.toNat_lt
    rw [ofBytes_concat, List.length_append, List.length_singleton, Nat.pow_succ]
    omega

/-- Bytes that are read are written again. -/
theorem toBytes_ofBytes (bytes : List UInt8) : toBytes bytes.length (ofBytes bytes) = bytes := by
  induction bytes using List.reverseRecOn with
  | nil => rfl
  | append_singleton bytes last ih =>
    have hlast : last.toNat < 256 := last.toNat_lt
    have hdiv : (ofBytes bytes * 256 + last.toNat) / 256 = ofBytes bytes := by omega
    have hbyte : UInt8.ofNat (ofBytes bytes * 256 + last.toNat) = last := by
      apply UInt8.toNat_inj.mp
      rw [UInt8.toNat_ofNat']
      omega
    rw [List.length_append, List.length_singleton, toBytes, ofBytes_concat, hdiv, hbyte, ih]

/-! ## Order and bits -/

theorem ofBytes_cons (byte : UInt8) (bytes : List UInt8) :
    ofBytes (byte :: bytes) = byte.toNat * 256 ^ bytes.length + ofBytes bytes := by
  induction bytes using List.reverseRecOn with
  | nil => simp [ofBytes]
  | append_singleton bytes last ih =>
    rw [← List.cons_append, ofBytes_concat, ofBytes_concat, ih, List.length_append,
      List.length_singleton, Nat.pow_succ, Nat.add_mul, Nat.mul_assoc, Nat.add_assoc]

/-- Numbers with a quotient and a remainder are compared by the quotients first. -/
theorem compare_mul_add {base a b r s : Nat} (hr : r < base) (hs : s < base) :
    compare (a * base + r) (b * base + s) = (compare a b).then (compare r s) := by
  rcases Nat.lt_trichotomy a b with hlt | rfl | hgt
  · have hle : (a + 1) * base ≤ b * base := Nat.mul_le_mul_right base hlt
    rw [Nat.add_mul, Nat.one_mul] at hle
    rw [Nat.compare_eq_lt.mpr hlt, Nat.compare_eq_lt.mpr (by omega)]
    rfl
  · rw [Nat.compare_eq_eq.mpr rfl]
    rcases Nat.lt_trichotomy r s with hlt | rfl | hgt
    · rw [Nat.compare_eq_lt.mpr hlt, Nat.compare_eq_lt.mpr (by omega)]
      rfl
    · rw [Nat.compare_eq_eq.mpr rfl, Nat.compare_eq_eq.mpr rfl]
      rfl
    · rw [Nat.compare_eq_gt.mpr hgt, Nat.compare_eq_gt.mpr (by omega)]
      rfl
  · have hle : (b + 1) * base ≤ a * base := Nat.mul_le_mul_right base hgt
    rw [Nat.add_mul, Nat.one_mul] at hle
    rw [Nat.compare_eq_gt.mpr hgt, Nat.compare_eq_gt.mpr (by omega)]
    rfl

theorem compare_toNat (x y : UInt8) : compare x.toNat y.toNat = compare x y := by
  show compareOfLessAndEq x.toNat y.toNat = compareOfLessAndEq x y
  unfold compareOfLessAndEq
  simp only [UInt8.lt_iff_toNat_lt, UInt8.toNat_inj]

/-- Byte strings of one length are ordered like the numbers that they are. -/
theorem compare_ofBytes {xs ys : List UInt8} (h : xs.length = ys.length) :
    compare (ofBytes xs) (ofBytes ys) = compare xs ys := by
  induction xs generalizing ys with
  | nil =>
    obtain rfl := List.length_eq_zero_iff.mp h.symm
    rfl
  | cons x xs ih =>
    cases ys with
    | nil => cases h
    | cons y ys =>
      have hlength : xs.length = ys.length := Nat.succ.inj h
      have hx := ofBytes_lt xs
      rw [hlength] at hx
      rw [ofBytes_cons, ofBytes_cons, hlength, compare_mul_add hx (ofBytes_lt ys), ih hlength,
        List.compare_cons_cons, compare_toNat]

/-- The bits of a number and of its last eight ones are apart. -/
theorem testBit_mul_add (n i : Nat) (byte : UInt8) :
    (n * 256 + byte.toNat).testBit i =
      if i < 8 then byte.toNat.testBit i else n.testBit (i - 8) := by
  rw [Nat.mul_comm]
  exact Nat.testBit_two_pow_mul_add n byte.toNat_lt i

theorem xor_mul_add (m n : Nat) (x y : UInt8) :
    (m * 256 + x.toNat) ^^^ (n * 256 + y.toNat) = (m ^^^ n) * 256 + (x ^^^ y).toNat := by
  apply Nat.eq_of_testBit_eq
  intro i
  rw [Nat.testBit_xor, testBit_mul_add, testBit_mul_add, testBit_mul_add]
  split
  · rw [UInt8.toNat_xor, Nat.testBit_xor]
  · rw [Nat.testBit_xor]

/-- The exclusive or of byte strings is the exclusive or of the numbers that they are. -/
theorem ofBytes_zipWith_xor {xs ys : List UInt8} (h : xs.length = ys.length) :
    ofBytes (List.zipWith (· ^^^ ·) xs ys) = ofBytes xs ^^^ ofBytes ys := by
  induction xs using List.reverseRecOn generalizing ys with
  | nil =>
    obtain rfl := List.length_eq_zero_iff.mp h.symm
    rfl
  | append_singleton xs x ih =>
    rcases List.eq_nil_or_concat ys with rfl | ⟨ys, y, rfl⟩
    · simp at h
    · have hlength : xs.length = ys.length := by simpa using h
      rw [List.concat_eq_append, List.zipWith_append hlength, List.zipWith_cons_cons,
        List.zipWith_nil_left, ofBytes_concat, ofBytes_concat, ofBytes_concat, ih hlength, xor_mul_add]

/-- The bits of a number are those of its bytes, the last bit of the last byte first. -/
theorem testBit_ofBytes {bytes : List UInt8} {i : Nat} (h : i < 8 * bytes.length) :
    (ofBytes bytes).testBit i =
      (bytes.reverse.getD (i / 8) 0).toNat.testBit (i % 8) := by
  induction bytes using List.reverseRecOn generalizing i with
  | nil => simp at h
  | append_singleton bytes last ih =>
    rw [ofBytes_concat, testBit_mul_add, List.reverse_concat]
    by_cases hi : i < 8
    · rw [if_pos hi, Nat.div_eq_of_lt hi, Nat.mod_eq_of_lt hi]
      rfl
    · have hlt : i - 8 < 8 * bytes.length := by
        rw [List.length_append, List.length_singleton] at h
        omega
      have hdiv : i / 8 = (i - 8) / 8 + 1 := by omega
      have hmod : i % 8 = (i - 8) % 8 := by omega
      rw [if_neg hi, ih hlt, hdiv, hmod]
      rfl

end BigEndian
end Lib
end Kademlia
