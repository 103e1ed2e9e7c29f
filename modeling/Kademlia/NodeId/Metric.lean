import Mathlib.Data.Nat.Bitwise
import Kademlia.Lib.BigEndian
import Kademlia.Lib.Bits
import Kademlia.NodeId

/-!
# The XOR metric

Identifiers are compared byte by byte from the first one.  Read as numbers of 160 bits, the
most significant byte first, they have the order of the numbers, and `distance` is the
exclusive or of the numbers, which makes it a metric.
-/

namespace Kademlia

open Lib

namespace NodeId

instance : Ord NodeId := ⟨fun self other => compare self.bytes other.bytes⟩

instance : Std.TransOrd NodeId where
  eq_swap := by
    intro a b
    show compare a.bytes b.bytes = (compare b.bytes a.bytes).swap
    exact Std.OrientedCmp.eq_swap
  isLE_trans := by
    intro a b c hab hbc
    show (compare a.bytes c.bytes).isLE
    exact Std.TransCmp.isLE_trans hab hbc

instance : Std.LawfulEqOrd NodeId where
  compare_self := by
    intro a
    show compare a.bytes a.bytes = .eq
    exact Std.ReflCmp.compare_self
  eq_of_compare := by
    intro a b h
    have hcompare : compare a.bytes b.bytes = .eq := h
    have hbytes : a.bytes = b.bytes := Std.LawfulEqCmp.eq_of_compare hcompare
    exact eq_of_get fun i => by rw [hbytes]

/-- The identifier as a number. -/
def toNat (x : NodeId) : Nat := BigEndian.ofBytes x.bytes.toList

theorem toNat_lt (x : NodeId) : x.toNat < 2 ^ keyLengthBits := by
  have hlt := BigEndian.ofBytes_lt x.bytes.toList
  rw [Vector.length_toList] at hlt
  exact hlt

theorem length_bytes_eq (x y : NodeId) : x.bytes.toList.length = y.bytes.toList.length := by
  rw [Vector.length_toList, Vector.length_toList]

theorem compare_eq_compare_toNat (x y : NodeId) : compare x y = compare x.toNat y.toNat := by
  rw [toNat, toNat, BigEndian.compare_ofBytes (length_bytes_eq x y)]
  exact Vector.compare_eq_compare_toList

theorem toNat_inj {x y : NodeId} : x.toNat = y.toNat ↔ x = y := by
  rw [← Nat.compare_eq_eq, ← compare_eq_compare_toNat, Std.LawfulEqCmp.compare_eq_iff_eq]

theorem bytes_distance (x y : NodeId) :
    (x.distance y).bytes.toList = List.zipWith (· ^^^ ·) x.bytes.toList y.bytes.toList := by
  apply List.ext_getElem
  · simp
  · intro i hi _
    have hlt : i < keyLengthBytes := by rwa [Vector.length_toList] at hi
    rw [List.getElem_zipWith, Vector.getElem_toList, Vector.getElem_toList, Vector.getElem_toList]
    exact bytes_get_distance x y ⟨i, hlt⟩

theorem toNat_distance (x y : NodeId) : (x.distance y).toNat = x.toNat ^^^ y.toNat := by
  rw [toNat, bytes_distance, BigEndian.ofBytes_zipWith_xor (length_bytes_eq x y)]
  rfl

/-- Position `i` is bit `159 - i` of the number. -/
theorem testBit_toNat (x : NodeId) {i : Nat} (h : i < keyLengthBits) :
    x.toNat.testBit (keyLengthBits - 1 - i) = x.bitAt i := by
  obtain ⟨byte, bit, rfl⟩ := exists_byte_of_lt h
  have hbits : keyLengthBits = 160 := rfl
  have hlength : x.bytes.toList.length = 20 := Vector.length_toList
  have hbyte : byte.val < 20 := byte.isLt
  have hdiv : (keyLengthBits - 1 - (byte.val * 8 + bit.val)) / 8 = 19 - byte.val := by omega
  have hmod : (keyLengthBits - 1 - (byte.val * 8 + bit.val)) % 8 = 7 - bit.val := by omega
  have hindex : x.bytes.toList.length - 1 - (19 - byte.val) = byte.val := by omega
  have hget : x.bytes.toList.reverse.getD (19 - byte.val) 0 = x.bytes.get byte := by
    rw [List.getD_eq_getElem?_getD, List.getElem?_reverse (by omega), hindex,
      List.getElem?_eq_getElem (by omega), Vector.getElem_toList]
    rfl
  rw [toNat, BigEndian.testBit_ofBytes (by omega), hdiv, hmod, hget, bitAt_mul_add,
    bitSet_eq_getLsbD _ (by omega)]
  rfl

theorem eq_of_bitAt {x y : NodeId} (h : ∀ i < keyLengthBits, x.bitAt i = y.bitAt i) : x = y := by
  apply toNat_inj.mp
  apply Nat.eq_of_testBit_eq
  intro i
  rcases Nat.lt_or_ge i keyLengthBits with hlt | hge
  · have hpos : keyLengthBits - 1 - (keyLengthBits - 1 - i) = i := by omega
    have hbit := h (keyLengthBits - 1 - i) (by omega)
    rwa [← testBit_toNat x (by omega), ← testBit_toNat y (by omega), hpos] at hbit
  · have hpow : 2 ^ keyLengthBits ≤ 2 ^ i := Nat.pow_le_pow_right (by decide) hge
    rw [Nat.testBit_lt_two_pow (Nat.lt_of_lt_of_le x.toNat_lt hpow),
      Nat.testBit_lt_two_pow (Nat.lt_of_lt_of_le y.toNat_lt hpow)]

theorem distance_comm (x y : NodeId) : x.distance y = y.distance x := by
  apply toNat_inj.mp
  rw [toNat_distance, toNat_distance, Nat.xor_comm]

theorem toNat_distance_eq_zero_iff {x y : NodeId} : (x.distance y).toNat = 0 ↔ x = y := by
  rw [toNat_distance, Nat.xor_eq_zero_iff, toNat_inj]

theorem distance_triangle (x y z : NodeId) :
    (x.distance z).toNat ≤ (x.distance y).toNat + (y.distance z).toNat := by
  have hxor : x.toNat ^^^ z.toNat = (x.toNat ^^^ y.toNat) ^^^ (y.toNat ^^^ z.toNat) := by
    rw [Nat.xor_assoc, Nat.xor_xor_cancel_left]
  rw [toNat_distance, toNat_distance, toNat_distance, hxor]
  exact Bits.xor_le_add _ _

theorem distance_distance (x y : NodeId) : x.distance (x.distance y) = y := by
  apply toNat_inj.mp
  rw [toNat_distance, toNat_distance, Nat.xor_xor_cancel_left]

/-- The order of the identifiers is that of the numbers, and `distance` is a metric on them
with exactly one identifier at each distance from another. -/
theorem xor_metric (x y z : NodeId) :
    compare x y = compare x.toNat y.toNat ∧
    ((x.distance y).toNat = 0 ↔ x = y) ∧
    x.distance y = y.distance x ∧
    (x.distance z).toNat ≤ (x.distance y).toNat + (y.distance z).toNat ∧
    ∀ d, ∃! other, x.distance other = d := by
  refine ⟨compare_eq_compare_toNat x y, toNat_distance_eq_zero_iff, distance_comm x y,
    distance_triangle x y z, ?_⟩
  intro d
  refine ⟨x.distance d, distance_distance x d, ?_⟩
  intro other hother
  rw [← hother, distance_distance]

end NodeId

end Kademlia
