import Kademlia.NodeId.Metric

/-!
# Common prefixes

`leadingZeros` counts the zero bits of an identifier up to the first set one, and
`commonPrefixLength` those of a distance.  It finds the position that `bucketIndex` finds, and
which bounds the distance on both sides: contacts in later buckets are closer.
-/

namespace Kademlia

open Lib

namespace NodeId

/-- The inner loop of `leadingZeros` over the bits of a byte.  It ends with `true` when a set
bit leaves the outer loop too. -/
def countZeros (byte : UInt8) : List Nat → Nat → Nat × Bool
  | [], count => (count, false)
  | bit :: bits, count =>
    if bitSet byte bit then (count, true) else countZeros byte bits (count + 1)

/-- The outer loop of `leadingZeros`. -/
def countLeadingZeros : List UInt8 → Nat → Nat
  | [], count => count
  | byte :: bytes, count =>
    match countZeros byte (List.range 8).reverse count with
    | (count, true) => count
    | (count, false) => countLeadingZeros bytes count

def leadingZeros (self : NodeId) : Nat := countLeadingZeros self.bytes.toList 0

def commonPrefixLength (self other : NodeId) : Nat := (self.distance other).leadingZeros

/-! ## The first set bit -/

/-- The bits of a byte string, the most significant bit of each byte first. -/
def bits (bytes : List UInt8) : List Bool :=
  bytes.flatMap fun byte => (List.range 8).reverse.map (bitSet byte)

theorem countZeros_eq (byte : UInt8) (positions : List Nat) (count : Nat) :
    countZeros byte positions count =
      (count + (positions.map (bitSet byte)).findIdx id, (positions.map (bitSet byte)).any id) := by
  induction positions generalizing count with
  | nil => rfl
  | cons bit positions ih =>
    rw [countZeros, List.map_cons, List.findIdx_cons, List.any_cons]
    cases hbit : bitSet byte bit with
    | true => rfl
    | false =>
      rw [ih]
      simp only [Bool.false_eq_true, if_false, id, Bool.false_or, cond_false, Prod.mk.injEq, and_true]
      omega

theorem countLeadingZeros_eq (bytes : List UInt8) (count : Nat) :
    countLeadingZeros bytes count = count + (bits bytes).findIdx id := by
  induction bytes generalizing count with
  | nil => rfl
  | cons byte bytes ih =>
    rw [countLeadingZeros, countZeros_eq, bits, List.flatMap_cons, List.findIdx_append]
    cases hany : ((List.range 8).reverse.map (bitSet byte)).any id with
    | true =>
      have hlt := List.findIdx_lt_length.mpr (List.any_eq_true.mp hany)
      rw [if_pos hlt]
    | false =>
      have hnone : ∀ bit ∈ (List.range 8).reverse.map (bitSet byte), id bit = false := by
        intro bit hbit
        exact Bool.eq_false_iff.mpr (List.any_eq_false.mp hany bit hbit)
      have hlength := List.findIdx_eq_length_of_false hnone
      rw [if_neg (Nat.not_lt.mpr (Nat.le_of_eq hlength.symm)), hlength]
      dsimp only
      rw [ih, bits]
      omega

theorem length_bits (bytes : List UInt8) : (bits bytes).length = bytes.length * 8 := by
  induction bytes with
  | nil => rfl
  | cons byte bytes ih =>
    rw [bits, List.flatMap_cons, List.length_append, ← bits, ih, List.length_cons, Nat.succ_mul,
      Nat.add_comm]
    rfl

theorem getElem?_bits (bytes : List UInt8) (i : Nat) :
    (bits bytes)[i]? = bytes[i / 8]?.map fun byte => bitSet byte (7 - i % 8) := by
  induction bytes generalizing i with
  | nil => rfl
  | cons byte bytes ih =>
    have hlength : ((List.range 8).reverse.map (bitSet byte)).length = 8 := rfl
    rw [bits, List.flatMap_cons, ← bits]
    by_cases hi : i < 8
    · rw [List.getElem?_append_left (by omega), Nat.div_eq_of_lt hi, Nat.mod_eq_of_lt hi,
        List.getElem?_map, List.getElem?_reverse (by rwa [List.length_range])]
      rw [List.length_range, List.getElem?_range (by omega)]
      rfl
    · have hdiv : i / 8 = (i - 8) / 8 + 1 := by omega
      have hmod : i % 8 = (i - 8) % 8 := by omega
      rw [List.getElem?_append_right (by omega), hlength, ih, hdiv, hmod]
      rfl

theorem getElem?_bits_bytes (x : NodeId) {i : Nat} (h : i < keyLengthBits) :
    (bits x.bytes.toList)[i]? = some (x.bitAt i) := by
  have hbyte : i / 8 < x.bytes.toList.length := by
    rw [Vector.length_toList]
    exact bytePos_lt h
  rw [getElem?_bits, List.getElem?_eq_getElem hbyte, Vector.getElem_toList, bitAt, dif_pos h]
  rfl

/-- The leading zeros end at the first set bit. -/
theorem leadingZeros_eq {x : NodeId} {i : Nat} (h : i < keyLengthBits) (hbit : x.bitAt i = true)
    (hbefore : ∀ j < i, x.bitAt j = false) : x.leadingZeros = i := by
  have hlength : (bits x.bytes.toList).length = keyLengthBits := by
    rw [length_bits, Vector.length_toList]
  have hget : ∀ (j : Nat) (hj : j < (bits x.bytes.toList).length),
      (bits x.bytes.toList)[j] = x.bitAt j := by
    intro j hj
    exact (List.getElem_eq_iff hj).mpr (getElem?_bits_bytes x (hlength ▸ hj))
  rw [leadingZeros, countLeadingZeros_eq, Nat.zero_add, List.findIdx_eq (hlength ▸ h)]
  refine ⟨by rw [hget, hbit]; rfl, ?_⟩
  intro j hj
  rw [hget, hbefore j hj]
  rfl

theorem commonPrefixLength_of_bucketIndex {x y : NodeId} {i : Nat} (h : x.bucketIndex y = some i) :
    x.commonPrefixLength y = i := by
  obtain ⟨hlt, hbit, hbefore⟩ := bucketIndex_eq_some_iff_distance.mp h
  exact leadingZeros_eq hlt hbit hbefore

/-! ## The size of a distance -/

theorem distance_bounds {x y : NodeId} {i : Nat} (h : x.bucketIndex y = some i) :
    2 ^ (keyLengthBits - 1 - i) ≤ (x.distance y).toNat ∧
      (x.distance y).toNat < 2 ^ (keyLengthBits - i) := by
  obtain ⟨hlt, hbit, hbefore⟩ := bucketIndex_eq_some_iff_distance.mp h
  apply Bits.two_pow_le_and_lt (toNat_lt _) hlt
  · rw [testBit_toNat _ hlt, hbit]
  · intro j hj
    rw [testBit_toNat _ (Nat.lt_trans hj hlt), hbefore j hj]

theorem distance_lt_of_bucketIndex {x y z : NodeId} {i j : Nat} (hy : x.bucketIndex y = some i)
    (hz : x.bucketIndex z = some j) (h : j < i) : (x.distance y).toNat < (x.distance z).toNat := by
  have hlt := (bucketIndex_eq_some_iff.mp hy).1
  calc (x.distance y).toNat
      < 2 ^ (keyLengthBits - i) := (distance_bounds hy).2
    _ ≤ 2 ^ (keyLengthBits - 1 - j) := Nat.pow_le_pow_right (by decide) (by omega)
    _ ≤ (x.distance z).toNat := (distance_bounds hz).1

/-- The bucket index is the length of the common prefix, the first position at which the
identifiers differ, and tells the size of their distance. -/
theorem bucketIndex_prefix (a b : NodeId) :
    (a.bucketIndex b = none ↔ a = b) ∧
    (∀ i, a.bucketIndex b = some i →
      i = a.commonPrefixLength b ∧ i < 160 ∧ (∀ j < i, a.bitAt j = b.bitAt j) ∧
      a.bitAt i ≠ b.bitAt i ∧
      2 ^ (159 - i) ≤ (a.distance b).toNat ∧ (a.distance b).toNat < 2 ^ (160 - i)) ∧
    ∀ c i j, a.bucketIndex b = some i → a.bucketIndex c = some j → i > j →
      (a.distance b).toNat < (a.distance c).toNat := by
  refine ⟨bucketIndex_eq_none_iff.trans eq_comm, ?_, ?_⟩
  · intro i h
    obtain ⟨hlt, hne, hbefore⟩ := bucketIndex_eq_some_iff.mp h
    exact ⟨(commonPrefixLength_of_bucketIndex h).symm, hlt, hbefore, hne, distance_bounds h⟩
  · intro c i j hb hc hlt
    exact distance_lt_of_bucketIndex hb hc hlt

end NodeId

end Kademlia
