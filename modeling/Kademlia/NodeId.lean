import Mathlib.Tactic.IntervalCases
import Kademlia.Lib.Scan

/-!
# Node identifiers

A `NodeId` is an array of twenty bytes.  `distance` is the byte-wise exclusive or,
`bitAt` numbers the bits from the most significant one, and `bucketIndex` scans the
distance for its first set bit.

The two views meet in `bucketIndex_eq_some_iff`: the bucket index of `other` is the
first position at which the two identifiers differ.
-/

namespace Kademlia

open Lib

abbrev keyLengthBytes : Nat := 20

abbrev keyLengthBits : Nat := keyLengthBytes * 8

theorem bytePos_lt {position : Nat} (h : position < keyLengthBits) :
    position / 8 < keyLengthBytes :=
  Nat.div_lt_of_lt_mul (by rwa [Nat.mul_comm])

theorem bitPos_lt {i j : Nat} (hi : i < keyLengthBytes) (hj : j < 8) :
    i * 8 + j < keyLengthBits := by
  unfold keyLengthBits
  omega

structure NodeId where
  bytes : Vector UInt8 keyLengthBytes
deriving DecidableEq

/-- `(byte & (1 << bit)) != 0` on a byte. -/
def bitSet (byte : UInt8) (bit : Nat) : Bool :=
  byte &&& (1 <<< UInt8.ofNat bit) != 0

namespace NodeId

/-- The first twenty bytes of `data`, padded with zeros. -/
def fromBytes (data : List UInt8) : NodeId :=
  { bytes := Vector.ofFn fun i => data.getD i 0 }

def distance (self other : NodeId) : NodeId :=
  { bytes := Vector.ofFn fun i => self.bytes.get i ^^^ other.bytes.get i }

def bitAt (self : NodeId) (position : Nat) : Bool :=
  if h : position < keyLengthBits then
    let bytePos : Fin keyLengthBytes := ⟨position / 8, bytePos_lt h⟩
    let bitPos := 7 - position % 8
    bitSet (self.bytes.get bytePos) bitPos
  else false

/-- The inner loop of `bucketIndex`: the first set bit of byte `i`, from the most
significant one. -/
def scanByte (distance : NodeId) (i : Fin keyLengthBytes) : Option Nat :=
  (List.finRange 8).findSome? fun j =>
    if bitSet (distance.bytes.get i) (7 - j.val) then some (i.val * 8 + j.val) else none

/-- The bytes are scanned in order.  A byte equal to zero is skipped, and a scan
that finds no bit falls through to the next byte. -/
def bucketIndex (self other : NodeId) : Option Nat :=
  let distance := self.distance other
  if distance.bytes.all (· == 0) then none
  else
    (List.finRange keyLengthBytes).findSome? fun i =>
      if distance.bytes.get i == 0 then none else distance.scanByte i

end NodeId

/-! ## Bits of a byte -/

theorem toBitVec_shiftLeft_one {bit : Nat} (h : bit < 8) :
    (1 <<< UInt8.ofNat bit : UInt8).toBitVec = BitVec.twoPow 8 bit := by
  interval_cases bit <;> rfl

theorem bitSet_eq_getLsbD (byte : UInt8) {bit : Nat} (h : bit < 8) :
    bitSet byte bit = byte.toBitVec.getLsbD bit := by
  have hand : (byte &&& (1 <<< UInt8.ofNat bit)).toBitVec =
      if byte.toBitVec.getLsbD bit then BitVec.twoPow 8 bit else 0#8 := by
    rw [UInt8.toBitVec_and, toBitVec_shiftLeft_one h, BitVec.and_twoPow]
  have hpow : BitVec.twoPow 8 bit ≠ 0#8 := by
    interval_cases bit <;> decide
  have hzero : bitSet byte bit = true ↔ (byte &&& (1 <<< UInt8.ofNat bit)).toBitVec ≠ 0#8 := by
    rw [bitSet, bne_iff_ne, ne_eq, ne_eq, ← UInt8.toBitVec_inj]
    rfl
  rw [Bool.eq_iff_iff, hzero, hand]
  by_cases hb : byte.toBitVec.getLsbD bit = true
  · simp [hb, hpow]
  · simp [hb]

theorem bitSet_xor (a b : UInt8) {bit : Nat} (h : bit < 8) :
    bitSet (a ^^^ b) bit = (bitSet a bit ^^ bitSet b bit) := by
  rw [bitSet_eq_getLsbD _ h, bitSet_eq_getLsbD _ h, bitSet_eq_getLsbD _ h,
    UInt8.toBitVec_xor, BitVec.getLsbD_xor]

theorem eq_zero_iff_bitSet (byte : UInt8) :
    byte = 0 ↔ ∀ bit < 8, bitSet byte bit = false := by
  constructor
  · rintro rfl bit hbit
    rw [bitSet_eq_getLsbD _ hbit]
    exact BitVec.getLsbD_zero
  · intro h
    apply UInt8.toBitVec_inj.mp
    apply BitVec.eq_of_getLsbD_eq
    intro bit hbit
    rw [← bitSet_eq_getLsbD _ hbit, h bit hbit]
    exact BitVec.getLsbD_zero.symm

namespace NodeId

/-! ## The first differing bit -/

theorem bitAt_of_ge (x : NodeId) {position : Nat} (h : keyLengthBits ≤ position) :
    x.bitAt position = false :=
  dif_neg (Nat.not_lt.mpr h)

theorem bitAt_mul_add (x : NodeId) (i : Fin keyLengthBytes) (j : Fin 8) :
    x.bitAt (i.val * 8 + j.val) = bitSet (x.bytes.get i) (7 - j.val) := by
  have hlt : i.val * 8 + j.val < keyLengthBits := bitPos_lt i.isLt j.isLt
  have hdiv : (i.val * 8 + j.val) / 8 = i.val := by omega
  have hmod : (i.val * 8 + j.val) % 8 = j.val := by omega
  simp only [bitAt, dif_pos hlt, hdiv, hmod]

theorem bytes_get_distance (x y : NodeId) (i : Fin keyLengthBytes) :
    (x.distance y).bytes.get i = x.bytes.get i ^^^ y.bytes.get i := by
  show (Vector.ofFn fun i => x.bytes.get i ^^^ y.bytes.get i)[i.val] = _
  rw [Vector.getElem_ofFn]

theorem eq_of_get {x y : NodeId} (h : ∀ i, x.bytes.get i = y.bytes.get i) : x = y := by
  have hbytes : x.bytes = y.bytes := Vector.ext fun i hi => h ⟨i, hi⟩
  obtain ⟨xs⟩ := x
  obtain ⟨ys⟩ := y
  exact congrArg NodeId.mk hbytes

/-- Different identifiers are at different distances from a target. -/
theorem distance_inj {x y target : NodeId} (h : x.distance target = y.distance target) :
    x = y := by
  apply eq_of_get
  intro i
  have hget : (x.distance target).bytes.get i = (y.distance target).bytes.get i := by rw [h]
  rw [bytes_get_distance, bytes_get_distance] at hget
  exact (UInt8.xor_left_inj _).mp hget

theorem bitAt_distance (x y : NodeId) (position : Nat) :
    (x.distance y).bitAt position = (x.bitAt position ^^ y.bitAt position) := by
  by_cases h : position < keyLengthBits
  · simp only [bitAt, dif_pos h, bytes_get_distance]
    exact bitSet_xor _ _ (by omega)
  · rw [bitAt_of_ge _ (Nat.not_lt.mp h), bitAt_of_ge _ (Nat.not_lt.mp h),
      bitAt_of_ge _ (Nat.not_lt.mp h)]
    rfl

/-- Every position below the key length is a bit of one byte. -/
theorem exists_byte_of_lt {position : Nat} (h : position < keyLengthBits) :
    ∃ (i : Fin keyLengthBytes) (j : Fin 8), position = i.val * 8 + j.val :=
  ⟨⟨position / 8, bytePos_lt h⟩, ⟨position % 8, by omega⟩, by simp only; omega⟩

theorem byte_eq_zero_iff (x : NodeId) (i : Fin keyLengthBytes) :
    x.bytes.get i = 0 ↔ ∀ j : Fin 8, x.bitAt (i.val * 8 + j.val) = false := by
  rw [eq_zero_iff_bitSet]
  constructor
  · intro h j
    rw [bitAt_mul_add]
    exact h _ (by omega)
  · intro h bit hbit
    have hj := h ⟨7 - bit, by omega⟩
    rw [bitAt_mul_add] at hj
    simpa only [show 7 - (7 - bit) = bit by omega] using hj

theorem scanByte_eq_some_iff (d : NodeId) (i : Fin keyLengthBytes) (n : Nat) :
    d.scanByte i = some n ↔ ∃ j : Fin 8, n = i.val * 8 + j.val ∧ d.bitAt n = true ∧
      ∀ j' < j, d.bitAt (i.val * 8 + j'.val) = false := by
  rw [scanByte, findSome?_finRange_eq_some_iff]
  simp only [← bitAt_mul_add, ite_eq_right_iff, reduceCtorEq, imp_false, Bool.not_eq_true,
    Option.ite_none_right_eq_some, Option.some.injEq]
  constructor
  · rintro ⟨j, ⟨hj, rfl⟩, hlt⟩
    exact ⟨j, rfl, hj, hlt⟩
  · rintro ⟨j, rfl, hj, hlt⟩
    exact ⟨j, ⟨hj, rfl⟩, hlt⟩

theorem scanByte_eq_none_iff (d : NodeId) (i : Fin keyLengthBytes) :
    d.scanByte i = none ↔ d.bytes.get i = 0 := by
  rw [byte_eq_zero_iff, scanByte, List.findSome?_eq_none_iff]
  simp [← bitAt_mul_add]

/-- Skipping a byte equal to zero does not change the scan, nor does the early
return on the zero distance. -/
theorem bucketIndex_eq_scan (x y : NodeId) :
    x.bucketIndex y = (List.finRange keyLengthBytes).findSome? (x.distance y).scanByte := by
  unfold bucketIndex
  generalize x.distance y = d
  have hbyte : ∀ i, (if d.bytes.get i == 0 then none else d.scanByte i) = d.scanByte i := by
    intro i
    by_cases hi : d.bytes.get i = 0
    · rw [(scanByte_eq_none_iff d i).mpr hi, ite_self]
    · rw [if_neg (by simpa using hi)]
  simp only [hbyte]
  by_cases hz : d.bytes.all (· == 0) = true
  · rw [if_pos hz, eq_comm, List.findSome?_eq_none_iff]
    intro i _
    rw [scanByte_eq_none_iff]
    exact beq_iff_eq.mp (Vector.all_eq_true.mp hz i.val i.isLt)
  · rw [if_neg hz]

theorem bucketIndex_eq_some_iff_distance {x y : NodeId} {n : Nat} :
    x.bucketIndex y = some n ↔ n < keyLengthBits ∧ (x.distance y).bitAt n = true ∧
      ∀ m < n, (x.distance y).bitAt m = false := by
  rw [bucketIndex_eq_scan, findSome?_finRange_eq_some_iff]
  generalize x.distance y = d
  constructor
  · rintro ⟨i, hi, hbefore⟩
    obtain ⟨j, rfl, hbit, hj⟩ := (scanByte_eq_some_iff d i n).mp hi
    refine ⟨bitPos_lt i.isLt j.isLt, hbit, fun m hm => ?_⟩
    obtain ⟨i', j', rfl⟩ := exists_byte_of_lt (Nat.lt_trans hm (bitPos_lt i.isLt j.isLt))
    rcases Nat.lt_trichotomy i'.val i.val with hlt | heq | hgt
    · exact (byte_eq_zero_iff d i').mp ((scanByte_eq_none_iff d i').mp (hbefore i' hlt)) j'
    · obtain rfl : i' = i := Fin.ext heq
      exact hj j' (by omega)
    · omega
  · rintro ⟨hn, hbit, hbefore⟩
    obtain ⟨i, j, rfl⟩ := exists_byte_of_lt hn
    refine ⟨i, (scanByte_eq_some_iff d i _).mpr ⟨j, rfl, hbit, fun j' hj' => ?_⟩, fun i' hi' => ?_⟩
    · exact hbefore _ (by omega)
    · rw [scanByte_eq_none_iff, byte_eq_zero_iff]
      exact fun j' => hbefore _ (by omega)

/-- The bucket index of `y` is the first position at which `x` and `y` differ. -/
theorem bucketIndex_eq_some_iff {x y : NodeId} {n : Nat} :
    x.bucketIndex y = some n ↔
      n < keyLengthBits ∧ x.bitAt n ≠ y.bitAt n ∧ ∀ m < n, x.bitAt m = y.bitAt m := by
  rw [bucketIndex_eq_some_iff_distance]
  simp only [bitAt_distance, ← Bool.bne_eq_xor, bne_iff_ne, ne_eq, bne_eq_false_iff_eq]

theorem bucketIndex_self (x : NodeId) : x.bucketIndex x = none := by
  rw [Option.eq_none_iff_forall_ne_some]
  intro n h
  exact (bucketIndex_eq_some_iff.mp h).2.1 rfl

theorem ne_of_bucketIndex {x y : NodeId} {n : Nat} (h : x.bucketIndex y = some n) : y ≠ x := by
  rintro rfl
  rw [bucketIndex_self] at h
  cases h

/-- Only the identifier itself has no bucket. -/
theorem bucketIndex_eq_none_iff {x y : NodeId} : x.bucketIndex y = none ↔ y = x := by
  constructor
  · intro h
    rw [bucketIndex_eq_scan, List.findSome?_eq_none_iff] at h
    have hbyte : ∀ i, x.bytes.get i = y.bytes.get i := by
      intro i
      have hzero := (scanByte_eq_none_iff _ i).mp (h i (List.mem_finRange i))
      rw [bytes_get_distance] at hzero
      exact UInt8.xor_eq_zero_iff.mp hzero
    exact (eq_of_get hbyte).symm
  · rintro rfl
    exact bucketIndex_self y

/-- Two identifiers in one bucket agree at the position the bucket stands for. -/
theorem bitAt_eq_of_bucketIndex {x y z : NodeId} {n : Nat}
    (hy : x.bucketIndex y = some n) (hz : x.bucketIndex z = some n) :
    y.bitAt n = z.bitAt n := by
  have hy' := (bucketIndex_eq_some_iff.mp hy).2.1
  have hz' := (bucketIndex_eq_some_iff.mp hz).2.1
  revert hy' hz'
  cases x.bitAt n <;> cases y.bitAt n <;> cases z.bitAt n <;> simp

theorem bucketIndex_comm (x y : NodeId) : x.bucketIndex y = y.bucketIndex x := by
  have hsymm : ∀ (x y : NodeId) (n : Nat), x.bucketIndex y = some n → y.bucketIndex x = some n := by
    intro x y n h
    obtain ⟨hlt, hne, hbefore⟩ := bucketIndex_eq_some_iff.mp h
    exact bucketIndex_eq_some_iff.mpr ⟨hlt, hne.symm, fun m hm => (hbefore m hm).symm⟩
  apply Option.ext
  intro n
  exact ⟨hsymm x y n, hsymm y x n⟩

-- The lemmas above say all about the scan, and unfolding it in unification is slow.
attribute [irreducible] bucketIndex

end NodeId

end Kademlia
