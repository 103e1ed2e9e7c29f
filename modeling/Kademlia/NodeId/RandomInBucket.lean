import Kademlia.NodeId.Metric

/-!
# Random identifiers in a bucket

A refresh looks up a random identifier of each bucket.  `randomInBucket` flips the bit of the
base that the bucket stands for and draws every later bit.  The identifiers that it can return
are those of the bucket, all of them.
-/

namespace Kademlia

namespace NodeId

abbrev Bytes : Type := Vector UInt8 keyLengthBytes

/-- The byte that holds a bit is combined with the mask of the bit. -/
def editBit (f : UInt8 → UInt8 → UInt8) (bytes : Bytes) (position : Fin keyLengthBits) : Bytes :=
  let bytePos : Fin keyLengthBytes := ⟨position.val / 8, bytePos_lt position.isLt⟩
  let bitPos := 7 - position.val % 8
  bytes.set bytePos (f (bytes.get bytePos) (1 <<< UInt8.ofNat bitPos))

def flipBit : Bytes → Fin keyLengthBits → Bytes := editBit fun byte mask => byte ^^^ mask

def setBit : Bytes → Fin keyLengthBits → Bytes := editBit fun byte mask => byte ||| mask

def clearBit : Bytes → Fin keyLengthBits → Bytes := editBit fun byte mask => byte &&& ~~~mask

/-- The body of the loop of `random_in_bucket` with the bit it draws. -/
def writeBit (value : Bool) (bytes : Bytes) (position : Fin keyLengthBits) : Bytes :=
  if value then setBit bytes position else clearBit bytes position

/-- The loop of `random_in_bucket` from `bit` on.  The random bits still to come are `gen`. -/
def randomizeFrom (bit : Nat) (gen : Nat → Bool) (bytes : Bytes) : Bytes :=
  if h : bit < keyLengthBits then
    randomizeFrom (bit + 1) (fun n => gen (n + 1)) (writeBit (gen 0) bytes ⟨bit, h⟩)
  else bytes
termination_by keyLengthBits - bit

def randomInBucket (base : NodeId) (bucketIndex : Nat) (gen : Nat → Bool) : Option NodeId :=
  if h : bucketIndex < keyLengthBits then
    let bytes := flipBit base.bytes ⟨bucketIndex, h⟩
    some { bytes := randomizeFrom (bucketIndex + 1) gen bytes }
  else none

end NodeId

/-! ## One bit -/

theorem getLsbD_mask {bit : Nat} (h : bit < 8) (other : Nat) :
    (1 <<< UInt8.ofNat bit : UInt8).toBitVec.getLsbD other = decide (bit = other) := by
  rw [toBitVec_shiftLeft_one h, BitVec.getLsbD_twoPow, decide_eq_true h, Bool.true_and]

section Byte

variable (byte : UInt8) {bit other : Nat} (h : bit < 8) (hother : other < 8)

include h hother

theorem bitSet_flip :
    bitSet (byte ^^^ 1 <<< UInt8.ofNat bit) other = (bitSet byte other ^^ decide (bit = other)) := by
  rw [bitSet_eq_getLsbD _ hother, bitSet_eq_getLsbD _ hother, UInt8.toBitVec_xor,
    BitVec.getLsbD_xor, getLsbD_mask h]

theorem bitSet_or :
    bitSet (byte ||| 1 <<< UInt8.ofNat bit) other = (bitSet byte other || decide (bit = other)) := by
  rw [bitSet_eq_getLsbD _ hother, bitSet_eq_getLsbD _ hother, UInt8.toBitVec_or,
    BitVec.getLsbD_or, getLsbD_mask h]

theorem bitSet_and_not :
    bitSet (byte &&& ~~~(1 <<< UInt8.ofNat bit)) other =
      (bitSet byte other && !decide (bit = other)) := by
  rw [bitSet_eq_getLsbD _ hother, bitSet_eq_getLsbD _ hother, UInt8.toBitVec_and,
    UInt8.toBitVec_not, BitVec.getLsbD_and, BitVec.getLsbD_not, getLsbD_mask h,
    decide_eq_true hother, Bool.true_and]

end Byte

namespace NodeId

theorem get_editBit (f : UInt8 → UInt8 → UInt8) (bytes : Bytes) (position : Fin keyLengthBits)
    (i : Fin keyLengthBytes) :
    (editBit f bytes position).get i =
      if position / 8 = i.val then f (bytes.get i) (1 <<< UInt8.ofNat (7 - position % 8))
      else bytes.get i := by
  show (bytes.set (position / 8) _ (bytePos_lt position.isLt))[i.val] = _
  rw [Vector.getElem_set]
  by_cases hi : position / 8 = i.val
  · have hindex : (⟨position / 8, bytePos_lt position.isLt⟩ : Fin keyLengthBytes) = i := Fin.ext hi
    rw [if_pos hi, if_pos hi, hindex]
  · rw [if_neg hi, if_neg hi]
    rfl

/-- Editing a bit changes that bit only. -/
theorem bitAt_editBit {f : UInt8 → UInt8 → UInt8} {g : Bool → Bool → Bool}
    (hf : ∀ (byte : UInt8) (bit other : Nat), bit < 8 → other < 8 →
      bitSet (f byte (1 <<< UInt8.ofNat bit)) other = g (bitSet byte other) (decide (bit = other)))
    (hg : ∀ b, g b false = b) (bytes : Bytes) (position : Fin keyLengthBits) (i : Nat) :
    (NodeId.mk (editBit f bytes position)).bitAt i =
      if i = position then g ((NodeId.mk bytes).bitAt i) true else (NodeId.mk bytes).bitAt i := by
  rcases Nat.lt_or_ge i keyLengthBits with hlt | hge
  · obtain ⟨byte, bit, rfl⟩ := exists_byte_of_lt hlt
    rw [bitAt_mul_add, bitAt_mul_add]
    dsimp only
    rw [get_editBit]
    by_cases hbyte : position / 8 = byte.val
    · rw [if_pos hbyte, hf _ _ _ (by omega) (by omega)]
      by_cases hbit : byte.val * 8 + bit.val = position
      · rw [if_pos hbit, decide_eq_true (by omega)]
      · rw [if_neg hbit, decide_eq_false (by omega), hg]
    · rw [if_neg hbyte, if_neg (by omega)]
  · have hne : i ≠ position := by
      rintro rfl
      exact absurd position.isLt (Nat.not_lt.mpr hge)
    rw [bitAt_of_ge _ hge, bitAt_of_ge _ hge, if_neg hne]

theorem bitAt_flipBit (bytes : Bytes) (position : Fin keyLengthBits) (i : Nat) :
    (NodeId.mk (flipBit bytes position)).bitAt i =
      if i = position then !(NodeId.mk bytes).bitAt i else (NodeId.mk bytes).bitAt i := by
  rw [flipBit, bitAt_editBit (g := fun b m => b ^^ m)]
  · simp only [Bool.xor_true]
  · intro byte bit other h hother
    exact bitSet_flip byte h hother
  · exact Bool.xor_false

theorem bitAt_writeBit (value : Bool) (bytes : Bytes) (position : Fin keyLengthBits) (i : Nat) :
    (NodeId.mk (writeBit value bytes position)).bitAt i =
      if i = position then value else (NodeId.mk bytes).bitAt i := by
  cases value with
  | true =>
    rw [writeBit, if_pos rfl, setBit, bitAt_editBit (g := fun b m => b || m)]
    · simp only [Bool.or_true]
    · intro byte bit other h hother
      exact bitSet_or byte h hother
    · exact Bool.or_false
  | false =>
    rw [writeBit, if_neg Bool.false_ne_true, clearBit, bitAt_editBit (g := fun b m => b && !m)]
    · simp only [Bool.not_true, Bool.and_false]
    · intro byte bit other h hother
      exact bitSet_and_not byte h hother
    · intro b
      rw [Bool.not_false, Bool.and_true]

/-- The loop draws the bits from `bit` on and leaves those before. -/
theorem bitAt_randomizeFrom (bit : Nat) (gen : Nat → Bool) (bytes : Bytes) {i : Nat}
    (hi : i < keyLengthBits) :
    (NodeId.mk (randomizeFrom bit gen bytes)).bitAt i =
      if i < bit then (NodeId.mk bytes).bitAt i else gen (i - bit) := by
  fun_induction randomizeFrom bit gen bytes with
  | case1 bit gen bytes h ih =>
    rw [ih, bitAt_writeBit]
    rcases Nat.lt_trichotomy i bit with hlt | rfl | hgt
    · rw [if_pos (by omega), if_neg (Nat.ne_of_lt hlt), if_pos hlt]
    · rw [if_pos (Nat.lt_succ_self i), if_pos rfl, if_neg (Nat.lt_irrefl i), Nat.sub_self]
    · have hindex : i - (bit + 1) + 1 = i - bit := by omega
      rw [if_neg (by omega), if_neg (by omega)]
      exact congrArg gen hindex
  | case2 bit gen bytes h => rw [if_pos (by omega)]

/-- The bits of a random identifier: those of the base before the index, the other one at
the index, and the random bits behind. -/
theorem bitAt_randomInBucket {base t : NodeId} {i : Nat} {gen : Nat → Bool}
    (h : base.randomInBucket i gen = some t) {j : Nat} (hj : j < keyLengthBits) :
    t.bitAt j = if j < i then base.bitAt j else if j = i then !base.bitAt j
      else gen (j - (i + 1)) := by
  unfold randomInBucket at h
  split at h
  · rw [← Option.some.inj h, bitAt_randomizeFrom _ _ _ hj, bitAt_flipBit]
    dsimp only
    rcases Nat.lt_trichotomy j i with hlt | rfl | hgt
    · rw [if_pos (by omega), if_neg (Nat.ne_of_lt hlt), if_pos hlt]
    · rw [if_pos (Nat.lt_succ_self j), if_pos rfl, if_neg (Nat.lt_irrefl j), if_pos rfl]
    · rw [if_neg (by omega), if_neg (by omega), if_neg (by omega)]
  · cases h

theorem randomInBucket_eq_none_iff {base : NodeId} {i : Nat} {gen : Nat → Bool} :
    base.randomInBucket i gen = none ↔ keyLengthBits ≤ i := by
  unfold randomInBucket
  by_cases h : i < keyLengthBits
  · rw [dif_pos h]
    exact iff_of_false (fun hnone => by cases hnone) (Nat.not_le.mpr h)
  · rw [dif_neg h]
    exact iff_of_true rfl (Nat.not_lt.mp h)

theorem bucketIndex_randomInBucket {base t : NodeId} {i : Nat} {gen : Nat → Bool}
    (h : base.randomInBucket i gen = some t) : base.bucketIndex t = some i := by
  have hi : i < keyLengthBits := by
    by_contra hge
    rw [randomInBucket_eq_none_iff.mpr (Nat.not_lt.mp hge)] at h
    cases h
  rw [bucketIndex_eq_some_iff]
  refine ⟨hi, ?_, ?_⟩
  · rw [bitAt_randomInBucket h hi, if_neg (Nat.lt_irrefl i), if_pos rfl]
    exact Bool.not_ne_self _ |>.symm
  · intro m hm
    rw [bitAt_randomInBucket h (Nat.lt_trans hm hi), if_pos hm]

theorem exists_randomInBucket {base t : NodeId} {i : Nat} (h : base.bucketIndex t = some i) :
    ∃ gen, base.randomInBucket i gen = some t := by
  obtain ⟨hi, hne, hbefore⟩ := bucketIndex_eq_some_iff.mp h
  refine ⟨fun n => t.bitAt (n + (i + 1)), ?_⟩
  cases hrandom : base.randomInBucket i fun n => t.bitAt (n + (i + 1)) with
  | none => exact absurd (randomInBucket_eq_none_iff.mp hrandom) (Nat.not_le.mpr hi)
  | some t' =>
    refine congrArg some (eq_of_bitAt ?_)
    intro j hj
    rw [bitAt_randomInBucket hrandom hj]
    rcases Nat.lt_trichotomy j i with hlt | rfl | hgt
    · rw [if_pos hlt, hbefore j hlt]
    · rw [if_neg (Nat.lt_irrefl j), if_pos rfl]
      exact (Bool.eq_not.mpr hne.symm).symm
    · rw [if_neg (by omega), if_neg (by omega), Nat.sub_add_cancel hgt]

/-- Whatever the random bits, the identifier falls into the bucket, and every identifier of
the bucket comes from some random bits. -/
theorem randomInBucket_covers (base : NodeId) (i : Nat) :
    (∀ gen, (base.randomInBucket i gen = none ↔ i ≥ 160) ∧
      ∀ t, base.randomInBucket i gen = some t → base.bucketIndex t = some i) ∧
    (i < 160 → ∀ t, base.bucketIndex t = some i → ∃ gen, base.randomInBucket i gen = some t) := by
  refine ⟨fun gen => ⟨randomInBucket_eq_none_iff, fun t => bucketIndex_randomInBucket⟩, ?_⟩
  intro _ t h
  exact exists_randomInBucket h

end NodeId

end Kademlia
