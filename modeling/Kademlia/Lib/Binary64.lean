import Mathlib.Tactic.Ring
import Mathlib.Order.Compare
import Mathlib.Order.Basic

/-!
# Quotients of 32-bit integers in binary64

`Float` is the binary64 format, and its operations are defined by unpacking to a
significand and an exponent, computing there, rounding to nearest even and packing
again.  This file evaluates that model on the quotient of two 32-bit integers and
compares the quotient with one half.

The result is `half_le_div_iff`: the rounded quotient is at least one half exactly
when the exact quotient is.  Integers below `2 ^ 32` convert without rounding.
Their significands are multiples of `2 ^ 21`, so a quotient below one half stays
below it by more than rounding can add.
-/

namespace Kademlia
namespace Lib
namespace Binary64

open Float.Model Float.Model.UnpackedFloat

theorem targetExponent_binary64 (t : Int) :
    Format.binary64.targetExponent t = max (t - 53) (-1074) := rfl

theorem unpackSign_packComponents (exponent : BitVec 11) (mantissa : BitVec 52) :
    unpackSign (packComponents Format.binary64 .positive exponent mantissa) = 0#1 := by
  ext i hi
  obtain rfl : i = 0 := by omega
  have h : ((0#1 ++ exponent : BitVec 12) ++ mantissa).getLsbD 63 = false := by
    rw [BitVec.getLsbD_append, BitVec.getLsbD_append]
    simp
  delta unpackSign
  simp only [packComponents, Sign.toBitVec]
  simp
  exact h

theorem implicit_bit {m : Nat} (hlo : 2 ^ 52 ≤ m) (hhi : m < 2 ^ 53) :
    (1#1 ++ BitVec.ofNat 52 m).toNat = m := by
  rw [BitVec.toNat_append, BitVec.toNat_ofNat, BitVec.toNat_ofNat,
    ← Nat.shiftLeft_add_eq_or_of_lt (Nat.mod_lt _ (by decide)), Nat.shiftLeft_eq]
  omega

theorem finite_congr {sign sign' : Sign} {m m' : Nat} {e e' : Int} (hsign : sign = sign')
    (hm : m = m') (he : e = e') (hp : 0 < m) (hp' : 0 < m') :
    UnpackedFloat.finite sign m e hp = .finite sign' m' e' hp' := by
  subst hsign hm he
  rfl

/-- A bit pattern whose exponent field is neither all ones nor zero is a normal number. -/
theorem unpack_normal (b : BitVec Format.binary64.numBits) (hmax : ¬ unpackExponent b = -1#11)
    (hzero : ¬ unpackExponent b = 0#11) :
    ∃ hp, UnpackedFloat.unpack Format.binary64 b =
      .finite (Sign.ofBitVec (unpackSign b)) (1#1 ++ unpackMantissa b).toNat
        (((unpackExponent b).toNat : Int) -
          (Format.binary64.exponentBias + Format.binary64.mantissaBitsWithoutImplicit)) hp :=
  ⟨_, (if_neg hmax).trans (if_neg hzero)⟩

theorem unpack_pack_normal {m : Nat} {e : Int} (hp : 0 < m)
    (hlo : 2 ^ 52 ≤ m) (hhi : m < 2 ^ 53) (he : -1074 ≤ e) (he' : e ≤ 971) :
    (Float.Model.pack (.finite .positive m e hp)).unpack = .finite .positive m e hp := by
  have hlog : m.log2 = 52 := (Nat.log2_eq_iff (by omega)).mpr ⟨hlo, hhi⟩
  have hb : 0 < (e + 1023 + 52).toNat ∧ (e + 1023 + 52).toNat < 2047 := by omega
  have hval : (BitVec.ofNat 11 (e + 1023 + 52).toNat).toNat = (e + 1023 + 52).toNat := by
    rw [BitVec.toNat_ofNat]
    omega
  have hne : ¬ BitVec.ofNat 11 (e + 1023 + 52).toNat = -1#11 := by
    intro h
    have h' := congrArg BitVec.toNat h
    rw [hval, show (-1#11).toNat = 2047 from rfl] at h'
    omega
  have hz : ¬ BitVec.ofNat 11 (e + 1023 + 52).toNat = 0#11 := by
    intro h
    have h' := congrArg BitVec.toNat h
    rw [hval, show (0#11).toNat = 0 from rfl] at h'
    omega
  have hpack : UnpackedFloat.pack Format.binary64 (.finite .positive m e hp) =
      packComponents Format.binary64 .positive (BitVec.ofNat 11 (e + 1023 + 52).toNat)
        (BitVec.ofNat 52 m) := by
    show (if 2 ^ 11 ≤ (e + 1023 + 52).toNat + 1 then _ else if m.log2 + 1 = 53 then _ else _) = _
    rw [if_neg (by omega), if_pos (by omega)]
    rfl
  show UnpackedFloat.unpack Format.binary64 (UnpackedFloat.pack Format.binary64 _) = _
  rw [hpack]
  have hexp : ((BitVec.ofNat 11 (e + 1023 + 52).toNat).toNat : Int) -
      (Format.binary64.exponentBias + Format.binary64.mantissaBitsWithoutImplicit) = e := by
    rw [hval]
    show _ - ((1023 : Nat) + (52 : Nat) : Int) = e
    omega
  have hexponent : unpackExponent (packComponents Format.binary64 .positive
      (BitVec.ofNat 11 (e + 1023 + 52).toNat) (BitVec.ofNat 52 m)) =
      BitVec.ofNat 11 (e + 1023 + 52).toNat := unpackExponent_packComponents
  have hmax : ¬ unpackExponent (packComponents Format.binary64 .positive
      (BitVec.ofNat 11 (e + 1023 + 52).toNat) (BitVec.ofNat 52 m)) = -1#11 := by
    rw [hexponent]
    exact hne
  have hzero : ¬ unpackExponent (packComponents Format.binary64 .positive
      (BitVec.ofNat 11 (e + 1023 + 52).toNat) (BitVec.ofNat 52 m)) = 0#11 := by
    rw [hexponent]
    exact hz
  obtain ⟨hp', hunpack⟩ := unpack_normal _ hmax hzero
  rw [hunpack]
  apply finite_congr
  · rw [unpackSign_packComponents]
    rfl
  · rw [unpackMantissa_packComponents]
    exact implicit_bit hlo hhi
  · rw [hexponent]
    exact hexp

theorem mantissa_shiftRight (em : ExtendedMantissa) (s : Nat) :
    (em >>> s).mantissa = em.mantissa / 2 ^ s := by
  induction s with
  | zero => show em.mantissa = _; simp
  | succ s ih =>
    show (em >>> s).mantissa / 2 = _
    rw [ih, Nat.div_div_eq_div_mul, Nat.pow_succ]

theorem roundedMantissa_bounds (em : ExtendedMantissa) :
    em.mantissa ≤ em.roundedMantissa ∧ em.roundedMantissa ≤ em.mantissa + 1 := by
  rcases em with ⟨m, r, s⟩
  cases r <;> cases s <;>
    simp only [ExtendedMantissa.roundedMantissa, ExtendedMantissa.accuracy,
      Accuracy.roundToNearestEven] <;> omega

theorem mantissa_ofMantissaAndAccuracy (m : Nat) (acc : Accuracy) :
    (ExtendedMantissa.ofMantissaAndAccuracy m acc).mantissa = m := by
  rcases acc with _ | o
  · rfl
  · cases o <;> rfl

/-- The two shifts of a rounding, the second of which renormalises the mantissa. -/
theorem roundWithAccuracy_of_shifts {spec : Format} {sign : Sign} {m : Nat} {e e₁ e₂ : Int}
    {acc : Accuracy} {em₁ em₂ : ExtendedMantissa}
    (hfirst : shiftToTargetExponent spec m e acc = (em₁, e₁))
    (hsecond : shiftToTargetExponent spec em₁.roundedMantissa e₁ .exact = (em₂, e₂))
    (hp : 0 < em₂.mantissa) :
    roundWithAccuracy spec sign m e acc = .finite sign em₂.mantissa e₂ hp := by
  rw [roundWithAccuracy, hfirst]
  dsimp only
  rw [hsecond]
  exact dif_neg (Nat.ne_of_gt hp)

/-- Rounding a significand with `53 + s` bits drops the `s` low bits and keeps 53.
The bound on `m / 2 ^ s` excludes the carry into a further bit, so the exponent is
known before the accuracy is. -/
theorem roundWithAccuracy_normal {m s : Nat} {e : Int} (acc : Accuracy)
    (hlo : 2 ^ 52 ≤ m / 2 ^ s) (hhi : m / 2 ^ s + 1 < 2 ^ 53) (he : -1074 ≤ e + s) :
    ∃ r, ∃ hr : 0 < r, 2 ^ 52 ≤ r ∧ r < 2 ^ 53 ∧ (s = 0 → acc = .exact → r = m) ∧
      roundWithAccuracy Format.binary64 .positive m e acc = .finite .positive r (e + s) hr := by
  have hs : 0 < 2 ^ s := Nat.two_pow_pos s
  have hlog : m.log2 = 52 + s := by
    refine (Nat.log2_eq_iff ?_).mpr ⟨?_, ?_⟩
    · rintro rfl
      simp at hlo
    · rw [Nat.pow_add]
      exact (Nat.le_div_iff_mul_le hs).mp hlo
    · rw [show 52 + s + 1 = 53 + s by omega, Nat.pow_add]
      exact (Nat.div_lt_iff_lt_mul hs).mp (by omega)
  have hshift : shiftToTargetExponent Format.binary64 m e acc =
      (ExtendedMantissa.ofMantissaAndAccuracy m acc >>> s, e + s) := by
    have hamount : (Format.binary64.targetExponent (totalExponent m e) - e).toNat = s := by
      rw [targetExponent_binary64, totalExponent, hlog]
      omega
    simp only [shiftToTargetExponent, shiftToExponent, hamount]
  have hbounds := roundedMantissa_bounds (ExtendedMantissa.ofMantissaAndAccuracy m acc >>> s)
  rw [mantissa_shiftRight, mantissa_ofMantissaAndAccuracy] at hbounds
  have hexact : s = 0 → acc = .exact →
      (ExtendedMantissa.ofMantissaAndAccuracy m acc >>> s).roundedMantissa = m := by
    rintro rfl rfl
    rfl
  generalize hr : (ExtendedMantissa.ofMantissaAndAccuracy m acc >>> s).roundedMantissa = r at *
  have hrlog : r.log2 = 52 := (Nat.log2_eq_iff (by omega)).mpr ⟨by omega, by omega⟩
  have hshift' : shiftToTargetExponent Format.binary64 r (e + s) .exact =
      (ExtendedMantissa.mk r false false, e + s) := by
    have hamount : (Format.binary64.targetExponent (totalExponent r (e + s)) -
        (e + s)).toNat = 0 := by
      rw [targetExponent_binary64, totalExponent, hrlog]
      omega
    simp only [shiftToTargetExponent, shiftToExponent, hamount]
    simp only [Int.natCast_zero, Int.add_zero, Prod.mk.injEq, and_true]
    rfl
  have hp : 0 < r := by omega
  rw [← hr] at hshift'
  have hround : roundWithAccuracy Format.binary64 .positive m e acc = _ :=
    roundWithAccuracy_of_shifts hshift hshift' (hr ▸ hp)
  refine ⟨r, hp, by omega, by omega, hexact, ?_⟩
  rw [hround]
  exact finite_congr rfl hr rfl _ hp

theorem mantissa_bounds {n : Nat} (hn : 0 < n) (hn' : n < 2 ^ 32) :
    2 ^ 52 ≤ n <<< (52 - n.log2) ∧ n <<< (52 - n.log2) + 2 ^ 21 ≤ 2 ^ 53 ∧ n.log2 < 32 := by
  have hlog : n.log2 < 32 := (Nat.log2_lt (by omega)).mpr hn'
  obtain ⟨hlo, hhi⟩ := (Nat.log2_eq_iff (k := n.log2) (n := n) (by omega)).mp rfl
  rw [Nat.shiftLeft_eq]
  refine ⟨?_, ?_, hlog⟩
  · calc 2 ^ 52 = 2 ^ n.log2 * 2 ^ (52 - n.log2) := by rw [← Nat.pow_add]; congr 1; omega
      _ ≤ n * 2 ^ (52 - n.log2) := Nat.mul_le_mul_right _ hlo
  · calc n * 2 ^ (52 - n.log2) + 2 ^ 21
        ≤ n * 2 ^ (52 - n.log2) + 2 ^ (52 - n.log2) :=
          Nat.add_le_add_left (Nat.pow_le_pow_right (by decide) (by omega)) _
      _ = (n + 1) * 2 ^ (52 - n.log2) := by rw [Nat.add_mul, Nat.one_mul]
      _ ≤ 2 ^ (n.log2 + 1) * 2 ^ (52 - n.log2) := Nat.mul_le_mul_right _ hhi
      _ = 2 ^ 53 := by rw [← Nat.pow_add]; congr 1; omega

theorem unpack_toFloat {a : UInt32} (ha : 0 < a.toNat) :
    ∃ hp, a.toFloat.toModel.unpack =
      .finite .positive (a.toNat <<< (52 - a.toNat.log2)) ((a.toNat.log2 : Int) - 52) hp := by
  obtain ⟨hlo, hhi, hlog⟩ := mantissa_bounds ha a.toNat_lt
  have hgt : compare (a.toNat : Int) 0 = .gt := Int.compare_eq_gt.mpr (by omega)
  have hamount : (0 - Format.binary64.targetExponent (totalExponent a.toNat 0)).toNat =
      52 - a.toNat.log2 := by
    rw [targetExponent_binary64, totalExponent]
    omega
  have hexp : (0 : Int) - ((52 - a.toNat.log2 : Nat) : Int) = (a.toNat.log2 : Int) - 52 := by omega
  have hround : UnpackedFloat.ofNat Format.binary64 a.toNat =
      roundWithAccuracy Format.binary64 .positive (a.toNat <<< (52 - a.toNat.log2))
        ((a.toNat.log2 : Int) - 52) .exact := by
    simp only [UnpackedFloat.ofNat, UnpackedFloat.ofInt, UnpackedFloat.normalize, hgt,
      Int.toNat_natCast, UnpackedFloat.round, decreaseExponent, hamount, hexp]
  obtain ⟨r, hr, hr1, hr2, hexact, hcore⟩ := roundWithAccuracy_normal (s := 0)
    (m := a.toNat <<< (52 - a.toNat.log2)) (e := (a.toNat.log2 : Int) - 52) .exact
    (by omega) (by omega) (by omega)
  obtain rfl := hexact rfl rfl
  refine ⟨hr, ?_⟩
  show (Float.Model.pack (UnpackedFloat.ofNat Format.binary64 a.toNat)).unpack = _
  rw [hround, hcore, Int.natCast_zero, Int.add_zero]
  exact unpack_pack_normal hr hr1 hr2 (by omega) (by omega)

/-- The quotient of two 53-bit significands has 53 bits when the dividend is the
smaller one and 54 otherwise.  The gap of `2 ^ 21` between different significands
of 32-bit integers keeps the rounded quotient below the next power of two. -/
theorem quotient_bounds {m n : Nat} (hm : 2 ^ 52 ≤ m) (hm' : m + 2 ^ 21 ≤ 2 ^ 53)
    (hn : 2 ^ 52 ≤ n) (hn' : n + 2 ^ 21 ≤ 2 ^ 53) (hgap : m < n → m + 2 ^ 21 ≤ n) :
    2 ^ 52 ≤ (m <<< 53 / n) / 2 ^ (if m < n then 0 else 1) ∧
      (m <<< 53 / n) / 2 ^ (if m < n then 0 else 1) + 1 < 2 ^ 53 := by
  rw [Nat.shiftLeft_eq]
  have hpos : 0 < n := by omega
  by_cases h : m < n
  · have := hgap h
    simp only [h, if_true, Nat.pow_zero, Nat.div_one]
    constructor
    · rw [Nat.le_div_iff_mul_le hpos]
      omega
    · have : m * 2 ^ 53 / n < 2 ^ 53 - 1 := by
        rw [Nat.div_lt_iff_lt_mul hpos]
        omega
      omega
  · simp only [h, if_false, Nat.pow_one, Nat.div_div_eq_div_mul]
    constructor
    · rw [Nat.le_div_iff_mul_le (by omega)]
      omega
    · have : m * 2 ^ 53 / (n * 2) < 2 ^ 53 - 1 := by
        rw [Nat.div_lt_iff_lt_mul (by omega)]
        omega
      omega

theorem two_pow_dvd_mantissa {n : Nat} (hn : n.log2 < 32) : 2 ^ 21 ∣ n <<< (52 - n.log2) := by
  rw [Nat.shiftLeft_eq]
  exact Dvd.dvd.mul_left (Nat.pow_dvd_pow 2 (by omega)) n

theorem div_finite {m n : Nat} {e e' : Int} (hm : 0 < m) (hn : 0 < n) :
    UnpackedFloat.div Format.binary64 (.finite .positive m e hm) (.finite .positive n e' hn) =
      roundWithAccuracy Format.binary64 .positive (divCore Format.binary64 m e n e').1
        (divCore Format.binary64 m e n e').2.1 (divCore Format.binary64 m e n e').2.2 := rfl

theorem unpack_div {a b : UInt32} (ha : 0 < a.toNat) (hb : 0 < b.toNat) :
    ∃ r, ∃ hr : 0 < r, 2 ^ 52 ≤ r ∧ (a.toFloat / b.toFloat).toModel.unpack =
      .finite .positive r ((a.toNat.log2 : Int) - b.toNat.log2 - 53 +
        (if a.toNat <<< (52 - a.toNat.log2) < b.toNat <<< (52 - b.toNat.log2) then 0
          else 1 : Nat)) hr := by
  obtain ⟨hpa, hua⟩ := unpack_toFloat ha
  obtain ⟨hpb, hub⟩ := unpack_toFloat hb
  obtain ⟨ha1, ha2, ha3⟩ := mantissa_bounds ha a.toNat_lt
  obtain ⟨hb1, hb2, hb3⟩ := mantissa_bounds hb b.toNat_lt
  have hgap : a.toNat <<< (52 - a.toNat.log2) < b.toNat <<< (52 - b.toNat.log2) →
      a.toNat <<< (52 - a.toNat.log2) + 2 ^ 21 ≤ b.toNat <<< (52 - b.toNat.log2) := by
    have hda := two_pow_dvd_mantissa ha3
    have hdb := two_pow_dvd_mantissa hb3
    omega
  obtain ⟨hq1, hq2⟩ := quotient_bounds ha1 ha2 hb1 hb2 hgap
  have halog : (a.toNat <<< (52 - a.toNat.log2)).log2 = 52 :=
    (Nat.log2_eq_iff (by omega)).mpr ⟨ha1, by omega⟩
  have hblog : (b.toNat <<< (52 - b.toNat.log2)).log2 = 52 :=
    (Nat.log2_eq_iff (by omega)).mpr ⟨hb1, by omega⟩
  generalize a.toNat <<< (52 - a.toNat.log2) = m at *
  generalize b.toNat <<< (52 - b.toNat.log2) = n at *
  have htarget : min ((a.toNat.log2 : Int) - 52 - ((b.toNat.log2 : Int) - 52))
      (Format.binary64.targetExponent (totalExponent m ((a.toNat.log2 : Int) - 52) -
        totalExponent n ((b.toNat.log2 : Int) - 52))) =
      (a.toNat.log2 : Int) - b.toNat.log2 - 53 := by
    rw [targetExponent_binary64, totalExponent, totalExponent, halog, hblog]
    omega
  have hshift : ((a.toNat.log2 : Int) - 52 - ((b.toNat.log2 : Int) - 52) -
      ((a.toNat.log2 : Int) - b.toNat.log2 - 53)).toNat = 53 := by omega
  obtain ⟨r, hr, hr1, hr2, -, hcore⟩ := roundWithAccuracy_normal
    (e := (a.toNat.log2 : Int) - b.toNat.log2 - 53)
    (accuracyOfFraction (m <<< 53 % n) n) hq1 hq2 (by split <;> omega)
  refine ⟨r, hr, hr1, ?_⟩
  show (Float.Model.pack (UnpackedFloat.div Format.binary64 a.toFloat.toModel.unpack
    b.toFloat.toModel.unpack)).unpack = _
  have hdiv : divCore Format.binary64 m ((a.toNat.log2 : Int) - 52) n ((b.toNat.log2 : Int) - 52) =
      (m <<< 53 / n, (a.toNat.log2 : Int) - b.toNat.log2 - 53,
        accuracyOfFraction (m <<< 53 % n) n) := by
    simp only [divCore, htarget, hshift]
  rw [hua, hub, div_finite, hdiv, hcore]
  exact unpack_pack_normal hr hr1 hr2 (by split <;> omega) (by split <;> omega)

theorem unpack_half : (0.5 : Float).toModel.unpack =
    .finite .positive (2 ^ 52) (-53) (by decide) := by
  have hpack : (0.5 : Float).toModel =
      Float.Model.pack (.finite .positive (2 ^ 52) (-53) (by decide)) := by decide +kernel
  rw [hpack]
  exact unpack_pack_normal (by decide) (by decide) (by decide) (by decide) (by decide)

theorem le_iff_unpack_le (x y : Float) : x ≤ y ↔ x.toModel.unpack.le y.toModel.unpack = true := by
  show decide (x.toModel ≤ y.toModel) = true ↔ _
  exact decide_eq_true_iff

theorem half_le_iff {x : Float} {r : Nat} {e : Int} {hr : 0 < r}
    (hx : x.toModel.unpack = .finite .positive r e hr) (hr' : 2 ^ 52 ≤ r) :
    0.5 ≤ x ↔ -53 ≤ e := by
  rw [le_iff_unpack_le, unpack_half, hx]
  show ((compare (-53) e).then (compare (2 ^ 52) r)).isLE = true ↔ -53 ≤ e
  rcases lt_trichotomy (-53) e with h | rfl | h
  · simp [compare_lt_iff_lt.mpr h, h.le]
  · have : compare (2 ^ 52) r ≠ .gt := by
      intro h
      have := compare_gt_iff_gt.mp h
      omega
    revert this
    cases compare (2 ^ 52) r <;> simp
  · simp [compare_gt_iff_gt.mpr h, h]

theorem log2_le_iff {a b : Nat} (ha : 0 < a) (hb : 0 < b) (ha' : a.log2 < 32) (hb' : b.log2 < 32) :
    b ≤ 2 * a ↔ -53 ≤ (a.log2 : Int) - b.log2 - 53 +
      (if a <<< (52 - a.log2) < b <<< (52 - b.log2) then 0 else 1 : Nat) := by
  obtain ⟨ha1, ha2⟩ := (Nat.log2_eq_iff (k := a.log2) (n := a) (by omega)).mp rfl
  obtain ⟨hb1, hb2⟩ := (Nat.log2_eq_iff (k := b.log2) (n := b) (by omega)).mp rfl
  rw [Nat.shiftLeft_eq, Nat.shiftLeft_eq]
  rcases lt_trichotomy (b.log2) (a.log2 + 1) with h | h | h
  · have hpow : 2 ^ (b.log2 + 1) ≤ 2 ^ (a.log2 + 1) := Nat.pow_le_pow_right (by decide) (by omega)
    rw [Nat.pow_succ 2 a.log2] at hpow
    constructor
    · intro _; split <;> omega
    · intro _; omega
  · have hmul : a * 2 ^ (52 - a.log2) = 2 * a * 2 ^ (52 - b.log2) := by
      rw [h, show 52 - a.log2 = 52 - (a.log2 + 1) + 1 by omega, Nat.pow_succ]
      ring
    have hlt : a * 2 ^ (52 - a.log2) < b * 2 ^ (52 - b.log2) ↔ 2 * a < b := by
      rw [hmul]
      exact Nat.mul_lt_mul_right (Nat.two_pow_pos _)
    simp only [hlt]
    split <;> omega
  · have hpow : 2 ^ (a.log2 + 1 + 1) ≤ 2 ^ b.log2 := Nat.pow_le_pow_right (by decide) (by omega)
    rw [Nat.pow_succ] at hpow
    constructor
    · intro _; omega
    · split <;> omega

theorem half_le_div_iff (a b : UInt32) (hb : 0 < b.toNat) :
    0.5 ≤ a.toFloat / b.toFloat ↔ b.toNat ≤ 2 * a.toNat := by
  obtain ha | ha := Nat.eq_zero_or_pos a.toNat
  · have hzero : a = 0 := by
      apply UInt32.toNat_inj.mp
      simpa using ha
    subst hzero
    obtain ⟨hpb, hub⟩ := unpack_toFloat hb
    have h0 : ¬ (0.5 : Float) ≤ (0 : UInt32).toFloat / b.toFloat := by
      have hdiv : ((0 : UInt32).toFloat / b.toFloat).toModel =
          Float.Model.pack (.zero .positive) := by
        show Float.Model.pack (UnpackedFloat.div Format.binary64 _ b.toFloat.toModel.unpack) = _
        rw [hub]
        rfl
      rw [le_iff_unpack_le, unpack_half, hdiv]
      decide +kernel
    simp [h0]
    omega
  · obtain ⟨r, hr, hr1, hu⟩ := unpack_div ha hb
    rw [half_le_iff hu hr1]
    exact (log2_le_iff ha hb (mantissa_bounds ha a.toNat_lt).2.2
      (mantissa_bounds hb b.toNat_lt).2.2).symm

end Binary64
end Lib
end Kademlia
