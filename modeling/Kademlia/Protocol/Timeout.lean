import Kademlia.Node

/-!
# Adaptive timeouts

A request waits three times the average response time of the contact and five seconds more,
and thirty seconds at most.  The cap comes after the addition, which is not checked: an average
close to the greatest one overflows it, and a peer sends the average in its own record.

The product is taken as exact here, and is converted by a saturating truncation as in the
source.
-/

namespace Kademlia

namespace ResponseStats

/-- The default timeout of the requests. -/
def baseTimeout : Duration := Duration.fromSecs 5

/-- The end of `adaptive_timeout`, from where the product is known. -/
def timeoutAfter (env : Env) (adaptiveMs : UInt64) (baseTimeout : Duration) : Outcome Duration :=
  match addU64 env adaptiveMs (UInt64.ofNat baseTimeout.asMillis) with
  | .error fault => .error fault
  | .ok totalMs => .ok (.fromMillis (min totalMs.toNat 30000))

theorem adaptiveTimeout_eq (stats : ResponseStats) (env : Env) (multiplier : Float)
    (baseTimeout : Duration) :
    stats.adaptiveTimeout env multiplier baseTimeout =
      match stats.avgResponseTimeMs with
      | none => .ok baseTimeout
      | some avgMs => timeoutAfter env (avgMs.toFloat * multiplier).toUInt64 baseTimeout :=
  rfl

/-- The saturating truncation of an exact product. -/
def exactProduct (avgMs : UInt64) (multiplier : Nat) : UInt64 :=
  UInt64.ofNat (min (avgMs.toNat * multiplier) (2 ^ 64 - 1))

/-- `adaptive_timeout` with an exact product. -/
def exactTimeout (stats : ResponseStats) (env : Env) (multiplier : Nat)
    (baseTimeout : Duration) : Outcome Duration :=
  match stats.avgResponseTimeMs with
  | none => .ok baseTimeout
  | some avgMs => timeoutAfter env (exactProduct avgMs multiplier) baseTimeout

/-- Where the product of the source is the exact one, so is the timeout. -/
theorem adaptiveTimeout_eq_exactTimeout {stats : ResponseStats} {multiplier : Float} {factor : Nat}
    (h : ∀ avgMs, stats.avgResponseTimeMs = some avgMs →
      (avgMs.toFloat * multiplier).toUInt64 = exactProduct avgMs factor)
    (env : Env) (baseTimeout : Duration) :
    stats.adaptiveTimeout env multiplier baseTimeout =
      stats.exactTimeout env factor baseTimeout := by
  rw [adaptiveTimeout_eq, exactTimeout]
  cases havg : stats.avgResponseTimeMs with
  | none => rfl
  | some avgMs => exact congrArg (fun ms => timeoutAfter env ms baseTimeout) (h avgMs havg)

/-- The sum of the milliseconds does not overflow. -/
def SumFits (stats : ResponseStats) : Prop :=
  ∀ avgMs, stats.avgResponseTimeMs = some avgMs →
    (exactProduct avgMs 3).toNat + baseTimeout.asMillis < 2 ^ 64

/-- The timeout of a request is one between five and thirty seconds. -/
def InRange (env : Env) (stats : ResponseStats) : Prop :=
  ∃ timeout, stats.exactTimeout env 3 baseTimeout = .ok timeout ∧
    Duration.fromSecs 5 ≤ timeout ∧ timeout ≤ Duration.fromSecs 30

/-- The contact has a timeout, and a contact with no greater an average has one that is no
longer. -/
def Monotone (env : Env) (stats : ResponseStats) : Prop :=
  ∀ avgMs, stats.avgResponseTimeMs = some avgMs →
    ∀ (lower : ResponseStats) (lowerMs : UInt64), lower.avgResponseTimeMs = some lowerMs →
      lowerMs ≤ avgMs →
        ∃ timeout lowerTimeout, stats.exactTimeout env 3 baseTimeout = .ok timeout ∧
          lower.exactTimeout env 3 baseTimeout = .ok lowerTimeout ∧ lowerTimeout ≤ timeout

/-- The condition under which the sum is computed as it is meant. -/
def Moderate (stats : ResponseStats) : Prop :=
  ∀ avgMs, stats.avgResponseTimeMs = some avgMs → avgMs.toNat * 3 + 5000 < 2 ^ 64

theorem toNat_exactProduct (avgMs : UInt64) (multiplier : Nat) :
    (exactProduct avgMs multiplier).toNat = min (avgMs.toNat * multiplier) (2 ^ 64 - 1) := by
  rw [exactProduct, UInt64.toNat_ofNat']
  exact Nat.mod_eq_of_lt (by omega)

theorem sumFits_iff {stats : ResponseStats} : SumFits stats ↔ Moderate stats := by
  have hbase : baseTimeout.asMillis = 5000 := by decide
  refine forall_congr' fun avgMs => imp_congr_right fun _ => ?_
  rw [toNat_exactProduct, hbase]
  omega

theorem exactTimeout_of_moderate {stats : ResponseStats} {avgMs : UInt64} (env : Env)
    (havg : stats.avgResponseTimeMs = some avgMs) (h : avgMs.toNat * 3 + 5000 < 2 ^ 64) :
    stats.exactTimeout env 3 baseTimeout =
      .ok (.fromMillis (min (avgMs.toNat * 3 + 5000) 30000)) := by
  have hbase : (UInt64.ofNat baseTimeout.asMillis).toNat = 5000 := by decide
  have hproduct : (exactProduct avgMs 3).toNat = avgMs.toNat * 3 := by
    rw [toNat_exactProduct]
    omega
  have hadd : addU64 env (exactProduct avgMs 3) (UInt64.ofNat baseTimeout.asMillis) =
      .ok (exactProduct avgMs 3 + UInt64.ofNat baseTimeout.asMillis) := by
    apply if_neg
    omega
  have htotal : (exactProduct avgMs 3 + UInt64.ofNat baseTimeout.asMillis).toNat =
      avgMs.toNat * 3 + 5000 := by
    rw [UInt64.toNat_add, hproduct, hbase]
    exact Nat.mod_eq_of_lt h
  simp only [exactTimeout, havg, timeoutAfter, hadd, htotal]

theorem addU64_eq_ok {env : Env} {a b total : UInt64} (h : addU64 env a b = .ok total) :
    total = a + b := by
  unfold addU64 at h
  split at h
  · exact absurd h (by simp)
  · exact (Except.ok.inj h).symm

theorem exactTimeout_eq_ok {env : Env} {stats : ResponseStats} {avgMs : UInt64}
    {timeout : Duration} (havg : stats.avgResponseTimeMs = some avgMs)
    (h : stats.exactTimeout env 3 baseTimeout = .ok timeout) :
    ∃ totalMs, addU64 env (exactProduct avgMs 3) (UInt64.ofNat baseTimeout.asMillis) =
      .ok totalMs ∧ timeout = .fromMillis (min totalMs.toNat 30000) := by
  simp only [exactTimeout, havg, timeoutAfter] at h
  split at h
  · exact absurd h (by simp)
  · exact ⟨_, by assumption, (Except.ok.inj h).symm⟩

/-- Where the sum overflows, a build that does not check for it is left with less than the
five seconds. -/
theorem not_inRange_of_overflow {stats : ResponseStats} {avgMs : UInt64} (env : Env)
    (havg : stats.avgResponseTimeMs = some avgMs) (h : ¬ avgMs.toNat * 3 + 5000 < 2 ^ 64) :
    ¬ InRange env stats := by
  have hbase : (UInt64.ofNat baseTimeout.asMillis).toNat = 5000 := by decide
  have hover : 2 ^ 64 ≤ (exactProduct avgMs 3).toNat + 5000 := by
    rw [toNat_exactProduct]
    omega
  have htotal : (exactProduct avgMs 3 + UInt64.ofNat baseTimeout.asMillis).toNat < 5000 := by
    have hlt := (exactProduct avgMs 3).toNat_lt
    rw [UInt64.toNat_add, hbase]
    omega
  rintro ⟨timeout, htimeout, hle, -⟩
  obtain ⟨totalMs, hadd, rfl⟩ := exactTimeout_eq_ok havg htimeout
  rw [addU64_eq_ok hadd] at hle
  have hle : 5 * 1000000000 ≤
      min (exactProduct avgMs 3 + UInt64.ofNat baseTimeout.asMillis).toNat 30000 * 1000000 := hle
  omega

theorem inRange_iff {env : Env} {stats : ResponseStats} : InRange env stats ↔ Moderate stats := by
  constructor
  · intro hrange avgMs havg
    by_contra hoverflow
    exact not_inRange_of_overflow env havg hoverflow hrange
  · intro hmoderate
    cases havg : stats.avgResponseTimeMs with
    | none =>
      exact ⟨baseTimeout, by simp only [exactTimeout, havg], by decide, by decide⟩
    | some avgMs =>
      refine ⟨_, exactTimeout_of_moderate env havg (hmoderate avgMs havg), ?_, ?_⟩
      · show 5 * 1000000000 ≤ min (avgMs.toNat * 3 + 5000) 30000 * 1000000
        omega
      · show min (avgMs.toNat * 3 + 5000) 30000 * 1000000 ≤ 30 * 1000000000
        omega

theorem monotone_of_moderate {stats : ResponseStats} (env : Env) (h : Moderate stats) :
    Monotone env stats := by
  intro avgMs havg lower lowerMs hlower hle
  have hmoderate := h avgMs havg
  have hle' : lowerMs.toNat ≤ avgMs.toNat := UInt64.le_iff_toNat_le.mp hle
  refine ⟨_, _, exactTimeout_of_moderate env havg hmoderate,
    exactTimeout_of_moderate env hlower (by omega), ?_⟩
  show min (lowerMs.toNat * 3 + 5000) 30000 * 1000000 ≤
    min (avgMs.toNat * 3 + 5000) 30000 * 1000000
  omega

/-- For all statistics and in every build, the sum fits, the timeout is in the range and no
shorter than that of any smaller average if and only if the contact has no average or one whose
triple and the five seconds fit in 64 bits.  The range alone needs the same. -/
theorem adaptive_timeout_iff (env : Env) (stats : ResponseStats) :
    (SumFits stats ∧ InRange env stats ∧ Monotone env stats ↔ Moderate stats) ∧
    (InRange env stats ↔ Moderate stats) := by
  refine ⟨?_, inRange_iff⟩
  rw [sumFits_iff, inRange_iff]
  exact ⟨fun h => h.1, fun h => ⟨h, h, monotone_of_moderate env h⟩⟩

/-- The greatest average, in a build that does not check for overflow. -/
theorem greatest_average_shortens_timeout :
    ¬ ∀ (env : Env) (stats : ResponseStats),
      SumFits stats ∧ InRange env stats ∧ Monotone env stats := by
  intro h
  obtain ⟨-, ⟨timeout, htimeout, hle, -⟩, -⟩ :=
    h { Env.at 0 with overflowChecks := false }
      { successes := 0, failures := 0, avgResponseTimeMs := some 18446744073709551615 }
  have hshort : (Except.ok timeout : Outcome Duration) = .ok (.fromMillis 4999) :=
    htimeout.symm.trans (by decide +kernel)
  rw [Except.ok.inj hshort] at hle
  revert hle
  decide

end ResponseStats

end Kademlia
