import Mathlib.Data.List.Induction
import Kademlia.Lib.Run
import Kademlia.Routing.KBucket

/-!
# The reliability test on all statistics

The counters of a contact saturate one by one, and `success_rate` adds them without a check.
A peer chooses the counters of its own record, and `record_success` and `record_failure` go on
from there, so every pair of counters occurs.

The sum is exact as long as it fits in 32 bits.  Beyond that a build that checks for overflow
panics, and one that does not takes every contact for reliable.
-/

namespace Kademlia

open Lib

namespace ResponseStats

inductive Recorded where
  | success
  | failure
deriving DecidableEq

def record (stats : ResponseStats) : Recorded → ResponseStats
  | .success => stats.recordSuccess
  | .failure => stats.recordFailure

/-- `success_rate` gets the sum of the counters. -/
def AddsExactly (env : Env) (stats : ResponseStats) : Prop :=
  ∃ total, addU32 env stats.successes stats.failures = .ok total ∧
    total.toNat = stats.successes.toNat + stats.failures.toNat

/-- The test against `MIN_SUCCESS_RATE` compares the counters. -/
def Compares (env : Env) (stats : ResponseStats) : Prop :=
  stats.isReliable env minSuccessRate = .ok (decide (stats.failures ≤ stats.successes))

/-! ## Saturated counters -/

theorem toNat_saturatingAdd (a b : UInt32) :
    (saturatingAdd a b).toNat = min (a.toNat + b.toNat) (2 ^ 32 - 1) := by
  unfold saturatingAdd
  split_ifs with h
  · rw [UInt32.toNat_add, Nat.mod_eq_of_lt h]
    omega
  · have hmax : (UInt32.ofNat (2 ^ 32 - 1)).toNat = 2 ^ 32 - 1 := rfl
    rw [hmax]
    omega

/-- A counter that one kind of call counts, after some calls. -/
theorem counter_run {counter : ResponseStats → UInt32} {kind : Recorded}
    (hcounter : ∀ stats call, counter (record stats call) =
      if call = kind then saturatingAdd (counter stats) 1 else counter stats)
    (received : ResponseStats) (calls : List Recorded) :
    (counter (run record received calls)).toNat =
      min ((counter received).toNat + calls.count kind) (2 ^ 32 - 1) := by
  induction calls using List.reverseRecOn with
  | nil =>
    have hlt := (counter received).toNat_lt
    rw [run_nil, List.count_nil]
    omega
  | append_singleton calls call ih =>
    rw [run_concat, hcounter, List.count_append]
    split_ifs with hcall
    · subst hcall
      rw [toNat_saturatingAdd, ih]
      simp only [List.count_singleton_self, UInt32.toNat_one]
      omega
    · rw [ih, List.count_singleton, if_neg (by simpa using hcall), Nat.add_zero]

theorem successes_run (received : ResponseStats) (calls : List Recorded) :
    (run record received calls).successes.toNat =
      min (received.successes.toNat + calls.count .success) (2 ^ 32 - 1) := by
  apply counter_run
  intro stats call
  cases call <;> rfl

theorem failures_run (received : ResponseStats) (calls : List Recorded) :
    (run record received calls).failures.toNat =
      min (received.failures.toNat + calls.count .failure) (2 ^ 32 - 1) := by
  apply counter_run
  intro stats call
  cases call <;> rfl

theorem fits_run_iff {received : ResponseStats} {calls : List Recorded} :
    (run record received calls).Fits ↔
      min (received.successes.toNat + calls.count .success) (2 ^ 32 - 1) +
        min (received.failures.toNat + calls.count .failure) (2 ^ 32 - 1) < 2 ^ 32 := by
  rw [Fits, successes_run, failures_run]

/-! ## The test -/

theorem addsExactly_iff {env : Env} {stats : ResponseStats} :
    AddsExactly env stats ↔ stats.Fits := by
  constructor
  · rintro ⟨total, -, htotal⟩
    rw [Fits, ← htotal]
    exact total.toNat_lt
  · intro h
    refine ⟨stats.successes + stats.failures, if_neg ?_, ?_⟩
    · rw [Fits] at h
      omega
    · rw [UInt32.toNat_add]
      exact Nat.mod_eq_of_lt h

/-- A build that checks for overflow panics on the sum. -/
theorem isReliable_of_overflow_checked {env : Env} {stats : ResponseStats} (h : ¬ stats.Fits)
    (henv : env.overflowChecks = true) (threshold : Float) :
    stats.isReliable env threshold = .error (.panic "attempt to add with overflow") := by
  have hadd : addU32 env stats.successes stats.failures =
      .error (.panic "attempt to add with overflow") := if_pos ⟨henv, Nat.not_lt.mp h⟩
  rw [isReliable, successRate, hadd]

/-- The wrapped sum is smaller than the number of successes, which gives a rate above one. -/
theorem isReliable_of_overflow_wrapped {env : Env} {stats : ResponseStats} (h : ¬ stats.Fits)
    (henv : env.overflowChecks = false) : stats.isReliable env minSuccessRate = .ok true := by
  have hadd : addU32 env stats.successes stats.failures =
      .ok (stats.successes + stats.failures) := if_neg (by simp [henv])
  have hfailures := stats.failures.toNat_lt
  have hsum : (stats.successes + stats.failures).toNat ≤ 2 * stats.successes.toNat := by
    rw [UInt32.toNat_add]
    unfold Fits at h
    omega
  rw [isReliable, successRate, hadd]
  by_cases hz : stats.successes + stats.failures = 0
  · have hone : minSuccessRate ≤ 1.0 := by decide +kernel
    simp only [hz, if_true, hone, decide_true]
  · have hpos : 0 < (stats.successes + stats.failures).toNat :=
      Nat.pos_of_ne_zero fun h0 => hz (UInt32.toNat_inj.mp h0)
    have hrate : minSuccessRate ≤
        stats.successes.toFloat / (stats.successes + stats.failures).toFloat :=
      (Binary64.half_le_div_iff _ _ hpos).mpr hsum
    simp only [hz, if_false, hrate, decide_true]

theorem compares_iff {env : Env} {stats : ResponseStats} :
    Compares env stats ↔
      stats.Fits ∨ env.overflowChecks = false ∧ stats.failures ≤ stats.successes := by
  unfold Compares
  by_cases hfits : stats.Fits
  · exact iff_of_true (isReliable_half hfits) (.inl hfits)
  · cases henv : env.overflowChecks with
    | true =>
      rw [isReliable_of_overflow_checked hfits henv]
      simp [hfits]
    | false =>
      rw [isReliable_of_overflow_wrapped hfits henv]
      simp [hfits]

/-- For all statistics that a contact gets from a message and from any number of recorded
outcomes, the sum of the counters is exact and the test compares them if and only if the
saturated counters add up to less than `2 ^ 32`.  The comparison alone is right beyond that
only where an overflow is not checked, for contacts with no more failures than successes. -/
theorem reliability_iff (env : Env) (received : ResponseStats) (calls : List Recorded) :
    (AddsExactly env (run record received calls) ∧ Compares env (run record received calls) ↔
      min (received.successes.toNat + calls.count .success) (2 ^ 32 - 1) +
        min (received.failures.toNat + calls.count .failure) (2 ^ 32 - 1) < 2 ^ 32) ∧
    (Compares env (run record received calls) ↔
      min (received.successes.toNat + calls.count .success) (2 ^ 32 - 1) +
        min (received.failures.toNat + calls.count .failure) (2 ^ 32 - 1) < 2 ^ 32 ∨
      env.overflowChecks = false ∧
        min (received.failures.toNat + calls.count .failure) (2 ^ 32 - 1) ≤
          min (received.successes.toNat + calls.count .success) (2 ^ 32 - 1)) := by
  rw [← fits_run_iff, ← successes_run, ← failures_run, ← UInt32.le_iff_toNat_le]
  refine ⟨?_, compares_iff⟩
  rw [addsExactly_iff, compares_iff]
  exact and_iff_left_of_imp .inl

/-- A contact that has sent a record with one success and the greatest number of failures. -/
theorem received_counters_overflow :
    ¬ ∀ (env : Env) (received : ResponseStats) (calls : List Recorded),
      AddsExactly env (run record received calls) ∧ Compares env (run record received calls) := by
  intro h
  obtain ⟨-, hcompares⟩ := h (.at 0)
    { successes := 1, failures := 4294967295, avgResponseTimeMs := none } []
  revert hcompares
  unfold Compares
  decide +kernel

end ResponseStats

end Kademlia
