import Mathlib.Data.Nat.Basic
import Kademlia.Lib.Binary64
import Kademlia.NodeId

/-!
# Contacts

The record a node keeps about a peer: its identifier and address, the time it was
last seen, and its response statistics.  Counters are 32-bit and saturate, and the
success rate is a binary64 quotient whose `u32` sum overflows as the build profile
says.
-/

namespace Kademlia

/-! ## Errors and panics -/

inductive Error where
  | io
  | serialization
  | bincode
  | nodeNotFound
  | valueNotFound
  | network (message : String)
  | timeout
  | invalidNodeId
  | other (message : String)
deriving DecidableEq

/-- The ways a call can end without a value: a returned `Err`, a panic, or a
recursion that has not ended within the fuel it was given. -/
inductive Fault where
  | err (error : Error)
  | panic (message : String)
  | outOfFuel
deriving DecidableEq

abbrev Outcome (α : Type) : Type := Except Fault α

theorem Outcome.map_eq_error_iff {α β : Type} {f : α → β} {result : Outcome α} {fault : Fault} :
    result.map f = .error fault ↔ result = .error fault := by
  cases result with
  | error fault' => rw [Except.map, Except.error.injEq, Except.error.injEq]
  | ok value => exact ⟨fun h => (nomatch h), fun h => nomatch h⟩

/-! ## Time and build profile -/

/-- A `std::time::Duration` in nanoseconds. -/
abbrev Duration : Type := Nat

def Duration.fromSecs (secs : Nat) : Duration := secs * 1000000000

def Duration.fromMillis (millis : Nat) : Duration := millis * 1000000

def Duration.asMillis (duration : Duration) : Nat := duration / 1000000

/-- What a routing-table operation reads from its surroundings.  `checkedAt` is the
clock reading of `is_active` and `stampedAt` the later one of `update_last_seen`,
both in seconds since the epoch.  `overflowChecks` says whether the build panics on
integer overflow or wraps. -/
structure Env where
  overflowChecks : Bool
  checkedAt : Nat
  stampedAt : Nat
  ordered : checkedAt ≤ stampedAt
deriving DecidableEq

/-- A call at one instant in a build that checks for overflow. -/
def Env.at (secs : Nat) : Env :=
  { overflowChecks := true, checkedAt := secs, stampedAt := secs, ordered := Nat.le_refl secs }

/-- Addition of `u32` values under the build profile. -/
def addU32 (env : Env) (a b : UInt32) : Outcome UInt32 :=
  if env.overflowChecks ∧ 2 ^ 32 ≤ a.toNat + b.toNat then
    .error (.panic "attempt to add with overflow")
  else .ok (a + b)

/-- Addition of `u64` values under the build profile. -/
def addU64 (env : Env) (a b : UInt64) : Outcome UInt64 :=
  if env.overflowChecks ∧ 2 ^ 64 ≤ a.toNat + b.toNat then
    .error (.panic "attempt to add with overflow")
  else .ok (a + b)

/-- `u32::saturating_add`. -/
def saturatingAdd (a b : UInt32) : UInt32 :=
  if a.toNat + b.toNat < 2 ^ 32 then a + b else UInt32.ofNat (2 ^ 32 - 1)

/-! ## Response statistics -/

structure ResponseStats where
  successes : UInt32
  failures : UInt32
  avgResponseTimeMs : Option UInt64
deriving DecidableEq

namespace ResponseStats

def default : ResponseStats :=
  { successes := 0, failures := 0, avgResponseTimeMs := none }

def successRate (stats : ResponseStats) (env : Env) : Outcome Float :=
  match addU32 env stats.successes stats.failures with
  | .error fault => .error fault
  | .ok total =>
    -- New nodes get the benefit of the doubt.
    if total = 0 then .ok 1.0
    else .ok (stats.successes.toFloat / total.toFloat)

def isReliable (stats : ResponseStats) (env : Env) (threshold : Float) : Outcome Bool :=
  match stats.successRate env with
  | .error fault => .error fault
  | .ok rate => .ok (decide (threshold ≤ rate))

def recordSuccess (stats : ResponseStats) : ResponseStats :=
  { stats with successes := saturatingAdd stats.successes 1 }

def recordFailure (stats : ResponseStats) : ResponseStats :=
  { stats with failures := saturatingAdd stats.failures 1 }

/-- The exponential moving average with weight `0.2` on the new observation.  The
conversion back to `u64` truncates and saturates. -/
def recordResponseTime (stats : ResponseStats) (responseTimeMs : UInt64) : ResponseStats :=
  match stats.avgResponseTimeMs with
  | none => { stats with avgResponseTimeMs := some responseTimeMs }
  | some avg =>
    let alpha : Float := 0.2
    let newAvg := alpha * responseTimeMs.toFloat + (1.0 - alpha) * avg.toFloat
    { stats with avgResponseTimeMs := some newAvg.toUInt64 }

/-- The timeout for a request to a contact with these statistics, at most thirty seconds. -/
def adaptiveTimeout (stats : ResponseStats) (env : Env) (multiplier : Float)
    (baseTimeout : Duration) : Outcome Duration :=
  match stats.avgResponseTimeMs with
  | none => .ok baseTimeout
  | some avgMs =>
    let adaptiveMs := (avgMs.toFloat * multiplier).toUInt64
    match addU64 env adaptiveMs (UInt64.ofNat baseTimeout.asMillis) with
    | .error fault => .error fault
    | .ok totalMs => .ok (.fromMillis (min totalMs.toNat 30000))

/-- The sum of the two counters fits in 32 bits. -/
def Fits (stats : ResponseStats) : Prop :=
  stats.successes.toNat + stats.failures.toNat < 2 ^ 32

instance (stats : ResponseStats) : Decidable stats.Fits :=
  inferInstanceAs (Decidable (stats.successes.toNat + stats.failures.toNat < 2 ^ 32))

end ResponseStats

/-! ## Contacts -/

inductive LastSeen where
  | never
  | at (secs : Nat)
deriving DecidableEq

inductive SocketAddr where
  | v4 (ip : BitVec 32) (port : UInt16)
  | v6 (ip : BitVec 128) (port : UInt16) (flowinfo scopeId : UInt32)
deriving DecidableEq

structure Node where
  id : NodeId
  addr : SocketAddr
  lastSeen : LastSeen
  responseStats : ResponseStats
deriving DecidableEq

namespace Node

def new (id : NodeId) (addr : SocketAddr) : Node :=
  { id := id, addr := addr, lastSeen := .never, responseStats := ResponseStats.default }

/-- A contact on the local host whose identifier starts with `byte`, for concrete runs. -/
def ofByte (byte : UInt8) : Node :=
  new (NodeId.fromBytes [byte]) (.v4 0x7f000001#32 8000)

def updateLastSeen (node : Node) (env : Env) : Node :=
  { node with lastSeen := .at env.stampedAt }

def isActive (node : Node) (env : Env) (timeout : Duration) : Bool :=
  match node.lastSeen with
  | .never => false
  | .at lastSeenTime =>
    -- A clock that went backwards counts as activity.
    if env.checkedAt < lastSeenTime then true
    else decide (Duration.fromSecs (env.checkedAt - lastSeenTime) ≤ timeout)

@[simp] theorem updateLastSeen_id (node : Node) (env : Env) :
    (node.updateLastSeen env).id = node.id := rfl

/-- With stamps no later than the reading, being active is having been seen within
the timeout. -/
theorem isActive_fromSecs_iff {node : Node} {env : Env} {seen secs : Nat}
    (h : node.lastSeen = .at seen) (hle : seen ≤ env.checkedAt) :
    node.isActive env (Duration.fromSecs secs) = true ↔ env.checkedAt ≤ seen + secs := by
  have hmul : (env.checkedAt - seen) * 1000000000 ≤ secs * 1000000000 ↔
      env.checkedAt ≤ seen + secs := by omega
  rw [isActive, h]
  simp only [Nat.not_lt.mpr hle, if_false]
  exact decide_eq_true_iff.trans hmul

end Node

namespace ResponseStats

/-- The reliability test fails only by the overflow panic. -/
theorem isReliable_eq_error {stats : ResponseStats} {env : Env} {threshold : Float} {fault : Fault}
    (h : stats.isReliable env threshold = .error fault) :
    fault = .panic "attempt to add with overflow" := by
  rw [isReliable, successRate, addU32] at h
  split_ifs at h
  · exact (Except.error.inj h).symm
  · simp only at h
    split_ifs at h

/-- Without overflow, the test against one half compares the two counters. -/
theorem isReliable_half {stats : ResponseStats} {env : Env} (h : stats.Fits) :
    stats.isReliable env 0.5 = .ok (decide (stats.failures ≤ stats.successes)) := by
  have hadd : addU32 env stats.successes stats.failures =
      .ok (stats.successes + stats.failures) := if_neg (by rw [Fits] at h; omega)
  have hsum : (stats.successes + stats.failures).toNat =
      stats.successes.toNat + stats.failures.toNat := by
    rw [UInt32.toNat_add]
    exact Nat.mod_eq_of_lt h
  have hle : stats.failures ≤ stats.successes ↔
      stats.failures.toNat ≤ stats.successes.toNat := UInt32.le_iff_toNat_le
  rw [isReliable, successRate, hadd]
  by_cases hz : stats.successes + stats.failures = 0
  · have hone : (0.5 : Float) ≤ 1.0 := by decide +kernel
    have hzero : stats.successes.toNat + stats.failures.toNat = 0 := by
      rw [← hsum, hz]
      rfl
    simp only [hz, if_true, hone, hle, Except.ok.injEq]
    simp
    omega
  · have hpos : 0 < (stats.successes + stats.failures).toNat := by
      rcases Nat.eq_zero_or_pos (stats.successes + stats.failures).toNat with h0 | h0
      · exact absurd (UInt32.toNat_inj.mp h0) hz
      · exact h0
    simp only [hz, if_false, Except.ok.injEq, decide_eq_decide]
    rw [Lib.Binary64.half_le_div_iff _ _ hpos, hsum, hle]
    omega

end ResponseStats

end Kademlia
