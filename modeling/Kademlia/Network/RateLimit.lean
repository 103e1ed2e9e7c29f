import Mathlib.Data.List.AList
import Kademlia.Lib.WindowCounter
import Kademlia.Storage.Memory

/-!
# Rate limiting of requests

The UDP transport keeps a counter for each address that requests come from, and drops the
requests of an address that are above the limit of its current window.  The counters are
those of the library, one for each address, and an address has no say in the counter of
another.
-/

namespace Kademlia

open Lib

def rateLimitWindow : Duration := Duration.fromSecs 60

def maxRequestsPerWindow : Nat := 100

inductive IpAddr where
  | v4 (ip : BitVec 32)
  | v6 (ip : BitVec 128)
deriving DecidableEq

def SocketAddr.ip : SocketAddr → IpAddr
  | v4 ip _ => .v4 ip
  | v6 ip _ _ _ => .v6 ip

structure RateLimitEntry where
  windowStart : Instant
  requestCount : Nat

abbrev RateLimitTable : Type := AList fun _ : IpAddr => RateLimitEntry

/-- Whether a request from an address is allowed.  `duration_since` is zero for an instant
in the future. -/
def checkRateLimit (rateLimitTable : RateLimitTable) (now : Instant) (ip : IpAddr) :
    Bool × RateLimitTable :=
  let entry := match rateLimitTable.lookup ip with
    | some entry => entry
    | none => { windowStart := now, requestCount := 0 }
  let entry := if now - entry.windowStart > rateLimitWindow
    then { windowStart := now, requestCount := 0 }
    else entry
  if entry.requestCount ≥ maxRequestsPerWindow then (false, rateLimitTable.insert ip entry)
  else (true, rateLimitTable.insert ip { entry with requestCount := entry.requestCount + 1 })

namespace RateLimit

/-- A request that `handle_incoming` reads from the socket. -/
structure Request where
  now : Instant
  src : SocketAddr

def Request.ip (request : Request) : IpAddr := request.src.ip

def step (t : RateLimitTable) (request : Request) : RateLimitTable :=
  (checkRateLimit t request.now request.ip).2

/-- Whether the request goes to the handler. -/
def isAllowed (t : RateLimitTable) (request : Request) : Bool :=
  (checkRateLimit t request.now request.ip).1

/-- The times of the requests from an address, each with what became of it. -/
def decisions (ip : IpAddr) (requests : List Request) : List (Instant × Bool) :=
  outputs step (fun t request =>
    if request.ip = ip then [(request.now, isAllowed t request)] else []) ∅ requests

/-! ## One counter for each address -/

def counter (entry : RateLimitEntry) : WindowCounter :=
  { start := entry.windowStart, count := entry.requestCount }

/-- The counter of an address, if it has one. -/
def counterOf (ip : IpAddr) (t : RateLimitTable) : Option WindowCounter := (t.lookup ip).map counter

/-- The entry after `or_insert_with` and the reset. -/
def rolledEntry (t : RateLimitTable) (now : Instant) (ip : IpAddr) : RateLimitEntry :=
  let entry := match t.lookup ip with
    | some entry => entry
    | none => { windowStart := now, requestCount := 0 }
  if now - entry.windowStart > rateLimitWindow then { windowStart := now, requestCount := 0 }
  else entry

theorem checkRateLimit_eq (t : RateLimitTable) (now : Instant) (ip : IpAddr) :
    checkRateLimit t now ip =
      if (rolledEntry t now ip).requestCount ≥ maxRequestsPerWindow then
        (false, t.insert ip (rolledEntry t now ip))
      else (true, t.insert ip { rolledEntry t now ip with
        requestCount := (rolledEntry t now ip).requestCount + 1 }) := rfl

theorem counterOf_step_ne {ip : IpAddr} {request : Request} (h : request.ip ≠ ip)
    (t : RateLimitTable) : counterOf ip (step t request) = counterOf ip t := by
  rw [counterOf, step, checkRateLimit_eq]
  split
  · rw [AList.lookup_insert_ne (Ne.symm h), counterOf]
  · rw [AList.lookup_insert_ne (Ne.symm h), counterOf]

theorem counter_rolledEntry (t : RateLimitTable) (now : Instant) (ip : IpAddr) :
    counter (rolledEntry t now ip) = WindowCounter.roll rateLimitWindow now (counterOf ip t) := by
  unfold rolledEntry counterOf
  cases t.lookup ip with
  | none =>
    -- A new entry starts now, so its window has not expired.
    have hfresh : ¬ now - now > rateLimitWindow := by
      rw [Nat.sub_self]
      exact Nat.not_lt_zero _
    dsimp only
    rw [if_neg hfresh]
    rfl
  | some entry =>
    dsimp only
    rw [Option.map_some, WindowCounter.roll]
    by_cases hlapsed : now - entry.windowStart > rateLimitWindow
    · rw [if_pos hlapsed]
      exact (if_pos hlapsed).symm
    · rw [if_neg hlapsed]
      exact (if_neg hlapsed).symm

/-- A request is a step of the counter of its address, which decides whether it is allowed. -/
theorem counterOf_step (t : RateLimitTable) (request : Request) :
    counterOf request.ip (step t request) = WindowCounter.step rateLimitWindow maxRequestsPerWindow
        (counterOf request.ip t) request.now ∧
      isAllowed t request = WindowCounter.admits rateLimitWindow maxRequestsPerWindow
        (counterOf request.ip t) request.now := by
  unfold WindowCounter.step WindowCounter.admits step isAllowed
  rw [checkRateLimit_eq, ← counter_rolledEntry]
  by_cases hfull : (rolledEntry t request.now request.ip).requestCount ≥ maxRequestsPerWindow
  · have hcount : ¬ (counter (rolledEntry t request.now request.ip)).count < maxRequestsPerWindow :=
      Nat.not_lt.mpr hfull
    simp only [hfull, hcount, if_true, if_false, counterOf, AList.lookup_insert, Option.map_some,
      decide_false, and_self]
  · have hcount : (counter (rolledEntry t request.now request.ip)).count < maxRequestsPerWindow :=
      Nat.not_le.mp hfull
    simp only [hfull, hcount, if_true, if_false, counterOf, AList.lookup_insert, Option.map_some,
      decide_true, and_true]
    rfl

/-- The decisions for an address are those of one counter for the times of its requests. -/
theorem decisions_eq (ip : IpAddr) (requests : List Request) :
    decisions ip requests = WindowCounter.decisions rateLimitWindow maxRequestsPerWindow none
      ((requests.filter fun request => request.ip = ip).map Request.now) := by
  rw [WindowCounter.decisions, ← outputs_map]
  refine outputs_filter (counterOf ip) ?_ ?_ ∅ requests
  · intro t request hown
    obtain rfl : request.ip = ip := of_decide_eq_true hown
    obtain ⟨hstep, hallowed⟩ := counterOf_step t request
    refine ⟨hstep, ?_⟩
    rw [if_pos rfl, hallowed]
    rfl
  · intro t request hother
    have hne : request.ip ≠ ip := of_decide_eq_false hother
    exact ⟨counterOf_step_ne hne t, if_neg hne⟩

/-- For every address and requests at non-decreasing times: in an interval no longer than
the window at most twice the limit of its requests are allowed, all are allowed when no
closed interval of the window's length has more of them than the limit, and the requests of
other addresses change no decision. -/
theorem rate_limit_tight_and_fair (requests : List Request)
    (hclock : (requests.map Request.now).Pairwise (· ≤ ·)) (ip : IpAddr) :
    (∀ lo hi, hi ≤ lo + rateLimitWindow →
      (decisions ip requests).countP (fun d => d.2 && decide (lo ≤ d.1 ∧ d.1 ≤ hi)) ≤
        2 * maxRequestsPerWindow) ∧
    ((∀ lo, (requests.countP fun request =>
        decide (request.ip = ip ∧ lo ≤ request.now ∧ request.now ≤ lo + rateLimitWindow)) ≤
          maxRequestsPerWindow) →
      ∀ d ∈ decisions ip requests, d.2 = true) ∧
    decisions ip requests = decisions ip (requests.filter fun request => request.ip = ip) := by
  have htimes : ((requests.filter fun request => request.ip = ip).map Request.now).Pairwise
      (· ≤ ·) := hclock.sublist (List.filter_sublist.map _)
  refine ⟨?_, ?_, ?_⟩
  · intro lo hi hhi
    rw [decisions_eq]
    exact WindowCounter.countP_admittedIn_le htimes hhi
  · intro hlimit
    rw [decisions_eq]
    apply WindowCounter.all_admitted htimes
    intro lo
    rw [WindowCounter.eventsFrom, List.countP_map, List.countP_filter]
    refine le_trans (List.countP_mono_left ?_) (hlimit lo)
    intro request _ h
    simpa [and_comm, and_assoc] using h
  · rw [decisions_eq, decisions_eq, List.filter_filter]
    simp only [Bool.and_self]

/-- Requests from two addresses, one of which comes back after a minute. -/
def twoSources : List Request :=
  [{ now := 0, src := .v4 1#32 8000 }, { now := 0, src := .v4 2#32 8000 },
    { now := rateLimitWindow, src := .v4 1#32 8001 }]

theorem two_sources_allowed : (decisions (.v4 1#32) twoSources).all Prod.snd = true := by
  rw [List.all_eq_true]
  refine (rate_limit_tight_and_fair twoSources (by decide) (.v4 1#32)).2.1 ?_
  intro lo
  exact le_trans List.countP_le_length (by decide)

end RateLimit

end Kademlia
