import Kademlia.NodeId.RandomInBucket
import Kademlia.Routing.Capacity
import Kademlia.Routing.Placement

/-!
# The refresh task

A pass of the refresh task reads the indices of the buckets and looks up one random
identifier of each, or any identifier when there are no buckets.  While it goes through the
indices other operations change the table, but a bucket is never taken away.

The indices of a reachable table are those of an identifier's bits, so every target lies in
its bucket and the identifier that the code falls back to is never used.
-/

namespace Kademlia

open Lib

namespace Refresh

open RoutingTable

/-- What one pass looks up, in this order.  The random bits are drawn anew for each index. -/
def targets (localId : NodeId) (t : RoutingTable) (gen : Nat → Nat → Bool)
    (random : Nat → NodeId) : List NodeId :=
  let bucketIndices := t.bucketIndices
  if bucketIndices.isEmpty then [random 0]
  else bucketIndices.map fun index => (localId.randomInBucket index (gen index)).getD (random index)

theorem mem_bucketIndices {t : RoutingTable} {index : Nat} :
    index ∈ t.bucketIndices ↔ ∃ b, t.buckets.lookup index = some b := by
  rw [bucketIndices, List.mem_insertionSort, ← AList.mem_keys, ← AList.lookup_isSome,
    Option.isSome_iff_exists]

theorem pairwise_bucketIndices (t : RoutingTable) : t.bucketIndices.Pairwise (· < ·) := by
  have hsorted : t.bucketIndices.Pairwise (· ≤ ·) := List.pairwise_insertionSort (· ≤ ·) _
  have hnodup : t.bucketIndices.Nodup :=
    (List.perm_insertionSort (· ≤ ·) _).nodup_iff.mpr t.buckets.nodupKeys
  refine (hsorted.and hnodup).imp ?_
  rintro i j ⟨hle, hne⟩
  exact Nat.lt_of_le_of_ne hle hne

section Reachable

variable {localNodeId : NodeId} {k : Nat} {t : RoutingTable}

theorem targets_of_ne_nil (hne : t.bucketIndices ≠ []) (gen : Nat → Nat → Bool)
    (random : Nat → NodeId) :
    targets localNodeId t gen random = t.bucketIndices.map fun index =>
      (localNodeId.randomInBucket index (gen index)).getD (random index) := by
  rw [targets, if_neg]
  rwa [List.isEmpty_iff]

variable (ht : t.Sized k)

include ht

/-- The fallback is never used, so each target lies in the bucket of its index. -/
theorem map_bucketIndex_targets (hne : t.bucketIndices ≠ []) (gen : Nat → Nat → Bool)
    (random : Nat → NodeId) :
    (targets localNodeId t gen random).map localNodeId.bucketIndex = t.bucketIndices.map some := by
  rw [targets_of_ne_nil hne, List.map_map]
  refine List.map_congr_left ?_
  intro index hindex
  obtain ⟨b, hlookup⟩ := mem_bucketIndices.mp hindex
  cases hrandom : localNodeId.randomInBucket index (gen index) with
  | none =>
    have hge := NodeId.randomInBucket_eq_none_iff.mp hrandom
    exact absurd (ht.index_lt index b hlookup) (Nat.not_lt.mpr hge)
  | some target =>
    rw [Function.comp, hrandom]
    exact NodeId.bucketIndex_randomInBucket hrandom

theorem nodup_targets (hne : t.bucketIndices ≠ []) (gen : Nat → Nat → Bool)
    (random : Nat → NodeId) : (targets localNodeId t gen random).Nodup := by
  refine List.Nodup.of_map localNodeId.bucketIndex ?_
  rw [map_bucketIndex_targets ht hne]
  refine List.Nodup.map (Option.some_injective Nat) ?_
  exact (pairwise_bucketIndices t).imp Nat.ne_of_lt

/-- The own identifier is in no bucket. -/
theorem localNodeId_not_mem_targets (hne : t.bucketIndices ≠ []) (gen : Nat → Nat → Bool)
    (random : Nat → NodeId) : localNodeId ∉ targets localNodeId t gen random := by
  intro hmem
  have hsome : localNodeId.bucketIndex localNodeId ∈
      (targets localNodeId t gen random).map localNodeId.bucketIndex := List.mem_map_of_mem hmem
  rw [map_bucketIndex_targets ht hne] at hsome
  obtain ⟨index, -, hindex⟩ := List.mem_map.mp hsome
  exact NodeId.ne_of_bucketIndex hindex.symm rfl

theorem exists_target (hlocal : t.localNodeId = localNodeId) (hne : t.bucketIndices ≠ [])
    (gen : Nat → Nat → Bool) (random : Nat → NodeId) {n : Node} (hn : n ∈ t.getAllNodes) :
    ∃ target ∈ targets localNodeId t gen random,
      localNodeId.bucketIndex target = localNodeId.bucketIndex n.id := by
  obtain ⟨index, b, hlookup, hmem⟩ := mem_getAllNodes.mp hn
  have hn' : localNodeId.bucketIndex n.id = some index := by
    rw [← hlocal]
    exact (ht.placed.buckets index b hlookup).nodes n hmem
  have htarget : some index ∈ (targets localNodeId t gen random).map localNodeId.bucketIndex := by
    rw [map_bucketIndex_targets ht hne]
    exact List.mem_map_of_mem (mem_bucketIndices.mpr ⟨b, hlookup⟩)
  obtain ⟨target, htarget, hindex⟩ := List.mem_map.mp htarget
  exact ⟨target, htarget, hindex.trans hn'.symm⟩

end Reachable

/-- The targets of a pass over a table that has buckets: one in each bucket, in the order of the
indices, so that no two are equal and none is the own identifier.  Every contact shares its
bucket with a target, and every identifier of a bucket can be drawn. -/
theorem targets_cover (localNodeId : NodeId) (k : Nat) (ops : List TableOp)
    (gen : Nat → Nat → Bool) (random : Nat → NodeId) :
    let t := run step (withK localNodeId k) ops
    t.bucketIndices.Pairwise (· < ·) ∧
    (t.bucketIndices = [] → targets localNodeId t gen random = [random 0]) ∧
    (t.bucketIndices ≠ [] →
      (targets localNodeId t gen random).map localNodeId.bucketIndex =
        t.bucketIndices.map some ∧
      (targets localNodeId t gen random).Nodup ∧
      localNodeId ∉ targets localNodeId t gen random ∧
      (∀ n ∈ t.getAllNodes, ∃ target ∈ targets localNodeId t gen random,
        localNodeId.bucketIndex target = localNodeId.bucketIndex n.id) ∧
      ∀ index ∈ t.bucketIndices, ∀ id, localNodeId.bucketIndex id = some index →
        ∃ gen', id ∈ targets localNodeId t gen' random) := by
  intro t
  have ht : t.Sized k :=
    invariant (P := (Sized · k)) (fun _ op h => h.step op) (sized_withK localNodeId k) ops
  have hlocal : t.localNodeId = localNodeId := (run_params (placed_withK localNodeId k) ops).1
  refine ⟨pairwise_bucketIndices t, ?_, ?_⟩
  · intro hempty
    rw [targets, hempty]
    rfl
  · intro hne
    refine ⟨map_bucketIndex_targets ht hne gen random, nodup_targets ht hne gen random,
      localNodeId_not_mem_targets ht hne gen random, ?_, ?_⟩
    · intro n hn
      exact exists_target ht hlocal hne gen random hn
    · intro index hindex id hid
      obtain ⟨bits, hbits⟩ := NodeId.exists_randomInBucket hid
      refine ⟨fun _ => bits, ?_⟩
      rw [targets_of_ne_nil hne]
      refine List.mem_map.mpr ⟨index, hindex, ?_⟩
      rw [hbits]
      rfl

end Refresh

end Kademlia
