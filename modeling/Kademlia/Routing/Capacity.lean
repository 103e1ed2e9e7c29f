import Mathlib.Algebra.Group.Action.Defs
import Mathlib.Algebra.Order.BigOperators.Group.List
import Kademlia.Routing.Placement

/-!
# How much a table stores

The contacts of a bucket are bounded by `k` because every branch of `update` that adds
one has room for it or takes another one out.  The replacement cache has no such test:
`KBucket::new` only reserves room for `k` candidates.  `Overflows` describes the calls
that push a candidate onto a cache that is full, and the main result says that the
bounds hold in a run exactly when it has no such call.
-/

namespace Kademlia

open Lib

namespace KBucket

structure Bounded (b : KBucket) : Prop where
  nodes : b.nodes.length ≤ b.k
  cache : b.replacementCache.length ≤ b.k

/-- An update that makes a new candidate while the cache already has `k` of them. -/
def Overflows (b : KBucket) (op : TableOp) : Prop :=
  b.OnNew op fun env node => b.admission env = .caches ∧
    (∀ c ∈ b.replacementCache, c.id ≠ node.id) ∧ b.k ≤ b.replacementCache.length

/-- The cache after a candidate was put at its back. -/
theorem length_recache_le_iff {b : KBucket} (h : b.replacementCache.length ≤ b.k) (id : NodeId)
    (node : Node) : (b.cacheWithout id ++ [node]).length ≤ b.k ↔
      ¬ ((∀ c ∈ b.replacementCache, c.id ≠ id) ∧ b.k ≤ b.replacementCache.length) := by
  rw [cacheWithout_eq_eraseP, List.length_append, List.length_singleton]
  by_cases hcached : ∀ c ∈ b.replacementCache, c.id ≠ id
  · rw [List.eraseP_of_forall_not (by simpa using hcached)]
    rw [and_iff_right hcached]
    omega
  · rw [iff_true_right (fun hboth => hcached hboth.1)]
    obtain ⟨c, hc, hid⟩ : ∃ c ∈ b.replacementCache, c.id = id := by
      simpa using hcached
    have hlen : (b.replacementCache.eraseP fun n => n.id == id).length =
        b.replacementCache.length - 1 :=
      List.length_eraseP_of_mem hc (beq_iff_eq.mpr hid)
    have hpos := List.length_pos_of_mem hc
    omega

/-- One move keeps the bounds exactly when it does not overflow the cache. -/
theorem Bounded.move_iff {b b' : KBucket} {op : TableOp} (h : b.Bounded) (hmove : Move b op b') :
    b'.Bounded ↔ ¬ b.Overflows op := by
  have hnodes := hmove.length_nodes_le h.nodes
  cases hmove with
  | absent hop _ => exact ⟨fun _ => not_onNew_of_ne_update hop, fun _ => h⟩
  | fault hnew hfaults =>
    rw [Overflows, onNew_update_iff hnew, hfaults]
    exact ⟨fun _ ho => (nomatch ho.1), fun _ => h⟩
  | refresh _ hsplit => exact ⟨fun _ => not_onNew_of_splitAt hsplit, fun _ => ⟨hnodes, h.cache⟩⟩
  | insert hnew hroom =>
    rw [Overflows, onNew_update_iff hnew, admission_of_room hroom]
    exact ⟨fun _ ho => (nomatch ho.1), fun _ => ⟨hnodes, h.cache⟩⟩
  | evict hnew hadmits hsplit =>
    rw [Overflows, onNew_update_iff hnew, hadmits]
    exact ⟨fun _ ho => (nomatch ho.1), fun _ => ⟨hnodes, h.cache⟩⟩
  | cache hnew hcaches =>
    rw [Overflows, onNew_update_iff hnew, hcaches, eq_self, true_and]
    have hiff := length_recache_le_iff h.cache
    exact ⟨fun hb => (hiff _ _).mp hb.cache, fun ho => ⟨hnodes, (hiff _ _).mpr ho⟩⟩
  | drop hsplit _ =>
    exact ⟨fun _ => not_onNew_of_ne_update fun _ _ h => (nomatch h), fun _ => ⟨hnodes, h.cache⟩⟩
  | promote hsplit hcache =>
    refine ⟨fun _ => not_onNew_of_ne_update fun _ _ h => (nomatch h), fun _ => ⟨hnodes, ?_⟩⟩
    have hlen := h.cache
    rw [hcache, List.length_cons] at hlen
    exact Nat.le_of_succ_le hlen

end KBucket

namespace RoutingTable

/-- The number of candidates in the replacement caches of the table. -/
def cachedCount (t : RoutingTable) : Nat :=
  (t.buckets.entries.map fun entry => entry.2.replacementCache.length).sum

/-- At most `k` contacts and `k` candidates in every bucket, and at most `k` of each for
every bit of an identifier in the whole table. -/
structure Bounded (t : RoutingTable) (k : Nat) : Prop where
  bucket : ∀ index b, t.buckets.lookup index = some b →
    b.nodes.length ≤ k ∧ b.replacementCache.length ≤ k
  nodeCount : t.nodeCount ≤ keyLengthBits * k
  cachedCount : t.cachedCount ≤ keyLengthBits * k

/-- A placed table with parameter `k`, whose buckets belong to the bits of an identifier. -/
structure Sized (t : RoutingTable) (k : Nat) : Prop where
  placed : t.Placed
  k_eq : t.k = k
  index_lt : t.AllBuckets fun index _ => index < keyLengthBits

theorem Sized.step {t : RoutingTable} {k : Nat} (h : t.Sized k) (op : TableOp) :
    (t.step op).Sized k := by
  have hspec := h.placed.step_spec op
  refine ⟨h.placed.step op, hspec.params.2.trans h.k_eq,
    h.index_lt.step hspec (fun _ _ hlt => hlt) ?_ ?_⟩
  · intro index hindex
    exact (NodeId.bucketIndex_eq_some_iff.mp hindex).1
  · intro index b' _ hlt _
    exact hlt

theorem sized_withK (localNodeId : NodeId) (k : Nat) : (withK localNodeId k).Sized k :=
  ⟨placed_withK localNodeId k, rfl, fun _ _ h => nomatch h⟩

/-- A sum over the buckets is bounded bucket by bucket. -/
theorem Sized.sum_le {t : RoutingTable} {k : Nat} (h : t.Sized k) (size : KBucket → Nat)
    (hsize : t.AllBuckets fun _ b => size b ≤ k) :
    (t.buckets.entries.map fun entry => size entry.2).sum ≤ keyLengthBits * k := by
  have hentry : ∀ entry ∈ t.buckets.entries, t.buckets.lookup entry.1 = some entry.2 :=
    fun entry hentry => AList.mem_lookup_iff.mpr hentry
  have hkeys : t.buckets.keys ⊆ List.range keyLengthBits := by
    intro index hindex
    obtain ⟨entry, hmem, rfl⟩ := List.mem_map.mp hindex
    exact List.mem_range.mpr (h.index_lt _ _ (hentry entry hmem))
  have hlen : t.buckets.entries.length ≤ keyLengthBits := by
    have hsub := (List.subperm_of_subset t.buckets.nodupKeys hkeys).length_le
    rwa [List.length_range, List.keys, List.length_map] at hsub
  have hsum := List.sum_le_card_nsmul (t.buckets.entries.map fun entry => size entry.2) k (by
    intro n hn
    obtain ⟨entry, hmem, rfl⟩ := List.mem_map.mp hn
    exact hsize _ _ (hentry entry hmem))
  rw [List.length_map, smul_eq_mul] at hsum
  exact hsum.trans (Nat.mul_le_mul_right k hlen)

theorem Sized.bounded_iff {t : RoutingTable} {k : Nat} (h : t.Sized k) :
    t.Bounded k ↔ t.AllBuckets fun _ => KBucket.Bounded := by
  have hk : ∀ index b, t.buckets.lookup index = some b → b.k = k :=
    fun index b hlookup => (h.placed.buckets index b hlookup).k_eq.trans h.k_eq
  constructor
  · intro hb index b hlookup
    obtain ⟨hnodes, hcache⟩ := hb.bucket index b hlookup
    exact ⟨(hk index b hlookup).symm ▸ hnodes, (hk index b hlookup).symm ▸ hcache⟩
  · intro hb
    have hbucket : ∀ index b, t.buckets.lookup index = some b →
        b.nodes.length ≤ k ∧ b.replacementCache.length ≤ k := by
      intro index b hlookup
      rw [← hk index b hlookup]
      exact ⟨(hb index b hlookup).nodes, (hb index b hlookup).cache⟩
    exact ⟨hbucket, h.sum_le _ fun index b hlookup => (hbucket index b hlookup).1,
      h.sum_le _ fun index b hlookup => (hbucket index b hlookup).2⟩

/-- The table stays bounded throughout a run exactly when no operation of the run
overflows a replacement cache. -/
theorem bounded_throughout_iff (localNodeId : NodeId) (k : Nat) (ops : List TableOp) :
    Throughout step (fun t => t.Bounded k) (withK localNodeId k) ops ↔
      Meets step (Guarded fun b op => ¬ b.Overflows op) (withK localNodeId k) ops := by
  have hsized := sized_withK localNodeId k
  refine throughout_iff_meets (I := fun t => t.Sized k) (fun t op h => h.step op) ?_ hsized
    (hsized.bounded_iff.mpr fun _ _ h => nomatch h)
  intro t op ht hbounded
  rw [(ht.step op).bounded_iff]
  refine (ht.placed.step_spec op).allBuckets_iff ?_ ?_ ?_ (ht.bounded_iff.mp hbounded)
  · exact fun _ _ _ => ⟨Nat.zero_le _, Nat.zero_le _⟩
  · exact fun b op hop => KBucket.not_onNew_of_ne_update hop
  · exact fun b op b' hb hmove => hb.move_iff hmove

/-- Three senders for a bucket of one: the first is a contact, the others candidates. -/
def candidateOps : List TableOp :=
  [.update (.at 0) (Node.ofByte 0x80), .update (.at 0) (Node.ofByte 0xC0),
    .update (.at 0) (Node.ofByte 0xA0)]

theorem not_bounded_after_candidates :
    ¬ ∀ (localNodeId : NodeId) (k : Nat), 1 ≤ k → ∀ ops : List TableOp,
      TableOp.NonDecreasing ops → (run step (withK localNodeId k) ops).Bounded k := by
  intro h
  have hclock : TableOp.NonDecreasing candidateOps := by
    simp [candidateOps, TableOp.NonDecreasing, TableOp.env, Env.at]
  have hlookup : (run step (withK (NodeId.fromBytes []) 1) candidateOps).buckets.lookup 0 =
      some { k := 1, localNodeId := NodeId.fromBytes [], prefixLen := 0,
             nodes := [(Node.ofByte 0x80).updateLastSeen (.at 0)],
             replacementCache := [(Node.ofByte 0xC0).updateLastSeen (.at 0),
               (Node.ofByte 0xA0).updateLastSeen (.at 0)] } := by
    decide +kernel
  have hbounded := h (NodeId.fromBytes []) 1 (by decide) candidateOps hclock
  exact absurd (hbounded.bucket 0 _ hlookup).2 (by decide)

end RoutingTable

end Kademlia
