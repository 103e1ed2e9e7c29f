import Kademlia.Routing.Placement

/-!
# Identifiers in the two queues of a bucket

An identifier should be in a bucket at most once, as a contact or as a candidate.  The
branches of `update` that admit a new contact do not look into the replacement cache,
so the identifier can be in both queues afterwards, and a later promotion can put it
into the contacts twice.  `Readmits` describes these calls, and the main result says
that nothing else breaks uniqueness.
-/

namespace Kademlia

open Lib

namespace KBucket

structure Unique (b : KBucket) : Prop where
  nodes : (b.nodes.map Node.id).Nodup
  cache : (b.replacementCache.map Node.id).Nodup
  disjoint : ∀ n ∈ b.nodes, ∀ c ∈ b.replacementCache, n.id ≠ c.id

/-- The identifiers of both queues. -/
def ids (b : KBucket) : List NodeId := b.nodes.map Node.id ++ b.replacementCache.map Node.id

theorem unique_iff_nodup_ids {b : KBucket} : b.Unique ↔ b.ids.Nodup := by
  rw [ids, List.nodup_append]
  constructor
  · rintro ⟨hnodes, hcache, hdisjoint⟩
    refine ⟨hnodes, hcache, ?_⟩
    intro x hx y hy
    obtain ⟨n, hn, rfl⟩ := List.mem_map.mp hx
    obtain ⟨c, hc, rfl⟩ := List.mem_map.mp hy
    exact hdisjoint n hn c hc
  · rintro ⟨hnodes, hcache, hdisjoint⟩
    exact ⟨hnodes, hcache, fun n hn c hc =>
      hdisjoint _ (List.mem_map_of_mem hn) _ (List.mem_map_of_mem hc)⟩

/-- An update for a candidate that its bucket admits: the candidate becomes a contact
and stays in the cache. -/
def Readmits (b : KBucket) (op : TableOp) : Prop :=
  b.OnNew op fun env node =>
    node.id ∈ b.replacementCache.map Node.id ∧ b.admission env = .admits

/-- Adding a new identifier to the contacts keeps the identifiers apart unless it is a
candidate already. -/
theorem nodup_admit_iff {nodes cache : List NodeId} {id : NodeId} (h : (nodes ++ cache).Nodup)
    (hnew : id ∉ nodes) : ((nodes ++ [id]) ++ cache).Nodup ↔ id ∉ cache := by
  have hperm : ((nodes ++ [id]) ++ cache).Perm (id :: (nodes ++ cache)) := by
    rw [List.append_assoc]
    exact List.perm_middle
  rw [hperm.nodup_iff, List.nodup_cons, List.mem_append, not_or]
  exact ⟨fun hid => hid.1.2, fun hid => ⟨⟨hnew, hid⟩, h⟩⟩

theorem not_mem_map_id {xs : List Node} {id : NodeId} (h : ∀ x ∈ xs, x.id ≠ id) :
    id ∉ xs.map Node.id := by
  intro hmem
  obtain ⟨x, hx, hid⟩ := List.mem_map.mp hmem
  exact h x hx hid

theorem map_id_cacheWithout (b : KBucket) (id : NodeId) :
    (b.cacheWithout id).map Node.id = (b.replacementCache.map Node.id).erase id := by
  rw [cacheWithout_eq_eraseP, List.erase_eq_eraseP', List.eraseP_map]
  rfl

/-- Putting an identifier at the back of the candidates, after taking out the entry it
may have there, keeps the identifiers apart when it is not a contact. -/
theorem nodup_recache {nodes cache : List NodeId} {id : NodeId} (h : (nodes ++ cache).Nodup)
    (hnew : id ∉ nodes) : (nodes ++ (cache.erase id ++ [id])).Nodup := by
  obtain ⟨-, hcache, -⟩ := List.nodup_append.mp h
  have hsub : (nodes ++ cache.erase id).Sublist (nodes ++ cache) :=
    List.Sublist.append_left List.erase_sublist nodes
  rw [← List.append_assoc, List.nodup_append_comm, List.singleton_append, List.nodup_cons,
    List.mem_append, not_or]
  exact ⟨⟨hnew, hcache.not_mem_erase⟩, h.sublist hsub⟩

/-- One move keeps a bucket unique exactly when it does not readmit a candidate. -/
theorem Unique.move_iff {b b' : KBucket} {op : TableOp} (h : b.Unique) (hmove : Move b op b') :
    b'.Unique ↔ ¬ b.Readmits op := by
  have hids := unique_iff_nodup_ids.mp h
  unfold ids at hids
  cases hmove with
  | absent hop _ => exact ⟨fun _ => not_onNew_of_ne_update hop, fun _ => h⟩
  | fault hnew hfaults =>
    rw [Readmits, onNew_update_iff hnew, hfaults]
    exact ⟨fun _ hr => (nomatch hr.2), fun _ => h⟩
  | @refresh _ l r existing _ hsplit =>
    refine ⟨fun _ => not_onNew_of_splitAt hsplit, fun _ => ?_⟩
    rw [unique_iff_nodup_ids, ids]
    rw [hsplit.eq] at hids
    -- The contact only changes its place.
    refine (List.Perm.append_right _ ?_).nodup_iff.mp hids
    simp only [List.map_append, List.map_cons, List.map_nil, Node.updateLastSeen_id]
    exact List.perm_middle.trans (List.perm_append_singleton _ _).symm
  | insert hnew hroom =>
    rw [Readmits, onNew_update_iff hnew, admission_of_room hroom, unique_iff_nodup_ids, ids]
    simp only [List.map_append, List.map_cons, List.map_nil, Node.updateLastSeen_id, and_true]
    exact nodup_admit_iff hids (not_mem_map_id hnew)
  | @evict env node l r dropped hnew hadmits hsplit =>
    rw [Readmits, onNew_update_iff hnew, hadmits, unique_iff_nodup_ids, ids]
    have hsub : ((l ++ r).map Node.id).Sublist (b.nodes.map Node.id) := by
      rw [hsplit]
      exact (sublist_of_split l r dropped).map _
    have hnodup := hids.sublist (hsub.append_right (b.replacementCache.map Node.id))
    have hnew' : node.id ∉ (l ++ r).map Node.id := fun hmem =>
      not_mem_map_id hnew (hsub.subset hmem)
    rw [List.map_append, List.map_singleton]
    simpa using nodup_admit_iff hnodup hnew'
  | cache hnew hcaches =>
    rw [Readmits, onNew_update_iff hnew, hcaches]
    refine ⟨fun _ hr => (nomatch hr.2), fun _ => ?_⟩
    rw [unique_iff_nodup_ids, ids, List.map_append, map_id_cacheWithout]
    exact nodup_recache hids (not_mem_map_id hnew)
  | @drop _ _ l r removed hsplit _ =>
    refine ⟨fun _ => not_onNew_of_ne_update fun _ _ h => (nomatch h), fun _ => ?_⟩
    rw [hsplit.eq] at hids
    rw [unique_iff_nodup_ids, ids]
    exact hids.sublist (((sublist_of_split l r removed).map _).append_right _)
  | @promote _ _ l r cache removed replacement hsplit hcache =>
    refine ⟨fun _ => not_onNew_of_ne_update fun _ _ h => (nomatch h), fun _ => ?_⟩
    rw [hsplit.eq, hcache] at hids
    rw [unique_iff_nodup_ids, ids]
    -- The front of the cache goes to the back of the contacts, next to where it was.
    have hsub := ((sublist_of_split l r removed).map Node.id).append_right
      ((replacement :: cache).map Node.id)
    apply (hids.sublist hsub).perm
    simp

end KBucket

namespace RoutingTable

/-- Every bucket stays unique throughout a run exactly when no operation of the run
readmits a candidate. -/
theorem unique_throughout_iff (localNodeId : NodeId) (k : Nat) (ops : List TableOp) :
    Throughout step (fun t => t.AllBuckets fun _ => KBucket.Unique) (withK localNodeId k) ops ↔
      Meets step (Guarded fun b op => ¬ b.Readmits op) (withK localNodeId k) ops := by
  refine throughout_allBuckets_iff ?_ ?_ ?_ localNodeId k ops
  · exact fun _ _ _ => ⟨List.nodup_nil, List.nodup_nil, fun _ h => nomatch h⟩
  · exact fun b op hop => KBucket.not_onNew_of_ne_update hop
  · exact fun b op b' hb hmove => hb.move_iff hmove

/-- The bucket holds one contact, which times out while a candidate waits in the cache.
The next sighting of the candidate makes it a contact and leaves it in the cache. -/
def readmissionOps : List TableOp :=
  [.update (.at 0) (Node.ofByte 0x80), .update (.at 0) (Node.ofByte 0xC0),
    .update (.at 1000) (Node.ofByte 0xC0)]

theorem not_unique_after_readmission :
    ¬ ∀ (localNodeId : NodeId) (k : Nat), 1 ≤ k → ∀ ops : List TableOp,
      TableOp.NonDecreasing ops →
      (run step (withK localNodeId k) ops).AllBuckets fun _ => KBucket.Unique := by
  intro h
  have hclock : TableOp.NonDecreasing readmissionOps := by
    simp [readmissionOps, TableOp.NonDecreasing, TableOp.env, Env.at]
  have hlookup : (run step (withK (NodeId.fromBytes []) 1) readmissionOps).buckets.lookup 0 =
      some { k := 1, localNodeId := NodeId.fromBytes [], prefixLen := 0,
             nodes := [(Node.ofByte 0xC0).updateLastSeen (.at 1000)],
             replacementCache := [(Node.ofByte 0xC0).updateLastSeen (.at 0)] } := by
    decide +kernel
  have hunique := h (NodeId.fromBytes []) 1 (by decide) readmissionOps hclock 0 _ hlookup
  exact hunique.disjoint _ List.mem_cons_self _ List.mem_cons_self rfl

end RoutingTable

end Kademlia
