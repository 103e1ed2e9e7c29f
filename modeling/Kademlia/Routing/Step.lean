import Kademlia.Routing.RoutingTable

/-!
# One operation on a table

Every operation of the table changes one bucket, the one of the identifier it is
about.  `Move` lists what can happen to that bucket, and `step_cases` says that a
step of a well-placed table makes one move in one bucket.  The invariants of runs are
proved by cases on the moves through `allBuckets_step`.

Placement is the invariant that makes this true.  It puts every contact into the
bucket of the first bit in which it differs from the local identifier, so that the
contacts of a bucket agree in that bit and no bucket splits.
-/

namespace Kademlia

open Lib

/-- What an operation can do to the bucket of its identifier. -/
inductive Move (b : KBucket) : TableOp → KBucket → Prop where
  | absent {op : TableOp} (hop : ∀ env node, op ≠ .update env node)
      (habsent : ∀ x ∈ b.nodes, x.id ≠ op.nodeId) : Move b op b
  | fault {env : Env} {node : Node} (hnew : ∀ x ∈ b.nodes, x.id ≠ node.id)
      (hfaults : b.admission env = .faults) : Move b (.update env node) b
  | refresh {op : TableOp} {l r : List Node} {existing : Node}
      (hop : ∀ env id, op ≠ .remove env id)
      (hsplit : KBucket.SplitAt b.nodes l existing r op.nodeId) :
      Move b op { b with nodes := l ++ r ++ [existing.updateLastSeen op.env] }
  | insert {env : Env} {node : Node} (hnew : ∀ x ∈ b.nodes, x.id ≠ node.id)
      (hroom : b.nodes.length < b.k) :
      Move b (.update env node) { b with nodes := b.nodes ++ [node.updateLastSeen env] }
  | evict {env : Env} {node : Node} {l r : List Node} {dropped : Node}
      (hnew : ∀ x ∈ b.nodes, x.id ≠ node.id) (hadmits : b.admission env = .admits)
      (hsplit : b.nodes = l ++ dropped :: r) :
      Move b (.update env node) { b with nodes := l ++ r ++ [node.updateLastSeen env] }
  | cache {env : Env} {node : Node} (hnew : ∀ x ∈ b.nodes, x.id ≠ node.id)
      (hcaches : b.admission env = .caches) :
      Move b (.update env node)
        { b with replacementCache := b.cacheWithout node.id ++ [node.updateLastSeen env] }
  | drop {env : Env} {id : NodeId} {l r : List Node} {removed : Node}
      (hsplit : KBucket.SplitAt b.nodes l removed r id) (hcache : b.replacementCache = []) :
      Move b (.remove env id) { b with nodes := l ++ r }
  | promote {env : Env} {id : NodeId} {l r cache : List Node} {removed replacement : Node}
      (hsplit : KBucket.SplitAt b.nodes l removed r id)
      (hcache : b.replacementCache = replacement :: cache) :
      Move b (.remove env id)
        { b with
          nodes := l ++ r ++ [replacement.updateLastSeen env]
          replacementCache := cache }

namespace Move

/-- Where the contacts of a bucket come from: they were there, untouched or with a
new stamp, or the operation brought them, or they were promoted from the cache. -/
theorem mem_nodes {b b' : KBucket} {op : TableOp} (h : Move b op b') {n : Node}
    (hn : n ∈ b'.nodes) :
    n ∈ b.nodes ∨ (∃ m ∈ b.nodes, m.id = op.nodeId ∧ n = m.updateLastSeen op.env) ∨
      (∃ env node, op = .update env node ∧ (∀ x ∈ b.nodes, x.id ≠ node.id) ∧
        n = node.updateLastSeen env) ∨
      ∃ env id m, op = .remove env id ∧ (∃ x ∈ b.nodes, x.id = id) ∧
        b.replacementCache.head? = some m ∧ n = m.updateLastSeen env := by
  cases h with
  | absent hop habsent => exact .inl hn
  | fault hnew hfaults => exact .inl hn
  | refresh hop hsplit =>
    rcases List.mem_append.mp hn with hn | hn
    · exact .inl (hsplit.sublist.subset hn)
    · exact .inr (.inl ⟨_, hsplit.mem, hsplit.id_eq, List.mem_singleton.mp hn⟩)
  | insert hnew hroom =>
    rcases List.mem_append.mp hn with hn | hn
    · exact .inl hn
    · exact .inr (.inr (.inl ⟨_, _, rfl, hnew, List.mem_singleton.mp hn⟩))
  | evict hnew hadmits hsplit =>
    rcases List.mem_append.mp hn with hn | hn
    · exact .inl (hsplit ▸ (sublist_of_split _ _ _).subset hn)
    · exact .inr (.inr (.inl ⟨_, _, rfl, hnew, List.mem_singleton.mp hn⟩))
  | cache hnew hcaches => exact .inl hn
  | drop hsplit hcache => exact .inl (hsplit.sublist.subset hn)
  | promote hsplit hcache =>
    rcases List.mem_append.mp hn with hn | hn
    · exact .inl (hsplit.sublist.subset hn)
    · exact .inr (.inr (.inr ⟨_, _, _, rfl, ⟨_, hsplit.mem, hsplit.id_eq⟩,
        hcache ▸ List.head?_cons, List.mem_singleton.mp hn⟩))

theorem mem_cache {b b' : KBucket} {op : TableOp} (h : Move b op b') {n : Node}
    (hn : n ∈ b'.replacementCache) :
    n ∈ b.replacementCache ∨ ∃ env node, op = .update env node ∧ n = node.updateLastSeen env := by
  cases h with
  | cache hnew hcaches =>
    rcases List.mem_append.mp hn with hn | hn
    · rw [KBucket.cacheWithout_eq_eraseP] at hn
      exact .inl (List.mem_of_mem_eraseP hn)
    · exact .inr ⟨_, _, rfl, List.mem_singleton.mp hn⟩
  | promote hsplit hcache => exact .inl (hcache ▸ List.mem_cons_of_mem _ hn)
  | _ => exact .inl hn

/-- A property that the stamp of the operation does not change passes from what a bucket stores,
and from the node of an update, to what it stores after a move. -/
theorem forall_stored_env {b b' : KBucket} {op : TableOp} (h : Move b op b') {P : Node → Prop}
    (hstamp : ∀ node, P node → P (node.updateLastSeen op.env))
    (hop : ∀ env node, op = .update env node → P node)
    (hb : ∀ n ∈ b.nodes ++ b.replacementCache, P n) :
    ∀ n ∈ b'.nodes ++ b'.replacementCache, P n := by
  rw [List.forall_mem_append] at hb ⊢
  obtain ⟨hnodes, hcache⟩ := hb
  constructor
  · intro n hn
    rcases h.mem_nodes hn with hn | ⟨m, hm, -, rfl⟩ | ⟨env, node, rfl, -, rfl⟩ |
      ⟨env, id, m, rfl, -, hm, rfl⟩
    · exact hnodes n hn
    · exact hstamp _ (hnodes m hm)
    · exact hstamp _ (hop env node rfl)
    · exact hstamp _ (hcache m (List.mem_of_head? hm))
  · intro n hn
    rcases h.mem_cache hn with hn | ⟨env, node, rfl, rfl⟩
    · exact hcache n hn
    · exact hstamp _ (hop env node rfl)

/-- A property that no stamp changes. -/
theorem forall_stored {b b' : KBucket} {op : TableOp} (h : Move b op b') {P : Node → Prop}
    (hstamp : ∀ env node, P node → P (node.updateLastSeen env))
    (hop : ∀ env node, op = .update env node → P node)
    (hb : ∀ n ∈ b.nodes ++ b.replacementCache, P n) :
    ∀ n ∈ b'.nodes ++ b'.replacementCache, P n :=
  h.forall_stored_env (hstamp op.env) hop hb

theorem params {b b' : KBucket} {op : TableOp} (h : Move b op b') :
    b'.k = b.k ∧ b'.localNodeId = b.localNodeId ∧ b'.prefixLen = b.prefixLen := by
  cases h <;> exact ⟨rfl, rfl, rfl⟩

/-- The contacts stay within `k`: a new one comes into a room or in place of another. -/
theorem length_nodes_le {b b' : KBucket} {op : TableOp} (h : Move b op b')
    (hle : b.nodes.length ≤ b.k) : b'.nodes.length ≤ b'.k := by
  have hreplace : ∀ {l r : List Node} {x : Node} (y : Node), b.nodes = l ++ x :: r →
      (l ++ r ++ [y]).length ≤ b.k := by
    intro l r x y hsplit
    rw [hsplit] at hle
    simp only [List.length_append, List.length_cons, List.length_nil] at hle ⊢
    omega
  cases h with
  | absent _ _ => exact hle
  | fault _ _ => exact hle
  | refresh _ hsplit => exact hreplace _ hsplit.eq
  | insert _ hroom =>
    rw [List.length_append, List.length_singleton]
    exact hroom
  | evict _ _ hsplit => exact hreplace _ hsplit
  | cache _ _ => exact hle
  | drop hsplit _ => exact hsplit.sublist.length_le.trans hle
  | promote hsplit _ => exact hreplace _ hsplit.eq

end Move

namespace KBucket

theorem admission_of_room {b : KBucket} (h : b.nodes.length < b.k) (env : Env) :
    b.admission env = .admits :=
  if_pos h

/-- A full bucket admits by the result of its search for an unreliable contact. -/
theorem admission_of_full {b : KBucket} (h : b.k ≤ b.nodes.length) (env : Env) :
    b.admission env =
      match b.unreliablePosition env with
      | .error _ => .faults
      | .ok (some _) => .admits
      | .ok none =>
        match b.nodes with
        | [] => .faults
        | frontNode :: _ => if frontNode.isActive env nodeTimeout then .caches else .admits :=
  if_neg (Nat.not_lt.mpr h)

theorem UpdateSpec.move {b b' : KBucket} {env : Env} {node : Node}
    {result : Outcome KBucketUpdate} (hlocal : node.id ≠ b.localNodeId)
    (h : UpdateSpec b env node result b') : Move b (.update env node) b' := by
  cases h with
  | isLocal hlocal' => exact absurd hlocal' hlocal
  | refreshed _ hsplit =>
    have hop : ∀ env' id, TableOp.update env node ≠ .remove env' id := fun _ _ h => nomatch h
    exact .refresh hop hsplit
  | inserted _ hnew hroom => exact .insert hnew hroom
  | overflowed _ hnew hfull hfault =>
    refine .fault hnew ?_
    rw [admission_of_full hfull, hfault]
  | evicted _ hnew hfull hscan hsplit _ =>
    refine .evict hnew ?_ hsplit
    rw [admission_of_full hfull, hscan]
  | empty _ hfull hscan hempty =>
    refine .fault (fun x hx => ?_) ?_
    · rw [hempty] at hx
      exact absurd hx List.not_mem_nil
    · rw [admission_of_full hfull, hscan, hempty]
  | expired _ hnew hfull hscan hsplit hinactive =>
    refine .evict (l := []) hnew ?_ hsplit
    rw [admission_of_full hfull, hscan, hsplit]
    simp only [hinactive, Bool.false_eq_true, if_false]
  | cached _ hnew hfull hscan hsplit hactive =>
    refine .cache hnew ?_
    rw [admission_of_full hfull, hscan, hsplit]
    simp only [hactive, if_true]

/-- Handing an entry back to a bucket that has its identifier moves the stored entry to
the back, whatever the entry handed back says. -/
theorem UpdateSpec.refreshed_of_mem {b b' : KBucket} {env : Env} {node stored : Node} {id : NodeId}
    {result : Outcome KBucketUpdate} (h : UpdateSpec b env node result b') (hid : node.id = id)
    (hlocal : id ≠ b.localNodeId) (hmem : stored ∈ b.nodes) (hstored : stored.id = id) :
    ∃ l existing r, SplitAt b.nodes l existing r id ∧
      b' = { b with nodes := l ++ r ++ [existing.updateLastSeen env] } := by
  subst hid
  cases h with
  | isLocal hlocal' => exact absurd hlocal' hlocal
  | refreshed _ hsplit => exact ⟨_, _, _, hsplit, rfl⟩
  | empty _ _ _ hempty =>
    rw [hempty] at hmem
    exact absurd hmem List.not_mem_nil
  | inserted _ hnew _ => exact absurd hstored (hnew stored hmem)
  | overflowed _ hnew _ _ => exact absurd hstored (hnew stored hmem)
  | evicted _ hnew _ _ _ _ => exact absurd hstored (hnew stored hmem)
  | expired _ hnew _ _ _ _ => exact absurd hstored (hnew stored hmem)
  | cached _ hnew _ _ _ _ => exact absurd hstored (hnew stored hmem)

theorem RemoveSpec.move {b b' : KBucket} {env : Env} {id : NodeId}
    {result : Outcome (Option Node)} (h : RemoveSpec b env id result b') :
    Move b (.remove env id) b' := by
  cases h with
  | absent hnew => exact .absent (fun _ _ h => nomatch h) hnew
  | dropped hsplit hcache => exact .drop hsplit hcache
  | promoted hsplit hcache => exact .promote hsplit hcache

/-! ## Placement -/

/-- The bucket at `index` of the table of `localNodeId`, with only contacts and
candidates that belong there. -/
structure PlacedAt (b : KBucket) (localNodeId : NodeId) (k index : Nat) : Prop where
  k_eq : b.k = k
  local_eq : b.localNodeId = localNodeId
  index_eq : b.prefixLen = index
  nodes : ∀ n ∈ b.nodes, localNodeId.bucketIndex n.id = some index
  cache : ∀ n ∈ b.replacementCache, localNodeId.bucketIndex n.id = some index

theorem placedAt_new (localNodeId : NodeId) (k index : Nat) :
    PlacedAt (new localNodeId index k) localNodeId k index :=
  ⟨rfl, rfl, rfl, (fun _ h => nomatch h), fun _ h => nomatch h⟩

theorem PlacedAt.move {b b' : KBucket} {localNodeId : NodeId} {k index : Nat} {op : TableOp}
    (h : PlacedAt b localNodeId k index) (hindex : localNodeId.bucketIndex op.nodeId = some index)
    (hmove : Move b op b') : PlacedAt b' localNodeId k index := by
  obtain ⟨hk, hlocal, hprefix⟩ := hmove.params
  have hop : ∀ env node, op = .update env node →
      localNodeId.bucketIndex node.id = some index := by
    rintro env node rfl
    exact hindex
  have hstored := hmove.forall_stored (P := fun n => localNodeId.bucketIndex n.id = some index)
    (fun _ _ hn => hn) hop (List.forall_mem_append.mpr ⟨h.nodes, h.cache⟩)
  obtain ⟨hnodes, hcache⟩ := List.forall_mem_append.mp hstored
  exact ⟨hk.trans h.k_eq, hlocal.trans h.local_eq, hprefix.trans h.index_eq, hnodes, hcache⟩

theorem PlacedAt.update {b : KBucket} {localNodeId : NodeId} {k index : Nat} {node : Node}
    (h : PlacedAt b localNodeId k index) (hindex : localNodeId.bucketIndex node.id = some index)
    (env : Env) : PlacedAt (b.update env node).2 localNodeId k index := by
  have hlocal : node.id ≠ b.localNodeId := by
    rw [h.local_eq]
    exact NodeId.ne_of_bucketIndex hindex
  have hmove := (update_spec b env node).move hlocal
  have hop : localNodeId.bucketIndex (TableOp.update env node).nodeId = some index := by
    rwa [TableOp.nodeId_update]
  exact h.move hop hmove

/-- The contacts of a placed bucket agree in the bit the bucket would split at. -/
theorem PlacedAt.shouldSplit {b : KBucket} {localNodeId : NodeId} {k index : Nat}
    (h : PlacedAt b localNodeId k index) (hne : b.nodes ≠ [] ∨ 1 ≤ k) :
    b.shouldSplit = .ok false := by
  unfold KBucket.shouldSplit
  by_cases hfull : b.isFull = true
  · rw [hfull]
    rcases hnodes : b.nodes with _ | ⟨first, rest⟩
    · have hlen : b.k ≤ b.nodes.length := of_decide_eq_true hfull
      rw [h.k_eq, hnodes, List.length_nil] at hlen
      exact hne.elim (fun hne => absurd hnodes hne) fun hk => absurd hlen (by omega)
    · have hbit : ∀ n ∈ b.nodes, n.id.bitAt b.prefixLen = first.id.bitAt b.prefixLen := by
        intro n hn
        rw [h.index_eq]
        exact NodeId.bitAt_eq_of_bucketIndex (h.nodes n hn)
          (h.nodes first (hnodes ▸ List.mem_cons_self))
      rw [hnodes] at hbit
      have hall : ((first :: rest).all fun node =>
          node.id.bitAt b.prefixLen == first.id.bitAt b.prefixLen) = true :=
        List.all_eq_true.mpr fun n hn => beq_iff_eq.mpr (hbit n hn)
      simp only [hall]
      rfl
  · rw [Bool.eq_false_iff.mpr hfull]
    rfl

end KBucket

namespace RoutingTable

/-- `P index b` for every bucket of the table. -/
def AllBuckets (t : RoutingTable) (P : Nat → KBucket → Prop) : Prop :=
  ∀ index b, t.buckets.lookup index = some b → P index b

/-- Every bucket of the table is placed. -/
structure Placed (t : RoutingTable) : Prop where
  buckets : t.AllBuckets fun index b => b.PlacedAt t.localNodeId t.k index

/-- The update without its recursive branch. -/
def updateOnce (t : RoutingTable) (env : Env) (node : Node) : Outcome UpdateStatus × RoutingTable :=
  if node.id = t.localNodeId then (.ok .unchanged, t)
  else
    match t.bucketIndex node.id with
    | none => (.ok .unchanged, t)
    | some index =>
      match (t.getOrCreateBucket index).update env node with
      | (.error fault, bucket) => (.error fault, t.setBucket index bucket)
      | (.ok update, bucket) => (.ok (.ofBucket update), t.setBucket index bucket)

/-- The condition under which a call of `update` splits a bucket and calls itself. -/
def TakesSplit (t : RoutingTable) (env : Env) (node : Node) : Prop :=
  ∃ index update bucket, node.id ≠ t.localNodeId ∧ t.bucketIndex node.id = some index ∧
    (t.getOrCreateBucket index).update env node = (.ok update, bucket) ∧
    bucket.shouldSplit = .ok true ∧ index < keyLengthBits - 1

@[simp] theorem lookup_setBucket (t : RoutingTable) (index : Nat) (b : KBucket) :
    (t.setBucket index b).buckets.lookup index = some b :=
  AList.lookup_insert _

theorem lookup_setBucket_ne (t : RoutingTable) {index j : Nat} (b : KBucket) (h : j ≠ index) :
    (t.setBucket index b).buckets.lookup j = t.buckets.lookup j :=
  AList.lookup_insert_ne h

theorem getOrCreateBucket_of_lookup {t : RoutingTable} {index : Nat} {b : KBucket}
    (h : t.buckets.lookup index = some b) : t.getOrCreateBucket index = b := by
  rw [getOrCreateBucket, h]

/-- A property of all buckets and of the empty one holds of the bucket handed out. -/
theorem AllBuckets.getOrCreate {t : RoutingTable} {P : Nat → KBucket → Prop} (h : t.AllBuckets P)
    (index : Nat) (hnew : P index (KBucket.new t.localNodeId index t.k)) :
    P index (t.getOrCreateBucket index) := by
  rcases hlookup : t.buckets.lookup index with _ | b
  · rw [getOrCreateBucket, hlookup]
    exact hnew
  · rw [getOrCreateBucket_of_lookup hlookup]
    exact h index b hlookup

theorem AllBuckets.setBucket {t : RoutingTable} {P : Nat → KBucket → Prop} (h : t.AllBuckets P)
    {index : Nat} {b : KBucket} (hb : P index b) : (t.setBucket index b).AllBuckets P := by
  intro j b' hlookup
  by_cases hj : j = index
  · subst hj
    rw [lookup_setBucket] at hlookup
    rw [← Option.some.inj hlookup]
    exact hb
  · rw [lookup_setBucket_ne t b hj] at hlookup
    exact h j b' hlookup

theorem placed_withK (localNodeId : NodeId) (k : Nat) : (withK localNodeId k).Placed :=
  ⟨fun _ _ h => nomatch h⟩

theorem Placed.getOrCreate {t : RoutingTable} (h : t.Placed) (index : Nat) :
    (t.getOrCreateBucket index).PlacedAt t.localNodeId t.k index :=
  AllBuckets.getOrCreate h.buckets index (KBucket.placedAt_new _ _ _)

/-- The bucket that `update` tests for a split never splits: an update that did not
fail leaves a contact in it. -/
theorem Placed.shouldSplit_update {t : RoutingTable} (h : t.Placed) {env : Env} {node : Node}
    {index : Nat} {update : KBucketUpdate} {bucket : KBucket}
    (hindex : t.bucketIndex node.id = some index)
    (hupdate : (t.getOrCreateBucket index).update env node = (.ok update, bucket)) :
    bucket.shouldSplit = .ok false := by
  have hplaced := (h.getOrCreate index).update hindex env
  have hspec := KBucket.update_spec (t.getOrCreateBucket index) env node
  rw [hupdate] at hplaced hspec
  exact hplaced.shouldSplit (.inl hspec.nodes_ne_nil)

theorem Placed.not_takesSplit {t : RoutingTable} (h : t.Placed) (env : Env) (node : Node) :
    ¬ t.TakesSplit env node := by
  rintro ⟨index, update, bucket, -, hindex, hupdate, hsplit, -⟩
  rw [h.shouldSplit_update hindex hupdate] at hsplit
  cases hsplit

/-- In a placed table the recursive branch is dead, whatever the fuel. -/
theorem Placed.updateFuel_eq {t : RoutingTable} (h : t.Placed) (fuel : Nat) (env : Env)
    (node : Node) : updateFuel (fuel + 1) t env node = t.updateOnce env node := by
  rw [updateFuel, updateOnce]
  by_cases hlocal : node.id = t.localNodeId
  · rw [if_pos hlocal, if_pos hlocal]
  rw [if_neg hlocal, if_neg hlocal]
  rcases hindex : t.bucketIndex node.id with _ | index
  · rfl
  rcases hupdate : (t.getOrCreateBucket index).update env node with ⟨result, bucket⟩
  cases result with
  | error fault => simp only [hupdate]
  | ok update =>
    simp only [hupdate, h.shouldSplit_update hindex hupdate, Bool.false_eq_true, false_and,
      if_false]

theorem Placed.update_eq {t : RoutingTable} (h : t.Placed) (env : Env) (node : Node) :
    t.update env node = t.updateOnce env node :=
  h.updateFuel_eq _ env node

/-- An update for the local node changes nothing. -/
theorem Placed.update_of_none {t : RoutingTable} (h : t.Placed) {env : Env} {node : Node}
    (hindex : t.bucketIndex node.id = none) : t.update env node = (.ok .unchanged, t) := by
  rw [h.update_eq, updateOnce, if_pos (NodeId.bucketIndex_eq_none_iff.mp hindex)]

/-- An update of a placed table is an update of one bucket. -/
theorem Placed.update_of_index {t : RoutingTable} (h : t.Placed) {env : Env} {node : Node}
    {index : Nat} (hindex : t.bucketIndex node.id = some index) :
    t.update env node =
      (((t.getOrCreateBucket index).update env node).1.map UpdateStatus.ofBucket,
        t.setBucket index ((t.getOrCreateBucket index).update env node).2) := by
  have hlocal : node.id ≠ t.localNodeId := NodeId.ne_of_bucketIndex hindex
  rw [h.update_eq, updateOnce, if_neg hlocal, hindex]
  dsimp only
  rcases (t.getOrCreateBucket index).update env node with ⟨fault | update, bucket⟩ <;> rfl

/-- An update ends with the fault of the bucket of its node. -/
theorem Placed.update_eq_error_bucket {t : RoutingTable} (h : t.Placed) {env : Env} {node : Node}
    {index : Nat} (hindex : t.bucketIndex node.id = some index) {fault : Fault} :
    (t.update env node).1 = .error fault ↔
      ((t.getOrCreateBucket index).update env node).1 = .error fault := by
  rw [h.update_of_index hindex]
  exact Outcome.map_eq_error_iff

theorem Placed.pendingPing_bucket {t : RoutingTable} (h : t.Placed) {env : Env} {node f : Node}
    {index : Nat} (hindex : t.bucketIndex node.id = some index)
    (hupdate : (t.update env node).1 = .ok (.pendingPing f)) :
    ((t.getOrCreateBucket index).update env node).1 = .ok (.pendingPing f) := by
  rw [h.update_of_index hindex] at hupdate
  generalize ((t.getOrCreateBucket index).update env node).1 = result at hupdate ⊢
  cases result with
  | error fault => cases hupdate
  | ok update =>
    cases update with
    | pendingPing g =>
      obtain rfl := UpdateStatus.pendingPing.inj (Except.ok.inj hupdate)
      rfl
    | unchanged => cases hupdate
    | updated => cases hupdate

theorem remove_of_lookup {t : RoutingTable} {env : Env} {id : NodeId} {index : Nat} {b : KBucket}
    (hindex : t.bucketIndex id = some index) (hlookup : t.buckets.lookup index = some b) :
    t.remove env id = ((b.remove env id).1, t.setBucket index (b.remove env id).2) := by
  simp only [remove, hindex, hlookup]

/-- What an operation does to a table. -/
inductive StepSpec (t : RoutingTable) (op : TableOp) : RoutingTable → Prop where
  | outside (hindex : t.bucketIndex op.nodeId = none) : StepSpec t op t
  | absent {index : Nat} (hindex : t.bucketIndex op.nodeId = some index)
      (hop : ∀ env node, op ≠ .update env node)
      (habsent : ∀ x ∈ (t.getOrCreateBucket index).nodes, x.id ≠ op.nodeId) : StepSpec t op t
  | moved {index : Nat} {b' : KBucket} (hindex : t.bucketIndex op.nodeId = some index)
      (hmove : Move (t.getOrCreateBucket index) op b') : StepSpec t op (t.setBucket index b')

theorem Placed.ne_local {t : RoutingTable} (h : t.Placed) {id : NodeId} {index : Nat}
    (hindex : t.bucketIndex id = some index) : id ≠ (t.getOrCreateBucket index).localNodeId := by
  rw [(h.getOrCreate index).local_eq]
  exact NodeId.ne_of_bucketIndex hindex

theorem Placed.update_stepSpec {t : RoutingTable} (h : t.Placed) (env : Env) (node : Node) :
    StepSpec t (.update env node) (t.update env node).2 := by
  rcases hindex : t.bucketIndex node.id with _ | index
  · rw [h.update_of_none hindex]
    exact .outside hindex
  · have hspec := KBucket.update_spec (t.getOrCreateBucket index) env node
    rw [h.update_of_index hindex]
    exact .moved hindex (hspec.move (h.ne_local hindex))

/-- A bucket that does not exist yet has no contacts. -/
theorem getOrCreateBucket_of_none {t : RoutingTable} {index : Nat}
    (h : t.buckets.lookup index = none) :
    t.getOrCreateBucket index = KBucket.new t.localNodeId index t.k := by
  rw [getOrCreateBucket, h]

/-- The three operations that hand a clone of the contact back to its bucket only move
the stored entry to the back of the queue. -/
theorem Placed.withContact_cases {t : RoutingTable} (h : t.Placed) (env : Env) (id : NodeId)
    (edit : Node → Node) (hid : ∀ node, (edit node).id = node.id) :
    ((t.withContact env id edit).2 = t ∧ ∀ index, t.bucketIndex id = some index →
      ∀ x ∈ (t.getOrCreateBucket index).nodes, x.id ≠ id) ∨
    ∃ index b l existing r, t.bucketIndex id = some index ∧ t.buckets.lookup index = some b ∧
      KBucket.SplitAt b.nodes l existing r id ∧ (t.withContact env id edit).2 =
        t.setBucket index { b with nodes := l ++ r ++ [existing.updateLastSeen env] } := by
  unfold withContact
  rcases hindex : t.bucketIndex id with _ | index
  · exact .inl ⟨rfl, fun _ h => nomatch h⟩
  have hne := h.ne_local hindex
  rcases hlookup : t.buckets.lookup index with _ | b
  · refine .inl ⟨by simp only [hlookup], ?_⟩
    intro j hj x hx
    rw [← Option.some.inj hj, getOrCreateBucket_of_none hlookup] at hx
    exact absurd hx List.not_mem_nil
  have hb := getOrCreateBucket_of_lookup hlookup
  rw [hb] at hne
  rcases hget : b.get id with _ | node
  · refine .inl ⟨by simp only [hlookup, hget], ?_⟩
    intro j hj
    rw [← Option.some.inj hj, hb]
    simpa [KBucket.get] using hget
  · have hmem : node ∈ b.nodes := List.mem_of_find?_eq_some hget
    have heq : node.id = id := by
      simpa using List.find?_some hget
    obtain ⟨l, existing, r, hsplit, hresult⟩ :=
      (KBucket.update_spec b env (edit node)).refreshed_of_mem
        ((hid node).trans heq) hne hmem heq
    refine .inr ⟨index, b, l, existing, r, rfl, hlookup, hsplit, ?_⟩
    rw [← hresult]
    rcases hup : b.update env (edit node) with ⟨result, bucket⟩
    cases result with
    | error fault => simp only [hlookup, hget, hup]
    | ok update => simp only [hlookup, hget, hup]

theorem Placed.withContact_stepSpec {t : RoutingTable} (h : t.Placed) {op : TableOp}
    {edit : Node → Node} (hid : ∀ node, (edit node).id = node.id)
    (hupdate : ∀ env node, op ≠ .update env node) (hremove : ∀ env id, op ≠ .remove env id) :
    StepSpec t op (t.withContact op.env op.nodeId edit).2 := by
  rcases h.withContact_cases op.env op.nodeId edit hid with ⟨heq, habsent⟩ |
    ⟨index, b, l, existing, r, hindex, hlookup, hsplit, heq⟩
  · rw [heq]
    rcases hindex : t.bucketIndex op.nodeId with _ | index
    · exact .outside hindex
    · exact .absent hindex hupdate (habsent index hindex)
  · rw [heq]
    refine .moved hindex ?_
    rw [getOrCreateBucket_of_lookup hlookup]
    exact .refresh hremove hsplit

theorem remove_ok (t : RoutingTable) (env : Env) (id : NodeId) :
    ∃ removed, (t.remove env id).1 = .ok removed := by
  unfold remove
  rcases t.bucketIndex id with _ | index
  · exact ⟨none, rfl⟩
  rcases hlookup : t.buckets.lookup index with _ | b
  · exact ⟨none, by simp only [hlookup]⟩
  · simp only [hlookup]
    exact (KBucket.remove_spec b env id).ok

theorem remove_stepSpec (t : RoutingTable) (env : Env) (id : NodeId) :
    StepSpec t (.remove env id) (t.remove env id).2 := by
  unfold remove
  rcases hindex : t.bucketIndex id with _ | index
  · exact .outside hindex
  rcases hlookup : t.buckets.lookup index with _ | b
  · simp only [hlookup]
    refine .absent hindex (fun _ _ h => nomatch h) ?_
    rw [getOrCreateBucket_of_none hlookup]
    exact fun x hx => absurd hx List.not_mem_nil
  · simp only [hlookup]
    have hmove := (KBucket.remove_spec b env id).move
    rw [← getOrCreateBucket_of_lookup hlookup] at hmove ⊢
    exact .moved hindex hmove

theorem Placed.step_spec {t : RoutingTable} (h : t.Placed) (op : TableOp) :
    StepSpec t op (t.step op) := by
  cases op with
  | update env node => exact h.update_stepSpec env node
  | nodeSeen env id =>
    exact h.withContact_stepSpec (fun _ => rfl) (fun _ _ h => nomatch h) fun _ _ h => nomatch h
  | recordSuccess env id responseTimeMs =>
    exact h.withContact_stepSpec (fun _ => rfl) (fun _ _ h => nomatch h) fun _ _ h => nomatch h
  | recordFailure env id =>
    exact h.withContact_stepSpec (fun _ => rfl) (fun _ _ h => nomatch h) fun _ _ h => nomatch h
  | remove env id => exact t.remove_stepSpec env id

theorem StepSpec.params {t t' : RoutingTable} {op : TableOp} (h : StepSpec t op t') :
    t'.localNodeId = t.localNodeId ∧ t'.k = t.k := by
  cases h <;> exact ⟨rfl, rfl⟩

theorem AllBuckets.imp {t : RoutingTable} {P Q : Nat → KBucket → Prop} (h : t.AllBuckets P)
    (himp : ∀ index b, P index b → Q index b) : t.AllBuckets Q :=
  fun index b hlookup => himp index b (h index b hlookup)

/-- The rule for a property of every bucket: one move has to establish it, and the
buckets that do not move have to have it already. -/
theorem AllBuckets.step {t t' : RoutingTable} {op : TableOp} {P Q : Nat → KBucket → Prop}
    (h : t.AllBuckets P) (hspec : StepSpec t op t') (himp : ∀ index b, P index b → Q index b)
    (hnew : ∀ index, t.bucketIndex op.nodeId = some index →
      P index (KBucket.new t.localNodeId index t.k))
    (hmove : ∀ index b', t.bucketIndex op.nodeId = some index →
      P index (t.getOrCreateBucket index) → Move (t.getOrCreateBucket index) op b' → Q index b') :
    t'.AllBuckets Q := by
  cases hspec with
  | outside _ => exact h.imp himp
  | absent _ _ _ => exact h.imp himp
  | moved hindex hm =>
    exact (h.imp himp).setBucket (hmove _ _ hindex (h.getOrCreate _ (hnew _ hindex)) hm)

theorem Placed.step {t : RoutingTable} (h : t.Placed) (op : TableOp) : (t.step op).Placed := by
  have hspec := h.step_spec op
  obtain ⟨hlocal, hk⟩ := hspec.params
  constructor
  rw [hlocal, hk]
  apply h.buckets.step hspec (fun _ _ hb => hb) (fun index _ => KBucket.placedAt_new _ _ _)
  intro index b' hindex hb hmove
  exact hb.move hindex hmove

theorem placed_run {t : RoutingTable} (h : t.Placed) (ops : List TableOp) :
    (run step t ops).Placed :=
  invariant (fun _ op h => h.step op) h ops

theorem run_params {t : RoutingTable} (h : t.Placed) (ops : List TableOp) :
    (run step t ops).localNodeId = t.localNodeId ∧ (run step t ops).k = t.k := by
  refine (invariant (P := fun s : RoutingTable =>
    s.Placed ∧ s.localNodeId = t.localNodeId ∧ s.k = t.k) ?_ ⟨h, rfl, rfl⟩ ops).2
  intro s op hs
  obtain ⟨hlocal, hk⟩ := (hs.1.step_spec op).params
  exact ⟨hs.1.step op, hlocal.trans hs.2.1, hk.trans hs.2.2⟩

end RoutingTable

/-! ## Properties of every bucket with an exact guard -/

namespace KBucket

/-- The operation is an update for an identifier that is not among the contacts, and `Q`
holds of it. -/
def OnNew (b : KBucket) (op : TableOp) (Q : Env → Node → Prop) : Prop :=
  ∃ env node, op = .update env node ∧ (∀ x ∈ b.nodes, x.id ≠ node.id) ∧ Q env node

variable {b : KBucket} {op : TableOp} {Q : Env → Node → Prop}

theorem onNew_update_iff {env : Env} {node : Node} (hnew : ∀ x ∈ b.nodes, x.id ≠ node.id) :
    b.OnNew (.update env node) Q ↔ Q env node := by
  constructor
  · rintro ⟨env', node', hop, -, hQ⟩
    obtain ⟨rfl, rfl⟩ := TableOp.update.inj hop
    exact hQ
  · intro hQ
    exact ⟨env, node, rfl, hnew, hQ⟩

theorem not_onNew_of_splitAt {l r : List Node} {existing : Node}
    (hsplit : SplitAt b.nodes l existing r op.nodeId) : ¬ b.OnNew op Q := by
  rintro ⟨env, node, rfl, hnew, -⟩
  exact hnew existing hsplit.mem hsplit.id_eq

theorem not_onNew_of_ne_update (hop : ∀ env node, op ≠ .update env node) : ¬ b.OnNew op Q := by
  rintro ⟨env, node, rfl, -⟩
  exact hop env node rfl

end KBucket

namespace RoutingTable

/-- The guard `G` holds of the operation and the bucket it is about. -/
def Guarded (G : KBucket → TableOp → Prop) (t : RoutingTable) (op : TableOp) : Prop :=
  ∀ index, t.bucketIndex op.nodeId = some index → G (t.getOrCreateBucket index) op

section Guard

variable {P : KBucket → Prop} {G : KBucket → TableOp → Prop}

theorem StepSpec.allBuckets_iff (hnew : ∀ localNodeId index k, P (KBucket.new localNodeId index k))
    (hidle : ∀ b op, (∀ env node, op ≠ .update env node) → G b op)
    (hmove : ∀ b op b', P b → Move b op b' → (P b' ↔ G b op)) {t t' : RoutingTable} {op : TableOp}
    (hspec : StepSpec t op t') (hP : t.AllBuckets fun _ => P) :
    (t'.AllBuckets fun _ => P) ↔ Guarded G t op := by
  cases hspec with
  | outside hindex =>
    refine ⟨fun _ index hindex' => ?_, fun _ => hP⟩
    rw [hindex] at hindex'
    cases hindex'
  | absent hindex hop _ => exact ⟨fun _ index _ => hidle _ op hop, fun _ => hP⟩
  | @moved index b' hindex hm =>
    have hb : P (t.getOrCreateBucket index) := hP.getOrCreate index (hnew _ _ _)
    have hiff := hmove _ op b' hb hm
    constructor
    · intro h index' hindex'
      obtain rfl : index = index' := Option.some.inj (hindex.symm.trans hindex')
      exact hiff.mp (h index b' (lookup_setBucket t index b'))
    · intro h
      exact hP.setBucket (hiff.mpr (h index hindex))

/-- A property of buckets holds in every state of a run exactly when every operation
meets the guard of the bucket it is about. -/
theorem throughout_allBuckets_iff
    (hnew : ∀ localNodeId index k, P (KBucket.new localNodeId index k))
    (hidle : ∀ b op, (∀ env node, op ≠ .update env node) → G b op)
    (hmove : ∀ b op b', P b → Move b op b' → (P b' ↔ G b op)) (localNodeId : NodeId) (k : Nat)
    (ops : List TableOp) :
    Throughout step (fun t => t.AllBuckets fun _ => P) (withK localNodeId k) ops ↔
      Meets step (Guarded G) (withK localNodeId k) ops :=
  throughout_iff_meets (fun _ op h => Placed.step h op)
    (fun _ op ht hP => (ht.step_spec op).allBuckets_iff hnew hidle hmove hP)
    (placed_withK localNodeId k) fun _ _ h => nomatch h

end Guard

end RoutingTable

end Kademlia
