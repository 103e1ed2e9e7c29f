import Kademlia.Routing.Step

/-!
# Lookups in a placed table

The lookups of a table read one bucket, the one of the identifier.  In a placed table
this loses nothing: `contains` agrees with a search through all contacts.  The results
are stated for every table reached from an empty one.
-/

namespace Kademlia

open Lib

namespace RoutingTable

theorem mem_getAllNodes {t : RoutingTable} {n : Node} :
    n ∈ t.getAllNodes ↔ ∃ index b, t.buckets.lookup index = some b ∧ n ∈ b.nodes := by
  simp only [getAllNodes, List.mem_flatMap, ← Option.mem_def, AList.mem_lookup_iff]
  constructor
  · rintro ⟨⟨index, b⟩, hentry, hn⟩
    exact ⟨index, b, hentry, hn⟩
  · rintro ⟨index, b, hentry, hn⟩
    exact ⟨⟨index, b⟩, hentry, hn⟩

/-- A contact of some bucket other than the one at `index`. -/
def Elsewhere (t : RoutingTable) (index : Nat) (n : Node) : Prop :=
  ∃ j b, j ≠ index ∧ t.buckets.lookup j = some b ∧ n ∈ b.nodes

theorem mem_getAllNodes_iff (t : RoutingTable) (index : Nat) (n : Node) :
    n ∈ t.getAllNodes ↔ n ∈ (t.getOrCreateBucket index).nodes ∨ t.Elsewhere index n := by
  rw [mem_getAllNodes]
  constructor
  · rintro ⟨j, b, hlookup, hn⟩
    by_cases hj : j = index
    · rw [hj] at hlookup
      rw [getOrCreateBucket_of_lookup hlookup]
      exact .inl hn
    · exact .inr ⟨j, b, hj, hlookup, hn⟩
  · rintro (hn | ⟨j, b, -, hlookup, hn⟩)
    · rcases hlookup : t.buckets.lookup index with _ | b
      · rw [getOrCreateBucket_of_none hlookup] at hn
        exact absurd hn List.not_mem_nil
      · rw [getOrCreateBucket_of_lookup hlookup] at hn
        exact ⟨index, b, hlookup, hn⟩
    · exact ⟨j, b, hlookup, hn⟩

/-- The contacts after one bucket was changed. -/
theorem mem_getAllNodes_setBucket (t : RoutingTable) (index : Nat) (b : KBucket) (n : Node) :
    n ∈ (t.setBucket index b).getAllNodes ↔ n ∈ b.nodes ∨ t.Elsewhere index n := by
  have helse : (t.setBucket index b).Elsewhere index n ↔ t.Elsewhere index n := by
    constructor
    · rintro ⟨j, b', hj, hlookup, hn⟩
      rw [lookup_setBucket_ne t b hj] at hlookup
      exact ⟨j, b', hj, hlookup, hn⟩
    · rintro ⟨j, b', hj, hlookup, hn⟩
      refine ⟨j, b', hj, ?_, hn⟩
      rw [lookup_setBucket_ne t b hj, hlookup]
  rw [mem_getAllNodes_iff _ index, helse, getOrCreateBucket_of_lookup (lookup_setBucket t index b)]

theorem contains_iff {t : RoutingTable} {id : NodeId} :
    t.contains id = true ↔ ∃ index b, t.bucketIndex id = some index ∧
      t.buckets.lookup index = some b ∧ ∃ n ∈ b.nodes, n.id = id := by
  unfold contains
  rcases hindex : t.bucketIndex id with _ | index
  · simp
  · rcases hlookup : t.buckets.lookup index with _ | b
    · simp [hlookup]
    · simp [hlookup, KBucket.contains]

/-- `contains` reads the bucket of the identifier, created or not. -/
theorem contains_iff_getOrCreate {t : RoutingTable} {id : NodeId} {index : Nat}
    (hindex : t.bucketIndex id = some index) :
    t.contains id = true ↔ ∃ n ∈ (t.getOrCreateBucket index).nodes, n.id = id := by
  rw [contains, hindex]
  rcases hlookup : t.buckets.lookup index with _ | b
  · simp [hlookup, getOrCreateBucket_of_none hlookup, KBucket.new]
  · simp [hlookup, getOrCreateBucket_of_lookup hlookup, KBucket.contains]

/-- Every contact is in the bucket where the lookups search for it. -/
theorem Placed.contains_iff_mem {t : RoutingTable} (h : t.Placed) (id : NodeId) :
    t.contains id = true ↔ ∃ n ∈ t.getAllNodes, n.id = id := by
  rw [contains_iff]
  constructor
  · rintro ⟨index, b, -, hlookup, n, hn, hid⟩
    exact ⟨n, mem_getAllNodes.mpr ⟨index, b, hlookup, hn⟩, hid⟩
  · rintro ⟨n, hn, rfl⟩
    obtain ⟨index, b, hlookup, hmem⟩ := mem_getAllNodes.mp hn
    exact ⟨index, b, (h.buckets index b hlookup).nodes n hmem, hlookup, n, hmem, rfl⟩

/-- An operation leaves every bucket but that of its identifier as it was. -/
theorem StepSpec.lookup_ne {t t' : RoutingTable} {op : TableOp} (h : StepSpec t op t') {index : Nat}
    (hindex : t.bucketIndex op.nodeId ≠ some index) :
    t'.buckets.lookup index = t.buckets.lookup index := by
  cases h with
  | outside _ => rfl
  | absent _ _ _ => rfl
  | moved hindex' _ =>
    apply lookup_setBucket_ne t _
    rintro rfl
    exact hindex hindex'

/-- The entry that an operation inserts as a new contact: the one handed to `update`, or
the candidate that `remove` promotes. -/
def inserted (t : RoutingTable) : TableOp → Option Node
  | .update env node =>
    if !t.contains node.id && (t.update env node).2.contains node.id then
      some (node.updateLastSeen env)
    else none
  | .remove env nodeId =>
    match t.bucketIndex nodeId with
    | none => none
    | some index =>
      let bucket := t.getOrCreateBucket index
      if bucket.contains nodeId then
        bucket.replacementCache.head?.map fun node => node.updateLastSeen env
      else none
  | _ => none

/-- A contact was there before with the same address and counters, or the operation inserted
it. -/
theorem StepSpec.mem_getAllNodes {t t' : RoutingTable} {op : TableOp} (h : StepSpec t op t')
    (ht : t' = t.step op) (hplaced : t'.Placed) {contact : Node} (hc : contact ∈ t'.getAllNodes) :
    (∃ m ∈ t.getAllNodes, m.id = contact.id ∧ m.addr = contact.addr ∧
        m.responseStats = contact.responseStats) ∨
      t.inserted op = some contact := by
  have hcontains : t'.contains contact.id = true :=
    (hplaced.contains_iff_mem _).mpr ⟨contact, hc, rfl⟩
  rw [ht] at hcontains
  cases h with
  | outside _ => exact .inl ⟨contact, hc, rfl, rfl, rfl⟩
  | absent _ _ _ => exact .inl ⟨contact, hc, rfl, rfl, rfl⟩
  | @moved index b' hindex hmove =>
    have hold : ∀ m ∈ (t.getOrCreateBucket index).nodes, m ∈ t.getAllNodes :=
      fun m hm => (mem_getAllNodes_iff t index m).mpr (.inl hm)
    rcases (mem_getAllNodes_setBucket t index b' contact).mp hc with hmem | hmem
    · rcases hmove.mem_nodes hmem with hmem | ⟨m, hm, -, rfl⟩ | ⟨env, node, rfl, hnew, rfl⟩ |
        ⟨env, id, m, rfl, hx, hhead, rfl⟩
      · exact .inl ⟨contact, hold contact hmem, rfl, rfl, rfl⟩
      · exact .inl ⟨m, hold m hm, rfl, rfl, rfl⟩
      · refine .inr ?_
        rw [TableOp.nodeId_update] at hindex
        have hbefore : t.contains node.id = false := by
          rw [Bool.eq_false_iff, ne_eq, contains_iff_getOrCreate hindex]
          rintro ⟨x, hx, hid⟩
          exact hnew x hx hid
        have hafter : (t.update env node).2.contains node.id = true := hcontains
        rw [inserted, hbefore, hafter]
        rfl
      · refine .inr ?_
        have hbucket : ((t.getOrCreateBucket index).contains id) = true := by
          simpa [KBucket.contains] using hx
        have hid : t.bucketIndex id = some index := hindex
        simp only [inserted, hid, hbucket, hhead, if_true, Option.map_some]
    · exact .inl ⟨contact, (mem_getAllNodes_iff t index contact).mpr (.inr hmem), rfl, rfl, rfl⟩

/-! ## Contacts and candidates -/

/-- `P` holds of every contact and every candidate of the table. -/
def AllEntries (t : RoutingTable) (P : Node → Prop) : Prop :=
  t.AllBuckets fun _ b => ∀ n ∈ b.nodes ++ b.replacementCache, P n

def entries (t : RoutingTable) : List Node :=
  t.buckets.entries.flatMap fun entry => entry.2.nodes ++ entry.2.replacementCache

theorem allEntries_of_entries {t : RoutingTable} {P : Node → Prop} (h : ∀ n ∈ t.entries, P n) :
    t.AllEntries P := by
  intro index b hlookup n hn
  refine h n (List.mem_flatMap.mpr ⟨⟨index, b⟩, ?_, hn⟩)
  exact AList.mem_lookup_iff.mp hlookup

theorem AllEntries.step_env {t : RoutingTable} (hplaced : t.Placed) {P : Node → Prop}
    (h : t.AllEntries P) {op : TableOp} (hstamp : ∀ node, P node → P (node.updateLastSeen op.env))
    (hop : ∀ env node, op = .update env node → P node) : (t.step op).AllEntries P := by
  refine AllBuckets.step h (hplaced.step_spec op) (fun _ _ hb => hb)
    (fun _ _ _ hn => nomatch hn) ?_
  intro index b' _ hb hmove
  exact hmove.forall_stored_env hstamp hop hb

theorem AllEntries.step {t : RoutingTable} (hplaced : t.Placed) {P : Node → Prop}
    (h : t.AllEntries P) (hstamp : ∀ env node, P node → P (node.updateLastSeen env)) {op : TableOp}
    (hop : ∀ env node, op = .update env node → P node) : (t.step op).AllEntries P :=
  h.step_env hplaced (hstamp op.env) hop

/-- The contact that an update asks to ping is in the bucket of the new node, and is
another node. -/
theorem Placed.pendingPing_target {t : RoutingTable} (h : t.Placed) {env : Env} {node f : Node}
    (hupdate : (t.update env node).1 = .ok (.pendingPing f)) :
    ∃ index, t.bucketIndex node.id = some index ∧ t.bucketIndex f.id = some index ∧
      f ∈ (t.getOrCreateBucket index).nodes ∧ f.id ≠ node.id := by
  cases hindex : t.bucketIndex node.id with
  | none =>
    rw [h.update_of_none hindex] at hupdate
    cases hupdate
  | some index =>
    have hspec := KBucket.update_spec (t.getOrCreateBucket index) env node
    rw [h.pendingPing_bucket hindex hupdate] at hspec
    generalize ((t.getOrCreateBucket index).update env node).2 = b' at hspec
    cases hspec with
    | cached _ hnew _ _ hsplit _ =>
      have hmem : f ∈ (t.getOrCreateBucket index).nodes := by
        rw [hsplit]
        exact List.mem_cons_self
      exact ⟨index, rfl, (h.getOrCreate index).nodes f hmem, hmem, hnew f hmem⟩

/-! ## Every run -/

/-- In every table reached from an empty one the contacts and the candidates of bucket
`i` have bucket index `i` and are not the local node, no bucket splits, `update` never
takes its recursive branch and changes no other bucket, and `contains` finds exactly
the contacts of the table. -/
theorem placement_of_run (localNodeId : NodeId) (k : Nat) (hk : 1 ≤ k) (ops : List TableOp) :
    let t := run step (withK localNodeId k) ops
    (∀ index b, t.buckets.lookup index = some b →
      b.prefixLen = index ∧ b.shouldSplit = .ok false ∧
      ∀ n ∈ b.nodes ++ b.replacementCache,
        localNodeId.bucketIndex n.id = some index ∧ n.id ≠ localNodeId) ∧
    (∀ env node, ¬ t.TakesSplit env node ∧
      (∀ fuel, updateFuel (fuel + 1) t env node = t.updateOnce env node) ∧
      (t.update env node).1 ≠ .error .outOfFuel ∧
      ∀ index, t.bucketIndex node.id ≠ some index →
        (t.update env node).2.buckets.lookup index = t.buckets.lookup index) ∧
    ∀ id, t.contains id = true ↔ ∃ n ∈ t.getAllNodes, n.id = id := by
  intro t
  have ht : t.Placed := placed_run (placed_withK localNodeId k) ops
  obtain ⟨hlocal, htk⟩ : t.localNodeId = localNodeId ∧ t.k = k :=
    run_params (placed_withK localNodeId k) ops
  refine ⟨fun index b hlookup => ?_, fun env node => ?_, ht.contains_iff_mem⟩
  · have hb := ht.buckets index b hlookup
    refine ⟨hb.index_eq, hb.shouldSplit (.inr (htk.symm ▸ hk)), fun n hn => ?_⟩
    have hindex : localNodeId.bucketIndex n.id = some index := by
      rw [← hlocal]
      exact (List.mem_append.mp hn).elim (hb.nodes n) (hb.cache n)
    exact ⟨hindex, NodeId.ne_of_bucketIndex hindex⟩
  · refine ⟨ht.not_takesSplit env node, fun fuel => ht.updateFuel_eq fuel env node,
      t.update_ne_outOfFuel env node, fun index hindex => ?_⟩
    exact (ht.update_stepSpec env node).lookup_ne hindex

theorem placement_of_run_single :
    (run step (withK (NodeId.fromBytes []) 1) [.update (.at 0) (Node.ofByte 0x80)]).contains
      (NodeId.fromBytes [0x80]) = true := by
  have hplacement := placement_of_run (NodeId.fromBytes []) 1 (by decide)
    [.update (.at 0) (Node.ofByte 0x80)]
  exact (hplacement.2.2 _).mpr (by decide +kernel)

end RoutingTable

end Kademlia
