import Kademlia.Routing.Placement

/-!
# What an update takes in

An update of a table moves a contact that it knows, takes in a node that it does not
know, as a contact or as a candidate, or panics when the search for an unreliable
contact overflows.  Which of these happens depends on the identifier of the node and on
the table only, and what is taken in is the node with a new stamp.
-/

namespace Kademlia

open Lib

namespace KBucket

variable {b : KBucket} {env : Env} {node node' : Node}

/-- The outcomes of `update` by what the bucket does with the node: it knows the identifier, it
takes the node in as a contact or as a candidate, or its search overflows. -/
inductive TakeSpec (b : KBucket) (env : Env) (node : Node) :
    Outcome KBucketUpdate → KBucket → Prop where
  | known {b' : KBucket} (hknown : b.contains node.id = true)
      (hcontains : b'.contains node.id = true) : TakeSpec b env node (.ok .updated) b'
  | contact {b' : KBucket} (hnew : b.contains node.id = false) (hadmits : b.admission env = .admits)
      (hcontains : b'.contains node.id = true) : TakeSpec b env node (.ok .updated) b'
  | candidate {f : Node} {rest : List Node} (hnew : b.contains node.id = false)
      (hcaches : b.admission env = .caches) (hnodes : b.nodes = f :: rest) :
      TakeSpec b env node (.ok (.pendingPing f))
        { b with replacementCache := b.cacheWithout node.id ++ [node.updateLastSeen env] }
  | overflow {message : String} (hnew : b.contains node.id = false)
      (hfaults : b.admission env = .faults) : TakeSpec b env node (.error (.panic message)) b

theorem contains_eq_false_iff {id : NodeId} :
    b.contains id = false ↔ ∀ x ∈ b.nodes, x.id ≠ id := by
  simp [contains]

theorem update_takeSpec (hlocal : node.id ≠ b.localNodeId) :
    TakeSpec b env node (b.update env node).1 (b.update env node).2 := by
  have hlast : ∀ (xs : List Node) (n : Node), n.id = node.id →
      { b with nodes := xs ++ [n] }.contains node.id = true := by
    intro xs n hn
    simp [contains, hn]
  have hspec := update_spec b env node
  generalize (b.update env node).1 = result, (b.update env node).2 = b' at hspec ⊢
  cases hspec with
  | isLocal hlocal' => exact absurd hlocal' hlocal
  | refreshed _ hsplit =>
    have hknown : b.contains node.id = true := by
      simpa [contains] using ⟨_, hsplit.mem, hsplit.id_eq⟩
    exact .known hknown (hlast _ _ hsplit.id_eq)
  | inserted _ hnew hroom =>
    exact .contact (contains_eq_false_iff.mpr hnew) (admission_of_room hroom env) (hlast _ _ rfl)
  | overflowed _ hnew hfull hfault =>
    obtain rfl := unreliablePosition_eq_error hfault
    refine .overflow (contains_eq_false_iff.mpr hnew) ?_
    rw [admission_of_full hfull, hfault]
  | evicted _ hnew hfull hscan _ _ =>
    refine .contact (contains_eq_false_iff.mpr hnew) ?_ (hlast _ _ rfl)
    rw [admission_of_full hfull, hscan]
  | empty _ hfull hscan hempty =>
    refine .overflow ?_ ?_
    · simp [contains, hempty]
    · rw [admission_of_full hfull, hscan, hempty]
  | expired _ hnew hfull hscan hsplit hinactive =>
    refine .contact (contains_eq_false_iff.mpr hnew) ?_ (hlast _ _ rfl)
    rw [admission_of_full hfull, hscan, hsplit]
    simp [hinactive]
  | cached _ hnew hfull hscan hsplit hactive =>
    refine .candidate (contains_eq_false_iff.mpr hnew) ?_ hsplit
    rw [admission_of_full hfull, hscan, hsplit]
    simp [hactive]

/-- An update reads the identifier of a contact it knows, and of another node what the stamp
leaves of it. -/
theorem update_congr (hid : node.id = node'.id)
    (h : b.contains node.id = true ∨ b.admission env = .faults ∨
      node.updateLastSeen env = node'.updateLastSeen env) :
    b.update env node = b.update env node' := by
  unfold update
  rw [← hid]
  by_cases hlocal : node.id = b.localNodeId
  · rw [if_pos hlocal, if_pos hlocal]
  rw [if_neg hlocal, if_neg hlocal]
  cases hpos : positionOf b.nodes node.id with
  | some pos => rfl
  | none =>
    rcases h with hcontains | hfaults | hstamp
    · obtain ⟨x, hx, hxid⟩ : ∃ x ∈ b.nodes, x.id = node.id := by
        simpa [contains] using hcontains
      exact absurd hxid (positionOf_eq_none_iff.mp hpos x hx)
    · rw [admission] at hfaults
      by_cases hroom : b.nodes.length < b.k
      · rw [if_pos hroom] at hfaults
        cases hfaults
      rw [if_neg hroom] at hfaults
      simp only [hroom, if_false]
      cases hscan : b.unreliablePosition env with
      | error fault => rfl
      | ok found =>
        simp only [hscan] at hfaults
        cases found with
        | some pos => cases hfaults
        | none =>
          cases hnodes : b.nodes with
          | nil => rfl
          | cons front rest =>
            simp only [hnodes] at hfaults
            split_ifs at hfaults
    · simp only [hstamp]

/-- A node that is taken in is the last contact, or the last candidate. -/
theorem update_takesIn (hlocal : node.id ≠ b.localNodeId) (hnew : b.contains node.id = false)
    (hfaults : b.admission env ≠ .faults) :
    (if b.admission env = .admits then (b.update env node).2.nodes
      else (b.update env node).2.replacementCache).getLast? = some (node.updateLastSeen env) := by
  have habsent : ∀ x ∈ b.nodes, x.id ≠ node.id := by
    simpa [contains] using hnew
  have hmove := (update_spec b env node).move hlocal
  generalize (b.update env node).2 = b' at hmove ⊢
  cases hmove with
  | absent hop _ => exact absurd rfl (hop env node)
  | fault _ hfaults' => exact absurd hfaults' hfaults
  | refresh _ hsplit => exact absurd hsplit.id_eq (habsent _ hsplit.mem)
  | insert _ hroom =>
    rw [if_pos (admission_of_room hroom env)]
    exact List.getLast?_concat
  | evict _ hadmits _ =>
    rw [if_pos hadmits]
    exact List.getLast?_concat
  | cache _ hcaches =>
    rw [hcaches, if_neg (fun h => by cases h)]
    exact List.getLast?_concat

/-- The bucket of an identifier that it does not know decides alone whether an update
fails. -/
theorem update_eq_error_iff (hlocal : node.id ≠ b.localNodeId) :
    (∃ fault, (b.update env node).1 = .error fault) ↔
      b.contains node.id = false ∧ b.admission env = .faults := by
  have hspec : TakeSpec b env node _ _ := update_takeSpec hlocal
  generalize (b.update env node).1 = result, (b.update env node).2 = b' at hspec ⊢
  cases hspec with
  | known hknown _ => simp [hknown]
  | contact _ hadmits _ => simp [hadmits]
  | candidate _ hcaches _ => simp [hcaches]
  | overflow hnew hfaults => simp [hnew, hfaults]

/-- Handing an entry back for a contact that is in the bucket does not fail. -/
theorem update_eq_ok (hlocal : node.id ≠ b.localNodeId) (hknown : b.contains node.id = true) :
    ∃ update, (b.update env node).1 = .ok update := by
  cases hresult : (b.update env node).1 with
  | ok update => exact ⟨update, rfl⟩
  | error fault =>
    have hfault := (update_eq_error_iff hlocal).mp ⟨fault, hresult⟩
    rw [hknown] at hfault
    cases hfault.1

end KBucket

namespace RoutingTable

/-- The table does not know the identifier and takes it in, as a contact or as a
candidate. -/
def TakesIn (t : RoutingTable) (env : Env) (nodeId : NodeId) : Prop :=
  t.contains nodeId = false ∧
    ∃ index, t.bucketIndex nodeId = some index ∧ (t.getOrCreateBucket index).admission env ≠ .faults

/-- The table does not know the identifier, and the search for a contact to evict overflows. -/
def Overflows (t : RoutingTable) (env : Env) (nodeId : NodeId) : Prop :=
  t.contains nodeId = false ∧
    ∃ index, t.bucketIndex nodeId = some index ∧ (t.getOrCreateBucket index).admission env = .faults

theorem contains_eq_getOrCreate {t : RoutingTable} {nodeId : NodeId} {index : Nat}
    (hindex : t.bucketIndex nodeId = some index) :
    t.contains nodeId = (t.getOrCreateBucket index).contains nodeId := by
  rw [Bool.eq_iff_iff, contains_iff_getOrCreate hindex]
  simp [KBucket.contains]

theorem contains_setBucket {t : RoutingTable} {nodeId : NodeId} {index : Nat}
    (hindex : t.bucketIndex nodeId = some index) (b : KBucket) :
    (t.setBucket index b).contains nodeId = b.contains nodeId := by
  have hset : (t.setBucket index b).bucketIndex nodeId = some index := hindex
  rw [contains_eq_getOrCreate hset, getOrCreateBucket_of_lookup (t.lookup_setBucket index b)]

theorem updateLastSeen_eq_iff {env : Env} {node node' : Node} (hid : node.id = node'.id)
    (haddr : node.addr = node'.addr) :
    node.updateLastSeen env = node'.updateLastSeen env ↔
      node.responseStats = node'.responseStats := by
  constructor
  · intro h
    simpa only [Node.updateLastSeen] using congrArg (fun n : Node => n.responseStats) h
  · intro hstats
    rw [Node.updateLastSeen, Node.updateLastSeen, hid, haddr, hstats]

theorem Placed.update_congr {t : RoutingTable} (h : t.Placed) {env : Env} {node node' : Node}
    (hid : node.id = node'.id) (haddr : node.addr = node'.addr)
    (hstats : t.TakesIn env node.id → node.responseStats = node'.responseStats) :
    t.update env node = t.update env node' := by
  cases hindex : t.bucketIndex node.id with
  | none => rw [h.update_of_none hindex, h.update_of_none (hid ▸ hindex)]
  | some index =>
    have hcases : (t.getOrCreateBucket index).contains node.id = true ∨
        (t.getOrCreateBucket index).admission env = .faults ∨
        node.updateLastSeen env = node'.updateLastSeen env := by
      by_cases hcontains : t.contains node.id = true
      · exact .inl (contains_eq_getOrCreate hindex ▸ hcontains)
      by_cases hfaults : (t.getOrCreateBucket index).admission env = .faults
      · exact .inr (.inl hfaults)
      have htakes : t.TakesIn env node.id :=
        ⟨Bool.eq_false_iff.mpr hcontains, index, hindex, hfaults⟩
      exact .inr (.inr ((updateLastSeen_eq_iff hid haddr).mpr (hstats htakes)))
    rw [h.update_of_index hindex, h.update_of_index (hid ▸ hindex), KBucket.update_congr hid hcases]

/-- The statistics that are taken in can be read off the table. -/
theorem Placed.stats_eq_of_update_eq {t : RoutingTable} (h : t.Placed) {env : Env}
    {node node' : Node}
    (hid : node.id = node'.id) (htakes : t.TakesIn env node.id)
    (heq : (t.update env node).2 = (t.update env node').2) :
    node.responseStats = node'.responseStats := by
  obtain ⟨hnew, index, hindex, hfaults⟩ := htakes
  have hlocal := h.ne_local hindex
  have hlast : ∀ n : Node, n.id = node.id →
      (if (t.getOrCreateBucket index).admission env = .admits
        then ((t.getOrCreateBucket index).update env n).2.nodes
        else ((t.getOrCreateBucket index).update env n).2.replacementCache).getLast? =
        some (n.updateLastSeen env) := by
    intro n hn
    apply KBucket.update_takesIn _ _ hfaults
    · rw [hn]
      exact hlocal
    · rw [hn, ← contains_eq_getOrCreate hindex]
      exact hnew
  have hbuckets : ((t.getOrCreateBucket index).update env node).2 =
      ((t.getOrCreateBucket index).update env node').2 := by
    rw [h.update_of_index hindex, h.update_of_index (hid ▸ hindex)] at heq
    have hlookup := congrArg (fun t : RoutingTable => t.buckets.lookup index) heq
    simpa only [lookup_setBucket, Option.some.injEq] using hlookup
  have hstamp := hlast node rfl
  rw [hbuckets, hlast node' hid.symm] at hstamp
  exact (congrArg Node.responseStats (Option.some.inj hstamp)).symm

theorem Placed.update_eq_error_iff {t : RoutingTable} (h : t.Placed) {env : Env} {node : Node} :
    (∃ fault, (t.update env node).1 = .error fault) ↔ t.Overflows env node.id := by
  cases hindex : t.bucketIndex node.id with
  | none =>
    rw [h.update_of_none hindex]
    simp [Overflows, hindex]
  | some index =>
    have hiff : (∃ fault, ((t.getOrCreateBucket index).update env node).1 = .error fault) ↔ _ :=
      KBucket.update_eq_error_iff (h.ne_local hindex)
    rw [← contains_eq_getOrCreate hindex] at hiff
    have hoverflows : t.Overflows env node.id ↔
        t.contains node.id = false ∧ (t.getOrCreateBucket index).admission env = .faults := by
      simp [Overflows, hindex]
    rw [hoverflows, ← hiff]
    exact exists_congr fun fault => h.update_eq_error_bucket hindex

/-- Bookkeeping for a contact does not fail. -/
theorem Placed.withContact_eq_ok {t : RoutingTable} (h : t.Placed) (env : Env) (nodeId : NodeId)
    {edit : Node → Node} (hedit : ∀ node, (edit node).id = node.id) :
    (t.withContact env nodeId edit).1 = .ok () := by
  unfold withContact
  cases hindex : t.bucketIndex nodeId with
  | none => rfl
  | some index =>
    cases hlookup : t.buckets.lookup index with
    | none => simp only [hlookup]
    | some b =>
      cases hget : b.get nodeId with
      | none => simp only [hlookup, hget]
      | some node =>
        have hnode : node ∈ b.nodes := List.mem_of_find?_eq_some hget
        have hid : (edit node).id = nodeId := by
          rw [hedit]
          simpa using List.find?_some hget
        have hlocal := h.ne_local hindex
        rw [getOrCreateBucket_of_lookup hlookup, ← hid] at hlocal
        have hknown : b.contains (edit node).id = true := by
          simp only [KBucket.contains, List.any_eq_true, beq_iff_eq]
          exact ⟨node, hnode, (hedit node).symm⟩
        obtain ⟨update, hupdate⟩ : ∃ update, (b.update env (edit node)).1 = .ok update :=
          KBucket.update_eq_ok hlocal hknown
        simp only [hlookup, hget]
        rcases hresult : b.update env (edit node) with ⟨result, bucket⟩
        rw [hresult] at hupdate
        obtain rfl : result = .ok update := hupdate
        rfl

end RoutingTable

end Kademlia
