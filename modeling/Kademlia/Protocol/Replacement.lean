import Kademlia.Protocol.ReadYourWrites
import Kademlia.Routing.Removal

/-!
# The place of a contact that failed its health check

A node that meets a full bucket becomes the last candidate of the bucket, and the front
contact is pinged.  When that fails, the contact is removed and the node is handed to the
table again.  The removal gives the place to the candidate that has waited longest, so the
node itself gets it only if no other candidate waits.  Otherwise the second update finds
the bucket full as before.
-/

namespace Kademlia

open Lib

namespace KBucket

variable {b : KBucket} {env : Env} {node f : Node}

/-- The contacts without the first one that has the identifier. -/
def nodesWithout (b : KBucket) (id : NodeId) : List Node := b.nodes.eraseP fun n => n.id == id

theorem SplitAt.eraseP_eq {xs l r : List Node} {x : Node} {id : NodeId} (h : SplitAt xs l x r id) :
    (xs.eraseP fun n => n.id == id) = l ++ r := by
  have hbefore : ∀ y ∈ l, ¬ (y.id == id) = true := by
    intro y hy
    simpa using h.before y hy
  rw [h.eq, List.eraseP_append_right _ hbefore, List.eraseP_cons_of_pos (by simpa using h.id_eq)]

/-- What an update did that asks to ping a contact. -/
theorem update_pendingPing (hlocal : node.id ≠ b.localNodeId)
    (h : (b.update env node).1 = .ok (.pendingPing f)) :
    (∃ rest, b.nodes = f :: rest) ∧ (∀ x ∈ b.nodes, x.id ≠ node.id) ∧
      (b.update env node).2 =
        { b with replacementCache := b.cacheWithout node.id ++ [node.updateLastSeen env] } := by
  have hspec : TakeSpec b env node _ _ := update_takeSpec hlocal
  rw [h] at hspec
  generalize (b.update env node).2 = b' at hspec ⊢
  cases hspec with
  | candidate hnew _ hnodes => exact ⟨⟨_, hnodes⟩, contains_eq_false_iff.mp hnew, rfl⟩

/-- The front candidate takes the place of the contact that is removed. -/
theorem remove_of_cache {id : NodeId} {candidate : Node} {cache : List Node}
    (hmem : ∃ n ∈ b.nodes, n.id = id) (hcache : b.replacementCache = candidate :: cache) :
    (b.remove env id).2 =
      { b with
        nodes := b.nodesWithout id ++ [candidate.updateLastSeen env]
        replacementCache := cache } := by
  have hspec := remove_spec b env id
  generalize (b.remove env id).1 = result, (b.remove env id).2 = b' at hspec ⊢
  cases hspec with
  | absent hnew =>
    obtain ⟨n, hn, hid⟩ := hmem
    exact absurd hid (hnew n hn)
  | dropped _ hnil =>
    rw [hcache] at hnil
    cases hnil
  | promoted hsplit hcons =>
    rw [hcache] at hcons
    obtain ⟨rfl, rfl⟩ := List.cons.inj hcons
    rw [nodesWithout, hsplit.eraseP_eq]

/-- Handing the front contact back moves it to the back. -/
theorem update_front {rest : List Node} (hnodes : b.nodes = f :: rest) (hid : node.id = f.id)
    (hlocal : f.id ≠ b.localNodeId) :
    (b.update env node).2 = { b with nodes := rest ++ [f.updateLastSeen env] } := by
  have hmem : f ∈ b.nodes := by
    rw [hnodes]
    exact List.mem_cons_self
  obtain ⟨l, existing, r, hsplit, hresult⟩ :=
    (update_spec b env node).refreshed_of_mem hid hlocal hmem rfl
  have heq := hsplit.eq
  rw [hnodes] at heq
  cases l with
  | nil =>
    obtain ⟨rfl, rfl⟩ := List.cons.inj heq
    exact hresult
  | cons x l =>
    obtain ⟨rfl, -⟩ := List.cons.inj heq
    exact absurd rfl (hsplit.before f List.mem_cons_self)

/-- An update goes through for a contact, and for another node that is admitted. -/
theorem update_updated (hlocal : node.id ≠ b.localNodeId)
    (h : b.contains node.id = true ∨ b.admission env = .admits) :
    (b.update env node).1 = .ok .updated ∧ (b.update env node).2.contains node.id = true := by
  have hspec : TakeSpec b env node _ _ := update_takeSpec hlocal
  generalize (b.update env node).1 = result, (b.update env node).2 = b' at hspec ⊢
  cases hspec with
  | known _ hcontains => exact ⟨rfl, hcontains⟩
  | contact _ _ hcontains => exact ⟨rfl, hcontains⟩
  | candidate hnew hcaches _ => simp [hnew, hcaches] at h
  | overflow hnew hfaults => simp [hnew, hfaults] at h

/-- An update for a node that is not admitted changes no contact, and the node stays or
becomes the last candidate. -/
theorem update_not_updated (hlocal : node.id ≠ b.localNodeId) (hnew : b.contains node.id = false)
    (hadmits : b.admission env ≠ .admits) (hlast : ∃ m, b.replacementCache.getLast? = some m ∧
      m.id = node.id) :
    (b.update env node).1 ≠ .ok .updated ∧ (b.update env node).2.nodes = b.nodes ∧
      ∃ m, (b.update env node).2.replacementCache.getLast? = some m ∧ m.id = node.id := by
  have hspec : TakeSpec b env node _ _ := update_takeSpec hlocal
  generalize (b.update env node).1 = result, (b.update env node).2 = b' at hspec ⊢
  cases hspec with
  | known hknown _ =>
    rw [hnew] at hknown
    cases hknown
  | contact _ hadmits' _ => exact absurd hadmits' hadmits
  | candidate _ _ _ => exact ⟨(fun h => by cases h), rfl, _, List.getLast?_concat, rfl⟩
  | overflow _ _ => exact ⟨(fun h => by cases h), rfl, hlast⟩

/-- The node is the only candidate, and the removal of another contact has promoted it. -/
theorem update_remove_single {evict retry : Env} {id : NodeId} {last : Node}
    (hlocal : node.id ≠ b.localNodeId) (hmem : ∃ n ∈ b.nodes, n.id = id)
    (hcache : b.replacementCache = [last]) (hlast : last.id = node.id) :
    ((b.remove evict id).2.update retry node).1 = .ok .updated ∧
      ((b.remove evict id).2.update retry node).2.contains node.id = true := by
  rw [remove_of_cache hmem hcache]
  refine update_updated hlocal (.inl ?_)
  simp [contains, hlast]

/-- The node is the last of several candidates, and the removal has promoted the first one.
The bucket does not admit the node. -/
theorem update_remove_refused {evict retry : Env} {id : NodeId} {candidate last : Node}
    {rest : List Node} (hlocal : node.id ≠ b.localNodeId) (hmem : ∃ n ∈ b.nodes, n.id = id)
    (hnew : ∀ x ∈ b.nodes, x.id ≠ node.id)
    (hcache : b.replacementCache = candidate :: (rest ++ [last])) (hlast : last.id = node.id)
    (hcandidate : candidate.id ≠ node.id)
    (hrefused : (b.remove evict id).2.admission retry ≠ .admits) :
    ((b.remove evict id).2.update retry node).1 ≠ .ok .updated ∧
      ((b.remove evict id).2.update retry node).2.contains candidate.id = true ∧
      ((b.remove evict id).2.update retry node).2.contains node.id = false ∧
      ∃ m, ((b.remove evict id).2.update retry node).2.replacementCache.getLast? = some m ∧
        m.id = node.id := by
  have hb : (b.remove evict id).2 = _ := remove_of_cache hmem hcache
  generalize (b.remove evict id).2 = b' at hb hrefused ⊢
  have hlocal' : node.id ≠ b'.localNodeId := by
    rw [hb]
    exact hlocal
  have habsent : b'.contains node.id = false := by
    rw [hb, contains_eq_false_iff]
    intro x hx
    rcases List.mem_append.mp hx with hx | hx
    · exact hnew x (List.mem_of_mem_eraseP hx)
    · rw [List.mem_singleton.mp hx]
      exact hcandidate
  have hwaiting : ∃ m, b'.replacementCache.getLast? = some m ∧ m.id = node.id := by
    rw [hb]
    exact ⟨last, List.getLast?_concat, hlast⟩
  obtain ⟨hupdated, hnodes, hwaits⟩ := update_not_updated hlocal' habsent hrefused hwaiting
  refine ⟨hupdated, ?_, ?_, hwaits⟩
  · rw [contains, hnodes, hb]
    simp
  · rw [contains, hnodes]
    exact habsent

/-- The candidates of a bucket have different identifiers. -/
def DistinctCandidates (b : KBucket) : Prop := (b.replacementCache.map Node.id).Nodup

theorem DistinctCandidates.move {b b' : KBucket} {op : TableOp} (h : b.DistinctCandidates)
    (hmove : Move b op b') : b'.DistinctCandidates := by
  unfold DistinctCandidates at h ⊢
  cases hmove with
  | cache _ _ =>
    have hids : ([] ++ b.replacementCache.map Node.id).Nodup := h
    rw [List.map_append, map_id_cacheWithout]
    exact nodup_recache hids List.not_mem_nil
  | promote _ hcache =>
    rw [hcache, List.map_cons] at h
    exact (List.nodup_cons.mp h).2
  | _ => exact h

theorem DistinctCandidates.ne_of_mem_cacheWithout {b : KBucket} (h : b.DistinctCandidates)
    {id : NodeId} {candidate : Node} (hmem : candidate ∈ b.cacheWithout id) : candidate.id ≠ id := by
  intro hid
  have hids : candidate.id ∈ (b.cacheWithout id).map Node.id := List.mem_map_of_mem hmem
  rw [map_id_cacheWithout, hid] at hids
  exact List.Nodup.not_mem_erase h hids

end KBucket

namespace RoutingTable

theorem distinctCandidates_run (localNodeId : NodeId) (k : Nat) (ops : List TableOp) (index : Nat) :
    ((run step (withK localNodeId k) ops).getOrCreateBucket index).DistinctCandidates := by
  have hall : (run step (withK localNodeId k) ops).Placed ∧
      (run step (withK localNodeId k) ops).AllBuckets fun _ => KBucket.DistinctCandidates := by
    refine invariant (P := fun t : RoutingTable => t.Placed ∧ t.AllBuckets fun _ =>
      KBucket.DistinctCandidates) ?_ ⟨placed_withK localNodeId k, fun _ _ h => nomatch h⟩ ops
    intro t op ⟨hplaced, hdistinct⟩
    refine ⟨hplaced.step op, hdistinct.step (hplaced.step_spec op) (fun _ _ h => h) ?_ ?_⟩
    · intro _ _
      exact List.nodup_nil
    · intro _ _ _ hb hmove
      exact hb.move hmove
  exact hall.2.getOrCreate index List.nodup_nil

variable {t : RoutingTable} {env : Env} {node f : Node} {index : Nat}

/-- A failure that is recorded for the front contact of a bucket moves it to the back. -/
theorem Placed.recordFailure_front (h : t.Placed) {b : KBucket} {rest : List Node}
    (hindex : t.bucketIndex f.id = some index) (hlookup : t.buckets.lookup index = some b)
    (hnodes : b.nodes = f :: rest) :
    (t.recordFailure env f.id).2 =
      t.setBucket index { b with nodes := rest ++ [f.updateLastSeen env] } := by
  have hget : b.get f.id = some f := by
    rw [KBucket.get, hnodes, List.find?_cons_of_pos (by simp)]
  have hlocal := h.ne_local hindex
  rw [getOrCreateBucket_of_lookup hlookup] at hlocal
  have hupdate : (b.update env { f with responseStats := f.responseStats.recordFailure }).2 =
      { b with nodes := rest ++ [f.updateLastSeen env] } :=
    KBucket.update_front hnodes rfl hlocal
  simp only [recordFailure, withContact, hindex, hlookup, hget]
  rw [← hupdate]
  split
  · rename_i hresult
    rw [hresult]
  · rename_i hresult
    rw [hresult]

end RoutingTable

namespace RecordContact

/-- The surroundings of the removal and of the update after it, when a check fails. -/
def Check.failure : Check → Option (Env × Env)
  | answered _ _ _ => none
  | timedOut _ evict retry => some (evict, retry)
  | failed evict retry => some (evict, retry)

/-- The bucket of a contact at its front whose check has failed.  The timeout moves the
contact to the back. -/
def Check.checked (b : KBucket) (nodeToPing : Node) : Check → KBucket
  | timedOut env _ _ => { b with nodes := b.nodes.tail ++ [nodeToPing.updateLastSeen env] }
  | _ => b

theorem Check.checked_cache (check : Check) (b : KBucket) (nodeToPing : Node) (cache : List Node) :
    check.checked { b with replacementCache := cache } nodeToPing =
      { check.checked b nodeToPing with replacementCache := cache } := by
  cases check <;> rfl

/-- The check brings no other identifier among the contacts, and leaves its own there. -/
theorem Check.mem_checked (check : Check) {b : KBucket} {nodeToPing : Node} {rest : List Node}
    (hnodes : b.nodes = nodeToPing :: rest) :
    (∃ n ∈ (check.checked b nodeToPing).nodes, n.id = nodeToPing.id) ∧
      ∀ n ∈ (check.checked b nodeToPing).nodes, ∃ m ∈ b.nodes, n.id = m.id := by
  have hfront : nodeToPing ∈ b.nodes := by
    rw [hnodes]
    exact List.mem_cons_self
  have hsame : (∃ n ∈ b.nodes, n.id = nodeToPing.id) ∧
      ∀ n ∈ b.nodes, ∃ m ∈ b.nodes, n.id = m.id :=
    ⟨⟨nodeToPing, hfront, rfl⟩, fun n hn => ⟨n, hn, rfl⟩⟩
  cases check with
  | answered env responseTimeMs seen => exact hsame
  | failed evict retry => exact hsame
  | timedOut env evict retry =>
    refine ⟨⟨_, List.mem_append_right _ List.mem_cons_self, rfl⟩, ?_⟩
    intro n hn
    rcases List.mem_append.mp hn with hn | hn
    · exact ⟨n, List.mem_of_mem_tail hn, rfl⟩
    · rw [List.mem_singleton.mp hn]
      exact ⟨nodeToPing, hfront, rfl⟩

/-- The bucket with a candidate in the place of the contact that failed. -/
def standIn (b : KBucket) (nodeToPing candidate : Node) (evict : Env) : KBucket :=
  { b with nodes := b.nodesWithout nodeToPing.id ++ [candidate.updateLastSeen evict] }

/-- The node is a contact, and the call says that it is new. -/
def Replaced (node : Node) (result : RoutingTable × Phase) : Prop :=
  result.1.contains node.id = true ∧ result.2 = .finished (.ok true)

/-- A candidate is a contact in the place of the node, which is the last candidate. -/
structure Queued (node candidate : Node) (index : Nat) (result : RoutingTable × Phase) : Prop where
  candidate : result.1.contains candidate.id = true
  absent : result.1.contains node.id = false
  last : ∃ m, (result.1.getOrCreateBucket index).replacementCache.getLast? = some m ∧
    m.id = node.id
  phase : result.2 ≠ .finished (.ok true)

section Retry

variable (nodeId : NodeId) {t : RoutingTable} {node f : Node} {index : Nat} {b : KBucket}

theorem next_retry (ht : t.Placed) (hindex : t.bucketIndex node.id = some index)
    (hlookup : t.buckets.lookup index = some b) (env : Env) :
    (next nodeId t node (.removed false) (.retry env)).1 =
        t.setBucket index (b.update env node).2 ∧
      ((next nodeId t node (.removed false) (.retry env)).2 = .finished (.ok true) ↔
        (b.update env node).1 = .ok .updated) := by
  rw [next, ht.update_of_index hindex, RoutingTable.getOrCreateBucket_of_lookup hlookup]
  rcases b.update env node with ⟨fault | update, bucket⟩
  · simp [Except.map]
  · cases update <;> simp [Except.map, UpdateStatus.ofBucket]

theorem next_evict (hindex : t.bucketIndex f.id = some index)
    (hlookup : t.buckets.lookup index = some b) (wasKnown : Bool) (env : Env) :
    next nodeId t node (.failed wasKnown f) (.evict env) =
      (t.setBucket index (b.remove env f.id).2, .removed wasKnown) := by
  rw [next_removed, RoutingTable.remove_of_lookup hindex hlookup]

/-- The removal and the second update are those of one bucket. -/
theorem run_evict_bucket (ht : t.Placed) (hnode : t.bucketIndex node.id = some index)
    (hping : t.bucketIndex f.id = some index) (hlookup : t.buckets.lookup index = some b)
    (evict retry : Env) :
    let result := run (fun call st => next nodeId call.1 node call.2 st) (t, .failed false f)
      [.evict evict, .retry retry]
    result.1 = (t.setBucket index (b.remove evict f.id).2).setBucket index
        ((b.remove evict f.id).2.update retry node).2 ∧
      (result.2 = .finished (.ok true) ↔
        ((b.remove evict f.id).2.update retry node).1 = .ok .updated) := by
  intro result
  have hrun : result = next nodeId (t.setBucket index (b.remove evict f.id).2) node
      (.removed false) (.retry retry) := by
    show next nodeId (next nodeId t node _ _).1 node (next nodeId t node _ _).2 _ = _
    rw [next_evict nodeId hping hlookup]
  have hplaced : (t.setBucket index (b.remove evict f.id).2).Placed := by
    have hstep := ht.step (.remove evict f.id)
    rw [RoutingTable.step, RoutingTable.remove_of_lookup hping hlookup] at hstep
    exact hstep
  rw [hrun]
  exact next_retry nodeId hplaced hnode (t.lookup_setBucket index _) retry

/-- The removal and the second update, in a bucket whose last candidate is the node. -/
theorem run_evict (ht : t.Placed) (hnode : t.bucketIndex node.id = some index)
    (hping : t.bucketIndex f.id = some index) (hlookup : t.buckets.lookup index = some b)
    (hmem : ∃ n ∈ b.nodes, n.id = f.id) (hnew : ∀ x ∈ b.nodes, x.id ≠ node.id)
    {others : List Node} {last : Node} (hcache : b.replacementCache = others ++ [last])
    (hlast : last.id = node.id) (hothers : ∀ x ∈ others, x.id ≠ node.id) (evict retry : Env) :
    let result := run (fun call st => next nodeId call.1 node call.2 st) (t, .failed false f)
      [.evict evict, .retry retry]
    (others = [] → Replaced node result) ∧
      ∀ candidate rest, others = candidate :: rest →
        ((standIn b f candidate evict).admission retry = .admits → Replaced node result) ∧
        ((standIn b f candidate evict).admission retry ≠ .admits →
          Queued node candidate index result) := by
  intro result
  obtain ⟨htable, hphase⟩ : result.1 = _ ∧ (result.2 = _ ↔ _) :=
    run_evict_bucket nodeId ht hnode hping hlookup evict retry
  have hcontains : ∀ n : Node, t.bucketIndex n.id = some index → result.1.contains n.id =
      ((b.remove evict f.id).2.update retry node).2.contains n.id := by
    intro n hn
    have hset : (t.setBucket index (b.remove evict f.id).2).bucketIndex n.id = some index := hn
    rw [htable]
    exact RoutingTable.contains_setBucket hset _
  have hlocal : node.id ≠ b.localNodeId := by
    have hne := ht.ne_local hnode
    rwa [RoutingTable.getOrCreateBucket_of_lookup hlookup] at hne
  have hreplaced : ((b.remove evict f.id).2.update retry node).1 = .ok .updated ∧
      ((b.remove evict f.id).2.update retry node).2.contains node.id = true →
      Replaced node result := by
    intro ⟨hupdated, hin⟩
    exact ⟨(hcontains node hnode).trans hin, hphase.mpr hupdated⟩
  constructor
  · rintro rfl
    exact hreplaced (KBucket.update_remove_single hlocal hmem hcache hlast)
  · rintro candidate rest rfl
    have hb : (b.remove evict f.id).2 = _ := KBucket.remove_of_cache hmem hcache
    have hadmission : (b.remove evict f.id).2.admission retry =
        (standIn b f candidate evict).admission retry := by
      rw [hb]
      rfl
    rw [← hadmission]
    constructor
    · intro hadmits
      refine hreplaced (KBucket.update_updated ?_ (.inr hadmits))
      rw [hb]
      exact hlocal
    · intro hrefused
      obtain ⟨hupdated, hin, hout, hwaits⟩ := KBucket.update_remove_refused hlocal hmem hnew hcache
        hlast (hothers candidate List.mem_cons_self) hrefused
      have hcandidate : t.bucketIndex candidate.id = some index := by
        refine (ht.buckets index b hlookup).cache candidate ?_
        rw [hcache]
        exact List.mem_cons_self
      constructor
      · exact (hcontains candidate hcandidate).trans hin
      · exact (hcontains node hnode).trans hout
      · rw [htable, RoutingTable.getOrCreateBucket_of_lookup (RoutingTable.lookup_setBucket _ _ _)]
        exact hwaits
      · intro hfinished
        exact hupdated (hphase.mp hfinished)

/-- A check of the front contact that fails leaves the contact in its bucket. -/
theorem run_check (node : Node) (ht : t.Placed) (hping : t.bucketIndex f.id = some index)
    (hlookup : t.buckets.lookup index = some b) {rest : List Node} (hnodes : b.nodes = f :: rest)
    (wasKnown : Bool) {check : Check} {evict retry : Env}
    (hfails : check.failure = some (evict, retry)) :
    ∃ t' : RoutingTable, t'.Placed ∧ t'.localNodeId = t.localNodeId ∧
      (t' = t ∨ ∃ env, t' = t.step (.recordFailure env f.id)) ∧
      t'.buckets.lookup index = some (check.checked b f) ∧
      run (fun call st => next nodeId call.1 node call.2 st) (t, .checking wasKnown f) check.steps =
        run (fun call st => next nodeId call.1 node call.2 st) (t', .failed wasKnown f)
          [.evict evict, .retry retry] := by
  cases check with
  | answered env responseTimeMs seen => cases hfails
  | timedOut env evict' retry' =>
    obtain ⟨rfl, rfl⟩ := Prod.mk.inj (Option.some.inj hfails)
    have hfailure : (t.recordFailure env f.id).2 = _ := ht.recordFailure_front hping hlookup hnodes
    have hchecking : next nodeId t node (.checking wasKnown f) (.timeout env) =
        ((t.recordFailure env f.id).2, .failed wasKnown f) :=
      ignoring_of_ok _ (recordFailure_eq_ok ht env f.id)
    refine ⟨(t.recordFailure env f.id).2, ht.step (.recordFailure env f.id), ?_, .inr ⟨env, rfl⟩,
      ?_, ?_⟩
    · rw [hfailure]
      rfl
    · rw [hfailure, RoutingTable.lookup_setBucket, Check.checked, hnodes, List.tail_cons]
    · rw [Check.steps, run_cons, hchecking]
  | failed evict' retry' =>
    obtain ⟨rfl, rfl⟩ := Prod.mk.inj (Option.some.inj hfails)
    exact ⟨t, ht, rfl, .inl rfl, hlookup, rfl⟩

end Retry

/-- A call whose first update asks to ping a contact. -/
theorem recordContact_pendingPing {nodeId : NodeId} {t : RoutingTable} {node f : Node}
    {input : Input} (hself : node.id ≠ nodeId)
    (hupdate : (t.update input.env node).1 = .ok (.pendingPing f))
    (hcheck : ∃ timeouts, Rpc.healthCheckPing.timeouts (t.update input.env node).2 input.timeout f =
      .ok timeouts) :
    recordContact nodeId t node input =
      run (fun call st => next nodeId call.1 node call.2 st)
        ((t.update input.env node).2, .checking (t.contains node.id) f) input.check.steps := by
  obtain ⟨timeouts, htimeouts⟩ := hcheck
  unfold recordContact contact
  rw [if_neg hself]
  rcases hresult : t.update input.env node with ⟨result, t'⟩
  rw [hresult] at hupdate htimeouts
  obtain rfl : result = .ok (.pendingPing f) := hupdate
  simp only [htimeouts]

theorem recordContact_failed {nodeId : NodeId} {t : RoutingTable} (ht : t.Placed)
    (hlocal : t.localNodeId = nodeId) {node f : Node} {index : Nat}
    (hnode : t.bucketIndex node.id = some index)
    (hdistinct : (t.getOrCreateBucket index).DistinctCandidates) {input : Input} {evict retry : Env}
    (hupdate : (t.update input.env node).1 = .ok (.pendingPing f))
    (hcheck : ∃ timeouts, Rpc.healthCheckPing.timeouts (t.update input.env node).2 input.timeout f =
      .ok timeouts)
    (hfails : input.check.failure = some (evict, retry)) :
    let result := recordContact nodeId t node input
    let b := t.getOrCreateBucket index
    (b.cacheWithout node.id = [] → Replaced node result) ∧
    ∀ candidate rest, b.cacheWithout node.id = candidate :: rest →
      ((standIn (input.check.checked b f) f candidate evict).admission retry = .admits →
        Replaced node result) ∧
      ((standIn (input.check.checked b f) f candidate evict).admission retry ≠ .admits →
        Queued node candidate index result) := by
  intro result b
  obtain ⟨index', hindex', hping, -, -⟩ := ht.pendingPing_target hupdate
  obtain rfl : index = index' := Option.some.inj (hnode.symm.trans hindex')
  obtain ⟨⟨rest, hnodes⟩, hnew, hcached⟩ :=
    KBucket.update_pendingPing (ht.ne_local hnode) (ht.pendingPing_bucket hnode hupdate)
  have hself : node.id ≠ nodeId := hlocal ▸ NodeId.ne_of_bucketIndex hnode
  have hunknown : t.contains node.id = false := by
    rw [RoutingTable.contains_eq_getOrCreate hnode, KBucket.contains_eq_false_iff]
    exact hnew
  have htable : (t.update input.env node).2 = t.setBucket index
      { b with replacementCache := b.cacheWithout node.id ++ [node.updateLastSeen input.env] } := by
    rw [ht.update_of_index hnode, hcached]
  have hplaced : (t.update input.env node).2.Placed := ht.step (.update input.env node)
  rw [htable] at hplaced
  obtain ⟨t', ht', hlocal', -, hlookup', hrun⟩ := run_check nodeId node hplaced hping
    (t.lookup_setBucket index _) hnodes false hfails
  have hresult : result = run (fun call st => next nodeId call.1 node call.2 st)
      (t', .failed false f) [.evict evict, .retry retry] := by
    rw [← hrun, ← htable, ← hunknown]
    exact recordContact_pendingPing hself hupdate hcheck
  have hindex : ∀ id, t'.bucketIndex id = t.bucketIndex id := by
    intro id
    rw [RoutingTable.bucketIndex, hlocal']
    rfl
  obtain ⟨hmem, hsub⟩ := input.check.mem_checked hnodes
  have hnew' : ∀ x ∈ (input.check.checked b f).nodes, x.id ≠ node.id := by
    intro x hx
    obtain ⟨m, hm, hid⟩ := hsub x hx
    rw [hid]
    exact hnew m hm
  have hothers : ∀ x ∈ b.cacheWithout node.id, x.id ≠ node.id :=
    fun x hx => hdistinct.ne_of_mem_cacheWithout hx
  rw [Check.checked_cache] at hlookup'
  have hsettled := run_evict nodeId ht' ((hindex node.id).trans hnode) ((hindex f.id).trans hping)
    hlookup' hmem hnew' rfl (Node.updateLastSeen_id node input.env) hothers evict retry
  rw [hresult]
  exact hsettled

/-- For every table reached by any operations: when the update for a node asks to ping a
contact and the check of the contact fails, the candidate that has waited longest gets its
place.  The node is a contact afterwards, and the call says so, if no other candidate
waits, or if the bucket with the candidate in it admits the node.  Otherwise the candidate
is a contact and the node is the last candidate. -/
theorem replacement_of_failed_check (nodeId : NodeId) (k : Nat) (ops : List TableOp)
    (node f : Node) (input : Input) (evict retry : Env) :
    let t := run RoutingTable.step (.withK nodeId k) ops
    let result := recordContact nodeId t node input
    (t.update input.env node).1 = .ok (.pendingPing f) →
    (∃ timeouts, Rpc.healthCheckPing.timeouts (t.update input.env node).2 input.timeout f =
      .ok timeouts) →
    input.check.failure = some (evict, retry) →
    ∃ index, t.bucketIndex node.id = some index ∧
      let b := t.getOrCreateBucket index
      (b.cacheWithout node.id = [] → Replaced node result) ∧
      ∀ candidate rest, b.cacheWithout node.id = candidate :: rest →
        ((standIn (input.check.checked b f) f candidate evict).admission retry = .admits →
          Replaced node result) ∧
        ((standIn (input.check.checked b f) f candidate evict).admission retry ≠ .admits →
          Queued node candidate index result) := by
  intro t result hupdate hcheck hfails
  have ht : t.Placed := RoutingTable.placed_run (RoutingTable.placed_withK nodeId k) ops
  have hlocal : t.localNodeId = nodeId :=
    (RoutingTable.run_params (RoutingTable.placed_withK nodeId k) ops).1
  obtain ⟨index, hnode, -, -, -⟩ := ht.pendingPing_target hupdate
  have hdistinct := RoutingTable.distinctCandidates_run nodeId k ops index
  exact ⟨index, hnode, recordContact_failed ht hlocal hnode hdistinct hupdate hcheck hfails⟩

/-- A contact of a full bucket of one, which fails its check at once. -/
def failedInput : Input :=
  { env := .at 0, timeout := .at 0, check := .failed (.at 0) (.at 0) }

/-- No other candidate waits, and the node gets the place. -/
theorem replacement_without_candidates :
    Replaced (Node.ofByte 0xC0) (recordContact (NodeId.fromBytes [])
      (run RoutingTable.step (.withK (NodeId.fromBytes []) 1)
        [.update (.at 0) (Node.ofByte 0x80)]) (Node.ofByte 0xC0) failedInput) := by
  obtain ⟨index, hindex, hreplaced, -⟩ := replacement_of_failed_check (NodeId.fromBytes []) 1
    [.update (.at 0) (Node.ofByte 0x80)] (Node.ofByte 0xC0)
    ((Node.ofByte 0x80).updateLastSeen (.at 0)) failedInput (.at 0) (.at 0)
    (by decide +kernel) ⟨(Duration.fromSecs 5, Duration.fromSecs 5), by decide +kernel⟩ rfl
  obtain rfl : 0 = index := by
    have hzero : (run RoutingTable.step (.withK (NodeId.fromBytes []) 1)
        [.update (.at 0) (Node.ofByte 0x80)]).bucketIndex (Node.ofByte 0xC0).id = some 0 := by
      decide +kernel
    exact Option.some.inj (hzero.symm.trans hindex)
  exact hreplaced (by decide +kernel)

/-- The candidate that came before the node gets the place. -/
theorem earlier_candidate_replaces :
    ¬ ∀ (nodeId : NodeId) (k : Nat), 1 ≤ k → ∀ (ops : List TableOp) (node f : Node) (input : Input)
      (evict retry : Env),
      let t := run RoutingTable.step (.withK nodeId k) ops
      (t.update input.env node).1 = .ok (.pendingPing f) →
      (∃ timeouts, Rpc.healthCheckPing.timeouts (t.update input.env node).2 input.timeout f =
        .ok timeouts) →
      input.check.failure = some (evict, retry) →
      Replaced node (recordContact nodeId t node input) := by
  intro h
  have hreplaced := h (NodeId.fromBytes []) 1 (by decide)
    [.update (.at 0) (Node.ofByte 0x80), .update (.at 0) (Node.ofByte 0xC0)] (Node.ofByte 0xA0)
    ((Node.ofByte 0x80).updateLastSeen (.at 0)) failedInput (.at 0) (.at 0)
    (by decide +kernel) ⟨(Duration.fromSecs 5, Duration.fromSecs 5), by decide +kernel⟩ rfl
  have hcontains := hreplaced.1
  revert hcontains
  decide +kernel

end RecordContact

end Kademlia
