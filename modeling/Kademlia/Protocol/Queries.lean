import Kademlia.Protocol.Convergence
import Kademlia.Routing.Placement

/-!
# Which nodes a lookup asks

Neither lookup should ask a node twice.  `find_node` keeps the nodes it has *seen* and asks
the first `ALPHA` nodes of its list in every round, whether they were asked before or not.  A
node is left alone in a later round only if `ALPHA` closer ones stand before it by then.

`find_value` keeps the nodes it has *visited* and asks no such node again.  Within one round
it can still ask a node twice, for its list may hold an identifier more than once.
-/

namespace Kademlia

open Lib

namespace FindNode

variable {nodeId target : NodeId} {s : State} {rounds : Nat → Nat → Reply} {n : Nat}

/-- The identifiers that a round asks. -/
def State.requested (s : State) : List NodeId :=
  if s.Searching then (s.closestNodes.take FindValue.alpha).map Node.id else []

/-- The identifiers asked in the first `n` rounds. -/
def requestedIds (target : NodeId) (s : State) (rounds : Nat → Nat → Reply) (n : Nat) :
    List NodeId :=
  (List.range n).flatMap fun m => (after (step target) s rounds m).requested

/-- Up to round `n`, no identifier is asked twice and the local one is not asked. -/
def AsksOnce (nodeId target : NodeId) (s : State) (rounds : Nat → Nat → Reply) (n : Nat) : Prop :=
  (requestedIds target s rounds n).Nodup ∧ nodeId ∉ requestedIds target s rounds n

/-- When round `n` begins, `ALPHA` nodes of the list are closer than any node of the list that
was asked before. -/
def AskedOvertaken (target : NodeId) (s : State) (rounds : Nat → Nat → Reply) (n : Nat) : Prop :=
  (after (step target) s rounds n).Searching →
    ∀ node ∈ (after (step target) s rounds n).closestNodes,
      node.id ∈ requestedIds target s rounds n → FindValue.alpha ≤
        (after (step target) s rounds n).closestNodes.countP (KeyLT (distanceTo target) · node)

/-- The local node is not in the list and will not enter it. -/
structure Avoids (nodeId : NodeId) (s : State) : Prop where
  seen : nodeId ∈ s.seen
  absent : ∀ node ∈ s.closestNodes, node.id ≠ nodeId

theorem Avoids.step (h : Avoids nodeId s) (replies : Nat → Reply) :
    Avoids nodeId (step target s replies) := by
  refine ⟨seen_subset_step target s replies h.seen, ?_⟩
  intro node hnode hid
  rw [FindNode.step] at hnode
  split_ifs at hnode
  · have hseen : node.id ∈ s.seen := hid ▸ h.seen
    have hmem : node ∈ s.closestNodes :=
      mem_consumed_of_le hseen (Nat.zero_le _) (Nat.min_le_left _ _) hnode
    exact h.absent node hmem hid
  · exact h.absent node hnode hid

theorem requestedIds_succ (target : NodeId) (s : State) (rounds : Nat → Nat → Reply) (n : Nat) :
    requestedIds target s rounds (n + 1) =
      requestedIds target s rounds n ++ (after (step target) s rounds n).requested := by
  rw [requestedIds, List.range_succ, List.flatMap_append, List.flatMap_singleton]
  rfl

theorem nodup_requested (h : Ordered target s) : s.requested.Nodup := by
  unfold State.requested
  split_ifs
  · exact (nodup_of_sorted h.sorted).sublist ((List.take_sublist _ _).map _)
  · exact List.nodup_nil

theorem Avoids.not_mem_requested (h : Avoids nodeId s) : nodeId ∉ s.requested := by
  intro hmem
  unfold State.requested at hmem
  split_ifs at hmem
  · obtain ⟨node, hnode, hid⟩ := List.mem_map.mp hmem
    exact h.absent node (List.mem_of_mem_take hnode) hid
  · cases hmem

/-- A node of the list is asked unless `ALPHA` nodes are closer. -/
theorem mem_requested_iff (h : Ordered target s) (hsearching : s.Searching) {node : Node}
    (hnode : node ∈ s.closestNodes) : node.id ∈ s.requested ↔
      s.closestNodes.countP (KeyLT (distanceTo target) · node) < FindValue.alpha := by
  rw [State.requested, if_pos hsearching]
  constructor
  · intro hmem
    obtain ⟨other, hother, hid⟩ := List.mem_map.mp hmem
    obtain rfl : other = node :=
      List.inj_on_of_nodup_map (nodup_of_sorted h.sorted) (List.mem_of_mem_take hother) hnode hid
    have hget := getElem?_countP_keyLT (h.sorted.sublist (List.take_sublist _ _)) hother
    have hlt := (List.getElem?_eq_some_iff.mp hget).1
    rw [countP_keyLT_take h.sorted hother] at hlt
    exact Nat.lt_of_lt_of_le hlt (List.length_take_le _ _)
  · intro hlt
    exact List.mem_map_of_mem (mem_take_of_countP_keyLT h.sorted hnode hlt)

/-- A round asks no node again if and only if all nodes asked before are overtaken. -/
theorem disjoint_requested_iff (h : Ordered target (after (step target) s rounds n)) :
    (∀ id ∈ requestedIds target s rounds n, id ∉ (after (step target) s rounds n).requested) ↔
      AskedOvertaken target s rounds n := by
  constructor
  · intro hdisjoint hsearching node hnode hasked
    by_contra hnot
    exact hdisjoint _ hasked ((mem_requested_iff h hsearching hnode).mpr (Nat.not_le.mp hnot))
  · intro hovertaken id hasked hmem
    have hrequested := hmem
    unfold State.requested at hmem
    split_ifs at hmem with hsearching
    · obtain ⟨node, hnode, rfl⟩ := List.mem_map.mp hmem
      have hlist := List.mem_of_mem_take hnode
      have hlt := (mem_requested_iff h hsearching hlist).mp hrequested
      have hle := hovertaken hsearching node hlist hasked
      omega
    · cases hmem

theorem asksOnce_iff (hordered : Ordered target s) (havoids : Avoids nodeId s) :
    AsksOnce nodeId target s rounds n ↔ ∀ m < n, AskedOvertaken target s rounds m := by
  induction n with
  | zero =>
    refine iff_of_true ⟨List.nodup_nil, List.not_mem_nil⟩ ?_
    intro m hm
    exact absurd hm (Nat.not_lt_zero m)
  | succ n ih =>
    have hordered' : Ordered target (after (step target) s rounds n) :=
      after_invariant (fun _ replies hs => hs.step replies) hordered n
    have havoids' : Avoids nodeId (after (step target) s rounds n) :=
      after_invariant (fun _ replies hs => hs.step replies) havoids n
    rw [Nat.forall_lt_succ_right, ← ih, ← disjoint_requested_iff hordered', AsksOnce, AsksOnce,
      requestedIds_succ, List.nodup_append', List.mem_append, not_or]
    constructor
    · intro ⟨⟨hbefore, _, hdisjoint⟩, hlocal, _⟩
      exact ⟨⟨hbefore, hlocal⟩, fun id hasked hmem => hdisjoint hasked hmem⟩
    · intro ⟨⟨hbefore, hlocal⟩, hdisjoint⟩
      exact ⟨⟨hbefore, nodup_requested hordered', fun id hasked hmem => hdisjoint id hasked hmem⟩,
        hlocal, havoids'.not_mem_requested⟩

end FindNode

namespace FindValue

variable {l : Lookup}

/-- No identifier has been asked twice, and the local one has not been asked. -/
def AsksOnce (l : Lookup) : Prop :=
  (l.queried.map Node.id).Nodup ∧ l.state.nodeId ∉ l.queried.map Node.id

/-- The first `ALPHA` unvisited nodes of the list have different identifiers when a round
begins. -/
def DistinctTasks (l : Lookup) (event : Event) : Prop :=
  match event, l.state.phase with
  | .lookup .query, .searching iteration closestNodes visited =>
    iteration < maxIterations →
      (((unvisited l.state.nodeId closestNodes visited).take alpha).map Node.id).Nodup
  | _, _ => True

theorem step_nodeId (s : State) (event : Event) : (step s event).nodeId = s.nodeId := by
  cases event with
  | lookup st => exact advance_nodeId s st
  | write now key value => rfl
  | table op => rfl

/-- The nodes of a round have not been asked before. -/
theorem Lookup.Visits.fresh {iteration : Nat} {closestNodes : List Node} {visited : List NodeId}
    (h : l.Visits) (hphase : l.state.phase = .searching iteration closestNodes visited)
    {id : NodeId} (hid : id ∈ (nodesToQuery l.state.nodeId closestNodes visited).map Node.id) :
    id ∉ l.queried.map Node.id ∧ id ≠ l.state.nodeId := by
  rw [Lookup.Visits, hphase] at h
  obtain ⟨node, hnode, rfl⟩ := List.mem_map.mp hid
  obtain ⟨-, hnot, hne⟩ := mem_unvisited.mp (List.mem_of_mem_take hnode)
  exact ⟨fun hasked => hnot ((h _).mpr (.inr hasked)), hne⟩

theorem asksOnce_query_iff {iteration : Nat} {closestNodes : List Node} {visited : List NodeId}
    (hvisits : l.Visits) (h : AsksOnce l)
    (hphase : l.state.phase = .searching iteration closestNodes visited) :
    AsksOnce (l.step (.lookup .query)) ↔ (iteration < maxIterations →
      ((nodesToQuery l.state.nodeId closestNodes visited).map Node.id).Nodup) := by
  have hqueried : (l.step (.lookup .query)).queried =
      if iteration < maxIterations then
        nodesToQuery l.state.nodeId closestNodes visited ++ l.queried
      else l.queried := by
    simp only [Lookup.step, hphase]
  have hnodeId : (l.step (.lookup .query)).state.nodeId = l.state.nodeId := by
    simp only [Lookup.step, hphase]
    exact step_nodeId l.state _
  rw [AsksOnce, hqueried, hnodeId]
  by_cases hlt : iteration < maxIterations
  · rw [if_pos hlt, List.map_append, List.nodup_append', List.mem_append, not_or]
    constructor
    · intro hasks _
      exact hasks.1.1
    · intro hdistinct
      refine ⟨⟨hdistinct hlt, h.1, ?_⟩, ?_, h.2⟩
      · intro id hid hasked
        exact (hvisits.fresh hphase hid).1 hasked
      · exact fun hmem => (hvisits.fresh hphase hmem).2 rfl
  · rw [if_neg hlt]
    exact iff_of_true h fun hlt' => absurd hlt' hlt

theorem asksOnce_step_iff {event : Event} (hvisits : l.Visits) (h : AsksOnce l) :
    AsksOnce (l.step event) ↔ DistinctTasks l event := by
  have hsame : (∀ iteration closestNodes visited, event = .lookup .query →
      l.state.phase ≠ .searching iteration closestNodes visited) →
      l.step event = { l with state := step l.state event } := by
    intro hother
    unfold Lookup.step
    split
    · rename_i hphase
      exact absurd hphase (hother _ _ _ rfl)
    · rfl
  by_cases hsearching : event = .lookup .query ∧
      ∃ iteration closestNodes visited, l.state.phase = .searching iteration closestNodes visited
  · obtain ⟨rfl, iteration, closestNodes, visited, hphase⟩ := hsearching
    rw [asksOnce_query_iff hvisits h hphase]
    simp only [DistinctTasks, hphase]
    rfl
  · have hdistinct : DistinctTasks l event := by
      unfold DistinctTasks
      split
      · rename_i hphase
        exact absurd ⟨rfl, _, _, _, hphase⟩ hsearching
      · trivial
    rw [hsame fun _ _ _ hevent hphase => hsearching ⟨hevent, _, _, _, hphase⟩, AsksOnce,
      step_nodeId]
    exact iff_of_true h hdistinct

theorem asksOnce_throughout_iff (nodeId key : NodeId) (table : RoutingTable)
    (storage : MemoryStorage) (events : List Event) :
    Throughout Lookup.step AsksOnce (Lookup.start nodeId key table storage) events ↔
      Meets Lookup.step DistinctTasks (Lookup.start nodeId key table storage) events := by
  have hstart : (Lookup.start nodeId key table storage).Visits := rfl
  have hasks : AsksOnce (Lookup.start nodeId key table storage) :=
    ⟨List.nodup_nil, List.not_mem_nil⟩
  refine throughout_iff_meets (I := Lookup.Visits) ?_ ?_ hstart hasks
  · intro l event h
    exact h.step event
  · intro l event hvisits h
    exact asksOnce_step_iff hvisits h

end FindValue

/-- The local node is not a contact of its table. -/
theorem RoutingTable.ne_of_mem_getAllNodes {localNodeId : NodeId} {k : Nat} (ops : List TableOp)
    {node : Node} (h : node ∈ (run step (withK localNodeId k) ops).getAllNodes) :
    node.id ≠ localNodeId := by
  have ht := placed_run (placed_withK localNodeId k) ops
  have hlocal := (run_params (placed_withK localNodeId k) ops).1
  obtain ⟨index, b, hlookup, hmem⟩ := mem_getAllNodes.mp h
  have hindex := (ht.buckets index b hlookup).nodes node hmem
  rw [hlocal] at hindex
  exact NodeId.ne_of_bucketIndex hindex

/-- The lookups of a node from a table with different identifiers, for all replies.  A lookup
of nodes asks no node twice if and only if in each round `ALPHA` nodes of its list are closer
than the nodes asked before, and a lookup of a value if and only if in each round the first
`ALPHA` unvisited nodes of its list have different identifiers. -/
theorem lookups_ask_once_iff (nodeId : NodeId) (k : Nat) (ops : List TableOp)
    (hdistinct : ((run RoutingTable.step (.withK nodeId k) ops).getAllNodes.map Node.id).Nodup) :
    let table := run RoutingTable.step (.withK nodeId k) ops
    (∀ target rounds n, FindNode.AsksOnce nodeId target
        (FindNode.initial nodeId target table) rounds n ↔
      ∀ m < n, FindNode.AskedOvertaken target (FindNode.initial nodeId target table) rounds m) ∧
    ∀ key storage events,
      Throughout FindValue.Lookup.step FindValue.AsksOnce
          (FindValue.Lookup.start nodeId key table storage) events ↔
        Meets FindValue.Lookup.step FindValue.DistinctTasks
          (FindValue.Lookup.start nodeId key table storage) events := by
  intro table
  refine ⟨fun target rounds n => ?_, fun key storage events =>
    FindValue.asksOnce_throughout_iff nodeId key table storage events⟩
  have htable : table.Placed := RoutingTable.placed_run (RoutingTable.placed_withK nodeId k) ops
  have hclosest := (table.getClosest_spec target K).least
  have hnodup : ((table.getClosest target K).map Node.id).Nodup := by
    obtain ⟨others, hperm, -⟩ := hclosest
    exact ((hperm.map Node.id).nodup_iff.mpr hdistinct).sublist
      ((List.sublist_append_left _ _).map _)
  have havoids : FindNode.Avoids nodeId (FindNode.initial nodeId target table) := by
    refine ⟨List.mem_cons_self, fun node hnode => ?_⟩
    obtain ⟨others, hperm, -⟩ := hclosest
    exact RoutingTable.ne_of_mem_getAllNodes ops (hperm.mem_iff.mp (List.mem_append_left _ hnode))
  exact FindNode.asksOnce_iff (FindNode.ordered_start nodeId table hnodup) havoids

/-- The one contact answers with five nodes that are closer, so it is not asked again. -/
theorem contact_overtaken_by_five :
    FindNode.AsksOnce (NodeId.fromBytes [0]) (NodeId.fromBytes [0xff])
      (FindNode.initial (NodeId.fromBytes [0]) (NodeId.fromBytes [0xff])
        (run RoutingTable.step (.withK (NodeId.fromBytes [0]) K)
          [.update (.at 0) (Node.ofByte 0x80)]))
      (fun _ _ => .response (.nodesFound 1 (Node.ofByte 0x80) [Node.ofByte 0xfa, Node.ofByte 0xfb,
        Node.ofByte 0xfc, Node.ofByte 0xfd, Node.ofByte 0xfe])) 2 :=
  ((lookups_ask_once_iff (NodeId.fromBytes [0]) K [.update (.at 0) (Node.ofByte 0x80)]
    (by decide +kernel)).1 _ _ 2).mpr (by unfold FindNode.AskedOvertaken; decide +kernel)

/-- The one contact is asked again in the second round of a lookup of nodes.  In a lookup of a
value, a node that one answer lists twice is asked twice. -/
theorem contact_asked_again :
    (¬ ∀ (nodeId : NodeId) (k : Nat) (ops : List TableOp),
      ((run RoutingTable.step (.withK nodeId k) ops).getAllNodes.map Node.id).Nodup →
        ∀ target rounds n, FindNode.AsksOnce nodeId target
          (FindNode.initial nodeId target (run RoutingTable.step (.withK nodeId k) ops))
          rounds n) ∧
    ¬ ∀ (nodeId : NodeId) (k : Nat) (ops : List TableOp),
      ((run RoutingTable.step (.withK nodeId k) ops).getAllNodes.map Node.id).Nodup →
        ∀ key storage events, Throughout FindValue.Lookup.step FindValue.AsksOnce
          (FindValue.Lookup.start nodeId key (run RoutingTable.step (.withK nodeId k) ops) storage)
          events := by
  constructor
  · intro h
    have hasks := (h (NodeId.fromBytes [0]) K [.update (.at 0) (Node.ofByte 0x80)]
      (by decide +kernel) (NodeId.fromBytes [0x81])
      (fun _ _ => .response (.nodesFound 1 (Node.ofByte 0x80) [Node.ofByte 0x81])) 2).1
    revert hasks
    decide +kernel
  · intro h
    have hasks := (h (NodeId.fromBytes [0]) K [.update (.at 0) (Node.ofByte 0x80)]
      (by decide +kernel) (NodeId.fromBytes [7]) .new
      [.lookup (.check 0), .lookup .select, .lookup .query,
        .lookup (.await (.response (.valueFound 1 (Node.ofByte 0x80) none
          [Node.ofByte 6, Node.ofByte 6]))), .lookup .collect, .lookup .query]).last.1
    revert hasks
    decide +kernel

end Kademlia
