import Kademlia.Protocol.Queries

/-!
# What a lookup of nodes finds

A failed query of `find_node` removes the node that stands at its position by then, which may be
another one.  Whatever fails, the list stays what its callers take it for: the nodes in it are
in the order of their distances, each identifier once, the own one not at all, and a node that
has left it does not come back.
-/

namespace Kademlia

open Lib

namespace FindNode

/-- The node is one of the first ones, or an answer of the first `n` rounds has named it. -/
def Named (first : List Node) (rounds : Nat → Nat → Reply) (n : Nat) (node : Node) : Prop :=
  node ∈ first ∨ ∃ m < n, ∃ i < FindValue.alpha, node ∈ (rounds m i).nodes

variable {nodeId target : NodeId} {s : State} {replies : Nat → Reply}
  {rounds : Nat → Nat → Reply} {i m n : Nat} {node : Node}

/-- A node that has been seen does not come in. -/
theorem mem_of_mem_step (hseen : node.id ∈ s.seen)
    (h : node ∈ (step target s replies).closestNodes) : node ∈ s.closestNodes := by
  rw [step] at h
  split_ifs at h
  · exact mem_consumed_of_le hseen (Nat.zero_le _) (Nat.min_le_left _ _) h
  · exact h

theorem mem_consumed (h : node ∈ (s.consumed target replies i).closestNodes) :
    node ∈ s.closestNodes ∨ ∃ j < i, node ∈ (replies j).nodes := by
  induction i with
  | zero => exact .inl h
  | succ i ih =>
    have hbefore : node ∈ (s.consumed target replies i).closestNodes →
        node ∈ s.closestNodes ∨ ∃ j < i + 1, node ∈ (replies j).nodes := by
      intro hold
      exact (ih hold).imp_right fun ⟨j, hj, hnode⟩ => ⟨j, Nat.lt_succ_of_lt hj, hnode⟩
    rw [State.consumed] at h
    by_cases hle : (s.consumed target replies i).closestNodes.length ≤ i
    · rw [consume_of_le hle] at h
      exact hbefore h
    · have hlt := Nat.not_le.mp hle
      cases hreply : (replies i).result with
      | ok nodes =>
        rw [(consume_ok target hlt hreply).1] at h
        have hmem := (sortByKey_perm _ _).mem_iff.mp (List.mem_of_mem_take h)
        rcases List.mem_append.mp hmem with hold | hnew
        · exact hbefore hold
        · refine .inr ⟨i, Nat.lt_succ_self i, ?_⟩
          rw [Reply.nodes_of_ok hreply]
          exact mem_of_mem_unseen hnew
      | error error =>
        rw [consume_error hlt hreply] at h
        exact hbefore (List.mem_of_mem_eraseIdx h)

theorem length_consumed (h : s.closestNodes.length ≤ K) (i : Nat) :
    (s.consumed target replies i).closestNodes.length ≤ K := by
  induction i with
  | zero => exact h
  | succ i ih =>
    rw [State.consumed]
    by_cases hle : (s.consumed target replies i).closestNodes.length ≤ i
    · rwa [consume_of_le hle]
    · have hlt := Nat.not_le.mp hle
      cases hreply : (replies i).result with
      | ok nodes =>
        rw [(consume_ok target hlt hreply).1]
        exact List.length_take_le _ _
      | error error =>
        rw [consume_error hlt hreply]
        exact Nat.le_trans (List.eraseIdx_sublist _ _).length_le ih

theorem length_step (h : s.closestNodes.length ≤ K) (replies : Nat → Reply) :
    (step target s replies).closestNodes.length ≤ K := by
  rw [step]
  split_ifs
  · exact length_consumed h _
  · exact h

theorem named_after (rounds : Nat → Nat → Reply)
    (h : node ∈ (after (step target) s rounds n).closestNodes) :
    Named s.closestNodes rounds n node := by
  induction n with
  | zero => exact .inl h
  | succ n ih =>
    have hbefore : node ∈ (after (step target) s rounds n).closestNodes →
        Named s.closestNodes rounds (n + 1) node := by
      intro hold
      exact (ih hold).imp_right fun ⟨m, hm, hnamed⟩ => ⟨m, Nat.lt_succ_of_lt hm, hnamed⟩
    rw [after, step] at h
    split_ifs at h
    · rcases mem_consumed h with hold | ⟨j, hj, hnode⟩
      · exact hbefore hold
      · exact .inr ⟨n, Nat.lt_succ_self n, j, Nat.lt_of_lt_of_le hj (Nat.min_le_left _ _), hnode⟩
    · exact hbefore h

theorem seen_subset_after (s : State) (rounds : Nat → Nat → Reply) (hle : m ≤ n) :
    (after (step target) s rounds m).seen ⊆ (after (step target) s rounds n).seen := by
  induction hle with
  | refl => exact List.Subset.refl _
  | step _ ih => exact List.Subset.trans ih (seen_subset_step _ _ _)

/-- A node of the list that was seen some rounds ago was in the list then. -/
theorem mem_after_of_seen (hle : m ≤ n) (hseen : node.id ∈ (after (step target) s rounds m).seen)
    (h : node ∈ (after (step target) s rounds n).closestNodes) :
    node ∈ (after (step target) s rounds m).closestNodes := by
  induction hle with
  | refl => exact h
  | step hle ih => exact ih (mem_of_mem_step (seen_subset_after s rounds hle hseen) h)

theorem ordered_initial (nodeId target : NodeId) {table : RoutingTable}
    (hdistinct : (table.getAllNodes.map Node.id).Nodup) :
    Ordered target (initial nodeId target table) := by
  obtain ⟨others, hperm, -⟩ := (table.getClosest_spec target K).least
  refine ordered_start nodeId table ?_
  exact ((hperm.map Node.id).nodup_iff.mpr hdistinct).sublist
    ((List.sublist_append_left _ _).map _)

theorem avoids_initial (nodeId target : NodeId) (k : Nat) (ops : List TableOp) :
    Avoids nodeId (initial nodeId target (run RoutingTable.step (.withK nodeId k) ops)) := by
  refine ⟨List.mem_cons_self, ?_⟩
  intro node hnode
  obtain ⟨others, hperm, -⟩ := ((run RoutingTable.step (.withK nodeId k) ops).getClosest_spec target
    K).least
  exact RoutingTable.ne_of_mem_getAllNodes ops (hperm.mem_iff.mp (List.mem_append_left _ hnode))

/-- A lookup of nodes from a table with different identifiers, for all replies and failures.  In
every round the list is strictly sorted by the distance to the target, has 20 nodes at most, each
from the table or from an answer, and not the local one, and no node comes back that has left it. -/
theorem found_nodes (nodeId target : NodeId) (k : Nat) (ops : List TableOp)
    (hdistinct : ((run RoutingTable.step (.withK nodeId k) ops).getAllNodes.map Node.id).Nodup)
    (rounds : Nat → Nat → Reply) (n : Nat) :
    let table := run RoutingTable.step (.withK nodeId k) ops
    let list := fun m => (after (step target) (initial nodeId target table) rounds m).closestNodes
    (list n).Pairwise (KeyLT (distanceTo target)) ∧ (list n).length ≤ K ∧
    (∀ node ∈ list n, node.id ≠ nodeId ∧ Named (table.getClosest target K) rounds n node) ∧
    ∀ l m, l ≤ m → m ≤ n → ∀ node ∈ list l, node ∉ list m → ∀ other ∈ list n,
      other.id ≠ node.id := by
  intro table list
  have hordered : ∀ m, Ordered target (after (step target) (initial nodeId target table) rounds m) :=
    fun m => after_invariant (fun _ replies hs => hs.step replies)
      (ordered_initial nodeId target hdistinct) m
  have havoids : Avoids nodeId (after (step target) (initial nodeId target table) rounds n) :=
    after_invariant (fun _ replies hs => hs.step replies) (avoids_initial nodeId target k ops) n
  have hlength : (list n).length ≤ K :=
    after_invariant (P := fun s : State => s.closestNodes.length ≤ K)
      (fun _ replies hs => length_step hs replies) (List.length_take_le _ _) n
  refine ⟨(hordered n).sorted, hlength, ?_, ?_⟩
  · intro node hnode
    exact ⟨havoids.absent node hnode, named_after rounds hnode⟩
  · intro l m hlm hmn node hnode hleft other hother hid
    have hseen : other.id ∈ (after (step target) (initial nodeId target table) rounds l).seen :=
      hid ▸ (hordered l).seen node hnode
    have hthen : other ∈ list l := mem_after_of_seen (Nat.le_trans hlm hmn) hseen hother
    obtain rfl : other = node :=
      List.inj_on_of_nodup_map (nodup_of_sorted (hordered l).sorted) hthen hnode hid
    exact hleft (mem_after_of_seen hmn (seen_subset_after _ rounds hlm hseen) hother)

/-- The one contact names five closer nodes, and in the next round nobody answers.  That removes
the nodes at the positions 0, 1 and 2 as the list shrinks. -/
def namedThenSilent (round _ : Nat) : Reply :=
  if round = 0 then
    .response (.nodesFound 1 (Node.ofByte 0x80) [Node.ofByte 0xfa, Node.ofByte 0xfb,
      Node.ofByte 0xfc, Node.ofByte 0xfd, Node.ofByte 0xfe])
  else .timedOut

theorem found_nodes_namedThenSilent :
    let list := (after (step (NodeId.fromBytes [0xff])) (initial (NodeId.fromBytes [0])
      (NodeId.fromBytes [0xff]) (run RoutingTable.step (.withK (NodeId.fromBytes [0]) K)
        [.update (.at 0) (Node.ofByte 0x80)])) namedThenSilent 2).closestNodes
    list.map Node.id = [NodeId.fromBytes [0xfd], NodeId.fromBytes [0xfb], NodeId.fromBytes [0x80]] ∧
      list.Pairwise (KeyLT (distanceTo (NodeId.fromBytes [0xff]))) :=
  ⟨by decide +kernel, (found_nodes (NodeId.fromBytes [0]) (NodeId.fromBytes [0xff]) K
    [.update (.at 0) (Node.ofByte 0x80)] (by decide +kernel) namedThenSilent 2).1⟩

end FindNode

end Kademlia
