import Kademlia.Protocol.FindNode

/-!
# Failed queries in a lookup of nodes

A failed query removes the node at the position of its request, but the errors before it
have moved the queried node towards the front of the list and the new nodes closer to the
target have moved it towards the end.  The queried node stands at its position when the two
cancel out.

When they do for every failed query of a round, each removes its own node: the rank of a
queried node whose query fails is followed through the round, and it is never so large that
the node is cut off.
-/

namespace Kademlia

open Lib

namespace FindNode

/-- The node is in the list when an answer has been added and the list sorted, and `K` nodes
that are as close to the target are kept in place of it. -/
def State.Cut (target : NodeId) (s : State) (idx : Nat) (reply : Reply) (node : Node) : Prop :=
  idx < s.closestNodes.length ∧ ∃ nodes, reply.result = .ok nodes ∧
    let candidates := sortByKey (distanceTo target) (nodes.foldl State.addNode s).closestNodes
    node ∈ candidates.drop K ∧ (candidates.take K).length = K ∧
      ∀ other ∈ candidates.take K, KeyLE (distanceTo target) other node

/-- By one of the first `j` results, the query of the node failed or the node was cut off. -/
def Accounted (target : NodeId) (s : State) (replies : Nat → Reply) (j : Nat) (node : Node) :
    Prop :=
  (∃ i < j, (replies i).isError = true ∧ node ∈ s.closestNodes[i]?) ∨
    ∃ i < j, (s.consumed target replies i).Cut target i (replies i) node

/-- At the end of the round no node is left whose query failed, and of the nodes at its start
only those are gone whose own query failed or that were cut off. -/
def HandlesFailures (target : NodeId) (s : State) (replies : Nat → Reply) : Prop :=
  s.Searching →
    (∀ i < s.active, (replies i).isError = true → ∀ node ∈ s.closestNodes[i]?,
      ∀ other ∈ (s.round target replies).closestNodes, other.id ≠ node.id) ∧
    ∀ node ∈ s.closestNodes, node ∉ (s.round target replies).closestNodes →
      Accounted target s replies s.active node

/-- As many queries before a failed one have failed as new nodes closer to the target than its
node are in the answers before it. -/
def Aligned (target : NodeId) (s : State) (replies : Nat → Reply) : Prop :=
  s.Searching → ∀ i < s.active, (replies i).isError = true → ∀ node ∈ s.closestNodes[i]?,
    errorsBefore replies i = (s.learned replies i).countP (KeyLT (distanceTo target) · node)

instance (target : NodeId) (s : State) (replies : Nat → Reply) :
    Decidable (Aligned target s replies) :=
  inferInstanceAs (Decidable (s.Searching → ∀ i < s.active, (replies i).isError = true →
    ∀ node ∈ s.closestNodes[i]?, errorsBefore replies i =
      (s.learned replies i).countP (KeyLT (distanceTo target) · node)))

variable {target : NodeId} {s s' : State} {replies : Nat → Reply} {i j : Nat}

/-! ## The order of the list -/

/-- The list is strictly sorted by the distance to the target, and its nodes have been seen. -/
structure Ordered (target : NodeId) (s : State) : Prop where
  sorted : s.closestNodes.Pairwise (KeyLT (distanceTo target))
  seen : ∀ node ∈ s.closestNodes, node.id ∈ s.seen

theorem id_ne_of_keyLT {a b : Node} (h : KeyLT (distanceTo target) a b) : a.id ≠ b.id := by
  intro heq
  have hself : compare (distanceTo target a) (distanceTo target b) = .eq := by
    rw [distanceTo, distanceTo, heq]
    exact Std.ReflCmp.compare_self
  rw [show compare (distanceTo target a) (distanceTo target b) = .lt from h] at hself
  cases hself

theorem nodup_of_sorted {nodes : List Node} (h : nodes.Pairwise (KeyLT (distanceTo target))) :
    (nodes.map Node.id).Nodup :=
  List.pairwise_map.mpr (h.imp id_ne_of_keyLT)

theorem not_mem_seen_of_mem_unseen {nodes : List Node} {seen : List NodeId} {node : Node}
    (h : node ∈ unseen seen nodes) : node.id ∉ seen := by
  induction nodes generalizing seen with
  | nil => cases h
  | cons first rest ih =>
    rw [unseen] at h
    split_ifs at h with hseen
    · exact ih h
    · rcases List.mem_cons.mp h with rfl | h
      · simpa using hseen
      · exact fun hmem => ih h (List.mem_cons_of_mem _ hmem)

theorem nodup_unseen (nodes : List Node) (seen : List NodeId) :
    ((unseen seen nodes).map Node.id).Nodup := by
  induction nodes generalizing seen with
  | nil => exact List.nodup_nil
  | cons first rest ih =>
    rw [unseen]
    split_ifs
    · exact ih seen
    · rw [List.map_cons, List.nodup_cons]
      refine ⟨?_, ih _⟩
      intro hmem
      obtain ⟨node, hnode, hid⟩ := List.mem_map.mp hmem
      exact not_mem_seen_of_mem_unseen hnode (hid ▸ List.mem_cons_self)

theorem mem_of_mem_unseen {nodes : List Node} {seen : List NodeId} {node : Node}
    (h : node ∈ unseen seen nodes) : node ∈ nodes := by
  induction nodes generalizing seen with
  | nil => cases h
  | cons first rest ih =>
    rw [unseen] at h
    split_ifs at h
    · exact List.mem_cons_of_mem _ (ih h)
    · rcases List.mem_cons.mp h with rfl | h
      · exact List.mem_cons_self
      · exact List.mem_cons_of_mem _ (ih h)

/-- With an answer added, the list can be sorted strictly. -/
theorem Ordered.merged (h : Ordered target s) (nodes : List Node) :
    (sortByKey (distanceTo target) (s.closestNodes ++ unseen s.seen nodes)).Pairwise
      (KeyLT (distanceTo target)) := by
  have hnodup : ((s.closestNodes ++ unseen s.seen nodes).map Node.id).Nodup := by
    rw [List.map_append, List.nodup_append']
    refine ⟨nodup_of_sorted h.sorted, nodup_unseen nodes s.seen, ?_⟩
    intro id hidOld hidNew
    obtain ⟨old, hold, rfl⟩ := List.mem_map.mp hidOld
    obtain ⟨new, hnew, hid⟩ := List.mem_map.mp hidNew
    exact not_mem_seen_of_mem_unseen hnew (hid ▸ h.seen old hold)
  have hperm := (sortByKey_perm (distanceTo target) (s.closestNodes ++ unseen s.seen nodes)).map
    (distanceTo target)
  exact keyLT_of_sorted (sortByKey_sorted _ _) (hperm.nodup_iff.mpr (RoutingTable.nodup_distance target hnodup))

theorem Ordered.consume (h : Ordered target s) (reply : Reply) :
    Ordered target (s.consume target i reply) := by
  by_cases hle : s.closestNodes.length ≤ i
  · rwa [consume_of_le hle]
  · have hlt : i < s.closestNodes.length := Nat.not_le.mp hle
    cases hreply : reply.result with
    | ok nodes =>
      obtain ⟨hnodes, hseen⟩ := consume_ok target hlt hreply
      constructor
      · rw [hnodes]
        exact (h.merged nodes).sublist (List.take_sublist _ _)
      · intro node hnode
        rw [hnodes] at hnode
        have hmem := (sortByKey_perm _ _).mem_iff.mp (List.mem_of_mem_take hnode)
        rw [hseen]
        rcases List.mem_append.mp hmem with hold | hnew
        · exact .inl (h.seen node hold)
        · exact .inr (List.mem_map_of_mem (mem_of_mem_unseen hnew))
    | error error =>
      rw [consume_error hlt hreply]
      constructor
      · exact h.sorted.sublist (List.eraseIdx_sublist _ _)
      · intro node hnode
        exact h.seen node (List.mem_of_mem_eraseIdx hnode)

theorem Ordered.consumed (h : Ordered target s) (replies : Nat → Reply) (i : Nat) :
    Ordered target (s.consumed target replies i) := by
  induction i with
  | zero => exact ⟨h.sorted, h.seen⟩
  | succ i ih => exact ih.consume (replies i)

theorem Ordered.step (h : Ordered target s) (replies : Nat → Reply) :
    Ordered target (step target s replies) := by
  rw [FindNode.step]
  split_ifs
  · exact h.consumed replies s.active
  · exact h

theorem ordered_start (nodeId : NodeId) (table : RoutingTable)
    (h : ((table.getClosest target K).map Node.id).Nodup) :
    Ordered target (start nodeId (table.getClosest target K)) := by
  constructor
  · exact keyLT_of_sorted (table.getClosest_spec target K).sorted (RoutingTable.nodup_distance target h)
  · intro node hnode
    exact List.mem_cons_of_mem _ (List.mem_map_of_mem hnode)

/-! ## Errors and new nodes -/

theorem learned_countP_mono (s : State) (replies : Nat → Reply) (p : Node → Bool) (hij : i ≤ j) :
    (s.learned replies i).countP p ≤ (s.learned replies j).countP p := by
  induction hij with
  | refl => exact Nat.le_refl _
  | step _ ih =>
    rw [learned_succ, List.countP_append]
    omega

/-- The nodes closer than a node are among those closer than a later node of the list. -/
theorem Ordered.countP_le (h : Ordered target s) {x y : Node} (hij : i < j)
    (hx : x ∈ s.closestNodes[i]?) (hy : y ∈ s.closestNodes[j]?) (nodes : List Node) :
    KeyLT (distanceTo target) x y ∧ nodes.countP (KeyLT (distanceTo target) · x) ≤
      nodes.countP (KeyLT (distanceTo target) · y) := by
  obtain ⟨hi, rfl⟩ := List.getElem?_eq_some_iff.mp hx
  obtain ⟨hj, rfl⟩ := List.getElem?_eq_some_iff.mp hy
  have hlt := List.pairwise_iff_getElem.mp h.sorted i j hi hj hij
  refine ⟨hlt, List.countP_mono_left ?_⟩
  intro node _ hnode
  exact decide_eq_true ((of_decide_eq_true hnode).trans hlt)

/-- Before a failed query, the errors are at most one more than the new nodes closer than a
node that is still to come. -/
theorem errorsBefore_le_learned (hordered : Ordered target s) (haligned : Aligned target s replies)
    (hsearching : s.Searching) {y : Node} (hj : j < s.active) (hy : y ∈ s.closestNodes[j]?)
    (hij : i ≤ j) :
    errorsBefore replies i ≤ (s.learned replies i).countP (KeyLT (distanceTo target) · y) + 1 := by
  induction i with
  | zero => exact Nat.zero_le _
  | succ i ih =>
    have hmono := learned_countP_mono s replies (KeyLT (distanceTo target) · y)
      (Nat.le_add_right i 1)
    cases hreply : (replies i).result with
    | ok nodes =>
      have hi := ih (Nat.le_of_succ_le hij)
      rw [errorsBefore_of_ok hreply]
      omega
    | error error =>
      have hlt : i < s.active := Nat.lt_trans hij hj
      have hlength : i < s.closestNodes.length := Nat.lt_of_lt_of_le hlt (Nat.min_le_right _ _)
      have herror : (replies i).isError = true := by rw [Reply.isError, hreply]
      have hx : s.closestNodes[i] ∈ s.closestNodes[i]? := List.getElem?_eq_getElem hlength
      have halign := haligned hsearching i hlt herror _ hx
      have hcloser := (hordered.countP_le hij hx hy (s.learned replies i)).2
      rw [errorsBefore_of_error hreply]
      omega

/-! ## The rank of a queried node -/

/-- The node queried at position `i` is in the list, and its rank follows from the errors and
the new nodes before position `j`. -/
structure Ranked (target : NodeId) (s : State) (replies : Nat → Reply) (i j : Nat) (node : Node)
    (s' : State) : Prop where
  mem : node ∈ s'.closestNodes
  rank : s'.closestNodes.countP (KeyLT (distanceTo target) · node) + errorsBefore replies j =
    i + (s.learned replies j).countP (KeyLT (distanceTo target) · node)

theorem ranked_zero {node : Node} (hordered : Ordered target s) (hnode : node ∈ s.closestNodes[i]?) :
    Ranked target s replies i 0 node (s.consumed target replies 0) := by
  refine ⟨List.mem_of_getElem? hnode, ?_⟩
  show s.closestNodes.countP _ + _ = _
  rw [countP_keyLT_of_getElem? hordered.sorted hnode]
  rfl

/-- The node stands at its rank. -/
theorem Ranked.position {node : Node} (h : Ranked target s replies i j node s')
    (hordered' : Ordered target s') :
    s'.closestNodes[s'.closestNodes.countP (KeyLT (distanceTo target) · node)]? = some node :=
  getElem?_countP_keyLT hordered'.sorted h.mem

/-- An error that removes a closer node. -/
theorem Ranked.error {error : Error} {node queried : Node} {front back : List Node} {s'' : State}
    (h : Ranked target s replies i j node s') (hreply : (replies j).result = .error error)
    (hlt : KeyLT (distanceTo target) queried node)
    (hbefore : s'.closestNodes = front ++ queried :: back)
    (hafter : s''.closestNodes = front ++ back) :
    Ranked target s replies i (j + 1) node s'' := by
  have hne : node ≠ queried := by
    rintro rfl
    exact id_ne_of_keyLT hlt rfl
  constructor
  · have hmem := h.mem
    rw [hbefore, List.mem_append, List.mem_cons] at hmem
    rw [hafter, List.mem_append]
    tauto
  · have hrank := h.rank
    rw [hbefore, List.countP_append, List.countP_cons, if_pos (decide_eq_true hlt)] at hrank
    rw [hafter, errorsBefore_of_error hreply, learned_of_error hreply, List.countP_append]
    omega

/-- The rank of the node when an answer is added and the list sorted. -/
theorem Ranked.merged {nodes : List Node} {node : Node} (h : Ranked target s replies i j node s')
    (hconsumed : Consumed s replies j s') (hreached : ∀ k < j, s.Reached replies k)
    (hreply : (replies j).result = .ok nodes) :
    (sortByKey (distanceTo target) (s'.closestNodes ++ unseen s'.seen nodes)).countP
        (KeyLT (distanceTo target) · node) + errorsBefore replies (j + 1) =
      i + (s.learned replies (j + 1)).countP (KeyLT (distanceTo target) · node) := by
  have hrank := h.rank
  rw [(sortByKey_perm _ _).countP_eq, List.countP_append, errorsBefore_of_ok hreply,
    hconsumed.learned hreached, Reply.nodes_of_ok hreply, List.countP_append]
  omega

/-- An answer that does not cut the node off. -/
theorem Ranked.answer {nodes : List Node} {node : Node} (h : Ranked target s replies i j node s')
    (hordered' : Ordered target s') (hconsumed : Consumed s replies j s')
    (hreached : ∀ k < j, s.Reached replies k) (hreply : (replies j).result = .ok nodes)
    (hlt : j < s'.closestNodes.length)
    (hmem : node ∈ (s'.consume target j (replies j)).closestNodes) :
    Ranked target s replies i (j + 1) node (s'.consume target j (replies j)) := by
  refine ⟨hmem, ?_⟩
  obtain ⟨hnodes, -⟩ := consume_ok target hlt hreply
  rw [hnodes] at hmem ⊢
  rw [nearest, countP_keyLT_take (hordered'.merged nodes) hmem]
  exact h.merged hconsumed hreached hreply

/-! ## A round with failed queries -/

theorem Accounted.succ {node : Node} (h : Accounted target s replies j node) :
    Accounted target s replies (j + 1) node := by
  rcases h with ⟨i, hi, hfailed⟩ | ⟨i, hi, hcut⟩
  · exact .inl ⟨i, Nat.lt_succ_of_lt hi, hfailed⟩
  · exact .inr ⟨i, Nat.lt_succ_of_lt hi, hcut⟩

/-- What the first results of a round do to the nodes at its start.  Every result before a
query that is still to fail is consumed. -/
structure Handled (target : NodeId) (s : State) (replies : Nat → Reply) (j : Nat) (s' : State) :
    Prop where
  failed : ∀ i < j, (replies i).isError = true → ∀ node ∈ s.closestNodes[i]?,
    ∀ other ∈ s'.closestNodes, other.id ≠ node.id
  lost : ∀ node ∈ s.closestNodes, node ∉ s'.closestNodes → Accounted target s replies j node
  pending : ∀ i, j ≤ i → i < s.active → (replies i).isError = true → ∀ node ∈ s.closestNodes[i]?,
    (∀ k < j, s.Reached replies k) ∧ Ranked target s replies i j node s'

theorem handled_zero (hordered : Ordered target s) :
    Handled target s replies 0 (s.consumed target replies 0) := by
  refine ⟨?_, ?_, ?_⟩
  · intro i hi
    exact absurd hi (Nat.not_lt_zero i)
  · intro node hnode hgone
    exact absurd hnode hgone
  · intro i _ _ _ node hnode
    exact ⟨fun k hk => absurd hk (Nat.not_lt_zero k), ranked_zero hordered hnode⟩

/-- A failed query finds its node at its position. -/
theorem Handled.position {queried : Node} (h : Handled target s replies j s')
    (hordered' : Ordered target s') (haligned : Aligned target s replies)
    (hsearching : s.Searching) (hj : j < s.active) (herror : (replies j).isError = true)
    (hqueried : queried ∈ s.closestNodes[j]?) : s'.closestNodes[j]? = some queried := by
  have hranked := (h.pending j (Nat.le_refl j) hj herror queried hqueried).2
  have hrank := hranked.rank
  have halign := haligned hsearching j hj herror queried hqueried
  have hget := hranked.position hordered'
  rwa [show s'.closestNodes.countP (KeyLT (distanceTo target) · queried) = j by omega] at hget

/-- An error removes the node at its position. -/
theorem consume_error_split {error : Error} {queried : Node}
    (hreply : (replies j).result = .error error) (hposition : s'.closestNodes[j]? = some queried) :
    ∃ front back, s'.closestNodes = front ++ queried :: back ∧
      (s'.consume target j (replies j)).closestNodes = front ++ back := by
  obtain ⟨hlt, hget⟩ := List.getElem?_eq_some_iff.mp hposition
  refine ⟨s'.closestNodes.take j, s'.closestNodes.drop (j + 1), ?_, ?_⟩
  · rw [← hget, List.getElem_cons_drop, List.take_append_drop]
  · rw [consume_error hlt hreply]
    exact List.eraseIdx_eq_take_drop_succ _ _

theorem Handled.error {error : Error} (h : Handled target s replies j s')
    (hordered : Ordered target s) (hordered' : Ordered target s')
    (hconsumed : Consumed s replies j s') (haligned : Aligned target s replies)
    (hsearching : s.Searching) (hj : j < s.active) (hreply : (replies j).result = .error error) :
    Handled target s replies (j + 1) (s'.consume target j (replies j)) := by
  have herror : (replies j).isError = true := by rw [Reply.isError, hreply]
  have hlength : j < s.closestNodes.length := Nat.lt_of_lt_of_le hj (Nat.min_le_right _ _)
  have hqueried : s.closestNodes[j] ∈ s.closestNodes[j]? := List.getElem?_eq_getElem hlength
  generalize s.closestNodes[j] = queried at hqueried
  have hposition := h.position hordered' haligned hsearching hj herror hqueried
  have hreached : s.Reached replies j :=
    (hconsumed.lt_iff (Nat.lt_of_lt_of_le hj (Nat.min_le_left _ _))).mp
      (List.getElem?_eq_some_iff.mp hposition).1
  obtain ⟨front, back, hsplit, hafter⟩ := consume_error_split hreply hposition
  have hmem : ∀ node, node ∈ s'.closestNodes ↔
      node = queried ∨ node ∈ (s'.consume target j (replies j)).closestNodes := by
    intro node
    rw [hsplit, hafter]
    simp only [List.mem_append, List.mem_cons]
    tauto
  refine ⟨?_, ?_, ?_⟩
  · intro i hi hfailed node hnode other hother
    rcases Nat.lt_succ_iff_lt_or_eq.mp hi with hlt | rfl
    · exact h.failed i hlt hfailed node hnode other ((hmem other).mpr (.inr hother))
    · obtain rfl := Option.some.inj (hqueried.symm.trans hnode)
      have hsorted := hordered'.sorted
      rw [hsplit] at hsorted
      obtain ⟨-, hback, hcross⟩ := List.pairwise_append.mp hsorted
      rw [hafter] at hother
      rcases List.mem_append.mp hother with hfront | hother
      · exact id_ne_of_keyLT (hcross other hfront queried List.mem_cons_self)
      · exact (id_ne_of_keyLT ((List.pairwise_cons.mp hback).1 other hother)).symm
  · intro node hnode hgone
    by_cases hqueriedNode : node = queried
    · exact .inl ⟨j, Nat.lt_succ_self j, herror, hqueriedNode ▸ hqueried⟩
    · have hgone' : node ∉ s'.closestNodes := by
        rw [hmem]
        exact not_or.mpr ⟨hqueriedNode, hgone⟩
      exact (h.lost node hnode hgone').succ
  · intro i hi hactive hfailed node hnode
    have hranked := (h.pending i (Nat.le_of_succ_le hi) hactive hfailed node hnode).2
    have hlt := (hordered.countP_le hi hqueried hnode []).1
    exact ⟨fun k hk => reached_mono hreached (Nat.le_of_lt_succ hk),
      hranked.error hreply hlt hsplit hafter⟩

/-- Before a query that is still to fail, the list is long enough for the result of an answer. -/
theorem Handled.lt_length {node : Node} (h : Handled target s replies j s')
    (hordered : Ordered target s) (hordered' : Ordered target s')
    (haligned : Aligned target s replies) (hsearching : s.Searching) (hij : j < i)
    (hi : i < s.active) (hfailed : (replies i).isError = true) (hnode : node ∈ s.closestNodes[i]?) :
    j < s'.closestNodes.length := by
  have hranked := (h.pending i (Nat.le_of_lt hij) hi hfailed node hnode).2
  have hrank := hranked.rank
  have herrors := errorsBefore_le_learned hordered haligned hsearching hi hnode (Nat.le_of_lt hij)
  obtain ⟨hlt, -⟩ := List.getElem?_eq_some_iff.mp (hranked.position hordered')
  omega

/-- A node whose query is still to fail is never ranked so far back that it is cut off. -/
theorem Handled.kept {nodes : List Node} {node : Node} (h : Handled target s replies j s')
    (hordered' : Ordered target s') (hconsumed : Consumed s replies j s')
    (haligned : Aligned target s replies) (hsearching : s.Searching)
    (hreply : (replies j).result = .ok nodes) (hij : j < i) (hi : i < s.active)
    (hfailed : (replies i).isError = true) (hnode : node ∈ s.closestNodes[i]?) :
    node ∈ nearest (distanceTo target) K (s'.closestNodes ++ unseen s'.seen nodes) := by
  obtain ⟨hreached, hranked⟩ := h.pending i (Nat.le_of_lt hij) hi hfailed node hnode
  have hrank := hranked.merged hconsumed hreached hreply
  have hlearned : (s.learned replies (j + 1)).countP (KeyLT (distanceTo target) · node) ≤ i := by
    calc (s.learned replies (j + 1)).countP (KeyLT (distanceTo target) · node)
        ≤ (s.learned replies i).countP (KeyLT (distanceTo target) · node) :=
          learned_countP_mono s replies _ hij
      _ = errorsBefore replies i := (haligned hsearching i hi hfailed node hnode).symm
      _ ≤ i := errorsBefore_le replies i
  have hsmall : i < 5 := Nat.lt_of_lt_of_le hi (Nat.min_le_left _ _)
  have hK : K = 20 := rfl
  apply mem_take_of_countP_keyLT (hordered'.merged nodes)
  · exact (sortByKey_perm _ _).mem_iff.mpr (List.mem_append_left _ hranked.mem)
  · omega

theorem Handled.answer {nodes : List Node} (h : Handled target s replies j s')
    (hs' : s.consumed target replies j = s') (hordered : Ordered target s)
    (hordered' : Ordered target s') (hconsumed : Consumed s replies j s')
    (haligned : Aligned target s replies) (hsearching : s.Searching) (hj : j < s.active)
    (hreply : (replies j).result = .ok nodes) :
    Handled target s replies (j + 1) (s'.consume target j (replies j)) := by
  have hok : (replies j).isError = false := by rw [Reply.isError, hreply]
  have hbefore : ∀ i < j + 1, (replies i).isError = true → i < j := by
    intro i hi hfailed
    rcases Nat.lt_succ_iff_lt_or_eq.mp hi with hlt | rfl
    · exact hlt
    · rw [hok] at hfailed
      cases hfailed
  by_cases hlt : j < s'.closestNodes.length
  · obtain ⟨hnodes, -⟩ := consume_ok target hlt hreply
    have hreached : s.Reached replies j :=
      (hconsumed.lt_iff (Nat.lt_of_lt_of_le hj (Nat.min_le_left _ _))).mp hlt
    refine ⟨?_, ?_, ?_⟩
    · intro i hi hfailed node hnode other hother
      rw [hnodes] at hother
      have hmem := (sortByKey_perm _ _).mem_iff.mp (List.mem_of_mem_take hother)
      rcases List.mem_append.mp hmem with hold | hnew
      · exact h.failed i (hbefore i hi hfailed) hfailed node hnode other hold
      · intro hid
        have hseen : node.id ∈ s'.seen :=
          (hconsumed.seen _).mpr (.inl (hordered.seen node (List.mem_of_getElem? hnode)))
        exact not_mem_seen_of_mem_unseen hnew (hid ▸ hseen)
    · intro node hnode hgone
      by_cases hmem : node ∈ s'.closestNodes
      · refine .inr ⟨j, Nat.lt_succ_self j, ?_⟩
        rw [hs', State.Cut]
        refine ⟨hlt, nodes, hreply, ?_⟩
        rw [hnodes] at hgone
        rw [addNodes_closestNodes]
        exact cut_of_not_mem_nearest _ (List.mem_append_left _ hmem) hgone
      · exact (h.lost node hnode hmem).succ
    · intro i hi hactive hfailed node hnode
      obtain ⟨hreachedBefore, hranked⟩ := h.pending i (Nat.le_of_lt hi) hactive hfailed node hnode
      have hkept := h.kept hordered' hconsumed haligned hsearching hreply hi hactive hfailed hnode
      rw [← hnodes] at hkept
      exact ⟨fun k hk => reached_mono hreached (Nat.le_of_lt_succ hk),
        hranked.answer hordered' hconsumed hreachedBefore hreply hlt hkept⟩
  · rw [consume_of_le (Nat.not_lt.mp hlt)]
    refine ⟨?_, ?_, ?_⟩
    · intro i hi hfailed
      exact h.failed i (hbefore i hi hfailed) hfailed
    · intro node hnode hgone
      exact (h.lost node hnode hgone).succ
    · intro i hi hactive hfailed node hnode
      exact absurd (h.lt_length hordered hordered' haligned hsearching hi hactive hfailed hnode) hlt

theorem handled_consumed (hordered : Ordered target s) (haligned : Aligned target s replies)
    (hsearching : s.Searching) (hj : j ≤ s.active) :
    Handled target s replies j (s.consumed target replies j) := by
  induction j with
  | zero => exact handled_zero hordered
  | succ j ih =>
    have hlt : j < s.active := Nat.lt_of_succ_le hj
    have hle : j ≤ FindValue.alpha := Nat.le_trans (Nat.le_of_lt hlt) (Nat.min_le_left _ _)
    have hbefore := ih (Nat.le_of_lt hlt)
    have hordered' := hordered.consumed replies j
    have hconsumed := consumed_consumed target s replies hle
    cases hreply : (replies j).result with
    | ok nodes =>
      exact hbefore.answer rfl hordered hordered' hconsumed haligned hsearching hlt hreply
    | error error =>
      exact hbefore.error hordered hordered' hconsumed haligned hsearching hlt hreply

/-! ## Which node a failed query removes -/

/-- Each failed query finds at its position the node that was queried. -/
def RemovesOwn (target : NodeId) (s : State) (replies : Nat → Reply) : Prop :=
  s.Searching → ∀ i < s.active, (replies i).isError = true →
    (s.consumed target replies i).closestNodes[i]? = s.closestNodes[i]?

/-- A node that has been seen does not come back. -/
theorem mem_of_mem_consume {reply : Reply} {node : Node} (hseen : node.id ∈ s.seen)
    (h : node ∈ (s.consume target i reply).closestNodes) : node ∈ s.closestNodes := by
  by_cases hle : s.closestNodes.length ≤ i
  · rwa [consume_of_le hle] at h
  · have hlt : i < s.closestNodes.length := Nat.not_le.mp hle
    cases hreply : reply.result with
    | ok nodes =>
      rw [(consume_ok target hlt hreply).1] at h
      have hmem := (sortByKey_perm _ _).mem_iff.mp (List.mem_of_mem_take h)
      rcases List.mem_append.mp hmem with hold | hnew
      · exact hold
      · exact absurd hseen (not_mem_seen_of_mem_unseen hnew)
    | error error =>
      rw [consume_error hlt hreply] at h
      exact List.mem_of_mem_eraseIdx h

theorem mem_consumed_of_le {node : Node} (hseen : node.id ∈ s.seen) (hji : j ≤ i)
    (hi : i ≤ FindValue.alpha) (h : node ∈ (s.consumed target replies i).closestNodes) :
    node ∈ (s.consumed target replies j).closestNodes := by
  induction hji with
  | refl => exact h
  | step _ ih =>
    have hle := Nat.le_of_succ_le hi
    have hconsumed := consumed_consumed target s replies hle
    exact ih hle (mem_of_mem_consume ((hconsumed.seen _).mpr (.inl hseen)) h)

/-- A node that is still in the list at position `i`, where the errors before have removed the
nodes queried. -/
theorem ranked_of_removes {node : Node} (hordered : Ordered target s)
    (hown : ∀ k < i, (replies k).isError = true →
      (s.consumed target replies k).closestNodes[k]? = s.closestNodes[k]?) (hi : i < s.active)
    (hnode : node ∈ s.closestNodes[i]?)
    (hmem : node ∈ (s.consumed target replies i).closestNodes) (hreached : s.Reached replies i)
    (hj : j ≤ i) : Ranked target s replies i j node (s.consumed target replies j) := by
  have halpha : i < FindValue.alpha := Nat.lt_of_lt_of_le hi (Nat.min_le_left _ _)
  have hlength : i < s.closestNodes.length := Nat.lt_of_lt_of_le hi (Nat.min_le_right _ _)
  induction j with
  | zero => exact ranked_zero hordered hnode
  | succ j ih =>
    have hranked := ih (Nat.le_of_succ_le hj)
    have hconsumed := consumed_consumed target s replies
      (Nat.le_of_lt (Nat.lt_of_lt_of_le hj (Nat.le_of_lt halpha)))
    cases hreply : (replies j).result with
    | ok nodes =>
      have hreachedBefore : ∀ k < j, s.Reached replies k := by
        intro k hk
        exact reached_mono hreached (by omega)
      have hlt : j < (s.consumed target replies j).closestNodes.length :=
        (hconsumed.lt_iff (by omega)).mpr (reached_mono hreached (by omega))
      have hseen := hordered.seen node (List.mem_of_getElem? hnode)
      have hkept : node ∈ (s.consumed target replies (j + 1)).closestNodes :=
        mem_consumed_of_le hseen hj (Nat.le_of_lt halpha) hmem
      exact hranked.answer (hordered.consumed replies j) hconsumed hreachedBefore hreply hlt hkept
    | error error =>
      have herror : (replies j).isError = true := by rw [Reply.isError, hreply]
      have hqueried : s.closestNodes[j]? = some s.closestNodes[j] :=
        List.getElem?_eq_getElem (by omega)
      obtain ⟨front, back, hbefore, hafter⟩ :=
        consume_error_split hreply ((hown j hj herror).trans hqueried)
      exact hranked.error hreply (hordered.countP_le hj hqueried hnode []).1 hbefore hafter

/-- The failed queries of a round remove their own nodes if and only if the errors before each
are as many as the new nodes closer to the target. -/
theorem removesOwn_iff_aligned (hordered : Ordered target s) :
    RemovesOwn target s replies ↔ Aligned target s replies := by
  constructor
  · intro hown hsearching i hi hfailed node hnode
    have hposition := (hown hsearching i hi hfailed).trans hnode
    have halpha : i < FindValue.alpha := Nat.lt_of_lt_of_le hi (Nat.min_le_left _ _)
    have hconsumed := consumed_consumed target s replies (Nat.le_of_lt halpha)
    have hreached : s.Reached replies i :=
      (hconsumed.lt_iff halpha).mp (List.getElem?_eq_some_iff.mp hposition).1
    have hranked := ranked_of_removes hordered
      (fun k hk => hown hsearching k (Nat.lt_trans hk hi)) hi hnode
      (List.mem_of_getElem? hposition) hreached (Nat.le_refl i)
    have hrank := hranked.rank
    rw [countP_keyLT_of_getElem? (hordered.consumed replies i).sorted hposition] at hrank
    omega
  · intro haligned hsearching i hi hfailed
    have hlength : i < s.closestNodes.length := Nat.lt_of_lt_of_le hi (Nat.min_le_right _ _)
    have hqueried : s.closestNodes[i]? = some s.closestNodes[i] := List.getElem?_eq_getElem hlength
    have hhandled := handled_consumed hordered haligned hsearching (Nat.le_of_lt hi)
    rw [hqueried]
    exact hhandled.position (hordered.consumed replies i) haligned hsearching hi hfailed hqueried

/-- A lookup from contacts with different identifiers, for all answers and errors.  Every
failed query removes its own node if and only if in each round the errors before a failed
query are as many as the new nodes closer to the target than its node, and then every round
handles its failures. -/
theorem failures_handled_of_aligned (nodeId target : NodeId) (table : RoutingTable)
    (rounds : List (Nat → Reply)) (hdistinct : ((table.getClosest target K).map Node.id).Nodup) :
    (Meets (step target) (RemovesOwn target) (start nodeId (table.getClosest target K)) rounds ↔
      Meets (step target) (Aligned target) (start nodeId (table.getClosest target K)) rounds) ∧
    (Meets (step target) (Aligned target) (start nodeId (table.getClosest target K)) rounds →
      Meets (step target) (HandlesFailures target) (start nodeId (table.getClosest target K))
        rounds) := by
  have hstart := ordered_start nodeId table hdistinct
  constructor
  · refine meets_iff_meets (I := Ordered target) ?_ ?_ hstart rounds
    · intro s replies hordered
      exact hordered.step replies
    · intro s replies hordered
      exact removesOwn_iff_aligned hordered
  · intro haligned
    refine meets_of_invariant (I := Ordered target) ?_ ?_ hstart haligned
    · intro s replies hordered _
      exact hordered.step replies
    · intro s replies hordered haligned hsearching
      have hround := handled_consumed hordered haligned hsearching (Nat.le_refl s.active)
      exact ⟨hround.failed, hround.lost⟩

/-- A table of the local node `00..` with three contacts. -/
def threeContacts : RoutingTable :=
  (((RoutingTable.new (NodeId.fromBytes [0])).step (.update (.at 0) (Node.ofByte 0x80))).step
    (.update (.at 0) (Node.ofByte 0x40))).step (.update (.at 0) (Node.ofByte 0x20))

/-- The first and the third contact fail.  The second one answers with a node closer than the
third, which makes up for the first error. -/
theorem failures_handled_around_answer :
    Meets (step (NodeId.fromBytes [0x81])) (HandlesFailures (NodeId.fromBytes [0x81]))
      (start (NodeId.fromBytes [0]) (threeContacts.getClosest (NodeId.fromBytes [0x81]) K))
      [fun i => if i = 1 then .response (.nodesFound 1 (Node.ofByte 0x20) [Node.ofByte 0xA0])
        else .timedOut] :=
  (failures_handled_of_aligned _ _ _ _ (by decide +kernel)).2 (by decide +kernel)

/-- The first two of three contacts fail.  The second error removes the third contact, and the
second contact stays. -/
theorem failed_contact_stays :
    ¬ ∀ (nodeId target : NodeId) (table : RoutingTable) (rounds : List (Nat → Reply)),
      ((table.getClosest target K).map Node.id).Nodup →
        Meets (step target) (HandlesFailures target)
          (start nodeId (table.getClosest target K)) rounds := by
  intro h
  have hfailed := ((h (NodeId.fromBytes [0]) (NodeId.fromBytes [0x81]) threeContacts
    [fun i => if i < 2 then .timedOut else .response (.nodesFound 1 (Node.ofByte 0x40) [])]
    (by decide +kernel)).1 (by decide +kernel)).1 1 (by decide +kernel) (by decide +kernel)
    ((Node.ofByte 0x20).updateLastSeen (.at 0)) (by decide +kernel)
    ((Node.ofByte 0x20).updateLastSeen (.at 0)) (by decide +kernel)
  exact hfailed rfl

end FindNode

end Kademlia
