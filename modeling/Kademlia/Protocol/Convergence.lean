import Mathlib.Data.FinEnum
import Mathlib.Data.Fintype.Pi
import Kademlia.Lib.Loop
import Kademlia.Protocol.FailedQueries
import Kademlia.Protocol.SearchEnd

/-!
# How a lookup of nodes ends

The loop of `find_node` goes on as long as a round has put a closer node at the front of the
list.  The list is sorted whenever an answer is added, so such a node was not seen before,
and the loop ends for want of identifiers at the latest.  The distance of the first node is
no measure for this, since it grows when that node fails.

The replies are given by round and by position in the round, for as many rounds as the
lookup may make.
-/

namespace Kademlia

open Lib

instance : Finite NodeId := by
  refine Finite.of_injective (fun id : NodeId => fun i => id.bytes.get i) ?_
  intro x y h
  exact NodeId.eq_of_get fun i => congrFun h i

namespace FindNode

variable {target : NodeId} {s s' : State} {replies : Nat → Reply} {i n : Nat}

/-- The state that a lookup starts in. -/
def initial (nodeId target : NodeId) (table : RoutingTable) : State :=
  start nodeId (table.getClosest target K)

/-- The identifiers in the answers of the first `n` rounds. -/
def returnedIds (target : NodeId) (s : State) (rounds : Nat → Nat → Reply) (n : Nat) :
    List NodeId :=
  (List.range n).flatMap fun m =>
    (answersBefore (rounds m) (after (step target) s rounds m).active).map Node.id

/-- The list is sorted by the distance to the target. -/
def Sorted (target : NodeId) (s : State) : Prop :=
  s.closestNodes.Pairwise (KeyLE (distanceTo target))

theorem Sorted.consume (h : Sorted target s) (reply : Reply) :
    Sorted target (s.consume target i reply) := by
  by_cases hle : s.closestNodes.length ≤ i
  · rwa [consume_of_le hle]
  · have hlt : i < s.closestNodes.length := Nat.not_le.mp hle
    cases hreply : reply.result with
    | ok nodes =>
      rw [Sorted, (consume_ok target hlt hreply).1]
      exact (nearest_spec _ _ _).sorted
    | error error =>
      rw [consume_error hlt hreply]
      exact h.sublist (List.eraseIdx_sublist _ _)

theorem Sorted.consumed (h : Sorted target s) (replies : Nat → Reply) (i : Nat) :
    Sorted target (s.consumed target replies i) := by
  induction i with
  | zero => exact h
  | succ i ih => exact ih.consume (replies i)

theorem Sorted.step (h : Sorted target s) (replies : Nat → Reply) :
    Sorted target (step target s replies) := by
  rw [FindNode.step]
  split_ifs
  · exact h.consumed replies s.active
  · exact h

theorem Sorted.after (h : Sorted target s) (rounds : Nat → Nat → Reply) (n : Nat) :
    Sorted target (after (FindNode.step target) s rounds n) :=
  after_invariant (fun _ replies hs => hs.step replies) h n

theorem sorted_initial (nodeId target : NodeId) (table : RoutingTable) :
    Sorted target (initial nodeId target table) :=
  (table.getClosest_spec target K).sorted

/-! ## New identifiers -/

theorem seen_subset_consume (target : NodeId) (s : State) (i : Nat) (reply : Reply) :
    s.seen ⊆ (s.consume target i reply).seen := by
  by_cases hle : s.closestNodes.length ≤ i
  · rw [consume_of_le hle]
    exact List.Subset.refl _
  · have hlt : i < s.closestNodes.length := Nat.not_le.mp hle
    cases hreply : reply.result with
    | ok nodes =>
      intro id hid
      rw [(consume_ok target hlt hreply).2]
      exact .inl hid
    | error error =>
      rw [consume_error hlt hreply]
      exact List.Subset.refl _

theorem seen_subset_consumed (target : NodeId) (s : State) (replies : Nat → Reply) (i : Nat) :
    s.seen ⊆ (s.consumed target replies i).seen := by
  induction i with
  | zero => exact List.Subset.refl _
  | succ i ih => exact List.Subset.trans ih (seen_subset_consume _ _ _ _)

theorem seen_subset_step (target : NodeId) (s : State) (replies : Nat → Reply) :
    s.seen ⊆ (step target s replies).seen := by
  rw [step]
  split_ifs
  · exact seen_subset_consumed target s replies s.active
  · exact List.Subset.refl _

/-- A node that has become the first one of a sorted list was not in it. -/
theorem not_mem_of_foundCloser {before closestNodes : List Node}
    (hsorted : before.Pairwise (KeyLE (distanceTo target)))
    (h : foundCloser target before closestNodes = true) :
    ∃ node ∈ closestNodes, node ∉ before := by
  cases before with
  | nil => cases h
  | cons oldClosest rest =>
    cases closestNodes with
    | nil => cases h
    | cons node others =>
      have hcloser : KeyLT (distanceTo target) node oldClosest := of_decide_eq_true h
      refine ⟨node, List.mem_cons_self, fun hmem => ?_⟩
      have hle : KeyLE (distanceTo target) oldClosest node := by
        rcases List.mem_cons.mp hmem with rfl | hmem
        · exact Std.ReflCmp.isLE_rfl
        · exact (List.pairwise_cons.mp hsorted).1 node hmem
      exact not_keyLT_of_keyLE hle hcloser

theorem looking_consume_ok (target : NodeId) {reply : Reply} {nodes : List Node}
    (h : i < s.closestNodes.length) (hreply : reply.result = .ok nodes) :
    (s.consume target i reply).lookingForClosest = (s.lookingForClosest ||
      foundCloser target s.closestNodes (s.consume target i reply).closestNodes) := by
  rw [State.consume, if_neg (Nat.not_le.mpr h), hreply]

/-- A result that keeps the loop going brings a new identifier. -/
theorem exists_new_consume {reply : Reply} (hsorted : Sorted target s)
    (hbefore : s.lookingForClosest = false)
    (h : (s.consume target i reply).lookingForClosest = true) :
    ∃ id ∈ (s.consume target i reply).seen, id ∉ s.seen := by
  by_cases hle : s.closestNodes.length ≤ i
  · rw [consume_of_le hle, hbefore] at h
    cases h
  · have hlt : i < s.closestNodes.length := Nat.not_le.mp hle
    cases hreply : reply.result with
    | error error =>
      rw [consume_error hlt hreply] at h
      exact absurd (hbefore.symm.trans h) (by decide)
    | ok nodes =>
      obtain ⟨hnodes, hseen⟩ := consume_ok target hlt hreply
      have hcloser : foundCloser target s.closestNodes
          (s.consume target i reply).closestNodes = true := by
        rwa [looking_consume_ok target hlt hreply, hbefore, Bool.false_or] at h
      obtain ⟨node, hnode, hnot⟩ := not_mem_of_foundCloser hsorted hcloser
      rw [hnodes] at hnode
      have hmem := (sortByKey_perm _ _).mem_iff.mp (List.mem_of_mem_take hnode)
      have hnew := (List.mem_append.mp hmem).resolve_left hnot
      refine ⟨node.id, ?_, not_mem_seen_of_mem_unseen hnew⟩
      rw [hseen]
      exact .inr (List.mem_map_of_mem (mem_of_mem_unseen hnew))

theorem exists_new_consumed (hsorted : Sorted target s)
    (h : (s.consumed target replies i).lookingForClosest = true) :
    ∃ id ∈ (s.consumed target replies i).seen, id ∉ s.seen := by
  induction i with
  | zero => cases h
  | succ i ih =>
    have hgrows := seen_subset_consume target (s.consumed target replies i) i (replies i)
    rcases hlooking : (s.consumed target replies i).lookingForClosest with _ | _
    · obtain ⟨id, hid, hnew⟩ := exists_new_consume (hsorted.consumed replies i) hlooking h
      exact ⟨id, hid, fun hseen => hnew (seen_subset_consumed target s replies i hseen)⟩
    · obtain ⟨id, hid, hnew⟩ := ih hlooking
      exact ⟨id, hgrows hid, hnew⟩

/-- A round after which the loop goes on brings a new identifier. -/
theorem exists_new_step (hsorted : Sorted target s) (h : s.Searching)
    (hgoes : (step target s replies).Searching) :
    ∃ id ∈ (step target s replies).seen, id ∉ s.seen := by
  rw [step, if_pos h] at hgoes ⊢
  exact exists_new_consumed hsorted hgoes.1

/-- What a round adds to the identifiers seen is in its answers. -/
theorem mem_seen_step {id : NodeId} (h : id ∈ (step target s replies).seen) :
    id ∈ s.seen ∨ id ∈ (answersBefore replies s.active).map Node.id := by
  rw [step] at h
  split_ifs at h
  · have hround := consumed_consumed target s replies (Nat.min_le_left _ s.closestNodes.length)
    refine ((hround.seen id).mp h).imp_right ?_
    rintro ⟨j, hj, -, hmem⟩
    obtain ⟨node, hnode, rfl⟩ := List.mem_map.mp hmem
    exact List.mem_map_of_mem (List.mem_flatMap.mpr ⟨j, List.mem_range.mpr hj, hnode⟩)
  · exact .inl h

theorem returnedIds_succ (target : NodeId) (s : State) (rounds : Nat → Nat → Reply) (n : Nat) :
    returnedIds target s rounds (n + 1) = returnedIds target s rounds n ++
      (answersBefore (rounds n) (after (step target) s rounds n).active).map Node.id := by
  rw [returnedIds, List.range_succ, List.flatMap_append, List.flatMap_singleton]
  rfl

theorem mem_seen_after {rounds : Nat → Nat → Reply} {id : NodeId}
    (h : id ∈ (after (step target) s rounds n).seen) :
    id ∈ s.seen ∨ id ∈ returnedIds target s rounds n := by
  induction n with
  | zero => exact .inl h
  | succ n ih =>
    rw [returnedIds_succ, List.mem_append, ← or_assoc]
    exact (mem_seen_step h).imp_left ih

/-- A round after which the lookup goes on brings a new identifier, in every round. -/
theorem exists_new_after (h : Sorted target s) (rounds : Nat → Nat → Reply) (n : Nat)
    (hsearching : (after (step target) s rounds n).Searching)
    (hgoes : (after (step target) s rounds (n + 1)).Searching) :
    ∃ id ∈ (after (step target) s rounds (n + 1)).seen,
      id ∉ (after (step target) s rounds n).seen := by
  exact exists_new_step (h.after rounds n) hsearching hgoes

theorem exists_ends_search (h : Sorted target s) (rounds : Nat → Nat → Reply) :
    ∃ n, Ends (step target) State.Searching s rounds n :=
  exists_ends (seen_subset_step target) (exists_new_after h rounds)

/-- A lookup from any table ends, whatever its peers reply.  Every round after which it goes
on has brought an identifier that was not seen before, so that the rounds are at most one
more than the identifiers that the peers return. -/
theorem search_ends (nodeId target : NodeId) (table : RoutingTable)
    (rounds : Nat → Nat → Reply) :
    (∀ n, (after (step target) (initial nodeId target table) rounds n).Searching →
      (after (step target) (initial nodeId target table) rounds (n + 1)).Searching →
        ∃ id ∈ (after (step target) (initial nodeId target table) rounds (n + 1)).seen,
          id ∉ (after (step target) (initial nodeId target table) rounds n).seen) ∧
    ∃ n, Ends (step target) State.Searching (initial nodeId target table) rounds n ∧
      n ≤ 1 + (returnedIds target (initial nodeId target table) rounds n).dedup.length := by
  have hstart := sorted_initial nodeId target table
  generalize initial nodeId target table = s at hstart ⊢
  refine ⟨exists_new_after hstart rounds, ?_⟩
  obtain ⟨n, hends⟩ := exists_ends_search hstart rounds
  refine ⟨n, hends, ?_⟩
  cases n with
  | zero => exact Nat.zero_le _
  | succ n =>
    obtain ⟨new, hnodup, hlength, hmem⟩ := exists_new (seen_subset_step target)
      (exists_new_after hstart rounds) n fun m hm => hends.turns m (Nat.lt_succ_of_le hm)
    have hsubset : new ⊆ (returnedIds target s rounds (n + 1)).dedup := by
      intro id hid
      obtain ⟨hseen, hnot⟩ := hmem id hid
      rw [List.mem_dedup, returnedIds_succ]
      exact List.mem_append_left _ ((mem_seen_after hseen).resolve_left hnot)
    have hle := (hnodup.subperm hsubset).length_le
    omega

/-! ## A lookup without failures -/

/-- Every query of the lookup is answered. -/
def AllAnswered (target : NodeId) (s : State) (rounds : Nat → Nat → Reply) : Prop :=
  ∀ n, (after (step target) s rounds n).Searching →
    ∀ i < (after (step target) s rounds n).active, (rounds n i).isError = false

/-- The different identifiers that a lookup has got from the table and from its peers, the
local one excluded. -/
def knownIds (nodeId target : NodeId) (table : RoutingTable) (rounds : Nat → Nat → Reply)
    (n : Nat) : List NodeId :=
  ((table.getClosest target K).map Node.id ++
    returnedIds target (initial nodeId target table) rounds n).dedup.filter (· != nodeId)

/-- The nodes seen are the local one and `known`, and the list is the selection from them. -/
structure Known (nodeId target : NodeId) (known : List Node) (s : State) : Prop where
  selected : s.closestNodes = nearest (distanceTo target) K known
  nodup : (nodeId :: known.map Node.id).Nodup
  seen : ∀ id, id ∈ s.seen ↔ id ∈ nodeId :: known.map Node.id

variable {nodeId : NodeId} {known : List Node}

theorem mem_map_unseen {nodes : List Node} {seen : List NodeId} {id : NodeId} :
    id ∈ (unseen seen nodes).map Node.id ↔ id ∈ nodes.map Node.id ∧ id ∉ seen := by
  constructor
  · intro h
    obtain ⟨node, hnode, rfl⟩ := List.mem_map.mp h
    exact ⟨List.mem_map_of_mem (mem_of_mem_unseen hnode), not_mem_seen_of_mem_unseen hnode⟩
  · intro ⟨hmem, hnot⟩
    induction nodes generalizing seen with
    | nil => cases hmem
    | cons first rest ih =>
      rw [unseen]
      split_ifs with hseen
      · rcases List.mem_cons.mp hmem with rfl | hrest
        · exact absurd (List.contains_iff_mem.mp hseen) hnot
        · exact ih hrest hnot
      · by_cases hid : id = first.id
        · rw [hid, List.map_cons]
          exact List.mem_cons_self
        · refine List.mem_cons_of_mem _ (ih ((List.mem_cons.mp hmem).resolve_left hid) ?_)
          exact fun hin => (List.mem_cons.mp hin).elim hid hnot

theorem Known.consume {reply : Reply} {nodes : List Node} (h : Known nodeId target known s)
    (hlt : i < s.closestNodes.length) (hreply : reply.result = .ok nodes) :
    Known nodeId target (known ++ unseen s.seen nodes) (s.consume target i reply) := by
  obtain ⟨hnodes, hseen⟩ := consume_ok target hlt hreply
  have hnodup : (nodeId :: (known ++ unseen s.seen nodes).map Node.id).Nodup := by
    rw [List.map_append, ← List.cons_append, List.nodup_append']
    refine ⟨h.nodup, nodup_unseen nodes s.seen, ?_⟩
    intro id hold hnew
    obtain ⟨node, hnode, rfl⟩ := List.mem_map.mp hnew
    exact not_mem_seen_of_mem_unseen hnode ((h.seen _).mpr hold)
  refine ⟨?_, hnodup, ?_⟩
  · rw [hnodes, h.selected]
    exact nearest_append_nearest (RoutingTable.nodup_distance _ (List.nodup_cons.mp hnodup).2)
  · intro id
    rw [hseen, List.map_append, ← List.cons_append, List.mem_append, mem_map_unseen, h.seen]
    tauto

theorem errorsBefore_eq_zero (h : ∀ j < i, (replies j).isError = false) :
    errorsBefore replies i = 0 := by
  rw [errorsBefore, List.countP_eq_zero]
  intro j hj
  rw [h j (List.mem_range.mp hj)]
  exact Bool.false_ne_true

/-- Without errors, every result of a round is consumed. -/
theorem reached_of_answered (h : ∀ j < s.active, (replies j).isError = false) (hi : i < s.active) :
    s.Reached replies i := by
  intro j hj
  have hlength : i < s.closestNodes.length := Nat.lt_of_lt_of_le hi (Nat.min_le_right _ _)
  rw [errorsBefore_eq_zero fun k hk => h k (by omega)]
  omega

theorem Known.consumed (h : Known nodeId target known s)
    (hok : ∀ j < s.active, (replies j).isError = false) (hi : i ≤ s.active) :
    Known nodeId target (known ++ s.learned replies i) (s.consumed target replies i) := by
  induction i with
  | zero =>
    rw [show s.learned replies 0 = [] from rfl, List.append_nil]
    exact ⟨h.selected, h.nodup, h.seen⟩
  | succ i ih =>
    have halpha : i < FindValue.alpha := Nat.lt_of_lt_of_le hi (Nat.min_le_left _ _)
    have hconsumed := consumed_consumed target s replies (Nat.le_of_lt halpha)
    have hreached : ∀ j < i + 1, s.Reached replies j := fun j hj =>
      reached_of_answered hok (Nat.lt_of_lt_of_le hj hi)
    have hlt := (hconsumed.lt_iff halpha).mpr (hreached i (Nat.lt_succ_self i))
    have hbefore := ih (Nat.le_of_succ_le hi)
    have hokay := hok i hi
    cases hreply : (replies i).result with
    | ok nodes =>
      rw [hconsumed.learned fun j hj => hreached j (Nat.lt_succ_of_lt hj), ← List.append_assoc,
        Reply.nodes_of_ok hreply]
      exact hbefore.consume hlt hreply
    | error error =>
      rw [Reply.isError, hreply] at hokay
      cases hokay

theorem Known.nodup_closestNodes (h : Known nodeId target known s) :
    (s.closestNodes.map Node.id).Nodup := by
  have hperm := (sortByKey_perm (distanceTo target) known).map Node.id
  rw [h.selected]
  exact (hperm.nodup_iff.mpr (List.nodup_cons.mp h.nodup).2).sublist
    ((List.take_sublist _ _).map Node.id)

theorem known_initial {table : RoutingTable}
    (hdistinct : ((table.getClosest target K).map Node.id).Nodup)
    (hlocal : nodeId ∉ (table.getClosest target K).map Node.id) :
    Known nodeId target (table.getClosest target K) (initial nodeId target table) := by
  refine ⟨?_, List.nodup_cons.mpr ⟨hlocal, hdistinct⟩, fun id => Iff.rfl⟩
  have hspec := table.getClosest_spec target K
  have hlength : (table.getClosest target K).length ≤ K := by
    rw [hspec.length]
    exact Nat.min_le_left _ _
  have hsorted : sortByKey (distanceTo target) (table.getClosest target K) =
      table.getClosest target K := hspec.sorted.insertionSort_eq
  rw [nearest, hsorted, List.take_of_length_le hlength]
  rfl

/-- What a round without errors adds to the identifiers seen. -/
theorem mem_seen_round (hok : ∀ j < s.active, (replies j).isError = false) (id : NodeId) :
    id ∈ (s.round target replies).seen ↔
      id ∈ s.seen ∨ id ∈ (answersBefore replies s.active).map Node.id := by
  have hround := consumed_consumed target s replies (Nat.min_le_left _ s.closestNodes.length)
  have hseen := hround.mem_seen (fun j hj => reached_of_answered hok hj) id
  rw [State.round, State.active, hseen, List.mem_append, or_comm]

/-- A lookup without failures has seen what it got, and its list is the selection from it. -/
theorem known_after {rounds : Nat → Nat → Reply} (h : Known nodeId target known s)
    (hok : AllAnswered target s rounds) (hends : Ends (step target) State.Searching s rounds n) :
    (∃ all, Known nodeId target all (after (step target) s rounds n)) ∧
      ∀ id, id ∈ (after (step target) s rounds n).seen ↔
        id ∈ s.seen ∨ id ∈ returnedIds target s rounds n := by
  refine hends.invariant (P := fun m s' => (∃ all, Known nodeId target all s') ∧
    ∀ id, id ∈ s'.seen ↔ id ∈ s.seen ∨ id ∈ returnedIds target s rounds m) ?_ ?_
  · exact ⟨⟨known, h⟩, fun id => by simp [returnedIds]⟩
  · intro m _ hsearching hbefore
    obtain ⟨⟨all, hall⟩, hseen⟩ := hbefore
    have hanswered := hok m hsearching
    rw [after, step, if_pos hsearching]
    refine ⟨⟨_, hall.consumed hanswered (Nat.le_refl _)⟩, fun id => ?_⟩
    rw [mem_seen_round hanswered, hseen, returnedIds_succ, List.mem_append, or_assoc]

/-- A lookup from contacts with different identifiers whose queries are all answered returns
the `K` closest of all the identifiers it got, or all of them when there are fewer. -/
theorem closest_of_all_answered (nodeId target : NodeId) (table : RoutingTable)
    (rounds : Nat → Nat → Reply) (hdistinct : ((table.getClosest target K).map Node.id).Nodup)
    (hlocal : nodeId ∉ (table.getClosest target K).map Node.id)
    (hok : AllAnswered target (initial nodeId target table) rounds) :
    ∃ n, Ends (step target) State.Searching (initial nodeId target table) rounds n ∧
      let found := (after (step target) (initial nodeId target table) rounds n).closestNodes
      Nearest (fun id : NodeId => id.distance target) (knownIds nodeId target table rounds n) K
        (found.map Node.id) ∧ (found.map Node.id).Nodup := by
  obtain ⟨n, hends⟩ := exists_ends_search (sorted_initial nodeId target table) rounds
  refine ⟨n, hends, ?_⟩
  obtain ⟨⟨all, hall⟩, hseen⟩ := known_after (known_initial hdistinct hlocal) hok hends
  have hperm : (all.map Node.id).Perm (knownIds nodeId target table rounds n) := by
    rw [knownIds, List.perm_ext_iff_of_nodup (List.nodup_cons.mp hall.nodup).2
      ((List.nodup_dedup _).filter _)]
    intro id
    have hid := (hall.seen id).symm.trans (hseen id)
    have hnot := (List.nodup_cons.mp hall.nodup).1
    simp only [initial, start, List.mem_cons] at hid
    rw [List.mem_filter, List.mem_dedup, List.mem_append, bne_iff_ne]
    by_cases heq : id = nodeId
    · subst heq
      exact iff_of_false hnot fun h => h.2 rfl
    · rw [and_iff_left heq]
      rwa [or_iff_right heq, or_iff_right heq] at hid
  have hnearest := nearest_spec (distanceTo target) K all
  rw [← hall.selected] at hnearest
  exact ⟨(hnearest.map Node.id).perm hperm, hall.nodup_closestNodes⟩

/-- Three contacts that answer with the local node, with a contact known already and twice
with a new one, and with nothing in later rounds. -/
def repeatedAnswers (n _ : Nat) : Reply :=
  .response (.nodesFound 1 (Node.ofByte 0x80)
    (if n = 0 then [Node.ofByte 0, Node.ofByte 0x20, Node.ofByte 0x81, Node.ofByte 0x81] else []))

theorem closest_of_repeated_answers :
    ∃ n, Ends (step (NodeId.fromBytes [0x81])) State.Searching
        (initial (NodeId.fromBytes [0]) (NodeId.fromBytes [0x81]) threeContacts)
        repeatedAnswers n ∧
      let found := (after (step (NodeId.fromBytes [0x81]))
        (initial (NodeId.fromBytes [0]) (NodeId.fromBytes [0x81]) threeContacts)
        repeatedAnswers n).closestNodes
      Nearest (fun id : NodeId => id.distance (NodeId.fromBytes [0x81]))
        (knownIds (NodeId.fromBytes [0]) (NodeId.fromBytes [0x81]) threeContacts
          repeatedAnswers n) K (found.map Node.id) ∧ (found.map Node.id).Nodup :=
  closest_of_all_answered _ _ _ _ (by decide +kernel) (by decide +kernel) fun _ _ _ _ => rfl

/-! ## The nodes that have answered -/

/-- The identifiers of the nodes that were queried in the first `n` rounds and answered. -/
def answeredIds (target : NodeId) (s : State) (rounds : Nat → Nat → Reply) (n : Nat) :
    List NodeId :=
  (List.range n).flatMap fun m =>
    let state := after (step target) s rounds m
    (List.range state.active).filterMap fun i =>
      if (rounds m i).isError then none else state.closestNodes[i]?.map Node.id

/-- The list after `n` rounds: its first node has answered, and every other node has or is
excused by the last round. -/
structure Converged (target : NodeId) (s : State) (rounds : Nat → Nat → Reply) (n : Nat) :
    Prop where
  closest : ∀ node ∈ (after (step target) s rounds n).closestNodes.head?,
    node.id ∈ answeredIds target s rounds n
  others : ∀ node ∈ (after (step target) s rounds n).closestNodes,
    node.id ∈ answeredIds target s rounds n ∨ ∃ m, n = m + 1 ∧
      let last := after (step target) s rounds m
      (node.id ∉ last.seen ∨ node ∈ last.closestNodes.drop FindValue.alpha ∧
        ∀ other ∈ last.closestNodes.take FindValue.alpha, KeyLE (distanceTo target) other node)

theorem mem_answeredIds {rounds : Nat → Nat → Reply} {m : Nat} {node : Node}
    (hok : AllAnswered target s rounds)
    (hsearching : (after (step target) s rounds m).Searching) (hm : m < n)
    (hi : i < FindValue.alpha)
    (hnode : (after (step target) s rounds m).closestNodes[i]? = some node) :
    node.id ∈ answeredIds target s rounds n := by
  have hlength := (List.getElem?_eq_some_iff.mp hnode).1
  have hactive : i < (after (step target) s rounds m).active := Nat.lt_min.mpr ⟨hi, hlength⟩
  refine List.mem_flatMap.mpr ⟨m, List.mem_range.mpr hm, ?_⟩
  refine List.mem_filterMap.mpr ⟨i, List.mem_range.mpr hactive, ?_⟩
  rw [hok m hsearching i hactive, hnode]
  rfl

/-- An answer that does not keep the loop going leaves the identifier of the first node. -/
theorem head_consume {reply : Reply} {nodes : List Node} (hlt : i < s.closestNodes.length)
    (hreply : reply.result = .ok nodes)
    (hfound : foundCloser target s.closestNodes (s.consume target i reply).closestNodes = false) :
    (s.consume target i reply).closestNodes.head?.map Node.id =
      s.closestNodes.head?.map Node.id := by
  have hnearest := nearest_spec (distanceTo target) K (s.closestNodes ++ unseen s.seen nodes)
  rw [← (consume_ok target hlt hreply).1] at hnearest
  generalize (s.consume target i reply).closestNodes = found at hfound hnearest ⊢
  cases hnodes : s.closestNodes with
  | nil =>
    rw [hnodes] at hlt
    exact absurd hlt (Nat.not_lt_zero i)
  | cons oldClosest rest =>
    rw [hnodes] at hfound hnearest
    cases found with
    | nil =>
      have hlength := hnearest.length
      rw [List.length_nil, List.cons_append, List.length_cons] at hlength
      have hK : K = 20 := rfl
      omega
    | cons node others =>
      have hnot : ¬ KeyLT (distanceTo target) node oldClosest := of_decide_eq_false hfound
      have hle : KeyLE (distanceTo target) node oldClosest :=
        hnearest.head_le (List.mem_append_left _ List.mem_cons_self)
      have hkey : distanceTo target node = distanceTo target oldClosest :=
        key_eq_of_keyLE hle hnot
      exact congrArg some (NodeId.distance_inj hkey)

theorem head_consumed (hok : ∀ j < s.active, (replies j).isError = false) (hi : i ≤ s.active)
    (h : (s.consumed target replies i).lookingForClosest = false) :
    (s.consumed target replies i).closestNodes.head?.map Node.id =
      s.closestNodes.head?.map Node.id := by
  induction i with
  | zero => rfl
  | succ i ih =>
    have halpha : i < FindValue.alpha := Nat.lt_of_lt_of_le hi (Nat.min_le_left _ _)
    have hconsumed := consumed_consumed target s replies (Nat.le_of_lt halpha)
    have hlt := (hconsumed.lt_iff halpha).mpr (reached_of_answered hok hi)
    cases hreply : (replies i).result with
    | ok nodes =>
      rw [State.consumed, looking_consume_ok target hlt hreply, Bool.or_eq_false_iff] at h
      rw [State.consumed, head_consume hlt hreply h.2, ih (Nat.le_of_succ_le hi) h.1]
    | error error =>
      have hokay := hok i hi
      rw [Reply.isError, hreply] at hokay
      cases hokay

/-- The first node of the list has answered when the loop stops. -/
theorem head_answered {rounds : Nat → Nat → Reply} {node : Node}
    (hok : AllAnswered target s rounds)
    (hends : Ends (step target) State.Searching s rounds (n + 1))
    (hnode : node ∈ (after (step target) s rounds (n + 1)).closestNodes.head?) :
    node.id ∈ answeredIds target s rounds (n + 1) := by
  have hsearching := hends.turns n (Nat.lt_succ_self n)
  have hstops := hends.stops
  rw [after, step, if_pos hsearching] at hnode hstops
  have hne : ((after (step target) s rounds n).round target (rounds n)).closestNodes ≠ [] := by
    intro hnil
    rw [hnil] at hnode
    cases hnode
  have hlooking : ((after (step target) s rounds n).round target
      (rounds n)).lookingForClosest = false := by
    by_contra h
    exact hstops ⟨Bool.not_eq_false _ ▸ h, hne⟩
  have hhead : ((after (step target) s rounds n).round target
      (rounds n)).closestNodes.head?.map Node.id =
        (after (step target) s rounds n).closestNodes.head?.map Node.id :=
    head_consumed (hok n hsearching) (Nat.le_refl _) hlooking
  rw [Option.mem_def.mp hnode, Option.map_some] at hhead
  obtain ⟨first, hfirst, hid⟩ := Option.map_eq_some_iff.mp hhead.symm
  rw [List.head?_eq_getElem?] at hfirst
  rw [← hid]
  exact mem_answeredIds hok hsearching (Nat.lt_succ_self n) (by decide) hfirst

theorem answered_or_left_out {rounds : Nat → Nat → Reply} {node : Node} (hsorted : Sorted target s)
    (hok : AllAnswered target s rounds)
    (hends : Ends (step target) State.Searching s rounds (n + 1))
    (hnode : node ∈ (after (step target) s rounds (n + 1)).closestNodes) :
    let last := after (step target) s rounds n
    node.id ∈ answeredIds target s rounds (n + 1) ∨
      (node.id ∉ last.seen ∨ node ∈ last.closestNodes.drop FindValue.alpha ∧
        ∀ other ∈ last.closestNodes.take FindValue.alpha,
          KeyLE (distanceTo target) other node) := by
  intro last
  have hsearching : last.Searching := hends.turns n (Nat.lt_succ_self n)
  by_cases hseen : node.id ∈ last.seen
  · rw [after, step, if_pos hsearching] at hnode
    have hmem : node ∈ last.closestNodes :=
      mem_consumed_of_le hseen (Nat.zero_le _) (Nat.min_le_left _ _) hnode
    obtain ⟨i, hi⟩ := List.mem_iff_getElem?.mp hmem
    by_cases halpha : i < FindValue.alpha
    · exact .inl (mem_answeredIds hok hsearching (Nat.lt_succ_self n) halpha hi)
    · have hdrop : node ∈ last.closestNodes.drop FindValue.alpha := by
        refine List.mem_iff_getElem?.mpr ⟨i - FindValue.alpha, ?_⟩
        rw [List.getElem?_drop, Nat.add_sub_cancel' (Nat.not_lt.mp halpha)]
        exact hi
      refine .inr (.inr ⟨hdrop, ?_⟩)
      intro other hother
      have hlast : Sorted target last := hsorted.after rounds n
      rw [Sorted, ← List.take_append_drop FindValue.alpha last.closestNodes] at hlast
      exact (List.pairwise_append.mp hlast).2.2 other hother node hdrop
  · exact .inr (.inl hseen)

/-- A lookup whose queries are all answered, from any table.  The closest node that it returns
has answered.  Any other one has, unless the last round brought it or `ALPHA` nodes as close
as it stood before it in the list of that round. -/
theorem converges_of_all_answered (nodeId target : NodeId) (table : RoutingTable)
    (rounds : Nat → Nat → Reply) (hok : AllAnswered target (initial nodeId target table) rounds) :
    ∃ n, Ends (step target) State.Searching (initial nodeId target table) rounds n ∧
      Converged target (initial nodeId target table) rounds n := by
  have hsorted := sorted_initial nodeId target table
  obtain ⟨n, hends⟩ := exists_ends_search hsorted rounds
  refine ⟨n, hends, ?_⟩
  cases n with
  | zero =>
    have hempty : (initial nodeId target table).closestNodes = [] := by
      by_contra hne
      exact hends.stops ⟨rfl, hne⟩
    constructor
    · intro node hnode
      rw [after, hempty] at hnode
      cases hnode
    · intro node hnode
      rw [after, hempty] at hnode
      cases hnode
  | succ m =>
    refine ⟨fun node hnode => head_answered hok hends hnode, fun node hnode => ?_⟩
    exact (answered_or_left_out hsorted hok hends hnode).imp_right fun h => ⟨m, rfl, h⟩

theorem converges_after_empty_answers :
    ∃ n, Ends (step (NodeId.fromBytes [0xff])) State.Searching
        (initial (NodeId.fromBytes [0]) (NodeId.fromBytes [0xff]) FindValue.sixContacts)
        (fun _ _ => .response (.nodesFound 1 (Node.ofByte 1) [])) n ∧
      Converged (NodeId.fromBytes [0xff])
        (initial (NodeId.fromBytes [0]) (NodeId.fromBytes [0xff]) FindValue.sixContacts)
        (fun _ _ => .response (.nodesFound 1 (Node.ofByte 1) [])) n :=
  converges_of_all_answered _ _ _ _ fun _ _ _ _ => rfl

/-- Six contacts are known, and the five closest ones answer with no nodes.  The sixth one is
returned, although it was not asked. -/
theorem returned_contact_not_queried :
    ¬ ∀ (nodeId target : NodeId) (table : RoutingTable) (rounds : Nat → Nat → Reply),
      AllAnswered target (initial nodeId target table) rounds →
        ∀ n, Ends (step target) State.Searching (initial nodeId target table) rounds n →
          ∀ node ∈ (after (step target) (initial nodeId target table) rounds n).closestNodes,
            node.id ∈ answeredIds target (initial nodeId target table) rounds n := by
  intro h
  have hanswered := h (NodeId.fromBytes [0]) (NodeId.fromBytes [0xff]) FindValue.sixContacts
    (fun _ _ => .response (.nodesFound 1 (Node.ofByte 1) [])) (fun _ _ _ _ => rfl) 1
    ⟨by decide +kernel, by decide +kernel⟩ ((Node.ofByte 1).updateLastSeen (.at 0))
    (by decide +kernel)
  revert hanswered
  decide +kernel

end FindNode

end Kademlia
