import Kademlia.Protocol.FindValue

/-!
# Looking up the nodes closest to a target

`find_node` queries the closest nodes that it knows in rounds, up to `ALPHA` of them at a
time, and consumes the results of a round in the order of the requests.  The result of
request `idx` is skipped when the list has no more than `idx` nodes, and a failed one
removes the node that stands at position `idx` by then.  The earlier results of the round
have moved the nodes in the meantime.

How far the results are consumed depends on the length of the list at the start of the
round, on the errors and on the number of new nodes, so it can be said without running the
round: `Reached`.
-/

namespace Kademlia

open Lib

namespace FindNode

/-- How a query ends: with an error of `send`, of `wait_response` or of `record_contact`,
with the timeout around the wait, or with a response. -/
inductive Reply where
  | failed (error : Error)
  | timedOut
  | response (message : ResponseMessage)

/-- The result of `find_node_rpc`. -/
def Reply.result : Reply → Except Error (List Node)
  | failed error => .error error
  | timedOut => .error .timeout
  | response (.nodesFound _ _ nodes) => .ok nodes
  | response _ => .error (.other "Unexpected response type")

/-- The nodes of an answer, none after an error. -/
def Reply.nodes (reply : Reply) : List Node :=
  match reply.result with
  | .ok nodes => nodes
  | .error _ => []

def Reply.isError (reply : Reply) : Bool :=
  match reply.result with
  | .ok _ => false
  | .error _ => true

structure State where
  closestNodes : List Node
  seen : List NodeId
  lookingForClosest : Bool
deriving DecidableEq

/-- A lookup from the given nodes.  The local identifier counts as seen. -/
def start (nodeId : NodeId) (closestNodes : List Node) : State :=
  { closestNodes := closestNodes, seen := nodeId :: closestNodes.map Node.id,
    lookingForClosest := true }

/-- The distance that the nodes are sorted by. -/
def distanceTo (target : NodeId) (node : Node) : NodeId := node.id.distance target

def State.addNode (s : State) (node : Node) : State :=
  if s.seen.contains node.id then s
  else { s with closestNodes := s.closestNodes ++ [node], seen := node.id :: s.seen }

/-- The first node of the list is closer than the first one before. -/
def foundCloser (target : NodeId) (before closestNodes : List Node) : Bool :=
  match before.head?, closestNodes.head? with
  | some oldClosest, some node => decide (KeyLT (distanceTo target) node oldClosest)
  -- The list before is not empty when a result is consumed.
  | _, _ => false

/-- The result of request `idx` is consumed. -/
def State.consume (target : NodeId) (s : State) (idx : Nat) (reply : Reply) : State :=
  if s.closestNodes.length ≤ idx then s
  else
    match reply.result with
    | .ok nodes =>
      let added := nodes.foldl State.addNode s
      let closestNodes := nearest (distanceTo target) K added.closestNodes
      { added with
        closestNodes := closestNodes
        lookingForClosest := s.lookingForClosest ||
          foundCloser target s.closestNodes closestNodes }
    | .error _ => { s with closestNodes := s.closestNodes.eraseIdx idx }

/-- The state after the first results of a round.  `replies` are the replies to the requests
of the round, by position. -/
def State.consumed (target : NodeId) (s : State) (replies : Nat → Reply) : Nat → State
  | 0 => { s with lookingForClosest := false }
  | idx + 1 => (s.consumed target replies idx).consume target idx (replies idx)

/-- The number of requests in a round. -/
def State.active (s : State) : Nat := min FindValue.alpha s.closestNodes.length

def State.round (target : NodeId) (s : State) (replies : Nat → Reply) : State :=
  s.consumed target replies s.active

/-- The loop condition. -/
def State.Searching (s : State) : Prop := s.lookingForClosest = true ∧ s.closestNodes ≠ []

instance (s : State) : Decidable s.Searching :=
  inferInstanceAs (Decidable (s.lookingForClosest = true ∧ s.closestNodes ≠ []))

/-- A lookup that has ended takes no further round. -/
def step (target : NodeId) (s : State) (replies : Nat → Reply) : State :=
  if s.Searching then s.round target replies else s

/-! ## New nodes -/

/-- The nodes of a list whose identifiers are new, each identifier once. -/
def unseen : List NodeId → List Node → List Node
  | _, [] => []
  | seen, node :: rest =>
    if seen.contains node.id then unseen seen rest else node :: unseen (node.id :: seen) rest

theorem addNodes_closestNodes (nodes : List Node) (s : State) :
    (nodes.foldl State.addNode s).closestNodes = s.closestNodes ++ unseen s.seen nodes := by
  induction nodes generalizing s with
  | nil => exact (List.append_nil _).symm
  | cons node rest ih =>
    rw [List.foldl_cons, ih, State.addNode, unseen]
    split_ifs
    · rfl
    · rw [List.append_assoc]
      rfl

theorem mem_seen_addNodes {nodes : List Node} {s : State} {id : NodeId} :
    id ∈ (nodes.foldl State.addNode s).seen ↔ id ∈ s.seen ∨ id ∈ nodes.map Node.id := by
  induction nodes generalizing s with
  | nil => simp
  | cons node rest ih =>
    rw [List.foldl_cons, ih, State.addNode]
    split_ifs with hseen
    · have hmem : node.id ∈ s.seen := by simpa using hseen
      rw [List.map_cons, List.mem_cons]
      constructor
      · intro h
        exact h.imp_right .inr
      · rintro (h | rfl | h)
        · exact .inl h
        · exact .inl hmem
        · exact .inr h
    · simp only [List.mem_cons, List.map_cons]
      tauto

theorem unseen_congr {nodes : List Node} {seen seen' : List NodeId}
    (h : ∀ id, id ∈ seen ↔ id ∈ seen') : unseen seen nodes = unseen seen' nodes := by
  induction nodes generalizing seen seen' with
  | nil => rfl
  | cons node rest ih =>
    have hcontains : seen.contains node.id = seen'.contains node.id := by
      rw [Bool.eq_iff_iff, List.contains_iff_mem, List.contains_iff_mem]
      exact h node.id
    have hcons : ∀ id, id ∈ node.id :: seen ↔ id ∈ node.id :: seen' := by
      intro id
      rw [List.mem_cons, List.mem_cons, h id]
    rw [unseen, unseen, hcontains, ih h, ih hcons]

theorem unseen_append (seen : List NodeId) (first second : List Node) :
    unseen seen (first ++ second) =
      unseen seen first ++ unseen (first.map Node.id ++ seen) second := by
  induction first generalizing seen with
  | nil => rfl
  | cons node rest ih =>
    rw [List.cons_append, unseen, unseen, ih, ih]
    split_ifs with hseen
    · have hmem : node.id ∈ seen := by simpa using hseen
      congr 1
      apply unseen_congr
      intro id
      simp only [List.map_cons, List.cons_append, List.mem_cons, List.mem_append]
      constructor
      · exact .inr
      · rintro (rfl | h)
        · exact .inr hmem
        · exact h
    · rw [List.cons_append]
      congr 2
      apply unseen_congr
      intro id
      simp only [List.map_cons, List.cons_append, List.mem_cons, List.mem_append]
      tauto

/-! ## How far the results of a round are consumed -/

/-- The number of failed requests before a position. -/
def errorsBefore (replies : Nat → Reply) (i : Nat) : Nat :=
  (List.range i).countP fun j => (replies j).isError

def answersBefore (replies : Nat → Reply) (i : Nat) : List Node :=
  (List.range i).flatMap fun j => (replies j).nodes

/-- The new nodes in the answers before a position. -/
def State.learned (s : State) (replies : Nat → Reply) (i : Nat) : List Node :=
  unseen s.seen (answersBefore replies i)

/-- Up to position `i`, the nodes known and the new ones in the answers are more than the
position and the errors. -/
def State.Reached (s : State) (replies : Nat → Reply) (i : Nat) : Prop :=
  ∀ j, j ≤ i → j + errorsBefore replies j < s.closestNodes.length + (s.learned replies j).length

instance (s : State) (replies : Nat → Reply) (i : Nat) : Decidable (s.Reached replies i) :=
  inferInstanceAs (Decidable (∀ j, j ≤ i → _))

variable {target : NodeId} {s s' : State} {replies : Nat → Reply} {i : Nat}

theorem Reply.nodes_of_ok {reply : Reply} {nodes : List Node} (h : reply.result = .ok nodes) :
    reply.nodes = nodes := by
  rw [Reply.nodes, h]

theorem Reply.nodes_of_error {reply : Reply} {error : Error} (h : reply.result = .error error) :
    reply.nodes = [] := by
  rw [Reply.nodes, h]

theorem errorsBefore_of_ok {nodes : List Node} (h : (replies i).result = .ok nodes) :
    errorsBefore replies (i + 1) = errorsBefore replies i := by
  rw [errorsBefore, List.range_succ, List.countP_append, List.countP_singleton, Reply.isError, h]
  rfl

theorem errorsBefore_of_error {error : Error} (h : (replies i).result = .error error) :
    errorsBefore replies (i + 1) = errorsBefore replies i + 1 := by
  rw [errorsBefore, List.range_succ, List.countP_append, List.countP_singleton, Reply.isError, h]
  rfl

theorem errorsBefore_le (replies : Nat → Reply) (i : Nat) : errorsBefore replies i ≤ i := by
  have hle : errorsBefore replies i ≤ (List.range i).length := List.countP_le_length
  rwa [List.length_range] at hle

theorem learned_succ (s : State) (replies : Nat → Reply) (i : Nat) :
    s.learned replies (i + 1) = s.learned replies i ++
      unseen ((answersBefore replies i).map Node.id ++ s.seen) (replies i).nodes := by
  rw [State.learned, answersBefore, List.range_succ, List.flatMap_append, List.flatMap_singleton,
    unseen_append]
  rfl

theorem learned_of_error {error : Error} (h : (replies i).result = .error error) :
    s.learned replies (i + 1) = s.learned replies i := by
  rw [learned_succ, Reply.nodes_of_error h]
  exact List.append_nil _

theorem reached_mono {j : Nat} (h : s.Reached replies i) (hj : j ≤ i) : s.Reached replies j := by
  intro k hk
  exact h k (Nat.le_trans hk hj)

theorem reached_iff :
    s.Reached replies i ↔ (∀ j < i, s.Reached replies j) ∧
      i + errorsBefore replies i < s.closestNodes.length + (s.learned replies i).length := by
  constructor
  · intro h
    exact ⟨fun j hj => reached_mono h (Nat.le_of_lt hj), h i (Nat.le_refl i)⟩
  · intro ⟨hbefore, hi⟩ j hj
    rcases Nat.lt_or_eq_of_le hj with hlt | rfl
    · exact hbefore j hlt j (Nat.le_refl j)
    · exact hi

theorem consume_of_le {reply : Reply} (h : s.closestNodes.length ≤ i) :
    s.consume target i reply = s :=
  if_pos h

theorem consume_ok (target : NodeId) {reply : Reply} {nodes : List Node} (h : i < s.closestNodes.length)
    (hreply : reply.result = .ok nodes) :
    (s.consume target i reply).closestNodes =
        nearest (distanceTo target) K (s.closestNodes ++ unseen s.seen nodes) ∧
      ∀ id, id ∈ (s.consume target i reply).seen ↔ id ∈ s.seen ∨ id ∈ nodes.map Node.id := by
  rw [State.consume, if_neg (Nat.not_le.mpr h), hreply]
  dsimp only
  rw [addNodes_closestNodes]
  exact ⟨rfl, fun id => mem_seen_addNodes⟩

theorem consume_error {reply : Reply} {error : Error} (h : i < s.closestNodes.length)
    (hreply : reply.result = .error error) :
    s.consume target i reply = { s with closestNodes := s.closestNodes.eraseIdx i } := by
  rw [State.consume, if_neg (Nat.not_le.mpr h), hreply]

/-- What the first results of a round leave.  Once `K` nodes have been in the list, there are
enough of them for all results of the round. -/
structure Consumed (s : State) (replies : Nat → Reply) (i : Nat) (s' : State) : Prop where
  seen : ∀ id, id ∈ s'.seen ↔ id ∈ s.seen ∨
    ∃ j < i, s.Reached replies j ∧ id ∈ (replies j).nodes.map Node.id
  length : (∀ j < i, s.Reached replies j) →
    s'.closestNodes.length + errorsBefore replies i ≤
        s.closestNodes.length + (s.learned replies i).length ∧
      (s.closestNodes.length + (s.learned replies i).length ≤
          s'.closestNodes.length + errorsBefore replies i ∨
        K ≤ s'.closestNodes.length + errorsBefore replies i)
  skipped : ∀ j < i, ¬ s.Reached replies j → s'.closestNodes.length ≤ j

theorem Consumed.lt_iff (h : Consumed s replies i s') (hi : i < FindValue.alpha) :
    i < s'.closestNodes.length ↔ s.Reached replies i := by
  have hK : K = 20 := rfl
  have halpha : FindValue.alpha = 5 := rfl
  have herrors := errorsBefore_le replies i
  rw [reached_iff]
  constructor
  · intro hlt
    have hbefore : ∀ j < i, s.Reached replies j := by
      intro j hj
      by_contra hnot
      have hle := h.skipped j hj hnot
      omega
    have hlength := h.length hbefore
    exact ⟨hbefore, by omega⟩
  · intro ⟨hbefore, hlt⟩
    have hlength := h.length hbefore
    omega

/-- When all results so far are consumed, the nodes seen are those at the start and those in
the answers. -/
theorem Consumed.mem_seen (h : Consumed s replies i s') (hbefore : ∀ j < i, s.Reached replies j)
    (id : NodeId) : id ∈ s'.seen ↔ id ∈ (answersBefore replies i).map Node.id ++ s.seen := by
  rw [h.seen, List.mem_append, or_comm]
  apply or_congr_left
  simp only [answersBefore, List.mem_map, List.mem_flatMap, List.mem_range]
  constructor
  · rintro ⟨j, hj, -, node, hnode, rfl⟩
    exact ⟨node, ⟨j, hj, hnode⟩, rfl⟩
  · rintro ⟨node, ⟨j, hj, hnode⟩, rfl⟩
    exact ⟨j, hj, hbefore j hj, node, hnode, rfl⟩

theorem Consumed.learned (h : Consumed s replies i s') (hbefore : ∀ j < i, s.Reached replies j) :
    s.learned replies (i + 1) =
      s.learned replies i ++ unseen s'.seen (replies i).nodes := by
  rw [learned_succ, unseen_congr (h.mem_seen hbefore)]

/-- A result that is skipped. -/
theorem Consumed.skip (h : Consumed s replies i s') (hi : ¬ s.Reached replies i)
    (hle : s'.closestNodes.length ≤ i) : Consumed s replies (i + 1) s' := by
  refine ⟨?_, ?_, ?_⟩
  · intro id
    rw [h.seen]
    apply or_congr_right
    constructor
    · rintro ⟨j, hj, hmem⟩
      exact ⟨j, Nat.lt_succ_of_lt hj, hmem⟩
    · rintro ⟨j, hj, hreached, hmem⟩
      have hne : j ≠ i := by
        rintro rfl
        exact hi hreached
      exact ⟨j, by omega, hreached, hmem⟩
  · intro hall
    exact absurd (hall i (Nat.lt_succ_self i)) hi
  · intro j hj hnot
    rcases Nat.lt_succ_iff_lt_or_eq.mp hj with hlt | rfl
    · exact h.skipped j hlt hnot
    · exact hle

/-- A result that is consumed: what it has to leave. -/
theorem Consumed.extend {s'' : State} (h : Consumed s replies i s') (hi : s.Reached replies i)
    (hseen : ∀ id, id ∈ s''.seen ↔ id ∈ s'.seen ∨ id ∈ (replies i).nodes.map Node.id)
    (hlength : s''.closestNodes.length + errorsBefore replies (i + 1) ≤
        s.closestNodes.length + (s.learned replies (i + 1)).length ∧
      (s.closestNodes.length + (s.learned replies (i + 1)).length ≤
          s''.closestNodes.length + errorsBefore replies (i + 1) ∨
        K ≤ s''.closestNodes.length + errorsBefore replies (i + 1))) :
    Consumed s replies (i + 1) s'' := by
  refine ⟨?_, fun _ => hlength, ?_⟩
  · intro id
    rw [hseen, h.seen, or_assoc]
    apply or_congr_right
    constructor
    · rintro (⟨j, hj, hmem⟩ | hmem)
      · exact ⟨j, Nat.lt_succ_of_lt hj, hmem⟩
      · exact ⟨i, Nat.lt_succ_self i, hi, hmem⟩
    · rintro ⟨j, hj, hreached, hmem⟩
      rcases Nat.lt_succ_iff_lt_or_eq.mp hj with hlt | rfl
      · exact .inl ⟨j, hlt, hreached, hmem⟩
      · exact .inr hmem
  · intro j hj hnot
    exact absurd (reached_mono hi (Nat.le_of_lt_succ hj)) hnot

theorem Consumed.consume (h : Consumed s replies i s') (hi : i < FindValue.alpha) :
    Consumed s replies (i + 1) (s'.consume target i (replies i)) := by
  by_cases hreached : s.Reached replies i
  · have hlt : i < s'.closestNodes.length := (h.lt_iff hi).mpr hreached
    have hbefore : ∀ j < i, s.Reached replies j := (reached_iff.mp hreached).1
    have hlength := h.length hbefore
    cases hreply : (replies i).result with
    | ok nodes =>
      obtain ⟨hnodes, hseen⟩ := consume_ok target hlt hreply
      have hlearned := congrArg List.length (h.learned hbefore)
      rw [List.length_append, Reply.nodes_of_ok hreply] at hlearned
      have hnearest := (nearest_spec (distanceTo target) K
        (s'.closestNodes ++ unseen s'.seen nodes)).length
      rw [← hnodes, List.length_append] at hnearest
      apply h.extend hreached
      · rwa [Reply.nodes_of_ok hreply]
      · rw [errorsBefore_of_ok hreply]
        omega
    | error error =>
      rw [consume_error hlt hreply]
      apply h.extend hreached
      · intro id
        simp [Reply.nodes_of_error hreply]
      · rw [errorsBefore_of_error hreply, learned_of_error hreply]
        simp only [List.length_eraseIdx_of_lt hlt]
        omega
  · have hle : s'.closestNodes.length ≤ i := Nat.not_lt.mp fun hlt => hreached ((h.lt_iff hi).mp hlt)
    rw [consume_of_le hle]
    exact h.skip hreached hle

theorem consumed_consumed (target : NodeId) (s : State) (replies : Nat → Reply) (hi : i ≤ FindValue.alpha) :
    Consumed s replies i (s.consumed target replies i) := by
  induction i with
  | zero =>
    refine ⟨?_, ?_, ?_⟩
    · intro id
      simp [State.consumed]
    · intro _
      simp [State.consumed, State.learned, answersBefore, unseen, errorsBefore]
    · intro j hj
      omega
  | succ i ih => exact (ih (Nat.le_of_succ_le hi)).consume (Nat.lt_of_succ_le hi)

/-! ## Answers that are not lost -/

/-- Every node in an answer of the round has been seen at its end. -/
def NothingLost (target : NodeId) (s : State) (replies : Nat → Reply) : Prop :=
  s.Searching → ∀ i < s.active, ∀ node ∈ (replies i).nodes,
    node.id ∈ (s.round target replies).seen

/-- The answers that are not reached list only nodes that were seen before the round or that
a reached answer lists too. -/
def SkippedKnown (s : State) (replies : Nat → Reply) : Prop :=
  s.Searching → ∀ i < s.active, ¬ s.Reached replies i → ∀ node ∈ (replies i).nodes,
    node.id ∈ s.seen ∨
      ∃ j < s.active, s.Reached replies j ∧ node.id ∈ (replies j).nodes.map Node.id

theorem nothingLost_iff : NothingLost target s replies ↔ SkippedKnown s replies := by
  have hround : Consumed s replies s.active (s.round target replies) :=
    consumed_consumed target s replies (Nat.min_le_left _ _)
  constructor
  · intro h hsearching i hi _ node hnode
    exact (hround.seen node.id).mp (h hsearching i hi node hnode)
  · intro h hsearching i hi node hnode
    rw [hround.seen]
    by_cases hreached : s.Reached replies i
    · exact .inr ⟨i, hi, hreached, List.mem_map_of_mem hnode⟩
    · exact h hsearching i hi hreached node hnode

/-- In every lookup and for all replies, no answer is lost if and only if in each round the
answers behind the end of the list bring nothing new. -/
theorem nothing_lost_iff_skipped_known (nodeId target : NodeId) (closestNodes : List Node)
    (rounds : List (Nat → Reply)) :
    Meets (step target) (NothingLost target) (start nodeId closestNodes) rounds ↔
      Meets (step target) SkippedKnown (start nodeId closestNodes) rounds := by
  refine meets_iff_meets (I := fun _ => True) ?_ ?_ trivial rounds
  · intro s replies _
    trivial
  · intro s replies _
    exact nothingLost_iff

/-- Two contacts are queried.  The first one fails, and the answer of the second one is
skipped. -/
theorem answer_lost_after_error :
    ¬ ∀ (nodeId target : NodeId) (closestNodes : List Node) (rounds : List (Nat → Reply)),
      Meets (step target) (NothingLost target) (start nodeId closestNodes) rounds := by
  intro h
  have hlost := (h (NodeId.fromBytes [0]) (NodeId.fromBytes [0x81])
    ((((RoutingTable.new (NodeId.fromBytes [0])).step (.update (.at 0) (Node.ofByte 0x80))).step
      (.update (.at 0) (Node.ofByte 0x40))).getClosest (NodeId.fromBytes [0x81]) K)
    [fun i => if i = 0 then .timedOut
      else .response (.nodesFound 1 (Node.ofByte 0x40) [Node.ofByte 0x82])]).1
    (by decide +kernel) 1 (by decide +kernel) (Node.ofByte 0x82) (by decide +kernel)
  revert hlost
  decide +kernel

end FindNode

end Kademlia
