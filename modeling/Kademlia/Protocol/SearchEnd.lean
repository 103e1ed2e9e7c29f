import Kademlia.Protocol.FindValue

/-!
# How a search for a value ends

`find_value` gives up when no node of its list is left to query, when a round has brought no
node that was not visited before, and after `MAX_ITERATIONS` rounds.  It returns `None` in
each case.  In the second one the list may hold nodes that were never queried, for a round
queries `ALPHA` of them at most.

A `Lookup` is a lookup together with the nodes that it has queried and with those that its
last round had to choose from.  These two are kept for the statements only.
-/

namespace Kademlia

open Lib

namespace FindValue

/-- The nodes that a round chooses from.  It queries the first `ALPHA` of them. -/
def unvisited (nodeId : NodeId) (closestNodes : List Node) (visited : List NodeId) : List Node :=
  closestNodes.filter fun node => !visited.contains node.id && node.id != nodeId

structure Lookup where
  state : State
  queried : List Node
  choices : List Node

def Lookup.start (nodeId key : NodeId) (table : RoutingTable) (storage : MemoryStorage) : Lookup :=
  { state := FindValue.start nodeId key table storage, queried := [], choices := [] }

def Lookup.step (l : Lookup) (event : Event) : Lookup :=
  match event, l.state.phase with
  | .lookup .query, .searching iteration closestNodes visited =>
    { state := FindValue.step l.state event
      queried :=
        if iteration < maxIterations then
          nodesToQuery l.state.nodeId closestNodes visited ++ l.queried
        else l.queried
      choices := unvisited l.state.nodeId closestNodes visited }
  | _, _ => { l with state := FindValue.step l.state event }

/-- The rounds of a search, the one under way included, and its list of nodes. -/
def Phase.search : Phase → Option (Nat × List Node)
  | searching iteration closestNodes _ => some (iteration, closestNodes)
  | querying iteration closestNodes _ _ _ => some (iteration + 1, closestNodes)
  | _ => none

/-- A search that gives up before it has made all its rounds has queried every node of its
list but the local one. -/
def Exhaustive (l : Lookup) (event : Event) : Prop :=
  ∀ rounds closestNodes, l.state.phase.search = some (rounds, closestNodes) →
    rounds < maxIterations → (FindValue.step l.state event).phase = .finished (.ok none) →
      ∀ node ∈ closestNodes, node.id ≠ l.state.nodeId → node.id ∈ l.queried.map Node.id

/-- A round before the last one that ends without a value and without a new node had no more
than the nodes that it queried to choose from. -/
def ChoosesAll (l : Lookup) (event : Event) : Prop :=
  match event, l.state.phase with
  | .lookup .collect, .querying iteration _ _ [] [] =>
    iteration + 1 < maxIterations →
      ∀ node ∈ l.choices.drop alpha, node.id ∈ (l.choices.take alpha).map Node.id
  | _, _ => True

variable {l : Lookup}

/-! ## The nodes visited -/

/-- The nodes visited are the local one and those queried.  In a round, they are the nodes
taken from the choices and those visited before it. -/
def Visits (nodeId : NodeId) (queried choices : List Node) : Phase → Prop
  | .arrived | .missed => queried = []
  | .searching _ _ visited => ∀ id, id ∈ visited ↔ id = nodeId ∨ id ∈ queried.map Node.id
  | .querying _ closestNodes visited _ _ =>
    (∀ id, id ∈ visited ↔ id = nodeId ∨ id ∈ queried.map Node.id) ∧
      ∃ before, choices = unvisited nodeId closestNodes before ∧
        visited = (choices.take alpha).map Node.id ++ before
  | _ => True

def Lookup.Visits (l : Lookup) : Prop :=
  FindValue.Visits l.state.nodeId l.queried l.choices l.state.phase

theorem Lookup.Visits.query {iteration : Nat} {closestNodes : List Node} {visited : List NodeId}
    (h : l.Visits) (hphase : l.state.phase = .searching iteration closestNodes visited) :
    (l.step (.lookup .query)).Visits := by
  rw [Lookup.Visits, hphase] at h
  have hstep : l.step (.lookup .query) =
      { state := l.state.advance .query
        queried :=
          if iteration < maxIterations then
            nodesToQuery l.state.nodeId closestNodes visited ++ l.queried
          else l.queried
        choices := unvisited l.state.nodeId closestNodes visited } := by
    simp only [Lookup.step, hphase]
    rfl
  rw [hstep, Lookup.Visits, State.advance, hphase]
  dsimp only
  split_ifs with hend hlt
  · trivial
  · trivial
  · refine ⟨?_, visited, rfl, rfl⟩
    intro id
    rw [List.map_append, List.mem_append, List.mem_append, h id]
    tauto
  · exact absurd (.inl (Nat.not_lt.mp ‹_›)) hend

/-- A step that is not a query changes the phase of the state only. -/
theorem Lookup.step_of_ne_query {event : Event} (h : event ≠ .lookup .query) :
    l.step event = { l with state := FindValue.step l.state event } := by
  unfold Lookup.step
  split
  · exact absurd rfl h
  · rfl

theorem Lookup.Visits.step (h : l.Visits) (event : Event) : (l.step event).Visits := by
  by_cases hquery : event = .lookup .query
  · subst hquery
    cases hphase : l.state.phase with
    | searching iteration closestNodes visited => exact h.query hphase
    | _ =>
      have hstep : l.step (.lookup .query) = l := by
        unfold Lookup.step
        simp only [hphase, FindValue.step, State.advance]
      rwa [hstep]
  · rw [Lookup.step_of_ne_query hquery]
    cases event with
    | write now key value => exact h
    | table op => exact h
    | lookup st =>
      rw [Lookup.Visits] at h ⊢
      dsimp only [FindValue.step]
      rw [advance_nodeId]
      have hstep := advance_phase l.state st
      generalize (l.state.advance st).phase = phase at hstep ⊢
      cases hstep with
      | stay _ => exact h
      | miss hphase =>
        rw [hphase] at h
        exact h
      | first hphase =>
        rw [hphase] at h
        have hqueried : l.queried = [] := h
        intro id
        rw [hqueried]
        simp
      | query _ _ => exact absurd rfl hquery
      | answer _ hphase =>
        rw [hphase] at h
        exact h
      | next _ hphase =>
        rw [hphase] at h
        exact h.1
      | _ => trivial

/-! ## The end of a search -/

theorem unvisited_eq_nil {nodeId : NodeId} {closestNodes : List Node} {visited : List NodeId}
    (h : (nodesToQuery nodeId closestNodes visited).isEmpty = true) :
    unvisited nodeId closestNodes visited = [] := by
  have htake : (unvisited nodeId closestNodes visited).take alpha = [] := List.isEmpty_iff.mp h
  rcases List.take_eq_nil_iff.mp htake with halpha | hnil
  · cases halpha
  · exact hnil

theorem mem_unvisited {nodeId : NodeId} {closestNodes : List Node} {visited : List NodeId}
    {node : Node} : node ∈ unvisited nodeId closestNodes visited ↔
      node ∈ closestNodes ∧ node.id ∉ visited ∧ node.id ≠ nodeId := by
  simp [unvisited]

/-- Only the start of a round and the end of one can give up a search. -/
theorem gives_up {s : State} {event : Event} {rounds : Nat} {closestNodes : List Node}
    (hsearch : s.phase.search = some (rounds, closestNodes))
    (hend : (step s event).phase = .finished (.ok none)) :
    (event = .lookup .query ∧ ∃ visited, s.phase = .searching rounds closestNodes visited ∧
        (maxIterations ≤ rounds ∨ unvisited s.nodeId closestNodes visited = [])) ∨
      event = .lookup .collect ∧ ∃ iteration visited, rounds = iteration + 1 ∧
        s.phase = .querying iteration closestNodes visited [] [] := by
  cases event with
  | write now key value =>
    have hphase : s.phase = .finished (.ok none) := hend
    rw [hphase] at hsearch
    cases hsearch
  | table op =>
    have hphase : s.phase = .finished (.ok none) := hend
    rw [hphase] at hsearch
    cases hsearch
  | lookup st =>
    have hstep := advance_phase s st
    rw [show (s.advance st).phase = .finished (.ok none) from hend] at hstep
    generalize hfinal : Phase.finished (.ok none) = final at hstep
    cases hstep with
    | stay _ =>
      rw [← hfinal] at hsearch
      cases hsearch
    | hit _ _ hresult =>
      cases hfinal
      exact absurd rfl hresult
    | alone hmissed =>
      rw [hmissed] at hsearch
      cases hsearch
    | noneLeft hsearching hgives =>
      rw [hsearching] at hsearch
      cases hsearch
      exact .inl ⟨rfl, _, hsearching, hgives.imp_right unvisited_eq_nil⟩
    | nothingNew hquerying =>
      rw [hquerying] at hsearch
      cases hsearch
      exact .inr ⟨rfl, _, _, rfl, hquerying⟩
    | _ => cases hfinal

/-- A search with no node left to query has queried every node of its list. -/
theorem Lookup.Visits.exhausted {rounds : Nat} {closestNodes : List Node} {visited : List NodeId}
    (h : l.Visits) (hphase : l.state.phase = .searching rounds closestNodes visited)
    (hnone : unvisited l.state.nodeId closestNodes visited = []) :
    ∀ node ∈ closestNodes, node.id ≠ l.state.nodeId → node.id ∈ l.queried.map Node.id := by
  rw [Lookup.Visits, hphase] at h
  intro node hnode hne
  by_contra hnot
  have hmem : node ∈ unvisited l.state.nodeId closestNodes visited :=
    mem_unvisited.mpr ⟨hnode, fun hvisited => ((h _).mp hvisited).elim hne hnot, hne⟩
  rw [hnone] at hmem
  cases hmem

/-- The nodes of the list are all queried at the end of a round if and only if it had none to
choose from but those that it queried. -/
theorem Lookup.Visits.round {iteration : Nat} {closestNodes tasks found : List Node}
    {visited : List NodeId} (h : l.Visits)
    (hphase : l.state.phase = .querying iteration closestNodes visited tasks found) :
    (∀ node ∈ closestNodes, node.id ≠ l.state.nodeId → node.id ∈ l.queried.map Node.id) ↔
      ∀ node ∈ l.choices.drop alpha, node.id ∈ (l.choices.take alpha).map Node.id := by
  rw [Lookup.Visits, hphase] at h
  obtain ⟨hvisited, before, hchoices, hround⟩ := h
  constructor
  · intro hall node hnode
    have hmem := List.mem_of_mem_drop hnode
    rw [hchoices] at hmem
    obtain ⟨hclosest, hnot, hne⟩ := mem_unvisited.mp hmem
    have hid : node.id ∈ visited := (hvisited _).mpr (.inr (hall node hclosest hne))
    rw [hround] at hid
    exact (List.mem_append.mp hid).resolve_right hnot
  · intro hdrop node hnode hne
    have hid : node.id ∈ visited := by
      rw [hround, List.mem_append]
      by_cases hbefore : node.id ∈ before
      · exact .inr hbefore
      · have hmem : node ∈ l.choices := hchoices ▸ mem_unvisited.mpr ⟨hnode, hbefore, hne⟩
        rw [← List.take_append_drop alpha l.choices] at hmem
        rcases List.mem_append.mp hmem with htake | hrest
        · exact .inl (List.mem_map_of_mem htake)
        · exact .inl (hdrop node hrest)
    exact ((hvisited _).mp hid).resolve_left hne

theorem exhaustive_iff {event : Event} (h : l.Visits) :
    Exhaustive l event ↔ ChoosesAll l event := by
  constructor
  · intro hexhaustive
    unfold ChoosesAll
    split
    · rename_i iteration closestNodes visited hphase
      intro hlt
      apply (h.round hphase).mp
      apply hexhaustive (iteration + 1) closestNodes
      · rw [hphase]
        rfl
      · exact hlt
      · simp only [step, State.advance, hphase]
        rfl
    · trivial
  · intro hchooses rounds closestNodes hsearch hrounds hend
    rcases gives_up hsearch hend with ⟨-, visited, hphase, hgives⟩ |
      ⟨rfl, iteration, visited, rfl, hphase⟩
    · rcases hgives with hmax | hnone
      · omega
      · exact h.exhausted hphase hnone
    · simp only [ChoosesAll, hphase] at hchooses
      exact (h.round hphase).mpr (hchooses hrounds)

/-- In every lookup, for all contacts and replies and whatever other processes do meanwhile: a
search that gives up early has queried all nodes of its list if and only if the round that
brings nothing new had no more nodes to choose from than it queried. -/
theorem exhaustive_iff_choosesAll (nodeId key : NodeId) (table : RoutingTable)
    (storage : MemoryStorage) (events : List Event) :
    Meets Lookup.step Exhaustive (Lookup.start nodeId key table storage) events ↔
      Meets Lookup.step ChoosesAll (Lookup.start nodeId key table storage) events := by
  have hstart : (Lookup.start nodeId key table storage).Visits := rfl
  refine meets_iff_meets (I := Lookup.Visits) ?_ ?_ hstart events
  · intro l event h
    exact h.step event
  · intro l event h
    exact exhaustive_iff h

/-- A table of the local node `00..` with the contacts `01..` to `06..`. -/
def sixContacts : RoutingTable :=
  run RoutingTable.step (.new (NodeId.fromBytes [0]))
    (([1, 2, 3, 4, 5, 6] : List UInt8).map fun byte => .update (.at 0) (Node.ofByte byte))

/-- Six contacts are known.  The five closest ones answer with no nodes, and the sixth one is
never asked. -/
theorem sixth_contact_not_queried :
    ¬ ∀ (nodeId key : NodeId) (table : RoutingTable) (storage : MemoryStorage)
      (events : List Event),
      Meets Lookup.step Exhaustive (Lookup.start nodeId key table storage) events := by
  intro h
  have hmeets := meets_append.mp (h (NodeId.fromBytes [0]) (NodeId.fromBytes [0xff]) sixContacts
    .new ([.lookup (.check 0), .lookup .select, .lookup .query] ++
      List.replicate 5 (.lookup (.await (.response (.valueFound 1 (Node.ofByte 1) none [])))) ++
      [.lookup .collect]))
  have hqueried := hmeets.2.1 1 (sixContacts.getClosest (NodeId.fromBytes [0xff]) K)
    (by decide +kernel) (by decide +kernel) (by decide +kernel)
    ((Node.ofByte 1).updateLastSeen (.at 0)) (by decide +kernel) (by decide +kernel)
  revert hqueried
  decide +kernel

end FindValue

end Kademlia
