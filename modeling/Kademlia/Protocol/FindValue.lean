import Kademlia.Lib.Run
import Kademlia.Protocol.Message
import Kademlia.Routing.Closest

/-!
# Looking up a value

`find_value` checks the local storage, queries the contacts closest to the key in rounds,
and stores the first value that it gets.  Between these sections of the lookup the node
goes on with its other work, so a client or a peer may write to the key in the meantime.

`written` is kept for the statements only.  It is the last value that another process
has written to the key since the lookup looked into the storage.
-/

namespace Kademlia

open Lib

namespace FindValue

def alpha : Nat := 5

def maxIterations : Nat := 10

/-- How the query of a node ends: with an error, with the timeout around it, or with a
response. -/
inductive Reply where
  | failed
  | timedOut
  | response (message : ResponseMessage)

/-- The result of `find_value_rpc`.  After a timeout, and for a response that answers another
request, it is empty. -/
def Reply.result : Reply → Option (Option Value × List Node)
  | failed => none
  | timedOut => some (none, [])
  | response (.valueFound _ _ value nodes) => some (value, nodes)
  | response (.nodesFound _ _ nodes) => some (none, nodes)
  | response _ => some (none, [])

/-- Where a lookup stands: before and after its local check, before a round, in a round with
the nodes whose replies are not yet awaited and the nodes found so far, with a value to
cache, and at its end. -/
inductive Phase where
  | arrived
  | missed
  | searching (iteration : Nat) (closestNodes : List Node) (visited : List NodeId)
  | querying (iteration : Nat) (closestNodes : List Node) (visited : List NodeId)
      (tasks allClosestNodes : List Node)
  | caching (value : Value)
  | finished (result : Outcome (Option Value))
deriving DecidableEq

inductive Step where
  | check (now : Instant)
  | select
  | query
  | await (reply : Reply)
  | collect
  | cache (now : Instant)

structure State where
  nodeId : NodeId
  key : NodeId
  table : RoutingTable
  storage : MemoryStorage
  phase : Phase
  written : Option Value

def start (nodeId key : NodeId) (table : RoutingTable) (storage : MemoryStorage) : State :=
  { nodeId := nodeId, key := key, table := table, storage := storage, phase := .arrived,
    written := none }

/-- The nodes that the search starts from. -/
def firstNodes (t : RoutingTable) (key : NodeId) : List Node :=
  let nodes := t.getClosest key K
  if nodes.isEmpty then t.getAllNodes else nodes

/-- The nodes of a round. -/
def nodesToQuery (nodeId : NodeId) (closestNodes : List Node) (visited : List NodeId) : List Node :=
  (closestNodes.filter fun node => !visited.contains node.id && node.id != nodeId).take alpha

/-- A step of the lookup.  A step that is not enabled changes nothing. -/
def State.advance (s : State) : Step → State
  | .check now =>
    match s.phase with
    | .arrived =>
      match s.storage.get now s.key with
      | .ok value => { s with phase := .finished (.ok (some value)) }
      | .error (.panic message) => { s with phase := .finished (.error (.panic message)) }
      | .error _ => { s with phase := .missed }
    | _ => s
  | .select =>
    match s.phase with
    | .missed =>
      let closestNodes := firstNodes s.table s.key
      if closestNodes.isEmpty then { s with phase := .finished (.ok none) }
      else { s with phase := .searching 0 closestNodes [s.nodeId] }
    | _ => s
  | .query =>
    match s.phase with
    | .searching iteration closestNodes visited =>
      let tasks := nodesToQuery s.nodeId closestNodes visited
      if maxIterations ≤ iteration ∨ tasks.isEmpty then { s with phase := .finished (.ok none) }
      else
        { s with
          phase := .querying iteration closestNodes (tasks.map Node.id ++ visited) tasks [] }
    | _ => s
  | .await reply =>
    match s.phase with
    | .querying iteration closestNodes visited (_ :: tasks) allClosestNodes =>
      match reply.result with
      | some (some value, _) => { s with phase := .caching value }
      | some (none, moreNodes) =>
        let newNodes := moreNodes.filter fun node => !visited.contains node.id
        { s with
          phase := .querying iteration closestNodes visited tasks (allClosestNodes ++ newNodes) }
      | none => { s with phase := .querying iteration closestNodes visited tasks allClosestNodes }
    | _ => s
  | .collect =>
    match s.phase with
    | .querying iteration closestNodes visited [] allClosestNodes =>
      if allClosestNodes.isEmpty then { s with phase := .finished (.ok none) }
      else
        let closestNodes := nearest (fun node : Node => s.key.distance node.id) K
          (closestNodes ++ allClosestNodes)
        { s with phase := .searching (iteration + 1) closestNodes visited }
    | _ => s
  | .cache now =>
    match s.phase with
    | .caching value =>
      { s with
        storage := (s.storage.store now s.key value).2
        phase := .finished (.ok (some value)) }
    | _ => s

def Phase.checked : Phase → Bool
  | arrived => false
  | _ => true

/-- The local section of `store_value` and of `handle_store`. -/
def State.write (s : State) (now : Instant) (key : NodeId) (value : Value) : State :=
  { s with
    storage := (s.storage.store now key value).2
    written := if key = s.key ∧ s.phase.checked then some value else s.written }

/-- A step of the lookup, a write by a client or a peer, or an operation on the table. -/
inductive Event where
  | lookup (step : Step)
  | write (now : Instant) (key : NodeId) (value : Value)
  | table (op : TableOp)

def step (s : State) : Event → State
  | .lookup st => s.advance st
  | .write now key value => s.write now key value
  | .table op => { s with table := s.table.step op }

/-! ## The phases of a lookup -/

/-- The phases that a step can lead to. -/
inductive PhaseStep (s : State) : Step → Phase → Prop where
  | stay (st : Step) : PhaseStep s st s.phase
  | hit {now : Instant} (result : Outcome (Option Value)) (h : s.phase = .arrived)
      (hresult : result ≠ .ok none) : PhaseStep s (.check now) (.finished result)
  | miss {now : Instant} (h : s.phase = .arrived) : PhaseStep s (.check now) .missed
  | alone (h : s.phase = .missed) : PhaseStep s .select (.finished (.ok none))
  | first (h : s.phase = .missed) :
      PhaseStep s .select (.searching 0 (firstNodes s.table s.key) [s.nodeId])
  | noneLeft {iteration : Nat} {closestNodes : List Node} {visited : List NodeId}
      (h : s.phase = .searching iteration closestNodes visited)
      (hend : maxIterations ≤ iteration ∨
        (nodesToQuery s.nodeId closestNodes visited).isEmpty = true) :
      PhaseStep s .query (.finished (.ok none))
  | query {iteration : Nat} {closestNodes : List Node} {visited : List NodeId}
      (h : s.phase = .searching iteration closestNodes visited) (hlt : iteration < maxIterations) :
      PhaseStep s .query (.querying iteration closestNodes
        ((nodesToQuery s.nodeId closestNodes visited).map Node.id ++ visited)
        (nodesToQuery s.nodeId closestNodes visited) [])
  | found {reply : Reply} (value : Value) (h : ∃ iteration closestNodes visited tasks found,
      s.phase = .querying iteration closestNodes visited tasks found) :
      PhaseStep s (.await reply) (.caching value)
  | answer {reply : Reply} {iteration : Nat} {closestNodes : List Node} {visited : List NodeId}
      {task : Node} {tasks allClosestNodes : List Node} (more : List Node)
      (h : s.phase = .querying iteration closestNodes visited (task :: tasks) allClosestNodes) :
      PhaseStep s (.await reply) (.querying iteration closestNodes visited tasks more)
  | nothingNew {iteration : Nat} {closestNodes : List Node} {visited : List NodeId}
      (h : s.phase = .querying iteration closestNodes visited [] []) :
      PhaseStep s .collect (.finished (.ok none))
  | next {iteration : Nat} {closestNodes allClosestNodes : List Node} {visited : List NodeId}
      (merged : List Node)
      (h : s.phase = .querying iteration closestNodes visited [] allClosestNodes) :
      PhaseStep s .collect (.searching (iteration + 1) merged visited)
  | cached {now : Instant} {value : Value} (h : s.phase = .caching value) :
      PhaseStep s (.cache now) (.finished (.ok (some value)))

theorem advance_phase (s : State) (st : Step) : PhaseStep s st (s.advance st).phase := by
  cases st with
  | check now =>
    rw [State.advance]
    split
    · rename_i hphase
      split
      · exact .hit _ hphase (fun h => by cases h)
      · exact .hit _ hphase (fun h => by cases h)
      · exact .miss hphase
    · exact .stay _
  | select =>
    rw [State.advance]
    split
    · rename_i hphase
      dsimp only
      split_ifs
      · exact .alone hphase
      · exact .first hphase
    · exact .stay _
  | query =>
    rw [State.advance]
    split
    · rename_i hphase
      dsimp only
      split_ifs with hend
      · exact .noneLeft hphase hend
      · exact .query hphase (Nat.not_le.mp fun hle => hend (.inl hle))
    · exact .stay _
  | await reply =>
    rw [State.advance]
    split
    · rename_i hphase
      split
      · exact .found _ ⟨_, _, _, _, _, hphase⟩
      · exact .answer _ hphase
      · exact .answer _ hphase
    · exact .stay _
  | collect =>
    rw [State.advance]
    split
    · rename_i hphase
      dsimp only
      split_ifs with hempty
      · rw [List.isEmpty_iff.mp hempty] at hphase
        exact .nothingNew hphase
      · exact .next _ hphase
    · exact .stay _
  | cache now =>
    rw [State.advance]
    split
    · rename_i hphase
      exact .cached hphase
    · exact .stay _

theorem advance_nodeId (s : State) (st : Step) : (s.advance st).nodeId = s.nodeId := by
  fun_cases State.advance s st <;> rfl

/-! ## Writes during a lookup -/

/-- The storage holds what was written last. -/
def Kept (s : State) : Prop := s.written = none ∨ s.storage.held s.key = s.written

instance (s : State) : Decidable (Kept s) :=
  inferInstanceAs (Decidable (s.written = none ∨ s.storage.held s.key = s.written))

/-- A value that the lookup is about to cache is the one that was written in the meantime,
if any was. -/
def CachesWritten (s : State) : Event → Prop
  | .lookup (.cache _) =>
    ∀ value, s.phase = .caching value → s.written = none ∨ s.written = some value
  | _ => True

/-- What a step of the lookup leaves alone.  Only the last step writes to the storage. -/
structure Advances (s : State) (st : Step) (s' : State) : Prop where
  key : s'.key = s.key
  written : s'.written = s.written
  checked : s.phase.checked = true → s'.phase.checked = true
  storage : s'.storage = s.storage ∨ ∃ now value, st = .cache now ∧ s.phase = .caching value ∧
    s'.storage = (s.storage.store now s.key value).2

theorem advances_refl (s : State) (st : Step) : Advances s st s := ⟨rfl, rfl, id, .inl rfl⟩

theorem advances_phase (s : State) (st : Step) {phase : Phase} (h : phase.checked = true) :
    Advances s st { s with phase := phase } := ⟨rfl, rfl, fun _ => h, .inl rfl⟩

theorem advance_spec (s : State) (st : Step) : Advances s st (s.advance st) := by
  cases st with
  | check now =>
    simp only [State.advance]
    split
    · split
      · exact advances_phase s _ rfl
      · exact advances_phase s _ rfl
      · exact advances_phase s _ rfl
    · exact advances_refl s _
  | select =>
    simp only [State.advance]
    split
    · split_ifs
      · exact advances_phase s _ rfl
      · exact advances_phase s _ rfl
    · exact advances_refl s _
  | query =>
    simp only [State.advance]
    split
    · split_ifs
      · exact advances_phase s _ rfl
      · exact advances_phase s _ rfl
    · exact advances_refl s _
  | await reply =>
    simp only [State.advance]
    split
    · split
      · exact advances_phase s _ rfl
      · exact advances_phase s _ rfl
      · exact advances_phase s _ rfl
    · exact advances_refl s _
  | collect =>
    simp only [State.advance]
    split
    · split_ifs
      · exact advances_phase s _ rfl
      · exact advances_phase s _ rfl
    · exact advances_refl s _
  | cache now =>
    simp only [State.advance]
    split
    · rename_i value hphase
      exact ⟨rfl, rfl, fun _ => rfl, .inr ⟨now, value, rfl, hphase, rfl⟩⟩
    · exact advances_refl s _

/-- Nothing counts as written before the local check. -/
def Untouched (s : State) : Prop := s.phase.checked = false → s.written = none

theorem untouched_step {s : State} (h : Untouched s) (event : Event) :
    Untouched (step s event) := by
  intro hchecked
  cases event with
  | lookup st =>
    have hspec := advance_spec s st
    have hbefore : s.phase.checked = false := by
      cases hs : s.phase.checked with
      | false => rfl
      | true =>
        have hafter : (s.advance st).phase.checked = false := hchecked
        rw [hspec.checked hs] at hafter
        cases hafter
    exact hspec.written.trans (h hbefore)
  | write now key value =>
    have hbefore : s.phase.checked = false := hchecked
    show (if key = s.key ∧ s.phase.checked = true then some value else s.written) = none
    rw [if_neg (by simp [hbefore])]
    exact h hbefore
  | table op => exact h hchecked

theorem kept_write {s : State} (huntouched : Untouched s) (h : Kept s) (now : Instant)
    (key : NodeId)
    (value : Value) : Kept (s.write now key value) := by
  unfold Kept State.write
  rw [MemoryStorage.held_store]
  by_cases hkey : key = s.key
  · by_cases hchecked : s.phase.checked = true
    · right
      rw [if_pos hkey, if_pos ⟨hkey, hchecked⟩]
    · left
      rw [if_neg (fun hwrites => hchecked hwrites.2)]
      exact huntouched (Bool.eq_false_iff.mpr hchecked)
  · rw [if_neg hkey, if_neg (fun hwrites => hkey hwrites.1)]
    exact h

theorem kept_step_iff {s : State} {event : Event} (huntouched : Untouched s) (h : Kept s) :
    Kept (step s event) ↔ CachesWritten s event := by
  cases event with
  | write now key value => exact ⟨fun _ => trivial, fun _ => kept_write huntouched h now key value⟩
  | table op => exact ⟨fun _ => trivial, fun _ => h⟩
  | lookup st =>
    have hspec := advance_spec s st
    by_cases hcaching : ∃ now value, st = .cache now ∧ s.phase = .caching value
    · obtain ⟨now, value, rfl, hphase⟩ := hcaching
      have hheld : (s.advance (.cache now)).storage.held s.key = some value := by
        simp only [State.advance, hphase]
        rw [MemoryStorage.held_store, if_pos rfl]
      show Kept (s.advance (.cache now)) ↔ _
      unfold Kept
      rw [hspec.written, hspec.key, hheld, eq_comm (a := some value)]
      constructor
      · intro hwritten found hfound
        obtain rfl := Phase.caching.inj (hphase.symm.trans hfound)
        exact hwritten
      · intro hcaches
        exact hcaches value hphase
    · have hsame : (s.advance st).storage = s.storage := by
        rcases hspec.storage with hsame | ⟨now, value, hst, hphase, -⟩
        · exact hsame
        · exact absurd ⟨now, value, hst, hphase⟩ hcaching
      constructor
      · intro _
        cases st with
        | cache now =>
          intro value hphase
          exact absurd ⟨now, value, rfl, hphase⟩ hcaching
        | _ => trivial
      · intro _
        show Kept (s.advance st)
        unfold Kept
        rw [hspec.written, hspec.key, hsame]
        exact h

/-- While a lookup is under way, the storage holds what was last written to the key since
the local check if and only if the lookup caches no other value after such a write.  The
search and the replies are arbitrary. -/
theorem kept_throughout_iff (nodeId key : NodeId) (table : RoutingTable) (storage : MemoryStorage)
    (events : List Event) :
    Throughout step Kept (start nodeId key table storage) events ↔
      Meets step CachesWritten (start nodeId key table storage) events := by
  apply throughout_iff_meets (I := Untouched)
  · intro s event h
    exact untouched_step h event
  · intro s event huntouched h
    exact kept_step_iff huntouched h
  · intro _
    rfl
  · exact .inl rfl

/-- A client writes while the one contact is queried, and the old value of the contact is
cached over it. -/
theorem write_lost_to_cache :
    ¬ ∀ (nodeId key : NodeId) (table : RoutingTable) (storage : MemoryStorage)
      (events : List Event),
      Throughout step Kept (start nodeId key table storage) events := by
  intro h
  have hkept := (h (NodeId.fromBytes [0]) (NodeId.fromBytes [7])
    ((RoutingTable.new (NodeId.fromBytes [0])).step (.update (.at 0) (Node.ofByte 0x80))) .new
    [.lookup (.check 0), .lookup .select, .lookup .query, .write 1 (NodeId.fromBytes [7]) [2],
      .lookup (.await (.response (.valueFound 1 (Node.ofByte 0x80) (some [1]) []))),
      .lookup (.cache 2)]).last
  revert hkept
  decide +kernel

end FindValue

end Kademlia
