import Mathlib.Logic.Function.Iterate
import Kademlia.Protocol.FindValue

/-!
# The order in which the answers of a round arrive

The requests of a round run as tasks of their own and complete in any order, while
`find_value` awaits them one after another in the order of the requests.  It reads the table
once and the storage once, and it writes to the storage once, at the very end.

A `Search` is a lookup with its tasks.  A completed task only unblocks the lookup, so every
section of the lookup is determined by those before it.  What it returns depends on the
replies by round and by position alone.
-/

namespace Kademlia

open Lib

namespace FindValue

/-- The value in the result of a query. -/
def Reply.value (reply : Reply) : Option Value := reply.result.bind Prod.fst

/-- What a lookup is given: the readings of the clock at its local check and when it stores
the value, and the replies to its requests by round and by position in the round. -/
structure Inputs where
  checkedAt : Instant
  cachedAt : Instant
  replies : Nat → Nat → Reply

/-- A lookup, the nodes that its rounds have queried so far in the order of the requests, and
the positions of the tasks of the round under way that have completed. -/
structure Search where
  state : State
  rounds : List (List Node)
  completed : List Nat

inductive SearchEvent where
  | resume
  | complete (position : Nat)
  | table (op : TableOp)

namespace Search

/-- `table` is what the lookup reads from the routing table. -/
def start (nodeId key : NodeId) (table : RoutingTable) (storage : MemoryStorage) : Search :=
  { state := FindValue.start nodeId key table storage, rounds := [], completed := [] }

/-- The position in its round of the task that is awaited before `tasks`. -/
def position (x : Search) (tasks : List Node) : Nat :=
  (x.rounds.getLastD []).length - (tasks.length + 1)

/-- The lookup awaits a task that has not completed. -/
def waits (x : Search) : Bool :=
  match x.state.phase with
  | .querying _ _ _ (_ :: tasks) _ => !x.completed.contains (x.position tasks)
  | _ => false

/-- The next section of the lookup. -/
def next (inputs : Inputs) (x : Search) : Option Step :=
  match x.state.phase with
  | .arrived => some (.check inputs.checkedAt)
  | .missed => some .select
  | .searching _ _ _ => some .query
  | .querying iteration _ _ (_ :: tasks) _ =>
    some (.await (inputs.replies iteration (x.position tasks)))
  | .querying _ _ _ [] _ => some .collect
  | .caching _ => some (.cache inputs.cachedAt)
  | .finished _ => none

/-- The lookup takes its next section.  The tasks of a round start at its beginning. -/
def proceed (inputs : Inputs) (x : Search) : Search :=
  match x.next inputs with
  | none => x
  | some st =>
    match x.state.phase, (x.state.advance st).phase with
    | .searching _ _ _, .querying _ _ _ tasks _ =>
      { state := x.state.advance st, rounds := x.rounds ++ [tasks], completed := [] }
    | _, _ => { x with state := x.state.advance st }

/-- The lookup resumes, a task of the round under way completes, or an operation changes the
routing table after the lookup has read it. -/
def step (inputs : Inputs) (x : Search) : SearchEvent → Search
  | .resume => if x.waits then x else x.proceed inputs
  | .complete position => { x with completed := position :: x.completed }
  | .table op =>
    match x.state.phase with
    | .arrived | .missed => x
    | _ => { x with state := { x.state with table := x.state.table.step op } }

end Search

/-! ## What the rounds have answered -/

/-- The nodes are in the order of their distances to the key. -/
def NearestFirst (key : NodeId) (nodes : List Node) : Prop :=
  nodes.Pairwise (KeyLE fun node : Node => key.distance node.id)

/-- No reply of the rounds has a value. -/
def NoValue (inputs : Inputs) (rounds : List (List Node)) : Prop :=
  ∀ r tasks, rounds[r]? = some tasks → ∀ i < tasks.length, (inputs.replies r i).value = none

/-- The value is that of the first reply with a value, in the first round with one. -/
def FirstValue (inputs : Inputs) (rounds : List (List Node)) (value : Value) : Prop :=
  ∃ before tasks i, rounds = before ++ [tasks] ∧ NoValue inputs before ∧ i < tasks.length ∧
    (inputs.replies before.length i).value = some value ∧
    ∀ j < i, (inputs.replies before.length j).value = none

theorem NoValue.concat {inputs : Inputs} {before : List (List Node)} {tasks : List Node}
    (h : NoValue inputs before)
    (htasks : ∀ i < tasks.length, (inputs.replies before.length i).value = none) :
    NoValue inputs (before ++ [tasks]) := by
  intro r tasks' hr
  rcases Nat.lt_trichotomy r before.length with hlt | rfl | hgt
  · rw [List.getElem?_append_left hlt] at hr
    exact h r tasks' hr
  · rw [List.getElem?_concat_length] at hr
    obtain rfl := Option.some.inj hr
    exact htasks
  · rw [List.getElem?_eq_none (by rw [List.length_append, List.length_singleton]; omega)] at hr
    cases hr

/-! ## The order of the requests -/

theorem distance_comm (x y : NodeId) : x.distance y = y.distance x := by
  apply NodeId.eq_of_get
  intro i
  rw [NodeId.bytes_get_distance, NodeId.bytes_get_distance, UInt8.xor_comm]

theorem nearestFirst_firstNodes (table : RoutingTable) (key : NodeId) :
    NearestFirst key (firstNodes table key) := by
  have hspec := table.getClosest_spec key K
  have hsorted : NearestFirst key (table.getClosest key K) := by
    refine hspec.sorted.imp ?_
    intro a b hab
    rwa [KeyLE, distance_comm key, distance_comm key]
  unfold firstNodes
  dsimp only
  split_ifs with hempty
  · -- A table whose selection is empty has no contacts at all.
    have hlength := hspec.length
    rw [List.isEmpty_iff.mp hempty, List.length_nil] at hlength
    have hK : K = 20 := rfl
    rw [List.length_eq_zero_iff.mp (show table.getAllNodes.length = 0 by omega)]
    exact List.Pairwise.nil
  · exact hsorted

theorem NearestFirst.nodesToQuery {key nodeId : NodeId} {closestNodes : List Node}
    {visited : List NodeId} (h : NearestFirst key closestNodes) :
    NearestFirst key (nodesToQuery nodeId closestNodes visited) :=
  h.sublist ((List.take_sublist _ _).trans List.filter_sublist)

/-! ## A lookup with its tasks -/

/-- What holds of a search with this storage at its start, by the phase of its lookup. -/
def SoundAt (inputs : Inputs) (key : NodeId) (initial : MemoryStorage) (rounds : List (List Node))
    (storage : MemoryStorage) : Phase → Prop
  | .arrived | .missed => rounds = [] ∧ storage = initial
  | .searching iteration closestNodes _ =>
    iteration = rounds.length ∧ NoValue inputs rounds ∧ NearestFirst key closestNodes ∧
      storage = initial
  | .querying iteration closestNodes _ tasks _ =>
    (∃ before awaited, rounds = before ++ [awaited ++ tasks] ∧ iteration = before.length ∧
      NoValue inputs before ∧
      ∀ i < awaited.length, (inputs.replies before.length i).value = none) ∧
    NearestFirst key closestNodes ∧ storage = initial
  | .caching value => FirstValue inputs rounds value ∧ storage = initial
  | .finished result =>
    (storage = initial ∧ ∀ value, result = .ok (some value) →
      rounds = [] ∧ initial.get inputs.checkedAt key = .ok value) ∨
    ∃ value, result = .ok (some value) ∧ FirstValue inputs rounds value ∧
      storage = (initial.store inputs.cachedAt key value).2

structure Search.Sound (inputs : Inputs) (key : NodeId) (initial : MemoryStorage) (x : Search) :
    Prop where
  key_eq : x.state.key = key
  rounds : ∀ tasks ∈ x.rounds, NearestFirst key tasks
  phase : SoundAt inputs key initial x.rounds x.state.storage x.state.phase

variable {inputs : Inputs} {key : NodeId} {initial : MemoryStorage} {x : Search}

/-- A section that starts no round changes the state only. -/
theorem Search.proceed_of_next {st : Step} (hnext : x.next inputs = some st)
    (hphase : ∀ iteration closestNodes visited,
      x.state.phase ≠ .searching iteration closestNodes visited) :
    x.proceed inputs = { x with state := x.state.advance st } := by
  rw [Search.proceed, hnext]
  dsimp only
  split
  · rename_i hsearching _
    exact absurd hsearching (hphase _ _ _)
  · rfl

/-- A new phase of the lookup with the same storage and the same rounds. -/
theorem Search.Sound.move {st : Step} (h : x.Sound inputs key initial) (phase : Phase)
    (hnext : x.next inputs = some st)
    (hphase : ∀ iteration closestNodes visited,
      x.state.phase ≠ .searching iteration closestNodes visited)
    (hadvance : x.state.advance st = { x.state with phase := phase })
    (hsound : SoundAt inputs key initial x.rounds x.state.storage phase) :
    (x.proceed inputs).Sound inputs key initial := by
  rw [Search.proceed_of_next hnext hphase, hadvance]
  exact ⟨h.key_eq, h.rounds, hsound⟩

theorem Search.Sound.check (h : x.Sound inputs key initial) (hphase : x.state.phase = .arrived) :
    (x.proceed inputs).Sound inputs key initial := by
  have hsound := h.phase
  rw [hphase] at hsound
  have hnext : x.next inputs = some (.check inputs.checkedAt) := by rw [Search.next, hphase]
  have hother : ∀ iteration closestNodes visited,
      x.state.phase ≠ .searching iteration closestNodes visited := by simp [hphase]
  cases hget : x.state.storage.get inputs.checkedAt x.state.key with
  | ok value =>
    refine h.move (.finished (.ok (some value))) hnext hother
      (by simp only [State.advance, hphase, hget]) (.inl ⟨hsound.2, fun value' hvalue => ?_⟩)
    obtain rfl : value = value' := Option.some.inj (Except.ok.inj hvalue)
    rw [hsound.2, h.key_eq] at hget
    exact ⟨hsound.1, hget⟩
  | error fault =>
    cases fault with
    | panic message =>
      refine h.move (.finished (.error (.panic message))) hnext hother
        (by simp only [State.advance, hphase, hget]) (.inl ⟨hsound.2, fun _ hvalue => ?_⟩)
      cases hvalue
    | err error =>
      exact h.move .missed hnext hother (by simp only [State.advance, hphase, hget]) hsound
    | outOfFuel =>
      exact h.move .missed hnext hother (by simp only [State.advance, hphase, hget]) hsound

theorem Search.Sound.select (h : x.Sound inputs key initial) (hphase : x.state.phase = .missed) :
    (x.proceed inputs).Sound inputs key initial := by
  have hsound := h.phase
  rw [hphase] at hsound
  have hnext : x.next inputs = some .select := by rw [Search.next, hphase]
  have hother : ∀ iteration closestNodes visited,
      x.state.phase ≠ .searching iteration closestNodes visited := by simp [hphase]
  by_cases hempty : (firstNodes x.state.table x.state.key).isEmpty = true
  · exact h.move (.finished (.ok none)) hnext hother
      (by simp only [State.advance, hphase, hempty, if_true])
      (.inl ⟨hsound.2, fun _ hvalue => nomatch hvalue⟩)
  · refine h.move (.searching 0 (firstNodes x.state.table x.state.key) [x.state.nodeId]) hnext
      hother (by simp only [State.advance, hphase, hempty]; rfl) ⟨?_, ?_, ?_, hsound.2⟩
    · rw [hsound.1]
      rfl
    · intro r tasks hr
      rw [hsound.1] at hr
      cases hr
    · rw [← h.key_eq]
      exact nearestFirst_firstNodes _ _

theorem Search.Sound.query {iteration : Nat} {closestNodes : List Node} {visited : List NodeId}
    (h : x.Sound inputs key initial)
    (hphase : x.state.phase = .searching iteration closestNodes visited) :
    (x.proceed inputs).Sound inputs key initial := by
  have hsound := h.phase
  rw [hphase] at hsound
  obtain ⟨hiteration, hnone, hsorted, hstorage⟩ := hsound
  have hnext : x.next inputs = some .query := by rw [Search.next, hphase]
  by_cases hend : maxIterations ≤ iteration ∨
      (nodesToQuery x.state.nodeId closestNodes visited).isEmpty = true
  · have hadvance : x.state.advance .query = { x.state with phase := .finished (.ok none) } := by
      simp only [State.advance, hphase, hend, if_true]
    have hproceed : x.proceed inputs = { x with state := x.state.advance .query } := by
      simp only [Search.proceed, hnext, hphase, hadvance]
    rw [hproceed, hadvance]
    refine ⟨h.key_eq, h.rounds, .inl ⟨hstorage, fun _ hvalue => ?_⟩⟩
    cases hvalue
  · have hadvance : x.state.advance .query = { x.state with
        phase := .querying iteration closestNodes
          ((nodesToQuery x.state.nodeId closestNodes visited).map Node.id ++ visited)
          (nodesToQuery x.state.nodeId closestNodes visited) [] } := by
      simp only [State.advance, hphase, if_neg hend]
    have hproceed : x.proceed inputs =
        { state := x.state.advance .query
          rounds := x.rounds ++ [nodesToQuery x.state.nodeId closestNodes visited]
          completed := [] } := by
      simp only [Search.proceed, hnext, hphase, hadvance]
    rw [hproceed, hadvance]
    refine ⟨h.key_eq, ?_, ⟨x.rounds, [], rfl, hiteration, hnone, ?_⟩, hsorted, hstorage⟩
    · intro tasks htasks
      rcases List.mem_append.mp htasks with hbefore | hround
      · exact h.rounds tasks hbefore
      · rw [List.mem_singleton.mp hround]
        exact hsorted.nodesToQuery
    · intro i hi
      exact absurd hi (Nat.not_lt_zero i)

/-- The reply that is awaited next is that of the first task not awaited. -/
theorem Search.position_eq {before : List (List Node)} {awaited tasks : List Node} {task : Node}
    (h : x.rounds = before ++ [awaited ++ task :: tasks]) : x.position tasks = awaited.length := by
  rw [Search.position, h, List.getLastD_concat, List.length_append, List.length_cons]
  omega

theorem Search.Sound.await {iteration : Nat} {closestNodes tasks found : List Node} {task : Node}
    {visited : List NodeId} (h : x.Sound inputs key initial)
    (hphase : x.state.phase = .querying iteration closestNodes visited (task :: tasks) found) :
    (x.proceed inputs).Sound inputs key initial := by
  have hsound := h.phase
  rw [hphase] at hsound
  obtain ⟨⟨before, awaited, hrounds, rfl, hnone, hawaited⟩, hsorted, hstorage⟩ := hsound
  have hnext : x.next inputs =
      some (.await (inputs.replies before.length awaited.length)) := by
    rw [Search.next, hphase]
    dsimp only
    rw [Search.position_eq hrounds]
  have hother : ∀ iteration closestNodes visited,
      x.state.phase ≠ .searching iteration closestNodes visited := by simp [hphase]
  -- Without a value, the reply joins those awaited.
  have hround : (inputs.replies before.length awaited.length).value = none → ∀ found',
      SoundAt inputs key initial x.rounds x.state.storage
        (.querying before.length closestNodes visited tasks found') := by
    intro hvalue found'
    refine ⟨⟨before, awaited ++ [task], ?_, rfl, hnone, ?_⟩, hsorted, hstorage⟩
    · rw [hrounds, List.append_assoc]
      rfl
    · intro i hi
      rw [List.length_append, List.length_singleton] at hi
      rcases Nat.lt_succ_iff_lt_or_eq.mp hi with hlt | rfl
      · exact hawaited i hlt
      · exact hvalue
  rcases hresult : (inputs.replies before.length awaited.length).result with _ | ⟨value, nodes⟩
  · exact h.move (.querying before.length closestNodes visited tasks found) hnext hother
      (by simp only [State.advance, hphase, hresult])
      (hround (by rw [Reply.value, hresult]; rfl) found)
  · cases value with
    | none =>
      exact h.move (.querying before.length closestNodes visited tasks
          (found ++ nodes.filter fun node => !visited.contains node.id)) hnext hother
        (by simp only [State.advance, hphase, hresult])
        (hround (by rw [Reply.value, hresult]; rfl) _)
    | some value =>
      refine h.move (.caching value) hnext hother
        (by simp only [State.advance, hphase, hresult])
        ⟨⟨before, awaited ++ task :: tasks, awaited.length, hrounds, hnone, ?_, ?_, hawaited⟩,
          hstorage⟩
      · rw [List.length_append, List.length_cons]
        omega
      · rw [Reply.value, hresult]
        rfl

theorem Search.Sound.collect {iteration : Nat} {closestNodes found : List Node}
    {visited : List NodeId} (h : x.Sound inputs key initial)
    (hphase : x.state.phase = .querying iteration closestNodes visited [] found) :
    (x.proceed inputs).Sound inputs key initial := by
  have hsound := h.phase
  rw [hphase] at hsound
  obtain ⟨⟨before, awaited, hrounds, rfl, hnone, hawaited⟩, hsorted, hstorage⟩ := hsound
  rw [List.append_nil] at hrounds
  have hnext : x.next inputs = some .collect := by rw [Search.next, hphase]
  have hother : ∀ iteration closestNodes visited,
      x.state.phase ≠ .searching iteration closestNodes visited := by simp [hphase]
  by_cases hempty : found.isEmpty = true
  · exact h.move (.finished (.ok none)) hnext hother
      (by simp only [State.advance, hphase, hempty, if_true])
      (.inl ⟨hstorage, fun _ hvalue => nomatch hvalue⟩)
  · refine h.move (.searching (before.length + 1)
        (nearest (fun node : Node => x.state.key.distance node.id) K (closestNodes ++ found))
        visited) hnext hother (by simp only [State.advance, hphase, hempty]; rfl)
      ⟨?_, ?_, ?_, hstorage⟩
    · rw [hrounds, List.length_append, List.length_singleton]
    · rw [hrounds]
      exact hnone.concat hawaited
    · rw [← h.key_eq]
      exact (nearest_spec _ _ _).sorted

theorem Search.Sound.cache {value : Value} (h : x.Sound inputs key initial)
    (hphase : x.state.phase = .caching value) : (x.proceed inputs).Sound inputs key initial := by
  have hsound := h.phase
  rw [hphase] at hsound
  have hnext : x.next inputs = some (.cache inputs.cachedAt) := by rw [Search.next, hphase]
  have hadvance : x.state.advance (.cache inputs.cachedAt) = { x.state with
      storage := (x.state.storage.store inputs.cachedAt x.state.key value).2
      phase := .finished (.ok (some value)) } := by
    simp only [State.advance, hphase]
  rw [Search.proceed_of_next hnext (by simp [hphase]), hadvance]
  refine ⟨h.key_eq, h.rounds, .inr ⟨value, rfl, hsound.1, ?_⟩⟩
  rw [hsound.2, h.key_eq]

theorem Search.Sound.proceed (h : x.Sound inputs key initial) :
    (x.proceed inputs).Sound inputs key initial := by
  cases hphase : x.state.phase with
  | arrived => exact h.check hphase
  | missed => exact h.select hphase
  | searching iteration closestNodes visited => exact h.query hphase
  | querying iteration closestNodes visited tasks found =>
    cases tasks with
    | nil => exact h.collect hphase
    | cons task tasks => exact h.await hphase
  | caching value => exact h.cache hphase
  | finished result =>
    have hnext : x.next inputs = none := by rw [Search.next, hphase]
    rwa [Search.proceed, hnext]

theorem Search.Sound.step (h : x.Sound inputs key initial) (event : SearchEvent) :
    (x.step inputs event).Sound inputs key initial := by
  cases event with
  | resume =>
    rw [Search.step]
    split_ifs
    · exact h
    · exact h.proceed
  | complete position => exact ⟨h.key_eq, h.rounds, h.phase⟩
  | table op =>
    rw [Search.step]
    split
    · exact h
    · exact h
    · exact ⟨h.key_eq, h.rounds, h.phase⟩

theorem Search.sound_run (inputs : Inputs) (nodeId key : NodeId) (table : RoutingTable)
    (storage : MemoryStorage) (events : List SearchEvent) :
    (run (Search.step inputs) (Search.start nodeId key table storage) events).Sound inputs key
      storage := by
  refine invariant (fun x event h => h.step event) ⟨rfl, ?_, rfl, rfl⟩ events
  intro tasks htasks
  exact absurd htasks List.not_mem_nil

/-! ## The order does not matter -/

/-- The searches are at the same point.  They may differ in the tasks that have completed, in
the table once it has been read, and in the storage once it has been checked. -/
structure Search.Agree (x y : Search) : Prop where
  nodeId : x.state.nodeId = y.state.nodeId
  key : x.state.key = y.state.key
  phase : x.state.phase = y.state.phase
  rounds : x.rounds = y.rounds
  table : x.state.phase = .arrived ∨ x.state.phase = .missed → x.state.table = y.state.table
  storage : x.state.phase = .arrived → x.state.storage = y.state.storage

/-- After the local check and the reading of the table, only the phase and the rounds count. -/
theorem Search.agree_of_phase {y : Search} (hnodeId : x.state.nodeId = y.state.nodeId)
    (hkey : x.state.key = y.state.key) (hphase : x.state.phase = y.state.phase)
    (hrounds : x.rounds = y.rounds) (harrived : x.state.phase ≠ .arrived)
    (hmissed : x.state.phase ≠ .missed) : x.Agree y :=
  ⟨hnodeId, hkey, hphase, hrounds, fun h => (h.elim harrived hmissed).elim,
    fun h => (harrived h).elim⟩

theorem Search.Agree.proceed {y : Search} (h : x.Agree y) (cachedAt : Instant) :
    (x.proceed inputs).Agree (y.proceed { inputs with cachedAt := cachedAt }) := by
  obtain ⟨⟨nodeId, key, table, storage, phase, written⟩, rounds, completed⟩ := x
  obtain ⟨⟨nodeId', key', table', storage', phase', written'⟩, rounds', completed'⟩ := y
  obtain ⟨hnodeId, hkey, hphase, hrounds, htable, hstorage⟩ := h
  dsimp only at hnodeId hkey hphase hrounds htable hstorage
  subst hnodeId hkey hphase hrounds
  cases phase with
  | arrived =>
    obtain rfl := htable (.inl rfl)
    obtain rfl := hstorage rfl
    simp only [Search.proceed, Search.next, State.advance]
    cases storage.get inputs.checkedAt key with
    | ok value => exact agree_of_phase rfl rfl rfl rfl (by simp) (by simp)
    | error fault =>
      cases fault with
      | panic message => exact agree_of_phase rfl rfl rfl rfl (by simp) (by simp)
      | err error => exact ⟨rfl, rfl, rfl, rfl, fun _ => rfl, fun _ => rfl⟩
      | outOfFuel => exact ⟨rfl, rfl, rfl, rfl, fun _ => rfl, fun _ => rfl⟩
  | missed =>
    obtain rfl := htable (.inr rfl)
    simp only [Search.proceed, Search.next, State.advance]
    split_ifs
    · exact agree_of_phase rfl rfl rfl rfl (by simp) (by simp)
    · exact agree_of_phase rfl rfl rfl rfl (by simp) (by simp)
  | searching iteration closestNodes visited =>
    simp only [Search.proceed, Search.next, State.advance]
    split_ifs
    · exact agree_of_phase rfl rfl rfl rfl (by simp) (by simp)
    · exact agree_of_phase rfl rfl rfl rfl (by simp) (by simp)
  | querying iteration closestNodes visited tasks found =>
    cases tasks with
    | nil =>
      simp only [Search.proceed, Search.next, State.advance]
      split_ifs
      · exact agree_of_phase rfl rfl rfl rfl (by simp) (by simp)
      · exact agree_of_phase rfl rfl rfl rfl (by simp) (by simp)
    | cons task tasks =>
      simp only [Search.proceed, Search.next, Search.position, State.advance]
      rcases (inputs.replies iteration ((rounds.getLastD []).length - (tasks.length + 1))).result
        with _ | ⟨_ | value, nodes⟩
      · exact agree_of_phase rfl rfl rfl rfl (by simp) (by simp)
      · exact agree_of_phase rfl rfl rfl rfl (by simp) (by simp)
      · exact agree_of_phase rfl rfl rfl rfl (by simp) (by simp)
  | caching value =>
    simp only [Search.proceed, Search.next, State.advance]
    exact agree_of_phase rfl rfl rfl rfl (by simp) (by simp)
  | finished result =>
    simp only [Search.proceed, Search.next]
    exact agree_of_phase rfl rfl rfl rfl (by simp) (by simp)

/-- Every state of a search is at a point that the sections of the lookup reach on their own. -/
theorem Search.exists_agree (inputs : Inputs) (cachedAt : Instant) (nodeId key : NodeId)
    (table : RoutingTable) (initial : MemoryStorage) (events : List SearchEvent) :
    ∃ n, (run (Search.step inputs) (Search.start nodeId key table initial) events).Agree
      ((Search.proceed { inputs with cachedAt := cachedAt })^[n]
        (Search.start nodeId key table initial)) := by
  refine invariant (P := fun x : Search => ∃ n, x.Agree ((Search.proceed { inputs with
    cachedAt := cachedAt })^[n] (Search.start nodeId key table initial))) ?_ ?_ events
  · intro x event ⟨n, hagree⟩
    cases event with
    | resume =>
      rw [Search.step]
      split_ifs
      · exact ⟨n, hagree⟩
      · refine ⟨n + 1, ?_⟩
        rw [Function.iterate_succ_apply']
        exact hagree.proceed cachedAt
    | complete position =>
      exact ⟨n, hagree.nodeId, hagree.key, hagree.phase, hagree.rounds, hagree.table,
        hagree.storage⟩
    | table op =>
      rw [Search.step]
      split
      · exact ⟨n, hagree⟩
      · exact ⟨n, hagree⟩
      · rename_i harrived hmissed
        exact ⟨n, agree_of_phase hagree.nodeId hagree.key hagree.phase hagree.rounds harrived
          hmissed⟩
  · exact ⟨0, rfl, rfl, rfl, rfl, fun _ => rfl, fun _ => rfl⟩

theorem Search.iterate_finished {y : Search} {result : Outcome (Option Value)}
    (h : y.state.phase = .finished result) (n : Nat) : (Search.proceed inputs)^[n] y = y := by
  apply Function.iterate_fixed
  rw [Search.proceed, show y.next inputs = none by rw [Search.next, h]]

theorem Search.iterate_eq {y : Search} {n m : Nat} {result result' : Outcome (Option Value)}
    (h : ((Search.proceed inputs)^[n] y).state.phase = .finished result)
    (h' : ((Search.proceed inputs)^[m] y).state.phase = .finished result') :
    (Search.proceed inputs)^[n] y = (Search.proceed inputs)^[m] y := by
  rcases Nat.le_total n m with hle | hle
  · obtain ⟨k, rfl⟩ := Nat.exists_eq_add_of_le hle
    rw [Nat.add_comm, Function.iterate_add_apply, Search.iterate_finished h]
  · obtain ⟨k, rfl⟩ := Nat.exists_eq_add_of_le hle
    rw [Nat.add_comm, Function.iterate_add_apply, Search.iterate_finished h']

/-- The storage at the end follows from the rounds and the result. -/
theorem held_eq_of_soundAt {inputs' : Inputs} {rounds : List (List Node)}
    {storage storage' : MemoryStorage} {result : Outcome (Option Value)}
    (h : SoundAt inputs key initial rounds storage (.finished result))
    (h' : SoundAt inputs' key initial rounds storage' (.finished result)) (other : NodeId) :
    storage.held other = storage'.held other := by
  have hne : ∀ {inputs : Inputs} {value : Value}, FirstValue inputs rounds value → rounds ≠ [] := by
    rintro inputs value ⟨before, tasks, i, rfl, -⟩
    exact List.append_ne_nil_of_right_ne_nil _ (List.cons_ne_nil _ _)
  rcases h with ⟨rfl, hlocal⟩ | ⟨value, rfl, hfirst, rfl⟩
  · rcases h' with ⟨rfl, -⟩ | ⟨value, hvalue, hfirst, -⟩
    · rfl
    · exact absurd (hlocal value hvalue).1 (hne hfirst)
  · rcases h' with ⟨-, hlocal⟩ | ⟨value', hvalue, -, rfl⟩
    · exact absurd (hlocal value rfl).1 (hne hfirst)
    · obtain rfl : value = value' := Option.some.inj (Except.ok.inj hvalue)
      rw [MemoryStorage.held_store, MemoryStorage.held_store]

/-- A lookup of a value, for every table and storage, all replies and every order in which
they arrive.  It queries the nodes of a round from the nearest one on.  A value that it returns
is the local one, or the first one of the first round that has any, which it has then stored
under the key.  Without a value the storage stays as it was.  Two lookups with the same replies
return the same and leave the same values. -/
theorem lookup_sound_in_any_order (nodeId key : NodeId) (table : RoutingTable)
    (storage : MemoryStorage) (inputs : Inputs) (events : List SearchEvent) :
    let x := run (Search.step inputs) (Search.start nodeId key table storage) events
    (∀ tasks ∈ x.rounds, NearestFirst key tasks) ∧
    (∀ value, x.state.phase = .finished (.ok (some value)) →
      storage.get inputs.checkedAt key = .ok value ∧ x.state.storage = storage ∨
      FirstValue inputs x.rounds value ∧ x.state.storage.held key = some value ∧
        ∀ other, other ≠ key →
          x.state.storage.storage.lookup other = storage.storage.lookup other) ∧
    (x.state.phase = .finished (.ok none) → x.state.storage = storage) ∧
    ∀ cachedAt events' result result',
      let y := run (Search.step { inputs with cachedAt := cachedAt })
        (Search.start nodeId key table storage) events'
      x.state.phase = .finished result → y.state.phase = .finished result' →
        result = result' ∧ x.rounds = y.rounds ∧
          ∀ other, x.state.storage.held other = y.state.storage.held other := by
  intro x
  have hx : x.Sound inputs key storage := Search.sound_run inputs nodeId key table storage events
  have hphase := hx.phase
  refine ⟨hx.rounds, ?_, ?_, ?_⟩
  · intro value hvalue
    rw [hvalue] at hphase
    rcases hphase with ⟨hstorage, hlocal⟩ | ⟨value', hvalue', hfirst, hstorage⟩
    · exact .inl ⟨(hlocal value rfl).2, hstorage⟩
    · obtain rfl : value = value' := Option.some.inj (Except.ok.inj hvalue')
      refine .inr ⟨hfirst, ?_, ?_⟩
      · rw [hstorage, MemoryStorage.held_store, if_pos rfl]
      · intro other hother
        rw [hstorage]
        exact AList.lookup_insert_ne hother
  · intro hnone
    rw [hnone] at hphase
    rcases hphase with ⟨hstorage, -⟩ | ⟨value, hvalue, -⟩
    · exact hstorage
    · cases hvalue
  · intro cachedAt events' result result' y hresult hresult'
    have hy := Search.sound_run { inputs with cachedAt := cachedAt } nodeId key table storage
      events'
    obtain ⟨n, hn⟩ := Search.exists_agree inputs 0 nodeId key table storage events
    obtain ⟨m, hm⟩ := Search.exists_agree { inputs with cachedAt := cachedAt } 0 nodeId key table
      storage events'
    have heq := Search.iterate_eq (hn.phase.symm.trans hresult) (hm.phase.symm.trans hresult')
    have hrounds : x.rounds = y.rounds := by
      rw [hn.rounds, hm.rounds]
      exact congrArg Search.rounds heq
    have hphases : Phase.finished result = .finished result' := by
      rw [← hresult, ← hresult', hn.phase, hm.phase]
      exact congrArg (fun z => z.state.phase) heq
    obtain rfl : result = result' := Phase.finished.inj hphases
    refine ⟨rfl, hrounds, ?_⟩
    have hy' := hy.phase
    rw [hresult] at hphase
    rw [hresult', ← hrounds] at hy'
    exact held_eq_of_soundAt hphase hy'

/-- The first of two requests is answered without a value and the second one with one. -/
def secondHasValue : Inputs :=
  { checkedAt := 0
    cachedAt := 1
    replies := fun _ i =>
      .response (.valueFound 1 (Node.ofByte 0x80) (if i = 0 then none else some [1]) []) }

-- The second task completes before the first one.
example : (run (Search.step secondHasValue)
    (Search.start (NodeId.fromBytes [0]) (NodeId.fromBytes [7])
      (((RoutingTable.new (NodeId.fromBytes [0])).step (.update (.at 0) (Node.ofByte 0x80))).step
        (.update (.at 0) (Node.ofByte 0x40))) .new)
    [.resume, .resume, .resume, .complete 1, .resume, .complete 0, .resume, .resume,
      .resume]).state.phase = .finished (.ok (some [1])) := by
  decide +kernel

end FindValue

end Kademlia
