import Kademlia.Lib.Slots
import Kademlia.Protocol.AnswerOrder

/-!
# How long a lookup of a value goes on

Whatever its queries answer, `find_value` makes `MAX_ITERATIONS` rounds of `ALPHA` queries at
most, and no node is queried in two of them.  The lookup has a bounded number of sections, and
only the tasks of the round under way can keep it from taking the next one.
-/

namespace Kademlia

open Lib

namespace FindValue

/-- The sections that are left before a round, at most. -/
def sectionsFrom (iteration : Nat) : Nat := (maxIterations - iteration) * (alpha + 2) + 1

/-- The sections that a lookup has left at most. -/
def Phase.sections : Phase → Nat
  | arrived => sectionsFrom 0 + 2
  | missed => sectionsFrom 0 + 1
  | searching iteration _ _ => sectionsFrom iteration
  | querying iteration _ _ tasks _ => sectionsFrom (iteration + 1) + tasks.length + 1
  | caching _ => 1
  | finished _ => 0

/-- The lookup resumes and does not wait for a task. -/
def Search.proceeds (x : Search) : SearchEvent → Nat
  | .resume => if x.waits then 0 else 1
  | _ => 0

theorem sectionsFrom_succ {iteration : Nat} (h : iteration < maxIterations) :
    sectionsFrom (iteration + 1) + (alpha + 2) = sectionsFrom iteration := by
  have hrounds : maxIterations - iteration = maxIterations - (iteration + 1) + 1 := by omega
  rw [sectionsFrom, sectionsFrom, hrounds, Nat.add_one_mul]
  omega

theorem length_nodesToQuery (nodeId : NodeId) (closestNodes : List Node) (visited : List NodeId) :
    (nodesToQuery nodeId closestNodes visited).length ≤ alpha :=
  List.length_take_le _ _

variable {inputs : Inputs} {x : Search}

theorem Phase.finished_of_sections {phase : Phase} (h : phase.sections = 0) :
    ∃ result, phase = .finished result := by
  cases phase with
  | finished result => exact ⟨result, rfl⟩
  | searching iteration closestNodes visited =>
    rw [Phase.sections, sectionsFrom] at h
    omega
  | _ =>
    rw [Phase.sections] at h
    omega

/-- Every section of the lookup is one less. -/
theorem Search.sections_proceed (inputs : Inputs) (x : Search) :
    (x.proceed inputs).state.phase.sections ≤ x.state.phase.sections - 1 := by
  obtain ⟨⟨nodeId, key, table, storage, phase, written⟩, rounds, completed⟩ := x
  cases phase with
  | arrived =>
    simp only [Search.proceed, Search.next, State.advance]
    cases storage.get inputs.checkedAt key with
    | ok value => exact Nat.zero_le _
    | error fault =>
      cases fault with
      | panic message => exact Nat.zero_le _
      | err error => exact Nat.le_refl _
      | outOfFuel => exact Nat.le_refl _
  | missed =>
    simp only [Search.proceed, Search.next, State.advance]
    split_ifs
    · exact Nat.zero_le _
    · exact Nat.le_refl _
  | searching iteration closestNodes visited =>
    simp only [Search.proceed, Search.next, State.advance]
    split_ifs with hend
    · exact Nat.zero_le _
    · have hlt : iteration < maxIterations := Nat.not_le.mp fun hle => hend (.inl hle)
      have hsections := sectionsFrom_succ hlt
      have hlength := length_nodesToQuery nodeId closestNodes visited
      simp only [Phase.sections]
      omega
  | querying iteration closestNodes visited tasks found =>
    cases tasks with
    | nil =>
      simp only [Search.proceed, Search.next, State.advance]
      split_ifs
      · exact Nat.zero_le _
      · exact Nat.le_refl _
    | cons task tasks =>
      simp only [Search.proceed, Search.next, Search.position, State.advance]
      rcases (inputs.replies iteration ((rounds.getLastD []).length - (tasks.length + 1))).result
        with _ | ⟨_ | value, nodes⟩
      · exact Nat.le_refl _
      · exact Nat.le_refl _
      · simp only [Phase.sections, List.length_cons]
        omega
  | caching value =>
    simp only [Search.proceed, Search.next, State.advance]
    exact Nat.zero_le _
  | finished result =>
    simp only [Search.proceed, Search.next]
    exact Nat.zero_le _

theorem Search.sections_step (inputs : Inputs) (x : Search) (event : SearchEvent) :
    (x.step inputs event).state.phase.sections ≤
      x.state.phase.sections - x.proceeds event := by
  cases event with
  | resume =>
    rw [Search.step, Search.proceeds]
    cases x.waits with
    | true => exact Nat.le_refl _
    | false => exact Search.sections_proceed inputs x
  | complete position => exact Nat.le_refl _
  | table op =>
    have hphase : (x.step inputs (.table op)).state.phase = x.state.phase := by
      rw [Search.step]
      split
      · rfl
      · rfl
      · rfl
    rw [hphase]
    exact Nat.le_refl _

/-! ## The rounds -/

/-- No node of one round is in the other. -/
def Apart (first second : List Node) : Prop := ∀ m ∈ first, ∀ n ∈ second, m.id ≠ n.id

/-- Where a node comes from that round `r` may query: it is one of the first nodes, or a reply of
a round before has named it. -/
def Source (inputs : Inputs) (first : List Node) (r : Nat) (node : Node) : Prop :=
  node ∈ first ∨ ∃ r' < r, ∃ i < alpha, ∃ nodes,
    (inputs.replies r' i).result = some (none, nodes) ∧ node ∈ nodes

/-- What a search has asked, by the phase of its lookup. -/
def AskedAt (inputs : Inputs) (first : List Node) (rounds : List (List Node)) : Phase → Prop
  | .arrived | .missed => rounds = []
  | .searching iteration closestNodes visited =>
    rounds.length = iteration ∧ (∀ tasks ∈ rounds, ∀ n ∈ tasks, n.id ∈ visited) ∧
      ∀ n ∈ closestNodes, Source inputs first iteration n
  | .querying iteration closestNodes visited _ found =>
    rounds.length = iteration + 1 ∧ (∀ tasks ∈ rounds, ∀ n ∈ tasks, n.id ∈ visited) ∧
      ∀ n ∈ closestNodes ++ found, Source inputs first (iteration + 1) n
  | .caching _ | .finished _ => True

/-- A search of a node from the contacts of a table, and its rounds so far. -/
structure Search.Asked (inputs : Inputs) (nodeId key : NodeId) (table : RoutingTable)
    (x : Search) : Prop where
  nodeId_eq : x.state.nodeId = nodeId
  key_eq : x.state.key = key
  table_eq : x.state.phase = .arrived ∨ x.state.phase = .missed → x.state.table = table
  rounds : x.rounds.length ≤ maxIterations
  tasks : ∀ tasks ∈ x.rounds, tasks.length ≤ alpha
  apart : x.rounds.Pairwise Apart
  known : ∀ r tasks, x.rounds[r]? = some tasks → ∀ n ∈ tasks,
    n.id ≠ nodeId ∧ Source inputs (firstNodes table key) r n
  phase : AskedAt inputs (firstNodes table key) x.rounds x.state.phase

variable {nodeId key : NodeId} {table : RoutingTable} {first : List Node} {r r' : Nat}

theorem Source.mono {node : Node} (h : Source inputs first r node) (hle : r ≤ r') :
    Source inputs first r' node := by
  rcases h with hfirst | ⟨before, hbefore, hnamed⟩
  · exact .inl hfirst
  · exact .inr ⟨before, Nat.lt_of_lt_of_le hbefore hle, hnamed⟩

theorem mem_nodesToQuery {closestNodes : List Node} {visited : List NodeId} {node : Node}
    (h : node ∈ nodesToQuery nodeId closestNodes visited) :
    node ∈ closestNodes ∧ node.id ∉ visited ∧ node.id ≠ nodeId := by
  have hfilter := List.mem_of_mem_take h
  simpa using hfilter

/-- A section that starts no round. -/
theorem Search.Asked.move (h : x.Asked inputs nodeId key table) {s : State}
    (hnodeId : s.nodeId = x.state.nodeId) (hkey : s.key = x.state.key)
    (htable : s.phase = .arrived ∨ s.phase = .missed →
      s.table = x.state.table ∧ (x.state.phase = .arrived ∨ x.state.phase = .missed))
    (hphase : AskedAt inputs (firstNodes table key) x.rounds s.phase) :
    Search.Asked inputs nodeId key table { x with state := s } where
  nodeId_eq := hnodeId.trans h.nodeId_eq
  key_eq := hkey.trans h.key_eq
  table_eq := fun hearly => (htable hearly).1.trans (h.table_eq (htable hearly).2)
  rounds := h.rounds
  tasks := h.tasks
  apart := h.apart
  known := h.known
  phase := hphase

/-- A round starts. -/
theorem Search.Asked.query {iteration : Nat} {closestNodes : List Node} {visited : List NodeId}
    {s : State} (h : x.Asked inputs nodeId key table)
    (hphase : x.state.phase = .searching iteration closestNodes visited)
    (hlt : iteration < maxIterations) (hnodeId : s.nodeId = x.state.nodeId)
    (hkey : s.key = x.state.key)
    (hnext : s.phase = .querying iteration closestNodes
      ((nodesToQuery nodeId closestNodes visited).map Node.id ++ visited)
      (nodesToQuery nodeId closestNodes visited) []) :
    Search.Asked inputs nodeId key table
      { state := s, rounds := x.rounds ++ [nodesToQuery nodeId closestNodes visited]
        completed := [] } := by
  have hasked := h.phase
  rw [hphase] at hasked
  obtain ⟨hlength, hvisited, hsources⟩ := hasked
  have hlength' : (x.rounds ++ [nodesToQuery nodeId closestNodes visited]).length =
      iteration + 1 := by
    rw [List.length_append, List.length_singleton, hlength]
  constructor
  · exact hnodeId.trans h.nodeId_eq
  · exact hkey.trans h.key_eq
  · rw [hnext]
    rintro (hearly | hearly)
    · cases hearly
    · cases hearly
  · rw [hlength']
    exact hlt
  · intro tasks htasks
    rcases List.mem_append.mp htasks with hold | hnew
    · exact h.tasks tasks hold
    · rw [List.mem_singleton.mp hnew]
      exact length_nodesToQuery nodeId closestNodes visited
  · rw [List.pairwise_append]
    refine ⟨h.apart, List.pairwise_singleton _ _, ?_⟩
    intro tasks htasks round hround m hm n hn hid
    rw [List.mem_singleton.mp hround] at hn
    exact (mem_nodesToQuery hn).2.1 (hid ▸ hvisited tasks htasks m hm)
  · intro r tasks htasks
    rcases getElem?_concat_slot htasks with hold | ⟨hlast, rfl⟩
    · exact h.known r tasks hold
    · intro n hn
      obtain ⟨hclosest, -, hne⟩ := mem_nodesToQuery hn
      rw [hlast, hlength]
      exact ⟨hne, hsources n hclosest⟩
  · rw [hnext]
    refine ⟨hlength', ?_, ?_⟩
    · intro tasks htasks n hn
      rcases List.mem_append.mp htasks with hold | hnew
      · exact List.mem_append_right _ (hvisited tasks hold n hn)
      · rw [List.mem_singleton.mp hnew] at hn
        exact List.mem_append_left _ (List.mem_map_of_mem hn)
    · intro n hn
      rw [List.append_nil] at hn
      exact (hsources n hn).mono (Nat.le_succ _)

/-- The position of an awaited task is one of its round. -/
theorem Search.Asked.position_lt (h : x.Asked inputs nodeId key table) {iteration : Nat}
    {closestNodes tasks found : List Node} {visited : List NodeId}
    (hphase : x.state.phase = .querying iteration closestNodes visited tasks found)
    (rest : List Node) : x.position rest < alpha := by
  have hasked := h.phase
  rw [hphase] at hasked
  have hlast : (x.rounds.getLastD []).length ≤ alpha := by
    rcases List.eq_nil_or_concat' x.rounds with hnil | ⟨before, last, hconcat⟩
    · rw [hnil] at hasked
      exact absurd hasked.1 (Nat.succ_ne_zero iteration).symm
    · rw [hconcat, List.getLastD_concat]
      exact h.tasks last (hconcat ▸ List.mem_concat_self)
  have halpha : alpha = 5 := rfl
  rw [Search.position]
  omega

theorem Search.Asked.proceed (h : x.Asked inputs nodeId key table) :
    (x.proceed inputs).Asked inputs nodeId key table := by
  have hposition : ∀ {iteration closestNodes visited tasks found},
      x.state.phase = .querying iteration closestNodes visited tasks found →
        ∀ rest, x.position rest < alpha := fun hphase => h.position_lt hphase
  obtain ⟨⟨nodeId', key', table', storage, phase, written⟩, rounds, completed⟩ := x
  obtain rfl : nodeId' = nodeId := h.nodeId_eq
  obtain rfl : key' = key := h.key_eq
  have hasked := h.phase
  cases phase with
  | arrived =>
    simp only [Search.proceed, Search.next, State.advance]
    cases storage.get inputs.checkedAt key' with
    | ok value => exact h.move rfl rfl (by simp) trivial
    | error fault =>
      cases fault with
      | panic message => exact h.move rfl rfl (by simp) trivial
      | err error => exact h.move rfl rfl (fun _ => ⟨rfl, .inl rfl⟩) hasked
      | outOfFuel => exact h.move rfl rfl (fun _ => ⟨rfl, .inl rfl⟩) hasked
  | missed =>
    obtain rfl : table' = table := h.table_eq (.inr rfl)
    obtain rfl : rounds = [] := hasked
    simp only [Search.proceed, Search.next, State.advance]
    split_ifs
    · exact h.move rfl rfl (by simp) trivial
    · refine h.move rfl rfl (by simp) ⟨rfl, ?_, fun n hn => .inl hn⟩
      intro tasks htasks
      cases htasks
  | searching iteration closestNodes visited =>
    simp only [Search.proceed, Search.next, State.advance]
    split_ifs with hend
    · exact h.move rfl rfl (by simp) trivial
    · exact h.query rfl (Nat.not_le.mp fun hle => hend (.inl hle)) rfl rfl rfl
  | querying iteration closestNodes visited tasks found =>
    obtain ⟨hlength, hvisited, hsources⟩ := hasked
    cases tasks with
    | nil =>
      simp only [Search.proceed, Search.next, State.advance]
      split_ifs
      · exact h.move rfl rfl (by simp) trivial
      · refine h.move rfl rfl (by simp) ⟨hlength, hvisited, ?_⟩
        intro n hn
        obtain ⟨others, hperm, -⟩ := (nearest_spec (fun node : Node => key'.distance node.id) K
          (closestNodes ++ found)).least
        exact hsources n (hperm.mem_iff.mp (List.mem_append_left _ hn))
    | cons task tasks =>
      have hlt := hposition rfl tasks
      simp only [Search.proceed, Search.next, State.advance]
      split
      · exact h.move rfl rfl (by simp) trivial
      · rename_i nodes hresult
        refine h.move rfl rfl (by simp) ⟨hlength, hvisited, ?_⟩
        intro n hn
        rw [← List.append_assoc] at hn
        rcases List.mem_append.mp hn with hold | hnew
        · exact hsources n hold
        · exact .inr ⟨iteration, Nat.lt_succ_self _, _, hlt, nodes, hresult,
            List.mem_of_mem_filter hnew⟩
      · exact h.move rfl rfl (by simp) ⟨hlength, hvisited, hsources⟩
  | caching value =>
    simp only [Search.proceed, Search.next, State.advance]
    exact h.move rfl rfl (by simp) trivial
  | finished result => exact h

theorem Search.Asked.step (h : x.Asked inputs nodeId key table) (event : SearchEvent) :
    (x.step inputs event).Asked inputs nodeId key table := by
  cases event with
  | resume =>
    rw [Search.step]
    split_ifs
    · exact h
    · exact h.proceed
  | complete position =>
    exact ⟨h.nodeId_eq, h.key_eq, h.table_eq, h.rounds, h.tasks, h.apart, h.known, h.phase⟩
  | table op =>
    rw [Search.step]
    split
    · exact h
    · exact h
    · rename_i harrived hmissed
      refine h.move rfl rfl (fun hearly => ?_) h.phase
      exact absurd hearly (not_or.mpr ⟨harrived, hmissed⟩)

/-- A lookup of a value, for all replies and every order in which they arrive.  After 73 turns on
which it need not wait it has ended, and it has made 10 rounds of 5 queries at most.  Each node
that it queries is one of the first nodes or was named in a reply to a round before, is not the
node itself, and is queried in one round only. -/
theorem value_lookup_bounded (nodeId key : NodeId) (table : RoutingTable) (storage : MemoryStorage)
    (inputs : Inputs) (events : List SearchEvent) :
    let x := run (Search.step inputs) (Search.start nodeId key table storage) events
    (maxIterations * (alpha + 2) + 3 ≤ cost (Search.step inputs) Search.proceeds
        (Search.start nodeId key table storage) events →
      ∃ result, x.state.phase = .finished result) ∧
    x.rounds.length ≤ maxIterations ∧ (∀ tasks ∈ x.rounds, tasks.length ≤ alpha) ∧
    x.rounds.Pairwise Apart ∧
    ∀ r tasks, x.rounds[r]? = some tasks → ∀ n ∈ tasks,
      n.id ≠ nodeId ∧ Source inputs (firstNodes table key) r n := by
  intro x
  have hstart : (Search.start nodeId key table storage).Asked inputs nodeId key table := by
    refine ⟨rfl, rfl, fun _ => rfl, Nat.zero_le _, ?_, .nil, ?_, rfl⟩
    · intro tasks htasks
      cases htasks
    · intro r tasks htasks
      cases htasks
  have hasked : x.Asked inputs nodeId key table := invariant (fun _ event h => h.step event) hstart
    events
  refine ⟨?_, hasked.rounds, hasked.tasks, hasked.apart, hasked.known⟩
  intro hturns
  have hrank : x.state.phase.sections ≤
      (Search.start nodeId key table storage).state.phase.sections -
        cost (Search.step inputs) Search.proceeds (Search.start nodeId key table storage) events :=
    @rank_run_le _ _ (Search.step inputs) (fun x => x.state.phase.sections) Search.proceeds
      (Search.sections_step inputs) (Search.start nodeId key table storage) events
  have hsections : (Search.start nodeId key table storage).state.phase.sections =
      maxIterations * (alpha + 2) + 3 := rfl
  have hzero : x.state.phase.sections = 0 := by omega
  exact Phase.finished_of_sections hzero

end FindValue

end Kademlia
