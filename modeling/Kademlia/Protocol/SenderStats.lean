import Kademlia.Lib.Simulation
import Kademlia.Protocol.RecordContact
import Kademlia.Protocol.Rpc
import Kademlia.Routing.Admission

/-!
# What a message says about its sender

The node in a message and the entry of a routing table are one type, so a message
carries a time it was last seen and response statistics of its sender.  Two runs are
compared that receive the same messages up to these two fields.

The time is overwritten wherever a node goes into a table.  The statistics of a sender
that is a contact already are dropped, and those of a new one are kept with it.
`sameDecisions_throughout_iff` says when this makes no difference.
-/

namespace Kademlia

open Lib

namespace RecordContact

/-- The nodes differ at most in what a message says about their reputation. -/
structure SamePeer (node node' : Node) : Prop where
  id : node.id = node'.id
  addr : node.addr = node'.addr

/-- The same event, with messages from the same sender. -/
inductive SameMessage : Event → Event → Prop where
  | call {node node' : Node} (h : SamePeer node node') : SameMessage (.call node) (.call node')
  | same (event : Event) : SameMessage event event

/-- Same tables, same standing of every call and same timeouts for every request. -/
structure SameDecisions (runs : State × State) : Prop where
  table : runs.1.table = runs.2.table
  phases : runs.1.calls.map Call.phase = runs.2.calls.map Call.phase
  timeouts : ∀ (rpc : Rpc) (env : Env) (node node' : Node), SamePeer node node' →
    rpc.timeouts runs.1.table env node = rpc.timeouts runs.2.table env node'

/-- A sender that a step takes into the table has the same statistics in both runs. -/
def CarriesNothing (runs : State × State) (events : Event × Event) : Prop :=
  match events.1 with
  | .step c st => ∀ call call' env, runs.1.calls[c]? = some call → runs.2.calls[c]? = some call' →
      tableOp runs.1.nodeId call.node call.phase st = some (.update env call.node) →
      runs.1.table.TakesIn env call.node.id →
      call.node.responseStats = call'.node.responseStats
  | _ => True

/-- What holds of two such runs whatever they decide. -/
structure Paired (runs : State × State) : Prop where
  nodeId : runs.1.nodeId = runs.2.nodeId
  length : runs.1.calls.length = runs.2.calls.length
  peers : ∀ (c : Nat) (call call' : Call), runs.1.calls[c]? = some call →
    runs.2.calls[c]? = some call' → SamePeer call.node call'.node
  placed : runs.1.table.Placed ∧ runs.2.table.Placed

theorem contact_congr {nodeId : NodeId} {t : RoutingTable} (ht : t.Placed) {env : Env}
    {node node' : Node} (hpeer : SamePeer node node')
    (hstats : node.id ≠ nodeId → t.TakesIn env node.id →
      node.responseStats = node'.responseStats) :
    contact nodeId t env node = contact nodeId t env node' := by
  unfold contact
  rw [← hpeer.id]
  by_cases hlocal : node.id = nodeId
  · rw [if_pos hlocal, if_pos hlocal]
  · rw [if_neg hlocal, if_neg hlocal, ht.update_congr hpeer.id hpeer.addr (hstats hlocal)]

/-- A step does the same for both nodes unless it takes them in with different statistics. -/
theorem next_congr {nodeId : NodeId} {t : RoutingTable} (ht : t.Placed) {node node' : Node}
    (hpeer : SamePeer node node') {phase : Phase} {st : Step}
    (hstats : ∀ env, tableOp nodeId node phase st = some (.update env node) →
      t.TakesIn env node.id → node.responseStats = node'.responseStats) :
    next nodeId t node phase st = next nodeId t node' phase st := by
  cases phase with
  | arrived =>
    cases st with
    | contact env =>
      apply contact_congr ht hpeer
      intro hlocal
      apply hstats env
      rw [tableOp, if_neg hlocal]
    | _ => rfl
  | removed wasKnown =>
    cases st with
    | retry env =>
      have hupdate := ht.update_congr hpeer.id hpeer.addr (hstats env rfl)
      simp only [next, hupdate]
    | _ => rfl
  | checking wasKnown nodeToPing => cases st <;> rfl
  | answered nodeToPing => cases st <;> rfl
  | failed wasKnown nodeToPing => cases st <;> rfl
  | finished result => cases st <;> rfl

theorem tableOp_congr {nodeId : NodeId} {node node' : Node} (hpeer : SamePeer node node')
    {phase : Phase} {st : Step} {env : Env}
    (h : tableOp nodeId node phase st = some (.update env node)) :
    tableOp nodeId node' phase st = some (.update env node') := by
  cases phase with
  | arrived =>
    cases st with
    | contact env' =>
      rw [tableOp] at h ⊢
      rw [← hpeer.id]
      split_ifs at h ⊢
      obtain ⟨rfl, -⟩ := TableOp.update.inj (Option.some.inj h)
      rfl
    | _ => cases h
  | removed wasKnown =>
    cases st with
    | retry env' =>
      obtain ⟨rfl, -⟩ := TableOp.update.inj (Option.some.inj h)
      rfl
    | _ => cases h
  | _ => cases st <;> cases h

theorem next_update {nodeId : NodeId} {t : RoutingTable} {node : Node} {phase : Phase} {st : Step}
    {env : Env} (h : tableOp nodeId node phase st = some (.update env node)) :
    (next nodeId t node phase st).1 = (t.update env node).2 := by
  rw [next_table, h]
  rfl

/-! ## Two runs -/

theorem step_advance {s : State} {c : Nat} {call : Call} (hcall : s.calls[c]? = some call)
    (st : Step) :
    step s (.step c st) = s.advance c call (next s.nodeId s.table call.node call.phase st).1
      (next s.nodeId s.table call.node call.phase st).2 := by
  simp only [step, hcall]

theorem placed_step {s : State} (h : s.table.Placed) (event : Event) :
    (step s event).table.Placed := by
  cases event with
  | call node => exact h
  | step c st =>
    cases hcall : s.calls[c]? with
    | none =>
      simp only [step, hcall]
      exact h
    | some call =>
      rw [step_advance hcall]
      exact ((next_spec s.nodeId s.table call.node call.phase st).placed h).1
  | recordSuccess env id responseTimeMs => exact h.step (.recordSuccess env id responseTimeMs)
  | recordFailure env id => exact h.step (.recordFailure env id)

theorem samePeer_refl (node : Node) : SamePeer node node := ⟨rfl, rfl⟩

theorem Paired.call {runs : State × State} (h : Paired runs) {node node' : Node}
    (hpeer : SamePeer node node') : Paired (pairStep step step runs (.call node, .call node')) where
  nodeId := h.nodeId
  length := by
    show (runs.1.calls ++ [_]).length = (runs.2.calls ++ [_]).length
    rw [List.length_append, List.length_append, h.length]
    rfl
  peers := by
    intro c call call' hcall hcall'
    rcases getElem?_concat_slot hcall with hold | ⟨hc, rfl⟩
    · rcases getElem?_concat_slot hcall' with hold' | ⟨hc', rfl⟩
      · exact h.peers c call call' hold hold'
      · have hlt := (List.getElem?_eq_some_iff.mp hold).1
        rw [hc', h.length] at hlt
        exact absurd hlt (Nat.lt_irrefl _)
    · rcases getElem?_concat_slot hcall' with hold' | ⟨-, rfl⟩
      · have hlt := (List.getElem?_eq_some_iff.mp hold').1
        rw [hc, h.length] at hlt
        exact absurd hlt (Nat.lt_irrefl _)
      · exact hpeer
  placed := h.placed

/-- Both runs have the call or neither has. -/
theorem Paired.getElem?_cases {runs : State × State} (h : Paired runs) (c : Nat) :
    (runs.1.calls[c]? = none ∧ runs.2.calls[c]? = none) ∨
      ∃ call call', runs.1.calls[c]? = some call ∧ runs.2.calls[c]? = some call' ∧
        SamePeer call.node call'.node := by
  by_cases hlt : c < runs.1.calls.length
  · have hlt' : c < runs.2.calls.length := h.length ▸ hlt
    have hcall := List.getElem?_eq_getElem hlt
    have hcall' := List.getElem?_eq_getElem hlt'
    exact .inr ⟨_, _, hcall, hcall', h.peers c _ _ hcall hcall'⟩
  · refine .inl ⟨List.getElem?_eq_none (Nat.not_lt.mp hlt), List.getElem?_eq_none ?_⟩
    rw [← h.length]
    exact Nat.not_lt.mp hlt

theorem advance_node {s : State} {c : Nat} {call : Call} (hcall : s.calls[c]? = some call)
    {t' : RoutingTable} {phase : Phase} {c' : Nat} {found : Call}
    (hfound : (s.advance c call t' phase).calls[c']? = some found) :
    ∃ before, s.calls[c']? = some before ∧ found.node = before.node := by
  rcases getElem?_set_cases hfound with ⟨rfl, rfl⟩ | ⟨-, hold⟩
  · exact ⟨call, hcall, rfl⟩
  · exact ⟨found, hold, rfl⟩

theorem paired_step {runs : State × State} {events : Event × Event} (h : Paired runs)
    (hsame : SameMessage events.1 events.2) : Paired (pairStep step step runs events) := by
  obtain ⟨event, event'⟩ := events
  cases hsame with
  | call hpeer => exact h.call hpeer
  | same event =>
    cases event with
    | call node => exact h.call (samePeer_refl node)
    | step c st =>
      have hplaced := And.intro (placed_step h.placed.1 (.step c st))
        (placed_step h.placed.2 (.step c st))
      rcases h.getElem?_cases c with ⟨hnone, hnone'⟩ | ⟨call, call', hcall, hcall', -⟩
      · have heq : pairStep step step runs (.step c st, .step c st) = runs := by
          simp only [pairStep, step, hnone, hnone']
        rw [heq]
        exact h
      · refine { nodeId := ?_, length := ?_, peers := ?_, placed := hplaced }
        · simp only [pairStep, step_advance hcall, step_advance hcall']
          exact h.nodeId
        · simp only [pairStep, step_advance hcall, step_advance hcall', State.advance,
            List.length_set]
          exact h.length
        · intro c' found found' hfound hfound'
          simp only [pairStep, step_advance hcall, step_advance hcall'] at hfound hfound'
          obtain ⟨before, hbefore, hnode⟩ := advance_node hcall hfound
          obtain ⟨before', hbefore', hnode'⟩ := advance_node hcall' hfound'
          rw [hnode, hnode']
          exact h.peers c' before before' hbefore hbefore'
    | recordSuccess env id responseTimeMs =>
      exact
        { nodeId := h.nodeId
          length := h.length
          peers := h.peers
          placed := ⟨placed_step h.placed.1 _, placed_step h.placed.2 _⟩ }
    | recordFailure env id =>
      exact
        { nodeId := h.nodeId
          length := h.length
          peers := h.peers
          placed := ⟨placed_step h.placed.1 _, placed_step h.placed.2 _⟩ }

theorem timeouts_congr {t t' : RoutingTable} (h : t = t') (rpc : Rpc) (env : Env)
    {node node' : Node} (hpeer : SamePeer node node') :
    rpc.timeouts t env node = rpc.timeouts t' env node' := by
  subst h
  unfold Rpc.timeouts
  rw [hpeer.id]

theorem sameDecisions_of {runs : State × State} (htable : runs.1.table = runs.2.table)
    (hphases : runs.1.calls.map Call.phase = runs.2.calls.map Call.phase) : SameDecisions runs where
  table := htable
  phases := hphases
  timeouts := fun rpc env _ _ hpeer => timeouts_congr htable rpc env hpeer

theorem SameDecisions.phase_eq {runs : State × State} (h : SameDecisions runs) {c : Nat}
    {call call' : Call} (hcall : runs.1.calls[c]? = some call)
    (hcall' : runs.2.calls[c]? = some call') : call.phase = call'.phase := by
  have hphases := congrArg (fun phases => phases[c]?) h.phases
  simp only [List.getElem?_map, hcall, hcall', Option.map_some] at hphases
  exact Option.some.inj hphases

theorem phases_advance (s : State) (c : Nat) (call : Call) (t' : RoutingTable) (phase : Phase) :
    (s.advance c call t' phase).calls.map Call.phase = (s.calls.map Call.phase).set c phase :=
  List.map_set

theorem sameDecisions_step_iff {runs : State × State} {events : Event × Event}
    (hpaired : Paired runs)
    (hsame : SameMessage events.1 events.2) (h : SameDecisions runs) :
    SameDecisions (pairStep step step runs events) ↔ CarriesNothing runs events := by
  obtain ⟨event, event'⟩ := events
  have hcalls : ∀ node node' : Node,
      SameDecisions (pairStep step step runs (.call node, .call node')) := by
    intro node node'
    refine sameDecisions_of h.table ?_
    show (runs.1.calls ++ [_]).map Call.phase = (runs.2.calls ++ [_]).map Call.phase
    rw [List.map_append, List.map_append, h.phases]
    rfl
  have hop : ∀ op : TableOp, runs.1.table.step op = runs.2.table.step op := by
    intro op
    rw [h.table]
  cases hsame with
  | call hpeer => exact ⟨fun _ => trivial, fun _ => hcalls _ _⟩
  | same event =>
    cases event with
    | call node => exact ⟨fun _ => trivial, fun _ => hcalls node node⟩
    | recordSuccess env id responseTimeMs =>
      exact ⟨fun _ => trivial, fun _ =>
        sameDecisions_of (hop (.recordSuccess env id responseTimeMs)) h.phases⟩
    | recordFailure env id =>
      exact ⟨fun _ => trivial, fun _ => sameDecisions_of (hop (.recordFailure env id)) h.phases⟩
    | step c st =>
      rcases hpaired.getElem?_cases c with ⟨hnone, hnone'⟩ | ⟨call, call', hcall, hcall', hpeer⟩
      · have heq : pairStep step step runs (.step c st, .step c st) = runs := by
          simp only [pairStep, step, hnone, hnone']
        rw [heq]
        refine ⟨fun _ => ?_, fun _ => h⟩
        intro call call' env hcall
        rw [hnone] at hcall
        cases hcall
      have hphase := h.phase_eq hcall hcall'
      constructor
      · intro hafter found found' env hfound hfound' htableOp htakes
        obtain rfl : call = found := Option.some.inj (hcall.symm.trans hfound)
        obtain rfl : call' = found' := Option.some.inj (hcall'.symm.trans hfound')
        apply hpaired.placed.1.stats_eq_of_update_eq hpeer.id htakes
        have htables := hafter.table
        simp only [pairStep, step_advance hcall, step_advance hcall', State.advance] at htables
        have htableOp' := tableOp_congr hpeer htableOp
        rw [hphase, hpaired.nodeId] at htableOp'
        rw [next_update htableOp, next_update htableOp', ← h.table] at htables
        exact htables
      · intro hcarries
        have hnext : next runs.1.nodeId runs.1.table call.node call.phase st =
            next runs.1.nodeId runs.1.table call'.node call.phase st :=
          next_congr hpaired.placed.1 hpeer fun env => hcarries call call' env hcall hcall'
        have hnext' : next runs.2.nodeId runs.2.table call'.node call'.phase st =
            next runs.1.nodeId runs.1.table call.node call.phase st := by
          rw [hnext, hpaired.nodeId, h.table, hphase]
        apply sameDecisions_of
        · simp only [pairStep, step_advance hcall, step_advance hcall', State.advance]
          rw [hnext']
        · simp only [pairStep, step_advance hcall, step_advance hcall', phases_advance]
          rw [hnext', h.phases]

/-- Two runs go on from a common state and receive the same messages up to what these say
about the reputation of their senders.  They have the same tables, make the same
evictions and choose the same timeouts throughout if and only if every sender that is
taken into the table as a new contact or candidate has the same statistics in both. -/
theorem sameDecisions_throughout_iff (nodeId : NodeId) (k : Nat) (history : List Event)
    (events : List (Event × Event)) (hsame : ∀ e ∈ events, SameMessage e.1 e.2) :
    Throughout (pairStep step step) SameDecisions
        (run step (start nodeId k) history, run step (start nodeId k) history) events ↔
      Meets (pairStep step step) CarriesNothing
        (run step (start nodeId k) history, run step (start nodeId k) history) events := by
  have hplaced : (run step (start nodeId k) history).table.Placed :=
    invariant (P := fun s : State => s.table.Placed) (fun s event h => placed_step h event)
      (RoutingTable.placed_withK nodeId k) history
  have hallowed : Meets (pairStep step step) (fun _ events => SameMessage events.1 events.2)
      (run step (start nodeId k) history, run step (start nodeId k) history) events :=
    meets_of_forall fun _ => hsame
  refine throughout_iff_meets_of_meets (I := Paired) ?_ ?_ ?_ ?_ hallowed
  · intro runs events h hevents _
    exact paired_step h hevents
  · intro runs events hpaired hevents h
    exact sameDecisions_step_iff hpaired hevents h
  · refine { nodeId := rfl, length := rfl, peers := ?_, placed := ⟨hplaced, hplaced⟩ }
    intro c call call' hcall hcall'
    obtain rfl : call = call' := Option.some.inj (hcall.symm.trans hcall')
    exact samePeer_refl call.node
  · exact sameDecisions_of rfl rfl

/-- The sender says that it has failed every one of its responses. -/
def discredited (node : Node) : Node :=
  { node with responseStats := { successes := 0, failures := 9, avgResponseTimeMs := some 70000 } }

/-- What a contact says about itself makes no difference. -/
theorem sameDecisions_of_known_sender :
    Throughout (pairStep step step) SameDecisions
      (run step (start (NodeId.fromBytes [0]) 20)
          [.call (Node.ofByte 0x80), .step 0 (.contact (Env.at 0))],
        run step (start (NodeId.fromBytes [0]) 20)
          [.call (Node.ofByte 0x80), .step 0 (.contact (Env.at 0))])
      [(.call (Node.ofByte 0x80), .call (discredited (Node.ofByte 0x80))),
        (.step 1 (.contact (Env.at 1)), .step 1 (.contact (Env.at 1)))] := by
  apply (sameDecisions_throughout_iff _ _ _ _ ?_).mpr
  · refine ⟨trivial, ?_, trivial⟩
    intro call call' env hcall hcall' hop htakes
    obtain rfl := Option.some.inj hcall
    exact absurd htakes.1 (by decide +kernel)
  · intro e he
    rcases List.mem_cons.mp he with rfl | he
    · exact .call ⟨rfl, rfl⟩
    · rw [List.mem_singleton.mp he]
      exact .same _

/-- A new sender is kept with the statistics it came with. -/
theorem reputation_taken_from_message :
    ¬ ∀ (nodeId : NodeId) (k : Nat) (history : List Event) (events : List (Event × Event)),
      (∀ e ∈ events, SameMessage e.1 e.2) →
      Throughout (pairStep step step) SameDecisions
        (run step (start nodeId k) history, run step (start nodeId k) history) events := by
  intro h
  have hsame : ∀ e ∈ [(Event.call (Node.ofByte 0x80), Event.call (discredited (Node.ofByte 0x80))),
      (.step 0 (.contact (Env.at 0)), .step 0 (.contact (Env.at 0)))], SameMessage e.1 e.2 := by
    intro e he
    rcases List.mem_cons.mp he with rfl | he
    · exact .call ⟨rfl, rfl⟩
    · rw [List.mem_singleton.mp he]
      exact .same _
  have htables := (h (NodeId.fromBytes [0]) 20 [] _ hsame).last.table
  have hcontacts := congrArg (fun t : RoutingTable => t.get (NodeId.fromBytes [0x80])) htables
  revert hcontacts
  decide +kernel

end RecordContact

end Kademlia
