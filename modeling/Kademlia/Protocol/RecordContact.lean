import Kademlia.Lib.Slots
import Kademlia.Routing.Placement

/-!
# Recording a contact

`record_contact` takes the lock of the routing table several times.  When its first
update answers with a contact to ping, it lets go of the lock for the health check, and
its later steps act on a table that others have changed.  `next` is one critical section
of a call, and a run is an interleaving of the critical sections of any number of calls
and of the bookkeeping of other requests.

Two fields of a state are kept for the proofs only.  `entered` counts the steps of a
call at which the identifier of its node came into the table, and `foreign` says whether
another identifier came into the table at a step.
-/

namespace Kademlia

open Lib

namespace RecordContact

/-- Where a call stands: before its first lock, during the health check, after
`record_success`, after a failed health check, after the removal, and at its end. -/
inductive Phase where
  | arrived
  | checking (wasKnown : Bool) (nodeToPing : Node)
  | answered (nodeToPing : Node)
  | failed (wasKnown : Bool) (nodeToPing : Node)
  | removed (wasKnown : Bool)
  | finished (result : Outcome Bool)

/-- The steps of a call.  The health check ends with an answer, with the timeout around
it, or with an error of `send` or `wait_response`. -/
inductive Step where
  | contact (env : Env)
  | answer (env : Env) (responseTimeMs : UInt64)
  | timeout (env : Env)
  | error
  | seen (env : Env)
  | evict (env : Env)
  | retry (env : Env)

/-- The first critical section. -/
def contact (nodeId : NodeId) (t : RoutingTable) (env : Env) (node : Node) :
    RoutingTable × Phase :=
  if node.id = nodeId then (t, .finished (.ok false))
  else
    let wasKnown := t.contains node.id
    match t.update env node with
    | (.error fault, t) => (t, .finished (.error fault))
    | (.ok .unchanged, t) => (t, .finished (.ok false))
    | (.ok .updated, t) => (t, .finished (.ok !wasKnown))
    | (.ok (.pendingPing nodeToPing), t) => (t, .checking wasKnown nodeToPing)

/-- The result of `record_success` and `record_failure` in a health check is ignored.
Only a panic ends the call. -/
def ignoring (phase : Phase) : Outcome Unit × RoutingTable → RoutingTable × Phase
  | (.error (.panic message), t) => (t, .finished (.error (.panic message)))
  | (_, t) => (t, phase)

/-- One step of a call.  A step that is not enabled changes nothing. -/
def next (nodeId : NodeId) (t : RoutingTable) (node : Node) :
    Phase → Step → RoutingTable × Phase
  | .arrived, .contact env => contact nodeId t env node
  | .checking _ nodeToPing, .answer env responseTimeMs =>
    ignoring (.answered nodeToPing) (t.recordSuccess env nodeToPing.id responseTimeMs)
  | .checking wasKnown nodeToPing, .timeout env =>
    ignoring (.failed wasKnown nodeToPing) (t.recordFailure env nodeToPing.id)
  | .checking wasKnown nodeToPing, .error => (t, .failed wasKnown nodeToPing)
  | .answered nodeToPing, .seen env =>
    match t.nodeSeen env nodeToPing.id with
    | (.error fault, t) => (t, .finished (.error fault))
    | (.ok _, t) => (t, .finished (.ok false))
  | .failed wasKnown nodeToPing, .evict env =>
    match t.remove env nodeToPing.id with
    | (.error fault, t) => (t, .finished (.error fault))
    | (.ok _, t) => (t, .removed wasKnown)
  | .removed wasKnown, .retry env =>
    match t.update env node with
    | (.error fault, t) => (t, .finished (.error fault))
    | (.ok .updated, t) => (t, .finished (.ok !wasKnown))
    | (.ok _, t) => (t, .finished (.ok false))
  | phase, _ => (t, phase)

structure Call where
  node : Node
  phase : Phase
  entered : Nat

structure State where
  nodeId : NodeId
  table : RoutingTable
  calls : List Call
  foreign : Bool

/-- A new call, a step of a call, or the bookkeeping of another request. -/
inductive Event where
  | call (node : Node)
  | step (call : Nat) (step : Step)
  | recordSuccess (env : Env) (nodeId : NodeId) (responseTimeMs : UInt64)
  | recordFailure (env : Env) (nodeId : NodeId)

def start (nodeId : NodeId) (k : Nat) : State :=
  { nodeId := nodeId, table := RoutingTable.withK nodeId k, calls := [], foreign := false }

/-- The identifier is a contact of the second table and not of the first. -/
def enters (t t' : RoutingTable) (id : NodeId) : Bool := !t.contains id && t'.contains id

/-- Some identifier that passes the test enters the table. -/
def anyEnters (t t' : RoutingTable) (test : NodeId → Bool) : Bool :=
  t'.getAllNodes.any fun n => test n.id && !t.contains n.id

def State.advance (s : State) (c : Nat) (call : Call) (t' : RoutingTable) (phase : Phase) : State :=
  let entered := call.entered + if enters s.table t' call.node.id then 1 else 0
  { s with
    table := t'
    calls := s.calls.set c { call with phase := phase, entered := entered }
    foreign := s.foreign || anyEnters s.table t' fun id => id ≠ call.node.id }

/-- The table after an operation of another request. -/
def State.operate (s : State) (op : TableOp) : State :=
  { s with
    table := s.table.step op
    foreign := s.foreign || anyEnters s.table (s.table.step op) fun _ => true }

def step (s : State) : Event → State
  | .call node =>
    { s with calls := s.calls ++ [{ node := node, phase := .arrived, entered := 0 }] }
  | .step c st =>
    match s.calls[c]? with
    | none => s
    | some call =>
      let (t', phase) := next s.nodeId s.table call.node call.phase st
      s.advance c call t' phase
  | .recordSuccess env id responseTimeMs => s.operate (.recordSuccess env id responseTimeMs)
  | .recordFailure env id => s.operate (.recordFailure env id)

/-- The operation on the table that a step of a call makes. -/
def tableOp (nodeId : NodeId) (node : Node) : Phase → Step → Option TableOp
  | .arrived, .contact env => if node.id = nodeId then none else some (.update env node)
  | .checking _ nodeToPing, .answer env responseTimeMs =>
    some (.recordSuccess env nodeToPing.id responseTimeMs)
  | .checking _ nodeToPing, .timeout env => some (.recordFailure env nodeToPing.id)
  | .answered nodeToPing, .seen env => some (.nodeSeen env nodeToPing.id)
  | .failed _ nodeToPing, .evict env => some (.remove env nodeToPing.id)
  | .removed _, .retry env => some (.update env node)
  | _, _ => none

/-- The only node that a call brings into the table by an update is its own. -/
theorem tableOp_update {nodeId : NodeId} {node node' : Node} {phase : Phase} {st : Step} {env : Env}
    (h : tableOp nodeId node phase st = some (.update env node')) : node' = node := by
  unfold tableOp at h
  split at h
  · split_ifs at h
    cases h
    rfl
  all_goals cases h
  rfl

theorem ignoring_table (phase : Phase) (result : Outcome Unit × RoutingTable) :
    (ignoring phase result).1 = result.2 := by
  rcases result with ⟨fault | _, t⟩
  · cases fault <;> rfl
  · rfl

theorem contact_table (nodeId : NodeId) (t : RoutingTable) (env : Env) (node : Node) :
    (contact nodeId t env node).1 = if node.id = nodeId then t else t.step (.update env node) := by
  unfold contact
  by_cases hid : node.id = nodeId
  · rw [if_pos hid, if_pos hid]
  rw [if_neg hid, if_neg hid]
  show _ = (t.update env node).2
  rcases hupdate : t.update env node with ⟨fault | status, t'⟩
  · rfl
  · cases status <;> rfl

/-- A step changes the table by its operation. -/
theorem next_table (nodeId : NodeId) (t : RoutingTable) (node : Node) (phase : Phase) (st : Step) :
    (next nodeId t node phase st).1 =
      match tableOp nodeId node phase st with
      | none => t
      | some op => t.step op := by
  cases phase with
  | arrived =>
    cases st with
    | contact env =>
      show (contact nodeId t env node).1 = _
      rw [contact_table, tableOp]
      split <;> rfl
    | _ => rfl
  | checking wasKnown nodeToPing =>
    cases st with
    | answer env ms => exact ignoring_table _ _
    | timeout env => exact ignoring_table _ _
    | _ => rfl
  | answered nodeToPing =>
    cases st with
    | seen env =>
      show _ = (t.nodeSeen env nodeToPing.id).2
      rw [next]
      rcases t.nodeSeen env nodeToPing.id with ⟨fault | _, t'⟩ <;> rfl
    | _ => rfl
  | failed wasKnown nodeToPing =>
    cases st with
    | evict env =>
      show _ = (t.remove env nodeToPing.id).2
      rw [next]
      rcases t.remove env nodeToPing.id with ⟨fault | _, t'⟩ <;> rfl
    | _ => rfl
  | removed wasKnown =>
    cases st with
    | retry env =>
      show _ = (t.update env node).2
      rw [next]
      rcases t.update env node with ⟨fault | status, t'⟩
      · rfl
      · cases status <;> rfl
    | _ => rfl
  | finished result => cases st <;> rfl

/-- What a step of a call does to the table and to the call. -/
inductive NextSpec (nodeId : NodeId) (t : RoutingTable) (node : Node) :
    Phase → Step → RoutingTable → Phase → Prop where
  | idle {phase : Phase} {st : Step} (hop : tableOp nodeId node phase st = none) :
      NextSpec nodeId t node phase st t phase
  | self {env : Env} (hid : node.id = nodeId) :
      NextSpec nodeId t node .arrived (.contact env) t (.finished (.ok false))
  | checks {env : Env} {nodeToPing : Node} (hid : node.id ≠ nodeId)
      (hupdate : (t.update env node).1 = .ok (.pendingPing nodeToPing)) :
      NextSpec nodeId t node .arrived (.contact env) (t.step (.update env node))
        (.checking (t.contains node.id) nodeToPing)
  | ends {env : Env} {result : Outcome Bool} (hid : node.id ≠ nodeId)
      (hresult : result = .ok true ↔
        (t.update env node).1 = .ok .updated ∧ t.contains node.id = false) :
      NextSpec nodeId t node .arrived (.contact env) (t.step (.update env node))
        (.finished result)
  | answered {wasKnown : Bool} {nodeToPing : Node} {env : Env} {responseTimeMs : UInt64} :
      NextSpec nodeId t node (.checking wasKnown nodeToPing) (.answer env responseTimeMs)
        (t.step (.recordSuccess env nodeToPing.id responseTimeMs)) (.answered nodeToPing)
  | timedOut {wasKnown : Bool} {nodeToPing : Node} {env : Env} :
      NextSpec nodeId t node (.checking wasKnown nodeToPing) (.timeout env)
        (t.step (.recordFailure env nodeToPing.id)) (.failed wasKnown nodeToPing)
  | panicked {wasKnown : Bool} {nodeToPing : Node} {st : Step} {op : TableOp} {message : String}
      (hop : tableOp nodeId node (.checking wasKnown nodeToPing) st = some op) :
      NextSpec nodeId t node (.checking wasKnown nodeToPing) st (t.step op)
        (.finished (.error (.panic message)))
  | broke {wasKnown : Bool} {nodeToPing : Node} :
      NextSpec nodeId t node (.checking wasKnown nodeToPing) .error t (.failed wasKnown nodeToPing)
  | seen {nodeToPing : Node} {env : Env} {result : Outcome Bool} (hresult : result ≠ .ok true) :
      NextSpec nodeId t node (.answered nodeToPing) (.seen env)
        (t.step (.nodeSeen env nodeToPing.id)) (.finished result)
  | removed {wasKnown : Bool} {nodeToPing : Node} {env : Env} :
      NextSpec nodeId t node (.failed wasKnown nodeToPing) (.evict env)
        (t.step (.remove env nodeToPing.id)) (.removed wasKnown)
  | retried {wasKnown : Bool} {env : Env} {result : Outcome Bool}
      (hresult : result = .ok true ↔ (t.update env node).1 = .ok .updated ∧ wasKnown = false) :
      NextSpec nodeId t node (.removed wasKnown) (.retry env) (t.step (.update env node))
        (.finished result)

section NextSpec

variable (nodeId : NodeId) (t : RoutingTable) (node : Node)

theorem contact_spec (env : Env) :
    NextSpec nodeId t node .arrived (.contact env) (contact nodeId t env node).1
      (contact nodeId t env node).2 := by
  have htable := contact_table nodeId t env node
  rw [contact] at htable ⊢
  by_cases hid : node.id = nodeId
  · rw [if_pos hid]
    exact .self hid
  rw [if_neg hid, if_neg hid] at htable
  rw [if_neg hid, htable]
  rcases hupdate : t.update env node with ⟨fault | status, t'⟩
  · refine .ends hid ?_
    rw [hupdate]
    exact ⟨(fun h => nomatch h), fun h => nomatch h.1⟩
  · cases status with
    | unchanged =>
      refine .ends hid ?_
      rw [hupdate]
      exact ⟨(fun h => nomatch h), fun h => nomatch h.1⟩
    | updated =>
      refine .ends hid ?_
      rw [hupdate]
      cases t.contains node.id <;> simp
    | pendingPing f =>
      refine .checks hid ?_
      rw [hupdate]

theorem ignoring_spec {wasKnown : Bool} {nodeToPing : Node} {st : Step} {op : TableOp}
    {phase : Phase} (hop : tableOp nodeId node (.checking wasKnown nodeToPing) st = some op)
    (hnext : NextSpec nodeId t node (.checking wasKnown nodeToPing) st (t.step op) phase)
    {result : Outcome Unit × RoutingTable} (hresult : result.2 = t.step op) :
    NextSpec nodeId t node (.checking wasKnown nodeToPing) st (ignoring phase result).1
      (ignoring phase result).2 := by
  rw [ignoring_table, hresult]
  rcases result with ⟨fault | _, t'⟩
  · cases fault with
    | panic message => exact .panicked hop
    | _ => exact hnext
  · exact hnext

/-- A removal gives no error. -/
theorem remove_spec {wasKnown : Bool} {nodeToPing : Node} (env : Env) :
    NextSpec nodeId t node (.failed wasKnown nodeToPing) (.evict env)
      (next nodeId t node (.failed wasKnown nodeToPing) (.evict env)).1
      (next nodeId t node (.failed wasKnown nodeToPing) (.evict env)).2 := by
  obtain ⟨removed, hremoved⟩ := t.remove_ok env nodeToPing.id
  rw [next_table, next]
  rcases hremove : t.remove env nodeToPing.id with ⟨result, t'⟩
  rw [hremove] at hremoved
  obtain rfl : result = .ok removed := hremoved
  exact .removed

theorem next_spec (phase : Phase) (st : Step) :
    NextSpec nodeId t node phase st (next nodeId t node phase st).1
      (next nodeId t node phase st).2 := by
  cases phase with
  | arrived =>
    cases st with
    | contact env => exact contact_spec nodeId t node env
    | _ => exact .idle rfl
  | checking wasKnown f =>
    cases st with
    | answer env ms => exact ignoring_spec nodeId t node rfl .answered rfl
    | timeout env => exact ignoring_spec nodeId t node rfl .timedOut rfl
    | error => exact .broke
    | _ => exact .idle rfl
  | answered f =>
    cases st with
    | seen env =>
      rw [next_table, next]
      rcases t.nodeSeen env f.id with ⟨fault | _, t'⟩
      · exact .seen fun h => nomatch h
      · exact .seen fun h => nomatch h
    | _ => exact .idle rfl
  | failed wasKnown f =>
    cases st with
    | evict env => exact remove_spec nodeId t node env
    | _ => exact .idle rfl
  | removed wasKnown =>
    cases st with
    | retry env =>
      rw [next_table, next]
      rcases hupdate : t.update env node with ⟨fault | status, t'⟩
      · refine .retried ?_
        rw [hupdate]
        exact ⟨(fun h => nomatch h), fun h => nomatch h.1⟩
      · cases status with
        | updated =>
          refine .retried ?_
          rw [hupdate]
          cases wasKnown <;> simp
        | _ =>
          refine .retried ?_
          rw [hupdate]
          exact ⟨(fun h => nomatch h), fun h => nomatch h.1⟩
    | _ => exact .idle rfl
  | finished result => cases st <;> exact .idle rfl

end NextSpec

theorem NextSpec.placed {nodeId : NodeId} {t t' : RoutingTable} {node : Node} {phase phase' : Phase}
    {st : Step} (hspec : NextSpec nodeId t node phase st t' phase') (h : t.Placed) :
    t'.Placed ∧ t'.localNodeId = t.localNodeId := by
  have hkeep : ∀ op, (t.step op).Placed ∧ (t.step op).localNodeId = t.localNodeId := fun op =>
    ⟨h.step op, (h.step_spec op).params.1⟩
  cases hspec with
  | idle hop => exact ⟨h, rfl⟩
  | self hid => exact ⟨h, rfl⟩
  | broke => exact ⟨h, rfl⟩
  | _ => exact hkeep _

/-- Where a call after an event comes from: the event started it, or did not concern it,
or was a step of it. -/
theorem step_call {s : State} {e : Event} {c : Nat} {call : Call}
    (h : (step s e).calls[c]? = some call) :
    call.phase = .arrived ∨ (s.calls[c]? = some call ∧ ¬ ∃ st, e = .step c st) ∨
      ∃ st before, e = .step c st ∧ s.calls[c]? = some before ∧
        call.phase = (next s.nodeId s.table before.node before.phase st).2 := by
  cases e with
  | call node =>
    rcases getElem?_concat_cases h with h | rfl
    · exact .inr (.inl ⟨h, fun ⟨_, he⟩ => nomatch he⟩)
    · exact .inl rfl
  | step c' st =>
    unfold step at h
    rcases hcall : s.calls[c']? with _ | before
    · simp only [hcall] at h
      refine .inr (.inl ⟨h, fun ⟨_, he⟩ => ?_⟩)
      obtain ⟨rfl, -⟩ := Event.step.inj he
      rw [hcall] at h
      cases h
    · simp only [hcall, State.advance] at h
      rcases getElem?_set_cases h with ⟨rfl, rfl⟩ | ⟨hc, hold⟩
      · exact .inr (.inr ⟨st, before, rfl, hcall, rfl⟩)
      · refine .inr (.inl ⟨hold, fun ⟨_, he⟩ => hc ?_⟩)
        exact (Event.step.inj he).1
  | recordSuccess env id ms => exact .inr (.inl ⟨h, fun ⟨_, he⟩ => nomatch he⟩)
  | recordFailure env id => exact .inr (.inl ⟨h, fun ⟨_, he⟩ => nomatch he⟩)

end RecordContact

end Kademlia
