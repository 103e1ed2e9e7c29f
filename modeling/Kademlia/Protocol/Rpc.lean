import Kademlia.Network.OpenTransport
import Kademlia.Routing.RoutingTable

/-!
# Remote procedure calls

The five requests of the protocol share one shape.  A call draws a message identifier,
puts its request into `pending_requests`, chooses its timeouts, sends the request and
waits for the response under a timeout of its own around that of the transport.  Each of
these is a step, and between two steps other calls run, responses come in, and the
caller may drop the call.

A run interleaves any number of calls.  `record_contact` on the sender of a response is
a process of its own: its health check is a further call of the run, and its critical
sections on the table are among the table events.
-/

namespace Kademlia

open Lib

inductive Rpc where
  | ping
  | store (key : NodeId) (value : Value)
  | findNode (target : NodeId)
  | findValue (key : NodeId)
  | healthCheckPing
deriving DecidableEq

namespace Rpc

def rpcTimeout : Duration := Duration.fromSecs 30

/-- The request that a call sends. -/
def request (rpc : Rpc) (id : MessageId) (localNode : Node) : RequestMessage :=
  match rpc with
  | ping => .ping id localNode
  | store key value => .store id localNode key value
  | findNode target => .findNode id localNode target
  | findValue key => .findValue id localNode key
  | healthCheckPing => .ping id localNode

/-- The timeout around `wait_response`, and the one handed to it.  All but `find_value_rpc`
use the history of the contact for both. -/
def timeouts (rpc : Rpc) (table : RoutingTable) (env : Env) (node : Node) :
    Outcome (Duration × Duration) :=
  match rpc with
  | findValue _ => .ok (Duration.fromSecs 10, rpcTimeout)
  | _ =>
    match table.get node.id with
    | none => .ok (rpcTimeout, rpcTimeout)
    | some existingNode =>
      match existingNode.responseStats.adaptiveTimeout env 3.0 (Duration.fromSecs 5) with
      | .error fault => .error fault
      | .ok adaptiveTimeout => .ok (adaptiveTimeout, adaptiveTimeout)

/-- The operation that records a response, which `find_value_rpc` does not make. -/
def recordSuccess (rpc : Rpc) (env : Env) (node : Node) (responseTimeMs : UInt64) : List TableOp :=
  match rpc with
  | findValue _ => []
  | _ => [.recordSuccess env node.id responseTimeMs]

/-- The operation after the timeout around the wait, which `find_value_rpc` does not make. -/
def recordFailure (rpc : Rpc) (env : Env) (node : Node) : List TableOp :=
  match rpc with
  | findValue _ => []
  | _ => [.recordFailure env node.id]

/-- The sighting after a health check. -/
def nodeSeen (rpc : Rpc) (env : Env) (node : Node) : List TableOp :=
  match rpc with
  | healthCheckPing => [.nodeSeen env node.id]
  | _ => []

/-- How a call ends: with a panic in its timeouts, with an error of `send` or of
`wait_response`, with a response, or with the timeout around the wait. -/
inductive Exit where
  | fault (fault : Fault)
  | sendError (error : Error)
  | waitError (error : Error)
  | response
  | timedOut
deriving DecidableEq

/-- Where a call stands.  It has drawn its identifier, entered `pending_requests`, chosen
its timeouts, sent its request and waits as a call of the transport.  With a response it
leaves `pending_requests` and records the success.  After the timeout around the wait it
leaves `pending_requests` and records the failure.  At the end it has returned, or its
caller has dropped it. -/
inductive Phase where
  | drawn
  | inserted
  | timed (outer inner : Duration)
  | waiting (wait : Nat)
  | answered
  | cleared
  | recorded
  | lapsed
  | lapsedCleared
  | finished (exit : Exit)
  | dropped
deriving DecidableEq

/-- A call with the contact it is addressed to.  `ops` are the operations on the table that
it has made, which the statements refer to. -/
structure Call where
  rpc : Rpc
  node : Node
  id : MessageId
  phase : Phase
  response : Option ResponseMessage
  ops : List TableOp
deriving DecidableEq

structure State where
  localNode : Node
  table : RoutingTable
  pendingRequests : AList fun _ : MessageId => RequestMessage
  transport : Transport.State
  calls : List Call

/-- The steps inside `wait_response`. -/
inductive WaitStep where
  | register
  | wake
  | expire
  | unregister

def WaitStep.event (wait : Nat) : WaitStep → Transport.Event
  | register => .register wait
  | wake => .wake wait
  | expire => .expire wait
  | unregister => .unregister wait

inductive Step where
  | insert
  | time (env : Env)
  | send (result : Except Error Unit)
  | wait (step : WaitStep)
  | lapse
  | clear
  | record (env : Env) (responseTimeMs : UInt64)
  | finish (env : Env)
  | drop

/-- A new call with its identifier, a step of a call, a response from the network, or an
operation of another process on the table. -/
inductive Event where
  | call (rpc : Rpc) (node : Node) (id : MessageId)
  | step (call : Nat) (step : Step)
  | incoming (message : ResponseMessage)
  | table (op : TableOp)

def start (localNode : Node) (table : RoutingTable) : State :=
  { localNode := localNode, table := table, pendingRequests := ∅, transport := Transport.start,
    calls := [] }

def State.put (s : State) (c : Nat) (call : Call) : State := { s with calls := s.calls.set c call }

/-- A call makes operations on the table.  Their results are ignored. -/
def State.operate (s : State) (c : Nat) (call : Call) (ops : List TableOp) (phase : Phase) :
    State :=
  { s with table := run RoutingTable.step s.table ops }.put c
    { call with phase := phase, ops := call.ops ++ ops }

/-- The call after a step of its wait. -/
def afterWait (call : Call) (wait : Nat) (transport : Transport.State) : Call :=
  match transport.calls[wait]?.map Transport.Call.phase with
  | some (.returned (.ok reply)) => { call with phase := .answered, response := some reply.message }
  | some (.returned (.error error)) => { call with phase := .finished (.waitError error) }
  | _ => call

/-- The caller drops a call.  A wait is dropped with it. -/
def State.dropCall (s : State) (kind : Transport.Kind) (c : Nat) (call : Call) : State :=
  match call.phase with
  | .finished _ | .dropped => s
  | .waiting wait =>
    { s with transport := OpenTransport.step kind s.transport (.drop wait) }.put c
      { call with phase := .dropped }
  | _ => s.put c { call with phase := .dropped }

/-- One step of a call.  A step that is not enabled changes nothing. -/
def State.advance (kind : Transport.Kind) (s : State) (c : Nat) (call : Call) (st : Step) : State :=
  match call.phase, st with
  | .drawn, .insert =>
    { s with pendingRequests := s.pendingRequests.insert call.id (call.rpc.request call.id s.localNode) }.put c
      { call with phase := .inserted }
  | .inserted, .time env =>
    match call.rpc.timeouts s.table env call.node with
    | .error fault => s.put c { call with phase := .finished (.fault fault) }
    | .ok (outer, inner) => s.put c { call with phase := .timed outer inner }
  | .timed _ _, .send (.error error) => s.put c { call with phase := .finished (.sendError error) }
  | .timed _ _, .send (.ok _) =>
    { s with transport := OpenTransport.step kind s.transport (.event (.send call.id)) }.put c
      { call with phase := .waiting s.transport.calls.length }
  | .waiting wait, .wait st =>
    let transport := OpenTransport.step kind s.transport (.event (st.event wait))
    { s with transport := transport }.put c (afterWait call wait transport)
  | .waiting wait, .lapse =>
    { s with transport := OpenTransport.step kind s.transport (.drop wait) }.put c
      { call with phase := .lapsed }
  | .answered, .clear =>
    { s with pendingRequests := s.pendingRequests.erase call.id }.put c { call with phase := .cleared }
  | .lapsed, .clear =>
    { s with pendingRequests := s.pendingRequests.erase call.id }.put c
      { call with phase := .lapsedCleared }
  | .cleared, .record env responseTimeMs =>
    s.operate c call (call.rpc.recordSuccess env call.node responseTimeMs) .recorded
  | .lapsedCleared, .record env _ =>
    s.operate c call (call.rpc.recordFailure env call.node) (.finished .timedOut)
  | .recorded, .finish env =>
    s.operate c call (call.rpc.nodeSeen env call.node) (.finished .response)
  | _, .drop => s.dropCall kind c call
  | _, _ => s

def step (kind : Transport.Kind) (s : State) : Event → State
  | .call rpc node id =>
    { s with calls := s.calls ++
        [{ rpc := rpc, node := node, id := id, phase := .drawn, response := none, ops := [] }] }
  | .step c st =>
    match s.calls[c]? with
    | none => s
    | some call => s.advance kind c call st
  | .incoming message =>
    { s with transport := OpenTransport.step kind s.transport (.incoming message) }
  | .table op => { s with table := s.table.step op }

/-! ## What a step does to a call -/

def Phase.Ended : Phase → Prop
  | finished _ | dropped => True
  | _ => False

/-- The ways a step moves a call. -/
inductive CallStep (call : Call) : Step → Call → Prop where
  | stay (st : Step) : CallStep call st call
  | insert (h : call.phase = .drawn) : CallStep call .insert { call with phase := .inserted }
  | fault {env : Env} (fault : Fault) (h : call.phase = .inserted) :
      CallStep call (.time env) { call with phase := .finished (.fault fault) }
  | time {env : Env} (outer inner : Duration) (h : call.phase = .inserted) :
      CallStep call (.time env) { call with phase := .timed outer inner }
  | sendError {outer inner : Duration} (error : Error) (h : call.phase = .timed outer inner) :
      CallStep call (.send (.error error)) { call with phase := .finished (.sendError error) }
  | send {outer inner : Duration} (wait : Nat) (h : call.phase = .timed outer inner) :
      CallStep call (.send (.ok ())) { call with phase := .waiting wait }
  | answer {wait : Nat} (st : WaitStep) (message : ResponseMessage)
      (h : call.phase = .waiting wait) :
      CallStep call (.wait st) { call with phase := .answered, response := some message }
  | waitError {wait : Nat} (st : WaitStep) (error : Error) (h : call.phase = .waiting wait) :
      CallStep call (.wait st) { call with phase := .finished (.waitError error) }
  | lapse {wait : Nat} (h : call.phase = .waiting wait) :
      CallStep call .lapse { call with phase := .lapsed }
  | clear (h : call.phase = .answered) : CallStep call .clear { call with phase := .cleared }
  | clearLapsed (h : call.phase = .lapsed) :
      CallStep call .clear { call with phase := .lapsedCleared }
  | record (env : Env) (responseTimeMs : UInt64) (h : call.phase = .cleared) :
      CallStep call (.record env responseTimeMs) { call with
        phase := .recorded
        ops := call.ops ++ call.rpc.recordSuccess env call.node responseTimeMs }
  | fail (env : Env) (responseTimeMs : UInt64) (h : call.phase = .lapsedCleared) :
      CallStep call (.record env responseTimeMs) { call with
        phase := .finished .timedOut
        ops := call.ops ++ call.rpc.recordFailure env call.node }
  | finish (env : Env) (h : call.phase = .recorded) :
      CallStep call (.finish env) { call with
        phase := .finished .response
        ops := call.ops ++ call.rpc.nodeSeen env call.node }
  | drop (h : ¬ call.phase.Ended) : CallStep call .drop { call with phase := .dropped }

theorem afterWait_callStep {call : Call} {wait : Nat} (h : call.phase = .waiting wait)
    (st : WaitStep) (transport : Transport.State) :
    CallStep call (.wait st) (afterWait call wait transport) := by
  unfold afterWait
  split
  · exact .answer st _ h
  · exact .waitError st _ h
  · exact .stay _

theorem dropCall_calls (s : State) (kind : Transport.Kind) (c : Nat) (call : Call) :
    ∃ call', CallStep call .drop call' ∧
      ((s.dropCall kind c call).calls = s.calls.set c call' ∨
        s.dropCall kind c call = s ∧ call' = call) := by
  unfold State.dropCall
  have hdrop : ¬ call.phase.Ended → CallStep call .drop { call with phase := .dropped } := .drop
  split
  · exact ⟨call, .stay _, .inr ⟨rfl, rfl⟩⟩
  · exact ⟨call, .stay _, .inr ⟨rfl, rfl⟩⟩
  · rename_i wait hphase
    exact ⟨_, hdrop (by rw [hphase]; exact id), .inl rfl⟩
  · rename_i hfinished hdropped hwaiting
    refine ⟨_, hdrop ?_, .inl rfl⟩
    cases hphase : call.phase with
    | finished exit => exact absurd hphase (hfinished exit)
    | dropped => exact absurd hphase hdropped
    | _ => exact id

theorem advance_calls (kind : Transport.Kind) (s : State) (c : Nat) (call : Call) (st : Step) :
    ∃ call', CallStep call st call' ∧
      ((s.advance kind c call st).calls = s.calls.set c call' ∨
        s.advance kind c call st = s ∧ call' = call) := by
  unfold State.advance
  split
  · rename_i hphase
    exact ⟨_, .insert hphase, .inl rfl⟩
  · rename_i hphase
    split
    · exact ⟨_, .fault _ hphase, .inl rfl⟩
    · exact ⟨_, .time _ _ hphase, .inl rfl⟩
  · rename_i hphase
    exact ⟨_, .sendError _ hphase, .inl rfl⟩
  · rename_i hphase
    exact ⟨_, .send _ hphase, .inl rfl⟩
  · rename_i hphase
    exact ⟨_, afterWait_callStep hphase _ _, .inl rfl⟩
  · rename_i hphase
    exact ⟨_, .lapse hphase, .inl rfl⟩
  · rename_i hphase
    exact ⟨_, .clear hphase, .inl rfl⟩
  · rename_i hphase
    exact ⟨_, .clearLapsed hphase, .inl rfl⟩
  · rename_i hphase
    exact ⟨_, .record _ _ hphase, .inl rfl⟩
  · rename_i hphase
    exact ⟨_, .fail _ _ hphase, .inl rfl⟩
  · rename_i hphase
    exact ⟨_, .finish _ hphase, .inl rfl⟩
  · exact dropCall_calls s kind c call
  · exact ⟨call, .stay _, .inr ⟨rfl, rfl⟩⟩

/-- A call that has made no step. -/
structure Call.Fresh (call : Call) : Prop where
  phase : call.phase = .drawn
  response : call.response = none
  ops : call.ops = []

/-- Where a call after an event comes from: it is new, or it was there before, or the event
was a step of it. -/
theorem step_call {kind : Transport.Kind} {s : State} {event : Event} {c : Nat} {call' : Call}
    (h : (step kind s event).calls[c]? = some call') :
    call'.Fresh ∨ s.calls[c]? = some call' ∨
      ∃ call st, event = .step c st ∧ s.calls[c]? = some call ∧ CallStep call st call' := by
  cases event with
  | call rpc node id =>
    rcases getElem?_concat_cases h with hold | rfl
    · exact .inr (.inl hold)
    · exact .inl ⟨rfl, rfl, rfl⟩
  | step c' st =>
    unfold step at h
    cases hcall : s.calls[c']? with
    | none =>
      simp only [hcall] at h
      exact .inr (.inl h)
    | some call =>
      simp only [hcall] at h
      obtain ⟨moved, hmoved, hcalls | ⟨hsame, -⟩⟩ := advance_calls kind s c' call st
      · rw [hcalls] at h
        rcases getElem?_set_cases h with ⟨rfl, rfl⟩ | ⟨-, hold⟩
        · exact .inr (.inr ⟨call, st, rfl, hcall, hmoved⟩)
        · exact .inr (.inl hold)
      · rw [hsame] at h
        exact .inr (.inl h)
  | incoming message => exact .inr (.inl h)
  | table op => exact .inr (.inl h)

/-- Every call has a property that new calls have and steps keep. -/
theorem forall_calls_step {P : Call → Prop} (hfresh : ∀ call, call.Fresh → P call)
    (hstep : ∀ call st call', CallStep call st call' → P call → P call') {kind : Transport.Kind}
    {s : State} (h : ∀ (c : Nat) (call : Call), s.calls[c]? = some call → P call) (event : Event)
    (c : Nat) (call : Call) (hcall : (step kind s event).calls[c]? = some call) : P call := by
  rcases step_call hcall with hnew | hold | ⟨before, st, -, hbefore, hmoved⟩
  · exact hfresh call hnew
  · exact h c call hold
  · exact hstep before st call hmoved (h c before hbefore)

theorem forall_calls_run {P : Call → Prop} (hfresh : ∀ call, call.Fresh → P call)
    (hstep : ∀ call st call', CallStep call st call' → P call → P call') (kind : Transport.Kind)
    (localNode : Node) (table : RoutingTable) (events : List Event) (c : Nat) (call : Call)
    (hcall : (run (step kind) (start localNode table) events).calls[c]? = some call) : P call := by
  have hstart : ∀ (c : Nat) (call : Call),
      (start localNode table).calls[c]? = some call → P call := by
    intro c call hcall
    cases hcall
  exact invariant (P := fun s : State => ∀ (c : Nat) (call : Call), s.calls[c]? = some call → P call)
    (fun s event h => forall_calls_step hfresh hstep h event) hstart events c call hcall

end Rpc

end Kademlia
