import Kademlia.Protocol.RecordContact

/-!
# Health checks across a network

A handler records the sender of a request before it replies, and recording may check
another contact first.  That check is a request to a further node, whose handler does the
same.  A network is a list of nodes with their tables and the list of messages sent, each
with the state of its handler and the request that caused it.

The nodes and the routes of the messages never change.  `Linked` says how a health check
and its cause are placed in the identifier space, and holds in every run.
-/

namespace Kademlia

open Lib

namespace HealthCheck

open RecordContact (Phase Step NextSpec next_spec)

/-- A live node with its routing table. -/
structure Peer where
  node : Node
  table : RoutingTable
  placed : table.Placed
  local_eq : table.localNodeId = node.id

/-- The sender that a node writes into its requests. -/
def Peer.localNode (peer : Peer) : Node := Node.new peer.node.id peer.node.addr

/-- One step of `record_contact` at a node. -/
def Peer.next (peer : Peer) (sender : Node) (phase : Phase) (st : Step) : Peer × Phase :=
  let result := RecordContact.next peer.node.id peer.table sender phase st
  have hspec := (next_spec peer.node.id peer.table sender phase st).placed peer.placed
  ({ node := peer.node, table := result.1, placed := hspec.1,
     local_eq := hspec.2.trans peer.local_eq }, result.2)

/-- The bookkeeping of a request that a node sent. -/
def Peer.operate (peer : Peer) (op : TableOp) : Peer :=
  { node := peer.node, table := peer.table.step op, placed := peer.placed.step op,
    local_eq := (peer.placed.step_spec op).params.1.trans peer.local_eq }

/-- Where a message comes from and where it goes.  `cause` is the request whose handler
sent it as a health check. -/
structure Route where
  source : Nat
  target : Node
  cause : Option Nat
deriving DecidableEq

/-- A message that makes its receiver record the sender: a request of any kind, which the
receiver answers once the recording has ended, or a response to a client. -/
structure Message where
  route : Route
  phase : Phase

structure State where
  peers : List Peer
  messages : List Message

inductive Event where
  | send (source : Nat) (target : Node)
  | step (message : Nat) (step : Step)
  | recordSuccess (peer : Nat) (env : Env) (nodeId : NodeId) (responseTimeMs : UInt64)
  | recordFailure (peer : Nat) (env : Env) (nodeId : NodeId)

/-- A handler replies when `record_contact` has returned without an error. -/
def Message.replied (message : Message) : Bool :=
  match message.phase with
  | .finished (.ok _) => true
  | _ => false

/-- The answer to a health check arrives after the node checked has replied. -/
def State.enabled (s : State) (p : Nat) : Step → Bool
  | .answer _ _ => s.messages.any fun message => message.route.cause == some p && message.replied
  | _ => true

/-- The nodes of the network.  A step changes their tables only. -/
def State.nodes (s : State) : List Node := s.peers.map Peer.node

/-- Messages are delivered to the node at their address. -/
def receiver (nodes : List Node) (addr : SocketAddr) : Option Nat :=
  nodes.findIdx? fun node => node.addr = addr

/-- The health check that the handler of message `p` at node `r` sends at a step. -/
def healthCheck (r p : Nat) : Phase → Phase → List Message
  | .arrived, .checking _ nodeToPing =>
    [{ route := { source := r, target := nodeToPing, cause := some p }, phase := .arrived }]
  | _, _ => []

def State.handle (s : State) (p : Nat) (message : Message) (sender : Peer) (r : Nat) (peer : Peer)
    (st : Step) : State :=
  let (peer', phase) := peer.next sender.localNode message.phase st
  { peers := s.peers.set r peer'
    messages := s.messages.set p { message with phase := phase } ++
      healthCheck r p message.phase phase }

def State.operate (s : State) (i : Nat) (op : TableOp) : State :=
  match s.peers[i]? with
  | none => s
  | some peer => { s with peers := s.peers.set i (peer.operate op) }

def step (s : State) : Event → State
  | .send source target =>
    { s with messages := s.messages ++
        [{ route := { source := source, target := target, cause := none }, phase := .arrived }] }
  | .step p st =>
    match s.messages[p]? with
    | none => s
    | some message =>
      match s.peers[message.route.source]?, receiver s.nodes message.route.target.addr with
      | some sender, some r =>
        match s.peers[r]? with
        | none => s
        | some peer => if s.enabled p st then s.handle p message sender r peer st else s
      | _, _ => s
  | .recordSuccess i env nodeId responseTimeMs =>
    s.operate i (.recordSuccess env nodeId responseTimeMs)
  | .recordFailure i env nodeId => s.operate i (.recordFailure env nodeId)

def start (peers : List Peer) : State := { peers := peers, messages := [] }

/-- What an event does to a network. -/
inductive StepSpec (s : State) : State → Prop where
  | idle : StepSpec s s
  | sent (source : Nat) (target : Node) :
      StepSpec s { s with messages := s.messages ++
        [{ route := { source := source, target := target, cause := none }, phase := .arrived }] }
  | operated {i : Nat} {peer : Peer} {op : TableOp} (hpeer : s.peers[i]? = some peer)
      (hop : ∀ env node, op ≠ .update env node) :
      StepSpec s { s with peers := s.peers.set i (peer.operate op) }
  | handled {p r : Nat} {message : Message} {sender peer : Peer} (st : Step)
      (hmessage : s.messages[p]? = some message)
      (hsender : s.peers[message.route.source]? = some sender)
      (hreceiver : receiver s.nodes message.route.target.addr = some r)
      (hpeer : s.peers[r]? = some peer) : StepSpec s (s.handle p message sender r peer st)

theorem operate_spec (s : State) (i : Nat) {op : TableOp}
    (hop : ∀ env node, op ≠ .update env node) : StepSpec s (s.operate i op) := by
  unfold State.operate
  rcases hpeer : s.peers[i]? with _ | peer
  · exact .idle
  · exact .operated hpeer hop

theorem step_spec (s : State) (e : Event) : StepSpec s (step s e) := by
  cases e with
  | send source target => exact .sent source target
  | step p st =>
    rw [step]
    rcases hmessage : s.messages[p]? with _ | message
    · exact .idle
    rcases hsender : s.peers[message.route.source]? with _ | sender
    · simp only [hsender]
      exact .idle
    rcases hreceiver : receiver s.nodes message.route.target.addr with _ | r
    · simp only [hsender, hreceiver]
      exact .idle
    rcases hpeer : s.peers[r]? with _ | peer
    · simp only [hsender, hreceiver, hpeer]
      exact .idle
    simp only [hsender, hreceiver, hpeer]
    split
    · exact .handled st hmessage hsender hreceiver hpeer
    · exact .idle
  | recordSuccess i env id ms => exact operate_spec s i fun _ _ h => nomatch h
  | recordFailure i env id => exact operate_spec s i fun _ _ h => nomatch h

/-! ## Who asks whom -/

def State.routes (s : State) : List Route := s.messages.map Message.route

def Route.sourceId (nodes : List Node) (route : Route) : Option NodeId :=
  nodes[route.source]?.map Node.id

def Route.targetId (nodes : List Node) (route : Route) : Option NodeId :=
  (receiver nodes route.target.addr).bind fun r => nodes[r]?.map Node.id

/-- Message `p` goes from node `m` to node `n`. -/
def State.Between (s : State) (p : Nat) (m n : NodeId) : Prop :=
  s.routes[p]?.bind (Route.sourceId s.nodes) = some m ∧
    s.routes[p]?.bind (Route.targetId s.nodes) = some n

/-- Whoever gets the messages sent to the address of the entry has its identifier. -/
def Names (nodes : List Node) (entry : Node) : Prop :=
  ∀ r node, receiver nodes entry.addr = some r → nodes[r]? = some node → node.id = entry.id

theorem Names.targetId {nodes : List Node} {route : Route} (h : Names nodes route.target)
    {id : NodeId} (htarget : route.targetId nodes = some id) : id = route.target.id := by
  obtain ⟨r, hr, hid⟩ := Option.bind_eq_some_iff.mp htarget
  obtain ⟨node, hnode, rfl⟩ := Option.map_eq_some_iff.mp hid
  exact h r node hr hnode

instance (nodes : List Node) (entry : Node) : Decidable (Names nodes entry) :=
  decidable_of_iff (((receiver nodes entry.addr).bind fun r => nodes[r]?).all fun node =>
      decide (node.id = entry.id)) (by
    rw [Option.all_eq_true]
    constructor
    · intro h r node hr hnode
      exact of_decide_eq_true (h node (Option.bind_eq_some_iff.mpr ⟨r, hr, hnode⟩))
    · intro h node hbind
      obtain ⟨r, hr, hnode⟩ := Option.bind_eq_some_iff.mp hbind
      exact decide_eq_true (h r node hr hnode))

/-- The entries of all tables carry the address of the node they name. -/
def Addressed (nodes : List Node) (peers : List Peer) : Prop :=
  ∀ peer ∈ peers, Names nodes peer.node ∧ peer.table.AllEntries (Names nodes)

/-- The message after is a health check by the node that the message before asks: it goes to
another node of the bucket of the sender. -/
def Link (nodes : List Node) (before after : Route) : Prop :=
  ∃ here there index, before.targetId nodes = some here ∧ before.sourceId nodes = some there ∧
    after.sourceId nodes = some here ∧ here.bucketIndex there = some index ∧
    here.bucketIndex after.target.id = some index ∧ after.target.id ≠ there

def Linked (nodes : List Node) (routes : List Route) : Prop :=
  ∀ (q : Nat) (after : Route) (p : Nat), routes[q]? = some after → after.cause = some p →
    ∃ before, routes[p]? = some before ∧ Link nodes before after

/-! ## One step -/

theorem StepSpec.nodes {s s' : State} (h : StepSpec s s') : s'.nodes = s.nodes := by
  cases h with
  | idle => rfl
  | sent source target => rfl
  | operated hpeer hop => exact map_set_slot Peer.node hpeer rfl
  | handled st hmessage hsender hreceiver hpeer => exact map_set_slot Peer.node hpeer rfl

theorem nodes_run (peers : List Peer) (events : List Event) :
    (run step (start peers) events).nodes = (start peers).nodes :=
  invariant (P := fun s => s.nodes = (start peers).nodes)
    (fun s e h => (step_spec s e).nodes.trans h) rfl events

/-- The health check of a handler is to another node of the bucket of the sender. -/
theorem Peer.next_checking {peer peer' : Peer} {sender f : Node} {st : Step} {wasKnown : Bool}
    (h : peer.next sender .arrived st = (peer', .checking wasKnown f)) :
    ∃ index, peer.node.id.bucketIndex sender.id = some index ∧
      peer.node.id.bucketIndex f.id = some index ∧
      f ∈ (peer.table.getOrCreateBucket index).nodes ∧ f.id ≠ sender.id := by
  have hphase : (RecordContact.next peer.node.id peer.table sender .arrived st).2 =
      .checking wasKnown f := congrArg Prod.snd h
  have hspec := next_spec peer.node.id peer.table sender .arrived st
  rw [hphase] at hspec
  generalize (RecordContact.next peer.node.id peer.table sender .arrived st).1 = t' at hspec
  cases hspec with
  | checks hid hupdate =>
    have htarget := peer.placed.pendingPing_target hupdate
    simp only [RoutingTable.bucketIndex, peer.local_eq] at htarget
    exact htarget

theorem healthCheck_cases (r p : Nat) (phase phase' : Phase) :
    healthCheck r p phase phase' = [] ∨ ∃ wasKnown f, phase = .arrived ∧
      phase' = .checking wasKnown f ∧ healthCheck r p phase phase' =
        [{ route := { source := r, target := f, cause := some p }, phase := .arrived }] := by
  cases phase with
  | arrived =>
    cases phase' with
    | checking wasKnown f => exact .inr ⟨wasKnown, f, rfl, rfl, rfl⟩
    | _ => exact .inl rfl
  | _ => exact .inl rfl

/-- The routes of a message and of the health check that its handler sends. -/
theorem link_of_handled {s : State} {r : Nat} {message : Message} {sender peer peer' : Peer}
    {st : Step} {wasKnown : Bool} {f : Node} {p : Nat}
    (hsender : s.peers[message.route.source]? = some sender)
    (hreceiver : receiver s.nodes message.route.target.addr = some r)
    (hpeer : s.peers[r]? = some peer)
    (hnext : peer.next sender.localNode .arrived st = (peer', .checking wasKnown f)) :
    Link s.nodes message.route { source := r, target := f, cause := some p } := by
  obtain ⟨index, hthere, hf, -, hne⟩ := Peer.next_checking hnext
  have hnodes : ∀ {i : Nat} {peer : Peer}, s.peers[i]? = some peer →
      s.nodes[i]?.map Node.id = some peer.node.id := by
    intro i peer hi
    rw [State.nodes, List.getElem?_map, hi]
    rfl
  refine ⟨peer.node.id, sender.node.id, index, ?_, hnodes hsender, hnodes hpeer, hthere, hf, hne⟩
  rw [Route.targetId, hreceiver]
  exact hnodes hpeer

/-- A step adds at most one message.  Where it is a health check, its target is an entry
of the table of its sender. -/
theorem StepSpec.routes {s s' : State} (h : StepSpec s s') :
    s'.routes = s.routes ∨ ∃ new, s'.routes = s.routes ++ [new] ∧
      (new.cause = none ∨ ∃ p before peer index, new.cause = some p ∧ s.routes[p]? = some before ∧
        Link s.nodes before new ∧ peer ∈ s.peers ∧
        new.target ∈ (peer.table.getOrCreateBucket index).nodes) := by
  cases h with
  | idle => exact .inl rfl
  | sent source target =>
    refine .inr ⟨{ source := source, target := target, cause := none }, ?_, .inl rfl⟩
    exact List.map_append
  | operated hpeer hop => exact .inl rfl
  | @handled p r message sender peer st hmessage hsender hreceiver hpeer =>
    have hold : ∀ phase : Phase,
        (s.messages.set p { message with phase := phase }).map Message.route = s.routes :=
      fun phase => map_set_slot Message.route hmessage rfl
    rcases hnext : peer.next sender.localNode message.phase st with ⟨peer', phase⟩
    have hroutes : (s.handle p message sender r peer st).routes =
        s.routes ++ (healthCheck r p message.phase phase).map Message.route := by
      rw [State.routes, State.handle, hnext, List.map_append, hold]
    rcases healthCheck_cases r p message.phase phase with hnone | ⟨wasKnown, f, harrived, rfl, hone⟩
    · rw [hnone, List.map_nil, List.append_nil] at hroutes
      exact .inl hroutes
    · rw [hone] at hroutes
      rw [harrived] at hnext
      obtain ⟨index, -, -, hmem, -⟩ := Peer.next_checking hnext
      refine .inr ⟨_, hroutes, .inr ⟨p, message.route, peer, index, rfl, ?_, ?_, ?_, hmem⟩⟩
      · rw [State.routes, List.getElem?_map, hmessage]
        rfl
      · exact link_of_handled hsender hreceiver hpeer hnext
      · exact List.mem_of_getElem? hpeer

theorem Linked.concat {nodes : List Node} {routes : List Route} (h : Linked nodes routes)
    {new : Route}
    (hnew : ∀ p, new.cause = some p → ∃ before, routes[p]? = some before ∧ Link nodes before new) :
    Linked nodes (routes ++ [new]) := by
  intro q after p hq hcause
  have hbefore : ∃ before, routes[p]? = some before ∧ Link nodes before after := by
    rcases getElem?_concat_cases hq with hq | rfl
    · exact h q after p hq hcause
    · exact hnew p hcause
  obtain ⟨before, hp, hlink⟩ := hbefore
  exact ⟨before, getElem?_concat_of_some hp new, hlink⟩

theorem linked_step {s : State} (h : Linked s.nodes s.routes) (e : Event) :
    Linked (step s e).nodes (step s e).routes := by
  have hspec := step_spec s e
  rw [hspec.nodes]
  rcases hspec.routes with hroutes | ⟨new, hroutes, hnew⟩
  · rw [hroutes]
    exact h
  · rw [hroutes]
    apply h.concat
    intro p hp
    rcases hnew with hnone | ⟨p', before, peer, index, hcause, hbefore, hlink, -⟩
    · rw [hnone] at hp
      cases hp
    · obtain rfl := Option.some.inj (hcause.symm.trans hp)
      exact ⟨before, hbefore, hlink⟩

/-- A node that records live nodes only keeps live nodes in its table. -/
theorem Peer.allEntries_next {nodes : List Node} {peer : Peer}
    (h : peer.table.AllEntries (Names nodes)) {sender : Node} (hsender : Names nodes sender)
    (phase : Phase) (st : Step) : (peer.next sender phase st).1.table.AllEntries (Names nodes) := by
  show (RecordContact.next peer.node.id peer.table sender phase st).1.AllEntries (Names nodes)
  rw [RecordContact.next_table]
  rcases hop : RecordContact.tableOp peer.node.id sender phase st with _ | op
  · exact h
  · apply h.step peer.placed (fun _ _ hn => hn)
    intro env node hupdate
    rw [hupdate] at hop
    rw [RecordContact.tableOp_update hop]
    exact hsender

theorem Addressed.set {nodes : List Node} {peers : List Peer} (h : Addressed nodes peers) (i : Nat)
    {peer : Peer} (hnode : Names nodes peer.node) (htable : peer.table.AllEntries (Names nodes)) :
    Addressed nodes (peers.set i peer) := by
  intro peer' hpeer'
  rcases List.mem_or_eq_of_mem_set hpeer' with hmem | rfl
  · exact h peer' hmem
  · exact ⟨hnode, htable⟩

theorem addressed_step {s : State} (h : Addressed s.nodes s.peers) (e : Event) :
    Addressed (step s e).nodes (step s e).peers := by
  have hspec := step_spec s e
  rw [hspec.nodes]
  generalize step s e = s' at hspec
  cases hspec with
  | idle => exact h
  | sent source target => exact h
  | @operated i peer op hpeer hop =>
    obtain ⟨hnode, htable⟩ := h peer (List.mem_of_getElem? hpeer)
    refine h.set i hnode (htable.step peer.placed (fun _ _ hn => hn) fun env node heq => ?_)
    exact absurd heq (hop env node)
  | @handled p r message sender peer st hmessage hsender hreceiver hpeer =>
    obtain ⟨hnode, htable⟩ := h peer (List.mem_of_getElem? hpeer)
    have hnames : Names s.nodes sender.localNode := (h _ (List.mem_of_getElem? hsender)).1
    exact h.set r hnode (Peer.allEntries_next htable hnames message.phase st)

/-- The health checks of an addressed network go to the node they are meant for. -/
def Checked (s : State) : Prop :=
  Addressed s.nodes s.peers ∧
    ∀ route ∈ s.routes, ∀ p, route.cause = some p → Names s.nodes route.target

theorem checked_step {s : State} (h : Checked s) (e : Event) : Checked (step s e) := by
  refine ⟨addressed_step h.1 e, ?_⟩
  have hspec := step_spec s e
  rw [hspec.nodes]
  rcases hspec.routes with hroutes | ⟨new, hroutes, hnew⟩
  · rw [hroutes]
    exact h.2
  · rw [hroutes]
    intro route hroute p hp
    rcases List.mem_append.mp hroute with hroute | hroute
    · exact h.2 route hroute p hp
    obtain rfl := List.mem_singleton.mp hroute
    rcases hnew with hnone | ⟨p', before, peer, index, -, -, -, hpeer, hmem⟩
    · rw [hnone] at hp
      cases hp
    · have hbucket := RoutingTable.AllBuckets.getOrCreate (h.1 peer hpeer).2 index
        fun _ hn => nomatch hn
      exact hbucket _ (List.mem_append_left _ hmem)

theorem linked_run (peers : List Peer) (events : List Event) :
    Linked (run step (start peers) events).nodes (run step (start peers) events).routes := by
  have hstart : Linked (start peers).nodes (start peers).routes := by
    intro q after p hq
    cases hq
  exact invariant (P := fun s : State => Linked s.nodes s.routes) (fun _ e h => linked_step h e)
    hstart events

theorem checked_run {peers : List Peer} (h : Addressed (start peers).nodes peers)
    (events : List Event) : Checked (run step (start peers) events) := by
  have hstart : Checked (start peers) := ⟨h, fun _ hroute => nomatch hroute⟩
  exact invariant (P := Checked) (fun _ e h => checked_step h e) hstart events

end HealthCheck

end Kademlia
