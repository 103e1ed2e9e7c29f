import Kademlia.Routing.Capacity
import Kademlia.System.Sound

/-!
# What a network of nodes holds

`sound_run` puts the nodes together: in a run in which clients give trusted values only, joins
name trusted nodes and no node draws an identifier twice, every node and every packet is
trusted.  What the network guarantees is read off it by choosing the trust.
-/

namespace Kademlia

open Lib

namespace System

/-- The reading of the clock with which a step stamps contacts. -/
def Peer.Input.env : Peer.Input → Option Env
  | .call _ st => st.env
  | .record _ st => st.env
  | _ => none

namespace Trust

variable (T : Trust) (digest : SocketAddr → List UInt8)

/-- What clients may ask for: values that are trusted, and joins at trusted nodes. -/
def Allows : System.Peer.Operation → Prop
  | .storeOn _ key value _ => T.value key value
  | .storeValue key value => T.value key value
  | .store key value => T.value (NodeId.fromBytes key) value
  | .join bootstrapAddr => T.Genuine (Node.withAddr digest bootstrapAddr)
  | _ => True

/-- A node that comes in at a free address is a new one, clients ask for what they may, and the
clock shows a trusted time. -/
structure Admits (s : State) (event : Event) : Prop where
  enter : ∀ addr p, event = .enter addr p → s.parties.lookup addr = none →
    ∃ kind id, p = System.Peer.start kind id addr ∧ T.contact id addr
  operation : ∀ addr operation, event = .act addr (.operation operation) →
    T.Allows digest operation
  time : ∀ addr input env, event = .act addr input → input.env = some env → T.time env.stampedAt

variable {T digest} {sent : Packets} {addr : SocketAddr} {p : System.Peer}

theorem peer_start (kind : Transport.Kind) {id : NodeId} (hcontact : T.contact id addr)
    (hsilent : ∀ q ∈ sent, q.src ≠ addr) : T.Peer sent addr (System.Peer.start kind id addr) where
  self := rfl
  genuine := ⟨hcontact, trivial⟩
  table := table_new id
  storage := storage_new
  calls := calls_start _ _ hsilent
  processes := by
    intro i process hprocess
    cases hprocess

theorem Peer.begin (h : T.Peer sent addr p) {operation : System.Peer.Operation}
    (hallows : T.Allows digest operation)
    (hdistinct : Rpc.Distinct (p.begin digest operation).rpc.calls) :
    T.Peer sent addr (p.begin digest operation) := by
  cases operation with
  | ping node id => exact h.call node trivial hdistinct
  | storeOn node key value id => exact h.call node hallows hdistinct
  | findValueRpc node key id => exact h.call node trivial hdistinct
  | storeValue key value => exact h.spawn hallows
  | store key value => exact h.spawn hallows
  | findValue key => exact h.spawn ⟨trivial, fun c hc => by cases hc⟩
  | findNode target => exact h.spawn trivial
  | join bootstrapAddr =>
    refine Peer.spawn (h.spawn ?_) trivial
    exact hallows
  | republish now keys =>
    simp only [System.Peer.begin]
    split_ifs
    · split
      · exact h
      · rename_i items hitems
        exact h.spawn (h.storage.snapshotPairs hitems)
    · exact h
  | cleanup now => exact h.withStorage (h.storage.cleanup now)

/-- A node takes a step of its own. -/
theorem Peer.act (h : T.Peer sent addr p) (hsent : ∀ q ∈ sent, T.Message sent q)
    {input : System.Peer.Input}
    (hallows : ∀ operation, input = .operation operation → T.Allows digest operation)
    (htime : ∀ env, input.env = some env → T.time env.stampedAt)
    (hdistinct : Rpc.Distinct (p.act digest input).1.rpc.calls) :
    T.invariant.Keeps sent addr (p.act digest input) := by
  cases input with
  | operation operation => exact (h.begin (hallows operation rfl) hdistinct).silent
  | call c st => exact h.stepCall hsent c htime
  | record i st =>
    simp only [System.Peer.act] at hdistinct ⊢
    split at hdistinct
    · rename_i node phase check hprocess
      have hnode : T.Genuine node := h.processes i _ hprocess
      exact (h.stepRecord hnode htime hdistinct).silent
    · exact h.silent
  | handle i st =>
    simp only [System.Peer.act] at hdistinct ⊢
    split at hdistinct
    · rename_i message fromAddr phase hprocess
      exact h.stepHandle hsent (h.processes i _ hprocess) hdistinct
    · exact h.silent
  | store i st =>
    simp only [System.Peer.act] at hdistinct ⊢
    split at hdistinct
    · rename_i direct key value phase hprocess
      have hvalue : T.value key value := h.processes i _ hprocess
      exact (h.stepStore hvalue hdistinct).silent
    · exact h.silent
  | republish i st =>
    simp only [System.Peer.act]
    split
    · rename_i items storing hprocess
      have hitems : ∀ item ∈ items, T.value item.1 item.2 := h.processes i _ hprocess
      exact (h.stepRepublish hitems storing st).silent
    · exact h.silent
  | lookup i st =>
    simp only [System.Peer.act] at hdistinct ⊢
    split at hdistinct
    · rename_i key phase queries hprocess
      obtain ⟨hphase, hqueries⟩ := h.processes i _ hprocess
      exact (h.stepLookup hphase hqueries hdistinct).silent
    · exact h.silent
  | search i st =>
    simp only [System.Peer.act] at hdistinct ⊢
    split at hdistinct
    · rename_i target phase hprocess
      have hphase : T.SearchPhase p.rpc.calls target phase := h.processes i _ hprocess
      exact (h.stepSearch hphase hdistinct).silent
    · exact h.silent
  | join i st =>
    simp only [System.Peer.act] at hdistinct ⊢
    split at hdistinct
    · exact (h.stepJoin hdistinct).silent
    · exact h.silent

/-- A node takes a packet that is on record. -/
theorem Peer.receive {packet : Packet SocketAddr KademliaMessage}
    (h : T.Peer sent packet.dst p) (hmem : packet ∈ sent) (hmessage : T.Message sent packet) :
    T.invariant.Keeps sent packet.dst (p.receive packet) := by
  obtain ⟨src, dst, message⟩ := packet
  cases message with
  | request message =>
    obtain ⟨haddr, hgenuine, -⟩ := hmessage
    have hsrc : System.Peer.replyAddr p.kind src message = src := by
      unfold System.Peer.replyAddr
      split
      · exact haddr
      · rfl
      · rfl
    simp only [System.Peer.receive, hsrc]
    refine (Peer.spawn (h.spawn ?_) ?_).silent
    · exact hgenuine
    · exact hmem
  | response message =>
    refine (h.withRpc (h.calls.incoming p.kind hmem) rfl h.table fun _ _ hasks => ?_).silent
    exact hasks

theorem stable : T.invariant.Stable where
  party := by
    intro sent new addr p h hnew
    refine h.others ?_
    intro dst request hmem
    exact hnew _ hmem rfl
  packet := message_append

end Trust

/-- No node draws an identifier that it has drawn before. -/
def DrawsNew (digest : SocketAddr → List UInt8) (s : State) (event : Event) : Prop :=
  ∀ addr p, (step digest s event).parties.lookup addr = some p → Rpc.Distinct p.rpc.calls

instance (digest : SocketAddr → List UInt8) (s : State) (event : Event) :
    Decidable (DrawsNew digest s event) :=
  decidable_of_iff _ (Exchange.forall_lookup_iff (P := fun p : Peer => Rpc.Distinct p.rpc.calls)).symm

namespace Trust

variable {T : Trust} {digest : SocketAddr → List UInt8}

theorem sound_step {s : State} (h : Exchange.Sound T.invariant s) {event : Event}
    (hadmits : T.Admits digest s event) (hnew : DrawsNew digest s event) :
    Exchange.Sound T.invariant (step digest s event) := by
  refine Exchange.sound_step stable h ?_
  constructor
  · rintro addr p rfl hfree hsilent
    obtain ⟨kind, id, rfl, hcontact⟩ := hadmits.enter addr p rfl hfree
    exact peer_start kind hcontact hsilent
  · rintro addr input p rfl hparty hp
    refine Peer.act hp h.packet ?_ ?_ (hnew addr _ ?_)
    · rintro operation rfl
      exact hadmits.operation addr operation rfl
    · intro env
      exact hadmits.time addr input env rfl
    · simp only [step, Exchange.step, hparty]
      exact AList.lookup_insert _
  · intro index packet p _ hpacket _ hp hmessage
    exact Peer.receive hp (List.mem_of_getElem? hpacket) hmessage

theorem sound_run {events : List Event} (hadmits : Meets (step digest) (T.Admits digest) start events)
    (hnew : Meets (step digest) (DrawsNew digest) start events) :
    Exchange.Sound T.invariant (run (step digest) start events) := by
  induction events using List.reverseRecOn with
  | nil => exact Exchange.sound_start _
  | append_singleton events event ih =>
    obtain ⟨hadmitsBefore, hadmitsLast, -⟩ := meets_append.mp hadmits
    obtain ⟨hnewBefore, hnewLast, -⟩ := meets_append.mp hnew
    rw [run_concat]
    exact sound_step (ih hadmitsBefore hnewBefore) hadmitsLast hnewLast

end Trust

/-- Every node of the run starts as new. -/
def NewNodes (events : List Event) : Prop :=
  ∀ addr p, .enter addr p ∈ events → ∃ kind id, p = Peer.start kind id addr

/-! ## Values -/

/-- The value that a client gives a node for a key. -/
def given : Event → Option (NodeId × Value)
  | .act _ (.operation (.storeOn _ key value _)) => some (key, value)
  | .act _ (.operation (.storeValue key value)) => some (key, value)
  | .act _ (.operation (.store key value)) => some (NodeId.fromBytes key, value)
  | _ => none

/-- A client has given the value for the key in the run. -/
def Given (events : List Event) (key : NodeId) (value : Value) : Prop :=
  ∃ event ∈ events, given event = some (key, value)

/-- All values that the nodes hold for a key, and all that they send, are as `P` says. -/
structure ValuesAre (P : NodeId → Value → Prop) (s : State) : Prop where
  stored : ∀ addr p now key value, s.parties.lookup addr = some p →
    p.storage.get now key = .ok value → P key value
  found : ∀ addr p key value queries, s.parties.lookup addr = some p →
    Process.findValue key (.finished (.ok (some value))) queries ∈ p.processes → P key value
  got : ∀ addr p call key id sender value nodes, s.parties.lookup addr = some p →
    call ∈ p.rpc.calls → call.rpc = Rpc.findValue key →
    call.response = some (.valueFound id sender (some value) nodes) → P key value
  requests : ∀ src dst id sender key value,
    { src := src, dst := dst, message := .request (.store id sender key value) } ∈ s.sent →
    P key value
  responses : ∀ src dst id sender value nodes,
    { src := src, dst := dst,
      message := .response (.valueFound id sender (some value) nodes) } ∈ s.sent →
    ∃ client key,
      { src := dst, dst := src, message := .request (.findValue id client key) } ∈ s.sent ∧
      P key value

theorem Trust.valuesAre {T : Trust} {s : State} (h : Exchange.Sound T.invariant s) :
    ValuesAre T.value s where
  stored := fun addr p now key value hp hget => (h.party addr p hp).storage.get hget
  found := by
    intro addr p key value queries hp hprocess
    obtain ⟨i, hi⟩ := List.mem_iff_getElem?.mp hprocess
    obtain ⟨hphase, -⟩ := (h.party addr p hp).processes i _ hi
    exact hphase value rfl
  got := by
    intro addr p call key id sender value nodes hp hcall hrpc hresponse
    obtain ⟨c, hc⟩ := List.mem_iff_getElem?.mp hcall
    have hanswers := (((h.party addr p hp).calls.calls c call hc).answered _ hresponse).answers
    rw [hrpc] at hanswers
    exact hanswers.2.1 value rfl
  requests := fun src dst id sender key value hmem => (h.packet _ hmem).2.2
  responses := by
    intro src dst requestId sender value nodes hmem
    obtain ⟨-, -, request, hrequest, hanswers⟩ := h.packet _ hmem
    cases request with
    | findValue id client key =>
      obtain ⟨rfl, hvalue, -⟩ := hanswers
      exact ⟨client, key, hrequest, hvalue value rfl⟩
    | _ => exact absurd hanswers id

/-- Whatever the nodes do, and however their messages are lost, delayed, doubled or reordered:
a value that is read from a storage, found by a lookup or under way in a message has been given
by a client, and for the same key. -/
theorem values_given {digest : SocketAddr → List UInt8} {events : List Event}
    (hnew : NewNodes events) (hdraws : Meets (step digest) (DrawsNew digest) start events) :
    ValuesAre (Given events) (run (step digest) start events) := by
  let T : Trust := { value := Given events, contact := fun _ _ => True }
  refine Trust.valuesAre (T := T) (Trust.sound_run (meets_of_forall ?_) hdraws)
  intro s event hevent
  constructor
  · rintro addr p rfl -
    obtain ⟨kind, id, rfl⟩ := hnew addr p hevent
    exact ⟨kind, id, rfl, trivial⟩
  · rintro addr operation rfl
    cases operation with
    | storeOn | storeValue | store => exact ⟨_, hevent, rfl⟩
    | join bootstrapAddr => exact ⟨trivial, trivial⟩
    | _ => trivial
  · intros
    trivial

section Run

def firstAddr : SocketAddr := .v4 0x7f000001#32 8000

def secondAddr : SocketAddr := .v4 0x7f000001#32 8001

/-- The first bytes of a digest that tells the two addresses apart. -/
def twoDigests (addr : SocketAddr) : List UInt8 := if addr = firstAddr then [1] else [2]

def newNode (addr : SocketAddr) : Event :=
  .enter addr (Peer.start .udp (NodeId.fromSocketAddr twoDigests addr) addr)

/-- The first node adds the second one in the first step of a join, and hands it a value for a
key. -/
def joinAndStore : List Event :=
  [newNode firstAddr, newNode secondAddr, .act firstAddr (.operation (.join secondAddr)),
    .act firstAddr (.record 0 (.contact (.at 1))),
    .act firstAddr (.operation
      (.storeOn (Node.withAddr twoDigests secondAddr) (NodeId.fromBytes [7]) [42] 1)),
    .act firstAddr (.call 0 .insert), .act firstAddr (.call 0 (.time (.at 1))),
    .act firstAddr (.call 0 (.send (.ok ()))), .act firstAddr (.call 0 (.wait .register)),
    .deliver 0, .act secondAddr (.record 0 (.contact (.at 1))),
    .act secondAddr (.handle 1 (.respond 5 true)), .deliver 1,
    .act firstAddr (.call 0 (.wait .wake)), .act firstAddr (.call 0 .clear),
    .act firstAddr (.call 0 (.record (.at 2) 3)), .act firstAddr (.call 0 (.finish (.at 2)))]

theorem newNodes_joinAndStore : NewNodes joinAndStore := by
  intro addr p hmem
  simp only [joinAndStore, newNode, List.mem_cons, Exchange.Event.enter.injEq, reduceCtorEq,
    List.not_mem_nil, or_false] at hmem
  rcases hmem with ⟨rfl, rfl⟩ | ⟨rfl, rfl⟩ <;> exact ⟨_, _, rfl⟩

theorem drawsNew_joinAndStore : Meets (step twoDigests) (DrawsNew twoDigests) start joinAndStore := by
  decide +kernel

end Run

/-- The second node holds the value, and it is the one that the first node was given. -/
theorem values_given_joinAndStore :
    ((run (step twoDigests) start joinAndStore).parties.lookup secondAddr).map
        (fun p => p.storage.get 6 (NodeId.fromBytes [7])) = some (.ok [42]) ∧
      ValuesAre (Given joinAndStore) (run (step twoDigests) start joinAndStore) :=
  ⟨by decide +kernel, values_given newNodes_joinAndStore drawsNew_joinAndStore⟩

/-! ## Contacts -/

/-- The identifier of the node that comes in at an address. -/
def enters (addr : SocketAddr) : Event → Option NodeId
  | .enter other p => if other = addr then some p.nodeId else none
  | _ => none

/-- The identifier of the first node at an address.  The address is then taken. -/
def entered (events : List Event) (addr : SocketAddr) : Option NodeId :=
  events.findSome? (enters addr)

/-- All contacts that the nodes hold, and all nodes that they send, are as `P` says. -/
structure ContactsAre (P : NodeId → SocketAddr → Prop) (s : State) : Prop where
  tables : ∀ addr p, s.parties.lookup addr = some p →
    p.rpc.table.AllEntries fun n => P n.id n.addr
  found : ∀ addr p target nodes, s.parties.lookup addr = some p →
    Process.findNode target (.finished nodes) ∈ p.processes → ∀ n ∈ nodes, P n.id n.addr
  requests : ∀ src dst message,
    { src := src, dst := dst, message := .request message } ∈ s.sent →
    message.sender.addr = src ∧ P message.sender.id message.sender.addr
  responses : ∀ src dst message,
    { src := src, dst := dst, message := .response message } ∈ s.sent →
    message.sender.addr = src ∧ P message.sender.id message.sender.addr
  nodesFound : ∀ src dst id sender nodes,
    { src := src, dst := dst, message := .response (.nodesFound id sender nodes) } ∈ s.sent →
    ∀ n ∈ nodes, P n.id n.addr
  valueFound : ∀ src dst id sender value nodes,
    { src := src, dst := dst, message := .response (.valueFound id sender value nodes) } ∈ s.sent →
    ∀ n ∈ nodes, P n.id n.addr

theorem Trust.contactsAre {T : Trust} {s : State} (h : Exchange.Sound T.invariant s) :
    ContactsAre T.contact s where
  tables := fun addr p hp index b hlookup n hn =>
    ((h.party addr p hp).table.entries index b hlookup n hn).contact
  found := by
    intro addr p target nodes hp hprocess n hn
    obtain ⟨i, hi⟩ := List.mem_iff_getElem?.mp hprocess
    have hnodes : T.Nodes nodes := (h.party addr p hp).processes i _ hi
    exact (hnodes n hn).contact
  requests := by
    intro src dst message hmem
    obtain ⟨haddr, hgenuine, -⟩ := h.packet _ hmem
    exact ⟨haddr, hgenuine.contact⟩
  responses := by
    intro src dst message hmem
    obtain ⟨haddr, hgenuine, -⟩ := h.packet _ hmem
    exact ⟨haddr, hgenuine.contact⟩
  nodesFound := by
    intro src dst requestId sender nodes hmem
    obtain ⟨-, -, request, -, hanswers⟩ := h.packet _ hmem
    cases request with
    | findNode id client target => exact fun n hn => (hanswers.2.2 n hn).contact
    | _ => exact absurd hanswers id
  valueFound := by
    intro src dst requestId sender value nodes hmem
    obtain ⟨-, -, request, -, hanswers⟩ := h.packet _ hmem
    cases request with
    | findValue id client key => exact fun n hn => (hanswers.2.2.2 n hn).contact
    | _ => exact absurd hanswers id

theorem ContactsAre.mono {P Q : NodeId → SocketAddr → Prop} {s : State} (h : ContactsAre P s)
    (hPQ : ∀ id addr, P id addr → Q id addr) : ContactsAre Q s where
  tables := fun addr p hp index b hlookup n hn => hPQ _ _ (h.tables addr p hp index b hlookup n hn)
  found := fun addr p target nodes hp hprocess n hn =>
    hPQ _ _ (h.found addr p target nodes hp hprocess n hn)
  requests := fun src dst message hmem =>
    (h.requests src dst message hmem).imp_right fun hP => hPQ _ _ hP
  responses := fun src dst message hmem =>
    (h.responses src dst message hmem).imp_right fun hP => hPQ _ _ hP
  nodesFound := fun src dst id sender nodes hmem n hn =>
    hPQ _ _ (h.nodesFound src dst id sender nodes hmem n hn)
  valueFound := fun src dst id sender value nodes hmem n hn =>
    hPQ _ _ (h.valueFound src dst id sender value nodes hmem n hn)

variable {digest : SocketAddr → List UInt8} {events : List Event}

/-- An address is free as long as nobody has come in there. -/
theorem findSome_enters_eq_none {before : List Event} {addr : SocketAddr}
    (hfree : (run (step digest) start before).parties.lookup addr = none) :
    entered before addr = none := by
  rw [entered, List.findSome?_eq_none_iff]
  intro event hevent
  cases event with
  | enter other p =>
    rw [enters, if_neg]
    rintro rfl
    exact Exchange.lookup_run_ne_none _ _ hevent hfree
  | _ => rfl

theorem exists_enter {addr : SocketAddr} {id : NodeId} (h : entered events addr = some id) :
    ∃ p, .enter addr p ∈ events := by
  obtain ⟨event, hevent, henters⟩ := List.exists_of_findSome?_eq_some h
  cases event with
  | enter other p =>
    rw [enters] at henters
    split_ifs at henters with hother
    exact ⟨p, hother ▸ hevent⟩
  | _ => cases henters

/-- In a network whose joins name the nodes that are at the address of the join, every contact
in a table or a list of candidates, every node that a lookup returns and every node in a message
is a node of the network, at its address and under its identifier. -/
theorem contacts_are_nodes (hnew : NewNodes events)
    (hdraws : Meets (step digest) (DrawsNew digest) start events)
    (hjoins : ∀ addr bootstrapAddr, .act addr (.operation (.join bootstrapAddr)) ∈ events →
      entered events bootstrapAddr = some (NodeId.fromSocketAddr digest bootstrapAddr)) :
    let s := run (step digest) start events
    ContactsAre (fun id addr => ∃ p, s.parties.lookup addr = some p ∧ p.nodeId = id) s := by
  let T : Trust :=
    { value := fun _ _ => True, contact := fun id addr => entered events addr = some id }
  have hsound : Exchange.Sound T.invariant (run (step digest) start events) := by
    refine Trust.sound_run (meets_of_split ?_) hdraws
    rintro before event rest hsplit
    have hevent : event ∈ events := hsplit ▸ List.mem_append_right _ List.mem_cons_self
    constructor
    · rintro addr p rfl hfree
      obtain ⟨kind, id, rfl⟩ := hnew addr p hevent
      refine ⟨kind, id, rfl, ?_⟩
      show entered events addr = some id
      rw [hsplit, entered, List.findSome?_append, ← entered, findSome_enters_eq_none hfree,
        Option.none_or, List.findSome?_cons, enters, if_pos rfl]
      rfl
    · rintro addr operation rfl
      cases operation with
      | join bootstrapAddr => exact ⟨hjoins addr bootstrapAddr hevent, trivial⟩
      | _ => trivial
    · intros
      trivial
  refine (Trust.contactsAre hsound).mono ?_
  intro id addr hentered
  obtain ⟨peer, hpeer⟩ := exists_enter hentered
  have htaken := Exchange.lookup_run_ne_none (behaviour digest) start hpeer
  obtain ⟨p, hp⟩ := Option.ne_none_iff_exists'.mp htaken
  refine ⟨p, hp, ?_⟩
  have h := hsound.party addr p hp
  have hself : entered events p.rpc.localNode.addr = some p.rpc.localNode.id :=
    h.genuine.contact
  rw [h.self] at hself
  exact Option.some.inj (hself.symm.trans hentered)

/-- After the join each of the two nodes has the other one in its table. -/
theorem contacts_are_nodes_joinAndStore :
    let s := run (step twoDigests) start joinAndStore
    (s.parties.entries.all fun party => party.2.rpc.table.getAllNodes.length == 1) = true ∧
      ContactsAre (fun id addr => ∃ p, s.parties.lookup addr = some p ∧ p.nodeId = id) s := by
  refine ⟨by decide +kernel, contacts_are_nodes newNodes_joinAndStore drawsNew_joinAndStore ?_⟩
  intro addr bootstrapAddr hmem
  simp only [joinAndStore, newNode, List.mem_cons, Exchange.Event.act.injEq,
    Peer.Input.operation.injEq, Peer.Operation.join.injEq, reduceCtorEq, and_false, or_false,
    false_or, List.not_mem_nil] at hmem
  obtain ⟨-, rfl⟩ := hmem
  decide +kernel

/-! ## Responses -/

/-- The trust that asks for nothing. -/
def Trust.any : Trust := { value := fun _ _ => True, contact := fun _ _ => True }

theorem sound_any (hnew : NewNodes events)
    (hdraws : Meets (step digest) (DrawsNew digest) start events) :
    Exchange.Sound Trust.any.invariant (run (step digest) start events) := by
  refine Trust.sound_run (meets_of_forall ?_) hdraws
  intro s event hevent
  constructor
  · rintro addr p rfl -
    obtain ⟨kind, id, rfl⟩ := hnew addr p hevent
    exact ⟨kind, id, rfl, trivial⟩
  · rintro addr operation rfl
    cases operation with
    | join bootstrapAddr => exact ⟨trivial, trivial⟩
    | _ => trivial
  · intros
    trivial

/-- A response that a call has got was sent by the node that the call has asked, as an answer to
the very request of the call, and is of the kind that the call expects.  No query fails on the
type of its response. -/
theorem responses_answer_calls (hnew : NewNodes events)
    (hdraws : Meets (step digest) (DrawsNew digest) start events) {addr : SocketAddr} {p : Peer}
    (hp : (run (step digest) start events).parties.lookup addr = some p) {call : Rpc.Call}
    (hcall : call ∈ p.rpc.calls) {message : ResponseMessage} (hresponse : call.response = some message) :
    Trust.any.Answered (run (step digest) start events).sent addr p.rpc.localNode call message ∧
      (∀ target, call.rpc = .findNode target →
        ∃ nodes, (FindNode.Reply.response message).result = .ok nodes) ∧
      (∀ key, call.rpc = .findValue key →
        ∃ id sender value nodes, message = .valueFound id sender value nodes) := by
  have hsound := sound_any hnew hdraws
  obtain ⟨c, hc⟩ := List.mem_iff_getElem?.mp hcall
  have hanswered := ((hsound.party addr p hp).calls.calls c call hc).answered message hresponse
  have hanswers := hanswered.answers
  refine ⟨hanswered, ?_, ?_⟩
  · intro target hrpc
    rw [hrpc] at hanswers
    cases message with
    | nodesFound id sender nodes => exact ⟨nodes, rfl⟩
    | _ => exact absurd hanswers id
  · intro key hrpc
    rw [hrpc] at hanswers
    cases message with
    | valueFound id sender value nodes => exact ⟨id, sender, value, nodes, rfl⟩
    | _ => exact absurd hanswers id

/-- The call of the first node has its answer. -/
theorem responses_answer_calls_joinAndStore :
    let s := run (step twoDigests) start joinAndStore
    ∃ p call, s.parties.lookup firstAddr = some p ∧ call ∈ p.rpc.calls ∧
      Trust.any.Answered s.sent firstAddr p.rpc.localNode call
        (.storeResult 1 (Node.withAddr twoDigests secondAddr) true) := by
  have hresponse : (((run (step twoDigests) start joinAndStore).parties.lookup firstAddr).bind
      fun p => p.rpc.calls[0]?.bind Rpc.Call.response) =
        some (.storeResult 1 (Node.withAddr twoDigests secondAddr) true) := by
    decide +kernel
  obtain ⟨p, hp, hbind⟩ := Option.bind_eq_some_iff.mp hresponse
  obtain ⟨call, hcall, hmessage⟩ := Option.bind_eq_some_iff.mp hbind
  have hmem : call ∈ p.rpc.calls := List.mem_of_getElem? hcall
  exact ⟨p, call, hp, hmem,
    (responses_answer_calls newNodes_joinAndStore drawsNew_joinAndStore hp hmem hmessage).1⟩

/-- No message comes from nothing.  A node sends each request once at most, and for a call of its
own.  A response answers a request that has come the other way. -/
theorem messages_have_causes (hnew : NewNodes events)
    (hdraws : Meets (step digest) (DrawsNew digest) start events) :
    let s := run (step digest) start events
    (∀ addr, (Trust.requestIds addr s.sent).Nodup) ∧
    (∀ src dst request, { src := src, dst := dst, message := .request request } ∈ s.sent →
      ∃ p call, s.parties.lookup src = some p ∧ call ∈ p.rpc.calls ∧ call.node.addr = dst ∧
        call.rpc.request call.id p.rpc.localNode = request) ∧
    (∀ src dst response, { src := src, dst := dst, message := .response response } ∈ s.sent →
      ∃ request, { src := dst, dst := src, message := .request request } ∈ s.sent ∧
        Trust.any.Answers request response) := by
  intro s
  have hsound : Exchange.Sound Trust.any.invariant s := sound_any hnew hdraws
  refine ⟨?_, ?_, ?_⟩
  · intro addr
    cases hparty : s.parties.lookup addr with
    | some p => exact (hsound.party addr p hparty).calls.once
    | none =>
      have hnone : ∀ dst request,
          { src := addr, dst := dst, message := .request request } ∉ s.sent :=
        fun dst request hmem => hsound.src _ hmem hparty
      rw [Trust.requestIds_eq_nil hnone]
      exact List.nodup_nil
  · intro src dst request hmem
    obtain ⟨p, hp⟩ := Option.ne_none_iff_exists'.mp (hsound.src _ hmem)
    obtain ⟨c, call, hcall, hdst, hcarries, -⟩ :=
      (hsound.party src p hp).calls.requests dst request hmem
    exact ⟨p, call, hp, List.mem_of_getElem? hcall, hdst, hcarries⟩
  · intro src dst response hmem
    obtain ⟨-, -, request, hrequest, hanswers⟩ := hsound.packet _ hmem
    exact ⟨request, hrequest, hanswers⟩

theorem messages_have_causes_joinAndStore :
    (run (step twoDigests) start joinAndStore).sent.length = 2 ∧
      ∀ addr, (Trust.requestIds addr (run (step twoDigests) start joinAndStore).sent).Nodup :=
  ⟨by decide +kernel, (messages_have_causes newNodes_joinAndStore drawsNew_joinAndStore).1⟩

/-! ## Tables -/

/-- The table of a node at work is one that table operations lead to from the empty one, whatever
its processes do in between.  So every contact and every candidate is in the bucket of the first
bit in which it differs from the node, and the node itself is nowhere. -/
theorem tables_reached (hnew : NewNodes events)
    (hdraws : Meets (step digest) (DrawsNew digest) start events) {addr : SocketAddr} {p : Peer}
    (hp : (run (step digest) start events).parties.lookup addr = some p) :
    (∃ ops, p.rpc.table = run RoutingTable.step (.new p.nodeId) ops) ∧
      ∀ index b, p.rpc.table.buckets.lookup index = some b →
        index < keyLengthBits ∧ ∀ n ∈ b.nodes ++ b.replacementCache,
          n.id ≠ p.nodeId ∧ p.nodeId.bucketIndex n.id = some index := by
  have htable := ((sound_any hnew hdraws).party addr p hp).table
  refine ⟨htable.reached, ?_⟩
  obtain ⟨ops, hreached⟩ := htable.reached
  have hlocal : p.rpc.table.localNodeId = p.nodeId := by
    rw [hreached]
    exact (RoutingTable.run_params (RoutingTable.placed_withK p.nodeId K) ops).1
  have hsized : p.rpc.table.Sized K := by
    rw [hreached]
    exact invariant (P := (RoutingTable.Sized · K)) (fun _ op h => h.step op)
      (RoutingTable.sized_withK p.nodeId K) ops
  intro index b hlookup
  refine ⟨hsized.index_lt index b hlookup, ?_⟩
  intro n hn
  have hplaced := htable.placed.buckets index b hlookup
  rw [hlocal] at hplaced
  have hindex := List.forall_mem_append.mpr ⟨hplaced.nodes, hplaced.cache⟩ n hn
  exact ⟨NodeId.ne_of_bucketIndex hindex, hindex⟩

theorem tables_reached_joinAndStore :
    ∃ p, (run (step twoDigests) start joinAndStore).parties.lookup firstAddr = some p ∧
      p.rpc.table.getAllNodes.length = 1 ∧
      ∃ ops, p.rpc.table = run RoutingTable.step (.new p.nodeId) ops := by
  have hlength : ((run (step twoDigests) start joinAndStore).parties.lookup firstAddr).map
      (fun p => p.rpc.table.getAllNodes.length) = some 1 := by
    decide +kernel
  obtain ⟨p, hp, hone⟩ := Option.map_eq_some_iff.mp hlength
  exact ⟨p, hp, hone, (tables_reached newNodes_joinAndStore drawsNew_joinAndStore hp).1⟩

end System
end Kademlia
