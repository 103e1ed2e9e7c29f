import Kademlia.Lib.Exchange
import Kademlia.Network.Join
import Kademlia.Network.Republish
import Kademlia.Protocol.PendingEntries

/-!
# A node at work

A node runs any number of operations at once.  Each is a process of its own, and one step of a
process is a critical section on the routing table or on the storage, or the start or the end
of a remote procedure call.  The calls run as in `Rpc`.

A caller waits for its call, and the sender of the response is recorded by a process beside
it.  A lookup of the refresh task is a `find_node` like any other.  A process that has panicked,
or was dropped by its caller, takes no further step.
-/

namespace Kademlia

open Lib

namespace System

/-- How far `handle_request` has come: it waits for `record_contact`, has looked for the value
of a `FIND_VALUE` request in vain, or has sent its response.  It then hands keys to a new
contact: it chooses a key, reads its value, and waits for the request that carries it. -/
inductive HandlePhase where
  | recording (record : Nat)
  | missed (isNewContact : Bool)
  | answered (isNewContact : Bool)
  | choosing (keys : List NodeId)
  | reading (key : NodeId) (keys : List NodeId)
  | storing (call : Nat) (keys : List NodeId)
  | finished

/-- How far a store has come: before and after its local write, in a loop over nodes, in a call
of the loop, between the loop of `store_value` and the one of `Node::store`, or at its end.
`direct` says that the loop is the second one. -/
inductive StorePhase where
  | arrived
  | stored
  | sending (nodes : List Node) (direct : Bool)
  | waiting (call : Nat) (nodes : List Node) (direct : Bool)
  | distributed
  | finished (result : Outcome Unit)

/-- A lookup of nodes before it has read the table, before a round, and in a round. -/
inductive SearchPhase where
  | arrived
  | searching (search : FindNode.State)
  | querying (search : FindNode.State) (calls : List Nat)
  | finished (nodes : List Node)

/-- How far `Node::join` has come: it waits for `record_contact` of the bootstrap node, for its
`ping`, for `record_contact` of the sender of the response, or for the lookup of its own
identifier. -/
inductive JoinPhase where
  | adding (record : Nat)
  | pinging (call : Nat)
  | recording (record : Nat)
  | searching (search : Nat)
  | finished

/-- The operations of a node.  `store` is `store_value`, and `Node::store` when `direct` is
set, and `calls` are the queries of a lookup that are not yet awaited. -/
inductive Process where
  | recordContact (node : Node) (phase : RecordContact.Phase) (check : Option Nat)
  | handleRequest (message : RequestMessage) (fromAddr : SocketAddr) (phase : HandlePhase)
  | store (direct : Bool) (key : NodeId) (value : Value) (phase : StorePhase)
  | republish (items : List (NodeId × Value)) (storing : Option Nat)
  | findValue (key : NodeId) (phase : FindValue.Phase) (calls : List Nat)
  | findNode (target : NodeId) (phase : SearchPhase)
  | join (bootstrapNode : Node) (phase : JoinPhase)

structure Peer where
  kind : Transport.Kind
  rpc : Rpc.State
  storage : MemoryStorage
  processes : List Process

abbrev Output : Type := SocketAddr × KademliaMessage

namespace Peer

def start (kind : Transport.Kind) (nodeId : NodeId) (addr : SocketAddr) : Peer :=
  { kind := kind, rpc := Rpc.start (Node.new nodeId addr) (.new nodeId), storage := .new,
    processes := [] }

def nodeId (p : Peer) : NodeId := p.rpc.localNode.id

def spawn (p : Peer) (process : Process) : Peer := { p with processes := p.processes ++ [process] }

def put (p : Peer) (i : Nat) (process : Process) : Peer :=
  { p with processes := p.processes.set i process }

def withTable (p : Peer) (table : RoutingTable) : Peer :=
  { p with rpc := { p.rpc with table := table } }

def withStorage (p : Peer) (storage : MemoryStorage) : Peer := { p with storage := storage }

def withRpc (p : Peer) (rpc : Rpc.State) : Peer := { p with rpc := rpc }

/-- A new call.  Its position is the number of calls before it. -/
def call (p : Peer) (rpc : Rpc) (node : Node) (id : MessageId) : Peer :=
  p.withRpc (Rpc.step p.kind p.rpc (.call rpc node id))

/-- One call for each node, with the identifiers by position. -/
def callEach (rpc : Rpc) : List Node → (Nat → MessageId) → Peer → Peer
  | [], _, p => p
  | node :: rest, ids, p => callEach rpc rest (fun i => ids (i + 1)) (p.call rpc node (ids 0))

/-- The positions of the next calls, one for each node. -/
def nextCalls (p : Peer) (nodes : List Node) : List Nat :=
  List.range' p.rpc.calls.length nodes.length

def callPhase (p : Peer) (c : Nat) : Option Rpc.Phase := p.rpc.calls[c]?.map Rpc.Call.phase

/-! ## Calls -/

/-- A step of a call.  It sends its request, and when it has recorded the success it has the
sender of its response recorded.  After a health check that is left to `record_contact`. -/
def stepCall (p : Peer) (c : Nat) (st : Rpc.Step) : Peer × List Output :=
  match p.rpc.calls[c]? with
  | none => (p, [])
  | some call =>
    let next := p.withRpc (Rpc.step p.kind p.rpc (.step c st))
    match call.phase, st with
    | .timed _ _, .send (.ok _) =>
      (next, [(call.node.addr, .request (call.rpc.request call.id p.rpc.localNode))])
    | .recorded, .finish _ =>
      if call.rpc = .healthCheckPing then (p, [])
      else
        match call.response with
        | some response => (next.spawn (.recordContact response.sender .arrived none), [])
        | none => (next, [])
    | _, _ => (next, [])

/-! ## `record_contact` -/

inductive RecordStep where
  | contact (env : Env)
  | check (id : MessageId)
  | checked
  | seen (env : Env)
  | evict (env : Env)
  | retry (env : Env)

/-- A critical section of `record_contact`. -/
def lock (p : Peer) (i : Nat) (node : Node) (phase : RecordContact.Phase) (check : Option Nat)
    (st : RecordContact.Step) : Peer :=
  let (table, phase) := RecordContact.next p.nodeId p.rpc.table node phase st
  (p.withTable table).put i (.recordContact node phase check)

def stepRecord (p : Peer) (i : Nat) (node : Node) (phase : RecordContact.Phase)
    (check : Option Nat) : RecordStep → Peer
  | .contact env => p.lock i node phase check (.contact env)
  | .seen env => p.lock i node phase check (.seen env)
  | .evict env => p.lock i node phase check (.evict env)
  | .retry env => p.lock i node phase check (.retry env)
  | .check id =>
    match phase, check with
    | .checking _ nodeToPing, none =>
      (p.call .healthCheckPing nodeToPing id).put i
        (.recordContact node phase (some p.rpc.calls.length))
    | _, _ => p
  | .checked =>
    match phase, check.bind p.callPhase with
    | .checking _ nodeToPing, some .recorded =>
      p.put i (.recordContact node (.answered nodeToPing) check)
    | .checking _ _, some (.finished (.fault fault)) =>
      p.put i (.recordContact node (.finished (.error fault)) check)
    | .checking wasKnown nodeToPing, some (.finished _) =>
      p.put i (.recordContact node (.failed wasKnown nodeToPing) check)
    | _, _ => p

/-! ## `handle_request` -/

inductive HandleStep where
  | respond (now : Instant) (sends : Bool)
  | answer (sends : Bool)
  | replicate (keys : List NodeId)
  | choose
  | read (now : Instant) (id : MessageId)
  | next

/-- The state that the handlers of the requests work on. -/
def handler (p : Peer) : HandleRequest.State :=
  { nodeId := p.nodeId, addr := p.rpc.localNode.addr, table := p.rpc.table, storage := p.storage }

/-- `handle_find_value` does not find the value, and goes on to read the table. -/
def misses (p : Peer) (now : Instant) : RequestMessage → Bool
  | .findValue _ _ key =>
    match p.storage.get now key with
    | .error (.err _) => true
    | _ => false
  | _ => false

/-- The response is handed to `send`, whose error ends the handler. -/
def reply (p : Peer) (i : Nat) (message : RequestMessage) (fromAddr : SocketAddr)
    (isNewContact sends : Bool) (response : ResponseMessage) : Peer × List Output :=
  if sends then
    (p.put i (.handleRequest message fromAddr (.answered isNewContact)),
      [(fromAddr, .response response)])
  else (p.put i (.handleRequest message fromAddr .finished), [])

def respond (p : Peer) (i : Nat) (message : RequestMessage) (fromAddr : SocketAddr)
    (isNewContact : Bool) (now : Instant) (sends : Bool) : Peer × List Output :=
  if p.misses now message then
    (p.put i (.handleRequest message fromAddr (.missed isNewContact)), [])
  else
    match p.handler.respond now message with
    | (.error _, _) => (p.put i (.handleRequest message fromAddr .finished), [])
    | (.ok response, s) =>
      (p.withStorage s.storage).reply i message fromAddr isNewContact sends response

def stepHandle (p : Peer) (i : Nat) (message : RequestMessage) (fromAddr : SocketAddr)
    (phase : HandlePhase) : HandleStep → Peer × List Output
  | .respond now sends =>
    match phase with
    | .recording record =>
      match p.processes[record]? with
      | some (.recordContact _ (.finished (.ok isNewContact)) _) =>
        p.respond i message fromAddr isNewContact now sends
      | some (.recordContact _ (.finished (.error _)) _) =>
        (p.put i (.handleRequest message fromAddr .finished), [])
      | _ => (p, [])
    | _ => (p, [])
  | .answer sends =>
    match phase, message with
    | .missed isNewContact, .findValue id _ key =>
      p.reply i message fromAddr isNewContact sends
        (.valueFound id p.rpc.localNode none (p.rpc.table.getClosest key K))
    | _, _ => (p, [])
  | .replicate keys =>
    match phase with
    | .answered true =>
      -- A hash map lists its keys in any order.
      if keys.Perm p.storage.keys then
        (p.put i (.handleRequest message fromAddr (.choosing keys)), [])
      else (p, [])
    | .answered false => (p.put i (.handleRequest message fromAddr .finished), [])
    | _ => (p, [])
  | .choose =>
    match phase with
    | .choosing [] => (p.put i (.handleRequest message fromAddr .finished), [])
    | .choosing (key :: keys) =>
      if (p.rpc.table.getClosest key K).any fun closest => closest.id == message.sender.id then
        (p.put i (.handleRequest message fromAddr (.reading key keys)), [])
      else (p.put i (.handleRequest message fromAddr (.choosing keys)), [])
    | _ => (p, [])
  | .read now id =>
    match phase with
    | .reading key keys =>
      match p.storage.get now key with
      | .ok value =>
        ((p.call (.store key value) message.sender id).put i
          (.handleRequest message fromAddr (.storing p.rpc.calls.length keys)), [])
      | .error (.err _) => (p.put i (.handleRequest message fromAddr (.choosing keys)), [])
      | .error _ => (p.put i (.handleRequest message fromAddr .finished), [])
    | _ => (p, [])
  | .next =>
    match phase with
    | .storing c keys =>
      match p.callPhase c with
      | some (.finished (.fault _)) => (p.put i (.handleRequest message fromAddr .finished), [])
      | some (.finished _) => (p.put i (.handleRequest message fromAddr (.choosing keys)), [])
      | _ => (p, [])
    | _ => (p, [])

/-! ## `store_value` and `Node::store` -/

inductive StoreStep where
  | write (now : Instant)
  | select
  | send (id : MessageId)
  | next
  | lapse

def stepStore (p : Peer) (i : Nat) (direct : Bool) (key : NodeId) (value : Value)
    (phase : StorePhase) : StoreStep → Peer
  | .write now =>
    match phase with
    | .arrived =>
      (p.withStorage (p.storage.store now key value).2).put i (.store direct key value .stored)
    | _ => p
  | .select =>
    match phase with
    | .stored =>
      p.put i (.store direct key value (.sending (FindValue.firstNodes p.rpc.table key) false))
    | .distributed =>
      p.put i (.store direct key value (.sending p.rpc.table.getAllNodes true))
    | _ => p
  | .send id =>
    match phase with
    | .sending [] second =>
      if direct && !second then p.put i (.store direct key value .distributed)
      else p.put i (.store direct key value (.finished (.ok ())))
    | .sending (node :: nodes) second =>
      if node.id = p.nodeId then p.put i (.store direct key value (.sending nodes second))
      else
        (p.call (.store key value) node id).put i
          (.store direct key value (.waiting p.rpc.calls.length nodes second))
    | _ => p
  | .next =>
    match phase with
    | .waiting c nodes second =>
      match p.callPhase c with
      | some (.finished (.fault fault)) => p.put i (.store direct key value (.finished (.error fault)))
      | some (.finished _) => p.put i (.store direct key value (.sending nodes second))
      -- The timeout around the call has dropped it.
      | some .dropped => p.put i (.store direct key value (.sending nodes second))
      | _ => p
    | _ => p
  -- The timeout of `Node::store` drops `store_value` wherever it stands.
  | .lapse =>
    match phase with
    | .arrived | .stored | .sending _ false | .waiting _ _ false =>
      if direct then p.put i (.store direct key value .distributed) else p
    | _ => p

/-! ## A pass of the republish task -/

inductive RepublishStep where
  | storeValue
  | next

def stepRepublish (p : Peer) (i : Nat) (items : List (NodeId × Value)) (storing : Option Nat) :
    RepublishStep → Peer
  | .storeValue =>
    match items, storing with
    | (key, value) :: items, none =>
      (p.spawn (.store false key value .arrived)).put i
        (.republish items (some p.processes.length))
    | _, _ => p
  | .next =>
    match storing.bind fun j => p.processes[j]? with
    | some (.store _ _ _ (.finished (.ok _))) => p.put i (.republish items none)
    | _ => p

/-! ## `find_value` -/

inductive LookupStep where
  | check (now : Instant)
  | select
  | query (ids : Nat → MessageId)
  | await (recorded : Bool)
  | collect
  | cache (now : Instant)

def lookup (p : Peer) (key : NodeId) (phase : FindValue.Phase) : FindValue.State :=
  { nodeId := p.nodeId, key := key, table := p.rpc.table, storage := p.storage, phase := phase,
    written := none }

/-- A step of the lookup on the table and the storage of the node. -/
def advance (p : Peer) (i : Nat) (key : NodeId) (phase : FindValue.Phase) (calls : List Nat)
    (st : FindValue.Step) : Peer :=
  let s := (p.lookup key phase).advance st
  (p.withStorage s.storage).put i (.findValue key s.phase calls)

/-- How a query has ended, if it has.  `recorded` says that recording the sender of the
response has not failed. -/
def valueReply (call : Rpc.Call) (recorded : Bool) : Option FindValue.Reply :=
  match call.phase, call.response with
  | .finished .response, some message => some (if recorded then .response message else .failed)
  | .finished .timedOut, _ => some .timedOut
  | .finished _, _ => some .failed
  | _, _ => none

def stepLookup (p : Peer) (i : Nat) (key : NodeId) (phase : FindValue.Phase) (calls : List Nat) :
    LookupStep → Peer
  | .check now => p.advance i key phase calls (.check now)
  | .select => p.advance i key phase calls .select
  | .query ids =>
    match phase, ((p.lookup key phase).advance .query).phase with
    | .searching _ _ _, .querying iteration closestNodes visited tasks found =>
      (callEach (.findValue key) tasks ids p).put i
        (.findValue key (.querying iteration closestNodes visited tasks found) (p.nextCalls tasks))
    | _, phase => p.put i (.findValue key phase calls)
  | .await recorded =>
    match calls with
    | [] => p
    | c :: rest =>
      match p.rpc.calls[c]?.bind (valueReply · recorded) with
      | none => p
      | some reply => p.advance i key phase rest (.await reply)
  | .collect => p.advance i key phase calls .collect
  | .cache now => p.advance i key phase calls (.cache now)

/-! ## `find_node` -/

inductive SearchStep where
  | select
  | query (ids : Nat → MessageId)
  | join (recorded : Nat → Except Error Unit)

/-- How a query has ended, if it has. -/
def nodeReply (call : Rpc.Call) (recorded : Except Error Unit) : Option FindNode.Reply :=
  match call.phase, call.response with
  | .finished .response, some message =>
    match recorded with
    | .ok _ => some (.response message)
    | .error error => some (.failed error)
  | .finished .timedOut, _ => some .timedOut
  | .finished (.sendError error), _ => some (.failed error)
  | .finished (.waitError error), _ => some (.failed error)
  | _, _ => none

/-- The replies of a round, when all its queries have ended. -/
def nodeReplies (p : Peer) : (Nat → Except Error Unit) → List Nat → Option (List FindNode.Reply)
  | _, [] => some []
  | recorded, c :: rest =>
    match p.rpc.calls[c]?.bind (nodeReply · (recorded 0)),
      p.nodeReplies (fun i => recorded (i + 1)) rest with
    | some reply, some replies => some (reply :: replies)
    | _, _ => none

def stepSearch (p : Peer) (i : Nat) (target : NodeId) (phase : SearchPhase) : SearchStep → Peer
  | .select =>
    match phase with
    | .arrived =>
      p.put i (.findNode target
        (.searching (FindNode.start p.nodeId (p.rpc.table.getClosest target K))))
    | _ => p
  | .query ids =>
    match phase with
    | .searching search =>
      if search.Searching then
        let tasks := search.closestNodes.take search.active
        (callEach (.findNode target) tasks ids p).put i
          (.findNode target (.querying search (p.nextCalls tasks)))
      else p.put i (.findNode target (.finished search.closestNodes))
    | _ => p
  | .join recorded =>
    match phase with
    | .querying search calls =>
      match p.nodeReplies recorded calls with
      | none => p
      | some replies =>
        p.put i (.findNode target
          (.searching (search.round target fun idx => replies.getD idx .timedOut)))
    | _ => p

/-! ## `join` -/

inductive JoinStep where
  | ping (id : MessageId)
  | record (recorded : Bool)
  | search
  | done

/-- `recorded` says that the `ping` has not failed when it recorded the sender itself. -/
def stepJoin (p : Peer) (i : Nat) (bootstrapNode : Node) (phase : JoinPhase) : JoinStep → Peer
  | .ping id =>
    match phase with
    | .adding record =>
      match p.processes[record]? with
      | some (.recordContact _ (.finished (.ok _)) _) =>
        (p.call .ping bootstrapNode id).put i (.join bootstrapNode (.pinging p.rpc.calls.length))
      | some (.recordContact _ (.finished (.error _)) _) => p.put i (.join bootstrapNode .finished)
      | _ => p
    | _ => p
  | .record recorded =>
    match phase with
    | .pinging c =>
      match p.callPhase c, p.rpc.calls[c]?.bind Rpc.Call.response with
      | some (.finished .response), some response =>
        if recorded then
          (p.spawn (.recordContact response.sender .arrived none)).put i
            (.join bootstrapNode (.recording p.processes.length))
        else p.put i (.join bootstrapNode .finished)
      | some (.finished _), _ => p.put i (.join bootstrapNode .finished)
      | _, _ => p
    | _ => p
  | .search =>
    match phase with
    | .recording record =>
      match p.processes[record]? with
      | some (.recordContact _ (.finished (.ok _)) _) =>
        (p.spawn (.findNode p.nodeId .arrived)).put i
          (.join bootstrapNode (.searching p.processes.length))
      | some (.recordContact _ (.finished (.error _)) _) => p.put i (.join bootstrapNode .finished)
      | _ => p
    | _ => p
  | .done =>
    match phase with
    | .searching search =>
      match p.processes[search]? with
      | some (.findNode _ (.finished _)) => p.put i (.join bootstrapNode .finished)
      | _ => p
    | _ => p

/-! ## The node as a party -/

/-- What clients and background tasks start.  The first three are the calls that a client may
make on its own. -/
inductive Operation where
  | ping (node : Node) (id : MessageId)
  | storeOn (node : Node) (key : NodeId) (value : Value) (id : MessageId)
  | findValueRpc (node : Node) (key : NodeId) (id : MessageId)
  | storeValue (key : NodeId) (value : Value)
  | store (key : List UInt8) (value : Value)
  | findValue (key : NodeId)
  | findNode (target : NodeId)
  | join (bootstrapAddr : SocketAddr)
  | republish (now : Instant) (keys : List NodeId)
  | cleanup (now : Instant)

inductive Input where
  | operation (operation : Operation)
  | call (c : Nat) (st : Rpc.Step)
  | record (i : Nat) (st : RecordStep)
  | handle (i : Nat) (st : HandleStep)
  | store (i : Nat) (st : StoreStep)
  | republish (i : Nat) (st : RepublishStep)
  | lookup (i : Nat) (st : LookupStep)
  | search (i : Nat) (st : SearchStep)
  | join (i : Nat) (st : JoinStep)

def begin (digest : SocketAddr → List UInt8) (p : Peer) : Operation → Peer
  | .ping node id => p.call .ping node id
  | .storeOn node key value id => p.call (.store key value) node id
  | .findValueRpc node key id => p.call (.findValue key) node id
  | .storeValue key value => p.spawn (.store false key value .arrived)
  | .store key value => p.spawn (.store true (NodeId.fromBytes key) value .arrived)
  | .findValue key => p.spawn (.findValue key .arrived [])
  | .findNode target => p.spawn (.findNode target .arrived)
  | .join bootstrapAddr =>
    let bootstrapNode := Node.withAddr digest bootstrapAddr
    (p.spawn (.recordContact bootstrapNode .arrived none)).spawn
      (.join bootstrapNode (.adding p.processes.length))
  | .republish now keys =>
    if keys.Perm p.storage.keys then
      match Republish.snapshotPairs p.storage now keys with
      | .error _ => p
      | .ok items => p.spawn (.republish items none)
    else p
  | .cleanup now => p.withStorage (p.storage.cleanup now).2

/-- A step of process `i`, if it is one of the right kind. -/
def act (digest : SocketAddr → List UInt8) (p : Peer) : Input → Peer × List Output
  | .operation operation => (p.begin digest operation, [])
  | .call c st => p.stepCall c st
  | .record i st =>
    match p.processes[i]? with
    | some (.recordContact node phase check) => (p.stepRecord i node phase check st, [])
    | _ => (p, [])
  | .handle i st =>
    match p.processes[i]? with
    | some (.handleRequest message fromAddr phase) => p.stepHandle i message fromAddr phase st
    | _ => (p, [])
  | .store i st =>
    match p.processes[i]? with
    | some (.store direct key value phase) => (p.stepStore i direct key value phase st, [])
    | _ => (p, [])
  | .republish i st =>
    match p.processes[i]? with
    | some (.republish items storing) => (p.stepRepublish i items storing st, [])
    | _ => (p, [])
  | .lookup i st =>
    match p.processes[i]? with
    | some (.findValue key phase calls) => (p.stepLookup i key phase calls st, [])
    | _ => (p, [])
  | .search i st =>
    match p.processes[i]? with
    | some (.findNode target phase) => (p.stepSearch i target phase st, [])
    | _ => (p, [])
  | .join i st =>
    match p.processes[i]? with
    | some (.join bootstrapNode phase) => (p.stepJoin i bootstrapNode phase st, [])
    | _ => (p, [])

/-- Where the response to a request goes.  A TCP connection is not answered on, so its
requests are answered at the address that they name. -/
def replyAddr (kind : Transport.Kind) (src : SocketAddr) (message : RequestMessage) : SocketAddr :=
  match kind with
  | .tcp => message.sender.addr
  | .udp | .inMemory => src

def receive (p : Peer) (packet : Packet SocketAddr KademliaMessage) : Peer × List Output :=
  match packet.message with
  | .request message =>
    ((p.spawn (.recordContact message.sender .arrived none)).spawn
      (.handleRequest message (replyAddr p.kind packet.src message)
        (.recording p.processes.length)), [])
  | .response message => (p.withRpc (Rpc.step p.kind p.rpc (.incoming message)), [])

end Peer

/-- The nodes of a network. -/
def behaviour (digest : SocketAddr → List UInt8) :
    Exchange.Behaviour SocketAddr Peer Peer.Input KademliaMessage where
  act := Peer.act digest
  receive := Peer.receive

abbrev State : Type := Exchange.State SocketAddr Peer KademliaMessage

abbrev Event : Type := Exchange.Event SocketAddr Peer Peer.Input

def step (digest : SocketAddr → List UInt8) : State → Event → State :=
  Exchange.step (behaviour digest)

def start : State := Exchange.start

end System

end Kademlia
