import Kademlia.Protocol.RecordContact
import Kademlia.Protocol.Rpc
import Kademlia.Routing.Closest

/-!
# Requests handled one after another

A node that handles a request records the sender as a contact, answers, and hands the
keys it is responsible for to a contact that is new.  What happens outside the node in
the meantime is given with the request: how the health check of a contact ends, and how
the requests to the new contact end.

An integer overflow panics in a build that checks for it.  A handler that panics before
it answers sends no response, and the node goes on with the next request.
-/

namespace Kademlia

open Lib

namespace RecordContact

/-- How a health check ends, with the surroundings of the steps after it. -/
inductive Check where
  | answered (env : Env) (responseTimeMs : UInt64) (seen : Env)
  | timedOut (env evict retry : Env)
  | failed (evict retry : Env)

def Check.steps : Check → List Step
  | answered env responseTimeMs seen => [.answer env responseTimeMs, .seen seen]
  | timedOut env evict retry => [.timeout env, .evict evict, .retry retry]
  | failed evict retry => [.error, .evict evict, .retry retry]

/-- What a call reads from its surroundings.  `timeout` are those in which the health check
chooses its timeout. -/
structure Input where
  env : Env
  timeout : Env
  check : Check

/-- A call that nothing interrupts. -/
def recordContact (nodeId : NodeId) (t : RoutingTable) (node : Node) (input : Input) :
    RoutingTable × Phase :=
  match contact nodeId t input.env node with
  | (t, .checking wasKnown nodeToPing) =>
    match Rpc.healthCheckPing.timeouts t input.timeout nodeToPing with
    | .error fault => (t, .finished (.error fault))
    | .ok _ =>
      run (fun call st => next nodeId call.1 node call.2 st) (t, .checking wasKnown nodeToPing)
        input.check.steps
  | result => result

end RecordContact

namespace HandleRequest

open RecordContact (recordContact)

/-- How a `store` request to a new contact ends. -/
inductive StoreEnd where
  | failed
  | timedOut (env : Env)
  | answered (env : Env) (responseTimeMs : UInt64) (sender : Node) (contact : RecordContact.Input)

/-- What the replication of a key reads from its surroundings. -/
structure StoreInput where
  now : Instant
  timeout : Env
  ending : StoreEnd

structure Input where
  message : RequestMessage
  fromAddr : SocketAddr
  contact : RecordContact.Input
  now : Instant
  replication : NodeId → StoreInput

structure State where
  nodeId : NodeId
  addr : SocketAddr
  table : RoutingTable
  storage : MemoryStorage

def start (nodeId : NodeId) (addr : SocketAddr) : State :=
  { nodeId := nodeId, addr := addr, table := .new nodeId, storage := .new }

def State.localNode (s : State) : Node := Node.new s.nodeId s.addr

def State.handlePing (s : State) (id : MessageId) : ResponseMessage := .pong id s.localNode

def State.handleStore (s : State) (now : Instant) (id : MessageId) (key : NodeId) (value : Value) :
    ResponseMessage × State :=
  let (result, storage) := s.storage.store now key value
  let success := match result with
    | .ok _ => true
    | .error _ => false
  (.storeResult id s.localNode success, { s with storage := storage })

def State.handleFindNode (s : State) (id : MessageId) (target : NodeId) : ResponseMessage :=
  .nodesFound id s.localNode (s.table.getClosest target K)

def State.handleFindValue (s : State) (now : Instant) (id : MessageId) (key : NodeId) :
    Outcome ResponseMessage :=
  match s.storage.get now key with
  | .ok value => .ok (.valueFound id s.localNode (some value) [])
  | .error (.panic message) => .error (.panic message)
  | .error _ => .ok (.valueFound id s.localNode none (s.table.getClosest key K))

/-- The handler of a request and the response it sends. -/
def State.respond (s : State) (now : Instant) : RequestMessage → Outcome ResponseMessage × State
  | .ping id _ => (.ok (s.handlePing id), s)
  | .store id _ key value =>
    let (response, s) := s.handleStore now id key value
    (.ok response, s)
  | .findNode id _ target => (.ok (s.handleFindNode id target), s)
  | .findValue id _ key => (s.handleFindValue now id key, s)

/-- The end of a `store` request, of which only a panic stops the replication. -/
def storeEnd (nodeId : NodeId) (t : RoutingTable) (node : Node) :
    StoreEnd → Outcome Unit × RoutingTable
  | .failed => (.ok (), t)
  | .timedOut env =>
    match t.recordFailure env node.id with
    | (.error (.panic message), t) => (.error (.panic message), t)
    | (_, t) => (.ok (), t)
  | .answered env responseTimeMs sender contact =>
    match t.recordSuccess env node.id responseTimeMs with
    | (.error (.panic message), t) => (.error (.panic message), t)
    | (_, t) =>
      match recordContact nodeId t sender contact with
      | (t, .finished (.error (.panic message))) => (.error (.panic message), t)
      | (t, _) => (.ok (), t)

/-- The replication of one key. -/
def State.replicate (s : State) (t : RoutingTable) (node : Node) (key : NodeId)
    (input : StoreInput) :
    Outcome Unit × RoutingTable :=
  if (t.getClosest key K).any fun closest => closest.id == node.id then
    match s.storage.get input.now key with
    | .error (.panic message) => (.error (.panic message), t)
    | .error _ => (.ok (), t)
    | .ok value =>
      match (Rpc.store key value).timeouts t input.timeout node with
      | .error fault => (.error fault, t)
      | .ok _ => storeEnd s.nodeId t node input.ending
  else (.ok (), t)

def State.replicateKeys (s : State) (node : Node) (inputs : NodeId → StoreInput) :
    List NodeId → RoutingTable → RoutingTable
  | [], t => t
  | key :: rest, t =>
    match s.replicate t node key (inputs key) with
    | (.error _, t) => t
    | (.ok _, t) => s.replicateKeys node inputs rest t

def State.replicateToNewNode (s : State) (node : Node) (inputs : NodeId → StoreInput) : State :=
  { s with table := s.replicateKeys node inputs s.storage.keys s.table }

/-- The state after a request and the responses sent, each with the address it goes to. -/
def State.handleRequest (s : State) (input : Input) : State × List (SocketAddr × ResponseMessage) :=
  let sender := input.message.sender
  match recordContact s.nodeId s.table sender input.contact with
  | (t, .finished (.ok isNewContact)) =>
    match { s with table := t }.respond input.now input.message with
    | (.error _, s) => (s, [])
    | (.ok response, s) =>
      (if isNewContact then s.replicateToNewNode sender input.replication else s,
        [(input.fromAddr, response)])
  | (t, _) => ({ s with table := t }, [])

inductive Event where
  | request (input : Input)
  | cleanup (now : Instant)

/-- The reading of the clock by the storage. -/
def Event.time : Event → Instant
  | request input => input.now
  | cleanup now => now

def step (s : State) : Event → State
  | .request input => (s.handleRequest input).1
  | .cleanup now => { s with storage := (s.storage.cleanup now).2 }

def responses (s : State) : Event → List (SocketAddr × ResponseMessage)
  | .request input => (s.handleRequest input).2
  | .cleanup _ => []

end HandleRequest

end Kademlia
