import Kademlia.Storage.Memory

/-!
# Messages

Requests carry an identifier of their own and responses that of the request they
answer.  Both carry the contact record of the node that sent them.
-/

namespace Kademlia

abbrev MessageId : Type := UInt64

inductive RequestMessage where
  | ping (id : MessageId) (sender : Node)
  | store (id : MessageId) (sender : Node) (key : NodeId) (value : Value)
  | findNode (id : MessageId) (sender : Node) (target : NodeId)
  | findValue (id : MessageId) (sender : Node) (key : NodeId)
deriving DecidableEq

inductive ResponseMessage where
  | pong (requestId : MessageId) (sender : Node)
  | storeResult (requestId : MessageId) (sender : Node) (success : Bool)
  | nodesFound (requestId : MessageId) (sender : Node) (nodes : List Node)
  | valueFound (requestId : MessageId) (sender : Node) (value : Option Value) (nodes : List Node)
deriving DecidableEq

inductive KademliaMessage where
  | request (message : RequestMessage)
  | response (message : ResponseMessage)
deriving DecidableEq

def RequestMessage.id : RequestMessage → MessageId
  | ping id _ | store id _ _ _ | findNode id _ _ | findValue id _ _ => id

def RequestMessage.sender : RequestMessage → Node
  | ping _ sender | store _ sender _ _ | findNode _ sender _ | findValue _ sender _ => sender

def ResponseMessage.requestId : ResponseMessage → MessageId
  | pong id _ | storeResult id _ _ | nodesFound id _ _ | valueFound id _ _ _ => id

def ResponseMessage.sender : ResponseMessage → Node
  | pong _ sender | storeResult _ sender _ | nodesFound _ sender _ | valueFound _ sender _ _ => sender

/-! ## Messages that travel as they are -/

/-- The flow information and the scope of an IPv6 address do not travel with it. -/
def SocketAddr.Plain : SocketAddr → Prop
  | .v4 .. => True
  | .v6 _ _ flowinfo scopeId => flowinfo = 0 ∧ scopeId = 0

/-- Times have 64 bits. -/
def LastSeen.Plain : LastSeen → Prop
  | .never => True
  | .at secs => secs < 256 ^ 8

def Node.Plain (node : Node) : Prop := node.addr.Plain ∧ node.lastSeen.Plain

def RequestMessage.Plain : RequestMessage → Prop
  | .ping _ sender | .findNode _ sender _ | .findValue _ sender _ => sender.Plain
  | .store _ sender _ value => sender.Plain ∧ value.length < 256 ^ 8

def ResponseMessage.Plain : ResponseMessage → Prop
  | .pong _ sender | .storeResult _ sender _ => sender.Plain
  | .nodesFound _ sender nodes =>
    sender.Plain ∧ nodes.length < 256 ^ 8 ∧ ∀ node ∈ nodes, node.Plain
  | .valueFound _ sender value nodes =>
    sender.Plain ∧ (∀ bytes, value = some bytes → bytes.length < 256 ^ 8) ∧
      nodes.length < 256 ^ 8 ∧ ∀ node ∈ nodes, node.Plain

def KademliaMessage.Plain : KademliaMessage → Prop
  | .request message => message.Plain
  | .response message => message.Plain

end Kademlia
