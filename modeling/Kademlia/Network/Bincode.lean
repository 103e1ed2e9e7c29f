import Kademlia.Lib.Codec
import Kademlia.Protocol.Message

/-!
# The encoding of messages

The layout that `bincode` gives to the messages: numbers of a fixed width with the least
significant byte first, constructors numbered in four bytes, lists after their length in eight,
and records as their fields one after another.  Bytes after the message are ignored.

An IPv6 address travels without its flow information and scope, so that only messages
whose addresses have none are read back as they were.

The library itself is not modelled.  What holds of every message takes the serializer as a
parameter, and this layout serves the examples with concrete messages.
-/

namespace Kademlia

open Lib

namespace Bincode

def u8 : Codec UInt8 := (Codec.unsigned 1).map UInt8.ofNat UInt8.toNat

def u16 : Codec UInt16 := (Codec.unsigned 2).map UInt16.ofNat UInt16.toNat

def u32 : Codec UInt32 := (Codec.unsigned 4).map UInt32.ofNat UInt32.toNat

def u64 : Codec UInt64 := (Codec.unsigned 8).map UInt64.ofNat UInt64.toNat

def bool : Codec Bool :=
  .tagged 1 Bool.toNat
    [Codec.unit.variant (fun _ => false) (fun _ => some ()),
      Codec.unit.variant (fun _ => true) (fun _ => some ())]

def vec {α : Type} (codec : Codec α) : Codec (List α) := .list 8 codec

/-- The octets of an IP address. -/
def octets (width bits : Nat) : Codec (BitVec bits) :=
  (Codec.fixed width).map (fun bytes => BitVec.ofNat bits (BigEndian.ofBytes bytes))
    fun ip => BigEndian.toBytes width ip.toNat

def nodeId : Codec NodeId :=
  (Codec.fixed keyLengthBytes).map NodeId.fromBytes fun id => id.bytes.toList

def socketAddr : Codec SocketAddr :=
  .tagged 4
    (fun
      | .v4 .. => 0
      | .v6 .. => 1)
    [((octets 4 32).pair u16).variant (fun (ip, port) => .v4 ip port)
      (fun
        | .v4 ip port => some (ip, port)
        | _ => none),
      ((octets 16 128).pair u16).variant (fun (ip, port) => .v6 ip port 0 0)
        (fun
          | .v6 ip port _ _ => some (ip, port)
          | _ => none)]

def lastSeen : Codec LastSeen :=
  .tagged 4
    (fun
      | .never => 0
      | .at _ => 1)
    [Codec.unit.variant (fun _ => .never) (fun _ => some ()),
      (Codec.unsigned 8).variant (fun secs => .at secs)
        (fun
          | .at secs => some secs
          | _ => none)]

def responseStats : Codec ResponseStats :=
  (u32.pair (u32.pair (.option 1 u64))).map
    (fun (successes, failures, avg) =>
      { successes := successes, failures := failures, avgResponseTimeMs := avg })
    fun stats => (stats.successes, stats.failures, stats.avgResponseTimeMs)

def node : Codec Node :=
  (nodeId.pair (socketAddr.pair (lastSeen.pair responseStats))).map
    (fun (id, addr, seen, stats) =>
      { id := id, addr := addr, lastSeen := seen, responseStats := stats })
    fun node => (node.id, node.addr, node.lastSeen, node.responseStats)

def requestMessage : Codec RequestMessage :=
  .tagged 4
    (fun
      | .ping .. => 0
      | .store .. => 1
      | .findNode .. => 2
      | .findValue .. => 3)
    [(u64.pair node).variant (fun (id, sender) => .ping id sender)
      (fun
        | .ping id sender => some (id, sender)
        | _ => none),
      (u64.pair (node.pair (nodeId.pair (vec u8)))).variant
        (fun (id, sender, key, value) => .store id sender key value)
        (fun
          | .store id sender key value => some (id, sender, key, value)
          | _ => none),
      (u64.pair (node.pair nodeId)).variant (fun (id, sender, target) => .findNode id sender target)
        (fun
          | .findNode id sender target => some (id, sender, target)
          | _ => none),
      (u64.pair (node.pair nodeId)).variant (fun (id, sender, key) => .findValue id sender key)
        (fun
          | .findValue id sender key => some (id, sender, key)
          | _ => none)]

def responseMessage : Codec ResponseMessage :=
  .tagged 4
    (fun
      | .pong .. => 0
      | .storeResult .. => 1
      | .nodesFound .. => 2
      | .valueFound .. => 3)
    [(u64.pair node).variant (fun (id, sender) => .pong id sender)
      (fun
        | .pong id sender => some (id, sender)
        | _ => none),
      (u64.pair (node.pair bool)).variant
        (fun (id, sender, success) => .storeResult id sender success)
        (fun
          | .storeResult id sender success => some (id, sender, success)
          | _ => none),
      (u64.pair (node.pair (vec node))).variant
        (fun (id, sender, nodes) => .nodesFound id sender nodes)
        (fun
          | .nodesFound id sender nodes => some (id, sender, nodes)
          | _ => none),
      (u64.pair (node.pair ((Codec.option 1 (vec u8)).pair (vec node)))).variant
        (fun (id, sender, value, nodes) => .valueFound id sender value nodes)
        (fun
          | .valueFound id sender value nodes => some (id, sender, value, nodes)
          | _ => none)]

def kademliaMessage : Codec KademliaMessage :=
  .tagged 4
    (fun
      | .request _ => 0
      | .response _ => 1)
    [requestMessage.variant .request
      (fun
        | .request message => some message
        | _ => none),
      responseMessage.variant .response
        (fun
          | .response message => some message
          | _ => none)]

/-! ## Messages that are read back -/

theorem inverts_u8 (n : UInt8) : u8.Inverts n :=
  (Codec.inverts_unsigned (Nat.lt_of_lt_of_le n.toNat_lt (by decide))).map UInt8.ofNat_toNat

theorem inverts_u16 (n : UInt16) : u16.Inverts n :=
  (Codec.inverts_unsigned (Nat.lt_of_lt_of_le n.toNat_lt (by decide))).map UInt16.ofNat_toNat

theorem inverts_u32 (n : UInt32) : u32.Inverts n :=
  (Codec.inverts_unsigned (Nat.lt_of_lt_of_le n.toNat_lt (by decide))).map UInt32.ofNat_toNat

theorem inverts_u64 (n : UInt64) : u64.Inverts n :=
  (Codec.inverts_unsigned (Nat.lt_of_lt_of_le n.toNat_lt (by decide))).map UInt64.ofNat_toNat

theorem inverts_bool (b : Bool) : bool.Inverts b := by
  cases b with
  | false =>
    refine .tagged 0 ?_ rfl (by decide) rfl
    exact Codec.inverts_unit.variant rfl rfl
  | true =>
    refine .tagged 1 ?_ rfl (by decide) rfl
    exact Codec.inverts_unit.variant rfl rfl

theorem inverts_vec {α : Type} {codec : Codec α} {values : List α}
    (hlength : values.length < 256 ^ 8) (h : ∀ a ∈ values, codec.Inverts a) :
    (vec codec).Inverts values :=
  Codec.inverts_list hlength h

theorem inverts_octets {width bits : Nat} (h : 2 ^ bits ≤ 256 ^ width) (ip : BitVec bits) :
    (octets width bits).Inverts ip := by
  refine Codec.Inverts.map (Codec.inverts_fixed (BigEndian.length_toBytes width _)) ?_
  rw [BigEndian.ofBytes_toBytes (Nat.lt_of_lt_of_le ip.isLt h), BitVec.ofNat_toNat,
    BitVec.setWidth_eq]

theorem fromBytes_toList (id : NodeId) : NodeId.fromBytes id.bytes.toList = id := by
  obtain ⟨bytes⟩ := id
  refine congrArg NodeId.mk (Vector.ext fun i hi => ?_)
  rw [Vector.getElem_ofFn, List.getD_eq_getElem?_getD, Vector.getElem?_toList,
    Vector.getElem?_eq_getElem hi, Option.getD_some]

theorem inverts_nodeId (id : NodeId) : nodeId.Inverts id := by
  refine Codec.Inverts.map ?_ (fromBytes_toList id)
  exact Codec.inverts_fixed Vector.length_toList

theorem inverts_socketAddr {addr : SocketAddr} (h : addr.Plain) : socketAddr.Inverts addr := by
  cases addr with
  | v4 ip port =>
    refine .tagged 0 ?_ rfl (by decide) rfl
    exact ((inverts_octets (by decide) ip).pair (inverts_u16 port)).variant rfl rfl
  | v6 ip port flowinfo scopeId =>
    obtain ⟨rfl, rfl⟩ := h
    refine .tagged 1 ?_ rfl (by decide) rfl
    exact ((inverts_octets (by decide) ip).pair (inverts_u16 port)).variant rfl rfl

theorem inverts_lastSeen {seen : LastSeen} (h : seen.Plain) : lastSeen.Inverts seen := by
  cases seen with
  | never =>
    refine .tagged 0 ?_ rfl (by decide) rfl
    exact Codec.inverts_unit.variant rfl rfl
  | «at» secs =>
    refine .tagged 1 ?_ rfl (by decide) rfl
    exact (Codec.inverts_unsigned h).variant rfl rfl

theorem inverts_responseStats (stats : ResponseStats) : responseStats.Inverts stats := by
  have havg : (Codec.option 1 u64).Inverts stats.avgResponseTimeMs := by
    cases stats.avgResponseTimeMs with
    | none => exact Codec.inverts_none
    | some avg => exact (inverts_u64 avg).some Nat.zero_lt_one
  refine Codec.Inverts.map ?_ rfl
  exact (inverts_u32 stats.successes).pair ((inverts_u32 stats.failures).pair havg)

theorem inverts_node {n : Node} (h : n.Plain) : node.Inverts n := by
  refine Codec.Inverts.map ?_ rfl
  exact (inverts_nodeId n.id).pair ((inverts_socketAddr h.1).pair
    ((inverts_lastSeen h.2).pair (inverts_responseStats n.responseStats)))

theorem inverts_requestMessage {message : RequestMessage} (h : message.Plain) :
    requestMessage.Inverts message := by
  cases message with
  | ping id sender =>
    refine .tagged 0 ?_ rfl (by decide) rfl
    exact ((inverts_u64 id).pair (inverts_node h)).variant rfl rfl
  | store id sender key value =>
    have hvalue : (vec u8).Inverts value := inverts_vec h.2 fun byte _ => inverts_u8 byte
    refine .tagged 1 ?_ rfl (by decide) rfl
    exact ((inverts_u64 id).pair
      ((inverts_node h.1).pair ((inverts_nodeId key).pair hvalue))).variant rfl rfl
  | findNode id sender target =>
    refine .tagged 2 ?_ rfl (by decide) rfl
    exact ((inverts_u64 id).pair ((inverts_node h).pair (inverts_nodeId target))).variant rfl rfl
  | findValue id sender key =>
    refine .tagged 3 ?_ rfl (by decide) rfl
    exact ((inverts_u64 id).pair ((inverts_node h).pair (inverts_nodeId key))).variant rfl rfl

theorem inverts_responseMessage {message : ResponseMessage} (h : message.Plain) :
    responseMessage.Inverts message := by
  cases message with
  | pong id sender =>
    refine .tagged 0 ?_ rfl (by decide) rfl
    exact ((inverts_u64 id).pair (inverts_node h)).variant rfl rfl
  | storeResult id sender success =>
    refine .tagged 1 ?_ rfl (by decide) rfl
    exact ((inverts_u64 id).pair ((inverts_node h).pair (inverts_bool success))).variant rfl rfl
  | nodesFound id sender nodes =>
    obtain ⟨hsender, hlength, hnodes⟩ := h
    have hnodes : (vec node).Inverts nodes :=
      inverts_vec hlength fun node hnode => inverts_node (hnodes node hnode)
    refine .tagged 2 ?_ rfl (by decide) rfl
    exact ((inverts_u64 id).pair ((inverts_node hsender).pair hnodes)).variant rfl rfl
  | valueFound id sender value nodes =>
    obtain ⟨hsender, hvalue, hlength, hnodes⟩ := h
    have hvalue : (Codec.option 1 (vec u8)).Inverts value := by
      cases value with
      | none => exact Codec.inverts_none
      | some bytes =>
        exact (inverts_vec (hvalue bytes rfl) fun byte _ => inverts_u8 byte).some Nat.zero_lt_one
    have hnodes : (vec node).Inverts nodes :=
      inverts_vec hlength fun node hnode => inverts_node (hnodes node hnode)
    refine .tagged 3 ?_ rfl (by decide) rfl
    exact ((inverts_u64 id).pair
      ((inverts_node hsender).pair (hvalue.pair hnodes))).variant rfl rfl

theorem inverts_kademliaMessage {message : KademliaMessage} (h : message.Plain) :
    kademliaMessage.Inverts message := by
  cases message with
  | request message =>
    refine .tagged 0 ?_ rfl (by decide) rfl
    exact (inverts_requestMessage h).variant rfl rfl
  | response message =>
    refine .tagged 1 ?_ rfl (by decide) rfl
    exact (inverts_responseMessage h).variant rfl rfl

/-! ## Messages that are cut off -/

theorem extends_u8 : u8.Extends := (Codec.extends_unsigned 1).map _ _

theorem extends_u16 : u16.Extends := (Codec.extends_unsigned 2).map _ _

theorem extends_u32 : u32.Extends := (Codec.extends_unsigned 4).map _ _

theorem extends_u64 : u64.Extends := (Codec.extends_unsigned 8).map _ _

theorem extends_bool : bool.Extends := by
  refine Codec.Extends.tagged ?_ _ _
  rw [List.forall_mem_cons, List.forall_mem_singleton]
  exact ⟨Codec.extends_unit.variant _ _, Codec.extends_unit.variant _ _⟩

theorem extends_octets (width bits : Nat) : (octets width bits).Extends :=
  (Codec.extends_fixed width).map _ _

theorem extends_nodeId : nodeId.Extends := (Codec.extends_fixed keyLengthBytes).map _ _

theorem extends_socketAddr : socketAddr.Extends := by
  refine Codec.Extends.tagged ?_ _ _
  rw [List.forall_mem_cons, List.forall_mem_singleton]
  exact ⟨((extends_octets _ _).pair extends_u16).variant _ _,
    ((extends_octets _ _).pair extends_u16).variant _ _⟩

theorem extends_lastSeen : lastSeen.Extends := by
  refine Codec.Extends.tagged ?_ _ _
  rw [List.forall_mem_cons, List.forall_mem_singleton]
  exact ⟨Codec.extends_unit.variant _ _, (Codec.extends_unsigned 8).variant _ _⟩

theorem extends_responseStats : responseStats.Extends :=
  (extends_u32.pair (extends_u32.pair (extends_u64.option 1))).map _ _

theorem extends_node : node.Extends :=
  (extends_nodeId.pair
    (extends_socketAddr.pair (extends_lastSeen.pair extends_responseStats))).map _ _

theorem extends_requestMessage : requestMessage.Extends := by
  refine Codec.Extends.tagged ?_ _ _
  rw [List.forall_mem_cons, List.forall_mem_cons, List.forall_mem_cons, List.forall_mem_singleton]
  have hkeyed := extends_u64.pair (extends_node.pair extends_nodeId)
  have hstore := extends_u64.pair
    (extends_node.pair (extends_nodeId.pair (extends_u8.list 8)))
  exact ⟨(extends_u64.pair extends_node).variant _ _, hstore.variant _ _, hkeyed.variant _ _,
    hkeyed.variant _ _⟩

theorem extends_responseMessage : responseMessage.Extends := by
  refine Codec.Extends.tagged ?_ _ _
  rw [List.forall_mem_cons, List.forall_mem_cons, List.forall_mem_cons, List.forall_mem_singleton]
  have hstored := extends_u64.pair (extends_node.pair extends_bool)
  have hnodes := extends_u64.pair (extends_node.pair (extends_node.list 8))
  have hvalue := extends_u64.pair
    (extends_node.pair (((extends_u8.list 8).option 1).pair (extends_node.list 8)))
  exact ⟨(extends_u64.pair extends_node).variant _ _, hstored.variant _ _, hnodes.variant _ _,
    hvalue.variant _ _⟩

theorem extends_kademliaMessage : kademliaMessage.Extends := by
  refine Codec.Extends.tagged ?_ _ _
  rw [List.forall_mem_cons, List.forall_mem_singleton]
  exact ⟨extends_requestMessage.variant _ _, extends_responseMessage.variant _ _⟩

theorem length_encode_pos (message : KademliaMessage) :
    1 ≤ (kademliaMessage.encode message).length :=
  Nat.le_trans (by decide) (Codec.le_length_encode_tagged 4 _ _ message)

/-- What a value adds to the message that carries it. -/
theorem length_encode_store (id : MessageId) (sender : Node) (key : NodeId) (value : Value) :
    (kademliaMessage.encode (.request (.store id sender key value))).length =
      44 + (node.encode sender).length + value.length := by
  have hencode : kademliaMessage.encode (.request (.store id sender key value)) =
      (Codec.unsigned 4).encode 0 ++ ((Codec.unsigned 4).encode 1 ++
        ((Codec.unsigned 8).encode id.toNat ++ (node.encode sender ++
          (key.bytes.toList ++ (vec u8).encode value)))) := rfl
  have hvalue : ((vec u8).encode value).length = 8 + value.length * 1 :=
    Codec.length_encode_list fun byte _ => Codec.length_encode_unsigned 1 byte.toNat
  have hkey : key.bytes.toList.length = 20 := Vector.length_toList
  simp only [hencode, List.length_append, Codec.length_encode_unsigned, hkey, hvalue]
  omega

end Bincode

end Kademlia
