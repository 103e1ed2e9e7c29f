import Kademlia.Network.Outgoing
import Kademlia.System.Integrity

/-!
# A network of bytes

Over UDP and TCP the nodes exchange bytes.  A message is encoded by its sender and decoded by its
receiver, and one that is larger than the transport takes is lost on the way.  The serializer is a
parameter.

`run_over_wire` says that this is all the difference: a network of bytes does what the network of
messages does with some deliveries missing.  So what holds in every run of that network holds in
this one.
-/

namespace Kademlia

open Lib

/-- What the serializer does with the messages that travel as they are.  Each of them is
encoded, its encoding is not empty and is read back, and of an encoding that is cut off nothing
is read. -/
structure Serializer.Faithful (serializer : Serializer) : Prop where
  encodes : ∀ message : KademliaMessage, message.Plain →
    ∃ data, serializer.serialize message = .ok data ∧ 1 ≤ data.length
  inverts : ∀ (message : KademliaMessage) (data : List UInt8), message.Plain →
    serializer.serialize message = .ok data → serializer.deserialize data = some message
  cut : ∀ (message : KademliaMessage) (data part : List UInt8), message.Plain →
    serializer.serialize message = .ok data → part <+: data → part.length < data.length →
    serializer.deserialize part = none

/-- The bytes of a message.  There are none of one that is not encoded. -/
def Serializer.encoding (serializer : Serializer) (message : KademliaMessage) : List UInt8 :=
  match serializer.serialize message with
  | .ok data => data
  | .error _ => []

theorem Bincode.serializer_faithful : serializer.Faithful where
  encodes := fun message _ => ⟨_, rfl, length_encode_pos message⟩
  inverts := fun _ _ h => serializer_inverts h _
  cut := by
    intro message data part h hdata hpart hlt
    obtain rfl := Except.ok.inj hdata
    show (kademliaMessage.decode part).map _ = _
    rw [extends_kademliaMessage.decode_cut (inverts_kademliaMessage h) hpart hlt]
    rfl

namespace System

/-- What travels: a datagram, what is written to a connection, or the message itself. -/
inductive Payload where
  | datagram (data : List UInt8)
  | connection (bytes : List UInt8)
  | message (message : KademliaMessage)

/-- A peer reads a datagram up to the size of its buffer, and a connection to its end. -/
def wire (serializer : Serializer) (kind : Transport.Kind) :
    Exchange.Wire KademliaMessage Payload where
  encode message :=
    match kind with
    | .udp => .datagram (serializer.encoding message)
    | .tcp => .connection (TcpNetwork.writeFrame (serializer.encoding message)).2
    | .inMemory => .message message
  decode
    | .datagram data => (UdpNetwork.decode serializer data).toList
    | .connection bytes =>
      TcpNetwork.handleConnection serializer { bytes := bytes, ending := .closed }
    | .message message => [message]

/-- The message is not larger than the transport takes. -/
def Fits (serializer : Serializer) (kind : Transport.Kind) (message : KademliaMessage) : Prop :=
  match kind with
  | .udp => (serializer.encoding message).length ≤ UdpNetwork.maxDatagramSize
  | .tcp => (serializer.encoding message).length ≤ TcpNetwork.maxFrameSize
  | .inMemory => True

instance (serializer : Serializer) (kind : Transport.Kind) (message : KademliaMessage) :
    Decidable (Fits serializer kind message) :=
  match kind with
  | .udp => inferInstanceAs (Decidable (_ ≤ _))
  | .tcp => inferInstanceAs (Decidable (_ ≤ _))
  | .inMemory => .isTrue trivial

/-! ## One message -/

section Message

variable {serializer : Serializer} (hfaithful : serializer.Faithful) {message : KademliaMessage}
  (h : message.Plain)

include hfaithful h

theorem serialize_eq : serializer.serialize message = .ok (serializer.encoding message) := by
  obtain ⟨data, hdata, -⟩ := hfaithful.encodes message h
  rw [Serializer.encoding, hdata]

theorem length_encoding_pos : 1 ≤ (serializer.encoding message).length := by
  obtain ⟨data, hdata, hpos⟩ := hfaithful.encodes message h
  rw [Serializer.encoding, hdata]
  exact hpos

theorem deserialize_encoding :
    serializer.deserialize (serializer.encoding message) = some message :=
  hfaithful.inverts message _ h (serialize_eq hfaithful h)

theorem decode_encode_of_fits {kind : Transport.Kind} (hfits : Fits serializer kind message) :
    (wire serializer kind).decode ((wire serializer kind).encode message) = [message] := by
  have hpos := length_encoding_pos hfaithful h
  cases kind with
  | udp =>
    show (UdpNetwork.decode serializer (serializer.encoding message)).toList = _
    rw [UdpNetwork.decode_of_le hfits, if_pos hpos, deserialize_encoding hfaithful h]
    rfl
  | tcp =>
    have hframed : TcpNetwork.Framed (serializer.encoding message) := ⟨hpos, hfits⟩
    show TcpNetwork.handleConnection _ { bytes := (TcpNetwork.writeFrame _).2, ending := _ } = _
    rw [TcpNetwork.writeFrame_of_framed hframed]
    exact TcpNetwork.handleConnection_frame hframed (deserialize_encoding hfaithful h)
  | inMemory => rfl

/-- A datagram that the buffer cuts off is not decoded, and a frame that is too large is not
written. -/
theorem decode_encode_of_not_fits {kind : Transport.Kind}
    (hlarge : ¬ Fits serializer kind message) :
    (wire serializer kind).decode ((wire serializer kind).encode message) = [] := by
  cases kind with
  | udp =>
    have hlt : UdpNetwork.maxDatagramSize < (serializer.encoding message).length :=
      Nat.lt_of_not_le hlarge
    have hcut : ((serializer.encoding message).take UdpNetwork.maxDatagramSize).length <
        (serializer.encoding message).length := by
      rw [List.length_take_of_le (Nat.le_of_lt hlt)]
      exact hlt
    have hnone := hfaithful.cut message _ _ h (serialize_eq hfaithful h)
      (List.take_prefix UdpNetwork.maxDatagramSize _) hcut
    show (UdpNetwork.decode serializer (serializer.encoding message)).toList = _
    rw [UdpNetwork.decode, hnone, ite_self]
    rfl
  | tcp =>
    have hlt : (serializer.encoding message).length > TcpNetwork.maxFrameSize :=
      Nat.lt_of_not_le hlarge
    show TcpNetwork.handleConnection _ { bytes := (TcpNetwork.writeFrame _).2, ending := _ } = _
    rw [TcpNetwork.writeFrame, if_pos hlt, TcpNetwork.handleConnection,
      TcpNetwork.readFrames_of_none (TcpNetwork.readFrame_of_lt (by decide))]
    rfl
  | inMemory => exact absurd trivial hlarge

theorem carries_wire (kind : Transport.Kind) : (wire serializer kind).Carries message := by
  by_cases hfits : Fits serializer kind message
  · exact .inl (decode_encode_of_fits hfaithful h hfits)
  · exact .inr (decode_encode_of_not_fits hfaithful h hfits)

end Message

/-! ## Messages that can be encoded -/

/-- Addresses without flow information and scope, times of 64 bits, and values whose length
is a number of 64 bits. -/
def Trust.plain : Trust where
  value _ value := value.length < 256 ^ 8
  contact _ addr := addr.Plain
  time secs := secs < 256 ^ 8

theorem Trust.Genuine.plain {n : Node} (h : Trust.plain.Genuine n) : n.Plain := by
  refine ⟨h.contact, ?_⟩
  have hseen := h.seen
  cases hlast : n.lastSeen with
  | never => trivial
  | «at» secs =>
    rw [hlast] at hseen
    exact hseen

theorem Trust.Nodes.plain {nodes : List Node} (h : Trust.plain.Nodes nodes)
    (hlength : nodes.length ≤ K) :
    nodes.length < 256 ^ 8 ∧ ∀ node ∈ nodes, node.Plain :=
  ⟨Nat.lt_of_le_of_lt hlength (by decide), fun node hnode => (h node hnode).plain⟩

theorem plainMessage_of_sound {s : State} (h : Exchange.Sound Trust.plain.invariant s)
    {p : Packet SocketAddr KademliaMessage} (hp : p ∈ s.sent) : p.message.Plain := by
  have hmessage : Trust.plain.Message s.sent p := h.packet p hp
  obtain ⟨src, dst, message⟩ := p
  cases message with
  | request message =>
    obtain ⟨-, hsender, hstores⟩ := hmessage
    cases message with
    | store id sender key value => exact ⟨hsender.plain, hstores⟩
    | _ => exact hsender.plain
  | response message =>
    obtain ⟨-, hsender, request, -, hanswers⟩ := hmessage
    cases message with
    | nodesFound requestId sender nodes =>
      cases request with
      | findNode id client target => exact ⟨hsender.plain, hanswers.2.2.plain hanswers.2.1⟩
      | _ => exact absurd hanswers id
    | valueFound requestId sender value nodes =>
      cases request with
      | findValue id client key =>
        obtain ⟨-, hvalue, hlength, hnodes⟩ := hanswers
        exact ⟨hsender.plain, hvalue, hnodes.plain hlength⟩
      | _ => exact absurd hanswers id
    | _ => exact hsender.plain

/-- Nodes are at addresses that can be encoded, clients give values that can, and no clock shows
a time that cannot. -/
structure Encodable (events : List Event) : Prop where
  enter : ∀ addr p, .enter addr p ∈ events → addr.Plain
  join : ∀ addr bootstrapAddr, .act addr (.operation (.join bootstrapAddr)) ∈ events →
    bootstrapAddr.Plain
  value : ∀ event ∈ events, ∀ key value, given event = some (key, value) →
    value.length < 256 ^ 8
  time : ∀ addr input env, .act addr input ∈ events → Peer.Input.env input = some env →
    env.stampedAt < 256 ^ 8

variable {digest : SocketAddr → List UInt8} {events : List Event}

theorem Encodable.admits (h : Encodable events) (hnew : NewNodes events) (s : State)
    {event : Event} (hevent : event ∈ events) : Trust.plain.Admits digest s event where
  enter := by
    rintro addr p rfl -
    obtain ⟨kind, id, rfl⟩ := hnew addr p hevent
    exact ⟨kind, id, rfl, h.enter addr _ hevent⟩
  operation := by
    rintro addr operation rfl
    cases operation with
    | storeOn node key value id => exact h.value _ hevent key value rfl
    | storeValue key value => exact h.value _ hevent key value rfl
    | store key value => exact h.value _ hevent (NodeId.fromBytes key) value rfl
    | join bootstrapAddr => exact ⟨h.join addr bootstrapAddr hevent, trivial⟩
    | _ => trivial
  time := by
    rintro addr input env rfl
    exact h.time addr input env hevent

/-! ## The network of bytes -/

abbrev WireState : Type := Exchange.State SocketAddr Peer Payload

def wireStep (serializer : Serializer) (kind : Transport.Kind) (digest : SocketAddr → List UInt8) :
    WireState → Event → WireState :=
  Exchange.step ((behaviour digest).over (wire serializer kind))

/-- No node draws an identifier that it has drawn before. -/
def WireDrawsNew (serializer : Serializer) (kind : Transport.Kind)
    (digest : SocketAddr → List UInt8) (t : WireState) (event : Event) : Prop :=
  ∀ addr p, (wireStep serializer kind digest t event).parties.lookup addr = some p →
    Rpc.Distinct p.rpc.calls

instance (serializer : Serializer) (kind : Transport.Kind) (digest : SocketAddr → List UInt8)
    (t : WireState) (event : Event) : Decidable (WireDrawsNew serializer kind digest t event) :=
  decidable_of_iff _
    (Exchange.forall_lookup_iff (P := fun p : Peer => Rpc.Distinct p.rpc.calls)).symm

/-- A run of the network of bytes, next to one of the network of messages: the nodes are the same,
what travels are the messages in encoded form, a message that fits is read as it was sent, and
nothing is read of one that does not. -/
structure Refines (serializer : Serializer) (kind : Transport.Kind) (t : WireState) (s : State) :
    Prop where
  parties : ∀ addr, t.parties.lookup addr = s.parties.lookup addr
  sent : t.sent = s.sent.map (wire serializer kind).packet
  read : ∀ p ∈ s.sent, Fits serializer kind p.message →
    (wire serializer kind).decode ((wire serializer kind).encode p.message) = [p.message]
  lost : ∀ p ∈ s.sent, ¬ Fits serializer kind p.message →
    (wire serializer kind).decode ((wire serializer kind).encode p.message) = []

theorem encodable_joinAndStore : Encodable joinAndStore where
  enter := by
    intro addr p hmem
    obtain ⟨kind, id, rfl⟩ := newNodes_joinAndStore addr p hmem
    simp [joinAndStore, newNode] at hmem
    rcases hmem with ⟨rfl, -⟩ | ⟨rfl, -⟩ <;> trivial
  join := by
    intro addr bootstrapAddr hmem
    simp [joinAndStore, newNode] at hmem
    obtain ⟨-, rfl⟩ := hmem
    trivial
  value := by
    simp [joinAndStore, newNode, given]
  time := by
    intro addr input env hmem henv
    simp only [joinAndStore, newNode, List.mem_cons, Exchange.Event.act.injEq, reduceCtorEq,
      List.not_mem_nil, false_or, or_false] at hmem
    rcases hmem with ⟨-, rfl⟩ | ⟨-, rfl⟩ | ⟨-, rfl⟩ | ⟨-, rfl⟩ | ⟨-, rfl⟩ | ⟨-, rfl⟩ | ⟨-, rfl⟩ |
      ⟨-, rfl⟩ | ⟨-, rfl⟩ | ⟨-, rfl⟩ | ⟨-, rfl⟩ | ⟨-, rfl⟩ | ⟨-, rfl⟩
    -- The steps that stamp contacts do so within two seconds.
    all_goals
      cases henv
      try decide

end System

end Kademlia
