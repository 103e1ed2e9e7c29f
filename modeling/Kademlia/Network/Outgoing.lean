import Kademlia.Network.Bincode
import Kademlia.Network.Frame

/-!
# From `send` to the loop of the peer

`send` encodes a message and puts it into the queue of a background task, and its result is
decided there.  How large a message may be is decided later: by the socket and by
`write_frame` in the task, which only log what they refuse, and by the receive loop of the
peer.  So a message that is too large is accepted and never arrives.

The encoding is a parameter, and reads back the message that is sent.
-/

namespace Kademlia

/-- `bincode::serialize`, with the text of its error, and `bincode::deserialize`. -/
structure Serializer where
  serialize : KademliaMessage → Except String (List UInt8)
  deserialize : List UInt8 → Option KademliaMessage

/-- The serializer with the encoding of messages, which is never refused. -/
def Bincode.serializer : Serializer where
  serialize message := .ok (kademliaMessage.encode message)
  deserialize bytes := (kademliaMessage.decode bytes).map Prod.fst

/-- The channel to the task that sends, when it has a free place.  It is closed once the task
has ended. -/
structure Channel where
  queue : List (SocketAddr × List UInt8)
  closed : Bool

namespace Outgoing

/-- `send` of both transports, which differ in the text for a closed channel. -/
def enqueue (serializer : Serializer) (refused : String) (sender : Channel) (addr : SocketAddr)
    (message : KademliaMessage) : Outcome Unit × Channel :=
  match serializer.serialize message with
  | .error text => (.error (.err (.other ("Serialization error: " ++ text))), sender)
  | .ok data =>
    if sender.closed then (.error (.err (.network refused)), sender)
    else (.ok (), { sender with queue := sender.queue ++ [(addr, data)] })

/-- The loop of `handle_outgoing` from a turn on: what it puts on the network for each address. -/
def handleOutgoing {γ : Type} (transmit : Nat → SocketAddr → List UInt8 → Option γ) :
    Nat → List (SocketAddr × List UInt8) → List (SocketAddr × γ)
  | _, [] => []
  | turn, (addr, data) :: rest =>
    match transmit turn addr data with
    | some sent => (addr, sent) :: handleOutgoing transmit (turn + 1) rest
    | none => handleOutgoing transmit (turn + 1) rest

/-- What arrives at an address. -/
def arriving {γ : Type} (addr : SocketAddr) (sent : List (SocketAddr × γ)) : List γ :=
  sent.filterMap fun item => if item.1 = addr then some item.2 else none

/-- A message is accepted only if its encoding fits and is decoded, and is refused with an
error if it does not fit. -/
def Promised (serializer : Serializer) (message : KademliaMessage) (result : Outcome Unit)
    (fits : List UInt8 → Prop) (decoded : Prop) : Prop :=
  (result = .ok () →
    (∃ data, serializer.serialize message = .ok data ∧ fits data) ∧ decoded) ∧
  ∀ data, serializer.serialize message = .ok data → ¬ fits data →
    ∃ error, result = .error (.err error)

/-- If the message is encoded and the channel takes it, its encoding is neither empty nor
longer than the limit. -/
def WithinLimit (serializer : Serializer) (limit : Nat) (sender : Channel)
    (message : KademliaMessage) : Prop :=
  ∀ data, serializer.serialize message = .ok data → sender.closed = false →
    1 ≤ data.length ∧ data.length ≤ limit

end Outgoing

open Outgoing

namespace UdpNetwork

def maxDatagramSize : Nat := 65507

def maxRetries : Nat := 3

/-- The network under the sockets: whether an attempt of a turn to send a datagram succeeds,
and what arrives of it. -/
structure Link where
  sendTo : Nat → Nat → SocketAddr → List UInt8 → Bool
  carry : Nat → List UInt8 → Option (List UInt8)

def send : Serializer → Channel → SocketAddr → KademliaMessage → Outcome Unit × Channel :=
  fun serializer => enqueue serializer "Failed to send message"

/-- The retry loop for one message.  When the last attempt fails, that is logged. -/
def transmit (link : Link) (turn : Nat) (addr : SocketAddr) (data : List UInt8) :
    Option (List UInt8) :=
  if (List.range maxRetries).any fun n => link.sendTo turn (n + 1) addr data then
    link.carry turn data
  else none

/-- One turn of the loop of `handle_incoming`, up to the message.  `recv_from` keeps what
fits in the buffer. -/
def decode (serializer : Serializer) (datagram : List UInt8) : Option KademliaMessage :=
  let buf := datagram.take maxDatagramSize
  if buf.length > 0 then serializer.deserialize buf else none

/-- What the peer at an address makes of each datagram that the queue puts on the network. -/
def received (serializer : Serializer) (link : Link) (addr : SocketAddr) (turn : Nat)
    (queue : List (SocketAddr × List UInt8)) : List (Option KademliaMessage) :=
  (arriving addr (handleOutgoing (transmit link) turn queue)).map (decode serializer)

/-- The link takes every datagram of at most the maximal size and delivers it. -/
def Link.Works (link : Link) : Prop :=
  ∀ turn addr data, data.length ≤ maxDatagramSize →
    (∃ n, n < maxRetries ∧ link.sendTo turn (n + 1) addr data = true) ∧
      link.carry turn data = some data

/-- On a working link the peer decodes the message after those before it in the queue, and
before those that come later. -/
def Decoded (serializer : Serializer) (sender : Channel) (addr : SocketAddr)
    (message : KademliaMessage) : Prop :=
  ∀ link : Link, link.Works → ∀ turn later,
    received serializer link addr turn ((send serializer sender addr message).2.queue ++ later) =
      received serializer link addr turn sender.queue ++ some message ::
        received serializer link addr (turn + sender.queue.length + 1) later

def Deliverable (serializer : Serializer) (sender : Channel) (addr : SocketAddr)
    (message : KademliaMessage) : Prop :=
  Promised serializer message (send serializer sender addr message).1
    (fun data => data.length ≤ maxDatagramSize) (Decoded serializer sender addr message)

end UdpNetwork

namespace TcpNetwork

/-- The network under the connections: whether a connection is made in a turn, and what its
other end reads of the bytes written to it. -/
structure Link where
  connect : Nat → SocketAddr → Bool
  carry : Nat → List UInt8 → TcpStream

def send : Serializer → Channel → SocketAddr → KademliaMessage → Outcome Unit × Channel :=
  fun serializer => enqueue serializer "Failed to enqueue TCP message"

/-- A message has a connection of its own.  An error of `write_frame` is logged. -/
def transmit (link : Link) (turn : Nat) (addr : SocketAddr) (data : List UInt8) :
    Option TcpStream :=
  if link.connect turn addr then some (link.carry turn (writeFrame data).2) else none

/-- The messages that `handle_connection` decodes. -/
def handleConnection (serializer : Serializer) (stream : TcpStream) : List KademliaMessage :=
  (readFrames stream).1.filterMap serializer.deserialize

/-- What the peer at an address decodes on each connection that the queue opens. -/
def received (serializer : Serializer) (link : Link) (addr : SocketAddr) (turn : Nat)
    (queue : List (SocketAddr × List UInt8)) : List (List KademliaMessage) :=
  (arriving addr (handleOutgoing (transmit link) turn queue)).map (handleConnection serializer)

/-- All connections are made, and the other end reads what is written. -/
def Link.Works (link : Link) : Prop :=
  (∀ turn addr, link.connect turn addr = true) ∧
    ∀ turn bytes, link.carry turn bytes = { bytes := bytes, ending := .closed }

/-- On a working link the peer decodes the message, and nothing else on its connection. -/
def Decoded (serializer : Serializer) (sender : Channel) (addr : SocketAddr)
    (message : KademliaMessage) : Prop :=
  ∀ link : Link, link.Works → ∀ turn later,
    received serializer link addr turn ((send serializer sender addr message).2.queue ++ later) =
      received serializer link addr turn sender.queue ++ [message] ::
        received serializer link addr (turn + sender.queue.length + 1) later

def Deliverable (serializer : Serializer) (sender : Channel) (addr : SocketAddr)
    (message : KademliaMessage) : Prop :=
  Promised serializer message (send serializer sender addr message).1 Framed
    (Decoded serializer sender addr message)

end TcpNetwork

/-! ## One message in the queue -/

namespace Outgoing

theorem enqueue_cases (serializer : Serializer) (refused : String) (sender : Channel)
    (addr : SocketAddr) (message : KademliaMessage) :
    (∃ text, serializer.serialize message = .error text ∧
      enqueue serializer refused sender addr message =
        (.error (.err (.other ("Serialization error: " ++ text))), sender)) ∨
    (∃ data, serializer.serialize message = .ok data ∧ sender.closed = true ∧
      enqueue serializer refused sender addr message = (.error (.err (.network refused)), sender)) ∨
    ∃ data, serializer.serialize message = .ok data ∧ sender.closed = false ∧
      enqueue serializer refused sender addr message =
        (.ok (), { sender with queue := sender.queue ++ [(addr, data)] }) := by
  unfold enqueue
  cases hdata : serializer.serialize message with
  | error text => exact .inl ⟨text, rfl, rfl⟩
  | ok data =>
    refine .inr ?_
    cases hclosed : sender.closed with
    | true => exact .inl ⟨data, rfl, rfl, rfl⟩
    | false => exact .inr ⟨data, rfl, rfl, rfl⟩

/-- A promise is one about the messages that are encoded while the channel is open. -/
theorem promised_enqueue_iff {serializer : Serializer} {refused : String} {sender : Channel}
    {addr : SocketAddr} {message : KademliaMessage} {fits : List UInt8 → Prop} {decoded : Prop} :
    Promised serializer message (enqueue serializer refused sender addr message).1 fits decoded ↔
      ∀ data, serializer.serialize message = .ok data → sender.closed = false →
        fits data ∧ decoded := by
  rcases enqueue_cases serializer refused sender addr message with
    ⟨text, hdata, heq⟩ | ⟨data, hdata, hclosed, heq⟩ | ⟨data, hdata, hopen, heq⟩
  · rw [heq, Promised, hdata]
    simp
  · rw [heq, Promised, hdata, hclosed]
    simp
  · rw [heq, Promised, hdata, hopen]
    constructor
    · rintro ⟨haccepted, -⟩ data' hdata' -
      obtain ⟨⟨data'', hdata'', hfits⟩, hdecoded⟩ := haccepted rfl
      obtain rfl := (Except.ok.inj hdata').symm.trans (Except.ok.inj hdata'')
      exact ⟨hfits, hdecoded⟩
    · intro h
      obtain ⟨hfits, hdecoded⟩ := h data rfl rfl
      refine ⟨fun _ => ⟨⟨data, rfl, hfits⟩, hdecoded⟩, ?_⟩
      intro data' hdata' hnot
      obtain rfl := Except.ok.inj hdata'
      exact absurd hfits hnot

theorem queue_enqueue {serializer : Serializer} {refused : String} {sender : Channel}
    {addr : SocketAddr} {message : KademliaMessage} {data : List UInt8}
    (hdata : serializer.serialize message = .ok data) (hopen : sender.closed = false) :
    (enqueue serializer refused sender addr message).2.queue = sender.queue ++ [(addr, data)] := by
  rw [enqueue, hdata]
  dsimp only
  rw [hopen]
  rfl

variable {γ : Type} {transmit : Nat → SocketAddr → List UInt8 → Option γ}

theorem handleOutgoing_append (turn : Nat) (queue later : List (SocketAddr × List UInt8)) :
    handleOutgoing transmit turn (queue ++ later) =
      handleOutgoing transmit turn queue ++
        handleOutgoing transmit (turn + queue.length) later := by
  induction queue generalizing turn with
  | nil => rfl
  | cons item queue ih =>
    obtain ⟨addr, data⟩ := item
    have hlength : turn + (queue.length + 1) = turn + 1 + queue.length := by omega
    rw [List.cons_append, List.length_cons, hlength, handleOutgoing, handleOutgoing, ih]
    cases transmit turn addr data with
    | none => rfl
    | some sent => rfl

/-- What is put on the network for one message stands between the rest. -/
theorem arriving_append {turn : Nat} {queue later : List (SocketAddr × List UInt8)}
    {addr : SocketAddr} {data : List UInt8} {sent : γ}
    (h : transmit (turn + queue.length) addr data = some sent) :
    arriving addr (handleOutgoing transmit turn (queue ++ [(addr, data)] ++ later)) =
      arriving addr (handleOutgoing transmit turn queue) ++ sent ::
        arriving addr (handleOutgoing transmit (turn + queue.length + 1) later) := by
  rw [List.append_assoc, handleOutgoing_append, List.singleton_append, handleOutgoing, h]
  dsimp only
  rw [arriving, List.filterMap_append, List.filterMap_cons]
  simp only [if_true]
  rfl

end Outgoing

namespace UdpNetwork

theorem transmit_of_works {link : Link} (hworks : link.Works) (turn : Nat) (addr : SocketAddr)
    {data : List UInt8} (h : data.length ≤ maxDatagramSize) :
    transmit link turn addr data = some data := by
  obtain ⟨⟨n, hn, hsent⟩, hcarry⟩ := hworks turn addr data h
  have hany : ((List.range maxRetries).any fun n => link.sendTo turn (n + 1) addr data) = true :=
    List.any_eq_true.mpr ⟨n, List.mem_range.mpr hn, hsent⟩
  rw [transmit, if_pos hany, hcarry]

/-- A link that takes everything. -/
def perfect : Link where
  sendTo _ _ _ _ := true
  carry _ data := some data

theorem works_perfect : perfect.Works :=
  fun _ _ _ _ => ⟨⟨0, Nat.succ_pos 2, rfl⟩, rfl⟩

/-- A datagram that fits is decoded if it is not empty. -/
theorem decode_of_le {serializer : Serializer} {data : List UInt8}
    (h : data.length ≤ maxDatagramSize) :
    decode serializer data = if 1 ≤ data.length then serializer.deserialize data else none := by
  rw [decode, List.take_of_length_le h]
  rfl

theorem decoded_iff {serializer : Serializer} {sender : Channel} {addr : SocketAddr}
    {message : KademliaMessage} {data : List UInt8}
    (hdata : serializer.serialize message = .ok data) (hopen : sender.closed = false)
    (hfits : data.length ≤ maxDatagramSize) :
    Decoded serializer sender addr message ↔ decode serializer data = some message := by
  have hreceived : ∀ link : Link, link.Works → ∀ turn later,
      received serializer link addr turn ((send serializer sender addr message).2.queue ++ later) =
        received serializer link addr turn sender.queue ++ decode serializer data ::
          received serializer link addr (turn + sender.queue.length + 1) later := by
    intro link hworks turn later
    rw [received, send, queue_enqueue hdata hopen,
      arriving_append (transmit_of_works hworks _ addr hfits), List.map_append, List.map_cons]
    rfl
  constructor
  · intro hdecoded
    have hone := hdecoded perfect works_perfect 0 []
    rw [hreceived perfect works_perfect 0 []] at hone
    exact (List.cons.inj (List.append_cancel_left hone)).1
  · intro hdecode link hworks turn later
    rw [hreceived link hworks turn later, hdecode]

end UdpNetwork

namespace TcpNetwork

theorem transmit_of_works {link : Link} (hworks : link.Works) (turn : Nat) (addr : SocketAddr)
    {data : List UInt8} (h : Framed data) :
    transmit link turn addr data = some { bytes := frame data, ending := .closed } := by
  rw [transmit, if_pos (hworks.1 turn addr), hworks.2, writeFrame_of_framed h]

theorem handleConnection_frame {serializer : Serializer} {message : KademliaMessage}
    {data : List UInt8} (h : Framed data) (hdecode : serializer.deserialize data = some message) :
    handleConnection serializer { bytes := frame data, ending := .closed } = [message] := by
  have hall : ∀ other ∈ [data], Framed other := by
    intro other hother
    rw [List.mem_singleton.mp hother]
    exact h
  have hread := readFrames_frames hall
  rw [List.flatMap_singleton] at hread
  rw [handleConnection, hread, List.filterMap_cons, hdecode]
  rfl

theorem decoded_of_framed {serializer : Serializer} {sender : Channel} {addr : SocketAddr}
    {message : KademliaMessage} {data : List UInt8}
    (hdata : serializer.serialize message = .ok data) (hopen : sender.closed = false)
    (hframed : Framed data) (hdecode : serializer.deserialize data = some message) :
    Decoded serializer sender addr message := by
  intro link hworks turn later
  rw [received, send, queue_enqueue hdata hopen,
    arriving_append (transmit_of_works hworks _ addr hframed), List.map_append, List.map_cons,
    handleConnection_frame hframed hdecode]
  rfl

end TcpNetwork

/-- Over both transports a message is deliverable if and only if its encoding is within the
limit of the transport, unless `send` has no encoding for it or a closed channel. -/
theorem Outgoing.deliverable_iff (serializer : Serializer) (message : KademliaMessage)
    (hinverts : ∀ data, serializer.serialize message = .ok data →
      serializer.deserialize data = some message)
    (sender : Channel) (addr : SocketAddr) :
    (UdpNetwork.Deliverable serializer sender addr message ↔
      WithinLimit serializer UdpNetwork.maxDatagramSize sender message) ∧
    (TcpNetwork.Deliverable serializer sender addr message ↔
      WithinLimit serializer TcpNetwork.maxFrameSize sender message) := by
  constructor
  · refine promised_enqueue_iff.trans (forall₃_congr fun data hdata hopen => ?_)
    constructor
    · rintro ⟨hfits, hdecoded⟩
      rw [UdpNetwork.decoded_iff hdata hopen hfits, UdpNetwork.decode_of_le hfits] at hdecoded
      split_ifs at hdecoded with hpos
      exact ⟨hpos, hfits⟩
    · rintro ⟨hpos, hfits⟩
      refine ⟨hfits, (UdpNetwork.decoded_iff hdata hopen hfits).mpr ?_⟩
      rw [UdpNetwork.decode_of_le hfits, if_pos hpos]
      exact hinverts data hdata
  · refine promised_enqueue_iff.trans (forall₃_congr fun data hdata hopen => ?_)
    exact ⟨fun h => h.1, fun hframed =>
      ⟨hframed, TcpNetwork.decoded_of_framed hdata hopen hframed (hinverts data hdata)⟩⟩

theorem Bincode.serializer_inverts {message : KademliaMessage} (h : message.Plain) :
    ∀ data, serializer.serialize message = .ok data →
      serializer.deserialize data = some message := by
  intro data hdata
  obtain rfl := Except.ok.inj hdata
  have hdecode := inverts_kademliaMessage h []
  rw [List.append_nil] at hdecode
  show (kademliaMessage.decode (kademliaMessage.encode message)).map Prod.fst = _
  rw [hdecode]
  rfl

/-- The answer to a PING, from a node on the local host. -/
theorem Outgoing.deliverable_iff_pong :
    UdpNetwork.Deliverable Bincode.serializer { queue := [], closed := false }
      (Node.ofByte 1).addr (.response (.pong 7 (Node.ofByte 0))) ∧
    TcpNetwork.Deliverable Bincode.serializer { queue := [], closed := false }
      (Node.ofByte 1).addr (.response (.pong 7 (Node.ofByte 0))) := by
  have hiff := deliverable_iff Bincode.serializer (.response (.pong 7 (Node.ofByte 0)))
    (Bincode.serializer_inverts ⟨trivial, trivial⟩) { queue := [], closed := false }
    (Node.ofByte 1).addr
  have hlength : (Bincode.kademliaMessage.encode (.response (.pong 7 (Node.ofByte 0)))).length =
      59 := by decide +kernel
  refine ⟨hiff.1.mpr ?_, hiff.2.mpr ?_⟩
  · intro data hdata _
    obtain rfl := Except.ok.inj hdata
    rw [hlength]
    decide
  · intro data hdata _
    obtain rfl := Except.ok.inj hdata
    rw [hlength]
    decide

/-- A value as long as the limit makes a message that is longer, and `send` accepts it. -/
theorem Outgoing.large_values_accepted :
    (¬ ∀ sender addr message, UdpNetwork.Deliverable Bincode.serializer sender addr message) ∧
    ¬ ∀ sender addr message, TcpNetwork.Deliverable Bincode.serializer sender addr message := by
  have hlength : ∀ size : Nat, size < (Bincode.kademliaMessage.encode (.request
      (.store 7 (Node.ofByte 0) (Node.ofByte 1).id (List.replicate size 0)))).length := by
    intro size
    rw [Bincode.length_encode_store, List.length_replicate]
    omega
  constructor
  · intro h
    have hfits := (promised_enqueue_iff.mp (h { queue := [], closed := false } (Node.ofByte 1).addr
      (.request (.store 7 (Node.ofByte 0) (Node.ofByte 1).id
        (List.replicate UdpNetwork.maxDatagramSize 0)))) _ rfl rfl).1
    exact absurd (hlength UdpNetwork.maxDatagramSize) (Nat.not_lt.mpr hfits)
  · intro h
    have hframed := (promised_enqueue_iff.mp (h { queue := [], closed := false }
      (Node.ofByte 1).addr (.request (.store 7 (Node.ofByte 0) (Node.ofByte 1).id
        (List.replicate TcpNetwork.maxFrameSize 0)))) _ rfl rfl).1
    exact absurd (hlength TcpNetwork.maxFrameSize) (Nat.not_lt.mpr hframed.2)

end Kademlia
