import Kademlia.Lib.BigEndian
import Kademlia.Node

/-!
# Frames on a TCP connection

A message travels as a frame: its length in four bytes, the most significant first, and then
the message.  `read_frame` takes one frame off a stream, and a connection is read frame by
frame until it ends.

A stream that is cut off ends in the middle of a frame.  The frames before it are read as
they were written, and of the last one nothing is delivered.
-/

namespace Kademlia

open Lib

namespace TcpNetwork

/-- The largest frame, 16 MiB. -/
def maxFrameSize : Nat := 16 * 1024 * 1024

/-- The ways a stream can end: the peer has closed it, or the connection has failed. -/
inductive StreamEnd where
  | closed
  | failed

/-- The bytes a reader will get, and what comes after them. -/
structure TcpStream where
  bytes : List UInt8
  ending : StreamEnd

/-- `std::io::ErrorKind`, as far as it is looked at. -/
inductive ErrorKind where
  | unexpectedEof
  | other
deriving DecidableEq

def StreamEnd.errorKind : StreamEnd → ErrorKind
  | closed => .unexpectedEof
  | failed => .other

/-- `read_exact` gets all the bytes it asks for or fails. -/
def TcpStream.readExact (stream : TcpStream) (len : Nat) :
    Except ErrorKind (List UInt8) × TcpStream :=
  if len ≤ stream.bytes.length then
    (.ok (stream.bytes.take len), { stream with bytes := stream.bytes.drop len })
  else (.error stream.ending.errorKind, { stream with bytes := [] })

def TcpStream.readU32 (stream : TcpStream) : Except ErrorKind UInt32 × TcpStream :=
  match stream.readExact 4 with
  | (.ok bytes, stream) => (.ok (UInt32.ofNat (BigEndian.ofBytes bytes)), stream)
  | (.error kind, stream) => (.error kind, stream)

def readFrame (stream : TcpStream) : Outcome (Option (List UInt8)) × TcpStream :=
  match stream.readU32 with
  | (.ok len, stream) =>
    let len := len.toNat
    if len = 0 ∨ len > maxFrameSize then
      (.error (.err (.network ("Invalid TCP frame size: " ++ toString len))), stream)
    else
      match stream.readExact len with
      | (.ok buf, stream) => (.ok (some buf), stream)
      | (.error _, stream) => (.error (.err .io), stream)
  | (.error .unexpectedEof, stream) => (.ok none, stream)
  | (.error .other, stream) => (.error (.err .io), stream)

/-- The bytes of `write_u32`. -/
def u32Bytes (n : UInt32) : List UInt8 := BigEndian.toBytes 4 n.toNat

/-- The result of `write_frame` and the bytes it writes, when no write fails. -/
def writeFrame (data : List UInt8) : Outcome Unit × List UInt8 :=
  if data.length > maxFrameSize then (.error (.err (.network "Frame too large")), [])
  else (.ok (), u32Bytes (UInt32.ofNat data.length) ++ data)

theorem length_readExact {stream rest : TcpStream} {len : Nat} {bytes : List UInt8}
    (h : stream.readExact len = (.ok bytes, rest)) :
    rest.bytes.length + len = stream.bytes.length := by
  unfold TcpStream.readExact at h
  by_cases hlen : len ≤ stream.bytes.length
  · rw [if_pos hlen] at h
    obtain ⟨-, rfl⟩ := Prod.mk.inj h
    rw [List.length_drop]
    omega
  · rw [if_neg hlen] at h
    cases (Prod.mk.inj h).1

theorem readU32_parts {stream rest : TcpStream} {len : UInt32}
    (h : stream.readU32 = (.ok len, rest)) :
    ∃ bytes, stream.readExact 4 = (.ok bytes, rest) ∧
      len = UInt32.ofNat (BigEndian.ofBytes bytes) := by
  unfold TcpStream.readU32 at h
  rcases hread : stream.readExact 4 with ⟨kind | bytes, rest'⟩
  · rw [hread] at h
    cases (Prod.mk.inj h).1
  · rw [hread] at h
    obtain ⟨hlen, rfl⟩ := Prod.mk.inj h
    exact ⟨bytes, rfl, (Except.ok.inj hlen).symm⟩

theorem length_readU32 {stream rest : TcpStream} {len : UInt32}
    (h : stream.readU32 = (.ok len, rest)) : rest.bytes.length + 4 = stream.bytes.length := by
  obtain ⟨bytes, hread, -⟩ := readU32_parts h
  exact length_readExact hread

/-- A frame is a length within the limit and as many bytes. -/
theorem readFrame_parts {stream rest : TcpStream} {data : List UInt8}
    (h : readFrame stream = (.ok (some data), rest)) :
    ∃ len stream', stream.readU32 = (.ok len, stream') ∧ 1 ≤ len.toNat ∧
      len.toNat ≤ maxFrameSize ∧ stream'.readExact len.toNat = (.ok data, rest) := by
  unfold readFrame at h
  rcases hheader : stream.readU32 with ⟨kind | len, stream'⟩
  · rw [hheader] at h
    cases kind <;> cases (Prod.mk.inj h).1
  rw [hheader] at h
  dsimp only at h
  by_cases hinvalid : len.toNat = 0 ∨ len.toNat > maxFrameSize
  · rw [if_pos hinvalid] at h
    cases (Prod.mk.inj h).1
  rw [if_neg hinvalid] at h
  rcases hbody : stream'.readExact len.toNat with ⟨kind | buf, stream''⟩
  · rw [hbody] at h
    cases (Prod.mk.inj h).1
  rw [hbody] at h
  obtain ⟨hdata, rfl⟩ := Prod.mk.inj h
  obtain rfl := Option.some.inj (Except.ok.inj hdata)
  exact ⟨len, stream', rfl, by omega, by omega, hbody⟩

/-- A frame takes bytes off the stream. -/
theorem length_readFrame {stream rest : TcpStream} {data : List UInt8}
    (h : readFrame stream = (.ok (some data), rest)) : rest.bytes.length < stream.bytes.length := by
  obtain ⟨len, stream', hheader, -, -, hbody⟩ := readFrame_parts h
  have hlen := length_readU32 hheader
  have hbuf := length_readExact hbody
  omega

/-- The loop of `handle_connection`: the frames up to the end of the stream, and the result
with which it ends. -/
def readFrames (stream : TcpStream) : List (List UInt8) × Outcome Unit :=
  match _h : readFrame stream with
  | (.ok (some data), rest) =>
    let (frames, result) := readFrames rest
    (data :: frames, result)
  | (.ok none, _) => ([], .ok ())
  | (.error fault, _) => ([], .error fault)
termination_by stream.bytes.length
decreasing_by exact length_readFrame _h

/-! ## Reading what was written -/

/-- A payload that has a frame. -/
def Framed (data : List UInt8) : Prop := 1 ≤ data.length ∧ data.length ≤ maxFrameSize

/-- The frame of a payload. -/
def frame (data : List UInt8) : List UInt8 := u32Bytes (UInt32.ofNat data.length) ++ data

theorem writeFrame_of_framed {data : List UInt8} (h : Framed data) :
    writeFrame data = (.ok (), frame data) :=
  if_neg (Nat.not_lt.mpr h.2)

theorem length_u32Bytes (n : UInt32) : (u32Bytes n).length = 4 := BigEndian.length_toBytes 4 n.toNat

theorem readExact_append (bytes rest : List UInt8) (ending : StreamEnd) :
    ({ bytes := bytes ++ rest, ending := ending } : TcpStream).readExact bytes.length =
      (.ok bytes, { bytes := rest, ending := ending }) := by
  have hle : bytes.length ≤ (bytes ++ rest).length := by
    rw [List.length_append]
    exact Nat.le_add_right _ _
  rw [TcpStream.readExact, if_pos hle, List.take_left, List.drop_left]

theorem readExact_of_lt {stream : TcpStream} {len : Nat} (h : stream.bytes.length < len) :
    stream.readExact len = (.error stream.ending.errorKind, { stream with bytes := [] }) :=
  if_neg (Nat.not_le.mpr h)

theorem readU32_append (n : UInt32) (rest : List UInt8) (ending : StreamEnd) :
    ({ bytes := u32Bytes n ++ rest, ending := ending } : TcpStream).readU32 =
      (.ok n, { bytes := rest, ending := ending }) := by
  have hread := readExact_append (u32Bytes n) rest ending
  have hvalue : BigEndian.ofBytes (u32Bytes n) = n.toNat :=
    BigEndian.ofBytes_toBytes (Nat.lt_of_lt_of_le n.toNat_lt (by decide))
  rw [length_u32Bytes] at hread
  rw [TcpStream.readU32, hread]
  dsimp only
  rw [hvalue, UInt32.ofNat_toNat]

/-- The header of a frame is read as the length of its payload. -/
theorem readFrame_header {data : List UInt8} (h : Framed data) (rest : List UInt8)
    (ending : StreamEnd) :
    readFrame { bytes := u32Bytes (UInt32.ofNat data.length) ++ rest, ending := ending } =
      match ({ bytes := rest, ending := ending } : TcpStream).readExact data.length with
      | (.ok buf, stream) => (.ok (some buf), stream)
      | (.error _, stream) => (.error (.err .io), stream) := by
  obtain ⟨hpos, hle⟩ := h
  have hmax : maxFrameSize < 2 ^ 32 := by decide
  have hlen : (UInt32.ofNat data.length).toNat = data.length :=
    UInt32.toNat_ofNat_of_lt' (Nat.lt_of_le_of_lt hle hmax)
  have hvalid : ¬ (data.length = 0 ∨ data.length > maxFrameSize) := by omega
  rw [readFrame, readU32_append]
  dsimp only
  rw [hlen, if_neg hvalid]

theorem readFrame_append {data : List UInt8} (h : Framed data) (rest : List UInt8)
    (ending : StreamEnd) :
    readFrame { bytes := frame data ++ rest, ending := ending } =
      (.ok (some data), { bytes := rest, ending := ending }) := by
  rw [frame, List.append_assoc, readFrame_header h, readExact_append]

/-- A stream that ends in the header of a frame. -/
theorem readFrame_of_lt {stream : TcpStream} (h : stream.bytes.length < 4) :
    ∀ buf rest, readFrame stream ≠ (.ok (some buf), rest) := by
  intro buf rest hread
  rw [readFrame, TcpStream.readU32, readExact_of_lt h] at hread
  cases hending : stream.ending with
  | closed =>
    rw [hending] at hread
    cases (Prod.mk.inj hread).1
  | failed =>
    rw [hending] at hread
    cases (Prod.mk.inj hread).1

/-- Nothing is delivered of a frame that is cut off. -/
theorem readFrame_cut {data cut : List UInt8} (h : Framed data) (hcut : cut <+: frame data)
    (hlt : cut.length < (frame data).length) (ending : StreamEnd) :
    ∀ buf rest, readFrame { bytes := cut, ending := ending } ≠ (.ok (some buf), rest) := by
  by_cases hheader : cut.length < 4
  · exact readFrame_of_lt hheader
  -- The header is complete, and the payload is not.
  have hle : (u32Bytes (UInt32.ofNat data.length)).length ≤ cut.length := by
    rw [length_u32Bytes]
    omega
  obtain ⟨body, rfl⟩ := List.prefix_of_prefix_length_le (List.prefix_append _ data) hcut hle
  have hbody : body.length < data.length := by
    rw [frame, List.length_append, List.length_append] at hlt
    omega
  have hshort : ({ bytes := body, ending := ending } : TcpStream).readExact data.length = _ :=
    readExact_of_lt hbody
  intro buf rest hread
  rw [readFrame_header h, hshort] at hread
  cases (Prod.mk.inj hread).1

theorem readFrames_eq (stream : TcpStream) :
    readFrames stream =
      match readFrame stream with
      | (.ok (some data), rest) => (data :: (readFrames rest).1, (readFrames rest).2)
      | (.ok none, _) => ([], .ok ())
      | (.error fault, _) => ([], .error fault) := by
  rw [readFrames]
  rcases readFrame stream with ⟨fault | _ | data, rest⟩ <;> rfl

theorem readFrames_of_some {stream rest : TcpStream} {data : List UInt8}
    (h : readFrame stream = (.ok (some data), rest)) :
    readFrames stream = (data :: (readFrames rest).1, (readFrames rest).2) := by
  rw [readFrames_eq, h]

theorem readFrames_of_none {stream : TcpStream}
    (h : ∀ buf rest, readFrame stream ≠ (.ok (some buf), rest)) : (readFrames stream).1 = [] := by
  rw [readFrames_eq]
  split
  · rename_i h'
    exact absurd h' (h _ _)
  · rfl
  · rfl

theorem readFrame_of_closed {bytes : List UInt8} (h : bytes.length < 4) :
    readFrame { bytes := bytes, ending := .closed } =
      (.ok none, { bytes := [], ending := .closed }) := by
  have hshort : ({ bytes := bytes, ending := .closed } : TcpStream).readExact 4 = _ :=
    readExact_of_lt h
  rw [readFrame, TcpStream.readU32, hshort]
  rfl

/-- All frames of a closed stream are read, also when it ends in the header of another one. -/
theorem readFrames_frames_append {payloads : List (List UInt8)} (h : ∀ data ∈ payloads, Framed data)
    {tail : List UInt8} (htail : tail.length < 4) :
    readFrames { bytes := payloads.flatMap frame ++ tail, ending := .closed } =
      (payloads, .ok ()) := by
  induction payloads with
  | nil =>
    rw [List.flatMap_nil, List.nil_append, readFrames, readFrame_of_closed htail]
  | cons data rest ih =>
    have hrest := ih fun other hother => h other (List.mem_cons_of_mem data hother)
    have hdata := readFrame_append (h data List.mem_cons_self) (rest.flatMap frame ++ tail) .closed
    rw [List.flatMap_cons, List.append_assoc, readFrames_of_some hdata, hrest]

theorem readFrames_frames {payloads : List (List UInt8)} (h : ∀ data ∈ payloads, Framed data) :
    readFrames { bytes := payloads.flatMap frame, ending := .closed } = (payloads, .ok ()) := by
  have htail : ([] : List UInt8).length < 4 := Nat.zero_lt_succ 3
  have hall := readFrames_frames_append h htail
  rwa [List.append_nil] at hall

/-- The frames of a stream that is cut off somewhere. -/
theorem readFrames_prefix {payloads : List (List UInt8)} (h : ∀ data ∈ payloads, Framed data)
    {cut : List UInt8} (hcut : cut <+: payloads.flatMap frame) (ending : StreamEnd) :
    (readFrames { bytes := cut, ending := ending }).1 <+: payloads := by
  induction payloads generalizing cut with
  | nil =>
    have hnil : cut = [] := List.prefix_nil.mp hcut
    have hnone : (readFrames { bytes := cut, ending := ending }).1 = [] := by
      refine readFrames_of_none (readFrame_of_lt ?_)
      rw [hnil]
      exact Nat.zero_lt_succ 3
    rw [hnone, List.prefix_nil]
  | cons data rest ih =>
    have hdata := h data List.mem_cons_self
    rw [List.flatMap_cons] at hcut
    by_cases hlen : (frame data).length ≤ cut.length
    · obtain ⟨cut', rfl⟩ :=
        List.prefix_of_prefix_length_le (List.prefix_append _ (rest.flatMap frame)) hcut hlen
      have hcut' := (List.prefix_append_right_inj (frame data)).mp hcut
      rw [readFrames_of_some (readFrame_append hdata cut' ending), List.cons_prefix_cons]
      exact ⟨rfl, ih (fun other hother => h other (List.mem_cons_of_mem data hother)) hcut'⟩
    · have hlt := Nat.not_le.mp hlen
      have hframe : cut <+: frame data :=
        List.prefix_of_prefix_length_le hcut (List.prefix_append _ _) (Nat.le_of_lt hlt)
      rw [readFrames_of_none (readFrame_cut hdata hframe hlt ending)]
      exact List.nil_prefix

/-- Payloads that are written are read back in order, and a stream that is cut off anywhere,
in whatever way it ends, delivers a prefix of them. -/
theorem frames_round_trip (payloads : List (List UInt8))
    (h : ∀ data ∈ payloads, 1 ≤ data.length ∧ data.length ≤ maxFrameSize) :
    (∀ data ∈ payloads, (writeFrame data).1 = .ok ()) ∧
    readFrames { bytes := payloads.flatMap fun data => (writeFrame data).2, ending := .closed } =
      (payloads, .ok ()) ∧
    ∀ cut, cut <+: (payloads.flatMap fun data => (writeFrame data).2) → ∀ ending,
      (readFrames { bytes := cut, ending := ending }).1 <+: payloads := by
  have hbytes : (payloads.flatMap fun data => (writeFrame data).2) = payloads.flatMap frame := by
    apply List.flatMap_congr
    intro data hdata
    rw [writeFrame_of_framed (h data hdata)]
  refine ⟨?_, ?_, ?_⟩
  · intro data hdata
    rw [writeFrame_of_framed (h data hdata)]
  · rw [hbytes]
    exact readFrames_frames h
  · intro cut hcut ending
    rw [hbytes] at hcut
    exact readFrames_prefix h hcut ending

theorem frames_round_trip_two :
    readFrames { bytes := [0, 0, 0, 1, 7, 0, 0, 0, 2, 8, 9], ending := .closed } =
      ([[7], [8, 9]], .ok ()) := by
  exact (frames_round_trip [[7], [8, 9]] (by decide)).2.1

end TcpNetwork

end Kademlia
