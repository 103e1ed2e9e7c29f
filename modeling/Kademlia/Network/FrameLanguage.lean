import Kademlia.Network.Frame

/-!
# The streams that a connection accepts

The reader and the writer of frames check lengths apart from each other.  The reader ends with
`Ok` when the peer closes the connection before a frame or inside the header of one, and it
rejects an empty frame.  The writer writes an empty payload as a frame, and of a header always
all four bytes.

So the reader accepts what the writer can write but for the empty frames, and beyond that the
streams that are cut off in a header.
-/

namespace Kademlia

open Lib

namespace TcpNetwork

/-- A stream that `write_frame` can write. -/
def Written (bytes : List UInt8) : Prop :=
  ∃ payloads : List (List UInt8), (∀ data ∈ payloads, (writeFrame data).1 = .ok ()) ∧
    bytes = payloads.flatMap fun data => (writeFrame data).2

/-- The result with which the loop of `handle_connection` ends when the peer closes the
connection after these bytes. -/
def closedResult (bytes : List UInt8) : Outcome Unit :=
  (readFrames { bytes := bytes, ending := .closed }).2

/-- The reader ends with `Ok` on a stream of the writer, and with `Err` on any other one. -/
def Exact (bytes : List UInt8) : Prop :=
  (Written bytes → closedResult bytes = .ok ()) ∧
    (¬ Written bytes → ∃ error, closedResult bytes = .error (.err error))

/-- Non-empty frames, and then one to three bytes of a header. -/
def EndsInHeader (bytes : List UInt8) : Prop :=
  ∃ (payloads : List (List UInt8)) (tail : List UInt8), (∀ data ∈ payloads, Framed data) ∧
    0 < tail.length ∧ tail.length < 4 ∧ bytes = payloads.flatMap frame ++ tail

/-- Frames of which one is empty. -/
def HasEmptyFrame (bytes : List UInt8) : Prop :=
  ∃ payloads : List (List UInt8), (∀ data ∈ payloads, data.length ≤ maxFrameSize) ∧
    [] ∈ payloads ∧ bytes = payloads.flatMap frame

/-! ## One frame -/

theorem writeFrame_eq_ok_iff {data : List UInt8} :
    (writeFrame data).1 = .ok () ↔ data.length ≤ maxFrameSize := by
  unfold writeFrame
  split_ifs with h
  · exact iff_of_false (fun hok => by cases hok) (Nat.not_le.mpr h)
  · exact iff_of_true rfl (Nat.not_lt.mp h)

theorem writeFrame_bytes {data : List UInt8} (h : data.length ≤ maxFrameSize) :
    (writeFrame data).2 = frame data := by
  rw [writeFrame, if_neg (Nat.not_lt.mpr h)]
  rfl

theorem written_iff {bytes : List UInt8} :
    Written bytes ↔ ∃ payloads : List (List UInt8),
      (∀ data ∈ payloads, data.length ≤ maxFrameSize) ∧ bytes = payloads.flatMap frame := by
  unfold Written
  simp only [writeFrame_eq_ok_iff]
  refine exists_congr fun payloads => and_congr_right fun h => ?_
  rw [List.flatMap_congr fun data hdata => writeFrame_bytes (h data hdata)]

theorem readExact_eq_ok {stream rest : TcpStream} {len : Nat} {bytes : List UInt8}
    (h : stream.readExact len = (.ok bytes, rest)) :
    bytes.length = len ∧ stream.bytes = bytes ++ rest.bytes ∧ rest.ending = stream.ending := by
  unfold TcpStream.readExact at h
  by_cases hlen : len ≤ stream.bytes.length
  · rw [if_pos hlen] at h
    obtain ⟨hbytes, rfl⟩ := Prod.mk.inj h
    obtain rfl := Except.ok.inj hbytes
    exact ⟨List.length_take_of_le hlen, (List.take_append_drop len stream.bytes).symm, rfl⟩
  · rw [if_neg hlen] at h
    cases (Prod.mk.inj h).1

theorem readU32_eq_ok {stream rest : TcpStream} {len : UInt32}
    (h : stream.readU32 = (.ok len, rest)) :
    stream.bytes = u32Bytes len ++ rest.bytes ∧ rest.ending = stream.ending := by
  obtain ⟨bytes, hread, rfl⟩ := readU32_parts h
  obtain ⟨hlength, hbytes, hending⟩ := readExact_eq_ok hread
  have hlt := BigEndian.ofBytes_lt bytes
  have hheader := BigEndian.toBytes_ofBytes bytes
  rw [hlength] at hlt hheader
  refine ⟨?_, hending⟩
  rw [u32Bytes, UInt32.toNat_ofNat_of_lt' hlt, hheader, hbytes]

/-- What one frame of a stream is. -/
theorem readFrame_eq_some {stream rest : TcpStream} {data : List UInt8}
    (h : readFrame stream = (.ok (some data), rest)) :
    Framed data ∧ stream.bytes = frame data ++ rest.bytes ∧ rest.ending = stream.ending := by
  obtain ⟨len, stream', hheader, hpos, hmax, hread⟩ := readFrame_parts h
  obtain ⟨hbytes, hending⟩ := readU32_eq_ok hheader
  obtain ⟨hlength, hbody, hending'⟩ := readExact_eq_ok hread
  refine ⟨?_, ?_, hending'.trans hending⟩
  · rw [Framed, hlength]
    exact ⟨hpos, hmax⟩
  · rw [frame, hlength, UInt32.ofNat_toNat, List.append_assoc, ← hbody, hbytes]

theorem readFrame_eq_none {stream rest : TcpStream} (h : readFrame stream = (.ok none, rest)) :
    stream.bytes.length < 4 := by
  by_contra hlong
  have hlong' : 4 ≤ stream.bytes.length := Nat.not_lt.mp hlong
  unfold readFrame TcpStream.readU32 at h
  rw [TcpStream.readExact, if_pos hlong'] at h
  dsimp only at h
  split_ifs at h
  · cases (Prod.mk.inj h).1
  · split at h
    · cases Except.ok.inj (Prod.mk.inj h).1
    · cases (Prod.mk.inj h).1

/-- A stream is never read with a panic. -/
theorem readFrame_eq_error {stream rest : TcpStream} {fault : Fault}
    (h : readFrame stream = (.error fault, rest)) : ∃ error, fault = .err error := by
  unfold readFrame at h
  split at h
  · dsimp only at h
    split_ifs at h
    · exact ⟨_, (Except.error.inj (Prod.mk.inj h).1).symm⟩
    · split at h
      · cases (Prod.mk.inj h).1
      · exact ⟨_, (Except.error.inj (Prod.mk.inj h).1).symm⟩
  · cases (Prod.mk.inj h).1
  · exact ⟨_, (Except.error.inj (Prod.mk.inj h).1).symm⟩

/-- The reader rejects an empty frame. -/
theorem readFrame_empty (rest : List UInt8) (ending : StreamEnd) :
    readFrame { bytes := frame [] ++ rest, ending := ending } =
      (.error (.err (.network ("Invalid TCP frame size: " ++ toString (0 : Nat)))),
        { bytes := rest, ending := ending }) := by
  have hframe : frame [] = u32Bytes 0 := rfl
  rw [hframe, readFrame, readU32_append]
  exact if_pos (.inl rfl)

/-! ## Whole streams -/

theorem readFrames_of_error {stream rest : TcpStream} {fault : Fault}
    (h : readFrame stream = (.error fault, rest)) : readFrames stream = ([], .error fault) := by
  rw [readFrames_eq, h]

/-- The bytes of an accepted stream, by induction on what is left to read. -/
theorem readFrames_cases (stream : TcpStream) (hclosed : stream.ending = .closed) :
    (∃ (payloads : List (List UInt8)) (tail : List UInt8), (∀ data ∈ payloads, Framed data) ∧
      tail.length < 4 ∧ stream.bytes = payloads.flatMap frame ++ tail) ∨
    ∃ error, (readFrames stream).2 = .error (.err error) := by
  rcases hread : readFrame stream with ⟨fault | _ | data, rest⟩
  · obtain ⟨error, rfl⟩ := readFrame_eq_error hread
    exact .inr ⟨error, by rw [readFrames_of_error hread]⟩
  · exact .inl ⟨[], stream.bytes, (fun _ h => by cases h), readFrame_eq_none hread, rfl⟩
  · have hdecreasing := length_readFrame hread
    obtain ⟨hframed, hbytes, hending⟩ := readFrame_eq_some hread
    rcases readFrames_cases rest (hending.trans hclosed) with
      ⟨payloads, tail, hpayloads, htail, hrest⟩ | ⟨error, herror⟩
    · refine .inl ⟨data :: payloads, tail, List.forall_mem_cons.mpr ⟨hframed, hpayloads⟩, htail, ?_⟩
      rw [hbytes, hrest, List.flatMap_cons, List.append_assoc]
    · exact .inr ⟨error, by rw [readFrames_of_some hread, herror]⟩
termination_by stream.bytes.length

theorem closedResult_of_framed {payloads : List (List UInt8)} (h : ∀ data ∈ payloads, Framed data)
    {tail : List UInt8} (htail : tail.length < 4) :
    closedResult (payloads.flatMap frame ++ tail) = .ok () := by
  rw [closedResult, readFrames_frames_append h htail]

theorem closedResult_of_hasEmptyFrame {bytes : List UInt8} (h : HasEmptyFrame bytes) :
    closedResult bytes ≠ .ok () := by
  obtain ⟨payloads, hlengths, hempty, rfl⟩ := h
  unfold closedResult
  induction payloads with
  | nil => cases hempty
  | cons data rest ih =>
    rw [List.flatMap_cons]
    rcases data with _ | ⟨byte, bytes⟩
    · rw [readFrames_of_error (readFrame_empty _ _)]
      exact fun hok => by cases hok
    · have hframed : Framed (byte :: bytes) := ⟨Nat.succ_pos _, hlengths _ List.mem_cons_self⟩
      have hrest : [] ∈ rest := by simpa using hempty
      rw [readFrames_of_some (readFrame_append hframed _ _)]
      exact ih (fun other hother => hlengths other (List.mem_cons_of_mem _ hother)) hrest

/-- Payloads of valid lengths have frames, unless one of them is empty. -/
theorem framed_of_not_empty {payloads : List (List UInt8)}
    (h : ∀ data ∈ payloads, data.length ≤ maxFrameSize) (hempty : [] ∉ payloads) :
    ∀ data ∈ payloads, Framed data := by
  intro data hdata
  refine ⟨Nat.pos_of_ne_zero fun hzero => ?_, h data hdata⟩
  rw [List.length_eq_zero_iff] at hzero
  exact hempty (hzero ▸ hdata)

/-- The frames of a stream can be told from the stream, so that a header that is cut off is
no part of a written one. -/
theorem not_written_of_endsInHeader {bytes : List UInt8} (h : EndsInHeader bytes) :
    ¬ Written bytes := by
  obtain ⟨payloads, tail, hframed, hpos, hlt, rfl⟩ := h
  intro hwritten
  obtain ⟨payloads', hlengths, hbytes⟩ := written_iff.mp hwritten
  have hok := closedResult_of_framed hframed hlt
  by_cases hempty : [] ∈ payloads'
  · exact closedResult_of_hasEmptyFrame ⟨payloads', hlengths, hempty, hbytes⟩ hok
  · have hread := readFrames_frames_append hframed hlt
    rw [hbytes, readFrames_frames (framed_of_not_empty hlengths hempty)] at hread
    obtain rfl := (Prod.mk.inj hread).1
    have hlength := congrArg List.length hbytes
    rw [List.length_append] at hlength
    omega

/-- For every stream, the reader and the writer agree on it exactly when it is not cut off in
the header after non-empty frames and is no sequence of frames one of which is empty. -/
theorem reader_exact_iff (bytes : List UInt8) :
    Exact bytes ↔ ¬ EndsInHeader bytes ∧ ¬ HasEmptyFrame bytes := by
  constructor
  · rintro ⟨haccepts, hrejects⟩
    constructor
    · intro hheader
      obtain ⟨error, herror⟩ := hrejects (not_written_of_endsInHeader hheader)
      obtain ⟨payloads, tail, hframed, -, hlt, rfl⟩ := hheader
      rw [closedResult_of_framed hframed hlt] at herror
      cases herror
    · intro hempty
      have hrejected := closedResult_of_hasEmptyFrame hempty
      obtain ⟨payloads, hlengths, -, hbytes⟩ := hempty
      exact hrejected (haccepts (written_iff.mpr ⟨payloads, hlengths, hbytes⟩))
  · rintro ⟨hheader, hempty⟩
    constructor
    · intro hwritten
      obtain ⟨payloads, hlengths, rfl⟩ := written_iff.mp hwritten
      have hframed := framed_of_not_empty hlengths fun hmem =>
        hempty ⟨payloads, hlengths, hmem, rfl⟩
      rw [closedResult, readFrames_frames hframed]
    · intro hunwritten
      rcases readFrames_cases { bytes := bytes, ending := .closed } rfl with
        ⟨payloads, tail, hframed, hlt, hbytes⟩ | herror
      · obtain rfl : bytes = payloads.flatMap frame ++ tail := hbytes
        rcases tail with _ | ⟨byte, tail⟩
        · rw [List.append_nil] at hunwritten
          exact absurd (written_iff.mpr ⟨payloads, fun data hdata => (hframed data hdata).2, rfl⟩)
            hunwritten
        · exact absurd ⟨payloads, byte :: tail, hframed, Nat.succ_pos _, hlt, rfl⟩ hheader
      · exact herror

/-- A connection that is closed after the first byte of a header ends with `Ok`. -/
theorem cut_header_accepted : ¬ ∀ bytes, Exact bytes := by
  intro h
  have hnot : ¬ Written [0] := by
    intro hwritten
    obtain ⟨payloads, -, hbytes⟩ := written_iff.mp hwritten
    cases payloads with
    | nil => cases hbytes
    | cons data rest =>
      have hlength := congrArg List.length hbytes
      rw [List.flatMap_cons, List.length_append, frame, List.length_append,
        length_u32Bytes, List.length_singleton] at hlength
      omega
  obtain ⟨error, herror⟩ := (h [0]).2 hnot
  rw [closedResult, readFrames, readFrame_of_closed (by decide)] at herror
  cases herror

end TcpNetwork

end Kademlia
