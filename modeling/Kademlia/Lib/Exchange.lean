import Mathlib.Data.List.AList
import Mathlib.Data.List.Induction
import Kademlia.Lib.Run

/-!
# Parties that exchange packets

Every party has an address.  A party takes steps of its own and receives packets, and each
time it may send some.  What has been sent stays on record, and any packet on record may be
handed over at any time, so the network loses, delays, reorders and duplicates packets.

An invariant of such a system has two parts, one for a party in sight of the packets sent so
far and one for a packet.  `sound_step` says that it is enough to look at one party at a
time: what a party knows is not disturbed by the packets of others.

Parties may also send their messages in encoded form.  `exists_run_of_encoded` says that this
makes no difference as long as what is read is what was sent.
-/

namespace Kademlia
namespace Lib

structure Packet (α μ : Type) where
  src : α
  dst : α
  message : μ
deriving DecidableEq

namespace Exchange

variable {α σ ι μ : Type}

/-- What a party does on an input of its own and on a packet, with what it sends. -/
structure Behaviour (α σ ι μ : Type) where
  act : σ → ι → σ × List (α × μ)
  receive : σ → Packet α μ → σ × List (α × μ)

structure State (α σ μ : Type) where
  parties : AList fun _ : α => σ
  sent : List (Packet α μ)

inductive Event (α σ ι : Type) where
  | enter (addr : α) (party : σ)
  | act (addr : α) (input : ι)
  | deliver (index : Nat)

/-- The packets of a party. -/
def post (src : α) (out : List (α × μ)) : List (Packet α μ) :=
  out.map fun item => { src := src, dst := item.1, message := item.2 }

theorem src_of_mem_post {src : α} {out : List (α × μ)} {p : Packet α μ} (h : p ∈ post src out) :
    p.src = src := by
  obtain ⟨item, -, rfl⟩ := List.mem_map.mp h
  rfl

/-- An invariant of a party, in sight of the packets sent so far, and one of a packet. -/
structure Invariant (α σ μ : Type) where
  party : List (Packet α μ) → α → σ → Prop
  packet : List (Packet α μ) → Packet α μ → Prop

/-- The packets of others disturb no party, and no packet disturbs another one. -/
structure Invariant.Stable (I : Invariant α σ μ) : Prop where
  party : ∀ {sent new : List (Packet α μ)} {addr : α} {s : σ}, I.party sent addr s →
    (∀ p ∈ new, p.src ≠ addr) → I.party (sent ++ new) addr s
  packet : ∀ {sent new : List (Packet α μ)} {p : Packet α μ}, I.packet sent p →
    I.packet (sent ++ new) p

/-- What a party has become and has sent is as the invariant wants it. -/
structure Invariant.Keeps (I : Invariant α σ μ) (sent : List (Packet α μ)) (addr : α)
    (result : σ × List (α × μ)) : Prop where
  party : I.party (sent ++ post addr result.2) addr result.1
  packet : ∀ p ∈ post addr result.2, I.packet (sent ++ post addr result.2) p

/-- The form in which messages are sent, and the messages that a reader makes of what arrives. -/
structure Wire (μ β : Type) where
  encode : μ → β
  decode : β → List μ

namespace Wire

variable {β : Type} (w : Wire μ β)

/-- The message is read as it was sent, or not at all. -/
def Carries (message : μ) : Prop :=
  w.decode (w.encode message) = [message] ∨ w.decode (w.encode message) = []

def packet (p : Packet α μ) : Packet α β :=
  { src := p.src, dst := p.dst, message := w.encode p.message }

def outgoing (result : σ × List (α × μ)) : σ × List (α × β) :=
  (result.1, result.2.map fun item => (item.1, w.encode item.2))

theorem post_outgoing (addr : α) (result : σ × List (α × μ)) :
    post addr (w.outgoing result).2 = (post addr result.2).map w.packet := by
  rw [post, outgoing, post, List.map_map, List.map_map]
  rfl

end Wire

/-- A party takes messages from one sender, one after another. -/
def Behaviour.receiveAll (b : Behaviour α σ ι μ) (src dst : α) : σ → List μ → σ × List (α × μ)
  | s, [] => (s, [])
  | s, message :: rest =>
    let (s, out) := b.receive s { src := src, dst := dst, message := message }
    let (s, more) := b.receiveAll src dst s rest
    (s, out ++ more)

/-- The party behind a wire. -/
def Behaviour.over {β : Type} (b : Behaviour α σ ι μ) (w : Wire μ β) : Behaviour α σ ι β where
  act s input := w.outgoing (b.act s input)
  receive s p := w.outgoing (b.receiveAll p.src p.dst s (w.decode p.message))

variable [DecidableEq α]

def start : State α σ μ := { parties := ∅, sent := [] }

def State.put (s : State α σ μ) (addr : α) (result : σ × List (α × μ)) : State α σ μ :=
  { parties := s.parties.insert addr result.1, sent := s.sent ++ post addr result.2 }

/-- An address is taken once.  An event that is not enabled changes nothing. -/
def step (b : Behaviour α σ ι μ) (s : State α σ μ) : Event α σ ι → State α σ μ
  | .enter addr party =>
    match s.parties.lookup addr with
    | none => { s with parties := s.parties.insert addr party }
    | some _ => s
  | .act addr input =>
    match s.parties.lookup addr with
    | none => s
    | some party => s.put addr (b.act party input)
  | .deliver index =>
    match s.sent[index]? with
    | none => s
    | some packet =>
      match s.parties.lookup packet.dst with
      | none => s
      | some party => s.put packet.dst (b.receive party packet)

structure Sound (I : Invariant α σ μ) (s : State α σ μ) : Prop where
  party : ∀ addr party, s.parties.lookup addr = some party → I.party s.sent addr party
  packet : ∀ p ∈ s.sent, I.packet s.sent p
  src : ∀ p ∈ s.sent, s.parties.lookup p.src ≠ none

variable {I : Invariant α σ μ} {b : Behaviour α σ ι μ} {s : State α σ μ} {addr : α}

theorem sound_start (I : Invariant α σ μ) : Sound I (start : State α σ μ) where
  party := by
    intro addr party h
    rw [start, AList.lookup_empty] at h
    cases h
  packet := by
    intro p hp
    cases hp
  src := by
    intro p hp
    cases hp

theorem lookup_insert_ne_none (parties : AList fun _ : α => σ) (addr : α) (party : σ) {other : α}
    (h : parties.lookup other ≠ none) : (parties.insert addr party).lookup other ≠ none := by
  by_cases hother : other = addr
  · subst hother
    rw [AList.lookup_insert]
    exact fun hnone => nomatch hnone
  · rw [AList.lookup_insert_ne hother]
    exact h

/-- A new party at an address that has sent nothing. -/
theorem Sound.enter (h : Sound I s) {party : σ} (hparty : I.party s.sent addr party) :
    Sound I { s with parties := s.parties.insert addr party } where
  party := by
    intro other found hfound
    by_cases hother : other = addr
    · subst hother
      rw [AList.lookup_insert] at hfound
      rw [← Option.some.inj hfound]
      exact hparty
    · rw [AList.lookup_insert_ne hother] at hfound
      exact h.party other found hfound
  packet := h.packet
  src := fun p hp => lookup_insert_ne_none _ _ _ (h.src p hp)

theorem Sound.put (hI : I.Stable) (h : Sound I s) {result : σ × List (α × μ)}
    (hkeeps : I.Keeps s.sent addr result) : Sound I (s.put addr result) where
  party := by
    intro other found hfound
    by_cases hother : other = addr
    · subst hother
      rw [State.put, AList.lookup_insert] at hfound
      rw [← Option.some.inj hfound]
      exact hkeeps.party
    · rw [State.put, AList.lookup_insert_ne hother] at hfound
      refine hI.party (h.party other found hfound) ?_
      intro p hp
      rw [src_of_mem_post hp]
      exact Ne.symm hother
  packet := by
    intro p hp
    rcases List.mem_append.mp hp with hold | hnew
    · exact hI.packet (h.packet p hold)
    · exact hkeeps.packet p hnew
  src := by
    intro p hp
    rcases List.mem_append.mp hp with hold | hnew
    · exact lookup_insert_ne_none _ _ _ (h.src p hold)
    · rw [src_of_mem_post hnew, State.put, AList.lookup_insert]
      exact fun hnone => nomatch hnone

/-- What each kind of event has to keep. -/
structure Guards (I : Invariant α σ μ) (b : Behaviour α σ ι μ) (s : State α σ μ)
    (event : Event α σ ι) : Prop where
  enter : ∀ addr party, event = .enter addr party → s.parties.lookup addr = none →
    (∀ p ∈ s.sent, p.src ≠ addr) → I.party s.sent addr party
  act : ∀ addr input party, event = .act addr input → s.parties.lookup addr = some party →
    I.party s.sent addr party → I.Keeps s.sent addr (b.act party input)
  receive : ∀ index packet party, event = .deliver index → s.sent[index]? = some packet →
    s.parties.lookup packet.dst = some party → I.party s.sent packet.dst party →
    I.packet s.sent packet → I.Keeps s.sent packet.dst (b.receive party packet)

theorem sound_step (hI : I.Stable) (h : Sound I s) {event : Event α σ ι}
    (hguards : Guards I b s event) : Sound I (step b s event) := by
  cases event with
  | enter addr party =>
    cases hfree : s.parties.lookup addr with
    | none =>
      simp only [step, hfree]
      refine h.enter (hguards.enter addr party rfl hfree ?_)
      intro p hp hsrc
      exact h.src p hp (hsrc ▸ hfree)
    | some other =>
      simp only [step, hfree]
      exact h
  | act addr input =>
    cases hparty : s.parties.lookup addr with
    | none =>
      simp only [step, hparty]
      exact h
    | some party =>
      simp only [step, hparty]
      exact h.put hI (hguards.act addr input party rfl hparty (h.party addr party hparty))
  | deliver index =>
    cases hpacket : s.sent[index]? with
    | none =>
      simp only [step, hpacket]
      exact h
    | some packet =>
      cases hparty : s.parties.lookup packet.dst with
      | none =>
        simp only [step, hpacket, hparty]
        exact h
      | some party =>
        simp only [step, hpacket, hparty]
        refine h.put hI (hguards.receive index packet party rfl hpacket hparty ?_ ?_)
        · exact h.party packet.dst party hparty
        · exact h.packet packet (List.mem_of_getElem? hpacket)

/-! ## Who is there -/

/-- A party stays. -/
theorem lookup_step_ne_none (b : Behaviour α σ ι μ) (event : Event α σ ι)
    (h : s.parties.lookup addr ≠ none) : (step b s event).parties.lookup addr ≠ none := by
  cases event with
  | enter other party =>
    cases hother : s.parties.lookup other with
    | none =>
      simp only [step, hother]
      exact lookup_insert_ne_none _ _ _ h
    | some found =>
      simp only [step, hother]
      exact h
  | act other input =>
    cases hother : s.parties.lookup other with
    | none =>
      simp only [step, hother]
      exact h
    | some found =>
      simp only [step, hother]
      exact lookup_insert_ne_none _ _ _ h
  | deliver index =>
    cases hpacket : s.sent[index]? with
    | none =>
      simp only [step, hpacket]
      exact h
    | some packet =>
      cases hdst : s.parties.lookup packet.dst with
      | none =>
        simp only [step, hpacket, hdst]
        exact h
      | some found =>
        simp only [step, hpacket, hdst]
        exact lookup_insert_ne_none _ _ _ h

theorem lookup_enter_ne_none (b : Behaviour α σ ι μ) (s : State α σ μ) (addr : α) (party : σ) :
    (step b s (.enter addr party)).parties.lookup addr ≠ none := by
  cases haddr : s.parties.lookup addr with
  | none =>
    simp only [step, haddr]
    rw [AList.lookup_insert]
    exact fun hnone => nomatch hnone
  | some found =>
    simp only [step, haddr]
    exact fun hnone => nomatch hnone

theorem forall_lookup_iff {parties : AList fun _ : α => σ} {P : σ → Prop} :
    (∀ addr party, parties.lookup addr = some party → P party) ↔
      ∀ entry ∈ parties.entries, P entry.2 := by
  constructor
  · rintro h ⟨addr, party⟩ hmem
    exact h addr party (AList.mem_lookup_iff.mpr hmem)
  · intro h addr party hparty
    exact h ⟨addr, party⟩ (AList.mem_lookup_iff.mp hparty)

/-- An address at which a party has come in is taken. -/
theorem lookup_run_ne_none (b : Behaviour α σ ι μ) (s : State α σ μ) {events : List (Event α σ ι)}
    {party : σ} (hmem : .enter addr party ∈ events) :
    (run (step b) s events).parties.lookup addr ≠ none := by
  obtain ⟨before, after, rfl⟩ := List.append_of_mem hmem
  rw [run_append, run_cons]
  refine invariant (P := fun s : State α σ μ => s.parties.lookup addr ≠ none) ?_
    (lookup_enter_ne_none b _ addr party) after
  intro _ event h
  exact lookup_step_ne_none b event h

/-! ## Packets that are encoded -/

/-- The same parties, with the packets in the form in which they travel. -/
structure Encodes {β : Type} (w : Wire μ β) (s : State α σ μ) (t : State α σ β) : Prop where
  parties : ∀ addr, t.parties.lookup addr = s.parties.lookup addr
  sent : t.sent = s.sent.map w.packet

section Wire

variable {β : Type} {w : Wire μ β} {t : State α σ β}

theorem encodes_start (w : Wire μ β) : Encodes w (start : State α σ μ) start where
  parties := fun _ => rfl
  sent := rfl

theorem lookup_insert_congr {parties parties' : AList fun _ : α => σ}
    (h : ∀ addr, parties'.lookup addr = parties.lookup addr) (addr : α) (party : σ) (other : α) :
    (parties'.insert addr party).lookup other = (parties.insert addr party).lookup other := by
  by_cases hother : other = addr
  · subst hother
    rw [AList.lookup_insert, AList.lookup_insert]
  · rw [AList.lookup_insert_ne hother, AList.lookup_insert_ne hother, h]

theorem Encodes.put (h : Encodes w s t) (addr : α) (result : σ × List (α × μ)) :
    Encodes w (s.put addr result) (t.put addr (w.outgoing result)) where
  parties := lookup_insert_congr h.parties addr result.1
  sent := by
    show t.sent ++ _ = (s.sent ++ _).map _
    rw [List.map_append, h.sent, w.post_outgoing]

/-- A party that makes nothing of a packet. -/
theorem Encodes.ignore (h : Encodes w s t) {party : σ} (hparty : t.parties.lookup addr = some party) :
    Encodes w s (t.put addr (party, [])) where
  parties := by
    intro other
    rw [← h.parties, State.put]
    by_cases hother : other = addr
    · subst hother
      rw [AList.lookup_insert, hparty]
    · rw [AList.lookup_insert_ne hother]
  sent := (List.append_nil _).trans h.sent

/-- A step behind the wire is the same step, or it loses a packet. -/
theorem encodes_step (h : Encodes w s t) (hcarries : ∀ p ∈ s.sent, w.Carries p.message)
    (event : Event α σ ι) :
    Encodes w (step b s event) (step (b.over w) t event) ∨
      Encodes w s (step (b.over w) t event) ∧ ∃ p ∈ t.sent, w.decode p.message = [] := by
  cases event with
  | enter addr party =>
    simp only [step, h.parties]
    split
    · exact .inl ⟨lookup_insert_congr h.parties addr party, h.sent⟩
    · exact .inl h
  | act addr input =>
    simp only [step, h.parties]
    split
    · exact .inl h
    · exact .inl (h.put addr _)
  | deliver index =>
    have hpacket : t.sent[index]? = s.sent[index]?.map w.packet := by rw [h.sent, List.getElem?_map]
    cases hfound : s.sent[index]? with
    | none =>
      rw [hfound] at hpacket
      simp only [step, hfound, hpacket, Option.map_none]
      exact .inl h
    | some p =>
      rw [hfound] at hpacket
      have hdst : t.parties.lookup (w.packet p).dst = s.parties.lookup p.dst := h.parties p.dst
      cases hparty : s.parties.lookup p.dst with
      | none =>
        simp only [step, hfound, hpacket, Option.map_some, hdst, hparty]
        exact .inl h
      | some party =>
        rw [hparty] at hdst
        simp only [step, hfound, hpacket, Option.map_some, hdst, hparty]
        rcases hcarries p (List.mem_of_getElem? hfound) with hread | hlost
        · have hreceive : (b.over w).receive party (w.packet p) =
              w.outgoing (b.receive party p) := by
            show w.outgoing (b.receiveAll p.src p.dst party (w.decode (w.encode p.message))) = _
            rw [hread]
            simp only [Behaviour.receiveAll, List.append_nil]
          rw [hreceive]
          exact .inl (h.put p.dst _)
        · have hreceive : (b.over w).receive party (w.packet p) = (party, []) := by
            show w.outgoing (b.receiveAll p.src p.dst party (w.decode (w.encode p.message))) = _
            rw [hlost]
            rfl
          rw [hreceive]
          exact .inr ⟨h.ignore hdst, w.packet p, List.mem_of_getElem? hpacket, hlost⟩

theorem sent_subset_step (b : Behaviour α σ ι μ) (s : State α σ μ) (event : Event α σ ι) :
    s.sent ⊆ (step b s event).sent := by
  have hput : ∀ addr result, s.sent ⊆ (s.put addr result).sent :=
    fun addr result => List.subset_append_left _ _
  have hrefl : s.sent ⊆ s.sent := fun _ hp => hp
  cases event with
  | enter addr party =>
    simp only [step]
    split <;> exact hrefl
  | act addr input =>
    simp only [step]
    split
    · exact hrefl
    · exact hput _ _
  | deliver index =>
    simp only [step]
    split
    · exact hrefl
    · split
      · exact hrefl
      · exact hput _ _

/-- A run behind a wire that carries the messages is a run, in which some deliveries may be
missing.  None is missing if everything that is sent can be read. -/
theorem exists_run_of_encoded {events : List (Event α σ ι)}
    {ok : State α σ μ → Event α σ ι → Prop} {ok' : State α σ β → Event α σ ι → Prop}
    (hok : ∀ s t event, Encodes w (step b s event) (step (b.over w) t event) → ok' t event →
      ok s event)
    (hcarries : ∀ es : List (Event α σ ι), es.Sublist events → Meets (step b) ok start es →
      ∀ p ∈ (run (step b) start es).sent, w.Carries p.message)
    (hmeets : Meets (step (b.over w)) ok' start events) :
    ∃ es : List (Event α σ ι), es.Sublist events ∧ Meets (step b) ok start es ∧
      Encodes w (run (step b) start es) (run (step (b.over w)) start events) ∧
      ((∀ p ∈ (run (step (b.over w)) start events).sent, w.decode p.message ≠ []) →
        es = events) := by
  induction events using List.reverseRecOn with
  | nil => exact ⟨[], .slnil, trivial, encodes_start w, fun _ => rfl⟩
  | append_singleton events event ih =>
    obtain ⟨hbefore, hlast, -⟩ := meets_append.mp hmeets
    have hprefix : events.Sublist (events ++ [event]) := List.sublist_append_left _ _
    obtain ⟨es, hsub, hes, hencodes, hall⟩ :=
      ih (fun es hsub => hcarries es (hsub.trans hprefix)) hbefore
    have hcarried := hcarries es (hsub.trans hprefix) hes
    rw [run_concat]
    rcases encodes_step hencodes hcarried event with hstep | ⟨hstep, p, hp, hlost⟩
    · refine ⟨es ++ [event], hsub.append (.refl _), ?_, ?_, ?_⟩
      · exact meets_append.mpr ⟨hes, hok _ _ event hstep hlast, trivial⟩
      · rwa [run_concat]
      · intro hread
        rw [hall fun p hp => hread p (sent_subset_step _ _ event hp)]
    · refine ⟨es, hsub.trans hprefix, hes, hstep, ?_⟩
      intro hread
      exact absurd hlost (hread p (sent_subset_step _ _ event hp))

end Wire

end Exchange

end Lib
end Kademlia
