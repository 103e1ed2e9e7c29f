import Mathlib.Data.List.AList
import Kademlia.Lib.Run
import Kademlia.Lib.Slots
import Kademlia.Protocol.Message

/-!
# Requests and responses over a transport

The three transports share one design.  A requester hands a request to `send` and then
calls `wait_response`, which puts the sending half of a fresh channel into a map of
pending responses and waits for the other half.  A response that arrives takes the
channel of its request out of the map.  When there is none the response is dropped.

Over UDP and TCP a reply travels before it is delivered.  The in-memory transport
delivers it inside the `send` of the peer.  The steps of the requester, the peer and
the delivery are separate and come in any order.
-/

namespace Kademlia

open Lib

namespace Transport

inductive Kind where
  | udp
  | tcp
  | inMemory

/-- A response with a number that tells replies apart, also when they say the same. -/
structure Reply where
  number : Nat
  message : ResponseMessage
deriving DecidableEq

/-- The phases of one request: handed to `send`, registered by `wait_response`, with the
response in the channel, with the sending half dropped, with the timer expired and the
entry not yet taken out of the map, and at the end. -/
inductive Phase where
  | sent
  | waiting
  | filled (reply : Reply)
  | closed
  | expired
  | returned (result : Except Error Reply)

structure Call where
  requestId : MessageId
  phase : Phase

structure State where
  /-- Requests handed to `send` that the peer has not handled. -/
  requests : List MessageId
  /-- The number of replies sent so far. -/
  replies : Nat
  /-- Replies sent and not yet delivered. -/
  arriving : List Reply
  /-- `pending_responses`, with the call a channel belongs to. -/
  pending : AList fun _ : MessageId => Nat
  calls : List Call

inductive Event where
  | send (id : MessageId)
  | register (call : Nat)
  | handle (message : ResponseMessage)
  | deliver (index : Nat)
  | wake (call : Nat)
  | expire (call : Nat)
  | unregister (call : Nat)
  | cancel (call : Nat)

def start : State :=
  { requests := [], replies := 0, arriving := [], pending := ∅, calls := [] }

def State.setPhase (s : State) (call : Nat) (phase : Phase) : State :=
  { s with calls := s.calls.modify call fun c => { c with phase := phase } }

/-- The sending half of a channel is dropped, which a waiting receiver sees. -/
def State.dropSender (s : State) (call : Nat) : State :=
  match s.calls[call]?.map Call.phase with
  | some .waiting => s.setPhase call .closed
  | _ => s

/-- `sender.send(response)`, which fails when the receiver is gone. -/
def State.sendTo (s : State) (call : Nat) (reply : Reply) : State :=
  match s.calls[call]?.map Call.phase with
  | some .waiting => s.setPhase call (.filled reply)
  | _ => s

/-- Delivery of a response, the same in `handle_incoming`, `handle_connection` and
`deliver_response`. -/
def State.deliverResponse (s : State) (reply : Reply) : State :=
  match s.pending.lookup reply.message.requestId with
  | some call =>
    { s with pending := s.pending.erase reply.message.requestId }.sendTo call reply
  | none => s

/-- The sender in the entry of `id`, if there is one, is dropped. -/
def State.dropPending (s : State) (id : MessageId) : State :=
  match s.pending.lookup id with
  | some call => s.dropSender call
  | none => s

/-- The first critical section of `wait_response`.  An entry for the same identifier is
replaced. -/
def State.waitResponse (s : State) (call : Nat) (id : MessageId) : State :=
  { s.dropPending id with pending := s.pending.insert id call }.setPhase call .waiting

/-- The last critical section of `wait_response` after a timeout. -/
def State.removePending (s : State) (call : Nat) (id : MessageId) : State :=
  { s.dropPending id with pending := s.pending.erase id }.setPhase call
    (.returned (.error .timeout))

/-- The `send` of the peer, from where its reply is on its way or is delivered. -/
def State.reply (kind : Kind) (s : State) (message : ResponseMessage) : State :=
  let reply := { number := s.replies, message := message }
  let s' := { s with replies := s.replies + 1 }
  match kind with
  | .udp | .tcp => { s' with arriving := s'.arriving ++ [reply] }
  | .inMemory => s'.deliverResponse reply

/-- An event that is not enabled leaves the state as it is. -/
def step (kind : Kind) (s : State) : Event → State
  | .send id =>
    { s with
      requests := s.requests ++ [id]
      calls := s.calls ++ [{ requestId := id, phase := .sent }] }
  | .register call =>
    match s.calls[call]? with
    | some { requestId := id, phase := .sent } => s.waitResponse call id
    | _ => s
  | .handle message =>
    if message.requestId ∈ s.requests then
      State.reply kind { s with requests := s.requests.erase message.requestId } message
    else s
  | .deliver index =>
    match s.arriving[index]? with
    | some reply => { s with arriving := s.arriving.eraseIdx index }.deliverResponse reply
    | none => s
  | .wake call =>
    match s.calls[call]?.map Call.phase with
    | some (.filled reply) => s.setPhase call (.returned (.ok reply))
    | some .closed => s.setPhase call (.returned (.error (.network "Response channel closed")))
    | _ => s
  | .expire call =>
    match s.calls[call]?.map Call.phase with
    | some .waiting => s.setPhase call .expired
    | _ => s
  | .unregister call =>
    match s.calls[call]? with
    | some { requestId := id, phase := .expired } => s.removePending call id
    | _ => s
  -- The timeout around `wait_response` drops the wait wherever it stands.
  | .cancel call =>
    match s.calls[call]?.map Call.phase with
    | some .waiting | some .expired => s.setPhase call (.returned (.error .timeout))
    | _ => s

/-- The reply that an event delivers to the requester. -/
def delivers (kind : Kind) (s : State) : Event → Option Reply
  | .deliver index => s.arriving[index]?
  | .handle message =>
    match kind with
    | .inMemory =>
      if message.requestId ∈ s.requests then some { number := s.replies, message := message }
      else none
    | .udp | .tcp => none
  | _ => none

/-! ## The phases of a call -/

/-- What one event can do to the phase of a call. -/
inductive PhaseStep (delivered : Option Reply) : Phase → Phase → Prop where
  | stay (phase : Phase) : PhaseStep delivered phase phase
  | register : PhaseStep delivered .sent .waiting
  | fill {reply : Reply} (h : delivered = some reply) :
      PhaseStep delivered .waiting (.filled reply)
  | close : PhaseStep delivered .waiting .closed
  | expire : PhaseStep delivered .waiting .expired
  | cancel : PhaseStep delivered .waiting (.returned (.error .timeout))
  | timeout : PhaseStep delivered .expired (.returned (.error .timeout))
  | wake (reply : Reply) : PhaseStep delivered (.filled reply) (.returned (.ok reply))
  | wakeClosed :
      PhaseStep delivered .closed (.returned (.error (.network "Response channel closed")))

/-- One event moves the phases of the calls and adds calls that have only sent. -/
structure Evolves (delivered : Option Reply) (calls calls' : List Call) : Prop where
  old : ∀ (c : Nat) (call : Call), calls[c]? = some call →
    ∃ phase, calls'[c]? = some { call with phase := phase } ∧ PhaseStep delivered call.phase phase
  new : ∀ (c : Nat) (call : Call), calls'[c]? = some call → calls[c]? = none → call.phase = .sent

theorem Evolves.refl (delivered : Option Reply) (calls : List Call) :
    Evolves delivered calls calls := by
  constructor
  · intro c call hcall
    exact ⟨call.phase, hcall, .stay _⟩
  · intro c call hcall hnone
    rw [hnone] at hcall
    cases hcall

theorem getElem?_setPhase (s : State) (c : Nat) (phase : Phase) (c' : Nat) :
    (s.setPhase c phase).calls[c']? =
      s.calls[c']?.map fun call => if c = c' then { call with phase := phase } else call :=
  List.getElem?_modify _ _ _ _

/-- Moving one more call after the others. -/
theorem Evolves.setPhase {delivered : Option Reply} {calls : List Call} {s : State}
    (h : Evolves delivered calls s.calls) {c : Nat} {call : Call} {phase : Phase}
    (hcall : calls[c]? = some call) (hsame : s.calls[c]? = some call)
    (hphase : PhaseStep delivered call.phase phase) :
    Evolves delivered calls (s.setPhase c phase).calls := by
  constructor
  · intro c' call' hcall'
    rw [getElem?_setPhase]
    by_cases hc : c = c'
    · subst hc
      obtain rfl : call = call' := Option.some.inj (hcall.symm.trans hcall')
      exact ⟨phase, by simp [hsame], hphase⟩
    · obtain ⟨phase', hphase', hstep⟩ := h.old c' call' hcall'
      exact ⟨phase', by simp [hphase', hc], hstep⟩
  · intro c' call' hcall' hnone
    rw [getElem?_setPhase] at hcall'
    obtain ⟨call'', hcall'', rfl⟩ := Option.map_eq_some_iff.mp hcall'
    by_cases hc : c = c'
    · subst hc
      rw [hcall] at hnone
      cases hnone
    · rw [if_neg hc]
      exact h.new c' call'' hcall'' hnone

theorem evolves_setPhase (delivered : Option Reply) {s : State} {c : Nat} {call : Call}
    {phase : Phase} (hcall : s.calls[c]? = some call)
    (hphase : PhaseStep delivered call.phase phase) :
    Evolves delivered s.calls (s.setPhase c phase).calls :=
  (Evolves.refl delivered s.calls).setPhase hcall hcall hphase

theorem phase_eq_some {s : State} {c : Nat} {phase : Phase}
    (h : s.calls[c]?.map Call.phase = some phase) :
    ∃ id, s.calls[c]? = some { requestId := id, phase := phase } := by
  obtain ⟨call, hcall, rfl⟩ := Option.map_eq_some_iff.mp h
  exact ⟨call.requestId, hcall⟩

theorem dropSender_cases (s : State) (c : Nat) :
    s.dropSender c = s ∨ ∃ id, s.calls[c]? = some { requestId := id, phase := .waiting } ∧
      s.dropSender c = s.setPhase c .closed := by
  unfold State.dropSender
  split
  · rename_i hphase
    obtain ⟨id, hcall⟩ := phase_eq_some hphase
    exact .inr ⟨id, hcall, rfl⟩
  · exact .inl rfl

theorem sendTo_cases (s : State) (c : Nat) (reply : Reply) :
    s.sendTo c reply = s ∨ ∃ id, s.calls[c]? = some { requestId := id, phase := .waiting } ∧
      s.sendTo c reply = s.setPhase c (.filled reply) := by
  unfold State.sendTo
  split
  · rename_i hphase
    obtain ⟨id, hcall⟩ := phase_eq_some hphase
    exact .inr ⟨id, hcall, rfl⟩
  · exact .inl rfl

@[simp] theorem sendTo_pending (s : State) (c : Nat) (reply : Reply) :
    (s.sendTo c reply).pending = s.pending := by
  rcases sendTo_cases s c reply with heq | ⟨id, hcall, heq⟩
  · rw [heq]
  · rw [heq]
    rfl

/-- Dropping a sender closes one waiting call and leaves all others. -/
theorem getElem?_dropSender (s : State) (old c : Nat) :
    (s.dropSender old).calls[c]? = s.calls[c]? ∨
      c = old ∧ ∃ id, s.calls[c]? = some { requestId := id, phase := .waiting } ∧
        (s.dropSender old).calls[c]? = some { requestId := id, phase := .closed } := by
  rcases dropSender_cases s old with heq | ⟨id, hcall, heq⟩
  · exact .inl (by rw [heq])
  · by_cases hc : old = c
    · subst hc
      exact .inr ⟨rfl, id, hcall, by simp [heq, getElem?_setPhase, hcall]⟩
    · refine .inl ?_
      rw [heq, getElem?_setPhase]
      simp [hc]

theorem evolves_dropSender (delivered : Option Reply) (s : State) (c : Nat) :
    Evolves delivered s.calls (s.dropSender c).calls := by
  rcases dropSender_cases s c with heq | ⟨id, hcall, heq⟩
  · rw [heq]
    exact .refl _ _
  · rw [heq]
    exact evolves_setPhase delivered hcall .close

theorem evolves_dropPending (delivered : Option Reply) (s : State) (id : MessageId) :
    Evolves delivered s.calls (s.dropPending id).calls := by
  unfold State.dropPending
  split
  · exact evolves_dropSender delivered s _
  · exact .refl _ _

/-- A call that is not waiting keeps its phase when a sender is dropped. -/
theorem getElem?_dropPending_of_ne_waiting {s : State} {id : MessageId} {c : Nat} {call : Call}
    (hcall : s.calls[c]? = some call) (hphase : call.phase ≠ .waiting) :
    (s.dropPending id).calls[c]? = some call := by
  unfold State.dropPending
  split
  · rename_i old _
    rcases getElem?_dropSender s old c with heq | ⟨-, id', hwaiting, -⟩
    · rw [heq, hcall]
    · rw [hcall] at hwaiting
      exact absurd (congrArg Call.phase (Option.some.inj hwaiting)) hphase
  · exact hcall

theorem evolves_waitResponse (delivered : Option Reply) {s : State} {c : Nat} {id : MessageId}
    (hcall : s.calls[c]? = some { requestId := id, phase := .sent }) :
    Evolves delivered s.calls (s.waitResponse c id).calls := by
  refine Evolves.setPhase (evolves_dropPending delivered s id) hcall ?_ .register
  exact getElem?_dropPending_of_ne_waiting hcall fun h => nomatch h

theorem evolves_removePending (delivered : Option Reply) {s : State} {c : Nat} {id : MessageId}
    (hcall : s.calls[c]? = some { requestId := id, phase := .expired }) :
    Evolves delivered s.calls (s.removePending c id).calls := by
  refine Evolves.setPhase (evolves_dropPending delivered s id) hcall ?_ .timeout
  exact getElem?_dropPending_of_ne_waiting hcall fun h => nomatch h

theorem evolves_deliverResponse (s : State) (reply : Reply) :
    Evolves (some reply) s.calls (s.deliverResponse reply).calls := by
  unfold State.deliverResponse
  split
  · rename_i c _
    rcases sendTo_cases { s with pending := s.pending.erase reply.message.requestId } c reply with
      heq | ⟨id, hcall, heq⟩
    · rw [heq]
      exact .refl _ _
    · rw [heq]
      exact evolves_setPhase _ hcall (.fill rfl)
  · exact .refl _ _

/-! ## One event -/

/-- The moves that a registered call makes on its own, apart from the last critical section
of `wait_response`. -/
inductive OwnMove : Phase → Phase → Prop where
  | wake (reply : Reply) : OwnMove (.filled reply) (.returned (.ok reply))
  | wakeClosed : OwnMove .closed (.returned (.error (.network "Response channel closed")))
  | expire : OwnMove .waiting .expired
  | cancel : OwnMove .waiting (.returned (.error .timeout))
  | timeout : OwnMove .expired (.returned (.error .timeout))

theorem OwnMove.phaseStep {before phase : Phase} (h : OwnMove before phase)
    (delivered : Option Reply) : PhaseStep delivered before phase := by
  cases h with
  | wake reply => exact .wake reply
  | wakeClosed => exact .wakeClosed
  | expire => exact .expire
  | cancel => exact .cancel
  | timeout => exact .timeout

/-- What an event does, with the reply that it delivers. -/
inductive StepSpec (s : State) : Event → Option Reply → State → Prop where
  | idle (event : Event) : StepSpec s event none s
  | send (id : MessageId) :
      StepSpec s (.send id) none { s with
        requests := s.requests ++ [id]
        calls := s.calls ++ [{ requestId := id, phase := .sent }] }
  | register {c : Nat} {id : MessageId}
      (hcall : s.calls[c]? = some { requestId := id, phase := .sent }) :
      StepSpec s (.register c) none (s.waitResponse c id)
  | depart (message : ResponseMessage) (hmem : message.requestId ∈ s.requests) :
      StepSpec s (.handle message) none { s with
        requests := s.requests.erase message.requestId
        replies := s.replies + 1
        arriving := s.arriving ++ [{ number := s.replies, message := message }] }
  | direct (message : ResponseMessage) (hmem : message.requestId ∈ s.requests) :
      StepSpec s (.handle message) (some { number := s.replies, message := message })
        ({ s with
          requests := s.requests.erase message.requestId
          replies := s.replies + 1 }.deliverResponse { number := s.replies, message := message })
  | arrive {index : Nat} {reply : Reply} (hindex : s.arriving[index]? = some reply) :
      StepSpec s (.deliver index) (some reply)
        ({ s with arriving := s.arriving.eraseIdx index }.deliverResponse reply)
  | move {event : Event} {c : Nat} {call : Call} {phase : Phase}
      (hcall : s.calls[c]? = some call) (hmove : OwnMove call.phase phase) :
      StepSpec s event none (s.setPhase c phase)
  | unregister {c : Nat} {id : MessageId}
      (hcall : s.calls[c]? = some { requestId := id, phase := .expired }) :
      StepSpec s (.unregister c) none (s.removePending c id)

/-- An event that moves a call by a phase it is found in. -/
theorem StepSpec.of_phase {s : State} {event : Event} {c : Nat} {before phase : Phase}
    (hphase : s.calls[c]?.map Call.phase = some before) (hmove : OwnMove before phase) :
    StepSpec s event none (s.setPhase c phase) := by
  obtain ⟨id, hcall⟩ := phase_eq_some hphase
  exact .move hcall hmove

theorem step_spec (kind : Kind) (s : State) (event : Event) :
    StepSpec s event (delivers kind s event) (step kind s event) := by
  cases event with
  | send id => exact .send id
  | register c =>
    simp only [step, delivers]
    split
    · rename_i hcall
      exact .register hcall
    · exact .idle _
  | handle message =>
    by_cases hmem : message.requestId ∈ s.requests
    · simp only [step, delivers, if_pos hmem]
      cases kind with
      | inMemory => exact .direct message hmem
      | udp => exact .depart message hmem
      | tcp => exact .depart message hmem
    · simp only [step, delivers, if_neg hmem]
      cases kind <;> exact .idle _
  | deliver index =>
    simp only [step, delivers]
    rcases hindex : s.arriving[index]? with _ | reply
    · exact .idle _
    · exact .arrive hindex
  | wake c =>
    simp only [step, delivers]
    split
    · rename_i reply hphase
      exact .of_phase hphase (.wake reply)
    · rename_i hphase
      exact .of_phase hphase .wakeClosed
    · exact .idle _
  | expire c =>
    simp only [step, delivers]
    split
    · rename_i hphase
      exact .of_phase hphase .expire
    · exact .idle _
  | unregister c =>
    simp only [step, delivers]
    split
    · rename_i hcall
      exact .unregister hcall
    · exact .idle _
  | cancel c =>
    simp only [step, delivers]
    split
    · rename_i hphase
      exact .of_phase hphase .cancel
    · rename_i hphase
      exact .of_phase hphase .timeout
    · exact .idle _

theorem StepSpec.evolves {s s' : State} {event : Event} {delivered : Option Reply}
    (h : StepSpec s event delivered s') : Evolves delivered s.calls s'.calls := by
  cases h with
  | idle => exact .refl _ _
  | send id =>
    constructor
    · intro c call hcall
      exact ⟨call.phase, getElem?_concat_of_some hcall _, .stay _⟩
    · intro c call hcall hnone
      rcases getElem?_concat_cases hcall with hold | rfl
      · rw [hnone] at hold
        cases hold
      · rfl
  | register hcall => exact evolves_waitResponse _ hcall
  | depart => exact .refl _ _
  | direct message =>
    exact evolves_deliverResponse
      { s with requests := s.requests.erase message.requestId, replies := s.replies + 1 }
      { number := s.replies, message := message }
  | @arrive index reply =>
    exact evolves_deliverResponse { s with arriving := s.arriving.eraseIdx index } reply
  | move hcall hmove => exact evolves_setPhase _ hcall (hmove.phaseStep _)
  | unregister hcall => exact evolves_removePending _ hcall

theorem evolves_step (kind : Kind) (s : State) (event : Event) :
    Evolves (delivers kind s event) s.calls (step kind s event).calls :=
  (step_spec kind s event).evolves

end Transport

end Kademlia
