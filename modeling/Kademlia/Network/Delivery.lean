import Mathlib.Data.List.Perm.Basic
import Kademlia.Network.Transport

/-!
# Which responses reach their caller

A response that is delivered while its request is registered goes into the channel of
the call and is what the call returns.  A response that is delivered between `send` and
the registration finds no entry and is dropped.  Nothing else is lost: the main result
says for every delivery in every run that the reply is returned exactly when its
request is registered at that moment.
-/

namespace Kademlia

open Lib

namespace Transport

/-- The wait of the call has timed out. -/
def Phase.TimedOut : Phase → Prop
  | .expired => True
  | .returned (.error .timeout) => True
  | _ => False

/-! ## Registered calls -/

/-- Every entry of the map belongs to a call of its identifier that waits, or whose wait
has timed out. -/
def Registered (s : State) : Prop :=
  ∀ (id : MessageId) (c : Nat), s.pending.lookup id = some c →
    ∃ call, s.calls[c]? = some call ∧ call.requestId = id ∧
      (call.phase = .waiting ∨ call.phase.TimedOut)

theorem registered_start : Registered start := fun _ _ h => nomatch h

/-- The rule for a change to the calls and the entry of one identifier. -/
theorem Registered.of_local {s s' : State} (h : Registered s) (id : MessageId)
    (hcalls : ∀ (c : Nat) (call : Call), s.calls[c]? = some call → call.requestId ≠ id →
      s'.calls[c]? = some call)
    (hpending : ∀ id', id' ≠ id → s'.pending.lookup id' = s.pending.lookup id')
    (hself : ∀ c, s'.pending.lookup id = some c →
      s'.calls[c]? = some { requestId := id, phase := .waiting }) : Registered s' := by
  intro id' c hlookup
  by_cases hid : id' = id
  · subst hid
    exact ⟨_, hself c hlookup, rfl, .inl rfl⟩
  · rw [hpending id' hid] at hlookup
    obtain ⟨call, hcall, hreq, hphase⟩ := h id' c hlookup
    exact ⟨call, hcalls c call hcall (hreq ▸ hid), hreq, hphase⟩

/-- A phase may move to one that waits or has timed out, and to any other when no entry
belongs to the call. -/
theorem Registered.setPhase {s : State} (h : Registered s) {c : Nat} {phase : Phase}
    (hphase : phase = .waiting ∨ phase.TimedOut ∨ ∀ id, s.pending.lookup id ≠ some c) :
    Registered (s.setPhase c phase) := by
  intro id c' hlookup
  obtain ⟨call, hcall, hreq, hold⟩ := h id c' hlookup
  by_cases hc : c = c'
  · subst hc
    refine ⟨{ call with phase := phase }, by simp [getElem?_setPhase, hcall], hreq, ?_⟩
    rcases hphase with hwaiting | htimedOut | hnone
    · exact .inl hwaiting
    · exact .inr htimedOut
    · exact absurd hlookup (hnone id)
  · exact ⟨call, by simp [getElem?_setPhase, hcall, hc], hreq, hold⟩

/-- No entry belongs to a call in another phase. -/
theorem Registered.lookup_ne {s : State} (h : Registered s) {c : Nat} {call : Call}
    (hcall : s.calls[c]? = some call) (hphase : call.phase ≠ .waiting)
    (htimedOut : ¬ call.phase.TimedOut) (id : MessageId) : s.pending.lookup id ≠ some c := by
  intro hlookup
  obtain ⟨call', hcall', -, hold⟩ := h id c hlookup
  obtain rfl : call = call' := Option.some.inj (hcall.symm.trans hcall')
  exact hold.elim hphase htimedOut

/-- Dropping the sender of an identifier leaves the calls of all others. -/
theorem Registered.getElem?_dropPending {s : State} (h : Registered s) {id : MessageId} {c : Nat}
    {call : Call} (hcall : s.calls[c]? = some call) (hne : call.requestId ≠ id) :
    (s.dropPending id).calls[c]? = some call := by
  unfold State.dropPending
  split
  · rename_i old hold
    rcases getElem?_dropSender s old c with heq | ⟨rfl, -⟩
    · rw [heq, hcall]
    · obtain ⟨call', hcall', hreq, -⟩ := h id c hold
      obtain rfl : call = call' := Option.some.inj (hcall.symm.trans hcall')
      exact absurd hreq hne
  · exact hcall

/-- Both ends of `wait_response` change only calls of their identifier. -/
theorem Registered.getElem?_of_ne {s : State} (h : Registered s) {c : Nat} {id : MessageId}
    {before : Phase} (hcall : s.calls[c]? = some { requestId := id, phase := before })
    (pending : AList fun _ : MessageId => Nat) (phase : Phase) {c' : Nat} {call : Call}
    (hcall' : s.calls[c']? = some call) (hne : call.requestId ≠ id) :
    ({ s.dropPending id with pending := pending }.setPhase c phase).calls[c']? = some call := by
  have hc : c ≠ c' := by
    rintro rfl
    rw [hcall] at hcall'
    exact hne (congrArg Call.requestId (Option.some.inj hcall')).symm
  rw [getElem?_setPhase, h.getElem?_dropPending hcall' hne]
  simp [hc]

theorem Registered.waitResponse {s : State} (h : Registered s) {c : Nat} {id : MessageId}
    (hcall : s.calls[c]? = some { requestId := id, phase := .sent }) :
    Registered (s.waitResponse c id) := by
  refine h.of_local id (fun c' call' => h.getElem?_of_ne hcall _ _) ?_ ?_
  · intro id' hid
    exact AList.lookup_insert_ne hid
  · intro c' hlookup
    have hinsert : (s.waitResponse c id).pending.lookup id = some c := AList.lookup_insert s.pending
    obtain rfl : c = c' := Option.some.inj (hinsert.symm.trans hlookup)
    rw [State.waitResponse, getElem?_setPhase,
      getElem?_dropPending_of_ne_waiting hcall fun h => nomatch h]
    simp

theorem Registered.removePending {s : State} (h : Registered s) {c : Nat} {id : MessageId}
    (hcall : s.calls[c]? = some { requestId := id, phase := .expired }) :
    Registered (s.removePending c id) := by
  refine h.of_local id (fun c' call' => h.getElem?_of_ne hcall _ _) ?_ ?_
  · intro id' hid
    exact AList.lookup_erase_ne hid
  · intro c' hlookup
    have herase : (s.removePending c id).pending.lookup id = none := AList.lookup_erase id s.pending
    rw [herase] at hlookup
    cases hlookup

theorem Registered.deliverResponse {s : State} (h : Registered s) (reply : Reply) :
    Registered (s.deliverResponse reply) := by
  unfold State.deliverResponse
  split
  · rename_i c hlookup
    obtain ⟨call, hcall, hreq, -⟩ := h _ c hlookup
    have herased : ∀ s' : State, s'.calls = s.calls →
        s'.pending = s.pending.erase reply.message.requestId → Registered (s'.sendTo c reply) := by
      intro s' hcalls hpending
      refine h.of_local reply.message.requestId ?_ ?_ ?_
      · intro c' call' hcall' hne
        have hc : c ≠ c' := by
          rintro rfl
          obtain rfl : call = call' := Option.some.inj (hcall.symm.trans hcall')
          exact hne hreq
        rcases sendTo_cases s' c reply with heq | ⟨id, -, heq⟩
        · rw [heq, hcalls, hcall']
        · rw [heq, getElem?_setPhase, hcalls, hcall']
          simp [hc]
      · intro id' hid
        rw [sendTo_pending, hpending]
        exact AList.lookup_erase_ne hid
      · intro c' hlookup'
        rw [sendTo_pending, hpending, AList.lookup_erase] at hlookup'
        cases hlookup'
    exact herased _ rfl rfl
  · exact h

/-- A call that moves on its own has timed out or has no entry. -/
theorem Registered.move {s : State} (h : Registered s) {c : Nat} {call : Call} {phase : Phase}
    (hcall : s.calls[c]? = some call) (hmove : OwnMove call.phase phase) :
    Registered (s.setPhase c phase) := by
  obtain ⟨id, before⟩ := call
  cases hmove with
  | wake reply => exact h.setPhase (.inr (.inr (h.lookup_ne hcall (fun h => by cases h) not_false)))
  | wakeClosed => exact h.setPhase (.inr (.inr (h.lookup_ne hcall (fun h => by cases h) not_false)))
  | expire => exact h.setPhase (.inr (.inl trivial))
  | cancel => exact h.setPhase (.inr (.inl trivial))
  | timeout => exact h.setPhase (.inr (.inl trivial))

theorem Registered.step {s : State} (h : Registered s) (kind : Kind) (event : Event) :
    Registered (step kind s event) := by
  have hspec := step_spec kind s event
  generalize Transport.step kind s event = s' at hspec
  generalize delivers kind s event = delivered at hspec
  cases hspec with
  | idle => exact h
  | send id =>
    intro id' c hlookup
    obtain ⟨call, hcall, hold⟩ := h id' c hlookup
    exact ⟨call, getElem?_concat_of_some hcall _, hold⟩
  | register hcall => exact h.waitResponse hcall
  | depart => exact h
  | direct message =>
    have h' : Registered { s with
        requests := s.requests.erase message.requestId, replies := s.replies + 1 } := h
    exact h'.deliverResponse _
  | @arrive index =>
    have h' : Registered { s with arriving := s.arriving.eraseIdx index } := h
    exact h'.deliverResponse _
  | move hcall hmove => exact h.move hcall hmove
  | unregister hcall => exact h.removePending hcall

/-! ## Reply numbers -/

/-- The call has the reply in its channel or has returned it. -/
def Call.Holds (call : Call) (reply : Reply) : Prop :=
  call.phase = .filled reply ∨ call.phase = .returned (.ok reply)

theorem PhaseStep.holds {delivered : Option Reply} {before phase : Phase} {reply : Reply}
    (h : PhaseStep delivered before phase)
    (hholds : phase = .filled reply ∨ phase = .returned (.ok reply)) :
    (before = .filled reply ∨ before = .returned (.ok reply)) ∨ delivered = some reply := by
  rcases hholds with rfl | rfl
  · cases h with
    | stay => exact .inl (.inl rfl)
    | fill hdelivered => exact .inr hdelivered
  · cases h with
    | stay => exact .inl (.inr rfl)
    | wake => exact .inl (.inl rfl)

/-- A reply that a call holds was there before or was just delivered. -/
theorem Evolves.holds {delivered : Option Reply} {calls calls' : List Call}
    (h : Evolves delivered calls calls') {c : Nat} {call : Call} {reply : Reply}
    (hcall : calls'[c]? = some call) (hholds : call.Holds reply) :
    (∃ before, calls[c]? = some before ∧ before.Holds reply) ∨ delivered = some reply := by
  rcases hbefore : calls[c]? with _ | before
  · have hsent := h.new c call hcall hbefore
    rw [Call.Holds, hsent] at hholds
    rcases hholds with hholds | hholds <;> cases hholds
  · obtain ⟨phase, hphase, hstep⟩ := h.old c before hbefore
    obtain rfl : { before with phase := phase } = call :=
      Option.some.inj (hphase.symm.trans hcall)
    exact (hstep.holds hholds).imp_left fun hbefore => ⟨before, rfl, hbefore⟩

/-- No reply has the number `n`, and none will get it. -/
structure Gone (s : State) (n : Nat) : Prop where
  lt : n < s.replies
  arriving : ∀ reply ∈ s.arriving, reply.number ≠ n
  calls : ∀ (c : Nat) (call : Call) (reply : Reply), s.calls[c]? = some call →
    call.Holds reply → reply.number ≠ n

/-- Numbers are given out in order, and each is in one place. -/
structure Numbered (s : State) : Prop where
  nodup : (s.arriving.map Reply.number).Nodup
  lt : ∀ reply ∈ s.arriving, reply.number < s.replies
  calls : ∀ (c : Nat) (call : Call) (reply : Reply), s.calls[c]? = some call →
    call.Holds reply → reply.number < s.replies ∧
      ∀ other ∈ s.arriving, other.number ≠ reply.number

/-- What an event does to the replies on their way. -/
inductive Flow (s : State) : Option Reply → State → Prop where
  | idle {s' : State} (harriving : s'.arriving = s.arriving) (hreplies : s'.replies = s.replies) :
      Flow s none s'
  | depart {s' : State} (message : ResponseMessage)
      (harriving : s'.arriving = s.arriving ++ [{ number := s.replies, message := message }])
      (hreplies : s'.replies = s.replies + 1) : Flow s none s'
  | arrive {s' : State} {index : Nat} {reply : Reply} (hindex : s.arriving[index]? = some reply)
      (harriving : s'.arriving = s.arriving.eraseIdx index) (hreplies : s'.replies = s.replies) :
      Flow s (some reply) s'
  | direct {s' : State} (message : ResponseMessage) (harriving : s'.arriving = s.arriving)
      (hreplies : s'.replies = s.replies + 1) :
      Flow s (some { number := s.replies, message := message }) s'

theorem deliverResponse_flow (s : State) (reply : Reply) :
    (s.deliverResponse reply).arriving = s.arriving ∧
      (s.deliverResponse reply).replies = s.replies := by
  unfold State.deliverResponse
  split
  · unfold State.sendTo
    split <;> exact ⟨rfl, rfl⟩
  · exact ⟨rfl, rfl⟩

theorem dropPending_flow (s : State) (id : MessageId) :
    (s.dropPending id).arriving = s.arriving ∧ (s.dropPending id).replies = s.replies := by
  unfold State.dropPending
  split
  · unfold State.dropSender
    split <;> exact ⟨rfl, rfl⟩
  · exact ⟨rfl, rfl⟩

theorem StepSpec.flow {s s' : State} {event : Event} {delivered : Option Reply}
    (h : StepSpec s event delivered s') : Flow s delivered s' := by
  cases h with
  | idle => exact .idle rfl rfl
  | send => exact .idle rfl rfl
  | register => exact .idle (dropPending_flow s _).1 (dropPending_flow s _).2
  | depart message => exact .depart message rfl rfl
  | direct message =>
    have hflow := deliverResponse_flow { s with
      requests := s.requests.erase message.requestId, replies := s.replies + 1 }
      { number := s.replies, message := message }
    exact .direct message hflow.1 hflow.2
  | @arrive index reply hindex =>
    have hflow := deliverResponse_flow { s with arriving := s.arriving.eraseIdx index } reply
    exact .arrive hindex hflow.1 hflow.2
  | move => exact .idle rfl rfl
  | unregister => exact .idle (dropPending_flow s _).1 (dropPending_flow s _).2

theorem flow_step (kind : Kind) (s : State) (event : Event) :
    Flow s (delivers kind s event) (step kind s event) :=
  (step_spec kind s event).flow

theorem number_ne_of_mem_eraseIdx {replies : List Reply} {index : Nat} {reply other : Reply}
    (hnodup : (replies.map Reply.number).Nodup) (hindex : replies[index]? = some reply)
    (hother : other ∈ replies.eraseIdx index) : other.number ≠ reply.number := by
  obtain ⟨hlt, rfl⟩ := List.getElem?_eq_some_iff.mp hindex
  have hperm := (List.getElem_cons_eraseIdx_perm hlt).map Reply.number
  have hnot := (List.nodup_cons.mp (hperm.nodup_iff.mpr hnodup)).1
  intro heq
  exact hnot (heq ▸ List.mem_map_of_mem hother)

/-- A reply that is delivered has a number of its own: no call holds it before, and none
is on its way afterwards. -/
theorem Numbered.delivered {s s' : State} {reply : Reply} (h : Numbered s)
    (hflow : Flow s (some reply) s') :
    reply.number < s'.replies ∧ (∀ other ∈ s'.arriving, other.number ≠ reply.number) ∧
      ∀ (c : Nat) (call : Call) (other : Reply), s.calls[c]? = some call → call.Holds other →
        other.number ≠ reply.number := by
  cases hflow with
  | arrive hindex harriving hreplies =>
    have hmem : reply ∈ s.arriving := List.mem_of_getElem? hindex
    refine ⟨hreplies ▸ h.lt reply hmem, ?_, ?_⟩
    · intro other hother
      rw [harriving] at hother
      exact number_ne_of_mem_eraseIdx h.nodup hindex hother
    · intro c call other hcall hholds
      exact fun heq => (h.calls c call other hcall hholds).2 reply hmem heq.symm
  | direct message harriving hreplies =>
    refine ⟨by simp only [hreplies]; omega, ?_, ?_⟩
    · intro other hother
      rw [harriving] at hother
      exact Nat.ne_of_lt (h.lt other hother)
    · intro c call other hcall hholds
      exact Nat.ne_of_lt (h.calls c call other hcall hholds).1

theorem numbered_start : Numbered start :=
  ⟨List.nodup_nil, (fun _ h => nomatch h), fun _ _ _ h => nomatch h⟩

/-- The rule for any change that moves the replies as one of the flows and gives the calls
no reply but the one delivered. -/
theorem Numbered.of_flow {s s' : State} {delivered : Option Reply} (h : Numbered s)
    (hheld : ∀ (c : Nat) (call : Call) (reply : Reply), s'.calls[c]? = some call →
      call.Holds reply →
      (∃ before, s.calls[c]? = some before ∧ before.Holds reply) ∨ delivered = some reply)
    (hflow : Flow s delivered s') : Numbered s' := by
  have hcalls : ∀ (c : Nat) (call : Call) (reply : Reply), s'.calls[c]? = some call →
      call.Holds reply → delivered ≠ some reply → ∃ before, s.calls[c]? = some before ∧
        before.Holds reply :=
    fun c call reply hcall hholds hne => (hheld c call reply hcall hholds).resolve_right hne
  cases hflow with
  | idle harriving hreplies =>
    refine ⟨harriving ▸ h.nodup, ?_, ?_⟩
    · rw [harriving, hreplies]
      exact h.lt
    · intro c call reply hcall hholds
      obtain ⟨before, hbefore, hheld⟩ := hcalls c call reply hcall hholds fun h => nomatch h
      rw [harriving, hreplies]
      exact h.calls c before reply hbefore hheld
  | depart message harriving hreplies =>
    refine ⟨?_, ?_, ?_⟩
    · rw [harriving, List.map_append, List.map_singleton, List.nodup_append_comm,
        List.singleton_append, List.nodup_cons]
      refine ⟨fun hmem => ?_, h.nodup⟩
      obtain ⟨reply, hreply, heq⟩ := List.mem_map.mp hmem
      exact Nat.ne_of_lt (h.lt reply hreply) heq
    · intro reply hreply
      rw [harriving, List.mem_append, List.mem_singleton] at hreply
      rw [hreplies]
      rcases hreply with hreply | rfl
      · exact Nat.lt_succ_of_lt (h.lt reply hreply)
      · exact Nat.lt_succ_self _
    · intro c call reply hcall hholds
      obtain ⟨before, hbefore, hheld⟩ := hcalls c call reply hcall hholds fun h => nomatch h
      obtain ⟨hlt, hne⟩ := h.calls c before reply hbefore hheld
      refine ⟨hreplies ▸ Nat.lt_succ_of_lt hlt, fun other hother => ?_⟩
      rw [harriving, List.mem_append, List.mem_singleton] at hother
      rcases hother with hother | rfl
      · exact hne other hother
      · exact Nat.ne_of_gt hlt
  | @arrive _ index reply hindex harriving hreplies =>
    have hsub : s'.arriving.Sublist s.arriving := harriving ▸ List.eraseIdx_sublist _ _
    have hown := h.delivered (.arrive hindex harriving hreplies)
    refine ⟨h.nodup.sublist (hsub.map _), ?_, ?_⟩
    · intro other hother
      exact hreplies ▸ h.lt other (hsub.subset hother)
    · intro c call reply' hcall hholds
      rcases hheld c call reply' hcall hholds with ⟨before, hbefore, hbeforeHolds⟩ | heq
      · obtain ⟨hlt, hne⟩ := h.calls c before reply' hbefore hbeforeHolds
        exact ⟨hreplies ▸ hlt, fun other hother => hne other (hsub.subset hother)⟩
      · obtain rfl := Option.some.inj heq
        exact ⟨hown.1, hown.2.1⟩
  | direct message harriving hreplies =>
    have hown := h.delivered (.direct message harriving hreplies)
    refine ⟨harriving ▸ h.nodup, ?_, ?_⟩
    · intro other hother
      rw [harriving] at hother
      exact hreplies ▸ Nat.lt_succ_of_lt (h.lt other hother)
    · intro c call reply' hcall hholds
      rcases hheld c call reply' hcall hholds with ⟨before, hbefore, hbeforeHolds⟩ | heq
      · obtain ⟨hlt, hne⟩ := h.calls c before reply' hbefore hbeforeHolds
        rw [harriving]
        exact ⟨hreplies ▸ Nat.lt_succ_of_lt hlt, hne⟩
      · obtain rfl := Option.some.inj heq
        exact ⟨hown.1, hown.2.1⟩

theorem Numbered.step {s : State} (h : Numbered s) (kind : Kind) (event : Event) :
    Numbered (step kind s event) :=
  h.of_flow (fun _ _ _ hcall hholds => (evolves_step kind s event).holds hcall hholds)
    (flow_step kind s event)

theorem Gone.step {s : State} {n : Nat} (h : Gone s n) (kind : Kind) (event : Event) :
    Gone (step kind s event) n := by
  have hevolves := evolves_step kind s event
  have hflow := flow_step kind s event
  generalize delivers kind s event = delivered at hevolves hflow
  generalize Transport.step kind s event = s' at hevolves hflow
  have hcalls : (∀ reply, delivered = some reply → reply.number ≠ n) →
      ∀ (c : Nat) (call : Call) (reply : Reply), s'.calls[c]? = some call → call.Holds reply →
        reply.number ≠ n := by
    intro hdelivered c call reply hcall hholds
    rcases hevolves.holds hcall hholds with ⟨before, hbefore, hheld⟩ | heq
    · exact h.calls c before reply hbefore hheld
    · exact hdelivered reply heq
  cases hflow with
  | idle harriving hreplies =>
    exact ⟨hreplies ▸ h.lt, harriving ▸ h.arriving, hcalls fun _ h => nomatch h⟩
  | depart message harriving hreplies =>
    refine ⟨hreplies ▸ Nat.lt_succ_of_lt h.lt, ?_, hcalls fun _ h => nomatch h⟩
    intro reply hreply
    rw [harriving, List.mem_append, List.mem_singleton] at hreply
    rcases hreply with hreply | rfl
    · exact h.arriving reply hreply
    · exact Nat.ne_of_gt h.lt
  | arrive hindex harriving hreplies =>
    refine ⟨hreplies ▸ h.lt, ?_, hcalls fun reply heq => ?_⟩
    · intro other hother
      rw [harriving] at hother
      exact h.arriving other (List.mem_of_mem_eraseIdx hother)
    · exact h.arriving reply (Option.some.inj heq ▸ List.mem_of_getElem? hindex)
  | direct message harriving hreplies =>
    refine ⟨hreplies ▸ Nat.lt_succ_of_lt h.lt, harriving ▸ h.arriving, hcalls fun reply heq => ?_⟩
    rw [← Option.some.inj heq]
    exact Nat.ne_of_gt h.lt

/-! ## The fate of a delivered reply -/

theorem step_of_delivers {kind : Kind} {s : State} {event : Event} {reply : Reply}
    (h : delivers kind s event = some reply) :
    ∃ s₀ : State, step kind s event = s₀.deliverResponse reply ∧ s₀.calls = s.calls ∧
      s₀.pending = s.pending := by
  have hspec := step_spec kind s event
  rw [h] at hspec
  generalize step kind s event = s' at hspec
  cases hspec with
  | direct message =>
    exact ⟨{ s with
      requests := s.requests.erase message.requestId, replies := s.replies + 1 }, rfl, rfl, rfl⟩
  | @arrive index =>
    exact ⟨{ s with arriving := s.arriving.eraseIdx index }, rfl, rfl, rfl⟩

/-- A call that holds a reply holds it for good. -/
theorem holds_step {kind : Kind} {s : State} {c : Nat} {call : Call} {reply : Reply}
    (hcall : s.calls[c]? = some call) (hholds : call.Holds reply) (event : Event) :
    ∃ call', (step kind s event).calls[c]? = some call' ∧ call'.requestId = call.requestId ∧
      call'.Holds reply := by
  obtain ⟨phase, hphase, hstep⟩ := (evolves_step kind s event).old c call hcall
  refine ⟨_, hphase, rfl, ?_⟩
  obtain ⟨id, before⟩ := call
  rcases hholds with heq | heq
  · cases heq
    cases hstep with
    | stay => exact .inl rfl
    | wake => exact .inr rfl
  · cases heq
    cases hstep with
    | stay => exact .inr rfl

theorem holds_run {kind : Kind} {s : State} {c : Nat} {call : Call} {reply : Reply}
    (hcall : s.calls[c]? = some call) (hholds : call.Holds reply) (events : List Event) :
    ∃ call', (run (step kind) s events).calls[c]? = some call' ∧
      call'.requestId = call.requestId ∧ call'.Holds reply := by
  induction events generalizing s call with
  | nil => exact ⟨call, hcall, rfl, hholds⟩
  | cons event rest ih =>
    obtain ⟨call', hcall', hid, hholds'⟩ := holds_step hcall hholds event
    obtain ⟨call'', hcall'', hid', hholds''⟩ := ih hcall' hholds'
    exact ⟨call'', hcall'', hid'.trans hid, hholds''⟩

/-- Some call returns the reply: it has returned it, or does so when its task runs next. -/
def Returns (kind : Kind) (s : State) (reply : Reply) : Prop :=
  ∃ c : Nat, (step kind s (.wake c)).calls[c]? =
    some { requestId := reply.message.requestId, phase := .returned (.ok reply) }

theorem returns_of_holds {kind : Kind} {s : State} {c : Nat} {call : Call} {reply : Reply}
    (hcall : s.calls[c]? = some call) (hid : call.requestId = reply.message.requestId)
    (hholds : call.Holds reply) : Returns kind s reply := by
  refine ⟨c, ?_⟩
  obtain ⟨id, phase⟩ := call
  obtain rfl : id = reply.message.requestId := hid
  rcases hholds with heq | heq
  · cases heq
    simp [step, hcall, getElem?_setPhase]
  · cases heq
    simp [step, hcall]

/-- In every run, a reply that is delivered before the wait for its request has timed
out is returned exactly when the request is registered at that moment. -/
theorem returns_iff_registered (kind : Kind) (before : List Event) (event : Event)
    (after : List Event) (reply : Reply)
    (hdelivers : delivers kind (run (step kind) start before) event = some reply)
    (htimely : ∀ call ∈ (run (step kind) start before).calls,
      call.requestId = reply.message.requestId → ¬ call.phase.TimedOut) :
    Returns kind (run (step kind) start (before ++ event :: after)) reply ↔
      (run (step kind) start before).pending.lookup reply.message.requestId ≠ none := by
  have hregistered : Registered (run (step kind) start before) :=
    invariant (P := Registered) (fun _ event h => h.step kind event) registered_start before
  have hnumbered : Numbered (run (step kind) start before) :=
    invariant (P := Numbered) (fun _ event h => h.step kind event) numbered_start before
  rw [run_append, run_cons]
  generalize run (step kind) start before = s at hdelivers htimely hregistered hnumbered ⊢
  obtain ⟨s₀, hstep, hcalls, hpending⟩ := step_of_delivers hdelivers
  have hown := hnumbered.delivered (hdelivers ▸ flow_step kind s event)
  rcases hlookup : s.pending.lookup reply.message.requestId with _ | c
  · -- Nobody waits: the reply is dropped and its number does not come back.
    refine iff_of_false ?_ (fun h => h rfl)
    have hdropped : s₀.deliverResponse reply = s₀ := by
      simp only [State.deliverResponse, hpending, hlookup]
    have hgone : Gone (step kind s event) reply.number := by
      refine ⟨hown.1, hown.2.1, fun c call other hcall => ?_⟩
      rw [hstep, hdropped, hcalls] at hcall
      exact hown.2.2 c call other hcall
    have hgone' := invariant (P := fun s => Gone s reply.number)
      (fun _ event h => h.step kind event) hgone after
    rintro ⟨c, hreturned⟩
    exact (hgone'.step kind (.wake c)).calls c _ reply hreturned (.inr rfl) rfl
  · refine iff_of_true ?_ (fun h => nomatch h)
    obtain ⟨call, hcall, hid, hphase⟩ := hregistered _ c hlookup
    have hwaiting : call.phase = .waiting :=
      hphase.resolve_right (htimely call (List.mem_of_getElem? hcall) hid)
    obtain ⟨id, phase⟩ := call
    obtain rfl : id = reply.message.requestId := hid
    cases hwaiting
    have hfilled : (step kind s event).calls[c]? =
        some { requestId := reply.message.requestId, phase := .filled reply } := by
      rw [hstep]
      simp [State.deliverResponse, hpending, hlookup, State.sendTo, hcalls, hcall,
        getElem?_setPhase]
    obtain ⟨call', hcall', hid', hholds'⟩ := holds_run hfilled (.inl rfl) after
    exact returns_of_holds hcall' hid' hholds'

/-- The reply to a request that has been registered by then. -/
theorem returns_iff_registered_udp :
    Returns .udp (run (step .udp) start [.send 1, .handle (.pong 1 (Node.ofByte 0x80)),
      .register 0, .deliver 0]) { number := 0, message := .pong 1 (Node.ofByte 0x80) } := by
  have hiff := returns_iff_registered .udp
    [.send 1, .handle (.pong 1 (Node.ofByte 0x80)), .register 0] (.deliver 0) []
    { number := 0, message := .pong 1 (Node.ofByte 0x80) } rfl (by
      intro call hcall _
      obtain rfl := List.mem_singleton.mp hcall
      exact not_false)
  exact hiff.mpr (by decide +kernel)

theorem not_returns_of_waiting {kind : Kind} {s : State} {id : MessageId}
    (h : s.calls = [{ requestId := id, phase := .waiting }]) (reply : Reply) :
    ¬ Returns kind s reply := by
  rintro ⟨c, hc⟩
  have hwake : (step kind s (.wake c)).calls = s.calls := by
    cases c with
    | zero => simp [step, h]
    | succ c => simp [step, h]
  rw [hwake, h] at hc
  cases c with
  | zero => cases hc
  | succ c => cases hc

/-- A reply that is delivered before the wait for its request has timed out is always
returned. -/
def RepliesReturned (kind : Kind) : Prop :=
  ∀ (before : List Event) (event : Event) (after : List Event) (reply : Reply),
    delivers kind (run (step kind) start before) event = some reply →
    (∀ call ∈ (run (step kind) start before).calls,
      call.requestId = reply.message.requestId → ¬ call.phase.TimedOut) →
    Returns kind (run (step kind) start (before ++ event :: after)) reply

/-- Over each transport, a reply can be delivered between `send` and the registration,
and the call then waits in vain. -/
theorem early_reply_lost :
    ¬ RepliesReturned .udp ∧ ¬ RepliesReturned .tcp ∧ ¬ RepliesReturned .inMemory := by
  have hsent : ∀ call ∈ [{ requestId := 1, phase := .sent : Call }],
      call.requestId = 1 → ¬ call.phase.TimedOut := by
    intro call hcall _
    obtain rfl := List.mem_singleton.mp hcall
    exact not_false
  refine ⟨fun h => ?_, fun h => ?_, fun h => ?_⟩
  · have hreturns := h [.send 1, .handle (.pong 1 (Node.ofByte 0x80))] (.deliver 0) [.register 0]
      { number := 0, message := .pong 1 (Node.ofByte 0x80) } rfl hsent
    exact not_returns_of_waiting rfl _ hreturns
  · have hreturns := h [.send 1, .handle (.pong 1 (Node.ofByte 0x80))] (.deliver 0) [.register 0]
      { number := 0, message := .pong 1 (Node.ofByte 0x80) } rfl hsent
    exact not_returns_of_waiting rfl _ hreturns
  · have hreturns := h [.send 1] (.handle (.pong 1 (Node.ofByte 0x80))) [.register 0]
      { number := 0, message := .pong 1 (Node.ofByte 0x80) } rfl hsent
    exact not_returns_of_waiting rfl _ hreturns

end Transport

end Kademlia
