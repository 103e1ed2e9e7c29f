import Kademlia.Network.Delivery

/-!
# A transport open to the network

The network may hand over any response at any time: a duplicate, a late one, or one that
answers no request.  Besides, the caller of `wait_response` may drop the wait wherever
it stands.  The open transport has both in addition to the events of the transport.

Whatever the network does, a call that returns a response returns one for its own
request, no response is returned twice, and a response nobody waits for has no effect.
-/

namespace Kademlia

open Lib

namespace OpenTransport

open Transport

inductive Input where
  | event (event : Event)
  | incoming (message : ResponseMessage)
  | drop (call : Nat)

/-- A wait that has not ended is dropped.  Its caller gives up as after a timeout, and the
map of pending responses keeps its entry. -/
def dropCall (s : State) (call : Nat) : State :=
  match s.calls[call]?.map Call.phase with
  | none | some (.returned _) => s
  | some _ => s.setPhase call (.returned (.error .timeout))

def step (kind : Kind) (s : State) : Input → State
  | .event event => Transport.step kind s event
  | .incoming message =>
    { s with replies := s.replies + 1 }.deliverResponse { number := s.replies, message := message }
  | .drop call => dropCall s call

/-- The response that an input delivers. -/
def delivers (kind : Kind) (s : State) : Input → Option Reply
  | .event event => Transport.delivers kind s event
  | .incoming message => some { number := s.replies, message := message }
  | .drop _ => none

/-- Calls hold responses to their own requests. -/
def Matched (s : State) : Prop :=
  ∀ (c : Nat) (call : Call) (reply : Reply), s.calls[c]? = some call → call.Holds reply →
    reply.message.requestId = call.requestId

/-- No response is held by two calls. -/
def Unshared (s : State) : Prop :=
  ∀ (c c' : Nat) (call call' : Call) (reply reply' : Reply), s.calls[c]? = some call →
    s.calls[c']? = some call' → call.Holds reply → call'.Holds reply' →
    reply.number = reply'.number → c = c'

/-! ## One input -/

theorem dropCall_cases (s : State) (c : Nat) :
    dropCall s c = s ∨ ∃ call, s.calls[c]? = some call ∧ (∀ result, call.phase ≠ .returned result) ∧
      dropCall s c = s.setPhase c (.returned (.error .timeout)) := by
  unfold dropCall
  cases hcall : s.calls[c]? with
  | none => exact .inl rfl
  | some call =>
    obtain ⟨id, phase⟩ := call
    cases phase with
    | returned result => exact .inl rfl
    | _ => exact .inr ⟨_, rfl, (fun _ h => by cases h), rfl⟩

/-- A delivered response goes to the call in the entry of its identifier. -/
theorem delivers_spec {kind : Kind} {s : State} {input : Input} {reply : Reply}
    (h : delivers kind s input = some reply) :
    ∃ s₀ : State, step kind s input = s₀.deliverResponse reply ∧ s₀.calls = s.calls ∧
      s₀.pending = s.pending := by
  cases input with
  | event event => exact step_of_delivers h
  | incoming message =>
    obtain rfl := Option.some.inj h
    exact ⟨{ s with replies := s.replies + 1 }, rfl, rfl, rfl⟩
  | drop c => cases h

theorem deliverResponse_holds {s : State} {reply other : Reply} {c : Nat} {call : Call}
    (hcall : (s.deliverResponse reply).calls[c]? = some call) (hholds : call.Holds other) :
    (∃ before, s.calls[c]? = some before ∧ before.requestId = call.requestId ∧
      before.Holds other) ∨
    reply = other ∧ s.pending.lookup reply.message.requestId = some c := by
  unfold State.deliverResponse at hcall
  split at hcall
  · rename_i owner howner
    rcases sendTo_cases { s with pending := s.pending.erase reply.message.requestId } owner reply
      with heq | ⟨id, howned, heq⟩
    · rw [heq] at hcall
      exact .inl ⟨call, hcall, rfl, hholds⟩
    · rw [heq, getElem?_setPhase] at hcall
      by_cases hc : owner = c
      · subst hc
        rw [howned] at hcall
        simp only [if_true, Option.map_some, Option.some.injEq] at hcall
        subst hcall
        rcases hholds with hfilled | hreturned
        · exact .inr ⟨Phase.filled.inj hfilled, howner⟩
        · cases hreturned
      · simp only [hc, if_false, Option.map_id'] at hcall
        exact .inl ⟨call, hcall, rfl, hholds⟩
  · exact .inl ⟨call, hcall, rfl, hholds⟩

/-- Where a call has its response from: it had it before, or the response was just delivered
and the entry of its identifier belonged to the call. -/
theorem holds_cases {kind : Kind} {s : State} {input : Input} {c : Nat} {call : Call}
    {reply : Reply}
    (hcall : (step kind s input).calls[c]? = some call) (hholds : call.Holds reply) :
    (∃ before, s.calls[c]? = some before ∧ before.requestId = call.requestId ∧
      before.Holds reply) ∨
    delivers kind s input = some reply ∧ s.pending.lookup reply.message.requestId = some c := by
  cases hdelivers : delivers kind s input with
  | some delivered =>
    obtain ⟨s₀, hstep, hcalls, hpending⟩ := delivers_spec hdelivers
    rw [hstep] at hcall
    rcases deliverResponse_holds hcall hholds with hbefore | ⟨rfl, hlookup⟩
    · rw [hcalls] at hbefore
      exact .inl hbefore
    · rw [hpending] at hlookup
      exact .inr ⟨rfl, hlookup⟩
  | none =>
    cases input with
    | incoming message => cases hdelivers
    | event event =>
      have hevolves := evolves_step kind s event
      rcases hbefore : s.calls[c]? with _ | before
      · have hsent := hevolves.new c call hcall hbefore
        rw [Call.Holds, hsent] at hholds
        rcases hholds with hholds | hholds <;> cases hholds
      · obtain ⟨phase, hphase, -⟩ := hevolves.old c before hbefore
        obtain rfl : { before with phase := phase } = call :=
          Option.some.inj (hphase.symm.trans hcall)
        rcases hevolves.holds hcall hholds with ⟨before', hbefore', hheld⟩ | hdelivered
        · obtain rfl : before = before' := Option.some.inj (hbefore.symm.trans hbefore')
          exact .inl ⟨before, rfl, rfl, hheld⟩
        · have hnone : Transport.delivers kind s event = none := hdelivers
          rw [hnone] at hdelivered
          cases hdelivered
    | drop dropped =>
      rcases dropCall_cases s dropped with heq | ⟨before, hbefore, -, heq⟩
      · rw [step, heq] at hcall
        exact .inl ⟨call, hcall, rfl, hholds⟩
      · rw [step, heq, getElem?_setPhase] at hcall
        by_cases hc : dropped = c
        · subst hc
          rw [hbefore] at hcall
          simp only [if_true, Option.map_some, Option.some.injEq] at hcall
          subst hcall
          rcases hholds with hholds | hholds <;> cases hholds
        · simp only [hc, if_false, Option.map_id'] at hcall
          exact .inl ⟨call, hcall, rfl, hholds⟩

/-- Calls keep their identifiers, and a call that has returned stays as it is. -/
theorem call_step (kind : Kind) {s : State} {c : Nat} {call : Call}
    (hcall : s.calls[c]? = some call)
    (input : Input) :
    ∃ phase, (step kind s input).calls[c]? = some { call with phase := phase } ∧
      ∀ result, call.phase = .returned result → phase = .returned result := by
  have hreturned : ∀ {delivered : Option Reply} {before phase : Phase} (result : Except Error Reply),
      PhaseStep delivered before phase → before = .returned result → phase = .returned result := by
    intro delivered before phase result hstep hbefore
    subst hbefore
    cases hstep
    rfl
  cases input with
  | event event =>
    obtain ⟨phase, hphase, hstep⟩ := (evolves_step kind s event).old c call hcall
    exact ⟨phase, hphase, fun result => hreturned result hstep⟩
  | incoming message =>
    obtain ⟨phase, hphase, hstep⟩ := (evolves_deliverResponse { s with replies := s.replies + 1 }
      { number := s.replies, message := message }).old c call hcall
    exact ⟨phase, hphase, fun result => hreturned result hstep⟩
  | drop dropped =>
    rcases dropCall_cases s dropped with heq | ⟨before, hbefore, hopen, heq⟩
    · refine ⟨call.phase, ?_, fun _ h => h⟩
      rw [step, heq, hcall]
    · rw [step, heq, getElem?_setPhase, hcall]
      by_cases hc : dropped = c
      · subst hc
        obtain rfl : call = before := Option.some.inj (hcall.symm.trans hbefore)
        refine ⟨_, by simp only [if_true, Option.map_some]; rfl, fun result hresult => ?_⟩
        exact absurd hresult (hopen result)
      · refine ⟨call.phase, by simp only [hc, if_false, Option.map_some], fun _ h => h⟩

theorem returned_run (kind : Kind) {s : State} {c : Nat} {call : Call} {result : Except Error Reply}
    (hcall : s.calls[c]? = some call) (hreturned : call.phase = .returned result)
    (inputs : List Input) : (run (step kind) s inputs).calls[c]? = some call := by
  induction inputs generalizing s with
  | nil => exact hcall
  | cons input rest ih =>
    obtain ⟨phase, hphase, hkeep⟩ := call_step kind hcall input
    apply ih
    rw [hphase, hkeep result hreturned, ← hreturned]

/-! ## Entries and identifiers -/

theorem lookup_erase_cases (pending : AList fun _ : MessageId => Nat) (id id' : MessageId) :
    (pending.erase id').lookup id = pending.lookup id ∨ (pending.erase id').lookup id = none := by
  by_cases hid : id = id'
  · subst hid
    exact .inr (AList.lookup_erase id pending)
  · exact .inl (AList.lookup_erase_ne hid)

theorem deliverResponse_lookup (s : State) (reply : Reply) (id : MessageId) :
    (s.deliverResponse reply).pending.lookup id = s.pending.lookup id ∨
      (s.deliverResponse reply).pending.lookup id = none := by
  unfold State.deliverResponse
  split
  · rw [sendTo_pending]
    exact lookup_erase_cases s.pending id _
  · exact .inl rfl

/-- Only a registration gives an identifier an entry. -/
theorem lookup_step (kind : Kind) {s : State} {input : Input} {id : MessageId}
    (h : ∀ (c : Nat) (call : Call), input = .event (.register c) → s.calls[c]? = some call →
      call.requestId ≠ id) :
    (step kind s input).pending.lookup id = s.pending.lookup id ∨
      (step kind s input).pending.lookup id = none := by
  cases input with
  | incoming message => exact deliverResponse_lookup { s with replies := s.replies + 1 } _ id
  | drop c =>
    rcases dropCall_cases s c with heq | ⟨call, -, -, heq⟩
    · exact .inl (by rw [step, heq])
    · exact .inl (by rw [step, heq]; rfl)
  | event event =>
    rw [step]
    have hspec := step_spec kind s event
    generalize Transport.step kind s event = s' at hspec
    generalize Transport.delivers kind s event = delivered at hspec
    cases hspec with
    | idle => exact .inl rfl
    | send => exact .inl rfl
    | @register c id' hcall =>
      have hne : id ≠ id' := fun heq => h c _ rfl hcall heq.symm
      exact .inl (AList.lookup_insert_ne hne)
    | depart => exact .inl rfl
    | direct => exact deliverResponse_lookup _ _ id
    | arrive => exact deliverResponse_lookup _ _ id
    | move => exact .inl rfl
    | @unregister c id' => exact lookup_erase_cases s.pending id id'

@[simp] theorem length_setPhase (s : State) (c : Nat) (phase : Phase) :
    (s.setPhase c phase).calls.length = s.calls.length :=
  List.length_modify _ _ _

@[simp] theorem length_deliverResponse (s : State) (reply : Reply) :
    (s.deliverResponse reply).calls.length = s.calls.length := by
  unfold State.deliverResponse
  split
  · rename_i c _
    rcases sendTo_cases { s with pending := s.pending.erase reply.message.requestId } c reply
      with heq | ⟨id, -, heq⟩
    · rw [heq]
    · rw [heq, length_setPhase]
  · rfl

@[simp] theorem length_dropPending (s : State) (id : MessageId) :
    (s.dropPending id).calls.length = s.calls.length := by
  unfold State.dropPending
  split
  · rename_i c _
    rcases dropSender_cases s c with heq | ⟨id', -, heq⟩
    · rw [heq]
    · rw [heq, length_setPhase]
  · rfl

/-- An input other than a request keeps the number of calls. -/
theorem length_step (kind : Kind) (s : State) {input : Input}
    (h : ∀ id, input ≠ .event (.send id)) :
    (step kind s input).calls.length = s.calls.length := by
  cases input with
  | incoming message => exact length_deliverResponse _ _
  | drop c =>
    rcases dropCall_cases s c with heq | ⟨call, -, -, heq⟩
    · rw [step, heq]
    · rw [step, heq, length_setPhase]
  | event event =>
    rw [step]
    have hspec := step_spec kind s event
    generalize Transport.step kind s event = s' at hspec
    generalize Transport.delivers kind s event = delivered at hspec
    cases hspec with
    | idle => rfl
    | send id => exact absurd rfl (h id)
    | register => simp [State.waitResponse]
    | depart => rfl
    | direct => exact length_deliverResponse _ _
    | arrive => exact length_deliverResponse _ _
    | move => exact length_setPhase _ _ _
    | unregister => simp [State.removePending]

/-- Such an input keeps the identifiers of the calls. -/
theorem requestId_step (kind : Kind) {s : State} {input : Input}
    (h : ∀ id, input ≠ .event (.send id)) {c : Nat} {call : Call}
    (hcall : (step kind s input).calls[c]? = some call) :
    ∃ before, s.calls[c]? = some before ∧ before.requestId = call.requestId := by
  have hlt : c < (step kind s input).calls.length := (List.getElem?_eq_some_iff.mp hcall).1
  rw [length_step kind s h] at hlt
  obtain ⟨before, hbefore⟩ : ∃ before, s.calls[c]? = some before :=
    ⟨_, List.getElem?_eq_getElem hlt⟩
  obtain ⟨phase, hphase, -⟩ := call_step kind hbefore input
  refine ⟨before, hbefore, ?_⟩
  rw [hcall] at hphase
  rw [Option.some.inj hphase]

/-! ## Invariants -/

theorem registered_step {s : State} (h : Registered s) (kind : Kind) (input : Input) :
    Registered (step kind s input) := by
  cases input with
  | event event => exact h.step kind event
  | incoming message =>
    have h' : Registered { s with replies := s.replies + 1 } := h
    exact h'.deliverResponse _
  | drop c =>
    rcases dropCall_cases s c with heq | ⟨call, hcall, -, heq⟩
    · rw [step, heq]
      exact h
    · rw [step, heq]
      exact h.setPhase (.inr (.inl trivial))

theorem flow_step (kind : Kind) (s : State) (input : Input) :
    Flow s (delivers kind s input) (step kind s input) := by
  cases input with
  | event event => exact Transport.flow_step kind s event
  | incoming message =>
    have hflow := deliverResponse_flow { s with replies := s.replies + 1 }
      { number := s.replies, message := message }
    exact .direct message hflow.1 hflow.2
  | drop c =>
    rcases dropCall_cases s c with heq | ⟨call, hcall, -, heq⟩
    · rw [step, heq]
      exact .idle rfl rfl
    · rw [step, heq]
      exact .idle rfl rfl

theorem numbered_step {s : State} (h : Numbered s) (kind : Kind) (input : Input) :
    Numbered (step kind s input) := by
  apply h.of_flow _ (flow_step kind s input)
  intro c call reply hcall hholds
  rcases holds_cases hcall hholds with ⟨before, hbefore, -, hheld⟩ | ⟨hdelivers, -⟩
  · exact .inl ⟨before, hbefore, hheld⟩
  · exact .inr hdelivers

theorem matched_step {s : State} (hregistered : Registered s) (h : Matched s) (kind : Kind)
    (input : Input) : Matched (step kind s input) := by
  intro c call reply hcall hholds
  rcases holds_cases hcall hholds with ⟨before, hbefore, hid, hheld⟩ | ⟨-, hlookup⟩
  · rw [← hid]
    exact h c before reply hbefore hheld
  · obtain ⟨before, hbefore, hid, -⟩ := hregistered _ c hlookup
    obtain ⟨phase, hphase, -⟩ := call_step kind hbefore input
    rw [hcall] at hphase
    rw [Option.some.inj hphase]
    exact hid.symm

/-- A response just delivered has a number that no call held before. -/
theorem unshared_step {s : State} (hnumbered : Numbered s) (h : Unshared s) (kind : Kind)
    (input : Input) : Unshared (step kind s input) := by
  have hnew : ∀ (c : Nat) (before : Call) (old reply : Reply), s.calls[c]? = some before →
      before.Holds old → delivers kind s input = some reply → old.number ≠ reply.number := by
    intro c before old reply hbefore hheld hdelivers
    have hflow := flow_step kind s input
    rw [hdelivers] at hflow
    exact (hnumbered.delivered hflow).2.2 c before old hbefore hheld
  intro c c' call call' reply reply' hcall hcall' hholds hholds' hnumber
  rcases holds_cases hcall hholds with ⟨before, hbefore, -, hheld⟩ | ⟨hdelivers, hlookup⟩
  · rcases holds_cases hcall' hholds' with ⟨before', hbefore', -, hheld'⟩ | ⟨hdelivers', -⟩
    · exact h c c' before before' reply reply' hbefore hbefore' hheld hheld' hnumber
    · exact absurd hnumber (hnew c before reply reply' hbefore hheld hdelivers')
  · rcases holds_cases hcall' hholds' with ⟨before', hbefore', -, hheld'⟩ | ⟨hdelivers', hlookup'⟩
    · exact absurd hnumber.symm (hnew c' before' reply' reply hbefore' hheld' hdelivers)
    · obtain rfl : reply = reply' := Option.some.inj (hdelivers.symm.trans hdelivers')
      exact Option.some.inj (hlookup.symm.trans hlookup')

/-- A response for an identifier without an entry changes neither the entries nor a call. -/
theorem unregistered_step {kind : Kind} {s : State} {input : Input} {reply : Reply}
    (hdelivers : delivers kind s input = some reply)
    (hnone : s.pending.lookup reply.message.requestId = none) :
    (step kind s input).pending = s.pending ∧ (step kind s input).calls = s.calls := by
  obtain ⟨s₀, hstep, hcalls, hpending⟩ := delivers_spec hdelivers
  rw [hstep, State.deliverResponse, hpending]
  simp only [hnone]
  exact ⟨hpending, hcalls⟩

/-- Every reachable state keeps calls and responses apart. -/
structure Sound (s : State) : Prop where
  registered : Registered s
  numbered : Numbered s
  matched : Matched s
  unshared : Unshared s

theorem sound_run (kind : Kind) (inputs : List Input) : Sound (run (step kind) start inputs) := by
  apply invariant (P := Sound)
  · intro s input h
    exact
      { registered := registered_step h.registered kind input
        numbered := numbered_step h.numbered kind input
        matched := matched_step h.registered h.matched kind input
        unshared := unshared_step h.numbered h.unshared kind input }
  · exact
      { registered := registered_start
        numbered := numbered_start
        matched := fun _ _ _ h => nomatch h
        unshared := fun _ _ _ _ _ _ h => nomatch h }

/-- Whatever responses the network hands over, a call that returns a response returns one
for its own request, no response is returned by two calls, a call returns once, and a
response for an identifier that is not registered has no effect on the entries and calls. -/
theorem responses_matched (kind : Kind) (inputs : List Input) :
    (∀ (c : Nat) (call : Call) (reply : Reply),
      (run (step kind) start inputs).calls[c]? = some call → call.phase = .returned (.ok reply) →
      reply.message.requestId = call.requestId) ∧
    (∀ (c c' : Nat) (call call' : Call) (reply reply' : Reply),
      (run (step kind) start inputs).calls[c]? = some call → call.phase = .returned (.ok reply) →
      (run (step kind) start inputs).calls[c']? = some call' →
      call'.phase = .returned (.ok reply') → reply.number = reply'.number → c = c') ∧
    (∀ (c : Nat) (call : Call) (result : Except Error Reply) (later : List Input),
      (run (step kind) start inputs).calls[c]? = some call → call.phase = .returned result →
      (run (step kind) start (inputs ++ later)).calls[c]? = some call) ∧
    (∀ (input : Input) (reply : Reply),
      delivers kind (run (step kind) start inputs) input = some reply →
      (run (step kind) start inputs).pending.lookup reply.message.requestId = none →
      (run (step kind) start (inputs ++ [input])).pending = (run (step kind) start inputs).pending ∧
      (run (step kind) start (inputs ++ [input])).calls = (run (step kind) start inputs).calls) := by
  have hsound := sound_run kind inputs
  refine ⟨?_, ?_, ?_, ?_⟩
  · intro c call reply hcall hreturned
    exact hsound.matched c call reply hcall (.inr hreturned)
  · intro c c' call call' reply reply' hcall hreturned hcall' hreturned'
    exact hsound.unshared c c' call call' reply reply' hcall hcall' (.inr hreturned)
      (.inr hreturned')
  · intro c call result later hcall hreturned
    rw [run_append]
    exact returned_run kind hcall hreturned later
  · intro input reply hdelivers hnone
    rw [run_concat]
    exact unregistered_step hdelivers hnone

end OpenTransport

end Kademlia
