import Kademlia.Protocol.Rpc

/-!
# The entries of a call

A call has an entry in `pending_requests` from before it sends until it clears the entry,
and an entry in the map of the transport while it waits.  `Kept` says which entries there
are in every state of a run.  Message identifiers are drawn at random, and the entries of
two calls are told apart by them only.
-/

namespace Kademlia

open Lib

namespace Rpc

/-- The identifier of a new call is not that of another call. -/
def DrawsNew (s : State) : Event → Prop
  | .call _ _ id => ∀ (c : Nat) (call : Call), s.calls[c]? = some call → call.id ≠ id
  | _ => True

instance (s : State) : (event : Event) → Decidable (DrawsNew s event)
  | .call _ _ id => decidable_of_iff (∀ call ∈ s.calls, call.id ≠ id) forall_mem_iff_slots
  | .step _ _ => .isTrue trivial
  | .incoming _ => .isTrue trivial
  | .table _ => .isTrue trivial

/-! ## The steps of a call with what they do to the maps -/

/-- The state and the call after a step.  The call is put back into the state afterwards. -/
inductive Moves (kind : Transport.Kind) (s : State) (call : Call) : Step → State → Call → Prop where
  | stay (st : Step) : Moves kind s call st s call
  | insert (h : call.phase = .drawn) :
      Moves kind s call .insert
        { s with
          pendingRequests :=
            s.pendingRequests.insert call.id (call.rpc.request call.id s.localNode) }
        { call with phase := .inserted }
  | fault {env : Env} {fault : Fault} (h : call.phase = .inserted)
      (hfault : call.rpc.timeouts s.table env call.node = .error fault) :
      Moves kind s call (.time env) s { call with phase := .finished (.fault fault) }
  | time {env : Env} (outer inner : Duration) (h : call.phase = .inserted) :
      Moves kind s call (.time env) s { call with phase := .timed outer inner }
  | sendError {outer inner : Duration} (error : Error) (h : call.phase = .timed outer inner) :
      Moves kind s call (.send (.error error)) s { call with phase := .finished (.sendError error) }
  | send {outer inner : Duration} (h : call.phase = .timed outer inner) :
      Moves kind s call (.send (.ok ()))
        { s with transport := OpenTransport.step kind s.transport (.event (.send call.id)) }
        { call with phase := .waiting s.transport.calls.length }
  | wait {wait : Nat} (st : WaitStep) (h : call.phase = .waiting wait) :
      Moves kind s call (.wait st)
        { s with transport := OpenTransport.step kind s.transport (.event (st.event wait)) }
        (afterWait call wait (OpenTransport.step kind s.transport (.event (st.event wait))))
  | lapse {wait : Nat} (h : call.phase = .waiting wait) :
      Moves kind s call .lapse
        { s with transport := OpenTransport.step kind s.transport (.drop wait) }
        { call with phase := .lapsed }
  | clear (h : call.phase = .answered) :
      Moves kind s call .clear { s with pendingRequests := s.pendingRequests.erase call.id }
        { call with phase := .cleared }
  | clearLapsed (h : call.phase = .lapsed) :
      Moves kind s call .clear { s with pendingRequests := s.pendingRequests.erase call.id }
        { call with phase := .lapsedCleared }
  | record (env : Env) (responseTimeMs : UInt64) (table : RoutingTable) (ops : List TableOp)
      (h : call.phase = .cleared) :
      Moves kind s call (.record env responseTimeMs) { s with table := table }
        { call with phase := .recorded, ops := ops }
  | fail (env : Env) (responseTimeMs : UInt64) (table : RoutingTable) (ops : List TableOp)
      (h : call.phase = .lapsedCleared) :
      Moves kind s call (.record env responseTimeMs) { s with table := table }
        { call with phase := .finished .timedOut, ops := ops }
  | finish (env : Env) (table : RoutingTable) (ops : List TableOp) (h : call.phase = .recorded) :
      Moves kind s call (.finish env) { s with table := table }
        { call with phase := .finished .response, ops := ops }
  | dropWaiting {wait : Nat} (h : call.phase = .waiting wait) :
      Moves kind s call .drop
        { s with transport := OpenTransport.step kind s.transport (.drop wait) }
        { call with phase := .dropped }
  | drop (hopen : ¬ call.phase.Ended) (hwaiting : ∀ wait, call.phase ≠ .waiting wait) :
      Moves kind s call .drop s { call with phase := .dropped }

theorem put_self {s : State} {c : Nat} {call : Call} (hcall : s.calls[c]? = some call) :
    s.put c call = s := by
  obtain ⟨hlt, rfl⟩ := List.getElem?_eq_some_iff.mp hcall
  rw [State.put, List.set_getElem_self]

theorem calls_put_self {s : State} {c : Nat} {call : Call} (hcall : s.calls[c]? = some call)
    (call' : Call) : (s.put c call').calls[c]? = some call' := by
  rw [State.put, getElem?_set_slot hcall, if_pos rfl]

theorem dropCall_moves (kind : Transport.Kind) {s : State} {c : Nat} {call : Call}
    (hcall : s.calls[c]? = some call) :
    ∃ s' call', Moves kind s call .drop s' call' ∧ s.dropCall kind c call = s'.put c call' := by
  have hstay : ∃ s' call', Moves kind s call .drop s' call' ∧ s = s'.put c call' :=
    ⟨s, call, .stay _, (put_self hcall).symm⟩
  have hdrop : ¬ call.phase.Ended → (∀ wait, call.phase ≠ .waiting wait) →
      ∃ s' call', Moves kind s call .drop s' call' ∧
        s.put c { call with phase := .dropped } = s'.put c call' :=
    fun hopen hwaiting => ⟨s, _, .drop hopen hwaiting, rfl⟩
  unfold State.dropCall
  cases hphase : call.phase with
  | finished exit => exact hstay
  | dropped => exact hstay
  | waiting wait => exact ⟨_, _, .dropWaiting hphase, rfl⟩
  | _ => exact hdrop (by rw [hphase]; exact id) (by rw [hphase]; intro wait h; cases h)

theorem advance_moves (kind : Transport.Kind) {s : State} {c : Nat} {call : Call}
    (hcall : s.calls[c]? = some call) (st : Step) :
    ∃ s' call', Moves kind s call st s' call' ∧ s.advance kind c call st = s'.put c call' := by
  unfold State.advance
  split
  · rename_i hphase
    exact ⟨_, _, .insert hphase, rfl⟩
  · rename_i hphase
    split
    · rename_i hfault
      exact ⟨_, _, .fault hphase hfault, rfl⟩
    · exact ⟨_, _, .time _ _ hphase, rfl⟩
  · rename_i hphase
    exact ⟨_, _, .sendError _ hphase, rfl⟩
  · rename_i hphase
    exact ⟨_, _, .send hphase, rfl⟩
  · rename_i hphase
    exact ⟨_, _, .wait _ hphase, rfl⟩
  · rename_i hphase
    exact ⟨_, _, .lapse hphase, rfl⟩
  · rename_i hphase
    exact ⟨_, _, .clear hphase, rfl⟩
  · rename_i hphase
    exact ⟨_, _, .clearLapsed hphase, rfl⟩
  · rename_i hphase
    exact ⟨_, _, .record _ _ _ _ hphase, rfl⟩
  · rename_i hphase
    exact ⟨_, _, .fail _ _ _ _ hphase, rfl⟩
  · rename_i hphase
    exact ⟨_, _, .finish _ _ _ hphase, rfl⟩
  · exact dropCall_moves kind hcall
  · exact ⟨s, call, .stay _, (put_self hcall).symm⟩

theorem step_moves (kind : Transport.Kind) (s : State) (c : Nat) (st : Step) :
    (s.calls[c]? = none ∧ step kind s (.step c st) = s) ∨
      ∃ call s' call', s.calls[c]? = some call ∧ Moves kind s call st s' call' ∧
        step kind s (.step c st) = s'.put c call' := by
  cases hcall : s.calls[c]? with
  | none => exact .inl ⟨rfl, by simp only [step, hcall]⟩
  | some call =>
    obtain ⟨s', call', hmoves, heq⟩ := advance_moves kind hcall st
    exact .inr ⟨call, s', call', rfl, hmoves, by simp only [step, hcall, heq]⟩

/-! ## Entries and the calls they belong to -/

/-- The phases in which a call is in `pending_requests`. -/
def Phase.requested : Phase → Bool
  | inserted | timed _ _ | waiting _ | answered | lapsed => true
  | _ => false

theorem Phase.not_ended_of_requested {phase : Phase} (h : phase.requested = true) :
    ¬ phase.Ended := by
  intro hended
  cases phase with
  | finished exit => cases h
  | dropped => cases h
  | _ => exact hended

/-- The phases in which the transport may have an entry for a call. -/
def Phase.registered : Phase → Bool
  | waiting _ | lapsed | lapsedCleared | finished _ | dropped => true
  | _ => false

/-- The phases in which the transport may know a call. -/
def Phase.sent : Phase → Bool
  | drawn | inserted | timed _ _ => false
  | _ => true

/-- The maps agree with the phase of a call. -/
structure Tracked (s : State) (call : Call) : Prop where
  requested : ¬ call.phase.Ended →
    (s.pendingRequests.lookup call.id).isSome = call.phase.requested
  registered : s.transport.pending.lookup call.id ≠ none → call.phase.registered = true
  waits : ∀ wait, call.phase = .waiting wait →
    ∃ waiting, s.transport.calls[wait]? = some waiting ∧ waiting.requestId = call.id

/-- No two calls of the transport have the same identifier. -/
def Single (transport : Transport.State) : Prop :=
  ∀ (w w' : Nat) (waiting waiting' : Transport.Call), transport.calls[w]? = some waiting →
    transport.calls[w']? = some waiting' → waiting.requestId = waiting'.requestId → w = w'

structure Kept (s : State) : Prop where
  distinct : ∀ (c c' : Nat) (call call' : Call), s.calls[c]? = some call →
    s.calls[c']? = some call' → call.id = call'.id → c = c'
  transport : Transport.Registered s.transport
  single : Single s.transport
  owned : ∀ (w : Nat) (waiting : Transport.Call), s.transport.calls[w]? = some waiting →
    ∃ (c : Nat) (call : Call), s.calls[c]? = some call ∧ call.id = waiting.requestId ∧
      call.phase.sent = true
  requested : ∀ id, s.pendingRequests.lookup id ≠ none →
    ∃ (c : Nat) (call : Call), s.calls[c]? = some call ∧ call.id = id
  tracked : ∀ (c : Nat) (call : Call), s.calls[c]? = some call → Tracked s call

theorem kept_start (localNode : Node) (table : RoutingTable) : Kept (start localNode table) where
  distinct := fun _ _ _ _ h => nomatch h
  transport := Transport.registered_start
  single := fun _ _ _ _ h => nomatch h
  owned := fun _ _ h => nomatch h
  requested := fun id h => absurd (AList.lookup_empty id) h
  tracked := fun _ _ h => nomatch h

theorem Single.step {transport : Transport.State} (h : Single transport) (kind : Transport.Kind)
    {input : OpenTransport.Input} (hinput : ∀ id, input ≠ .event (.send id)) :
    Single (OpenTransport.step kind transport input) := by
  intro w w' waiting waiting' hwaiting hwaiting' hid
  obtain ⟨before, hbefore, hsame⟩ := OpenTransport.requestId_step kind hinput hwaiting
  obtain ⟨before', hbefore', hsame'⟩ := OpenTransport.requestId_step kind hinput hwaiting'
  apply h w w' before before' hbefore hbefore'
  rw [hsame, hsame', hid]

theorem Single.send {transport : Transport.State} (h : Single transport) (kind : Transport.Kind)
    {id : MessageId}
    (hnew : ∀ (w : Nat) (waiting : Transport.Call), transport.calls[w]? = some waiting →
      waiting.requestId ≠ id) :
    Single (OpenTransport.step kind transport (.event (.send id))) := by
  intro w w' waiting waiting' hwaiting hwaiting' hid
  rcases getElem?_concat_slot hwaiting with hold | ⟨rfl, rfl⟩
  · rcases getElem?_concat_slot hwaiting' with hold' | ⟨rfl, rfl⟩
    · exact h w w' waiting waiting' hold hold' hid
    · exact absurd hid (hnew w waiting hold)
  · rcases getElem?_concat_slot hwaiting' with hold' | ⟨rfl, rfl⟩
    · exact absurd hid.symm (hnew w' waiting' hold')
    · rfl

/-- A wait that returns a response has no entry left, as no other call of the transport has
its identifier. -/
theorem lookup_eq_none_of_returned {transport : Transport.State}
    (hregistered : Transport.Registered transport) (hsingle : Single transport) {wait : Nat}
    {id : MessageId} {reply : Transport.Reply}
    (hwait : transport.calls[wait]? = some { requestId := id, phase := .returned (.ok reply) }) :
    transport.pending.lookup id = none := by
  cases hlookup : transport.pending.lookup id with
  | none => rfl
  | some w =>
    obtain ⟨waiting, hwaiting, hid, hphase⟩ := hregistered id w hlookup
    obtain rfl : w = wait := hsingle w wait waiting _ hwaiting hwait hid
    rw [hwait] at hwaiting
    obtain rfl := Option.some.inj hwaiting
    rcases hphase with hphase | hphase <;> cases hphase

/-! ## What a step leaves alone -/

/-- The entries of an identifier stay, or the one of the transport goes, and the transport
keeps its calls. -/
structure Untouched (s s' : State) (id : MessageId) : Prop where
  requested : s'.pendingRequests.lookup id = s.pendingRequests.lookup id
  registered : s'.transport.pending.lookup id = s.transport.pending.lookup id ∨
    s'.transport.pending.lookup id = none
  waits : ∀ (w : Nat) (waiting : Transport.Call), s.transport.calls[w]? = some waiting →
    ∃ waiting', s'.transport.calls[w]? = some waiting' ∧ waiting'.requestId = waiting.requestId

theorem Tracked.of_untouched {s s' : State} {call : Call} (h : Tracked s call)
    (hs : Untouched s s' call.id) : Tracked s' call where
  requested := by
    rw [hs.requested]
    exact h.requested
  registered := by
    intro hentry
    rcases hs.registered with hsame | hnone
    · exact h.registered (hsame ▸ hentry)
    · exact absurd hnone hentry
  waits := by
    intro wait hphase
    obtain ⟨waiting, hwaiting, hid⟩ := h.waits wait hphase
    obtain ⟨waiting', hwaiting', hid'⟩ := hs.waits wait waiting hwaiting
    exact ⟨waiting', hwaiting', hid'.trans hid⟩

/-- The other parts of the state do not matter. -/
theorem Tracked.of_maps {s s' : State} {call : Call} (h : Tracked s call)
    (hrequests : s'.pendingRequests = s.pendingRequests) (htransport : s'.transport = s.transport) :
    Tracked s' call where
  requested := by
    rw [hrequests]
    exact h.requested
  registered := by
    rw [htransport]
    exact h.registered
  waits := by
    rw [htransport]
    exact h.waits

theorem Untouched.lookups_eq_none {s s' : State} {id : MessageId} (hs : Untouched s s' id)
    (h : s.pendingRequests.lookup id = none ∧ s.transport.pending.lookup id = none) :
    s'.pendingRequests.lookup id = none ∧ s'.transport.pending.lookup id = none := by
  refine ⟨hs.requested.trans h.1, ?_⟩
  rcases hs.registered with hsame | hnone
  · exact hsame.trans h.2
  · exact hnone

theorem untouched_refl (s : State) (id : MessageId) : Untouched s s id where
  requested := rfl
  registered := .inl rfl
  waits := fun _ waiting h => ⟨waiting, h, rfl⟩

/-- An input to the transport touches the entry of another identifier only to remove it,
unless it registers a call of that identifier. -/
theorem untouched_transport (kind : Transport.Kind) {s : State} {input : OpenTransport.Input}
    {id : MessageId}
    (h : ∀ (w : Nat) (waiting : Transport.Call), input = .event (.register w) →
      s.transport.calls[w]? = some waiting → waiting.requestId ≠ id) :
    Untouched s { s with transport := OpenTransport.step kind s.transport input } id where
  requested := rfl
  registered := OpenTransport.lookup_step kind h
  waits := by
    intro w waiting hwaiting
    obtain ⟨phase, hphase, -⟩ := OpenTransport.call_step kind hwaiting input
    exact ⟨_, hphase, rfl⟩

theorem Moves.untouched {kind : Transport.Kind} {s s' : State} {call call' : Call} {st : Step}
    (h : Moves kind s call st s' call') (htracked : Tracked s call) {id : MessageId}
    (hid : id ≠ call.id) : Untouched s s' id := by
  have herase : Untouched s { s with pendingRequests := s.pendingRequests.erase call.id } id :=
    { untouched_refl s id with requested := AList.lookup_erase_ne hid }
  cases h with
  | insert =>
    exact { untouched_refl s id with requested := AList.lookup_insert_ne hid }
  | clear => exact herase
  | clearLapsed => exact herase
  | send => exact untouched_transport kind (fun w waiting hregister => by cases hregister)
  | lapse => exact untouched_transport kind (fun w waiting hregister => by cases hregister)
  | dropWaiting => exact untouched_transport kind (fun w waiting hregister => by cases hregister)
  | wait st hphase =>
    apply untouched_transport kind
    intro w waiting hregister hwaiting
    obtain ⟨waiting', hwaiting', hid'⟩ := htracked.waits _ hphase
    cases st with
    | register =>
      cases hregister
      obtain rfl : waiting' = waiting := Option.some.inj (hwaiting'.symm.trans hwaiting)
      rw [hid']
      exact hid.symm
    | _ => cases hregister
  | _ => exact { untouched_refl s id with }

/-! ## What a step does to its own call -/

theorem afterWait_cases (call : Call) (wait : Nat) (transport : Transport.State) :
    (∃ id reply, transport.calls[wait]? =
        some { requestId := id, phase := .returned (.ok reply) } ∧
      afterWait call wait transport =
        { call with phase := .answered, response := some reply.message }) ∨
    (∃ error, transport.calls[wait]?.map Transport.Call.phase = some (.returned (.error error)) ∧
      afterWait call wait transport = { call with phase := .finished (.waitError error) }) ∨
    afterWait call wait transport = call := by
  unfold afterWait
  split
  · rename_i reply hphase
    obtain ⟨id, hwaiting⟩ := Transport.phase_eq_some hphase
    exact .inl ⟨id, reply, hwaiting, rfl⟩
  · rename_i error hphase
    exact .inr (.inl ⟨error, hphase, rfl⟩)
  · exact .inr (.inr rfl)

theorem Moves.id_eq {kind : Transport.Kind} {s s' : State} {call call' : Call} {st : Step}
    (h : Moves kind s call st s' call') : call'.id = call.id := by
  cases h with
  | wait st hphase =>
    rcases afterWait_cases call _ (OpenTransport.step kind s.transport (.event (st.event _)))
      with ⟨id, reply, -, heq⟩ | ⟨error, -, heq⟩ | heq
    · rw [heq]
    · rw [heq]
    · rw [heq]
  | _ => rfl

theorem Moves.calls_eq {kind : Transport.Kind} {s s' : State} {call call' : Call} {st : Step}
    (h : Moves kind s call st s' call') : s'.calls = s.calls := by
  cases h <;> rfl

theorem Moves.sent {kind : Transport.Kind} {s s' : State} {call call' : Call} {st : Step}
    (h : Moves kind s call st s' call') (hsent : call.phase.sent = true) :
    call'.phase.sent = true := by
  cases h with
  | stay => exact hsent
  | insert hphase =>
    rw [hphase] at hsent
    cases hsent
  | time _ _ hphase =>
    rw [hphase] at hsent
    cases hsent
  | wait st hphase =>
    rcases afterWait_cases call _ (OpenTransport.step kind s.transport (.event (st.event _)))
      with ⟨id, reply, -, heq⟩ | ⟨error, -, heq⟩ | heq
    · rw [heq]
      rfl
    · rw [heq]
      rfl
    · rw [heq]
      exact hsent
  | _ => rfl

/-- A call before `send` is the only one with its identifier, so the transport does not
know the identifier. -/
theorem Kept.requestId_ne {s : State} (h : Kept s) {c : Nat} {call : Call}
    (hcall : s.calls[c]? = some call) (hsent : call.phase.sent = false) (w : Nat)
    (waiting : Transport.Call) (hwaiting : s.transport.calls[w]? = some waiting) :
    waiting.requestId ≠ call.id := by
  intro hid
  obtain ⟨c', call', hcall', hid', hsent'⟩ := h.owned w waiting hwaiting
  obtain rfl : c' = c := h.distinct c' c call' call hcall' hcall (hid'.trans hid)
  obtain rfl : call = call' := Option.some.inj (hcall.symm.trans hcall')
  rw [hsent] at hsent'
  cases hsent'

/-- A step leaves the transport alone, sends the request, or gives the transport an input
other than a request. -/
theorem Moves.transport_cases {kind : Transport.Kind} {s s' : State} {call call' : Call} {st : Step}
    (h : Moves kind s call st s' call') :
    s'.transport = s.transport ∨
    (call.phase.sent = false ∧ call'.phase.sent = true ∧
      s'.transport = OpenTransport.step kind s.transport (.event (.send call.id))) ∨
    ∃ input, (∀ id, input ≠ .event (.send id)) ∧
      s'.transport = OpenTransport.step kind s.transport input := by
  cases h with
  | send hphase => exact .inr (.inl ⟨by rw [hphase]; rfl, rfl, rfl⟩)
  | wait st hphase =>
    refine .inr (.inr ⟨.event (st.event _), ?_, rfl⟩)
    cases st <;> exact fun id h => by cases h
  | lapse hphase => exact .inr (.inr ⟨.drop _, (fun id h => by cases h), rfl⟩)
  | dropWaiting hphase => exact .inr (.inr ⟨.drop _, (fun id h => by cases h), rfl⟩)
  | _ => exact .inl rfl

theorem Moves.transport {kind : Transport.Kind} {s s' : State} {call call' : Call} {st : Step}
    (h : Moves kind s call st s' call') (hs : Kept s) {c : Nat} (hcall : s.calls[c]? = some call) :
    Transport.Registered s'.transport ∧ Single s'.transport := by
  rcases h.transport_cases with heq | ⟨hsent, -, heq⟩ | ⟨input, hinput, heq⟩
  · rw [heq]
    exact ⟨hs.transport, hs.single⟩
  · rw [heq]
    exact ⟨OpenTransport.registered_step hs.transport kind _,
      hs.single.send kind (hs.requestId_ne hcall hsent)⟩
  · rw [heq]
    exact ⟨OpenTransport.registered_step hs.transport kind _, hs.single.step kind hinput⟩

/-- The phase of a call changes and the maps do not. -/
theorem Tracked.of_phase {s s' : State} {call call' : Call} (h : Tracked s call)
    (hid : call'.id = call.id) (hrequests : s'.pendingRequests = s.pendingRequests)
    (hresponses : s'.transport.pending = s.transport.pending)
    (hrequested : ¬ call'.phase.Ended →
      ¬ call.phase.Ended ∧ call'.phase.requested = call.phase.requested)
    (hregistered : call.phase.registered = true → call'.phase.registered = true)
    (hwaits : ∀ wait, call'.phase ≠ .waiting wait) : Tracked s' call' where
  requested := by
    intro hopen
    obtain ⟨hopen', hsame⟩ := hrequested hopen
    rw [hid, hrequests, hsame]
    exact h.requested hopen'
  registered := by
    rw [hid, hresponses]
    exact fun hentry => hregistered (h.registered hentry)
  waits := fun wait hphase => absurd hphase (hwaits wait)

/-- A dropped wait keeps its entry. -/
theorem lookup_drop (kind : Transport.Kind) (transport : Transport.State) (wait : Nat) :
    (OpenTransport.step kind transport (.drop wait)).pending = transport.pending := by
  rcases OpenTransport.dropCall_cases transport wait with heq | ⟨waiting, -, -, heq⟩
  · rw [OpenTransport.step, heq]
  · rw [OpenTransport.step, heq]
    rfl

theorem Tracked.lookup_eq_none {s : State} {call : Call} (h : Tracked s call)
    (hphase : call.phase.registered = false) : s.transport.pending.lookup call.id = none := by
  by_contra hentry
  have hregistered := h.registered hentry
  rw [hphase] at hregistered
  cases hregistered

/-- A call whose request is taken out of the map. -/
theorem tracked_of_erase {s s' : State} {call call' : Call} (hid : call'.id = call.id)
    (hrequests : s'.pendingRequests = s.pendingRequests.erase call.id)
    (hrequested : call'.phase.requested = false)
    (hregistered : s'.transport.pending.lookup call'.id ≠ none → call'.phase.registered = true)
    (hwaits : ∀ wait, call'.phase ≠ .waiting wait) : Tracked s' call' where
  requested := by
    intro _
    rw [hid, hrequests, AList.lookup_erase, hrequested]
    rfl
  registered := hregistered
  waits := fun wait hphase => absurd hphase (hwaits wait)

theorem Tracked.requested_eq_none {s : State} {call : Call} (h : Tracked s call)
    (hopen : ¬ call.phase.Ended) (hphase : call.phase.requested = false) :
    s.pendingRequests.lookup call.id = none := by
  have hrequested := h.requested hopen
  rw [hphase] at hrequested
  exact Option.isSome_eq_false_iff.mp hrequested |> Option.isNone_iff_eq_none.mp

theorem Tracked.requested_ne_none {s : State} {call : Call} (h : Tracked s call)
    (hphase : call.phase.requested = true) : s.pendingRequests.lookup call.id ≠ none := by
  intro hnone
  have hrequested := h.requested (Phase.not_ended_of_requested hphase)
  rw [hnone, hphase] at hrequested
  cases hrequested

theorem Moves.tracked_wait {kind : Transport.Kind} {s : State} {call : Call} {wait : Nat}
    {st : WaitStep} (hphase : call.phase = .waiting wait) (h : Tracked s call)
    (hregistered :
      Transport.Registered (OpenTransport.step kind s.transport (.event (st.event wait))))
    (hsingle : Single (OpenTransport.step kind s.transport (.event (st.event wait)))) :
    Tracked { s with transport := OpenTransport.step kind s.transport (.event (st.event wait)) }
      (afterWait call wait (OpenTransport.step kind s.transport (.event (st.event wait)))) := by
  have hopen : ¬ call.phase.Ended := by
    rw [hphase]
    exact id
  have hrequested := h.requested hopen
  obtain ⟨before, hbefore, hid⟩ := h.waits wait hphase
  obtain ⟨after, hafter, -⟩ := OpenTransport.call_step kind hbefore (.event (st.event wait))
  rcases afterWait_cases call wait (OpenTransport.step kind s.transport (.event (st.event wait)))
    with ⟨id, reply, hreturned, heq⟩ | ⟨error, -, heq⟩ | heq
  · -- The entry that a response answers is gone.
    rw [hafter] at hreturned
    obtain rfl : id = call.id := by
      rw [← hid]
      exact (congrArg Transport.Call.requestId (Option.some.inj hreturned)).symm
    have hnone := lookup_eq_none_of_returned hregistered hsingle (hafter.trans hreturned)
    rw [heq]
    constructor
    · intro _
      exact hrequested.trans (by rw [hphase]; rfl)
    · intro hentry
      exact absurd hnone hentry
    · intro wait' hwait'
      cases hwait'
  · rw [heq]
    constructor
    · intro hopen'
      exact absurd trivial hopen'
    · intro _
      rfl
    · intro wait' hwait'
      cases hwait'
  · rw [heq]
    constructor
    · intro _
      exact hrequested
    · intro _
      rw [hphase]
      rfl
    · intro wait' hwait'
      obtain rfl : wait = wait' := Phase.waiting.inj (hphase.symm.trans hwait')
      exact ⟨_, hafter, hid⟩

theorem Moves.tracked {kind : Transport.Kind} {s s' : State} {call call' : Call} {st : Step}
    (h : Moves kind s call st s' call') (hs : Kept s) {c : Nat} (hcall : s.calls[c]? = some call) :
    Tracked s' call' := by
  have htracked := hs.tracked c call hcall
  obtain ⟨hregistered, hsingle⟩ := h.transport hs hcall
  cases h with
  | stay => exact htracked
  | insert hphase =>
    have hnone := htracked.lookup_eq_none (by rw [hphase]; rfl)
    constructor
    · intro _
      show ((s.pendingRequests.insert call.id _).lookup call.id).isSome = true
      rw [AList.lookup_insert]
      rfl
    · intro hentry
      exact absurd hnone hentry
    · intro wait hwait
      cases hwait
  | send hphase =>
    constructor
    · intro _
      exact (htracked.requested (by rw [hphase]; exact id)).trans (by rw [hphase]; rfl)
    · intro _
      rfl
    · intro wait hwait
      cases hwait
      exact ⟨_, List.getElem?_concat_length, rfl⟩
  | wait st hphase => exact Moves.tracked_wait hphase htracked hregistered hsingle
  | clear hphase =>
    have hnone := htracked.lookup_eq_none (by rw [hphase]; rfl)
    exact tracked_of_erase rfl rfl rfl (absurd hnone) (fun wait h => by cases h)
  | clearLapsed hphase =>
    exact tracked_of_erase rfl rfl rfl (fun _ => rfl) (fun wait h => by cases h)
  | time outer inner hphase | record env responseTimeMs table ops hphase =>
    refine htracked.of_phase rfl rfl rfl ?_ ?_ (fun wait h => by cases h)
    · intro _
      rw [hphase]
      exact ⟨id, rfl⟩
    · rw [hphase]
      exact id
  | lapse hphase =>
    refine htracked.of_phase rfl rfl (lookup_drop kind _ _) ?_ (fun _ => rfl)
      (fun wait h => by cases h)
    intro _
    rw [hphase]
    exact ⟨id, rfl⟩
  | dropWaiting hphase =>
    exact htracked.of_phase rfl rfl (lookup_drop kind _ _) (fun hopen => absurd trivial hopen)
      (fun _ => rfl) (fun wait h => by cases h)
  | _ =>
    exact htracked.of_phase rfl rfl rfl (fun hopen => absurd trivial hopen) (fun _ => rfl)
      (fun wait h => by cases h)

/-! ## The invariant of a run -/

theorem kept_call {s : State} (h : Kept s) {rpc : Rpc} {node : Node} {id : MessageId}
    (hnew : ∀ (c : Nat) (call : Call), s.calls[c]? = some call → call.id ≠ id)
    (kind : Transport.Kind) : Kept (step kind s (.call rpc node id)) where
  distinct := by
    intro c c' call call' hcall hcall' hid
    rcases getElem?_concat_slot hcall with hold | ⟨rfl, rfl⟩
    · rcases getElem?_concat_slot hcall' with hold' | ⟨rfl, rfl⟩
      · exact h.distinct c c' call call' hold hold' hid
      · exact absurd hid (hnew c call hold)
    · rcases getElem?_concat_slot hcall' with hold' | ⟨rfl, rfl⟩
      · exact absurd hid.symm (hnew c' call' hold')
      · rfl
  transport := h.transport
  single := h.single
  owned := by
    intro w waiting hwaiting
    obtain ⟨c, call, hcall, howned⟩ := h.owned w waiting hwaiting
    exact ⟨c, call, getElem?_concat_of_some hcall _, howned⟩
  requested := by
    intro id' hentry
    obtain ⟨c, call, hcall, hid⟩ := h.requested id' hentry
    exact ⟨c, call, getElem?_concat_of_some hcall _, hid⟩
  tracked := by
    intro c call hcall
    rcases getElem?_concat_slot hcall with hold | ⟨-, rfl⟩
    · exact (h.tracked c call hold).of_maps rfl rfl
    · constructor
      · intro _
        by_contra hentry
        have hsome : s.pendingRequests.lookup id ≠ none := by
          intro hnone
          exact hentry (by rw [step, hnone]; rfl)
        obtain ⟨c', call', hcall', hid⟩ := h.requested id hsome
        exact hnew c' call' hcall' hid
      · intro hentry
        obtain ⟨w, hw⟩ := Option.ne_none_iff_exists'.mp hentry
        obtain ⟨waiting, hwaiting, hid, -⟩ := h.transport id w hw
        obtain ⟨c', call', hcall', hid', -⟩ := h.owned w waiting hwaiting
        exact absurd (hid'.trans hid) (hnew c' call' hcall')
      · intro wait hwait
        cases hwait

/-- Where a call of the transport after a step comes from. -/
theorem Moves.waits_cases {kind : Transport.Kind} {s s' : State} {call call' : Call} {st : Step}
    (h : Moves kind s call st s' call') {w : Nat} {waiting : Transport.Call}
    (hwaiting : s'.transport.calls[w]? = some waiting) :
    (∃ before, s.transport.calls[w]? = some before ∧ before.requestId = waiting.requestId) ∨
      call.id = waiting.requestId ∧ call'.phase.sent = true := by
  rcases h.transport_cases with heq | ⟨-, hsent, heq⟩ | ⟨input, hinput, heq⟩
  · rw [heq] at hwaiting
    exact .inl ⟨waiting, hwaiting, rfl⟩
  · rw [heq] at hwaiting
    rcases getElem?_concat_slot hwaiting with hold | ⟨-, rfl⟩
    · exact .inl ⟨waiting, hold, rfl⟩
    · exact .inr ⟨rfl, hsent⟩
  · rw [heq] at hwaiting
    exact .inl (OpenTransport.requestId_step kind hinput hwaiting)

/-- A call found after a step of call `c`, with the one it was before. -/
theorem Moves.call_before {kind : Transport.Kind} {s s' : State} {call call' : Call} {st : Step}
    (h : Moves kind s call st s' call') {c : Nat} (hcall : s.calls[c]? = some call) {c' : Nat}
    {found : Call} (hfound : (s'.put c call').calls[c']? = some found) :
    ∃ before, s.calls[c']? = some before ∧ found.id = before.id ∧
      (c = c' ∧ found = call' ∨ c ≠ c' ∧ found = before) := by
  rw [State.put, h.calls_eq] at hfound
  rcases getElem?_set_cases hfound with ⟨rfl, rfl⟩ | ⟨hc, hold⟩
  · exact ⟨call, hcall, h.id_eq, .inl ⟨rfl, rfl⟩⟩
  · exact ⟨found, hold, rfl, .inr ⟨hc, rfl⟩⟩

/-- A call that was there before a step of call `c`, with the one it is afterwards. -/
theorem Moves.call_after {kind : Transport.Kind} {s s' : State} {call call' : Call} {st : Step}
    (h : Moves kind s call st s' call') {c : Nat} (hcall : s.calls[c]? = some call) {c' : Nat}
    {before : Call} (hbefore : s.calls[c']? = some before) :
    ∃ found, (s'.put c call').calls[c']? = some found ∧ found.id = before.id ∧
      (before.phase.sent = true → found.phase.sent = true) := by
  rw [State.put, h.calls_eq, getElem?_set_slot hcall]
  by_cases hc : c = c'
  · subst hc
    obtain rfl : call = before := Option.some.inj (hcall.symm.trans hbefore)
    exact ⟨call', by rw [if_pos rfl], h.id_eq, h.sent⟩
  · exact ⟨before, by rw [if_neg hc, hbefore], rfl, id⟩

theorem kept_moves {kind : Transport.Kind} {s s' : State} {call call' : Call} {st : Step}
    (hs : Kept s) {c : Nat} (hcall : s.calls[c]? = some call) (h : Moves kind s call st s' call') :
    Kept (s'.put c call') := by
  obtain ⟨hregistered, hsingle⟩ := h.transport hs hcall
  constructor
  · intro c₁ c₂ call₁ call₂ hcall₁ hcall₂ hid
    obtain ⟨before₁, hbefore₁, hid₁, -⟩ := h.call_before hcall hcall₁
    obtain ⟨before₂, hbefore₂, hid₂, -⟩ := h.call_before hcall hcall₂
    apply hs.distinct c₁ c₂ before₁ before₂ hbefore₁ hbefore₂
    rw [← hid₁, ← hid₂, hid]
  · exact hregistered
  · exact hsingle
  · intro w waiting hwaiting
    rcases h.waits_cases hwaiting with ⟨before, hbefore, hid⟩ | ⟨hid, hsent⟩
    · obtain ⟨c', owner, howner, hid', hsent⟩ := hs.owned w before hbefore
      obtain ⟨found, hfound, hsame, hkeeps⟩ := h.call_after hcall howner
      exact ⟨c', found, hfound, hsame.trans (hid'.trans hid), hkeeps hsent⟩
    · have hput : (s'.put c call').calls[c]? = some call' :=
        calls_put_self (h.calls_eq ▸ hcall) call'
      exact ⟨c, call', hput, h.id_eq.trans hid, hsent⟩
  · intro id hentry
    by_cases hid : id = call.id
    · obtain ⟨found, hfound, hsame, -⟩ := h.call_after hcall hcall
      exact ⟨c, found, hfound, hsame.trans hid.symm⟩
    · have hsame := (h.untouched (hs.tracked c call hcall) hid).requested
      obtain ⟨c', before, hbefore, hid'⟩ := hs.requested id (by rw [← hsame]; exact hentry)
      obtain ⟨found, hfound, hkeeps, -⟩ := h.call_after hcall hbefore
      exact ⟨c', found, hfound, hkeeps.trans hid'⟩
  · intro c' found hfound
    obtain ⟨before, hbefore, hid, ⟨rfl, rfl⟩ | ⟨hc, rfl⟩⟩ := h.call_before hcall hfound
    · exact (h.tracked hs hcall).of_maps rfl rfl
    · have hne : found.id ≠ call.id := by
        intro heq
        exact hc (hs.distinct c c' call found hcall hbefore heq.symm)
      have huntouched := h.untouched (hs.tracked c call hcall) hne
      exact ((hs.tracked c' found hbefore).of_untouched huntouched).of_maps rfl rfl

theorem kept_incoming {s : State} (h : Kept s) (kind : Transport.Kind) (message : ResponseMessage) :
    Kept (step kind s (.incoming message)) where
  distinct := h.distinct
  transport := OpenTransport.registered_step h.transport kind _
  single := h.single.step kind fun id heq => by cases heq
  owned := by
    intro w waiting hwaiting
    obtain ⟨before, hbefore, hid⟩ :=
      OpenTransport.requestId_step kind (fun id heq => by cases heq) hwaiting
    obtain ⟨c, call, hcall, hid', hsent⟩ := h.owned w before hbefore
    exact ⟨c, call, hcall, hid'.trans hid, hsent⟩
  requested := h.requested
  tracked := by
    intro c call hcall
    apply (h.tracked c call hcall).of_untouched
    exact untouched_transport kind fun w waiting heq => by cases heq

theorem kept_step {kind : Transport.Kind} {s : State} {event : Event} (h : Kept s)
    (hnew : DrawsNew s event) : Kept (step kind s event) := by
  cases event with
  | call rpc node id => exact kept_call h hnew kind
  | step c st =>
    rcases step_moves kind s c st with ⟨-, heq⟩ | ⟨call, s', call', hcall, hmoves, heq⟩
    · rw [heq]
      exact h
    · rw [heq]
      exact kept_moves h hcall hmoves
  | incoming message => exact kept_incoming h kind message
  | table op =>
    exact
      { distinct := h.distinct
        transport := h.transport
        single := h.single
        owned := h.owned
        requested := h.requested
        tracked := fun c call hcall => (h.tracked c call hcall).of_maps rfl rfl }

end Rpc

end Kademlia
