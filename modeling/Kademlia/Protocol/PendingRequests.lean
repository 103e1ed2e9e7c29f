import Kademlia.Protocol.Accounting
import Kademlia.Protocol.PendingEntries

/-!
# What a call leaves behind

Only the way of a response clears both entries of a call: an error of `send` or of
`wait_response` returns before `pending_requests` is cleared, and the timeout around the
wait drops the wait with its entry.  `clean_throughout_iff` says in which runs no entry
outlives its call.
-/

namespace Kademlia

open Lib

namespace Rpc

/-- No map has an entry for a call that has ended. -/
def Clean (s : State) : Prop :=
  ∀ (c : Nat) (call : Call), s.calls[c]? = some call → call.phase.Ended →
    s.pendingRequests.lookup call.id = none ∧ s.transport.pending.lookup call.id = none

instance : (phase : Phase) → Decidable phase.Ended
  | .finished _ | .dropped => .isTrue trivial
  | .drawn | .inserted | .timed _ _ | .waiting _ | .answered | .cleared | .recorded | .lapsed
  | .lapsedCleared => .isFalse id

instance (s : State) : Decidable (Clean s) :=
  decidable_of_iff (∀ call ∈ s.calls, call.phase.Ended →
    s.pendingRequests.lookup call.id = none ∧ s.transport.pending.lookup call.id = none)
    forall_mem_iff_slots

/-- The ways in which a step ends a call before its entries are gone: with a panic in its
timeouts, with an error of `send` or of `wait_response`, after the timeout around the
wait while the transport still has its entry, and by the caller who drops it. -/
inductive Leaks (kind : Transport.Kind) (s : State) (call : Call) : Step → Prop where
  | fault {env : Env} {fault : Fault} (h : call.phase = .inserted)
      (hfault : call.rpc.timeouts s.table env call.node = .error fault) :
      Leaks kind s call (.time env)
  | sendError {outer inner : Duration} (error : Error) (h : call.phase = .timed outer inner) :
      Leaks kind s call (.send (.error error))
  | waitError {wait : Nat} {st : WaitStep} {error : Error} (h : call.phase = .waiting wait)
      (herror : (OpenTransport.step kind s.transport (.event (st.event wait))).calls[wait]?.map
        Transport.Call.phase = some (.returned (.error error))) : Leaks kind s call (.wait st)
  | timeout (env : Env) (responseTimeMs : UInt64) (h : call.phase = .lapsedCleared)
      (hentry : s.transport.pending.lookup call.id ≠ none) :
      Leaks kind s call (.record env responseTimeMs)
  | drop (h : call.phase.requested = true) : Leaks kind s call .drop
  | dropTimeout (h : call.phase = .lapsedCleared)
      (hentry : s.transport.pending.lookup call.id ≠ none) : Leaks kind s call .drop

/-- The event leaves no entry behind. -/
def LeaksNothing (kind : Transport.Kind) (s : State) : Event → Prop
  | .step c st => ∀ call, s.calls[c]? = some call → ¬ Leaks kind s call st
  | _ => True

theorem eq_empty_of_lookup {α : Type} {β : α → Type} [DecidableEq α] {map : AList β}
    (h : ∀ a, map.lookup a = none) : map = ∅ := by
  apply AList.ext
  rw [AList.empty_entries]
  apply List.eq_nil_iff_forall_not_mem.mpr
  intro entry hentry
  have hlookup := AList.mem_lookup_iff.mpr hentry
  rw [h entry.1] at hlookup
  cases hlookup

/-! ## Entries that outlive their calls -/

/-- A step that ends a call without a leak ends it without entries. -/
theorem Moves.clean {kind : Transport.Kind} {s s' : State} {call call' : Call} {st : Step}
    (h : Moves kind s call st s' call') (htracked : Tracked s call)
    (hleaks : ¬ Leaks kind s call st)
    (hclean : call.phase.Ended → s.pendingRequests.lookup call.id = none ∧
      s.transport.pending.lookup call.id = none) (hended : call'.phase.Ended) :
    s'.pendingRequests.lookup call.id = none ∧ s'.transport.pending.lookup call.id = none := by
  cases h with
  | stay => exact hclean hended
  | fault hphase hfault => exact absurd (.fault hphase hfault) hleaks
  | sendError error hphase => exact absurd (.sendError error hphase) hleaks
  | wait st hphase =>
    rcases afterWait_cases call _ (OpenTransport.step kind s.transport (.event (st.event _)))
      with ⟨id, reply, -, heq⟩ | ⟨error, herror, -⟩ | heq
    · rw [heq] at hended
      exact hended.elim
    · exact absurd (.waitError hphase herror) hleaks
    · rw [heq, hphase] at hended
      exact hended.elim
  | fail env responseTimeMs table ops hphase =>
    refine ⟨htracked.requested_eq_none (by rw [hphase]; exact id) (by rw [hphase]; rfl), ?_⟩
    by_contra hentry
    exact hleaks (.timeout env responseTimeMs hphase hentry)
  | finish env table ops hphase =>
    exact ⟨htracked.requested_eq_none (by rw [hphase]; exact id) (by rw [hphase]; rfl),
      htracked.lookup_eq_none (by rw [hphase]; rfl)⟩
  | dropWaiting hphase => exact absurd (.drop (by rw [hphase]; rfl)) hleaks
  | drop hopen hwaiting =>
    have hrequested : call.phase.requested = false := by
      by_contra hrequested
      exact hleaks (.drop (Bool.not_eq_false _ |>.mp hrequested))
    refine ⟨htracked.requested_eq_none hopen hrequested, ?_⟩
    by_contra hentry
    have hphase : call.phase = .lapsedCleared := by
      have hregistered := htracked.registered hentry
      cases hphase : call.phase with
      | lapsedCleared => rfl
      | waiting wait => exact absurd hphase (hwaiting wait)
      | finished exit => exact absurd (by rw [hphase]; trivial) hopen
      | dropped => exact absurd (by rw [hphase]; trivial) hopen
      | lapsed =>
        rw [hphase] at hrequested
        cases hrequested
      | _ =>
        rw [hphase] at hregistered
        cases hregistered
    exact hleaks (.dropTimeout hphase hentry)
  | _ => exact hended.elim

theorem not_clean_put {s : State} {c : Nat} {call call' : Call} (hcall : s.calls[c]? = some call)
    (hended : call'.phase.Ended)
    (hentry : s.pendingRequests.lookup call'.id ≠ none ∨
      s.transport.pending.lookup call'.id ≠ none) :
    ¬ Clean (s.put c call') := by
  intro hclean
  obtain ⟨hrequests, hresponses⟩ := hclean c call' (calls_put_self hcall call') hended
  exact hentry.elim (absurd hrequests) (absurd hresponses)

theorem unclean_drop (kind : Transport.Kind) {s : State} {c : Nat} {call : Call}
    (hcall : s.calls[c]? = some call) (hopen : ¬ call.phase.Ended)
    (hentry : s.pendingRequests.lookup call.id ≠ none ∨ s.transport.pending.lookup call.id ≠ none) :
    ¬ Clean (step kind s (.step c .drop)) := by
  have hstep : step kind s (.step c .drop) = s.dropCall kind c call := by
    simp only [step, hcall]
    unfold State.advance
    split <;> first | rfl | simp_all
  rw [hstep, State.dropCall]
  cases hphase : call.phase with
  | finished exit => exact absurd (by rw [hphase]; trivial) hopen
  | dropped => exact absurd (by rw [hphase]; trivial) hopen
  | waiting wait =>
    rw [← lookup_drop kind s.transport wait] at hentry
    exact not_clean_put hcall trivial hentry
  | _ => exact not_clean_put hcall trivial hentry

/-- A leak ends the call and leaves an entry. -/
theorem Leaks.unclean {kind : Transport.Kind} {s : State} {call : Call} {st : Step}
    (h : Leaks kind s call st) (htracked : Tracked s call) {c : Nat}
    (hcall : s.calls[c]? = some call) : ¬ Clean (step kind s (.step c st)) := by
  cases h with
  | fault hphase hfault =>
    have hentry := htracked.requested_ne_none (by rw [hphase]; rfl)
    simp only [step, hcall, State.advance, hphase, hfault]
    exact not_clean_put hcall trivial (.inl hentry)
  | sendError error hphase =>
    have hentry := htracked.requested_ne_none (by rw [hphase]; rfl)
    simp only [step, hcall, State.advance, hphase]
    exact not_clean_put hcall trivial (.inl hentry)
  | waitError hphase herror =>
    have hentry := htracked.requested_ne_none (by rw [hphase]; rfl)
    simp only [step, hcall, State.advance, hphase, afterWait, herror]
    exact not_clean_put hcall trivial (.inl hentry)
  | timeout env responseTimeMs hphase hentry =>
    simp only [step, hcall, State.advance, hphase]
    exact not_clean_put hcall trivial (.inr hentry)
  | drop hphase =>
    exact unclean_drop kind hcall (Phase.not_ended_of_requested hphase)
      (.inl (htracked.requested_ne_none hphase))
  | dropTimeout hphase hentry =>
    exact unclean_drop kind hcall (by rw [hphase]; exact id) (.inr hentry)

theorem clean_step_iff {kind : Transport.Kind} {s : State} {event : Event} (hs : Kept s)
    (hnew : DrawsNew s event) (h : Clean s) :
    Clean (step kind s event) ↔ LeaksNothing kind s event := by
  cases event with
  | call rpc node id =>
    refine ⟨fun _ => trivial, fun _ => ?_⟩
    intro c call hcall hended
    rcases getElem?_concat_slot hcall with hold | ⟨-, rfl⟩
    · exact h c call hold hended
    · exact hended.elim
  | step c st =>
    constructor
    · intro hclean call hcall hleaks
      exact hleaks.unclean (hs.tracked c call hcall) hcall hclean
    · intro hleaks
      rcases step_moves kind s c st with ⟨-, heq⟩ | ⟨call, s', call', hcall, hmoves, heq⟩
      · rw [heq]
        exact h
      · rw [heq]
        have htracked := hs.tracked c call hcall
        intro c' found hfound hended
        obtain ⟨before, hbefore, -, ⟨rfl, rfl⟩ | ⟨hc, rfl⟩⟩ := hmoves.call_before hcall hfound
        · rw [hmoves.id_eq]
          exact hmoves.clean htracked (hleaks call hcall) (h c call hcall) hended
        · have hne : found.id ≠ call.id := by
            intro hid
            exact hc (hs.distinct c c' call found hcall hbefore hid.symm)
          have huntouched := hmoves.untouched htracked hne
          exact huntouched.lookups_eq_none (h c' found hbefore hended)
  | incoming message =>
    refine ⟨fun _ => trivial, fun _ => ?_⟩
    intro c call hcall hended
    have huntouched : Untouched s (step kind s (.incoming message)) call.id :=
      untouched_transport kind fun w waiting heq => by cases heq
    exact huntouched.lookups_eq_none (h c call hcall hended)
  | table op => exact ⟨fun _ => trivial, fun _ => h⟩

/-- With no call in progress both maps are empty. -/
theorem Kept.maps_empty {s : State} (hs : Kept s) (h : Clean s)
    (hended : ∀ (c : Nat) (call : Call), s.calls[c]? = some call → call.phase.Ended) :
    s.pendingRequests = ∅ ∧ s.transport.pending = ∅ := by
  constructor
  · apply eq_empty_of_lookup
    intro id
    by_contra hentry
    obtain ⟨c, call, hcall, rfl⟩ := hs.requested id hentry
    exact hentry (h c call hcall (hended c call hcall)).1
  · apply eq_empty_of_lookup
    intro id
    by_contra hentry
    obtain ⟨w, hw⟩ := Option.ne_none_iff_exists'.mp hentry
    obtain ⟨waiting, hwaiting, hid, -⟩ := hs.transport id w hw
    obtain ⟨c, call, hcall, hid', -⟩ := hs.owned w waiting hwaiting
    obtain rfl : call.id = id := hid'.trans hid
    exact hentry (h c call hcall (hended c call hcall)).2

/-- In a run whose calls draw new identifiers, no entry outlives its call if and only if no
step ends a call before its entries are gone.  Then both maps are empty whenever no call
is in progress. -/
theorem clean_throughout_iff (kind : Transport.Kind) (localNode : Node) (table : RoutingTable)
    (events : List Event) (hnew : Meets (step kind) DrawsNew (start localNode table) events) :
    (Throughout (step kind) Clean (start localNode table) events ↔
      Meets (step kind) (LeaksNothing kind) (start localNode table) events) ∧
    (Meets (step kind) (LeaksNothing kind) (start localNode table) events →
      (∀ (c : Nat) (call : Call),
        (run (step kind) (start localNode table) events).calls[c]? = some call → call.phase.Ended) →
      (run (step kind) (start localNode table) events).pendingRequests = ∅ ∧
      (run (step kind) (start localNode table) events).transport.pending = ∅) := by
  have hclean : Clean (start localNode table) := by
    intro c call hcall
    cases hcall
  have hstep : ∀ s event, Kept s → DrawsNew s event → Kept (step kind s event) := by
    intro s event h hnew
    exact kept_step h hnew
  have hiff := throughout_iff_meets_of_meets (fun s event h hnew _ => hstep s event h hnew)
    (fun _ _ h hi => clean_step_iff h hi)
    (kept_start localNode table) hclean hnew
  refine ⟨hiff, fun hmeets hended => ?_⟩
  have hkept := invariant_of_meets hstep (kept_start localNode table) hnew
  exact hkept.maps_empty (hiff.mpr hmeets).last hended

/-- A ping that is answered, to its end. -/
def answeredPing (node : Node) (id : MessageId) : List Event :=
  sentPing node id ++ [.incoming (.pong id node), .step 0 (.wait .wake), .step 0 .clear,
    .step 0 (.record (Env.at 0) 3), .step 0 (.finish (Env.at 0))]

theorem maps_empty_after_pong :
    (run (step .udp) (start (Node.ofByte 0) (.new (NodeId.fromBytes [0])))
      (answeredPing (Node.ofByte 0x80) 1)).pendingRequests = ∅ ∧
    (run (step .udp) (start (Node.ofByte 0) (.new (NodeId.fromBytes [0])))
      (answeredPing (Node.ofByte 0x80) 1)).transport.pending = ∅ := by
  have hiff := clean_throughout_iff .udp (Node.ofByte 0) (.new (NodeId.fromBytes [0]))
    (answeredPing (Node.ofByte 0x80) 1) (by decide +kernel)
  apply hiff.2 (hiff.1.mp (by decide +kernel))
  apply (forall_mem_iff_slots (P := fun call : Call => call.phase.Ended)).mp
  decide +kernel

/-- A ping whose peer does not answer ends with the timeout around its wait, and the map of
the transport keeps its entry. -/
theorem entry_outlives_timeout :
    ¬ ∀ (kind : Transport.Kind) (localNode : Node) (table : RoutingTable) (events : List Event),
      Meets (step kind) DrawsNew (start localNode table) events →
      Throughout (step kind) Clean (start localNode table) events := by
  intro h
  have hclean := h .udp (Node.ofByte 0) (.new (NodeId.fromBytes [0]))
    (sentPing (Node.ofByte 0x80) 1 ++
      [.step 0 .lapse, .step 0 .clear, .step 0 (.record (Env.at 5) 0)]) (by decide +kernel)
  revert hclean
  decide +kernel

end Rpc

end Kademlia
