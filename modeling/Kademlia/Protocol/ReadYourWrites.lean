import Kademlia.Protocol.HandleRequest
import Kademlia.Routing.Admission
import Kademlia.Storage.Expiry

/-!
# Reading what was stored

Every request is answered once, and a `FIND_VALUE` by the last `STORE` of its key that is
within its time to live, or else by the closest contacts.  The one thing in the way is an
overflow in the statistics of the contacts that recording the sender looks at:
`answered_iff` says that a request is answered exactly when there is none.
-/

namespace Kademlia

open Lib

namespace RecordContact

/-- The table and the surroundings of the update after a check that failed. -/
def Check.retry (t : RoutingTable) (nodeToPing : Node) : Check → Option (RoutingTable × Env)
  | answered _ _ _ => none
  | timedOut env evict retry =>
    some (((t.recordFailure env nodeToPing.id).2.remove evict nodeToPing.id).2, retry)
  | failed evict retry => some ((t.remove evict nodeToPing.id).2, retry)

/-- No sum of statistics overflows while a contact is recorded: not in the first update, not
in the timeout of the health check, and not in the update after a check that failed. -/
def NoOverflow (nodeId : NodeId) (t : RoutingTable) (node : Node) (input : Input) : Prop :=
  node.id = nodeId ∨
    ¬ t.Overflows input.env node.id ∧
    ∀ nodeToPing, (t.update input.env node).1 = .ok (.pendingPing nodeToPing) →
      (∃ timeouts,
        Rpc.healthCheckPing.timeouts (t.update input.env node).2 input.timeout nodeToPing =
        .ok timeouts) ∧
      ∀ t' env, input.check.retry (t.update input.env node).2 nodeToPing = some (t', env) →
        ¬ t'.Overflows env node.id

/-- The end of a call that returned. -/
def Returned (phase : Phase) : Prop := ∃ isNewContact, phase = .finished (.ok isNewContact)

theorem not_returned_error (fault : Fault) : ¬ Returned (.finished (.error fault)) := by
  intro ⟨isNewContact, h⟩
  cases h

theorem returned_ok (isNewContact : Bool) : Returned (.finished (.ok isNewContact)) :=
  ⟨isNewContact, rfl⟩

variable (nodeId : NodeId) {t : RoutingTable} (node : Node)

/-- The update after the removal is the last step. -/
theorem returned_retry (ht : t.Placed) (wasKnown : Bool) (env : Env) :
    Returned (next nodeId t node (.removed wasKnown) (.retry env)).2 ↔
      ¬ t.Overflows env node.id := by
  rw [← ht.update_eq_error_iff, next]
  rcases t.update env node with ⟨fault | status, t'⟩
  · simp [not_returned_error]
  · cases status <;> simp [returned_ok]

/-- A removal does not fail. -/
theorem next_removed (t : RoutingTable) (wasKnown : Bool) (nodeToPing : Node) (evict : Env) :
    next nodeId t node (.failed wasKnown nodeToPing) (.evict evict) =
      ((t.remove evict nodeToPing.id).2, .removed wasKnown) := by
  obtain ⟨removed, hremoved⟩ := t.remove_ok evict nodeToPing.id
  rw [next]
  rcases hremove : t.remove evict nodeToPing.id with ⟨result, t'⟩
  rw [hremove] at hremoved
  obtain rfl : result = .ok removed := hremoved
  rfl

theorem returned_evict (ht : t.Placed) (wasKnown : Bool) (nodeToPing : Node) (evict retry : Env) :
    Returned (run (fun call st => next nodeId call.1 node call.2 st)
      (t, .failed wasKnown nodeToPing) [.evict evict, .retry retry]).2 ↔
      ¬ (t.remove evict nodeToPing.id).2.Overflows retry node.id := by
  have hplaced : (t.remove evict nodeToPing.id).2.Placed := ht.step (.remove evict nodeToPing.id)
  rw [← returned_retry nodeId node hplaced wasKnown retry]
  show Returned (next _ (next _ _ _ _ _).1 _ (next _ _ _ _ _).2 _).2 ↔ _
  rw [next_removed]

theorem recordFailure_eq_ok (ht : t.Placed) (env : Env) (id : NodeId) :
    (t.recordFailure env id).1 = .ok () :=
  ht.withContact_eq_ok env id fun _ => rfl

theorem recordSuccess_eq_ok (ht : t.Placed) (env : Env) (id : NodeId) (responseTimeMs : UInt64) :
    (t.recordSuccess env id responseTimeMs).1 = .ok () :=
  ht.withContact_eq_ok env id fun _ => rfl

theorem nodeSeen_eq_ok (ht : t.Placed) (env : Env) (id : NodeId) : (t.nodeSeen env id).1 = .ok () :=
  ht.withContact_eq_ok env id fun _ => rfl

theorem ignoring_of_ok (phase : Phase) {result : Outcome Unit × RoutingTable}
    (h : result.1 = .ok ()) :
    ignoring phase result = (result.2, phase) := by
  obtain ⟨outcome, t'⟩ := result
  obtain rfl : outcome = .ok () := h
  rfl

/-- After the health check the call returns unless its second update overflows. -/
theorem returned_check (ht : t.Placed) (wasKnown : Bool) (nodeToPing : Node) (check : Check) :
    Returned (run (fun call st => next nodeId call.1 node call.2 st)
      (t, .checking wasKnown nodeToPing) check.steps).2 ↔
      ∀ t' env, check.retry t nodeToPing = some (t', env) → ¬ t'.Overflows env node.id := by
  cases check with
  | answered env responseTimeMs seen =>
    have hplaced : (t.recordSuccess env nodeToPing.id responseTimeMs).2.Placed :=
      ht.step (.recordSuccess env nodeToPing.id responseTimeMs)
    have hseen := nodeSeen_eq_ok hplaced seen nodeToPing.id
    refine iff_of_true ?_ (fun t' env h => by cases h)
    show Returned (next _ (ignoring _ _).1 _ (ignoring _ _).2 _).2
    rw [ignoring_of_ok _ (recordSuccess_eq_ok ht env nodeToPing.id responseTimeMs), next]
    rcases hresult : (t.recordSuccess env nodeToPing.id responseTimeMs).2.nodeSeen seen nodeToPing.id
      with ⟨result, t'⟩
    rw [hresult] at hseen
    obtain rfl : result = .ok () := hseen
    exact returned_ok false
  | timedOut env evict retry =>
    have hplaced : (t.recordFailure env nodeToPing.id).2.Placed :=
      ht.step (.recordFailure env nodeToPing.id)
    have hiff := returned_evict nodeId node hplaced wasKnown nodeToPing evict retry
    have hfirst : next nodeId t node (.checking wasKnown nodeToPing) (.timeout env) =
        ((t.recordFailure env nodeToPing.id).2, .failed wasKnown nodeToPing) :=
      ignoring_of_ok _ (recordFailure_eq_ok ht env nodeToPing.id)
    rw [Check.steps, run_cons, hfirst, hiff]
    simp [Check.retry]
  | failed evict retry =>
    have hiff := returned_evict nodeId node ht wasKnown nodeToPing evict retry
    rw [Check.steps, run_cons]
    show Returned (run _ (t, .failed wasKnown nodeToPing) _).2 ↔ _
    rw [hiff]
    simp [Check.retry]

/-- An update that goes through overflows nowhere. -/
theorem noOverflow_of_updated (ht : t.Placed) {input : Input}
    (h : (t.update input.env node).1 = .ok .updated) : NoOverflow nodeId t node input := by
  refine .inr ⟨?_, ?_⟩
  · rw [← ht.update_eq_error_iff]
    intro ⟨fault, hfault⟩
    rw [h] at hfault
    cases hfault
  · intro nodeToPing hpending
    rw [h] at hpending
    cases hpending

theorem recordContact_returned_iff (ht : t.Placed) (input : Input) :
    Returned (recordContact nodeId t node input).2 ↔ NoOverflow nodeId t node input := by
  unfold recordContact contact NoOverflow
  by_cases hself : node.id = nodeId
  · simp [hself, returned_ok]
  simp only [hself, if_false, false_or]
  rw [← ht.update_eq_error_iff]
  have hplaced : (t.update input.env node).2.Placed := ht.step (.update input.env node)
  rcases hupdate : t.update input.env node with ⟨fault | status, t'⟩
  · simp [not_returned_error]
  rw [hupdate] at hplaced
  cases status with
  | unchanged => simp [returned_ok]
  | updated => simp [returned_ok]
  | pendingPing nodeToPing =>
    have hiff := returned_check nodeId node hplaced (t.contains node.id)
      nodeToPing input.check
    cases htimeouts : Rpc.healthCheckPing.timeouts t' input.timeout nodeToPing with
    | error fault => simp [htimeouts, not_returned_error]
    | ok timeouts =>
      simp only [htimeouts, hiff]
      constructor
      · intro h
        constructor
        · intro ⟨fault, hfault⟩
          cases hfault
        intro found hfound
        obtain rfl := UpdateStatus.pendingPing.inj (Except.ok.inj hfound)
        exact ⟨⟨timeouts, htimeouts⟩, h⟩
      · intro h
        exact (h.2 nodeToPing rfl).2

end RecordContact

namespace HandleRequest

open RecordContact (recordContact NoOverflow Returned)

/-! ## The answer to a request -/

/-- The table that the sender has been recorded in. -/
def State.contacted (s : State) (input : Input) : RoutingTable :=
  (recordContact s.nodeId s.table input.message.sender input.contact).1

/-- The value and the time of the last `STORE` of a key. -/
def Event.stores (key : NodeId) : Event → Option (Value × Instant)
  | request input =>
    match input.message with
    | .store _ _ key' value => if key' = key then some (value, input.now) else none
    | _ => none
  | cleanup _ => none

def lastStore (key : NodeId) (events : List Event) : Option (Value × Instant) :=
  latest (Event.stores key) events

/-- A value that was stored less than its time to live ago. -/
def fresh (now : Instant) : Option (Value × Instant) → Option Value
  | some (value, storedAt) => if now < storedAt + defaultTtl then some value else none
  | none => none

/-- The response has the constructor and the identifier of the request, and a lookup gives
the fresh value and no contacts, or else the closest contacts. -/
def Answers (t : RoutingTable) (now : Instant) (last : NodeId → Option (Value × Instant)) :
    RequestMessage → ResponseMessage → Prop
  | .ping id _, .pong id' _ => id' = id
  | .store id _ _ _, .storeResult id' _ _ => id' = id
  | .findNode id _ _, .nodesFound id' _ _ => id' = id
  | .findValue id _ key, .valueFound id' _ value nodes => id' = id ∧
      value = fresh now (last key) ∧
      match fresh now (last key) with
      | some _ => nodes = []
      | none => Nearest (fun node : Node => node.id.distance key) t.getAllNodes K nodes
  | _, _ => False

/-- Recording the sender of a request overflows nowhere. -/
def Countable (s : State) : Event → Prop
  | .request input => NoOverflow s.nodeId s.table input.message.sender input.contact
  | .cleanup _ => True

/-! ## Tables and storages of a run -/

theorem placed_recordContact (nodeId : NodeId) {t : RoutingTable} (ht : t.Placed) (node : Node)
    (input : RecordContact.Input) : (recordContact nodeId t node input).1.Placed := by
  have hcontact := ((RecordContact.contact_spec nodeId t node input.env).placed ht).1
  unfold recordContact
  split
  · rename_i t' wasKnown nodeToPing hresult
    rw [hresult] at hcontact
    split
    · exact hcontact
    · exact invariant (P := fun call : RoutingTable × RecordContact.Phase => call.1.Placed)
        (fun call st h => ((RecordContact.next_spec nodeId call.1 node call.2 st).placed h).1)
        hcontact input.check.steps
  · exact hcontact

theorem placed_storeEnd {nodeId : NodeId} {t : RoutingTable} (ht : t.Placed) (node : Node)
    (ending : StoreEnd) : (storeEnd nodeId t node ending).2.Placed := by
  cases ending with
  | failed => exact ht
  | timedOut env =>
    have hfailure : (t.recordFailure env node.id).2.Placed := ht.step (.recordFailure env node.id)
    simp only [storeEnd]
    split
    · rename_i hresult
      rw [hresult] at hfailure
      exact hfailure
    · rename_i hresult
      rw [hresult] at hfailure
      exact hfailure
  | answered env responseTimeMs sender contact =>
    have hsuccess : (t.recordSuccess env node.id responseTimeMs).2.Placed :=
      ht.step (.recordSuccess env node.id responseTimeMs)
    simp only [storeEnd]
    split
    · rename_i hresult
      rw [hresult] at hsuccess
      exact hsuccess
    · rename_i t' _ hresult
      rw [hresult] at hsuccess
      have hcontact := placed_recordContact nodeId hsuccess sender contact
      split
      · rename_i hresult'
        rw [hresult'] at hcontact
        exact hcontact
      · rename_i hresult'
        rw [hresult'] at hcontact
        exact hcontact

theorem placed_replicate (s : State) {t : RoutingTable} (ht : t.Placed) (node : Node) (key : NodeId)
    (input : StoreInput) : (s.replicate t node key input).2.Placed := by
  unfold State.replicate
  split
  · split
    · exact ht
    · exact ht
    · split
      · exact ht
      · exact placed_storeEnd ht node input.ending
  · exact ht

theorem placed_replicateKeys (s : State) (node : Node) (inputs : NodeId → StoreInput)
    (keys : List NodeId) {t : RoutingTable} (ht : t.Placed) :
    (s.replicateKeys node inputs keys t).Placed := by
  induction keys generalizing t with
  | nil => exact ht
  | cons key rest ih =>
    have hkey := placed_replicate s ht node key (inputs key)
    rw [State.replicateKeys]
    split
    · rename_i hresult
      rw [hresult] at hkey
      exact hkey
    · rename_i hresult
      rw [hresult] at hkey
      exact ih hkey

/-- What a request does when its sender has been recorded. -/
theorem handleRequest_of_returned {s : State} {input : Input}
    (h : Returned (recordContact s.nodeId s.table input.message.sender input.contact).2) :
    responses s (.request input) =
        (match ({ s with table := s.contacted input }.respond input.now input.message).1 with
        | .error _ => []
        | .ok response => [(input.fromAddr, response)]) ∧
      (step s (.request input)).storage =
        ({ s with table := s.contacted input }.respond input.now input.message).2.storage := by
  obtain ⟨isNewContact, hphase⟩ := h
  unfold State.contacted
  simp only [responses, step, State.handleRequest]
  rcases hresult : recordContact s.nodeId s.table input.message.sender input.contact with ⟨t, phase⟩
  rw [hresult] at hphase
  obtain rfl : phase = .finished (.ok isNewContact) := hphase
  dsimp only
  split
  · rename_i hrespond
    rw [hrespond]
    exact ⟨rfl, rfl⟩
  · rename_i hrespond
    rw [hrespond]
    cases isNewContact <;> exact ⟨rfl, rfl⟩

theorem responses_of_not_returned {s : State} {input : Input}
    (h : ¬ Returned (recordContact s.nodeId s.table input.message.sender input.contact).2) :
    responses s (.request input) = [] := by
  simp only [responses, State.handleRequest]
  split
  · rename_i t isNewContact hresult
    rw [hresult] at h
    exact absurd ⟨isNewContact, rfl⟩ h
  · rfl

theorem table_respond (s : State) (now : Instant) (message : RequestMessage) :
    (s.respond now message).2.table = s.table := by
  cases message <;> rfl

theorem placed_step {s : State} (h : s.table.Placed) (event : Event) :
    (step s event).table.Placed := by
  cases event with
  | cleanup now => exact h
  | request input =>
    have hcontact := placed_recordContact s.nodeId h input.message.sender input.contact
    simp only [step, State.handleRequest]
    split
    · rename_i t isNewContact hresult
      rw [hresult] at hcontact
      have htable := table_respond { s with table := t } input.now input.message
      split
      · rename_i hrespond
        rw [hrespond] at htable
        rw [htable]
        exact hcontact
      · rename_i response s' hrespond
        rw [hrespond] at htable
        have hplaced : s'.table.Placed := by
          rw [htable]
          exact hcontact
        cases isNewContact with
        | false => exact hplaced
        | true => exact placed_replicateKeys s' _ _ _ hplaced
    · rename_i hresult
      rw [hresult] at hcontact
      exact hcontact

/-- The operation on the storage that an event makes when its sender has been recorded.  A
lookup leaves the storage as it is. -/
def Event.op : Event → Option Expiry.Op
  | request input =>
    match input.message with
    | .store _ _ key value => some (.store input.now key value)
    | _ => none
  | cleanup now => some (.cleanup now)

theorem storage_step {s : State} (h : s.table.Placed) {event : Event}
    (hcountable : Countable s event) :
    (step s event).storage = run Expiry.step s.storage event.op.toList := by
  cases event with
  | cleanup now => rfl
  | request input =>
    have hreturned := (RecordContact.recordContact_returned_iff _ _ h input.contact).mpr hcountable
    rw [(handleRequest_of_returned hreturned).2]
    cases hmessage : input.message with
    | store id sender key value => simp only [Event.op, hmessage]; rfl
    | _ => simp only [Event.op, hmessage]; rfl

theorem storage_run {s : State} (h : s.table.Placed) {events : List Event}
    (hcountable : Meets step Countable s events) :
    (run step s events).storage = run Expiry.step s.storage (events.filterMap Event.op) := by
  induction events generalizing s with
  | nil => rfl
  | cons event rest ih =>
    rw [run_cons, ih (placed_step h event) hcountable.2, storage_step h hcountable.1]
    cases hop : event.op with
    | none => rw [List.filterMap_cons_none hop]; rfl
    | some op => rw [List.filterMap_cons_some hop]; rfl

theorem placed_run_start (nodeId : NodeId) (addr : SocketAddr) (events : List Event) :
    (run step (start nodeId addr) events).table.Placed :=
  invariant (P := fun s : State => s.table.Placed) (fun _ event h => placed_step h event)
    (RoutingTable.placed_withK nodeId K) events

/-! ## The last store of a key -/

theorem op_cases {event : Event} {op : Expiry.Op} (h : event.op = some op) :
    op = .cleanup event.time ∨ ∃ key value, op = .store event.time key value := by
  cases event with
  | cleanup now => exact .inl (Option.some.inj h).symm
  | request input =>
    cases hmessage : input.message with
    | store id sender key value =>
      simp only [Event.op, hmessage, Option.some.injEq] at h
      exact .inr ⟨key, value, h.symm⟩
    | _ => simp [Event.op, hmessage] at h

theorem time_op {event : Event} {op : Expiry.Op} (h : event.op = some op) :
    op.time = some event.time := by
  rcases op_cases h with rfl | ⟨key, value, rfl⟩
  · rfl
  · rfl

theorem times_sublist (events : List Event) :
    ((events.filterMap Event.op).filterMap Expiry.Op.time).Sublist (events.map Event.time) := by
  induction events with
  | nil => exact .slnil
  | cons event rest ih =>
    cases hop : event.op with
    | none =>
      rw [List.filterMap_cons_none hop, List.map_cons]
      exact ih.cons _
    | some op =>
      rw [List.filterMap_cons_some hop, List.filterMap_cons_some (time_op hop), List.map_cons]
      exact ih.cons_cons _

theorem fits_op {events : List Event}
    (h : ∀ event ∈ events, event.time + defaultTtl < instantLimit) :
    ∀ op ∈ events.filterMap Event.op, op.Fits defaultTtl := by
  intro op hop
  obtain ⟨event, hevent, heq⟩ := List.mem_filterMap.mp hop
  rcases op_cases heq with rfl | ⟨key, value, rfl⟩
  · trivial
  · exact h event hevent

theorem lastWrite_eq_lastStore (key : NodeId) (events : List Event) :
    Expiry.lastWrite defaultTtl key (events.filterMap Event.op) =
      (lastStore key events).map fun last => .stored last.1 last.2 defaultTtl := by
  have hevent : (fun event : Event => event.op.bind (Expiry.Op.write defaultTtl key)) =
      fun event => (event.stores key).map fun last => .stored last.1 last.2 defaultTtl := by
    funext event
    cases event with
    | cleanup now => rfl
    | request input =>
      cases hmessage : input.message with
      | store id sender key' value =>
        simp only [Event.op, Event.stores, hmessage, Option.bind_some, Expiry.Op.write]
        by_cases hkey : key' = key
        · simp [hkey]
        · simp [hkey]
      | _ => simp only [Event.op, Event.stores, hmessage]; rfl
  rw [Expiry.lastWrite, latest_filterMap, hevent, latest_map]
  rfl

theorem readEntry_eq_fresh (now : Instant) (last : Option (Value × Instant)) :
    ExpiringMap.readEntry now
      (Expiry.entryOf (last.map fun last => .stored last.1 last.2 defaultTtl)) =
        fresh now last := by
  cases last with
  | none => simp only [Option.map_none, Expiry.entryOf, ExpiringMap.readEntry, fresh]
  | some last => simp only [Option.map_some, Expiry.entryOf, ExpiringMap.readEntry, fresh]

/-- A lookup after a run finds the value that is fresh. -/
theorem get_eq_fresh {nodeId : NodeId} {addr : SocketAddr} {events : List Event} {input : Input}
    (hclock : ((events ++ [Event.request input]).map Event.time).Pairwise (· ≤ ·))
    (hfits : ∀ event ∈ events, event.time + defaultTtl < instantLimit)
    (hcountable : Meets step Countable (start nodeId addr) events) (key : NodeId) :
    (run step (start nodeId addr) events).storage.get input.now key =
      match fresh input.now (lastStore key events) with
      | some value => .ok value
      | none => .error (.err .valueNotFound) := by
  have hops : (((events.filterMap Event.op) ++ [Expiry.Op.get input.now key]).filterMap
      Expiry.Op.time).Pairwise (· ≤ ·) := by
    refine List.Pairwise.sublist ?_ hclock
    rw [List.filterMap_append, List.map_append]
    exact (times_sublist events).append (List.Sublist.refl _)
  have hstorage : (run step (start nodeId addr) events).storage =
      run Expiry.step (.withTtl defaultTtl) (events.filterMap Event.op) :=
    storage_run (RoutingTable.placed_withK nodeId K) hcountable
  have hget := Expiry.get_run hops (fits_op hfits)
  rw [lastWrite_eq_lastStore, readEntry_eq_fresh] at hget
  rw [hstorage]
  apply hget.trans
  cases fresh input.now (lastStore key events) <;> rfl

/-- The handler of a request that reads what is fresh gives the right answer. -/
theorem respond_answers {s : State} {now : Instant} (last : NodeId → Option (Value × Instant))
    (hget : ∀ key, s.storage.get now key =
      match fresh now (last key) with
      | some value => .ok value
      | none => .error (.err .valueNotFound)) (message : RequestMessage) :
    ∃ response, (s.respond now message).1 = .ok response ∧
      Answers s.table now last message response := by
  cases message with
  | ping id sender => exact ⟨_, rfl, rfl⟩
  | store id sender key value => exact ⟨_, rfl, rfl⟩
  | findNode id sender target => exact ⟨_, rfl, rfl⟩
  | findValue id sender key =>
    have hkey := hget key
    cases hfresh : fresh now (last key) with
    | none =>
      rw [hfresh] at hkey
      refine ⟨.valueFound id s.localNode none (s.table.getClosest key K), ?_, rfl, hfresh.symm, ?_⟩
      · simp only [State.respond, State.handleFindValue, hkey]
      · rw [hfresh]
        exact s.table.getClosest_spec key K
    | some value =>
      rw [hfresh] at hkey
      refine ⟨.valueFound id s.localNode (some value) [], ?_, rfl, hfresh.symm, ?_⟩
      · simp only [State.respond, State.handleFindValue, hkey]
      · rw [hfresh]

/-- After requests and cleanups in the order of their readings of the clock, a request is
answered once, at the address it came from, with its identifier and the constructor and the
value or contacts that it asks for, if and only if recording its sender does not overflow. -/
theorem answered_iff (nodeId : NodeId) (addr : SocketAddr) (events : List Event) (input : Input)
    (hclock : ((events ++ [Event.request input]).map Event.time).Pairwise (· ≤ ·))
    (hfits : ∀ event ∈ events, event.time + defaultTtl < instantLimit)
    (hcountable : Meets step Countable (start nodeId addr) events) :
    (∃ response,
      responses (run step (start nodeId addr) events) (.request input) =
        [(input.fromAddr, response)] ∧
      Answers ((run step (start nodeId addr) events).contacted input) input.now
        (fun key => lastStore key events) input.message response) ↔
      Countable (run step (start nodeId addr) events) (.request input) := by
  have hreturned := RecordContact.recordContact_returned_iff
    (run step (start nodeId addr) events).nodeId input.message.sender
    (placed_run_start nodeId addr events) input.contact
  constructor
  · rintro ⟨response, hresponses, -⟩
    by_contra hoverflow
    rw [responses_of_not_returned (mt hreturned.mp hoverflow)] at hresponses
    cases hresponses
  · intro hcontact
    have hhandle := (handleRequest_of_returned (hreturned.mpr hcontact)).1
    obtain ⟨response, hresponse, hanswers⟩ := respond_answers
      (s := { run step (start nodeId addr) events with
        table := (run step (start nodeId addr) events).contacted input })
      (fun key => lastStore key events)
      (fun key => get_eq_fresh hclock hfits hcountable key) input.message
    refine ⟨response, ?_, hanswers⟩
    rw [hhandle, hresponse]

/-- A request whose contacts all fail their health checks, at one instant. -/
def Input.at (now : Instant) (message : RequestMessage) : Input :=
  { message := message
    fromAddr := message.sender.addr
    contact := { env := .at 0, timeout := .at 0, check := .failed (.at 0) (.at 0) }
    now := now
    replication := fun _ => { now := now, timeout := .at 0, ending := .failed } }

def oneStore : List Event :=
  [.request (.at 1 (.store 7 (Node.ofByte 0x80) (NodeId.fromBytes [5]) [1, 2]))]

/-- A peer stores a value and another one reads it. -/
theorem stored_value_answered :
    ∃ response,
      responses (run step (start (NodeId.fromBytes [0]) (Node.ofByte 0).addr) oneStore)
        (.request (.at 2 (.findValue 8 (Node.ofByte 0x40) (NodeId.fromBytes [5])))) =
          [((Node.ofByte 0x40).addr, response)] ∧
      Answers ((run step (start (NodeId.fromBytes [0]) (Node.ofByte 0).addr) oneStore).contacted
          (.at 2 (.findValue 8 (Node.ofByte 0x40) (NodeId.fromBytes [5])))) 2
        (fun key => lastStore key oneStore) (.findValue 8 (Node.ofByte 0x40) (NodeId.fromBytes [5]))
        response := by
  have hplaced := placed_run_start (NodeId.fromBytes [0]) (Node.ofByte 0).addr
  have hstored : Meets step Countable (start (NodeId.fromBytes [0]) (Node.ofByte 0).addr) oneStore :=
    ⟨RecordContact.noOverflow_of_updated _ _ (hplaced []) (by decide +kernel), trivial⟩
  apply (answered_iff _ _ oneStore (.at 2 (.findValue 8 (Node.ofByte 0x40) (NodeId.fromBytes [5])))
    (by decide) (by decide +kernel) hstored).mpr
  exact RecordContact.noOverflow_of_updated _ _ (hplaced oneStore) (by decide +kernel)

/-- A ping from a peer of the farthest bucket with the statistics given. -/
def pingFrom (byte : UInt8) (responseStats : ResponseStats) : Event :=
  .request (.at 0 (.ping 7 { Node.ofByte 0 with
    id := NodeId.fromBytes (List.replicate 19 0x80 ++ [byte]), responseStats := responseStats }))

/-- Twenty peers fill a bucket, the first with counters whose sum overflows. -/
def crowd : List Event :=
  pingFrom 0 { successes := 0xffffffff, failures := 1, avgResponseTimeMs := none } ::
    (List.range 19).map fun i => pingFrom (UInt8.ofNat (i + 1)) .default

/-- The ping of one more peer ends in a panic and is not answered. -/
theorem unanswered_after_overflow :
    ¬ ∀ (nodeId : NodeId) (addr : SocketAddr) (events : List Event) (input : Input),
      ((events ++ [Event.request input]).map Event.time).Pairwise (· ≤ ·) →
      (∀ event ∈ events, event.time + defaultTtl < instantLimit) →
      ∃ response,
        responses (run step (start nodeId addr) events) (.request input) =
          [(input.fromAddr, response)] ∧
        Answers ((run step (start nodeId addr) events).contacted input) input.now
          (fun key => lastStore key events) input.message response := by
  intro h
  have hnone : responses (run step (start (NodeId.fromBytes [0]) (Node.ofByte 0).addr) crowd)
      (.request (.at 0 (.ping 9 (Node.ofByte 0x90)))) = [] := by
    decide +kernel
  obtain ⟨response, hresponses, -⟩ := h (NodeId.fromBytes [0]) (Node.ofByte 0).addr crowd
    (.at 0 (.ping 9 (Node.ofByte 0x90))) (by decide +kernel) (by decide +kernel)
  rw [hnone] at hresponses
  cases hresponses

end HandleRequest

end Kademlia
