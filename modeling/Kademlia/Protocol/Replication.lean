import Kademlia.Protocol.NewContact

/-!
# What follows the report of a new contact

`handle_request` waits for `record_contact`, runs the handler of its request, and then
`replicate_to_new_node` when the call reported `true`.  An error of the handler, such as
a response that cannot be sent, ends it before that.  All other functions that call
`record_contact` drop its result.

A run interleaves the steps of any number of these callers.  The main result says for
which runs every contact that enters the table is reported by exactly one call and is
replicated to exactly once.
-/

namespace Kademlia

open Lib

namespace Replication

open RecordContact (Call Phase Reports next)

/-- The caller of a call: a `handle_request` whose handler has not ended yet, one whose
handler has, with the times it ran `replicate_to_new_node`, or one of `ping`, `store`,
`find_node_rpc`, `find_value_rpc` and `join`. -/
inductive Caller where
  | handling
  | handled (replications : Nat)
  | other

/-- Each call of `contacts` has its caller at the same position. -/
structure State where
  contacts : RecordContact.State
  callers : List Caller

/-- A request of a node, another call of `record_contact`, a step of a call, the end of
the handler of a request, or the bookkeeping of a response. -/
inductive Event where
  | request (sender : Node)
  | call (node : Node)
  | step (call : Nat) (step : RecordContact.Step)
  | handled (call : Nat) (result : Outcome Unit)
  | recordSuccess (env : Env) (nodeId : NodeId) (responseTimeMs : UInt64)
  | recordFailure (env : Env) (nodeId : NodeId)

def start (nodeId : NodeId) (k : Nat) : State :=
  { contacts := RecordContact.start nodeId k, callers := [] }

/-- How often `handle_request` runs `replicate_to_new_node` after its handler. -/
def replications (isNewContact : Bool) : Outcome Unit → Nat
  | .ok () => if isNewContact then 1 else 0
  | .error _ => 0

def State.contact (s : State) (e : RecordContact.Event) : State :=
  { s with contacts := RecordContact.step s.contacts e }

def State.begin (s : State) (caller : Caller) (node : Node) : State :=
  { contacts := RecordContact.step s.contacts (.call node), callers := s.callers ++ [caller] }

/-- The handler of a request runs when its call has returned without an error. -/
def State.handled (s : State) (c : Nat) (result : Outcome Unit) : State :=
  match s.callers[c]?, s.contacts.calls[c]? with
  | some .handling, some call =>
    match call.phase with
    | .finished (.ok isNewContact) =>
      { s with callers := s.callers.set c (.handled (replications isNewContact result)) }
    | _ => s
  | _, _ => s

def step (s : State) : Event → State
  | .request sender => s.begin .handling sender
  | .call node => s.begin .other node
  | .step c st => s.contact (.step c st)
  | .handled c result => s.handled c result
  | .recordSuccess env nodeId responseTimeMs =>
    s.contact (.recordSuccess env nodeId responseTimeMs)
  | .recordFailure env nodeId => s.contact (.recordFailure env nodeId)

/-- What a caller has done, after its call brought its node in so many times. -/
def Caller.Exact (entered : Nat) : Caller → Prop
  | .handling => True
  | .handled replications => replications = entered
  | .other => entered = 0

/-- The reports are exact, each contact came in by a call of a `handle_request`, and one
whose handler has ended ran `replicate_to_new_node` as often as its call brought its
sender in. -/
structure Exact (s : State) : Prop where
  reports : RecordContact.Exact s.contacts
  callers : ∀ (c : Nat) (call : Call) (caller : Caller), s.contacts.calls[c]? = some call →
    s.callers[c]? = some caller → caller.Exact call.entered

/-- The entry that a step of a call inserts as a new contact. -/
def inserted (s : RecordContact.State) (call : Call) (st : RecordContact.Step) : Option Node :=
  (RecordContact.tableOp s.nodeId call.node call.phase st).bind s.table.inserted

/-- The steps that keep the replication exact: those that keep the reports exact, where a
call whose result is dropped brings nobody in, and no handler fails after the call for its
request brought the sender in. -/
def Replicates (s : State) : Event → Prop
  | .step c st =>
    Reports s.contacts (.step c st) ∧
      ∀ call, s.contacts.calls[c]? = some call → s.callers[c]? = some .other →
        ∀ entry, inserted s.contacts call st = some entry →
          s.contacts.table.contains entry.id = true
  | .handled c (.error _) =>
    ∀ call isNewContact, s.contacts.calls[c]? = some call → s.callers[c]? = some .handling →
      call.phase = .finished (.ok isNewContact) → call.entered = 0
  | _ => True

/-- A handler ends after its call. -/
structure Sound (s : State) : Prop where
  contacts : RecordContact.Sound s.contacts
  length_eq : s.callers.length = s.contacts.calls.length
  handled : ∀ (c : Nat) (call : Call) (replications : Nat), s.contacts.calls[c]? = some call →
    s.callers[c]? = some (.handled replications) → ∃ result, call.phase = .finished result

/-! ## The end of a handler -/

inductive HandledSpec (s : State) (c : Nat) (result : Outcome Unit) : State → Prop where
  | ended {call : Call} {isNewContact : Bool} (hcall : s.contacts.calls[c]? = some call)
      (hcaller : s.callers[c]? = some .handling)
      (hphase : call.phase = .finished (.ok isNewContact)) :
      HandledSpec s c result
        { s with callers := s.callers.set c (.handled (replications isNewContact result)) }
  | idle (hidle : ∀ call isNewContact, s.contacts.calls[c]? = some call →
      s.callers[c]? = some .handling → call.phase ≠ .finished (.ok isNewContact)) :
      HandledSpec s c result s

theorem handled_spec (s : State) (c : Nat) (result : Outcome Unit) :
    HandledSpec s c result (s.handled c result) := by
  unfold State.handled
  split
  · rename_i call hcaller hcall
    split
    · rename_i isNewContact hphase
      exact .ended hcall hcaller hphase
    · rename_i hphase
      refine .idle fun call' isNewContact hcall' _ hended => ?_
      obtain rfl := Option.some.inj (hcall.symm.trans hcall')
      exact hphase isNewContact hended
  · rename_i hnone
    exact .idle fun call _ hcall hcaller _ => hnone call hcaller hcall

/-- The report of a call that has ended without an error, as the number of replications
that are due. -/
theorem entered_eq {s : RecordContact.State} (h : RecordContact.Exact s) {c : Nat} {call : Call}
    {isNewContact : Bool} (hcall : s.calls[c]? = some call)
    (hphase : call.phase = .finished (.ok isNewContact)) :
    replications isNewContact (.ok ()) = call.entered := by
  obtain ⟨hle, hreport⟩ := h.calls c call hcall
  have hiff := hreport _ hphase
  show (if isNewContact = true then 1 else 0) = call.entered
  cases isNewContact with
  | true => exact (hiff.mp rfl).symm
  | false =>
    have hne : call.entered ≠ 1 := fun hone => nomatch hiff.mpr hone
    show 0 = call.entered
    omega

theorem Sound.handled_step {s : State} (h : Sound s) (c : Nat) (result : Outcome Unit) :
    Sound (s.handled c result) := by
  have hspec := handled_spec s c result
  generalize s.handled c result = s' at hspec
  cases hspec with
  | idle _ => exact h
  | @ended call isNewContact hcall hcaller hphase =>
    refine ⟨h.contacts, ?_, fun c' call' n hcall' hcaller' => ?_⟩
    · rw [List.length_set]
      exact h.length_eq
    rcases getElem?_set_cases hcaller' with ⟨rfl, -⟩ | ⟨-, hold⟩
    · obtain rfl := Option.some.inj (hcall.symm.trans hcall')
      exact ⟨_, hphase⟩
    · exact h.handled c' call' n hcall' hold

/-- A caller that comes to another point has to have done what it should by then. -/
theorem exact_put_iff {s : State} (h : Exact s) {c : Nat} {call : Call} {old caller : Caller}
    (hcall : s.contacts.calls[c]? = some call) (hcaller : s.callers[c]? = some old) :
    Exact { s with callers := s.callers.set c caller } ↔ caller.Exact call.entered := by
  constructor
  · intro hexact
    refine hexact.callers c call caller hcall ?_
    show (s.callers.set c _)[c]? = _
    rw [getElem?_set_slot hcaller, if_pos rfl]
  · intro hdone
    refine ⟨h.reports, fun c' call' caller' hcall' hcaller' => ?_⟩
    rcases getElem?_set_cases hcaller' with ⟨rfl, rfl⟩ | ⟨-, hold⟩
    · obtain rfl := Option.some.inj (hcall.symm.trans hcall')
      exact hdone
    · exact h.callers c' call' caller' hcall' hold

/-- After its handler a `handle_request` has done what it should, unless the handler of a
request failed that brought its sender in. -/
theorem exact_handled_iff {s : State} (h : Exact s) (c : Nat) (result : Outcome Unit) :
    Exact (s.handled c result) ↔ Replicates s (.handled c result) := by
  have hspec := handled_spec s c result
  generalize s.handled c result = s' at hspec
  cases hspec with
  | idle hidle =>
    refine iff_of_true h ?_
    cases result with
    | ok _ => trivial
    | error _ =>
      intro call isNewContact hcall hcaller hphase
      exact absurd hphase (hidle call isNewContact hcall hcaller)
  | @ended call isNewContact hcall hcaller hphase =>
    rw [exact_put_iff h hcall hcaller]
    show replications isNewContact result = call.entered ↔ _
    cases result with
    | ok _ => exact iff_of_true (entered_eq h.reports hcall hphase) trivial
    | error fault =>
      constructor
      · intro hcount call' _ hcall' _ _
        obtain rfl := Option.some.inj (hcall.symm.trans hcall')
        exact hcount.symm
      · intro hall
        exact (hall call isNewContact hcall hcaller hphase).symm

/-! ## A step of a call -/

/-- A step of a call that has ended does nothing. -/
theorem next_finished (nodeId : NodeId) (t : RoutingTable) (node : Node) (result : Outcome Bool)
    (st : RecordContact.Step) :
    next nodeId t node (.finished result) st = (t, .finished result) := by
  cases st <;> rfl

theorem step_of_call {s : RecordContact.State} {c : Nat} {call : Call}
    (hcall : s.calls[c]? = some call) (st : RecordContact.Step) :
    RecordContact.step s (.step c st) =
      s.advance c call (next s.nodeId s.table call.node call.phase st).1
        (next s.nodeId s.table call.node call.phase st).2 := by
  rw [RecordContact.step, hcall]

/-- A call after a step of the call `c`. -/
theorem calls_step {s : RecordContact.State} {c : Nat} {st : RecordContact.Step} {c' : Nat}
    {call' : Call} (h : (RecordContact.step s (.step c st)).calls[c']? = some call') :
    (s.calls[c']? = some call' ∧ c ≠ c') ∨
      ∃ call, c = c' ∧ s.calls[c]? = some call ∧ call' = { call with
        phase := (next s.nodeId s.table call.node call.phase st).2
        entered := call.enteredAfter s.table (next s.nodeId s.table call.node call.phase st).1 } := by
  rcases hcall : s.calls[c]? with _ | call
  · rw [RecordContact.step, hcall] at h
    refine .inl ⟨h, ?_⟩
    rintro rfl
    rw [hcall] at h
    cases h
  · rw [step_of_call hcall] at h
    rcases getElem?_set_cases h with ⟨hc, hnew⟩ | ⟨hc, hold⟩
    · exact .inr ⟨call, hc, rfl, hnew⟩
    · exact .inl ⟨hold, hc⟩

theorem length_calls_step (s : RecordContact.State) (c : Nat) (st : RecordContact.Step) :
    (RecordContact.step s (.step c st)).calls.length = s.calls.length := by
  rw [RecordContact.step]
  rcases s.calls[c]? with _ | call
  · rfl
  · exact List.length_set

/-- An operation brings nobody in when what it inserts is a contact already. -/
theorem quiet_step_iff {t : RoutingTable} (h : t.Placed) (op : TableOp) :
    RecordContact.Quiet t (t.step op) ↔
      ∀ entry, t.inserted op = some entry → t.contains entry.id = true := by
  constructor
  · intro hquiet entry hinserted
    by_contra hnew
    have hafter := hquiet entry.id (Bool.eq_false_iff.mpr hnew)
    rw [h.contains_of_inserted hinserted] at hafter
    cases hafter
  · intro hall id hbefore
    rw [Bool.eq_false_iff]
    intro hafter
    obtain ⟨entry, hinserted, rfl⟩ := h.inserted_of_enters hbefore hafter
    rw [hall entry hinserted] at hbefore
    cases hbefore

theorem quiet_next_iff {s : RecordContact.State} (h : s.table.Placed) (call : Call)
    (st : RecordContact.Step) :
    RecordContact.Quiet s.table (next s.nodeId s.table call.node call.phase st).1 ↔
      ∀ entry, inserted s call st = some entry → s.table.contains entry.id = true := by
  rw [RecordContact.next_table, inserted]
  rcases RecordContact.tableOp s.nodeId call.node call.phase st with _ | op
  · exact iff_of_true (.refl _) fun entry hentry => nomatch hentry
  · exact quiet_step_iff h op

theorem Sound.step_call {s : State} (h : Sound s) (c : Nat) (st : RecordContact.Step) :
    Sound (s.contact (.step c st)) := by
  refine ⟨h.contacts.step (.step c st), ?_, fun c' call' n hcall' hcaller' => ?_⟩
  · exact h.length_eq.trans (length_calls_step s.contacts c st).symm
  rcases calls_step hcall' with ⟨hold, -⟩ | ⟨call, rfl, hcall, rfl⟩
  · exact h.handled c' call' n hold hcaller'
  · obtain ⟨result, hphase⟩ := h.handled c call n hcall hcaller'
    refine ⟨result, ?_⟩
    show (next _ _ _ call.phase st).2 = _
    rw [hphase, next_finished]

/-- A step that brings in neither the node of its call nor anybody else. -/
theorem quiet_of_entered {t t' : RoutingTable} (ht' : t'.Placed) {call : Call}
    (hown : RecordContact.anyEnters t t' (fun id => id ≠ call.node.id) = false)
    (hentered : call.enteredAfter t t' = 0) : RecordContact.Quiet t t' := by
  rw [RecordContact.anyEnters_eq_false_iff ht'] at hown
  intro id hbefore
  by_cases hid : id = call.node.id
  · subst hid
    unfold Call.enteredAfter RecordContact.enters at hentered
    rw [hbefore] at hentered
    rcases hafter : t'.contains call.node.id with _ | _
    · rfl
    · rw [hafter] at hentered
      exact absurd hentered (Nat.succ_ne_zero _)
  · exact hown id (decide_eq_true hid) hbefore

/-- A step that keeps the replication exact brings nobody in when the result of its call is
dropped. -/
theorem quiet_of_exact {s : State} (hs : Sound s) (h : Exact s) {c : Nat} {st : RecordContact.Step}
    (hexact : Exact (s.contact (.step c st))) {call : Call}
    (hcall : s.contacts.calls[c]? = some call) (hcaller : s.callers[c]? = some .other) :
    RecordContact.Quiet s.contacts.table
      (next s.contacts.nodeId s.contacts.table call.node call.phase st).1 := by
  have hstep : RecordContact.step s.contacts (.step c st) = s.contacts.advance c call _ _ :=
    step_of_call hcall st
  have hplaced :=
    ((RecordContact.next_spec s.contacts.nodeId s.contacts.table call.node call.phase st).placed
      hs.contacts.placed).1
  have hreport := hexact.reports
  have hentered := hexact.callers c { call with
    phase := (next s.contacts.nodeId s.contacts.table call.node call.phase st).2
    entered := _ } .other
    (by
      show (RecordContact.step s.contacts (.step c st)).calls[c]? = _
      rw [hstep]
      exact (getElem?_set_slot hcall _ c).trans (if_pos rfl)) hcaller
  rw [State.contact, hstep, RecordContact.exact_advance_iff h.reports hcall] at hreport
  exact quiet_of_entered hplaced hreport.1 hentered

/-- After a step of its call a caller has still done what it should, if a step of a call whose
result is dropped brings nobody in. -/
theorem Caller.Exact.step_call {s : State} (hs : Sound s) {c : Nat} {call : Call}
    {caller : Caller} (hcall : s.contacts.calls[c]? = some call)
    (hcaller : s.callers[c]? = some caller) (h : caller.Exact call.entered)
    (st : RecordContact.Step)
    (hother : caller = .other → RecordContact.Quiet s.contacts.table
      (next s.contacts.nodeId s.contacts.table call.node call.phase st).1) :
    caller.Exact (call.enteredAfter s.contacts.table
      (next s.contacts.nodeId s.contacts.table call.node call.phase st).1) := by
  cases caller with
  | handling => trivial
  | handled n =>
    obtain ⟨result, hphase⟩ := hs.handled c call n hcall hcaller
    rw [hphase, next_finished, Call.enteredAfter_of_quiet _ (.refl _)]
    exact h
  | other =>
    rw [Call.enteredAfter_of_quiet _ (hother rfl)]
    exact h

/-- What the caller of a call finds after a step of the call. -/
theorem exact_step_call_iff {s : State} (hs : Sound s) (h : Exact s) (c : Nat)
    (st : RecordContact.Step) :
    Exact (s.contact (.step c st)) ↔ Replicates s (.step c st) := by
  have hreports : RecordContact.Exact (RecordContact.step s.contacts (.step c st)) ↔
      Reports s.contacts (.step c st) :=
    RecordContact.exact_step_iff hs.contacts h.reports (.step c st)
  constructor
  · intro hexact
    refine ⟨hreports.mp hexact.reports, fun call hcall hcaller => ?_⟩
    rw [← quiet_next_iff hs.contacts.placed call st]
    exact quiet_of_exact hs h hexact hcall hcaller
  · rintro ⟨hguard, hother⟩
    refine ⟨hreports.mpr hguard, fun c' call' caller hcall' hcaller => ?_⟩
    rcases calls_step hcall' with ⟨hold, -⟩ | ⟨call, rfl, hcall, rfl⟩
    · exact h.callers c' call' caller hold hcaller
    refine (h.callers c call caller hcall hcaller).step_call hs hcall hcaller st ?_
    rintro rfl
    exact (quiet_next_iff hs.contacts.placed call st).mpr (hother call hcall hcaller)

/-! ## Runs -/

/-- A new call and its caller. -/
theorem begin_cases {s : State} (h : Sound s) {caller new : Caller} {node : Node} {c : Nat}
    {call : Call} (hcall : (s.begin new node).contacts.calls[c]? = some call)
    (hcaller : (s.begin new node).callers[c]? = some caller) :
    (s.contacts.calls[c]? = some call ∧ s.callers[c]? = some caller) ∨
      (call = { node := node, phase := .arrived, entered := 0 } ∧ caller = new) := by
  have hlt : ∀ {c : Nat} {call : Call}, s.contacts.calls[c]? = some call →
      c < s.contacts.calls.length := fun hc => (List.getElem?_eq_some_iff.mp hc).1
  have hlt' : s.callers[c]? = some caller → c < s.contacts.calls.length := by
    intro hc
    rw [← h.length_eq]
    exact (List.getElem?_eq_some_iff.mp hc).1
  rcases getElem?_concat_slot hcall with hold | ⟨rfl, rfl⟩
  · rcases getElem?_concat_slot hcaller with hold' | ⟨rfl, -⟩
    · exact .inl ⟨hold, hold'⟩
    · have := hlt hold
      rw [h.length_eq] at this
      exact absurd this (Nat.lt_irrefl _)
  · rcases getElem?_concat_slot hcaller with hold' | ⟨-, rfl⟩
    · exact absurd (hlt' hold') (Nat.lt_irrefl _)
    · exact .inr ⟨rfl, rfl⟩

theorem Sound.begin {s : State} (h : Sound s) {new : Caller} (hnew : ∀ n, new ≠ .handled n)
    (node : Node) : Sound (s.begin new node) := by
  refine ⟨h.contacts.step (.call node), ?_, fun c call n hcall hcaller => ?_⟩
  · show (s.callers ++ [new]).length = (s.contacts.calls ++ [_]).length
    rw [List.length_append, List.length_append, h.length_eq]
    rfl
  rcases begin_cases h hcall hcaller with ⟨hold, hold'⟩ | ⟨-, heq⟩
  · exact h.handled c call n hold hold'
  · exact absurd heq.symm (hnew n)

theorem Exact.begin {s : State} (h : Exact s) (hs : Sound s) {new : Caller} (hnew : new.Exact 0)
    (node : Node) : Exact (s.begin new node) := by
  refine ⟨?_, fun c call caller hcall hcaller => ?_⟩
  · exact (RecordContact.exact_step_iff hs.contacts h.reports (.call node)).mpr trivial
  rcases begin_cases hs hcall hcaller with ⟨hold, hold'⟩ | ⟨rfl, rfl⟩
  · exact h.callers c call caller hold hold'
  · exact hnew

theorem sound_start (nodeId : NodeId) (k : Nat) : Sound (start nodeId k) :=
  ⟨RecordContact.sound_start nodeId k, rfl, fun _ _ _ hcall => nomatch hcall⟩

theorem exact_start (nodeId : NodeId) (k : Nat) : Exact (start nodeId k) :=
  ⟨RecordContact.exact_start nodeId k, fun _ _ _ hcall => nomatch hcall⟩

theorem Sound.step {s : State} (h : Sound s) (e : Event) : Sound (step s e) := by
  cases e with
  | request sender =>
    have hnew : ∀ n, Caller.handling ≠ .handled n := by
      intro n heq
      cases heq
    exact h.begin hnew sender
  | call node =>
    have hnew : ∀ n, Caller.other ≠ .handled n := by
      intro n heq
      cases heq
    exact h.begin hnew node
  | step c st => exact h.step_call c st
  | handled c result => exact h.handled_step c result
  | recordSuccess env id ms => exact ⟨h.contacts.operate _, h.length_eq, h.handled⟩
  | recordFailure env id => exact ⟨h.contacts.operate _, h.length_eq, h.handled⟩

theorem exact_step_iff {s : State} (hs : Sound s) (h : Exact s) (e : Event) :
    Exact (step s e) ↔ Replicates s e := by
  cases e with
  | request sender =>
    have hnew : Caller.handling.Exact 0 := trivial
    exact iff_of_true (h.begin hs hnew sender) trivial
  | call node =>
    have hnew : Caller.other.Exact 0 := rfl
    exact iff_of_true (h.begin hs hnew node) trivial
  | step c st => exact exact_step_call_iff hs h c st
  | handled c result => exact exact_handled_iff h c result
  | recordSuccess env id ms =>
    exact iff_of_true ⟨h.reports.operate hs.contacts rfl, h.callers⟩ trivial
  | recordFailure env id =>
    exact iff_of_true ⟨h.reports.operate hs.contacts rfl, h.callers⟩ trivial

/-- New contacts are reported and replicated to exactly once in every state of a run if and
only if all steps of the run meet `Replicates`. -/
theorem exactly_once_throughout_iff (nodeId : NodeId) (k : Nat) (events : List Event) :
    Throughout step Exact (start nodeId k) events ↔
      Meets step Replicates (start nodeId k) events :=
  throughout_iff_meets (fun _ e hs => Sound.step hs e) (fun _ e hs h => exact_step_iff hs h e)
    (sound_start nodeId k) (exact_start nodeId k)

def report (call : Call) : Option Bool :=
  match call.phase with
  | .finished (.ok result) => some result
  | _ => none

def Caller.replications : Caller → Nat
  | .handled replications => replications
  | _ => 0

/-- Three requests meet in a bucket of one.  The check of the third call fails first, and
its removal promotes the sender of the second one. -/
def promotionEvents : List Event :=
  [.request (Node.ofByte 0x80), .step 0 (.contact (.at 0)), .handled 0 (.ok ()),
    .request (Node.ofByte 0xC0), .step 1 (.contact (.at 0)),
    .request (Node.ofByte 0xA0), .step 2 (.contact (.at 0)),
    .step 2 (.timeout (.at 5)), .step 2 (.evict (.at 5)), .step 2 (.retry (.at 5)),
    .step 1 (.answer (.at 5) 20), .step 1 (.seen (.at 5)),
    .handled 1 (.ok ()), .handled 2 (.ok ())]

/-- All requests are handled, the promoted sender is a contact, and the one call for it
reported `false`, so that nothing was replicated to it. -/
theorem promoted_sender_unreported :
    (run step (start (NodeId.fromBytes []) 1) promotionEvents).contacts.table.contains
        (Node.ofByte 0xC0).id = true ∧
      (run step (start (NodeId.fromBytes []) 1) promotionEvents).contacts.calls.map
        (fun call => (call.node.id, report call)) =
        [((Node.ofByte 0x80).id, some true), ((Node.ofByte 0xC0).id, some false),
          ((Node.ofByte 0xA0).id, some false)] ∧
      (run step (start (NodeId.fromBytes []) 1) promotionEvents).callers.map
        Caller.replications = [1, 0, 0] ∧
      ¬ ∀ (nodeId : NodeId) (k : Nat) (events : List Event),
        Exact (run step (start nodeId k) events) := by
  refine ⟨by decide +kernel, by decide +kernel, by decide +kernel, fun h => ?_⟩
  have hforeign : (run step (start (NodeId.fromBytes []) 1) promotionEvents).contacts.foreign =
      true := by decide +kernel
  have hown := (h (NodeId.fromBytes []) 1 promotionEvents).reports.own
  rw [hforeign] at hown
  cases hown

end Replication

end Kademlia
