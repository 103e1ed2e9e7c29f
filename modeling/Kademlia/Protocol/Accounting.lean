import Kademlia.Protocol.Rpc

/-!
# The bookkeeping of calls

A call records a success when it has a response and a failure after the timeout around
its wait.  The other ends leave no trace in the table, and `find_value_rpc` records
nothing at all.  `accountedOnce_iff` says for which calls exactly one record is made.

The success is recorded for the contact the call is addressed to, whoever sent the
response and whatever it says.  `creditsAnswered_throughout_iff` says in which runs every
credit is for an answer of that contact.
-/

namespace Kademlia

open Lib

namespace Rpc

/-- All requests but `find_value_rpc` keep books. -/
def records : Rpc → Bool
  | findValue _ => false
  | _ => true

/-- The operations of a call in each phase. -/
def Booked (call : Call) : Prop :=
  match call.phase with
  | .recorded =>
    ∃ env responseTimeMs, call.ops = call.rpc.recordSuccess env call.node responseTimeMs
  | .finished .response => ∃ env responseTimeMs env',
      call.ops =
        call.rpc.recordSuccess env call.node responseTimeMs ++ call.rpc.nodeSeen env' call.node
  | .finished .timedOut => ∃ env, call.ops = call.rpc.recordFailure env call.node
  | .dropped => True
  | _ => call.ops = []

/-- A call has its response from the time it is answered on. -/
def Responded (call : Call) : Prop :=
  match call.phase with
  | .answered | .cleared | .recorded => ∃ response, call.response = some response
  | _ => True

theorem booked_fresh {call : Call} (h : call.Fresh) : Booked call := by
  unfold Booked
  rw [h.phase]
  exact h.ops

theorem Booked.step {call call' : Call} {st : Step} (hmoved : CallStep call st call')
    (h : Booked call) : Booked call' := by
  cases hmoved with
  | stay => exact h
  | record env responseTimeMs hphase =>
    have hops : call.ops = [] := by simpa only [Booked, hphase] using h
    exact ⟨env, responseTimeMs, by rw [hops, List.nil_append]⟩
  | fail env _ hphase =>
    have hops : call.ops = [] := by simpa only [Booked, hphase] using h
    exact ⟨env, by rw [hops, List.nil_append]⟩
  | finish env hphase =>
    have hops : ∃ env responseTimeMs, call.ops =
        call.rpc.recordSuccess env call.node responseTimeMs := by
      simpa only [Booked, hphase] using h
    obtain ⟨env', responseTimeMs, hops⟩ := hops
    exact ⟨env', responseTimeMs, env, by rw [hops]⟩
  | drop hopen => trivial
  | insert hphase => simpa only [Booked, hphase] using h
  | fault _ hphase => simpa only [Booked, hphase] using h
  | time _ _ hphase => simpa only [Booked, hphase] using h
  | sendError _ hphase => simpa only [Booked, hphase] using h
  | send _ hphase => simpa only [Booked, hphase] using h
  | answer _ _ hphase => simpa only [Booked, hphase] using h
  | waitError _ _ hphase => simpa only [Booked, hphase] using h
  | lapse hphase => simpa only [Booked, hphase] using h
  | clear hphase => simpa only [Booked, hphase] using h
  | clearLapsed hphase => simpa only [Booked, hphase] using h

theorem responded_fresh {call : Call} (h : call.Fresh) : Responded call := by
  unfold Responded
  rw [h.phase]
  trivial

theorem Responded.step {call call' : Call} {st : Step} (hmoved : CallStep call st call')
    (h : Responded call) : Responded call' := by
  cases hmoved with
  | stay => exact h
  | answer _ message hphase => exact ⟨message, rfl⟩
  | clear hphase => simpa only [Responded, hphase] using h
  | record _ _ hphase => simpa only [Responded, hphase] using h
  | _ => trivial

/-! ## One record for each call -/

/-- A record of a success or a failure for the contact. -/
def accountsFor (nodeId : NodeId) : TableOp → Bool
  | .recordSuccess _ id _ | .recordFailure _ id => decide (id = nodeId)
  | _ => false

/-- The records that a call has made for the contact it is addressed to. -/
def Call.accounts (call : Call) : List TableOp := call.ops.filter (accountsFor call.node.id)

/-- The call has made one record, of a success when it has a response and of a failure
otherwise. -/
def AccountedOnce (call : Call) (exit : Exit) : Prop :=
  match exit with
  | .response =>
    ∃ env responseTimeMs, call.accounts = [.recordSuccess env call.node.id responseTimeMs]
  | _ => ∃ env, call.accounts = [.recordFailure env call.node.id]

theorem filter_recordSuccess (rpc : Rpc) (env : Env) (node : Node) (responseTimeMs : UInt64) :
    (rpc.recordSuccess env node responseTimeMs).filter (accountsFor node.id) =
      if rpc.records then [.recordSuccess env node.id responseTimeMs] else [] := by
  cases rpc <;> simp [recordSuccess, records, accountsFor]

theorem filter_recordFailure (rpc : Rpc) (env : Env) (node : Node) :
    (rpc.recordFailure env node).filter (accountsFor node.id) =
      if rpc.records then [.recordFailure env node.id] else [] := by
  cases rpc <;> simp [recordFailure, records, accountsFor]

theorem filter_nodeSeen (rpc : Rpc) (env : Env) (node : Node) :
    (rpc.nodeSeen env node).filter (accountsFor node.id) = [] := by
  cases rpc <;> simp [nodeSeen, accountsFor]

theorem Booked.once_iff {call : Call} (h : Booked call) {exit : Exit}
    (hphase : call.phase = .finished exit) :
    AccountedOnce call exit ↔ call.rpc.records = true ∧ (exit = .response ∨ exit = .timedOut) := by
  have hnone : call.ops = [] → (∀ env, call.accounts ≠ [.recordFailure env call.node.id]) := by
    intro hops env
    rw [Call.accounts, hops]
    exact fun h => nomatch h
  cases exit with
  | response =>
    have hops : ∃ env responseTimeMs env', call.ops =
        call.rpc.recordSuccess env call.node responseTimeMs ++ call.rpc.nodeSeen env' call.node := by
      simpa only [Booked, hphase] using h
    obtain ⟨env, responseTimeMs, env', hops⟩ := hops
    have haccounts : call.accounts = if call.rpc.records then
        [.recordSuccess env call.node.id responseTimeMs] else [] := by
      rw [Call.accounts, hops, List.filter_append, filter_recordSuccess, filter_nodeSeen,
        List.append_nil]
    unfold AccountedOnce
    rw [haccounts]
    by_cases hrecords : call.rpc.records = true
    · simp [hrecords]
    · simp [hrecords]
  | timedOut =>
    have hops : ∃ env, call.ops = call.rpc.recordFailure env call.node := by
      simpa only [Booked, hphase] using h
    obtain ⟨env, hops⟩ := hops
    have haccounts : call.accounts = if call.rpc.records then
        [.recordFailure env call.node.id] else [] := by
      rw [Call.accounts, hops, filter_recordFailure]
    unfold AccountedOnce
    rw [haccounts]
    by_cases hrecords : call.rpc.records = true
    · simp [hrecords]
    · simp [hrecords]
  | fault fault =>
    have hops : call.ops = [] := by simpa only [Booked, hphase] using h
    simp [AccountedOnce, hnone hops]
  | sendError error =>
    have hops : call.ops = [] := by simpa only [Booked, hphase] using h
    simp [AccountedOnce, hnone hops]
  | waitError error =>
    have hops : call.ops = [] := by simpa only [Booked, hphase] using h
    simp [AccountedOnce, hnone hops]

/-- In every run, a call that has returned has made exactly one record for its contact, and
the right one, if and only if it is not a `find_value_rpc` and ended with a response or
with the timeout around its wait. -/
theorem accountedOnce_iff (kind : Transport.Kind) (localNode : Node) (table : RoutingTable)
    (events : List Event) {c : Nat} {call : Call} {exit : Exit}
    (hcall : (run (step kind) (start localNode table) events).calls[c]? = some call)
    (hphase : call.phase = .finished exit) :
    AccountedOnce call exit ↔ call.rpc.records = true ∧ (exit = .response ∨ exit = .timedOut) :=
  (forall_calls_run (fun _ => booked_fresh) (fun _ _ _ => Booked.step) kind localNode table events c
    call hcall).once_iff hphase

/-- A ping whose request is sent and whose wait is registered. -/
def sentPing (node : Node) (id : MessageId) : List Event :=
  [.call .ping node id, .step 0 .insert, .step 0 (.time (Env.at 0)), .step 0 (.send (.ok ())),
    .step 0 (.wait .register)]

/-- A ping that times out around its wait records one failure. -/
theorem accountedOnce_after_timeout :
    ∃ call, (run (step .udp) (start (Node.ofByte 0) (.new (NodeId.fromBytes [0])))
        (sentPing (Node.ofByte 0x80) 1 ++
          [.step 0 .lapse, .step 0 .clear, .step 0 (.record (Env.at 5) 0)])).calls[0]? = some call ∧
      AccountedOnce call .timedOut := by
  have hcall : (run (step .udp) (start (Node.ofByte 0) (.new (NodeId.fromBytes [0])))
      (sentPing (Node.ofByte 0x80) 1 ++
        [.step 0 .lapse, .step 0 .clear, .step 0 (.record (Env.at 5) 0)])).calls[0]? =
      some { rpc := .ping, node := Node.ofByte 0x80, id := 1, phase := .finished .timedOut,
             response := none, ops := [.recordFailure (Env.at 5) (Node.ofByte 0x80).id] } := by
    decide +kernel
  exact ⟨_, hcall, (accountedOnce_iff _ _ _ _ hcall rfl).mpr ⟨rfl, .inr rfl⟩⟩

/-- A ping whose `send` fails returns and has recorded nothing. -/
theorem unaccounted_after_send_error :
    ¬ ∀ (kind : Transport.Kind) (localNode : Node) (table : RoutingTable) (events : List Event)
      (c : Nat) (call : Call) (exit : Exit),
      (run (step kind) (start localNode table) events).calls[c]? = some call →
      call.phase = .finished exit → AccountedOnce call exit := by
  intro h
  have hcall : (run (step .udp) (start (Node.ofByte 0) (.new (NodeId.fromBytes [0])))
      [.call .ping (Node.ofByte 0x80) 1, .step 0 .insert, .step 0 (.time (Env.at 0)),
        .step 0 (.send (.error (.network "Failed to send message")))]).calls[0]? =
      some { rpc := .ping, node := Node.ofByte 0x80, id := 1,
             phase := .finished (.sendError (.network "Failed to send message")),
             response := none, ops := [] } := by
    decide +kernel
  obtain ⟨env, haccounts⟩ := h _ _ _ _ _ _ _ hcall rfl
  cases haccounts

/-! ## Credit for answers -/

/-- The constructor that answers a request. -/
def answeredBy : Rpc → ResponseMessage → Bool
  | ping, .pong _ _ | healthCheckPing, .pong _ _ => true
  | store _ _, .storeResult _ _ _ => true
  | findNode _, .nodesFound _ _ _ => true
  | findValue _, .valueFound _ _ _ _ => true
  | _, _ => false

/-- The response comes from the contact the call is addressed to and answers its request. -/
def Answers (call : Call) (response : ResponseMessage) : Prop :=
  response.sender.id = call.node.id ∧ call.rpc.answeredBy response = true

/-- A record of a success or a sighting for the contact. -/
def creditsFor (nodeId : NodeId) : TableOp → Bool
  | .recordSuccess _ id _ | .nodeSeen _ id => decide (id = nodeId)
  | _ => false

def Credited (call : Call) : Prop := ∃ op ∈ call.ops, creditsFor call.node.id op = true

/-- Contacts are credited for their answers only. -/
def CreditsAnswered (s : State) : Prop :=
  ∀ (c : Nat) (call : Call), s.calls[c]? = some call → Credited call →
    ∃ response, call.response = some response ∧ Answers call response

/-- A response that a call is about to record answers it. -/
def RecordsAnswer (s : State) : Event → Prop
  | .step c (.record _ _) => ∀ call response, s.calls[c]? = some call → call.phase = .cleared →
      call.rpc.records = true → call.response = some response → Answers call response
  | _ => True

theorem creditsFor_recordSuccess {rpc : Rpc} {env : Env} {node : Node} {responseTimeMs : UInt64} :
    (∃ op ∈ rpc.recordSuccess env node responseTimeMs, creditsFor node.id op = true) ↔
      rpc.records = true := by
  cases rpc <;> simp [recordSuccess, records, creditsFor]

theorem not_creditsFor_recordFailure {rpc : Rpc} {env : Env} {node : Node} :
    ¬ ∃ op ∈ rpc.recordFailure env node, creditsFor node.id op = true := by
  cases rpc <;> simp [recordFailure, creditsFor]

theorem credited_append {call : Call} {ops : List TableOp} {phase : Phase} :
    Credited { call with phase := phase, ops := call.ops ++ ops } ↔
      Credited call ∨ ∃ op ∈ ops, creditsFor call.node.id op = true := by
  unfold Credited
  simp only [List.mem_append, or_and_right, exists_or]

/-- A recorded call of one of the four requests is credited. -/
theorem Booked.credited {call : Call} (h : Booked call) (hphase : call.phase = .recorded)
    (hrecords : call.rpc.records = true) : Credited call := by
  have hops : ∃ env responseTimeMs, call.ops =
      call.rpc.recordSuccess env call.node responseTimeMs := by
    simpa only [Booked, hphase] using h
  obtain ⟨env, responseTimeMs, hops⟩ := hops
  unfold Credited
  rw [hops]
  exact creditsFor_recordSuccess.mpr hrecords

theorem CallStep.answers_iff {call call' : Call} {st : Step} (hmoved : CallStep call st call')
    (response : ResponseMessage) : Answers call' response ↔ Answers call response := by
  cases hmoved <;> exact Iff.rfl

/-- A step keeps the credit that a call has, with its response, or it is the record of a
success.  A sighting comes after the record. -/
theorem CallStep.credited {call call' : Call} {st : Step} (hmoved : CallStep call st call')
    (hbooked : Booked call) (h : Credited call') :
    call'.response = call.response ∧ (Credited call ∨
      ∃ env responseTimeMs, st = .record env responseTimeMs ∧ call.phase = .cleared ∧
        call.rpc.records = true) := by
  cases hmoved with
  | record env responseTimeMs hphase =>
    refine ⟨rfl, ?_⟩
    rcases credited_append.mp h with hold | hnew
    · exact .inl hold
    · exact .inr ⟨env, responseTimeMs, rfl, hphase, creditsFor_recordSuccess.mp hnew⟩
  | fail env _ hphase =>
    refine ⟨rfl, .inl ?_⟩
    rcases credited_append.mp h with hold | hnew
    · exact hold
    · exact absurd hnew not_creditsFor_recordFailure
  | finish env hphase =>
    refine ⟨rfl, .inl ?_⟩
    rcases credited_append.mp h with hold | ⟨op, hop, -⟩
    · exact hold
    · apply hbooked.credited hphase
      cases hrpc : call.rpc with
      | findValue key =>
        rw [hrpc] at hop
        cases hop
      | _ => rfl
  | answer _ message hphase =>
    have hops : call.ops = [] := by simpa only [Booked, hphase] using hbooked
    obtain ⟨op, hop, -⟩ := h
    rw [hops] at hop
    cases hop
  | _ => exact ⟨rfl, .inl h⟩

theorem creditsAnswered_step_iff {kind : Transport.Kind} {s : State} {event : Event}
    (hbooked : ∀ (c : Nat) (call : Call), s.calls[c]? = some call → Booked call ∧ Responded call)
    (h : CreditsAnswered s) : CreditsAnswered (step kind s event) ↔ RecordsAnswer s event := by
  constructor
  · intro hafter
    unfold RecordsAnswer
    split
    · rename_i c env responseTimeMs
      intro call response hcall hphase hrecords hresponse
      have hstep : (step kind s (.step c (.record env responseTimeMs))).calls[c]? =
          some { call with
            phase := .recorded
            ops := call.ops ++ call.rpc.recordSuccess env call.node responseTimeMs } := by
        simp only [step, hcall, State.advance, hphase, State.operate, State.put]
        rw [getElem?_set_slot hcall, if_pos rfl]
      have hnew : ∃ op ∈ call.rpc.recordSuccess env call.node responseTimeMs,
          creditsFor call.node.id op = true := creditsFor_recordSuccess.mpr hrecords
      have hcredited : Credited { call with
          phase := .recorded
          ops := call.ops ++ call.rpc.recordSuccess env call.node responseTimeMs } :=
        credited_append.mpr (.inr hnew)
      obtain ⟨response', hresponse', hanswers⟩ := hafter c _ hstep hcredited
      obtain rfl : response = response' := Option.some.inj (hresponse.symm.trans hresponse')
      exact hanswers
    · trivial
  · intro hrecords c call' hcall' hcredited
    rcases step_call hcall' with hfresh | hold | ⟨call, st, rfl, hcall, hmoved⟩
    · obtain ⟨op, hop, -⟩ := hcredited
      rw [hfresh.ops] at hop
      cases hop
    · exact h c call' hold hcredited
    · obtain ⟨hbooked, hresponded⟩ := hbooked c call hcall
      obtain ⟨hresponse, hold | ⟨env, responseTimeMs, rfl, hphase, hrpc⟩⟩ :=
        hmoved.credited hbooked hcredited
      · obtain ⟨response, hresponse', hanswers⟩ := h c call hcall hold
        exact ⟨response, hresponse.trans hresponse', (hmoved.answers_iff response).mpr hanswers⟩
      · have hsome : ∃ response, call.response = some response := by
          simpa only [Responded, hphase] using hresponded
        obtain ⟨response, hsome⟩ := hsome
        refine ⟨response, hresponse.trans hsome, (hmoved.answers_iff response).mpr ?_⟩
        exact hrecords call response hcall hphase hrpc hsome

/-- Contacts are credited for their own answers throughout a run exactly when every response
that a call records was sent by the contact it is addressed to and answers its request. -/
theorem creditsAnswered_throughout_iff (kind : Transport.Kind) (localNode : Node)
    (table : RoutingTable) (events : List Event) :
    Throughout (step kind) CreditsAnswered (start localNode table) events ↔
      Meets (step kind) RecordsAnswer (start localNode table) events := by
  apply throughout_iff_meets (I := fun s : State => ∀ (c : Nat) (call : Call),
    s.calls[c]? = some call → Booked call ∧ Responded call)
  · intro s event h
    apply forall_calls_step _ _ h
    · intro call hfresh
      exact ⟨booked_fresh hfresh, responded_fresh hfresh⟩
    · intro call st call' hmoved hcall
      exact ⟨hcall.1.step hmoved, hcall.2.step hmoved⟩
  · intro s event hbooked h
    exact creditsAnswered_step_iff hbooked h
  · intro c call hcall
    cases hcall
  · intro c call hcall
    cases hcall

/-- The address of a contact is now used by another node, which answers the ping. -/
theorem silent_contact_credited :
    ¬ ∀ (kind : Transport.Kind) (localNode : Node) (table : RoutingTable) (events : List Event),
      Throughout (step kind) CreditsAnswered (start localNode table) events := by
  intro h
  have hcall : (run (step .udp) (start (Node.ofByte 0) (.new (NodeId.fromBytes [0])))
      (sentPing (Node.ofByte 0x80) 1 ++
        [.incoming (.pong 1 (Node.ofByte 0x40)), .step 0 (.wait .wake), .step 0 .clear,
          .step 0 (.record (Env.at 0) 3)])).calls[0]? =
      some { rpc := .ping, node := Node.ofByte 0x80, id := 1, phase := .recorded,
             response := some (.pong 1 (Node.ofByte 0x40)),
             ops := [.recordSuccess (Env.at 0) (Node.ofByte 0x80).id 3] } := by
    decide +kernel
  obtain ⟨response, hresponse, hsender, -⟩ := (h _ _ _ _).last 0 _ hcall
    ⟨_, List.mem_singleton_self _, by decide +kernel⟩
  obtain rfl := Option.some.inj hresponse
  revert hsender
  decide +kernel

end Rpc

end Kademlia
