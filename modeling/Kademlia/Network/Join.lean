import Kademlia.Protocol.FindNode
import Kademlia.Protocol.Provenance

/-!
# Joining the network

A node joins by way of a bootstrap node.  It records the bootstrap node as a contact, pings
it, and looks up its own identifier.  The contact is recorded before it has answered, and
nothing takes it out when the ping fails.  A join that fails leaves the table as it was only
if recording the contact brought nobody in.
-/

namespace Kademlia

open Lib

namespace NodeId

/-- `digest` gives the SHA-256 digest of the text of an address. -/
def fromSocketAddr (digest : SocketAddr → List UInt8) (addr : SocketAddr) : NodeId :=
  fromBytes ((digest addr).take keyLengthBytes)

end NodeId

def Node.withAddr (digest : SocketAddr → List UInt8) (addr : SocketAddr) : Node :=
  Node.new (NodeId.fromSocketAddr digest addr) addr

namespace Join

open RecordContact (recordContact NoOverflow Returned Quiet KeepsOut From from_step_of_none Sane
  sane_recordContact timeouts_ne_err)

/-- How a ping ends: with an error of `send` or of `wait_response`, with the timeout around
the wait, or with a response, whose sender is recorded. -/
inductive PingEnd where
  | sendError (error : Error)
  | waitError (error : Error)
  | timedOut (env : Env)
  | answered (env : Env) (responseTimeMs : UInt64) (response : ResponseMessage)
      (contact : RecordContact.Input)

/-- What a ping reads from its surroundings.  `timeout` are those in which it chooses its
timeout. -/
structure PingInput where
  timeout : Env
  ending : PingEnd

def PingEnd.isAnswered : PingEnd → Bool
  | answered _ _ _ _ => true
  | _ => false

/-- The result of a call of `record_contact`, whose steps bring it to its end. -/
def outcome : RecordContact.Phase → Outcome Bool
  | .finished result => result
  | _ => .error .outOfFuel

def ping (nodeId : NodeId) (t : RoutingTable) (node : Node) (input : PingInput) :
    Outcome ResponseMessage × RoutingTable :=
  match Rpc.ping.timeouts t input.timeout node with
  | .error fault => (.error fault, t)
  | .ok _ =>
    match input.ending with
    | .sendError error => (.error (.err error), t)
    | .waitError error => (.error (.err error), t)
    | .timedOut env =>
      match t.recordFailure env node.id with
      | (.error (.panic message), t) => (.error (.panic message), t)
      | (_, t) => (.error (.err .timeout), t)
    | .answered env responseTimeMs response contact =>
      match t.recordSuccess env node.id responseTimeMs with
      | (.error (.panic message), t) => (.error (.panic message), t)
      | (_, t) =>
        let (t, phase) := recordContact nodeId t response.sender contact
        match outcome phase with
        | .error fault => (.error fault, t)
        | .ok _ => (.ok response, t)

/-- What a lookup reads from its surroundings: the replies in each round, and the operations
on the table that its requests make. -/
structure Lookup where
  rounds : List (Nat → FindNode.Reply)
  bookkeeping : List TableOp

/-- `find_node` returns an error in no case. -/
def findNode (nodeId : NodeId) (t : RoutingTable) (target : NodeId) (lookup : Lookup) :
    Outcome (List Node) × RoutingTable :=
  let s := run (FindNode.step target) (FindNode.start nodeId (t.getClosest target K)) lookup.rounds
  (if s.Searching then .error .outOfFuel else .ok s.closestNodes,
    run RoutingTable.step t lookup.bookkeeping)

structure Input where
  contact : RecordContact.Input
  ping : PingInput
  sender : RecordContact.Input
  lookup : Lookup

/-- `Node::join` with the bootstrap node at hand. -/
def joinNode (nodeId : NodeId) (t : RoutingTable) (bootstrapNode : Node) (input : Input) :
    Outcome Unit × RoutingTable :=
  let (t, phase) := recordContact nodeId t bootstrapNode input.contact
  match outcome phase with
  | .error fault => (.error fault, t)
  | .ok _ =>
    match ping nodeId t bootstrapNode input.ping with
    | (.error fault, t) => (.error fault, t)
    | (.ok response, t) =>
      let (t, phase) := recordContact nodeId t response.sender input.sender
      match outcome phase with
      | .error fault => (.error fault, t)
      | .ok _ =>
        match findNode nodeId t nodeId input.lookup with
        | (.error fault, t) => (.error fault, t)
        | (.ok _, t) => (.ok (), t)

def join (digest : SocketAddr → List UInt8) (nodeId : NodeId) (t : RoutingTable)
    (bootstrapAddr : SocketAddr) (input : Input) : Outcome Unit × RoutingTable :=
  joinNode nodeId t (Node.withAddr digest bootstrapAddr) input

/-- The join returns an error. -/
def Fails (result : Outcome Unit × RoutingTable) : Prop := ∃ error, result.1 = .error (.err error)

/-! ## Pings -/

section Pings

variable {nodeId : NodeId} {t : RoutingTable} {node : Node}

theorem outcome_ne_err {phase : RecordContact.Phase} (h : Sane phase) (error : Error) :
    outcome phase ≠ .error (.err error) := by
  intro herror
  unfold outcome at herror
  split at herror
  · exact h error (congrArg _ herror)
  · cases herror

/-- Bookkeeping for a contact takes nobody out. -/
theorem contains_recordFailure (ht : t.Placed) (env : Env) (id : NodeId) {id' : NodeId}
    (h : t.contains id' = true) : (t.step (.recordFailure env id)).contains id' = true := by
  rw [(ht.step (.recordFailure env id)).contains_iff_mem]
  obtain ⟨n, hn, rfl⟩ := (ht.contains_iff_mem id').mp h
  rcases ht.withContact_cases env id (fun node =>
      { node with responseStats := node.responseStats.recordFailure }) (fun _ => rfl) with
    ⟨hsame, -⟩ | ⟨index, b, l, existing, r, -, hlookup, hsplit, hmoved⟩
  · refine ⟨n, ?_, rfl⟩
    show n ∈ (t.withContact env id _).2.getAllNodes
    rw [hsame]
    exact hn
  · show ∃ m ∈ (t.withContact env id _).2.getAllNodes, m.id = n.id
    rw [hmoved]
    simp only [RoutingTable.mem_getAllNodes_setBucket]
    rw [RoutingTable.mem_getAllNodes_iff t index,
      RoutingTable.getOrCreateBucket_of_lookup hlookup, hsplit.eq] at hn
    rcases hn with hn | hn
    · rcases List.mem_append.mp hn with hn | hn
      · exact ⟨n, .inl (by simp [hn]), rfl⟩
      · rcases List.mem_cons.mp hn with rfl | hn
        · exact ⟨n.updateLastSeen env, .inl (by simp), rfl⟩
        · exact ⟨n, .inl (by simp [hn]), rfl⟩
    · exact ⟨n, .inr hn, rfl⟩

/-- A ping that is not answered returns an error and leaves the contacts. -/
theorem ping_of_not_answered (ht : t.Placed) {input : PingInput}
    (htimeouts : ∃ timeouts, Rpc.ping.timeouts t input.timeout node = .ok timeouts)
    (hending : input.ending.isAnswered = false) :
    (∃ error, (ping nodeId t node input).1 = .error (.err error)) ∧
      ∀ id, (ping nodeId t node input).2.contains id = t.contains id := by
  obtain ⟨timeouts, htimeouts⟩ := htimeouts
  unfold ping
  simp only [htimeouts]
  cases hend : input.ending with
  | sendError error => exact ⟨⟨error, rfl⟩, fun _ => rfl⟩
  | waitError error => exact ⟨⟨error, rfl⟩, fun _ => rfl⟩
  | answered env responseTimeMs response contact =>
    rw [hend] at hending
    cases hending
  | timedOut env =>
    have hcontains : ∀ id, (t.recordFailure env node.id).2.contains id = t.contains id := by
      intro id
      have hfrom : From t [] (t.step (.recordFailure env node.id)) := from_step_of_none ht rfl
      have hquiet := hfrom.quiet ht (ht.step (.recordFailure env node.id))
      rw [Bool.eq_iff_iff]
      exact ⟨RecordContact.quiet_iff.mp hquiet id, contains_recordFailure ht env node.id⟩
    have hok := RecordContact.recordFailure_eq_ok ht env node.id
    rcases hresult : t.recordFailure env node.id with ⟨result, t'⟩
    rw [hresult] at hok hcontains
    obtain rfl : result = .ok () := hok
    simp only [hresult]
    exact ⟨⟨.timeout, rfl⟩, hcontains⟩

/-- A ping that is answered, or whose timeout overflows, returns no error. -/
theorem ping_ne_err (ht : t.Placed) {input : PingInput}
    (h : input.ending.isAnswered = true ∨
      ¬ ∃ timeouts, Rpc.ping.timeouts t input.timeout node = .ok timeouts) (error : Error) :
    (ping nodeId t node input).1 ≠ .error (.err error) := by
  intro herror
  unfold ping at herror
  split at herror
  · rename_i hfault
    rw [Except.error.inj herror] at hfault
    exact timeouts_ne_err _ _ error hfault
  · rename_i timeouts htimeouts
    have hending := h.resolve_right (fun hnone => hnone ⟨timeouts, htimeouts⟩)
    cases hend : input.ending with
    | answered env responseTimeMs response contact =>
      have hok := RecordContact.recordSuccess_eq_ok ht env node.id responseTimeMs
      have hplaced : (t.recordSuccess env node.id responseTimeMs).2.Placed :=
        ht.step (.recordSuccess env node.id responseTimeMs)
      rcases hresult : t.recordSuccess env node.id responseTimeMs with ⟨result, t'⟩
      rw [hresult] at hok hplaced
      obtain rfl : result = .ok () := hok
      have hsane : Sane (recordContact nodeId t' response.sender contact).2 :=
        sane_recordContact hplaced contact
      simp only [hend, hresult] at herror
      split at herror
      · rename_i hfault
        rw [Except.error.inj herror] at hfault
        exact outcome_ne_err hsane error hfault
      · cases herror
    | _ =>
      rw [hend] at hending
      cases hending

theorem placed_ping (ht : t.Placed) (input : PingInput) : (ping nodeId t node input).2.Placed := by
  unfold ping
  split
  · exact ht
  · split
    · exact ht
    · exact ht
    · rename_i env _
      have hplaced : (t.recordFailure env node.id).2.Placed :=
        ht.step (.recordFailure env node.id)
      split
      · rename_i hresult
        rw [hresult] at hplaced
        exact hplaced
      · rename_i hresult
        rw [hresult] at hplaced
        exact hplaced
    · rename_i env responseTimeMs response contact _
      have hplaced : (t.recordSuccess env node.id responseTimeMs).2.Placed :=
        ht.step (.recordSuccess env node.id responseTimeMs)
      split
      · rename_i hresult
        rw [hresult] at hplaced
        exact hplaced
      · rename_i t' _ hresult
        rw [hresult] at hplaced
        have hrecorded := HandleRequest.placed_recordContact nodeId hplaced response.sender contact
        dsimp only
        split
        · exact hrecorded
        · exact hrecorded

end Pings

/-! ## Failed joins -/

section Fails

variable {nodeId : NodeId} {t : RoutingTable} {node : Node}

theorem findNode_ne_err (nodeId : NodeId) (t : RoutingTable) (target : NodeId) (lookup : Lookup)
    (error : Error) : (findNode nodeId t target lookup).1 ≠ .error (.err error) := by
  intro h
  unfold findNode at h
  dsimp only at h
  split_ifs at h
  · cases h

theorem returned_of_outcome {phase : RecordContact.Phase} {isNewContact : Bool}
    (h : outcome phase = .ok isNewContact) : Returned phase := by
  unfold outcome at h
  split at h
  · exact ⟨isNewContact, congrArg RecordContact.Phase.finished h⟩
  · cases h

/-- The join up to the end of a ping that is not answered. -/
theorem joinNode_of_not_answered (ht : t.Placed) {input : Input}
    (hreturned : Returned (recordContact nodeId t node input.contact).2)
    (htimeouts : ∃ timeouts, Rpc.ping.timeouts (recordContact nodeId t node input.contact).1
      input.ping.timeout node = .ok timeouts)
    (hending : input.ping.ending.isAnswered = false) :
    Fails (joinNode nodeId t node input) ∧
      (Quiet t (joinNode nodeId t node input).2 ↔
        Quiet t (recordContact nodeId t node input.contact).1) := by
  obtain ⟨isNewContact, hphase⟩ := hreturned
  have hplaced := HandleRequest.placed_recordContact nodeId ht node input.contact
  have hping : (∃ error, (ping nodeId _ node input.ping).1 = .error (.err error)) ∧ _ :=
    ping_of_not_answered hplaced htimeouts hending
  obtain ⟨⟨error, herror⟩, hcontains⟩ := hping
  have hjoin : joinNode nodeId t node input = (.error (.err error),
      (ping nodeId (recordContact nodeId t node input.contact).1 node input.ping).2) := by
    unfold joinNode
    rcases hrecord : recordContact nodeId t node input.contact with ⟨t', phase⟩
    rw [hrecord] at hphase herror
    obtain rfl : phase = .finished (.ok isNewContact) := hphase
    rcases hend : ping nodeId t' node input.ping with ⟨result, t''⟩
    rw [hend] at herror
    obtain rfl : result = .error (.err error) := herror
    simp only [outcome, hend]
  rw [hjoin]
  refine ⟨⟨error, rfl⟩, ?_⟩
  simp only [Quiet, hcontains]

/-- A join that panics while it records the bootstrap node or in its ping, or whose ping is
answered, returns no error. -/
theorem not_fails_joinNode (ht : t.Placed) {input : Input}
    (h : ¬ Returned (recordContact nodeId t node input.contact).2 ∨
      input.ping.ending.isAnswered = true ∨
      ¬ ∃ timeouts, Rpc.ping.timeouts (recordContact nodeId t node input.contact).1
        input.ping.timeout node = .ok timeouts) :
    ¬ Fails (joinNode nodeId t node input) := by
  rintro ⟨error, herror⟩
  have hplaced := HandleRequest.placed_recordContact nodeId ht node input.contact
  have hsane : Sane (recordContact nodeId t node input.contact).2 := sane_recordContact ht _
  unfold joinNode at herror
  generalize recordContact nodeId t node input.contact = recorded at h hplaced hsane herror
  obtain ⟨t', phase⟩ := recorded
  dsimp only at herror
  split at herror
  · rename_i hfault
    rw [Except.error.inj herror] at hfault
    exact outcome_ne_err hsane error hfault
  rename_i isNewContact hok
  have hping : (ping nodeId t' node input.ping).1 ≠ .error (.err error) :=
    ping_ne_err hplaced (h.resolve_left (fun hnot => hnot (returned_of_outcome hok))) error
  have hpinged : (ping nodeId t' node input.ping).2.Placed := placed_ping hplaced input.ping
  generalize ping nodeId t' node input.ping = pinged at hping hpinged herror
  obtain ⟨fault | response, t''⟩ := pinged
  · dsimp only at herror
    rw [Except.error.inj herror] at hping
    exact hping rfl
  have hsane' : Sane (recordContact nodeId t'' response.sender input.sender).2 :=
    sane_recordContact hpinged _
  dsimp only at herror
  split at herror
  · rename_i hfault
    rw [Except.error.inj herror] at hfault
    exact outcome_ne_err hsane' error hfault
  · split at herror
    · rename_i hfault
      rw [Except.error.inj herror] at hfault
      exact findNode_ne_err nodeId _ nodeId input.lookup error (congrArg Prod.fst hfault)
    · cases herror

/-- Recording the bootstrap node brings nobody in, or the join does not come to its error: its
ping is answered, or a sum of statistics overflows. -/
def Spared (nodeId : NodeId) (t : RoutingTable) (node : Node) (input : Input) : Prop :=
  input.ping.ending.isAnswered = true ∨ ¬ NoOverflow nodeId t node input.contact ∨
    KeepsOut nodeId t node input.contact

end Fails

/-- For every table reached by any operations: a join that fails leaves no new contact behind
exactly when its ping is answered, it panics, or recording the bootstrap node brings nobody
in. -/
theorem failed_join_leaves_none_iff (digest : SocketAddr → List UInt8) (nodeId : NodeId) (k : Nat)
    (ops : List TableOp) (bootstrapAddr : SocketAddr) (input : Input) :
    let t := run RoutingTable.step (.withK nodeId k) ops
    let result := join digest nodeId t bootstrapAddr input
    (Fails result → Quiet t result.2) ↔
      Spared nodeId t (Node.withAddr digest bootstrapAddr) input := by
  intro t result
  have ht : t.Placed := RoutingTable.placed_run (RoutingTable.placed_withK nodeId k) ops
  have hlocal : t.localNodeId = nodeId :=
    (RoutingTable.run_params (RoutingTable.placed_withK nodeId k) ops).1
  have hdistinct := RoutingTable.distinctCandidates_run nodeId k ops
  by_cases hearly : input.ping.ending.isAnswered = true ∨
      ¬ NoOverflow nodeId t (Node.withAddr digest bootstrapAddr) input.contact
  · refine iff_of_true ?_ (hearly.imp_right .inl)
    intro hfails
    refine absurd hfails (not_fails_joinNode ht ?_)
    rw [RecordContact.recordContact_returned_iff nodeId _ ht]
    exact hearly.symm.imp_right .inl
  obtain ⟨hending, hno⟩ := not_or.mp hearly
  rw [Bool.not_eq_true] at hending
  rw [not_not] at hno
  have hreturned := (RecordContact.recordContact_returned_iff nodeId _ ht _).mpr hno
  have hspared : Spared nodeId t (Node.withAddr digest bootstrapAddr) input ↔
      KeepsOut nodeId t (Node.withAddr digest bootstrapAddr) input.contact := by
    rw [Spared, hending]
    simp [hno]
  rw [hspared, ← RecordContact.recordContact_quiet_iff ht hlocal hdistinct hno]
  by_cases htimeouts : ∃ timeouts, Rpc.ping.timeouts
      (recordContact nodeId t (Node.withAddr digest bootstrapAddr) input.contact).1
      input.ping.timeout (Node.withAddr digest bootstrapAddr) = .ok timeouts
  · obtain ⟨hfails, hnone⟩ := joinNode_of_not_answered ht hreturned htimeouts hending
    rw [← hnone]
    exact ⟨fun h => h hfails, fun h _ => h⟩
  · refine iff_of_true ?_ ?_
    · intro hfails
      exact absurd hfails (not_fails_joinNode ht (.inr (.inr htimeouts)))
    · rw [RecordContact.recordContact_quiet_iff ht hlocal hdistinct hno]
      by_contra hout
      exact htimeouts (RecordContact.timeouts_of_entered ht hlocal hdistinct hno hout rfl _ _)

/-- The digest of `127.0.0.1:8000`, given for every address. -/
def localDigest (_ : SocketAddr) : List UInt8 :=
  [0x03, 0xf6, 0xd7, 0xba, 0x09, 0xb0, 0x53, 0x1a, 0x17, 0x80, 0x59, 0x65, 0x9f, 0x12, 0xe6, 0x5a,
    0xb6, 0xa7, 0x5a, 0xdd, 0xdf, 0x2f, 0x54, 0x8b, 0x1f, 0x37, 0x62, 0x4d, 0x55, 0xd9, 0x5f, 0xba]

/-- A join whose ping times out. -/
def unansweredInput : Input :=
  { contact := RecordContact.failedInput
    ping := { timeout := .at 0, ending := .timedOut (.at 5) }
    sender := RecordContact.failedInput
    lookup := { rounds := [], bookkeeping := [] } }

/-- A bootstrap node that does not answer is a contact of the empty table afterwards. -/
theorem silent_bootstrap_stays :
    ¬ ∀ (digest : SocketAddr → List UInt8) (nodeId : NodeId) (k : Nat) (ops : List TableOp)
      (bootstrapAddr : SocketAddr) (input : Input),
      let t := run RoutingTable.step (.withK nodeId k) ops
      let result := join digest nodeId t bootstrapAddr input
      Fails result → Quiet t result.2 := by
  intro h
  have hnone := h localDigest (NodeId.fromBytes []) K [] (.v4 0x7f000001#32 8000) unansweredInput
    ⟨.timeout, by decide +kernel⟩ (NodeId.fromSocketAddr localDigest (.v4 0x7f000001#32 8000))
    (by decide +kernel)
  revert hnone
  decide +kernel

end Join

end Kademlia
