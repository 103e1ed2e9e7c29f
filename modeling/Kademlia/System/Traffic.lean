import Mathlib.Data.List.Perm.Subperm
import Kademlia.System.Integrity

/-!
# What the operations of a node cost

An account charges the calls of some kinds.  Every process has a budget for the calls that it has
left to make, and what starts the process has paid for it.  A call that has got its response pays
for the process that records the sender.

In a fair account no step of a process costs more than it takes from a budget.  So what a node
has spent is never more than what clients and incoming requests have paid, whatever its processes
and the network do.
-/

namespace Kademlia

open Lib

namespace System

/-- What a call is charged, what it pays when it ends with a response, and what a process has
left to spend. -/
structure Account where
  charge : Rpc → Nat
  refund : Rpc → Nat
  budget : Process → Nat

namespace Account

variable (A : Account)

def worth (call : Rpc.Call) : Int :=
  A.charge call.rpc - if call.phase = .finished .response then A.refund call.rpc else 0

/-- What a node has spent on its calls and set aside for its processes. -/
def spent (p : Peer) : Int :=
  (p.rpc.calls.map A.worth).sum + (p.processes.map fun process => (A.budget process : Int)).sum

/-- The steps of a process cost what they take from its budget at most. -/
structure Fair : Prop where
  store : ∀ key value, A.charge (.store key value) = 0
  findNode : ∀ target, A.charge (.findNode target) = 0
  recorder : ∀ rpc node, rpc ≠ .healthCheckPing →
    A.budget (.recordContact node .arrived none) ≤ A.refund rpc
  recording : ∀ node phase phase' check,
    A.budget (.recordContact node phase' check) ≤ A.budget (.recordContact node phase check)
  checking : ∀ node phase c, A.budget (.recordContact node phase (some c)) +
    A.charge .healthCheckPing ≤ A.budget (.recordContact node phase none)
  handling : ∀ message fromAddr phase, A.budget (.handleRequest message fromAddr phase) = 0
  storing : ∀ direct key value phase, A.budget (.store direct key value phase) = 0
  republishing : ∀ items storing, A.budget (.republish items storing) = 0
  searching : ∀ target phase, A.budget (.findNode target phase) = 0
  adding : ∀ node record record', A.budget (.join node (.adding record)) =
    A.budget (.join node (.adding record'))
  pinging : ∀ node record c, A.budget (.join node (.pinging c)) + A.charge .ping ≤
    A.budget (.join node (.adding record))
  joining : ∀ node sender c record, A.budget (.join node (.recording record)) +
    A.budget (.recordContact sender .arrived none) ≤ A.budget (.join node (.pinging c))
  joined : ∀ node record search, A.budget (.join node (.searching search)) ≤
    A.budget (.join node (.recording record))
  left : ∀ node, A.budget (.join node .finished) = 0
  lookup : ∀ key s st queries queries',
    A.budget (.findValue key (FindValue.State.advance s st).phase queries') ≤
      A.budget (.findValue key s.phase queries)
  round : ∀ key s iteration closestNodes visited iteration' closestNodes' visited' tasks found
    queries queries', s.phase = .searching iteration closestNodes visited →
    (FindValue.State.advance s .query).phase =
      .querying iteration' closestNodes' visited' tasks found →
    A.budget (.findValue key (.querying iteration' closestNodes' visited' tasks found) queries') +
      tasks.length * A.charge (.findValue key) ≤ A.budget (.findValue key s.phase queries)

/-! ## Changes to one part of a node -/

variable {A} {p : Peer} {i : Nat} {process old : Process}

@[simp] theorem spent_spawn : A.spent (p.spawn process) = A.spent p + A.budget process := by
  rw [spent, spent, Peer.spawn, List.map_append, List.sum_append, List.map_singleton,
    List.sum_singleton]
  exact (Int.add_assoc _ _ _).symm

theorem spent_put (h : p.processes[i]? = some old) :
    A.spent (p.put i process) + A.budget old = A.spent p + A.budget process := by
  have hsum := sum_map_set (fun process => (A.budget process : Int)) (a := process) h
  show (p.rpc.calls.map A.worth).sum + ((p.processes.set i process).map _).sum + _ = _ + _ + _
  omega

theorem spent_put_of_le (h : p.processes[i]? = some old)
    (hle : A.budget process ≤ A.budget old) : A.spent (p.put i process) ≤ A.spent p := by
  have hput : A.spent (p.put i process) + A.budget old = A.spent p + A.budget process :=
    spent_put h
  omega

/-- A process with nothing left to spend. -/
theorem spent_put_le (h : A.budget process = 0) : A.spent (p.put i process) ≤ A.spent p := by
  cases hold : p.processes[i]? with
  | some old => exact spent_put_of_le hold (h ▸ Nat.zero_le _)
  | none =>
    have hset : p.put i process = p := by
      rw [Peer.put, List.set_eq_of_length_le (List.getElem?_eq_none_iff.mp hold)]
    exact Int.le_of_eq (congrArg A.spent hset)

@[simp] theorem spent_call (rpc : Rpc) (node : Node) (id : MessageId) :
    A.spent (p.call rpc node id) = A.spent p + A.charge rpc := by
  have hcalls : ((p.call rpc node id).rpc.calls.map A.worth).sum =
      (p.rpc.calls.map A.worth).sum + A.charge rpc := by
    show ((p.rpc.calls ++ [_]).map A.worth).sum = _
    rw [List.map_append, List.sum_append, List.map_singleton, List.sum_singleton, worth,
      if_neg (fun hphase => nomatch hphase)]
    exact congrArg _ (Int.sub_zero _)
  rw [spent, spent, hcalls]
  exact Int.add_right_comm _ _ _

/-- A process that makes a call which is not charged. -/
theorem spent_call_put_le {rpc : Rpc} (hcharge : A.charge rpc = 0) (node : Node) (id : MessageId)
    (h : A.budget process = 0) : A.spent ((p.call rpc node id).put i process) ≤ A.spent p := by
  have hput : A.spent ((p.call rpc node id).put i process) ≤ A.spent (p.call rpc node id) :=
    spent_put_le h
  rw [spent_call, hcharge] at hput
  omega

/-- A process that pays for its call from its budget. -/
theorem spent_call_put (h : p.processes[i]? = some old) {rpc : Rpc} (node : Node) (id : MessageId)
    (hpaid : A.budget process + A.charge rpc ≤ A.budget old) :
    A.spent ((p.call rpc node id).put i process) ≤ A.spent p := by
  have hcalled : (p.call rpc node id).processes[i]? = some old := h
  have hput : A.spent ((p.call rpc node id).put i process) + A.budget old =
      A.spent (p.call rpc node id) + A.budget process := spent_put hcalled
  rw [spent_call] at hput
  omega

theorem spent_callEach (rpc : Rpc) (nodes : List Node) (ids : Nat → MessageId) (p : Peer) :
    A.spent (Peer.callEach rpc nodes ids p) =
      A.spent p + (nodes.length * A.charge rpc : Nat) := by
  induction nodes generalizing ids p with
  | nil => rw [Peer.callEach, List.length_nil, Nat.zero_mul, Int.natCast_zero, Int.add_zero]
  | cons node rest ih =>
    rw [Peer.callEach, ih, spent_call, List.length_cons, Nat.add_one_mul]
    omega

theorem processes_callEach (rpc : Rpc) (nodes : List Node) (ids : Nat → MessageId) (p : Peer) :
    (Peer.callEach rpc nodes ids p).processes = p.processes := by
  induction nodes generalizing ids p with
  | nil => rfl
  | cons node rest ih => exact ih _ (p.call rpc node (ids 0))

/-- A process that pays for its calls from its budget. -/
theorem spent_callEach_put (h : p.processes[i]? = some old) {rpc : Rpc} {nodes : List Node}
    (ids : Nat → MessageId)
    (hpaid : A.budget process + nodes.length * A.charge rpc ≤ A.budget old) :
    A.spent ((Peer.callEach rpc nodes ids p).put i process) ≤ A.spent p := by
  have hcalled : (Peer.callEach rpc nodes ids p).processes[i]? = some old :=
    (congrArg (·[i]?) (processes_callEach rpc nodes ids p)).trans h
  have hput : A.spent ((Peer.callEach rpc nodes ids p).put i process) + A.budget old =
      A.spent (Peer.callEach rpc nodes ids p) + A.budget process := spent_put hcalled
  rw [spent_callEach] at hput
  omega

/-! ## Calls -/

theorem worth_le (call : Rpc.Call) : A.worth call ≤ A.charge call.rpc := by
  rw [worth]
  omega

theorem worth_of_open {call : Rpc.Call} (h : ¬ call.phase.Ended) :
    A.worth call = A.charge call.rpc := by
  rw [worth, if_neg]
  · exact Int.sub_zero _
  · intro hphase
    rw [hphase] at h
    exact h trivial

theorem open_of_moves {kind : Transport.Kind} {s s' : Rpc.State} {call call' : Rpc.Call}
    {st : Rpc.Step} (h : Rpc.Moves kind s call st s' call') :
    call' = call ∨ ¬ call.phase.Ended := by
  cases h with
  | stay => exact .inl rfl
  | drop hopen hwaiting => exact .inr hopen
  | fault h hfault => exact .inr (by rw [h]; exact id)
  | time outer inner h => exact .inr (by rw [h]; exact id)
  | record env responseTimeMs table ops h => exact .inr (by rw [h]; exact id)
  | fail env responseTimeMs table ops h => exact .inr (by rw [h]; exact id)
  | finish env table ops h => exact .inr (by rw [h]; exact id)
  | wait st h => exact .inr (by rw [h]; exact id)
  | sendError error h => exact .inr (by rw [h]; exact id)
  | _ h => exact .inr (by rw [h]; exact id)

/-- A call that moves costs nothing. -/
theorem spent_stepRpc (c : Nat) (st : Rpc.Step) :
    A.spent (p.withRpc (Rpc.step p.kind p.rpc (.step c st))) ≤ A.spent p := by
  have hcalls : ((Rpc.step p.kind p.rpc (.step c st)).calls.map A.worth).sum ≤
      (p.rpc.calls.map A.worth).sum := by
    rcases Rpc.step_moves p.kind p.rpc c st with ⟨-, heq⟩ | ⟨call, s', call', hcall, hmoves, heq⟩
    · rw [heq]
    · have hsum := sum_map_set A.worth (a := call') hcall
      have hworth : A.worth call' ≤ A.worth call := by
        rcases open_of_moves hmoves with rfl | hopen
        · exact Int.le_refl _
        · have hle := worth_le (A := A) call'
          rwa [hmoves.rpc_eq, ← worth_of_open hopen] at hle
      rw [heq, Rpc.State.put, hmoves.calls_eq]
      dsimp only
      omega
  exact Int.add_le_add_right hcalls _

/-- A call that ends with a response pays. -/
theorem spent_finish {c : Nat} {call : Rpc.Call} (hcall : p.rpc.calls[c]? = some call)
    (hphase : call.phase = .recorded) (env : Env) :
    A.spent (p.withRpc (Rpc.step p.kind p.rpc (.step c (.finish env)))) + A.refund call.rpc =
      A.spent p := by
  have hstep : (Rpc.step p.kind p.rpc (.step c (.finish env))).calls = p.rpc.calls.set c
      { call with
        phase := .finished .response
        ops := call.ops ++ call.rpc.nodeSeen env call.node } := by
    simp only [Rpc.step, hcall, Rpc.State.advance, hphase]
    rfl
  have hsum := sum_map_set A.worth (a := { call with
    phase := .finished .response
    ops := call.ops ++ call.rpc.nodeSeen env call.node }) hcall
  have hbefore : A.worth call = A.charge call.rpc := by
    refine worth_of_open ?_
    rw [hphase]
    exact id
  have hafter : A.worth { call with
      phase := .finished .response
      ops := call.ops ++ call.rpc.nodeSeen env call.node } =
        A.charge call.rpc - A.refund call.rpc := by
    rw [worth, if_pos rfl]
  rw [hbefore, hafter] at hsum
  show ((Rpc.step p.kind p.rpc (.step c (.finish env))).calls.map A.worth).sum +
    (p.processes.map _).sum + _ = _ + _
  rw [hstep]
  omega

theorem Fair.stepCall (h : A.Fair) (c : Nat) (st : Rpc.Step) :
    A.spent (p.stepCall c st).1 ≤ A.spent p := by
  have hnext := spent_stepRpc (A := A) (p := p) c st
  unfold Peer.stepCall
  split
  · exact Int.le_refl _
  · rename_i call hcall
    dsimp only
    split
    · exact hnext
    · rename_i env hphase
      split_ifs with hcheck
      · exact Int.le_refl _
      · split
        · rename_i response hresponse
          have hfinish := spent_finish (A := A) hcall hphase env
          have hrecorder := h.recorder call.rpc response.sender hcheck
          rw [spent_spawn]
          omega
        · exact hnext
    · exact hnext

/-! ## Processes -/

theorem Fair.stepRecord (h : A.Fair) {node : Node} {phase : RecordContact.Phase}
    {check : Option Nat} (hprocess : p.processes[i]? = some (.recordContact node phase check))
    (st : Peer.RecordStep) : A.spent (p.stepRecord i node phase check st) ≤ A.spent p := by
  have hput : ∀ phase', A.spent (p.put i (.recordContact node phase' check)) ≤ A.spent p :=
    fun phase' => spent_put_of_le hprocess (h.recording node phase phase' check)
  cases st with
  | contact env => exact hput _
  | seen env => exact hput _
  | evict env => exact hput _
  | retry env => exact hput _
  | check id =>
    simp only [Peer.stepRecord]
    split
    · rename_i wasKnown nodeToPing
      have hpaid := h.checking node (.checking wasKnown nodeToPing) p.rpc.calls.length
      exact spent_call_put hprocess nodeToPing id hpaid
    · exact Int.le_refl _
  | checked =>
    simp only [Peer.stepRecord]
    split
    · exact hput _
    · exact hput _
    · exact hput _
    · exact Int.le_refl _

section Handle

variable {message : RequestMessage} {fromAddr : SocketAddr}

theorem Fair.reply (h : A.Fair) (isNewContact sends : Bool) (response : ResponseMessage) :
    A.spent (p.reply i message fromAddr isNewContact sends response).1 ≤ A.spent p := by
  unfold Peer.reply
  split_ifs
  · exact spent_put_le (h.handling _ _ _)
  · exact spent_put_le (h.handling _ _ _)

theorem Fair.respond (h : A.Fair) (isNewContact sends : Bool) (now : Instant) :
    A.spent (p.respond i message fromAddr isNewContact now sends).1 ≤ A.spent p := by
  unfold Peer.respond
  split_ifs
  · exact spent_put_le (h.handling _ _ _)
  · split
    · exact spent_put_le (h.handling _ _ _)
    · rename_i response s hrespond
      exact h.reply (p := p.withStorage s.storage) isNewContact sends response

theorem Fair.stepHandle (h : A.Fair) (phase : HandlePhase) (st : Peer.HandleStep) :
    A.spent (p.stepHandle i message fromAddr phase st).1 ≤ A.spent p := by
  have hput : ∀ phase, A.spent (p.put i (.handleRequest message fromAddr phase)) ≤ A.spent p :=
    fun phase => spent_put_le (h.handling message fromAddr phase)
  cases st with
  | respond now sends =>
    simp only [Peer.stepHandle]
    split
    · split
      · exact h.respond _ sends now
      · exact hput _
      · exact Int.le_refl _
    · exact Int.le_refl _
  | answer sends =>
    simp only [Peer.stepHandle]
    split
    · exact h.reply _ sends _
    · exact Int.le_refl _
  | replicate keys =>
    simp only [Peer.stepHandle]
    split
    · split_ifs
      · exact hput _
      · exact Int.le_refl _
    · exact hput _
    · exact Int.le_refl _
  | choose =>
    simp only [Peer.stepHandle]
    split
    · exact hput _
    · split_ifs
      · exact hput _
      · exact hput _
    · exact Int.le_refl _
  | read now id =>
    simp only [Peer.stepHandle]
    split
    · split
      · exact spent_call_put_le (h.store _ _) _ _ (h.handling _ _ _)
      · exact hput _
      · exact hput _
    · exact Int.le_refl _
  | next =>
    simp only [Peer.stepHandle]
    split
    · split
      · exact hput _
      · exact hput _
      · exact Int.le_refl _
    · exact Int.le_refl _

end Handle

theorem Fair.stepStore (h : A.Fair) {direct : Bool} {key : NodeId} {value : Value}
    {phase : StorePhase} (st : Peer.StoreStep) :
    A.spent (p.stepStore i direct key value phase st) ≤ A.spent p := by
  have hput : ∀ phase, A.spent (p.put i (.store direct key value phase)) ≤ A.spent p :=
    fun phase => spent_put_le (h.storing direct key value phase)
  cases st with
  | write now =>
    simp only [Peer.stepStore]
    split
    · exact spent_put_le (p := p.withStorage _) (h.storing _ _ _ _)
    · exact Int.le_refl _
  | select =>
    simp only [Peer.stepStore]
    split
    · exact hput _
    · exact hput _
    · exact Int.le_refl _
  | send id =>
    simp only [Peer.stepStore]
    split
    · split_ifs
      · exact hput _
      · exact hput _
    · split_ifs
      · exact hput _
      · exact spent_call_put_le (h.store _ _) _ _ (h.storing _ _ _ _)
    · exact Int.le_refl _
  | next =>
    simp only [Peer.stepStore]
    split
    · split
      · exact hput _
      · exact hput _
      · exact hput _
      · exact Int.le_refl _
    · exact Int.le_refl _
  | lapse =>
    have hlapse : A.spent (if direct = true then p.put i (.store direct key value .distributed)
        else p) ≤ A.spent p := by
      split_ifs
      · exact hput _
      · exact Int.le_refl _
    simp only [Peer.stepStore]
    split
    · exact hlapse
    · exact hlapse
    · exact hlapse
    · exact hlapse
    · exact Int.le_refl _

theorem Fair.stepRepublish (h : A.Fair) {items : List (NodeId × Value)} {storing : Option Nat}
    (st : Peer.RepublishStep) : A.spent (p.stepRepublish i items storing st) ≤ A.spent p := by
  cases st with
  | storeValue =>
    simp only [Peer.stepRepublish]
    split
    · rename_i key value items
      have hput : A.spent ((p.spawn (.store false key value .arrived)).put i
          (.republish items (some p.processes.length))) ≤
            A.spent (p.spawn (.store false key value .arrived)) :=
        spent_put_le (h.republishing _ _)
      rw [spent_spawn, h.storing] at hput
      omega
    · exact Int.le_refl _
  | next =>
    simp only [Peer.stepRepublish]
    split
    · exact spent_put_le (h.republishing _ _)
    · exact Int.le_refl _

theorem Fair.stepSearch (h : A.Fair) {target : NodeId} {phase : SearchPhase}
    (st : Peer.SearchStep) : A.spent (p.stepSearch i target phase st) ≤ A.spent p := by
  cases st with
  | select =>
    simp only [Peer.stepSearch]
    split
    · exact spent_put_le (h.searching _ _)
    · exact Int.le_refl _
  | query ids =>
    simp only [Peer.stepSearch]
    split
    · split_ifs
      · refine Int.le_trans (spent_put_le (h.searching _ _)) ?_
        rw [spent_callEach, h.findNode, Nat.mul_zero, Int.natCast_zero, Int.add_zero]
      · exact spent_put_le (h.searching _ _)
    · exact Int.le_refl _
  | join recorded =>
    simp only [Peer.stepSearch]
    split
    · split
      · exact Int.le_refl _
      · exact spent_put_le (h.searching _ _)
    · exact Int.le_refl _

/-- A process that starts another one and pays for it from its budget. -/
theorem spent_spawn_put (h : p.processes[i]? = some old) {started : Process}
    (hpaid : A.budget process + A.budget started ≤ A.budget old) :
    A.spent ((p.spawn started).put i process) ≤ A.spent p := by
  have hspawned : (p.spawn started).processes[i]? = some old := getElem?_concat_of_some h started
  have hput : A.spent ((p.spawn started).put i process) + A.budget old =
      A.spent (p.spawn started) + A.budget process := spent_put hspawned
  rw [spent_spawn] at hput
  omega

theorem Fair.stepJoin (h : A.Fair) {node : Node} {phase : JoinPhase}
    (hprocess : p.processes[i]? = some (.join node phase)) (st : Peer.JoinStep) :
    A.spent (p.stepJoin i node phase st) ≤ A.spent p := by
  have hleave : A.spent (p.put i (.join node .finished)) ≤ A.spent p := spent_put_le (h.left node)
  cases st with
  | ping id =>
    simp only [Peer.stepJoin]
    split
    · split
      · exact spent_call_put hprocess node id (h.pinging node _ _)
      · exact hleave
      · exact Int.le_refl _
    · exact Int.le_refl _
  | record recorded =>
    simp only [Peer.stepJoin]
    split
    · split
      · split_ifs
        · exact spent_spawn_put hprocess (h.joining node _ _ _)
        · exact hleave
      · exact hleave
      · exact Int.le_refl _
    · exact Int.le_refl _
  | search =>
    simp only [Peer.stepJoin]
    split
    · rename_i record
      split
      · refine spent_spawn_put hprocess ?_
        rw [h.searching]
        exact h.joined node record p.processes.length
      · exact hleave
      · exact Int.le_refl _
    · exact Int.le_refl _
  | done =>
    simp only [Peer.stepJoin]
    split
    · split
      · exact hleave
      · exact Int.le_refl _
    · exact Int.le_refl _

section Lookup

variable {key : NodeId} {phase : FindValue.Phase} {queries : List Nat}

theorem Fair.advance (h : A.Fair)
    (hprocess : p.processes[i]? = some (.findValue key phase queries)) (queries' : List Nat)
    (st : FindValue.Step) : A.spent (p.advance i key phase queries' st) ≤ A.spent p :=
  spent_put_of_le (p := p.withStorage ((p.lookup key phase).advance st).storage) hprocess
    (h.lookup key (p.lookup key phase) st queries queries')

theorem Fair.stepLookup (h : A.Fair)
    (hprocess : p.processes[i]? = some (.findValue key phase queries)) (st : Peer.LookupStep) :
    A.spent (p.stepLookup i key phase queries st) ≤ A.spent p := by
  cases st with
  | check now => exact h.advance hprocess queries _
  | select => exact h.advance hprocess queries _
  | collect => exact h.advance hprocess queries _
  | cache now => exact h.advance hprocess queries _
  | query ids =>
    simp only [Peer.stepLookup]
    split
    · rename_i hnext
      exact spent_callEach_put hprocess ids
        (h.round key (p.lookup key _) _ _ _ _ _ _ _ _ queries _ rfl hnext)
    · exact h.advance hprocess queries .query
  | await recorded =>
    cases queries with
    | nil => exact Int.le_refl _
    | cons c rest =>
      simp only [Peer.stepLookup]
      split
      · exact Int.le_refl _
      · exact h.advance hprocess rest _

end Lookup

/-! ## What is paid -/

section Run

variable (A) (digest : SocketAddr → List UInt8) (addr : SocketAddr)

def price : Peer.Operation → Nat
  | .ping _ _ => A.charge .ping
  | .findValueRpc _ key _ => A.charge (.findValue key)
  | .findValue key => A.budget (.findValue key .arrived [])
  | .join bootstrapAddr =>
    A.budget (.recordContact (Node.withAddr digest bootstrapAddr) .arrived none) +
      A.budget (.join (Node.withAddr digest bootstrapAddr) (.adding 0))
  | _ => 0

/-- The sender of a request is recorded. -/
def fee (packet : Packet SocketAddr KademliaMessage) : Nat :=
  match packet.message with
  | .request message => A.budget (.recordContact message.sender .arrived none)
  | .response _ => 0

/-- What an event pays to the node at the address. -/
def paid (s : State) : Event → Nat
  | .act other (.operation operation) => if other = addr then A.price digest operation else 0
  | .deliver index =>
    match s.sent[index]? with
    | some packet => if packet.dst = addr then A.fee packet else 0
    | none => 0
  | _ => 0

def spentAt (s : State) : Int :=
  match s.parties.lookup addr with
  | some p => A.spent p
  | none => 0

end Run

variable {digest : SocketAddr → List UInt8} {addr : SocketAddr} {events : List Event}

theorem Fair.begin (h : A.Fair) (operation : Peer.Operation) :
    A.spent (p.begin digest operation) ≤ A.spent p + A.price digest operation := by
  cases operation with
  | ping node id => exact Int.le_of_eq (spent_call _ _ _)
  | storeOn node key value id =>
    refine Int.le_of_eq ((spent_call _ _ _).trans ?_)
    rw [h.store]
    rfl
  | findValueRpc node key id => exact Int.le_of_eq (spent_call _ _ _)
  | storeValue key value =>
    refine Int.le_of_eq (spent_spawn.trans ?_)
    rw [h.storing]
    rfl
  | store key value =>
    refine Int.le_of_eq (spent_spawn.trans ?_)
    rw [h.storing]
    rfl
  | findValue key => exact Int.le_of_eq spent_spawn
  | findNode target =>
    refine Int.le_of_eq (spent_spawn.trans ?_)
    rw [h.searching]
    rfl
  | join bootstrapAddr =>
    have hadding : A.budget (.join (Node.withAddr digest bootstrapAddr)
        (.adding p.processes.length)) = A.budget (.join _ (.adding 0)) := h.adding _ _ _
    refine Int.le_of_eq ?_
    rw [Peer.begin, spent_spawn, spent_spawn, hadding, Int.add_assoc]
    rfl
  | republish now keys =>
    have hsame : A.spent p ≤ A.spent p + (0 : Nat) := Int.le_of_eq (Int.add_zero _).symm
    simp only [Peer.begin]
    split_ifs
    · split
      · exact hsame
      · rw [spent_spawn, h.republishing]
        exact Int.le_refl _
    · exact hsame
  | cleanup now => exact Int.le_of_eq (Int.add_zero _).symm

/-- A step of a node costs what the client pays for it. -/
theorem Fair.act (h : A.Fair) (s : State) (input : Peer.Input) :
    A.spent (p.act digest input).1 ≤ A.spent p + A.paid digest addr s (.act addr input) := by
  have hfree : ∀ {p' : Peer}, A.spent p' ≤ A.spent p → A.spent p' ≤ A.spent p + (0 : Nat) :=
    fun hle => Int.le_trans hle (Int.le_of_eq (Int.add_zero _).symm)
  cases input with
  | operation operation =>
    rw [paid, if_pos rfl]
    exact h.begin operation
  | call c st => exact hfree (h.stepCall c st)
  | record i st =>
    refine hfree ?_
    simp only [Peer.act]
    split
    · rename_i hprocess
      exact h.stepRecord hprocess st
    · exact Int.le_refl _
  | handle i st =>
    refine hfree ?_
    simp only [Peer.act]
    split
    · exact h.stepHandle _ st
    · exact Int.le_refl _
  | store i st =>
    refine hfree ?_
    simp only [Peer.act]
    split
    · exact h.stepStore st
    · exact Int.le_refl _
  | republish i st =>
    refine hfree ?_
    simp only [Peer.act]
    split
    · exact h.stepRepublish st
    · exact Int.le_refl _
  | lookup i st =>
    refine hfree ?_
    simp only [Peer.act]
    split
    · rename_i hprocess
      exact h.stepLookup hprocess st
    · exact Int.le_refl _
  | search i st =>
    refine hfree ?_
    simp only [Peer.act]
    split
    · exact h.stepSearch st
    · exact Int.le_refl _
  | join i st =>
    refine hfree ?_
    simp only [Peer.act]
    split
    · rename_i hprocess
      exact h.stepJoin hprocess st
    · exact Int.le_refl _

theorem Fair.receive (h : A.Fair) (packet : Packet SocketAddr KademliaMessage) :
    A.spent (p.receive packet).1 ≤ A.spent p + A.fee packet := by
  obtain ⟨src, dst, message⟩ := packet
  cases message with
  | request message =>
    simp only [Peer.receive, spent_spawn, h.handling]
    exact Int.le_of_eq (Int.add_zero _)
  | response message => exact Int.le_of_eq (Int.add_zero _).symm

theorem spentAt_put {s : State} {other : SocketAddr} {result : Peer × List Output} {price : Nat}
    (hp : s.parties.lookup other = some p)
    (h : other = addr → A.spent result.1 ≤ A.spent p + price) :
    A.spentAt addr (s.put other result) ≤ A.spentAt addr s + price := by
  by_cases hother : other = addr
  · subst hother
    rw [spentAt, spentAt, Exchange.State.put, AList.lookup_insert, hp]
    exact h rfl
  · rw [spentAt, spentAt, Exchange.State.put, AList.lookup_insert_ne (Ne.symm hother)]
    omega

theorem Fair.step (h : A.Fair) (s : State) {event : Event}
    (hnew : ∀ other p, event = .enter other p → ∃ kind id, p = Peer.start kind id other) :
    A.spentAt addr (step digest s event) ≤ A.spentAt addr s + A.paid digest addr s event := by
  have hsame : A.spentAt addr s ≤ A.spentAt addr s + (A.paid digest addr s event : Nat) := by
    omega
  cases event with
  | enter other p =>
    obtain ⟨kind, id, rfl⟩ := hnew other p rfl
    cases hfree : s.parties.lookup other with
    | some found =>
      simp only [System.step, Exchange.step, hfree]
      exact hsame
    | none =>
      simp only [System.step, Exchange.step, hfree]
      by_cases hother : other = addr
      · subst hother
        rw [spentAt, spentAt, AList.lookup_insert, hfree]
        exact Int.le_refl 0
      · rw [spentAt, spentAt, AList.lookup_insert_ne (Ne.symm hother)]
        exact hsame
  | act other input =>
    cases hp : s.parties.lookup other with
    | none =>
      simp only [System.step, Exchange.step, hp]
      exact hsame
    | some p =>
      simp only [System.step, Exchange.step, hp]
      refine spentAt_put hp ?_
      rintro rfl
      exact h.act s input
  | deliver index =>
    cases hpacket : s.sent[index]? with
    | none =>
      simp only [System.step, Exchange.step, hpacket]
      exact hsame
    | some packet =>
      cases hp : s.parties.lookup packet.dst with
      | none =>
        simp only [System.step, Exchange.step, hpacket, hp]
        exact hsame
      | some p =>
        simp only [System.step, Exchange.step, hpacket, hp]
        refine spentAt_put hp ?_
        intro hdst
        rw [paid, hpacket]
        dsimp only
        rw [if_pos hdst]
        exact h.receive packet

/-- A node has spent no more than what was paid to it. -/
theorem Fair.run (h : A.Fair) (hnew : NewNodes events) :
    A.spentAt addr (run (System.step digest) start events) ≤
      cost (System.step digest) (A.paid digest addr) start events := by
  have hstep : ∀ event ∈ events, ∀ s,
      A.spentAt addr (System.step digest s event) ≤ A.spentAt addr s + A.paid digest addr s event := by
    intro event hevent s
    refine h.step s ?_
    rintro other p rfl
    exact hnew other p hevent
  exact Int.le_trans (run_le_add_cost hstep start) (Int.le_of_eq (Int.zero_add _))

/-! ## Requests -/

/-- What the calls of a node have paid. -/
def repaid (A : Account) (p : Peer) : Nat :=
  (p.rpc.calls.map fun call => if call.phase = .finished .response then A.refund call.rpc else 0).sum

def charged (A : Account) (calls : List Rpc.Call) : Nat :=
  (calls.map fun call => A.charge call.rpc).sum

theorem charged_le (A : Account) (p : Peer) :
    (A.charged p.rpc.calls : Int) ≤ A.spent p + A.repaid p := by
  have hcalls : ∀ calls : List Rpc.Call, (A.charged calls : Int) = (calls.map A.worth).sum +
      (calls.map fun call =>
        if call.phase = .finished .response then A.refund call.rpc else 0).sum := by
    intro calls
    induction calls with
    | nil => rfl
    | cons call rest ih =>
      rw [charged] at ih ⊢
      simp only [List.map_cons, List.sum_cons, Int.natCast_add, worth, ih]
      omega
  have hbudgets : 0 ≤ (p.processes.map fun process => (A.budget process : Int)).sum := by
    induction p.processes with
    | nil => exact Int.le_refl 0
    | cons process rest ih =>
      rw [List.map_cons, List.sum_cons]
      omega
  have hsum := hcalls p.rpc.calls
  rw [spent, repaid]
  omega

/-- The packet is a request of this kind from the node at the address. -/
def asks (kind : RequestMessage → Bool) (addr : SocketAddr)
    (packet : Packet SocketAddr KademliaMessage) : Bool :=
  match packet.message with
  | .request request => kind request && packet.src == addr
  | .response _ => false

theorem eq_of_asks {kind : RequestMessage → Bool} {packet : Packet SocketAddr KademliaMessage}
    (h : asks kind addr packet = true) : ∃ dst request, kind request = true ∧
      packet = { src := addr, dst := dst, message := .request request } := by
  obtain ⟨src, dst, message⟩ := packet
  cases message with
  | request request =>
    obtain ⟨hkind, hsrc⟩ := Bool.and_eq_true_iff.mp h
    obtain rfl : src = addr := eq_of_beq hsrc
    exact ⟨dst, request, hkind, rfl⟩
  | response response => cases h

/-- The requests of a kind on record are no more than the calls, if each of these is charged. -/
theorem countP_asks_le {T : Trust} {sent : Packets} {s : Rpc.State} (h : T.Calls sent addr s)
    {kind : RequestMessage → Bool}
    (hkind : ∀ rpc id node, kind (rpc.request id node) = true → 1 ≤ A.charge rpc) :
    sent.countP (asks kind addr) ≤ A.charged s.calls := by
  have hids : Trust.requestIds addr (sent.filter (asks kind addr)) ⊆
      (s.calls.filter fun call => decide (1 ≤ A.charge call.rpc)).map Rpc.Call.id := by
    intro id hid
    obtain ⟨dst, request, hmem, rfl⟩ := Trust.mem_requestIds.mp hid
    obtain ⟨hsent, hasks⟩ := List.mem_filter.mp hmem
    obtain ⟨c, call, hcall, -, hcarries, -⟩ := h.requests dst request hsent
    obtain ⟨_, _, hasked, heq⟩ := eq_of_asks hasks
    cases heq
    rw [← hcarries] at hasked ⊢
    refine List.mem_map.mpr ⟨call, List.mem_filter.mpr ⟨List.mem_of_getElem? hcall, ?_⟩, ?_⟩
    · exact decide_eq_true (hkind _ _ _ hasked)
    · exact (Trust.request_id _ _ _).symm
  have hnodup : (Trust.requestIds addr (sent.filter (asks kind addr))).Nodup :=
    h.once.sublist (List.filter_sublist.filterMap _)
  have hlength : (Trust.requestIds addr (sent.filter (asks kind addr))).length =
      (sent.filter (asks kind addr)).length := by
    refine List.filterMap_length_eq_length.mpr ?_
    intro packet hmem
    obtain ⟨dst, request, -, rfl⟩ := eq_of_asks (List.mem_filter.mp hmem).2
    dsimp only
    rw [if_pos rfl]
    rfl
  have hcharged : ∀ calls : List Rpc.Call,
      (calls.filter fun call => decide (1 ≤ A.charge call.rpc)).length ≤ A.charged calls := by
    intro calls
    induction calls with
    | nil => exact Nat.le_refl 0
    | cons call rest ih =>
      rw [charged] at ih ⊢
      rw [List.filter_cons, List.map_cons, List.sum_cons]
      split_ifs with hpaid
      · have hone := of_decide_eq_true hpaid
        rw [List.length_cons]
        omega
      · omega
  have hle := (List.subperm_of_subset hnodup hids).length_le
  rw [hlength, List.length_map] at hle
  rw [List.countP_eq_length_filter]
  exact Nat.le_trans hle (hcharged s.calls)

/-- In a fair account that charges the requests of a kind, a node sends no more of them than its
clients, the requests to it and its own calls have paid for. -/
theorem Fair.requests_le (h : A.Fair) {kind : RequestMessage → Bool}
    (hkind : ∀ rpc id node, kind (rpc.request id node) = true → 1 ≤ A.charge rpc)
    (hnew : NewNodes events) (hdraws : Meets (System.step digest) (DrawsNew digest) start events)
    {p : Peer} (hp : (Lib.run (System.step digest) start events).parties.lookup addr = some p) :
    (Lib.run (System.step digest) start events).sent.countP (asks kind addr) ≤
      cost (System.step digest) (A.paid digest addr) start events + A.repaid p := by
  have hspent : A.spentAt addr (Lib.run (System.step digest) start events) ≤
      cost (System.step digest) (A.paid digest addr) start events := h.run hnew
  have hcalls := countP_asks_le ((sound_any hnew hdraws).party addr p hp).calls hkind
  have hcharged := charged_le A p
  rw [spentAt, hp] at hspent
  dsimp only at hspent
  omega

end Account

variable {digest : SocketAddr → List UInt8} {events : List Event}

/-! ## Lookups of values -/

/-- The queries that a lookup has left to make at most. -/
def queriesLeft : FindValue.Phase → Nat
  | .arrived | .missed => FindValue.maxIterations * FindValue.alpha
  | .searching iteration _ _ => (FindValue.maxIterations - iteration) * FindValue.alpha
  | .querying iteration _ _ _ _ => (FindValue.maxIterations - (iteration + 1)) * FindValue.alpha
  | .caching _ | .finished _ => 0

def lookups : Account where
  charge
    | .findValue _ => 1
    | _ => 0
  refund _ := 0
  budget
    | .findValue _ phase _ => queriesLeft phase
    | _ => 0

theorem queriesLeft_advance (s : FindValue.State) (st : FindValue.Step) :
    queriesLeft (s.advance st).phase ≤ queriesLeft s.phase := by
  have hstep := FindValue.advance_phase s st
  generalize (s.advance st).phase = phase at hstep
  cases hstep with
  | stay st => exact Nat.le_refl _
  | hit result hphase hresult => exact Nat.zero_le _
  | miss hphase => exact Nat.le_of_eq (congrArg queriesLeft hphase).symm
  | alone hphase => exact Nat.zero_le _
  | first hphase => exact Nat.le_of_eq (congrArg queriesLeft hphase).symm
  | noneLeft hphase hend => exact Nat.zero_le _
  | query hphase hlt =>
    rw [hphase]
    exact Nat.mul_le_mul_right _ (Nat.sub_le_sub_left (Nat.le_succ _) _)
  | found value hphase => exact Nat.zero_le _
  | answer more hphase => exact Nat.le_of_eq (congrArg queriesLeft hphase).symm
  | nothingNew hphase => exact Nat.zero_le _
  | next merged hphase => exact Nat.le_of_eq (congrArg queriesLeft hphase).symm
  | cached hphase => exact Nat.zero_le _

/-- A round has no more queries than it takes from those that are left. -/
theorem queriesLeft_round {s : FindValue.State} {iteration iteration' : Nat}
    {closestNodes closestNodes' tasks found : List Node} {visited visited' : List NodeId}
    (hphase : s.phase = .searching iteration closestNodes visited)
    (hnext : (s.advance .query).phase = .querying iteration' closestNodes' visited' tasks found) :
    queriesLeft (.querying iteration' closestNodes' visited' tasks found) + tasks.length ≤
      queriesLeft s.phase := by
  simp only [FindValue.State.advance, hphase] at hnext
  split_ifs at hnext with hend
  obtain ⟨rfl, rfl, rfl, rfl, rfl⟩ := FindValue.Phase.querying.inj hnext
  have hlt : iteration < FindValue.maxIterations :=
    Nat.not_le.mp fun hle => hend (.inl hle)
  have hrounds : FindValue.maxIterations - iteration =
      FindValue.maxIterations - (iteration + 1) + 1 := by omega
  have hlength : (FindValue.nodesToQuery s.nodeId closestNodes visited).length ≤
      FindValue.alpha := List.length_take_le _ _
  rw [hphase, queriesLeft, queriesLeft, hrounds, Nat.add_one_mul]
  omega

theorem fair_lookups : lookups.Fair where
  store := fun _ _ => rfl
  findNode := fun _ => rfl
  recorder := fun _ _ _ => Nat.zero_le _
  recording := fun _ _ _ _ => Nat.le_refl 0
  checking := fun _ _ _ => Nat.le_refl 0
  handling := fun _ _ _ => rfl
  storing := fun _ _ _ _ => rfl
  republishing := fun _ _ => rfl
  searching := fun _ _ => rfl
  adding := fun _ _ _ => rfl
  pinging := fun _ _ _ => Nat.le_refl 0
  joining := fun _ _ _ _ => Nat.le_refl 0
  joined := fun _ _ _ => Nat.le_refl 0
  left := fun _ => rfl
  lookup := fun _ s st _ _ => queriesLeft_advance s st
  round := by
    intro key s iteration closestNodes visited iteration' closestNodes' visited' tasks found
      queries queries' hphase hnext
    have hround := queriesLeft_round hphase hnext
    rwa [← Nat.mul_one tasks.length] at hround

def asksForValue : RequestMessage → Bool
  | .findValue .. => true
  | _ => false

/-- The queries that an event of a client entitles the node at the address to. -/
def queriesStarted (addr : SocketAddr) : Event → Nat
  | .act other (.operation (.findValue _)) =>
    if other = addr then FindValue.maxIterations * FindValue.alpha else 0
  | .act other (.operation (.findValueRpc ..)) => if other = addr then 1 else 0
  | _ => 0

theorem paid_lookups (addr : SocketAddr) (s : State) (event : Event) :
    lookups.paid digest addr s event = queriesStarted addr event := by
  cases event with
  | act other input =>
    cases input with
    | operation operation =>
      cases operation with
      | findValue | findValueRpc => rfl
      | _ => exact ite_self 0
    | _ => rfl
  | deliver index =>
    rw [Account.paid]
    cases s.sent[index]? with
    | none => rfl
    | some packet =>
      have hfee : lookups.fee packet = 0 := by
        rw [Account.fee]
        split <;> rfl
      dsimp only
      rw [hfee]
      exact ite_self 0
  | enter other p => rfl

/-- A node sends 50 `FIND_VALUE` requests at most for each lookup that its clients start and one
for each query that they make themselves, whatever the network answers and whatever else the node
does. -/
theorem value_requests_bounded (hnew : NewNodes events)
    (hdraws : Meets (step digest) (DrawsNew digest) start events) (addr : SocketAddr) :
    (run (step digest) start events).sent.countP (Account.asks asksForValue addr) ≤
      (events.map (queriesStarted addr)).sum := by
  cases hp : (run (step digest) start events).parties.lookup addr with
  | none =>
    have hnone : (run (step digest) start events).sent.countP (Account.asks asksForValue addr) =
        0 := by
      rw [List.countP_eq_zero]
      intro packet hmem hasks
      obtain ⟨dst, request, -, rfl⟩ := Account.eq_of_asks hasks
      exact (sound_any hnew hdraws).src _ hmem hp
    rw [hnone]
    exact Nat.zero_le _
  | some p =>
    have hkind : ∀ rpc id node, asksForValue (rpc.request id node) = true →
        1 ≤ lookups.charge rpc := by
      intro rpc id node hkind
      cases rpc with
      | findValue key => exact Nat.le_refl 1
      | _ => cases hkind
    have hcount := fair_lookups.requests_le hkind hnew hdraws hp
    have hcost : cost (step digest) (lookups.paid digest addr) start events =
        (events.map (queriesStarted addr)).sum := cost_eq_sum (paid_lookups addr) _ _
    have hrepaid : lookups.repaid p = 0 := by
      rw [Account.repaid, List.sum_eq_zero]
      intro n hn
      obtain ⟨call, -, rfl⟩ := List.mem_map.mp hn
      exact ite_self 0
    omega

/-- The first node has joined, and looks for the value that it has handed on. -/
def joinAndFind : List Event :=
  joinAndStore ++ [.act firstAddr (.operation (.findValue (NodeId.fromBytes [7]))),
    .act firstAddr (.lookup 3 (.check 6)), .act firstAddr (.lookup 3 .select),
    .act firstAddr (.lookup 3 (.query fun _ => 2)), .act firstAddr (.call 1 .insert),
    .act firstAddr (.call 1 (.time (.at 6))), .act firstAddr (.call 1 (.send (.ok ())))]

theorem newNodes_joinAndFind : NewNodes joinAndFind := by
  intro addr p hmem
  rcases List.mem_append.mp hmem with hbefore | hafter
  · exact newNodes_joinAndStore addr p hbefore
  · simp at hafter

theorem value_requests_bounded_joinAndFind :
    (run (step twoDigests) start joinAndFind).sent.countP (Account.asks asksForValue firstAddr) = 1 ∧
      1 ≤ (joinAndFind.map (queriesStarted firstAddr)).sum := by
  have hcount : (run (step twoDigests) start joinAndFind).sent.countP
      (Account.asks asksForValue firstAddr) = 1 := by
    decide +kernel
  refine ⟨hcount, ?_⟩
  have hdraws : Meets (step twoDigests) (DrawsNew twoDigests) start joinAndFind := by
    decide +kernel
  have hbound := value_requests_bounded newNodes_joinAndFind hdraws firstAddr
  rwa [hcount] at hbound

/-! ## Pings -/

/-- A process that records a contact makes one health check at most.  A join has its `ping` and
the second `record_contact` before it, beside the first one. -/
def pings : Account where
  charge
    | .ping | .healthCheckPing => 1
    | _ => 0
  refund
    | .healthCheckPing => 0
    | _ => 1
  budget
    | .recordContact _ _ none => 1
    | .join _ (.adding _) => 2
    | .join _ (.pinging _) => 1
    | _ => 0

theorem fair_pings : pings.Fair where
  store := fun _ _ => rfl
  findNode := fun _ => rfl
  recorder := by
    intro rpc node hrpc
    cases rpc with
    | healthCheckPing => exact absurd rfl hrpc
    | _ => exact Nat.le_refl 1
  recording := by
    intro node phase phase' check
    cases check with
    | none => exact Nat.le_refl 1
    | some c => exact Nat.le_refl 0
  checking := fun _ _ _ => Nat.le_refl 1
  handling := fun _ _ _ => rfl
  storing := fun _ _ _ _ => rfl
  republishing := fun _ _ => rfl
  searching := fun _ _ => rfl
  adding := fun _ _ _ => rfl
  pinging := fun _ _ _ => Nat.le_refl 2
  joining := fun _ _ _ _ => Nat.le_refl 1
  joined := fun _ _ _ => Nat.le_refl 0
  left := fun _ => rfl
  lookup := fun _ _ _ _ _ => Nat.le_refl 0
  round := by
    intro key s iteration closestNodes visited iteration' closestNodes' visited' tasks found
      queries queries' hphase hnext
    exact Nat.le_of_eq (Nat.mul_zero tasks.length)

def isPing : RequestMessage → Bool
  | .ping .. => true
  | _ => false

/-- The pings that an event entitles the node at the address to: one for a ping that a client
asks for and for a request that comes in, and three for a join. -/
def causesPing (addr : SocketAddr) (s : State) : Event → Nat
  | .act other (.operation (.ping ..)) => if other = addr then 1 else 0
  | .act other (.operation (.join _)) => if other = addr then 3 else 0
  | .deliver index =>
    match s.sent[index]? with
    | some { src := _, dst := dst, message := .request _ } => if dst = addr then 1 else 0
    | _ => 0
  | _ => 0

/-- The call has got its response, and is no health check. -/
def answered (call : Rpc.Call) : Bool :=
  call.rpc != .healthCheckPing && call.phase == .finished .response

theorem paid_pings (addr : SocketAddr) : pings.paid digest addr = causesPing addr := by
  funext s event
  cases event with
  | act other input =>
    cases input with
    | operation operation =>
      cases operation with
      | ping | join => rfl
      | _ => exact ite_self 0
    | _ => rfl
  | deliver index =>
    rw [Account.paid, causesPing]
    cases s.sent[index]? with
    | none => rfl
    | some packet =>
      obtain ⟨src, dst, message⟩ := packet
      cases message with
      | request request => rfl
      | response response => exact ite_self 0
  | enter other p => rfl

theorem repaid_pings (p : Peer) : pings.repaid p = p.rpc.calls.countP answered := by
  rw [Account.repaid]
  induction p.rpc.calls with
  | nil => rfl
  | cons call rest ih =>
    have hcall : (if call.phase = .finished .response then pings.refund call.rpc else 0) =
        if answered call = true then 1 else 0 := by
      by_cases hphase : call.phase = .finished .response
      · rw [if_pos hphase, answered, hphase, beq_self_eq_true, Bool.and_true]
        cases call.rpc <;> rfl
      · rw [if_neg hphase, answered, beq_false_of_ne hphase, Bool.and_false]
        rfl
    rw [List.map_cons, List.sum_cons, ih, List.countP_cons, Nat.add_comm, hcall]

/-- A node sends at most three pings for each join that its clients ask for, one of its own and
two health checks, and at most one for each ping that they ask for, each request that reaches it,
and each response to a call of its own other than a health check.  So the health checks of a node
bring about no more health checks there. -/
theorem pings_bounded (hnew : NewNodes events)
    (hdraws : Meets (step digest) (DrawsNew digest) start events) {addr : SocketAddr} {p : Peer}
    (hp : (run (step digest) start events).parties.lookup addr = some p) :
    (run (step digest) start events).sent.countP (Account.asks isPing addr) ≤
      cost (step digest) (causesPing addr) start events + p.rpc.calls.countP answered := by
  have hkind : ∀ rpc id node, isPing (rpc.request id node) = true → 1 ≤ pings.charge rpc := by
    intro rpc id node hkind
    cases rpc with
    | ping | healthCheckPing => exact Nat.le_refl 1
    | _ => cases hkind
  have hcount := fair_pings.requests_le hkind hnew hdraws hp
  rwa [paid_pings, repaid_pings] at hcount

/-- The first node goes on with its join and pings the second one. -/
def joinAndPing : List Event :=
  joinAndStore ++
    [.act firstAddr (.join 1 (.ping 2)),
      .act firstAddr (.call 1 .insert), .act firstAddr (.call 1 (.time (.at 6))),
      .act firstAddr (.call 1 (.send (.ok ())))]

theorem newNodes_joinAndPing : NewNodes joinAndPing := by
  intro addr p hmem
  rcases List.mem_append.mp hmem with hbefore | hafter
  · exact newNodes_joinAndStore addr p hbefore
  · simp at hafter

/-- The join allows for three, and the response to the store for one. -/
theorem pings_bounded_joinAndPing :
    ∃ p, (run (step twoDigests) start joinAndPing).parties.lookup firstAddr = some p ∧
      cost (step twoDigests) (causesPing firstAddr) start joinAndPing = 3 ∧
      p.rpc.calls.countP answered = 1 ∧
      (run (step twoDigests) start joinAndPing).sent.countP (Account.asks isPing firstAddr) = 1 ∧
      (run (step twoDigests) start joinAndPing).sent.countP (Account.asks isPing firstAddr) ≤ 4 := by
  have hanswered : ((run (step twoDigests) start joinAndPing).parties.lookup firstAddr).map
      (fun p => p.rpc.calls.countP answered) = some 1 := by
    decide +kernel
  have hcost : cost (step twoDigests) (causesPing firstAddr) start joinAndPing = 3 := by
    decide +kernel
  obtain ⟨p, hp, hone⟩ := Option.map_eq_some_iff.mp hanswered
  have hdraws : Meets (step twoDigests) (DrawsNew twoDigests) start joinAndPing := by
    decide +kernel
  have hbound := pings_bounded newNodes_joinAndPing hdraws hp
  rw [hcost, hone] at hbound
  exact ⟨p, hp, hcost, hone, by decide +kernel, hbound⟩

end System

end Kademlia
