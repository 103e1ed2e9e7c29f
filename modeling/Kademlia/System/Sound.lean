import Kademlia.System.Calls

/-!
# A node keeps what it may hold

Every step of every process of a node leaves the node with trusted contents and sends trusted
packets, whatever the other processes do in between.  A process needs little for that: what it
holds itself, and that the calls it waits for ask for what it wants to know.
-/

namespace Kademlia

open Lib

namespace System

def Peer.RecordStep.env : Peer.RecordStep → Option Env
  | .contact env | .seen env | .evict env | .retry env => some env
  | .check _ | .checked => none

namespace Trust

variable (T : Trust)

/-- The call at a position is for this request. -/
def Asks (calls : List Rpc.Call) (rpc : Rpc) (c : Nat) : Prop :=
  ∃ call, calls[c]? = some call ∧ call.rpc = rpc

def SearchPhase (calls : List Rpc.Call) (target : NodeId) : System.SearchPhase → Prop
  | .arrived => True
  | .searching search => T.Nodes search.closestNodes
  | .querying search queries =>
    T.Nodes search.closestNodes ∧ ∀ c ∈ queries, Asks calls (.findNode target) c
  | .finished nodes => T.Nodes nodes

/-- What a process holds.  A request that is being handled is on record. -/
def Process (sent : Packets) (addr : SocketAddr) (calls : List Rpc.Call) : System.Process → Prop
  | .recordContact node _ _ => T.Genuine node
  | .handleRequest message fromAddr _ =>
    { src := fromAddr, dst := addr, message := .request message } ∈ sent
  | .store _ key value _ => T.value key value
  | .republish items _ => ∀ item ∈ items, T.value item.1 item.2
  | .findValue key phase queries =>
    T.LookupPhase key phase ∧ ∀ c ∈ queries, Asks calls (.findValue key) c
  | .findNode target phase => T.SearchPhase calls target phase
  | .join _ _ => True

structure Peer (sent : Packets) (addr : SocketAddr) (p : System.Peer) : Prop where
  self : p.rpc.localNode.addr = addr
  genuine : T.Genuine p.rpc.localNode
  table : T.Table p.nodeId p.rpc.table
  storage : T.Storage p.storage
  calls : T.Calls sent addr p.rpc
  processes : ∀ (i : Nat) (process : System.Process), p.processes[i]? = some process →
    T.Process sent addr p.rpc.calls process

def invariant : Exchange.Invariant SocketAddr System.Peer KademliaMessage where
  party := T.Peer
  packet := T.Message

variable {T} {sent : Packets} {addr : SocketAddr} {p : System.Peer}

theorem Process.mono {calls calls' : List Rpc.Call} {process : System.Process}
    (h : T.Process sent addr calls process) (new : Packets)
    (hcalls : ∀ rpc c, Asks calls rpc c → Asks calls' rpc c) :
    T.Process (sent ++ new) addr calls' process := by
  cases process with
  | handleRequest message fromAddr phase => exact List.mem_append_left _ h
  | findValue key phase queries => exact ⟨h.1, fun c hc => hcalls _ c (h.2 c hc)⟩
  | findNode target phase =>
    cases phase with
    | querying search queries => exact ⟨h.1, fun c hc => hcalls _ c (h.2 c hc)⟩
    | _ => exact h
  | _ => exact h

/-! ## Changes to one part of a node -/

theorem Peer.spawn (h : T.Peer sent addr p) {process : System.Process}
    (hprocess : T.Process sent addr p.rpc.calls process) : T.Peer sent addr (p.spawn process) :=
  { h with
    processes := by
      intro i found hfound
      rcases getElem?_concat_cases hfound with hold | rfl
      · exact h.processes i found hold
      · exact hprocess }

theorem Peer.put (h : T.Peer sent addr p) {i : Nat} {process : System.Process}
    (hprocess : T.Process sent addr p.rpc.calls process) : T.Peer sent addr (p.put i process) :=
  { h with
    processes := by
      intro j found hfound
      rcases getElem?_set_cases hfound with ⟨-, rfl⟩ | ⟨-, hold⟩
      · exact hprocess
      · exact h.processes j found hold }

theorem Peer.withStorage (h : T.Peer sent addr p) {storage : MemoryStorage}
    (hstorage : T.Storage storage) : T.Peer sent addr (p.withStorage storage) :=
  { h with storage := hstorage }

theorem Peer.withTable (h : T.Peer sent addr p) {table : RoutingTable}
    (htable : T.Table p.nodeId table) :
    T.Peer sent addr (p.withTable table) :=
  { h with table := htable, calls := h.calls.withTable table }

theorem Peer.withRpc (h : T.Peer sent addr p) {rpc : Rpc.State} (hcalls : T.Calls sent addr rpc)
    (hlocal : rpc.localNode = p.rpc.localNode) (htable : T.Table p.nodeId rpc.table)
    (hasks : ∀ request c, Asks p.rpc.calls request c → Asks rpc.calls request c) :
    T.Peer sent addr (p.withRpc rpc) where
  self := by
    rw [← h.self, ← hlocal]
    rfl
  genuine := by
    show T.Genuine rpc.localNode
    rw [hlocal]
    exact h.genuine
  table := by
    show T.Table rpc.localNode.id rpc.table
    rw [hlocal]
    exact htable
  storage := h.storage
  calls := hcalls
  processes := by
    intro i process hprocess
    have hmono := (h.processes i process hprocess).mono [] hasks
    rw [List.append_nil] at hmono
    exact hmono

theorem Peer.append (h : T.Peer sent addr p) {new : Packets}
    (hnew : ∀ dst request, { src := addr, dst := dst, message := .request request } ∈ new →
      ∃ (c : Nat) (call : Rpc.Call), p.rpc.calls[c]? = some call ∧
        Carries p.rpc.localNode call dst request)
    (honce : (requestIds addr (sent ++ new)).Nodup) : T.Peer (sent ++ new) addr p :=
  { h with
    calls := h.calls.append hnew honce
    processes := fun i process hprocess =>
      (h.processes i process hprocess).mono new fun _ _ hasks => hasks }

/-- More packets on record that are no requests from here. -/
theorem Peer.others (h : T.Peer sent addr p) {new : Packets}
    (hnew : ∀ dst request, { src := addr, dst := dst, message := .request request } ∉ new) :
    T.Peer (sent ++ new) addr p := by
  refine h.append (fun dst request hmem => absurd hmem (hnew dst request)) ?_
  rw [requestIds_append, requestIds_eq_nil hnew, List.append_nil]
  exact h.calls.once

/-- A node that sends nothing. -/
theorem Peer.silent (h : T.Peer sent addr p) : T.invariant.Keeps sent addr (p, []) where
  party := by
    show T.Peer (sent ++ []) addr p
    rw [List.append_nil]
    exact h
  packet := by
    intro q hq
    cases hq

theorem asks_call {calls : List Rpc.Call} {call : Rpc.Call} {rpc : Rpc} {c : Nat}
    (h : Asks calls rpc c) : Asks (calls ++ [call]) rpc c := by
  obtain ⟨before, hbefore, hrpc⟩ := h
  exact ⟨before, getElem?_concat_of_some hbefore _, hrpc⟩

theorem Peer.call (h : T.Peer sent addr p) {rpc : Rpc} (node : Node) {id : MessageId}
    (hstores : T.Stores (rpc.request id p.rpc.localNode))
    (hdistinct : Rpc.Distinct (p.call rpc node id).rpc.calls) :
    T.Peer sent addr (p.call rpc node id) := by
  refine h.withRpc (h.calls.call p.kind node hstores ?_) rfl h.table fun _ _ => asks_call
  exact Rpc.id_ne_of_distinct hdistinct

theorem callEach_calls (rpc : Rpc) (nodes : List Node) (ids : Nat → MessageId) (p : System.Peer) :
    ∃ new, (System.Peer.callEach rpc nodes ids p).rpc.calls = p.rpc.calls ++ new ∧
      new.length = nodes.length ∧ ∀ call ∈ new, call.rpc = rpc := by
  induction nodes generalizing ids p with
  | nil => exact ⟨[], (List.append_nil _).symm, rfl, fun call h => by cases h⟩
  | cons node rest ih =>
    obtain ⟨new, hcalls, hlength, hrpc⟩ :=
      ih (fun i => ids (i + 1)) (p.call rpc node (ids 0))
    refine ⟨_ :: new, hcalls.trans (List.append_assoc _ _ _), congrArg (· + 1) hlength, ?_⟩
    intro call hcall
    rcases List.mem_cons.mp hcall with rfl | hcall
    · rfl
    · exact hrpc call hcall

theorem Peer.callEach {rpc : Rpc} {nodes : List Node} {ids : Nat → MessageId}
    (h : T.Peer sent addr p) (hstores : ∀ id, T.Stores (rpc.request id p.rpc.localNode))
    (hdistinct : Rpc.Distinct (System.Peer.callEach rpc nodes ids p).rpc.calls) :
    T.Peer sent addr (System.Peer.callEach rpc nodes ids p) := by
  induction nodes generalizing ids p with
  | nil => exact h
  | cons node rest ih =>
    refine ih (h.call node (hstores (ids 0)) ?_) hstores hdistinct
    obtain ⟨new, hcalls, -⟩ :=
      callEach_calls rpc rest (fun i => ids (i + 1)) (p.call rpc node (ids 0))
    rw [System.Peer.callEach, hcalls] at hdistinct
    exact hdistinct.of_append

/-- The new calls stand where they are expected. -/
theorem asks_nextCalls (rpc : Rpc) (nodes : List Node) (ids : Nat → MessageId) (p : System.Peer)
    {c : Nat} (hc : c ∈ p.nextCalls nodes) :
    Asks (System.Peer.callEach rpc nodes ids p).rpc.calls rpc c := by
  obtain ⟨new, hcalls, hlength, hrpc⟩ := callEach_calls rpc nodes ids p
  obtain ⟨hle, hlt⟩ := List.mem_range'_1.mp hc
  have hnew : c - p.rpc.calls.length < new.length := by omega
  refine ⟨new[c - p.rpc.calls.length], ?_, hrpc _ (List.getElem_mem hnew)⟩
  rw [hcalls, List.getElem?_append_right hle, List.getElem?_eq_getElem hnew]

/-! ## Calls -/

theorem asks_step (kind : Transport.Kind) (s : Rpc.State) (c : Nat) (st : Rpc.Step) {rpc : Rpc}
    {c' : Nat} (h : Asks s.calls rpc c') :
    Asks (Rpc.step kind s (.step c st)).calls rpc c' := by
  obtain ⟨before, hbefore, hrpc⟩ := h
  rcases Rpc.step_moves kind s c st with ⟨-, heq⟩ | ⟨call, s', call', hcall, hmoves, heq⟩
  · rw [heq]
    exact ⟨before, hbefore, hrpc⟩
  · have hslot : s'.calls[c]? = some call := hmoves.calls_eq ▸ hcall
    rw [heq, Rpc.State.put]
    by_cases hc : c = c'
    · subst hc
      obtain rfl : call = before := Option.some.inj (hcall.symm.trans hbefore)
      exact ⟨call', by rw [getElem?_set_slot hslot, if_pos rfl], hmoves.rpc_eq.trans hrpc⟩
    · refine ⟨before, ?_, hrpc⟩
      rw [getElem?_set_slot hslot, if_neg hc, hmoves.calls_eq, hbefore]

theorem Peer.stepRpc (h : T.Peer sent addr p) (hsent : ∀ q ∈ sent, T.Message sent q) (c : Nat)
    {st : Rpc.Step} (htime : ∀ env, st.env = some env → T.time env.stampedAt) :
    T.Peer sent addr (p.withRpc (Rpc.step p.kind p.rpc (.step c st))) := by
  refine h.withRpc (h.calls.step hsent p.kind c st) ?_ ?_ fun _ _ => asks_step p.kind p.rpc c st
  · rcases Rpc.step_moves p.kind p.rpc c st with ⟨-, heq⟩ | ⟨call, s', call', -, hmoves, heq⟩
    · rw [heq]
    · rw [heq]
      exact hmoves.localNode_eq
  · obtain ⟨ops, heq, hops⟩ := Rpc.step_table p.kind p.rpc c st
    rw [heq]
    refine h.table.run ?_
    intro op hop
    obtain ⟨henv, hupdate⟩ := hops op hop
    exact ⟨htime _ henv, fun env node heq => absurd heq (hupdate env node)⟩

theorem Peer.stepCall (h : T.Peer sent addr p) (hsent : ∀ q ∈ sent, T.Message sent q) (c : Nat)
    {st : Rpc.Step} (htime : ∀ env, st.env = some env → T.time env.stampedAt) :
    T.invariant.Keeps sent addr (p.stepCall c st) := by
  have hnext := h.stepRpc hsent c htime
  unfold System.Peer.stepCall
  split
  · exact h.silent
  · rename_i call hcall
    have htrusted := h.calls.calls c call hcall
    dsimp only
    split
    · rename_i outer inner hphase
      -- The request goes on record, and it is the one of this call.
      constructor
      · have hunsent : call.phase.Unsent := hphase ▸ trivial
        refine hnext.append ?_ (h.calls.once_send hcall hunsent _ _)
        intro dst request hmem
        obtain ⟨rfl, hmessage⟩ : call.node.addr = dst ∧
            call.rpc.request call.id p.rpc.localNode = request := by
          simpa [Exchange.post, eq_comm] using hmem
        have hstep : Rpc.step p.kind p.rpc (.step c (.send (.ok ()))) =
            { p.rpc with
              transport := OpenTransport.step p.kind p.rpc.transport (.event (.send call.id)) }.put c
                { call with phase := .waiting p.rpc.transport.calls.length } := by
          simp only [Rpc.step, hcall, Rpc.State.advance, hphase]
        refine ⟨c, { call with phase := .waiting p.rpc.transport.calls.length }, ?_, rfl, ?_⟩
        · rw [System.Peer.withRpc, hstep]
          exact Rpc.calls_put_self hcall _
        · rw [System.Peer.withRpc, hstep]
          exact ⟨hmessage, not_false⟩
      · intro q hq
        obtain rfl := List.mem_singleton.mp hq
        refine ⟨?_, ?_, htrusted.stores⟩
        · rw [request_sender]
          exact h.self
        · rw [request_sender]
          exact h.genuine
    · split_ifs
      · exact h.silent
      · split
        · rename_i response hresponse
          refine (hnext.spawn ?_).silent
          exact (htrusted.answered response hresponse).genuine
        · exact hnext.silent
    · exact hnext.silent

/-! ## `record_contact` -/

theorem Peer.lock (h : T.Peer sent addr p) {i : Nat} {node : Node} (hnode : T.Genuine node)
    (phase : RecordContact.Phase) (check : Option Nat) {st : RecordContact.Step}
    (htime : ∀ env, st.env = some env → T.time env.stampedAt) :
    T.Peer sent addr (p.lock i node phase check st) :=
  (h.withTable (h.table.next p.nodeId hnode phase htime)).put hnode

theorem Peer.stepRecord (h : T.Peer sent addr p) {i : Nat} {node : Node} (hnode : T.Genuine node)
    {phase : RecordContact.Phase} {check : Option Nat} {st : Peer.RecordStep}
    (htime : ∀ env, st.env = some env → T.time env.stampedAt)
    (hdistinct : Rpc.Distinct (p.stepRecord i node phase check st).rpc.calls) :
    T.Peer sent addr (p.stepRecord i node phase check st) := by
  cases st with
  | contact env => exact h.lock hnode phase check htime
  | seen env => exact h.lock hnode phase check htime
  | evict env => exact h.lock hnode phase check htime
  | retry env => exact h.lock hnode phase check htime
  | check id =>
    simp only [System.Peer.stepRecord] at hdistinct ⊢
    split at hdistinct
    · refine (h.call _ ?_ hdistinct).put hnode
      trivial
    · exact h
  | checked =>
    simp only [System.Peer.stepRecord]
    split
    · exact h.put hnode
    · exact h.put hnode
    · exact h.put hnode
    · exact h

/-! ## `handle_request` -/

section Handle

variable {i : Nat} {message : RequestMessage} {fromAddr : SocketAddr}

/-- The response of a handler. -/
theorem Peer.reply (h : T.Peer sent addr p)
    (hmessage : { src := fromAddr, dst := addr, message := .request message } ∈ sent)
    (isNewContact sends : Bool) {response : ResponseMessage} (hanswers : T.Answers message response)
    (hsender : response.sender.addr = addr ∧ T.Genuine response.sender) :
    T.invariant.Keeps sent addr (p.reply i message fromAddr isNewContact sends response) := by
  have hput : ∀ phase, T.Peer sent addr (p.put i (.handleRequest message fromAddr phase)) :=
    fun phase => h.put hmessage
  unfold System.Peer.reply
  split_ifs
  · constructor
    · refine (hput _).others ?_
      intro dst request hmem
      simp [Exchange.post] at hmem
    · intro q hq
      obtain rfl := List.mem_singleton.mp hq
      exact ⟨hsender.1, hsender.2, message, List.mem_append_left _ hmessage, hanswers⟩
  · exact (hput _).silent

theorem Peer.respond (h : T.Peer sent addr p) (hsent : ∀ q ∈ sent, T.Message sent q)
    (hmessage : { src := fromAddr, dst := addr, message := .request message } ∈ sent)
    (isNewContact sends : Bool) (now : Instant) :
    T.invariant.Keeps sent addr (p.respond i message fromAddr isNewContact now sends) := by
  have hstores : T.Stores message := (hsent _ hmessage).2.2
  have hput : ∀ phase, T.Peer sent addr (p.put i (.handleRequest message fromAddr phase)) :=
    fun phase => h.put hmessage
  unfold System.Peer.respond
  split_ifs
  · exact (hput _).silent
  · have hstorage := storage_respond (s := p.handler) h.storage now hstores
    split
    · exact (hput _).silent
    · rename_i response s hrespond
      obtain ⟨hanswers, hsender⟩ := respond_trusted (s := p.handler) h.table h.storage hstores
        (congrArg Prod.fst hrespond)
      rw [hrespond] at hstorage
      refine (h.withStorage hstorage).reply hmessage isNewContact sends hanswers ?_
      rw [hsender]
      exact ⟨h.self, h.genuine.contact, trivial⟩

theorem Peer.stepHandle (h : T.Peer sent addr p) (hsent : ∀ q ∈ sent, T.Message sent q)
    (hmessage : { src := fromAddr, dst := addr, message := .request message } ∈ sent)
    {phase : HandlePhase} {st : Peer.HandleStep}
    (hdistinct : Rpc.Distinct (p.stepHandle i message fromAddr phase st).1.rpc.calls) :
    T.invariant.Keeps sent addr (p.stepHandle i message fromAddr phase st) := by
  have hput : ∀ phase, T.invariant.Keeps sent addr
      (p.put i (.handleRequest message fromAddr phase), []) := by
    intro phase
    refine (h.put ?_).silent
    exact hmessage
  cases st with
  | respond now sends =>
    simp only [System.Peer.stepHandle]
    split
    · split
      · exact h.respond hsent hmessage _ sends now
      · exact hput _
      · exact h.silent
    · exact h.silent
  | answer sends =>
    simp only [System.Peer.stepHandle]
    split
    · refine h.reply hmessage _ sends
        ⟨rfl, ?_, length_getClosest_le _ _ _, h.table.getClosest _ K⟩ ⟨h.self, h.genuine⟩
      intro v hv
      cases hv
    · exact h.silent
  | replicate keys =>
    simp only [System.Peer.stepHandle]
    split
    · split_ifs
      · exact hput _
      · exact h.silent
    · exact hput _
    · exact h.silent
  | choose =>
    simp only [System.Peer.stepHandle]
    split
    · exact hput _
    · split_ifs
      · exact hput _
      · exact hput _
    · exact h.silent
  | read now id =>
    simp only [System.Peer.stepHandle] at hdistinct ⊢
    split at hdistinct
    · split at hdistinct
      · rename_i hget
        refine (Peer.put (h.call _ ?_ hdistinct) ?_).silent
        · exact h.storage.get hget
        · exact hmessage
      · exact hput _
      · exact hput _
    · exact h.silent
  | next =>
    simp only [System.Peer.stepHandle]
    split
    · split
      · exact hput _
      · exact hput _
      · exact h.silent
    · exact h.silent

end Handle

/-! ## Stores -/

theorem Peer.stepStore (h : T.Peer sent addr p) {i : Nat} {direct : Bool} {key : NodeId}
    {value : Value} (hvalue : T.value key value) {phase : StorePhase} {st : Peer.StoreStep}
    (hdistinct : Rpc.Distinct (p.stepStore i direct key value phase st).rpc.calls) :
    T.Peer sent addr (p.stepStore i direct key value phase st) := by
  have hput : ∀ phase, T.Peer sent addr (p.put i (.store direct key value phase)) :=
    fun phase => h.put hvalue
  cases st with
  | write now =>
    simp only [System.Peer.stepStore]
    split
    · exact (h.withStorage (h.storage.store now hvalue)).put hvalue
    · exact h
  | select =>
    simp only [System.Peer.stepStore]
    split
    · exact hput _
    · exact hput _
    · exact h
  | send id =>
    cases phase with
    | sending nodes second =>
      cases nodes with
      | nil =>
        simp only [System.Peer.stepStore]
        split_ifs
        · exact hput _
        · exact hput _
      | cons node nodes =>
        simp only [System.Peer.stepStore] at hdistinct ⊢
        split_ifs at hdistinct ⊢
        · exact hput _
        · refine Peer.put (h.call node ?_ hdistinct) ?_
          · exact hvalue
          · exact hvalue
    | _ => exact h
  | next =>
    simp only [System.Peer.stepStore]
    split
    · split
      · exact hput _
      · exact hput _
      · exact hput _
      · exact h
    · exact h
  | lapse =>
    have hlapse : T.Peer sent addr
        (if direct = true then p.put i (.store direct key value .distributed) else p) := by
      split_ifs
      · exact hput _
      · exact h
    simp only [System.Peer.stepStore]
    split
    · exact hlapse
    · exact hlapse
    · exact hlapse
    · exact hlapse
    · exact h

theorem Peer.stepRepublish (h : T.Peer sent addr p) {i : Nat} {items : List (NodeId × Value)}
    (hitems : ∀ item ∈ items, T.value item.1 item.2) (storing : Option Nat)
    (st : Peer.RepublishStep) : T.Peer sent addr (p.stepRepublish i items storing st) := by
  cases st with
  | storeValue =>
    simp only [System.Peer.stepRepublish]
    split
    · rename_i key value items
      have hvalue : T.value key value := hitems (key, value) List.mem_cons_self
      refine Peer.put (h.spawn ?_) ?_
      · exact hvalue
      · intro item hitem
        exact hitems item (List.mem_cons_of_mem _ hitem)
    · exact h
  | next =>
    simp only [System.Peer.stepRepublish]
    split
    · exact h.put hitems
    · exact h

/-! ## Lookups -/

/-- The response to a query of a value lookup. -/
theorem Calls.valueReply {s : Rpc.State} (h : T.Calls sent addr s) {key : NodeId} {c : Nat}
    (hasks : Asks s.calls (.findValue key) c) {recorded : Bool} {reply : FindValue.Reply}
    (hreply : s.calls[c]?.bind (Peer.valueReply · recorded) = some reply) :
    T.ValueReply key reply := by
  obtain ⟨call, hcall, hrpc⟩ := hasks
  rw [hcall, Option.bind_some] at hreply
  intro value nodes hresult
  unfold Peer.valueReply at hreply
  split at hreply
  · rename_i message _ hmessage
    have hanswers := ((h.calls c call hcall).answered message hmessage).answers
    rw [hrpc] at hanswers
    obtain rfl := Option.some.inj hreply
    split_ifs at hresult
    · cases message with
      | valueFound id sender value' nodes' =>
        obtain ⟨rfl, rfl⟩ := Prod.mk.inj (Option.some.inj hresult)
        exact ⟨hanswers.2.1, hanswers.2.2.2⟩
      | _ => exact absurd hanswers id
    · cases hresult
  · obtain rfl := Option.some.inj hreply
    obtain ⟨rfl, rfl⟩ := Prod.mk.inj (Option.some.inj hresult)
    exact ⟨(fun v hv => by cases hv), nodes_nil⟩
  · obtain rfl := Option.some.inj hreply
    cases hresult
  · cases hreply

theorem Peer.advance (h : T.Peer sent addr p) {i : Nat} {key : NodeId} {phase : FindValue.Phase}
    (hphase : T.LookupPhase key phase) {queries : List Nat}
    (hqueries : ∀ c ∈ queries, Asks p.rpc.calls (.findValue key) c) {st : FindValue.Step}
    (hreply : ∀ reply, st = .await reply → T.ValueReply key reply) :
    T.Peer sent addr (p.advance i key phase queries st) := by
  obtain ⟨hstorage, hafter⟩ :=
    advance_trusted (s := p.lookup key phase) h.table h.storage hphase hreply
  have hkey : ((p.lookup key phase).advance st).key = key := (FindValue.advance_spec _ st).key
  exact (h.withStorage hstorage).put ⟨hafter, hqueries⟩

theorem Peer.stepLookup (h : T.Peer sent addr p) {i : Nat} {key : NodeId} {phase : FindValue.Phase}
    (hphase : T.LookupPhase key phase) {queries : List Nat}
    (hqueries : ∀ c ∈ queries, Asks p.rpc.calls (.findValue key) c) {st : Peer.LookupStep}
    (hdistinct : Rpc.Distinct (p.stepLookup i key phase queries st).rpc.calls) :
    T.Peer sent addr (p.stepLookup i key phase queries st) := by
  cases st with
  | check now => exact h.advance hphase hqueries fun reply heq => by cases heq
  | select => exact h.advance hphase hqueries fun reply heq => by cases heq
  | collect => exact h.advance hphase hqueries fun reply heq => by cases heq
  | cache now => exact h.advance hphase hqueries fun reply heq => by cases heq
  | query ids =>
    have hafter : T.LookupPhase key ((p.lookup key phase).advance .query).phase :=
      (advance_trusted (s := p.lookup key phase) h.table h.storage hphase
        fun reply heq => by cases heq).2
    simp only [System.Peer.stepLookup] at hdistinct ⊢
    split
    · rename_i hnext
      rw [hnext] at hafter hdistinct
      refine Peer.put (h.callEach ?_ hdistinct) ⟨hafter, ?_⟩
      · intro id
        trivial
      · intro c hc
        exact asks_nextCalls _ _ ids p hc
    · exact h.put ⟨hafter, hqueries⟩
  | await recorded =>
    cases queries with
    | nil => exact h
    | cons c rest =>
      simp only [System.Peer.stepLookup]
      split
      · exact h
      · rename_i reply hreply
        refine h.advance hphase (fun c' hc' => hqueries c' (List.mem_cons_of_mem _ hc')) ?_
        rintro _ ⟨⟩
        exact h.calls.valueReply (hqueries c List.mem_cons_self) hreply

theorem Calls.nodeReply {s : Rpc.State} (h : T.Calls sent addr s) {target : NodeId} {c : Nat}
    (hasks : Asks s.calls (.findNode target) c) {recorded : Except Error Unit}
    {reply : FindNode.Reply}
    (hreply : s.calls[c]?.bind (Peer.nodeReply · recorded) = some reply) {nodes : List Node}
    (hresult : reply.result = .ok nodes) : T.Nodes nodes := by
  obtain ⟨call, hcall, hrpc⟩ := hasks
  rw [hcall, Option.bind_some] at hreply
  unfold Peer.nodeReply at hreply
  split at hreply
  · rename_i message _ hmessage
    have hanswers := ((h.calls c call hcall).answered message hmessage).answers
    rw [hrpc] at hanswers
    split at hreply
    · obtain rfl := Option.some.inj hreply
      cases message with
      | nodesFound id sender nodes' =>
        obtain rfl := Except.ok.inj hresult
        exact hanswers.2.2
      | _ => exact absurd hanswers id
    · obtain rfl := Option.some.inj hreply
      cases hresult
  · obtain rfl := Option.some.inj hreply
    cases hresult
  · obtain rfl := Option.some.inj hreply
    cases hresult
  · obtain rfl := Option.some.inj hreply
    cases hresult
  · cases hreply

/-- The replies of a round are those to its queries. -/
theorem mem_nodeReplies {queries : List Nat} {recorded : Nat → Except Error Unit}
    {replies : List FindNode.Reply} (hreplies : p.nodeReplies recorded queries = some replies)
    {reply : FindNode.Reply} (hmem : reply ∈ replies) :
    ∃ c ∈ queries, ∃ result, p.rpc.calls[c]?.bind (Peer.nodeReply · result) = some reply := by
  induction queries generalizing recorded replies with
  | nil =>
    obtain rfl := Option.some.inj hreplies
    cases hmem
  | cons c rest ih =>
    rw [Peer.nodeReplies] at hreplies
    split at hreplies
    · rename_i first others hfirst hothers
      obtain rfl := Option.some.inj hreplies
      rcases List.mem_cons.mp hmem with rfl | hmem
      · exact ⟨c, List.mem_cons_self, recorded 0, hfirst⟩
      · obtain ⟨c', hc', hreply⟩ := ih hothers hmem
        exact ⟨c', List.mem_cons_of_mem _ hc', hreply⟩
    · cases hreplies

theorem Peer.stepSearch (h : T.Peer sent addr p) {i : Nat} {target : NodeId}
    {phase : System.SearchPhase} (hphase : T.SearchPhase p.rpc.calls target phase)
    {st : Peer.SearchStep}
    (hdistinct : Rpc.Distinct (p.stepSearch i target phase st).rpc.calls) :
    T.Peer sent addr (p.stepSearch i target phase st) := by
  cases st with
  | select =>
    simp only [System.Peer.stepSearch]
    split
    · exact h.put (h.table.getClosest target K)
    · exact h
  | query ids =>
    simp only [System.Peer.stepSearch] at hdistinct ⊢
    split at hdistinct
    · rename_i search
      split_ifs at hdistinct ⊢
      · refine Peer.put (h.callEach ?_ hdistinct) ⟨hphase, ?_⟩
        · intro id
          trivial
        · intro c hc
          exact asks_nextCalls _ _ ids p hc
      · exact h.put hphase
    · exact h
  | join recorded =>
    simp only [System.Peer.stepSearch]
    split
    · split
      · exact h
      · rename_i queries replies hreplies
        refine h.put (round_trusted hphase.1 target ?_)
        intro idx nodes hresult
        rcases hreply : replies[idx]? with _ | reply
        · rw [List.getD, hreply] at hresult
          cases hresult
        · rw [List.getD, hreply] at hresult
          obtain ⟨c, hc, result, hasked⟩ := mem_nodeReplies hreplies (List.mem_of_getElem? hreply)
          exact h.calls.nodeReply (hphase.2 c hc) hasked hresult
    · exact h

/-! ## `join` -/

theorem Peer.stepJoin (h : T.Peer sent addr p) {i : Nat} {bootstrapNode : Node}
    {phase : JoinPhase} {st : Peer.JoinStep}
    (hdistinct : Rpc.Distinct (p.stepJoin i bootstrapNode phase st).rpc.calls) :
    T.Peer sent addr (p.stepJoin i bootstrapNode phase st) := by
  have hput : ∀ phase, T.Peer sent addr (p.put i (.join bootstrapNode phase)) :=
    fun phase => h.put trivial
  cases st with
  | ping id =>
    simp only [System.Peer.stepJoin] at hdistinct ⊢
    split at hdistinct
    · split at hdistinct
      · refine Peer.put (h.call bootstrapNode ?_ hdistinct) trivial
        trivial
      · exact hput _
      · exact h
    · exact h
  | record recorded =>
    simp only [System.Peer.stepJoin]
    split
    · split
      · rename_i response _ hbind
        split_ifs
        · obtain ⟨call, hcall, hresponse⟩ := Option.bind_eq_some_iff.mp hbind
          have hanswered := (h.calls.calls _ call hcall).answered response hresponse
          refine Peer.put (h.spawn ?_) trivial
          exact hanswered.genuine
        · exact hput _
      · exact hput _
      · exact h
    · exact h
  | search =>
    simp only [System.Peer.stepJoin]
    split
    · split
      · refine Peer.put (h.spawn ?_) trivial
        trivial
      · exact hput _
      · exact h
    · exact h
  | done =>
    simp only [System.Peer.stepJoin]
    split
    · split
      · exact hput _
      · exact h
    · exact h

end Trust

end System

end Kademlia
