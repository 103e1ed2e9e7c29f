import Kademlia.System.Trust

/-!
# Responses and the calls they belong to

A response travels under the identifier of its request and says nothing of what was asked.
With identifiers that the node draws once only, a response that comes in has been sent for the
very call that it is handed to: the packet with the request is on record, and no other call of
the node could have sent it.
-/

namespace Kademlia

open Lib

namespace Rpc

variable {kind : Transport.Kind} {s s' : State} {call call' : Call} {st : Step}

theorem Moves.rpc_eq (h : Moves kind s call st s' call') : call'.rpc = call.rpc := by
  cases h with
  | wait st hphase =>
    rcases afterWait_cases call _ (OpenTransport.step kind s.transport (.event (st.event _)))
      with ⟨id, reply, -, heq⟩ | ⟨error, -, heq⟩ | heq
    · rw [heq]
    · rw [heq]
    · rw [heq]
  | _ => rfl

theorem Moves.node_eq (h : Moves kind s call st s' call') : call'.node = call.node := by
  cases h with
  | wait st hphase =>
    rcases afterWait_cases call _ (OpenTransport.step kind s.transport (.event (st.event _)))
      with ⟨id, reply, -, heq⟩ | ⟨error, -, heq⟩ | heq
    · rw [heq]
    · rw [heq]
    · rw [heq]
  | _ => rfl

theorem Moves.localNode_eq (h : Moves kind s call st s' call') : s'.localNode = s.localNode := by
  cases h <;> rfl

/-- A step of a call delivers no response. -/
theorem Moves.transport_quiet (h : Moves kind s call st s' call') :
    s'.transport = s.transport ∨ ∃ input, OpenTransport.delivers kind s.transport input = none ∧
      s'.transport = OpenTransport.step kind s.transport input := by
  cases h with
  | send hphase => exact .inr ⟨.event (.send call.id), rfl, rfl⟩
  | wait st hphase =>
    refine .inr ⟨.event (st.event _), ?_, rfl⟩
    cases st <;> rfl
  | lapse hphase => exact .inr ⟨.drop _, rfl, rfl⟩
  | dropWaiting hphase => exact .inr ⟨.drop _, rfl, rfl⟩
  | _ => exact .inl rfl

theorem Moves.holds (h : Moves kind s call st s' call') {w : Nat} {waiting : Transport.Call}
    {reply : Transport.Reply} (hwaiting : s'.transport.calls[w]? = some waiting)
    (hholds : waiting.Holds reply) :
    ∃ before, s.transport.calls[w]? = some before ∧ before.Holds reply := by
  rcases h.transport_quiet with heq | ⟨input, hquiet, heq⟩
  · rw [heq] at hwaiting
    exact ⟨waiting, hwaiting, hholds⟩
  · rw [heq] at hwaiting
    rcases OpenTransport.holds_cases hwaiting hholds with ⟨before, hbefore, -, hheld⟩ | ⟨hsome, -⟩
    · exact ⟨before, hbefore, hheld⟩
    · rw [hquiet] at hsome
      cases hsome

theorem Moves.matched (h : Moves kind s call st s' call')
    (hregistered : Transport.Registered s.transport) (hmatched : OpenTransport.Matched s.transport) :
    OpenTransport.Matched s'.transport := by
  rcases h.transport_quiet with heq | ⟨input, -, heq⟩
  · rw [heq]
    exact hmatched
  · rw [heq]
    exact OpenTransport.matched_step hregistered hmatched kind input

/-- A step changes the response of a call only when its wait has returned it. -/
theorem Moves.response_cases (h : Moves kind s call st s' call') :
    call'.response = call.response ∨ ∃ wait id reply, call.phase = .waiting wait ∧
      s'.transport.calls[wait]? = some { requestId := id, phase := .returned (.ok reply) } ∧
      call'.response = some reply.message := by
  cases h with
  | @wait wait st hphase =>
    rcases afterWait_cases call wait (OpenTransport.step kind s.transport (.event (st.event wait)))
      with ⟨id, reply, hreturned, heq⟩ | ⟨error, -, heq⟩ | heq
    · rw [heq]
      exact .inr ⟨wait, id, reply, hphase, hreturned, rfl⟩
    · rw [heq]
      exact .inl rfl
    · rw [heq]
      exact .inl rfl
  | _ => exact .inl rfl

/-- The request of the call has not gone out. -/
def Phase.Unsent : Phase → Prop
  | drawn | inserted | timed _ _ => True
  | _ => False

/-- A request that has gone out stays out. -/
theorem Moves.unsent (h : Moves kind s call st s' call') (hunsent : call'.phase.Unsent) :
    call.phase.Unsent := by
  cases h with
  | stay st => exact hunsent
  | insert hphase => exact hphase ▸ trivial
  | time outer inner hphase => exact hphase ▸ trivial
  | wait st hphase =>
    rcases afterWait_cases call _ (OpenTransport.step kind s.transport (.event (st.event _)))
      with ⟨id, reply, -, heq⟩ | ⟨error, -, heq⟩ | heq
    · rw [heq] at hunsent
      exact absurd hunsent not_false
    · rw [heq] at hunsent
      exact absurd hunsent not_false
    · rwa [heq] at hunsent
  | _ => exact absurd hunsent not_false

/-- Two calls of a node never have the same identifier. -/
def Distinct (calls : List Call) : Prop :=
  ∀ (c c' : Nat) (call call' : Call), calls[c]? = some call → calls[c']? = some call' →
    call.id = call'.id → c = c'

theorem Distinct.of_append {calls new : List Call} (h : Distinct (calls ++ new)) :
    Distinct calls := by
  intro c c' before before' hbefore hbefore' hid
  refine h c c' before before' ?_ ?_ hid
  · rw [List.getElem?_append_left (List.getElem?_eq_some_iff.mp hbefore).1, hbefore]
  · rw [List.getElem?_append_left (List.getElem?_eq_some_iff.mp hbefore').1, hbefore']

theorem distinct_iff_nodup {calls : List Call} : Distinct calls ↔ (calls.map Call.id).Nodup := by
  rw [List.nodup_iff_getElem?_ne_getElem?]
  constructor
  · intro h i j hij hj heq
    rw [List.length_map] at hj
    have hi : i < calls.length := hij.trans hj
    rw [List.getElem?_map, List.getElem?_map, List.getElem?_eq_getElem hi,
      List.getElem?_eq_getElem hj] at heq
    have hsame := h i j _ _ (List.getElem?_eq_getElem hi) (List.getElem?_eq_getElem hj)
      (Option.some.inj heq)
    exact hij.ne hsame
  · intro h i j call call' hcall hcall' hid
    by_contra hne
    have hi := (List.getElem?_eq_some_iff.mp hcall).1
    have hj := (List.getElem?_eq_some_iff.mp hcall').1
    have heq : (calls.map Call.id)[i]? = (calls.map Call.id)[j]? := by
      rw [List.getElem?_map, List.getElem?_map, hcall, hcall', Option.map_some, Option.map_some,
        hid]
    rcases Nat.lt_or_gt_of_ne hne with hlt | hlt
    · exact h i j hlt (by rwa [List.length_map]) heq
    · exact h j i hlt (by rwa [List.length_map]) heq.symm

instance (calls : List Call) : Decidable (Distinct calls) :=
  decidable_of_iff _ distinct_iff_nodup.symm

/-- A call that leaves the identifiers distinct has drawn a new one. -/
theorem id_ne_of_distinct {calls : List Call} (h : Distinct (calls ++ [call])) (c : Nat)
    (before : Call) (hbefore : calls[c]? = some before) : before.id ≠ call.id := by
  intro hid
  have hlt := (List.getElem?_eq_some_iff.mp hbefore).1
  have hc := h c calls.length before call (getElem?_concat_of_some hbefore _)
    List.getElem?_concat_length hid
  omega

def Step.env : Step → Option Env
  | .record env _ | .finish env => some env
  | _ => none

/-- The operations of a call have the surroundings of the step that makes them, and none inserts a
contact. -/
theorem mem_ops {rpc : Rpc} {env : Env} {node : Node} (responseTimeMs : UInt64) {op : TableOp}
    (h : op ∈ rpc.recordSuccess env node responseTimeMs ∨ op ∈ rpc.recordFailure env node ∨
      op ∈ rpc.nodeSeen env node) :
    some env = some op.env ∧ ∀ env' node', op ≠ .update env' node' := by
  have hop : op = .recordSuccess env node.id responseTimeMs ∨ op = .recordFailure env node.id ∨
      op = .nodeSeen env node.id := by
    cases rpc <;> simp [recordSuccess, recordFailure, nodeSeen] at h <;> grind
  rcases hop with rfl | rfl | rfl
  all_goals
    refine ⟨rfl, ?_⟩
    intro env' node' heq
    cases heq

/-- The bookkeeping of a call inserts no contact. -/
theorem step_table (kind : Transport.Kind) (s : State) (c : Nat) (st : Step) :
    ∃ ops, (step kind s (.step c st)).table = run RoutingTable.step s.table ops ∧
      ∀ op ∈ ops, st.env = some op.env ∧ ∀ env node, op ≠ .update env node := by
  have hnone : ∃ ops, s.table = run RoutingTable.step s.table ops ∧
      ∀ op ∈ ops, st.env = some op.env ∧ ∀ env node, op ≠ .update env node :=
    ⟨[], rfl, fun op h => by cases h⟩
  rw [step]
  split
  · exact hnone
  · rename_i call hcall
    unfold State.advance
    split
    any_goals exact hnone
    · split <;> exact hnone
    · exact ⟨_, rfl, fun op hop => mem_ops _ (.inl hop)⟩
    · exact ⟨_, rfl, fun op hop => mem_ops 0 (.inr (.inl hop))⟩
    · exact ⟨_, rfl, fun op hop => mem_ops 0 (.inr (.inr hop))⟩
    · unfold State.dropCall
      split <;> exact hnone

end Rpc

namespace System

abbrev Packets : Type := List (Packet SocketAddr KademliaMessage)

namespace Trust

variable (T : Trust)

/-- A request names the node that has sent it.  A response does so too, and answers a request
that was sent the other way. -/
def Message (sent : Packets) (p : Packet SocketAddr KademliaMessage) : Prop :=
  match p.message with
  | .request message => message.sender.addr = p.src ∧ T.Genuine message.sender ∧ T.Stores message
  | .response message =>
    message.sender.addr = p.src ∧ T.Genuine message.sender ∧
      ∃ request, { src := p.dst, dst := p.src, message := .request request } ∈ sent ∧
        T.Answers request message

/-- A response answers the request of a call and has come from the node that was asked. -/
structure Answered (sent : Packets) (addr : SocketAddr) (localNode : Node) (call : Rpc.Call)
    (message : ResponseMessage) : Prop where
  sender : message.sender.addr = call.node.addr
  genuine : T.Genuine message.sender
  answers : T.Answers (call.rpc.request call.id localNode) message
  request : { src := addr, dst := call.node.addr,
              message := .request (call.rpc.request call.id localNode) } ∈ sent
  response : { src := call.node.addr, dst := addr, message := .response message } ∈ sent

/-- A call stores a value that is one for its key, and its response answers it. -/
structure Call (sent : Packets) (addr : SocketAddr) (localNode : Node) (call : Rpc.Call) :
    Prop where
  stores : T.Stores (call.rpc.request call.id localNode)
  answered : ∀ message, call.response = some message →
    T.Answered sent addr localNode call message

/-- The packet with the request of a call, which has gone out. -/
def Carries (localNode : Node) (call : Rpc.Call) (dst : SocketAddr) (request : RequestMessage) :
    Prop :=
  call.node.addr = dst ∧ call.rpc.request call.id localNode = request ∧ ¬ call.phase.Unsent

/-- The identifiers of the requests that have been sent from an address, in order. -/
def requestIds (addr : SocketAddr) (sent : Packets) : List MessageId :=
  sent.filterMap fun p =>
    match p.message with
    | .request message => if p.src = addr then some message.id else none
    | .response _ => none

/-- The calls of the node at an address. -/
structure Calls (sent : Packets) (addr : SocketAddr) (s : Rpc.State) : Prop where
  kept : Rpc.Kept s
  matched : OpenTransport.Matched s.transport
  arrived : ∀ (w : Nat) (waiting : Transport.Call) (reply : Transport.Reply),
    s.transport.calls[w]? = some waiting → waiting.Holds reply →
    ∃ src, { src := src, dst := addr, message := .response reply.message } ∈ sent
  requests : ∀ dst request, { src := addr, dst := dst, message := .request request } ∈ sent →
    ∃ (c : Nat) (call : Rpc.Call), s.calls[c]? = some call ∧ Carries s.localNode call dst request
  once : (requestIds addr sent).Nodup
  calls : ∀ (c : Nat) (call : Rpc.Call), s.calls[c]? = some call →
    T.Call sent addr s.localNode call

variable {T} {sent : Packets} {addr : SocketAddr} {s : Rpc.State}

theorem request_id (rpc : Rpc) (id : MessageId) (localNode : Node) :
    (rpc.request id localNode).id = id := by
  cases rpc <;> rfl

theorem request_sender (rpc : Rpc) (id : MessageId) (localNode : Node) :
    (rpc.request id localNode).sender = localNode := by
  cases rpc <;> rfl

theorem mem_requestIds {id : MessageId} :
    id ∈ requestIds addr sent ↔
      ∃ dst request, { src := addr, dst := dst, message := .request request } ∈ sent ∧
        request.id = id := by
  rw [requestIds, List.mem_filterMap]
  constructor
  · rintro ⟨⟨src, dst, message⟩, hmem, hid⟩
    cases message with
    | request message =>
      dsimp only at hid
      split_ifs at hid with hsrc
      subst hsrc
      exact ⟨dst, message, hmem, Option.some.inj hid⟩
    | response message => cases hid
  · rintro ⟨dst, request, hmem, hid⟩
    refine ⟨_, hmem, ?_⟩
    dsimp only
    rw [if_pos rfl, hid]

theorem requestIds_append (new : Packets) :
    requestIds addr (sent ++ new) = requestIds addr sent ++ requestIds addr new :=
  List.filterMap_append

theorem requestIds_eq_nil {new : Packets}
    (hnew : ∀ dst request, { src := addr, dst := dst, message := .request request } ∉ new) :
    requestIds addr new = [] := by
  rw [List.eq_nil_iff_forall_not_mem]
  intro id hid
  obtain ⟨dst, request, hmem, -⟩ := mem_requestIds.mp hid
  exact hnew dst request hmem

theorem message_append {new : Packets} {p : Packet SocketAddr KademliaMessage}
    (h : T.Message sent p) : T.Message (sent ++ new) p := by
  obtain ⟨src, dst, message⟩ := p
  cases message with
  | request message => exact h
  | response message =>
    obtain ⟨haddr, hgenuine, request, hrequest, hanswers⟩ := h
    exact ⟨haddr, hgenuine, request, List.mem_append_left _ hrequest, hanswers⟩

theorem calls_start (localNode : Node) (table : RoutingTable)
    (hsilent : ∀ p ∈ sent, p.src ≠ addr) : T.Calls sent addr (Rpc.start localNode table) where
  kept := Rpc.kept_start localNode table
  matched := fun _ _ _ h => nomatch h
  arrived := fun _ _ _ h => nomatch h
  requests := fun _ _ h => absurd rfl (hsilent _ h)
  once := by
    rw [requestIds_eq_nil fun dst request h => absurd rfl (hsilent _ h)]
    exact List.nodup_nil
  calls := fun _ _ h => nomatch h

theorem Answered.of_call {localNode : Node} {call call' : Rpc.Call} {message : ResponseMessage}
    (hrpc : call'.rpc = call.rpc) (hid : call'.id = call.id) (hnode : call'.node = call.node)
    (h : T.Answered sent addr localNode call message) :
    T.Answered sent addr localNode call' message where
  sender := by
    rw [hnode]
    exact h.sender
  genuine := h.genuine
  answers := by
    rw [hrpc, hid]
    exact h.answers
  request := by
    rw [hrpc, hid, hnode]
    exact h.request
  response := by
    rw [hnode]
    exact h.response

theorem Call.append {localNode : Node} {call : Rpc.Call} (h : T.Call sent addr localNode call)
    (new : Packets) : T.Call (sent ++ new) addr localNode call where
  stores := h.stores
  answered := by
    intro message hmessage
    have hanswered := h.answered message hmessage
    exact { hanswered with
      request := List.mem_append_left _ hanswered.request
      response := List.mem_append_left _ hanswered.response }

/-- More packets on record, of which those from here carry requests of its calls. -/
theorem Calls.append (h : T.Calls sent addr s) {new : Packets}
    (hnew : ∀ dst request, { src := addr, dst := dst, message := .request request } ∈ new →
      ∃ (c : Nat) (call : Rpc.Call), s.calls[c]? = some call ∧
        Carries s.localNode call dst request)
    (honce : (requestIds addr (sent ++ new)).Nodup) : T.Calls (sent ++ new) addr s where
  kept := h.kept
  matched := h.matched
  arrived := by
    intro w waiting reply hwaiting hholds
    obtain ⟨src, hmem⟩ := h.arrived w waiting reply hwaiting hholds
    exact ⟨src, List.mem_append_left _ hmem⟩
  requests := by
    intro dst request hmem
    rcases List.mem_append.mp hmem with hold | hnewer
    · exact h.requests dst request hold
    · exact hnew dst request hnewer
  once := honce
  calls := fun c call hcall => (h.calls c call hcall).append new

theorem Calls.withTable (h : T.Calls sent addr s) (table : RoutingTable) :
    T.Calls sent addr { s with table := table } where
  kept :=
    { distinct := h.kept.distinct
      transport := h.kept.transport
      single := h.kept.single
      owned := h.kept.owned
      requested := h.kept.requested
      tracked := fun c call hcall => (h.kept.tracked c call hcall).of_maps rfl rfl }
  matched := h.matched
  arrived := h.arrived
  requests := h.requests
  once := h.once
  calls := h.calls

theorem Calls.call (h : T.Calls sent addr s) (kind : Transport.Kind) {rpc : Rpc} (node : Node)
    {id : MessageId} (hstores : T.Stores (rpc.request id s.localNode))
    (hnew : ∀ (c : Nat) (call : Rpc.Call), s.calls[c]? = some call → call.id ≠ id) :
    T.Calls sent addr (Rpc.step kind s (.call rpc node id)) where
  kept := Rpc.kept_call h.kept hnew kind
  matched := h.matched
  arrived := h.arrived
  requests := by
    intro dst request hmem
    obtain ⟨c, call, hcall, hcarries⟩ := h.requests dst request hmem
    exact ⟨c, call, getElem?_concat_of_some hcall _, hcarries⟩
  once := h.once
  calls := by
    intro c call hcall
    rcases getElem?_concat_slot hcall with hold | ⟨-, rfl⟩
    · exact h.calls c call hold
    · exact ⟨hstores, fun message hmessage => nomatch hmessage⟩

theorem Calls.incoming (h : T.Calls sent addr s) (kind : Transport.Kind) {src : SocketAddr}
    {message : ResponseMessage}
    (hmem : { src := src, dst := addr, message := .response message } ∈ sent) :
    T.Calls sent addr (Rpc.step kind s (.incoming message)) where
  kept := Rpc.kept_incoming h.kept kind message
  matched := OpenTransport.matched_step h.kept.transport h.matched kind _
  arrived := by
    intro w waiting reply hwaiting hholds
    rcases OpenTransport.holds_cases hwaiting hholds with ⟨before, hbefore, -, hheld⟩ | ⟨hsome, -⟩
    · exact h.arrived w before reply hbefore hheld
    · obtain rfl := Option.some.inj hsome
      exact ⟨src, hmem⟩
  requests := h.requests
  once := h.once
  calls := h.calls

/-- A call whose request has not gone out is not on record. -/
theorem Calls.unsent (h : T.Calls sent addr s) {c : Nat} {call : Rpc.Call}
    (hcall : s.calls[c]? = some call) (hunsent : call.phase.Unsent) :
    call.id ∉ requestIds addr sent := by
  intro hmem
  obtain ⟨dst, request, hrequest, hid⟩ := mem_requestIds.mp hmem
  obtain ⟨c', call', hcall', -, hcarries, hsent⟩ := h.requests dst request hrequest
  have hsame : call'.id = call.id := by
    rw [← hid, ← hcarries, request_id]
  obtain rfl := h.kept.distinct c' c call' call hcall' hcall hsame
  obtain rfl : call = call' := Option.some.inj (hcall.symm.trans hcall')
  exact hsent hunsent

theorem Calls.once_send (h : T.Calls sent addr s) {c : Nat} {call : Rpc.Call}
    (hcall : s.calls[c]? = some call) (hunsent : call.phase.Unsent) (dst : SocketAddr)
    (localNode : Node) :
    (requestIds addr (sent ++ Exchange.post addr
      [(dst, .request (call.rpc.request call.id localNode))])).Nodup := by
  have hids : requestIds addr (Exchange.post addr
      [(dst, .request (call.rpc.request call.id localNode))]) = [call.id] := by
    simp [requestIds, Exchange.post, request_id]
  rw [requestIds_append, hids, ← List.concat_eq_append]
  exact h.once.concat (h.unsent hcall hunsent)

/-- A response that has come in under the identifier of a call answers the request of that
call. -/
theorem Calls.answered (h : T.Calls sent addr s) (hsent : ∀ p ∈ sent, T.Message sent p) {c : Nat}
    {call : Rpc.Call} (hcall : s.calls[c]? = some call) {src : SocketAddr}
    {message : ResponseMessage}
    (hmem : { src := src, dst := addr, message := .response message } ∈ sent)
    (hid : message.requestId = call.id) : T.Answered sent addr s.localNode call message := by
  obtain ⟨haddr, hgenuine, request, hrequest, hanswers⟩ := hsent _ hmem
  obtain ⟨c', call', hcall', hdst, hcarries, -⟩ := h.requests src request hrequest
  have hsame : call'.id = call.id := by
    rw [← hid, hanswers.requestId, ← hcarries, request_id]
  obtain rfl := h.kept.distinct c' c call' call hcall' hcall hsame
  obtain rfl : call = call' := Option.some.inj (hcall.symm.trans hcall')
  subst hdst hcarries
  exact
    { sender := haddr
      genuine := hgenuine
      answers := hanswers
      request := hrequest
      response := hmem }

theorem Calls.moves (h : T.Calls sent addr s) (hsent : ∀ p ∈ sent, T.Message sent p)
    {kind : Transport.Kind} {s' : Rpc.State} {c : Nat} {call call' : Rpc.Call} {st : Rpc.Step}
    (hcall : s.calls[c]? = some call) (hmoves : Rpc.Moves kind s call st s' call') :
    T.Calls sent addr (s'.put c call') where
  kept := Rpc.kept_moves h.kept hcall hmoves
  matched := hmoves.matched h.kept.transport h.matched
  arrived := by
    intro w waiting reply hwaiting hholds
    obtain ⟨before, hbefore, hheld⟩ := hmoves.holds hwaiting hholds
    exact h.arrived w before reply hbefore hheld
  requests := by
    intro dst request hmem
    obtain ⟨c', before, hbefore, hcarries⟩ := h.requests dst request hmem
    have hslot : s'.calls[c]? = some call := hmoves.calls_eq ▸ hcall
    show ∃ c' found, (s'.calls.set c call')[c']? = some found ∧ Carries s'.localNode found _ _
    rw [hmoves.localNode_eq]
    by_cases hc : c = c'
    · subst hc
      obtain rfl : call = before := Option.some.inj (hcall.symm.trans hbefore)
      refine ⟨c, call', by rw [getElem?_set_slot hslot, if_pos rfl], ?_⟩
      rw [Carries, hmoves.node_eq, hmoves.rpc_eq, hmoves.id_eq]
      exact ⟨hcarries.1, hcarries.2.1, fun hunsent => hcarries.2.2 (hmoves.unsent hunsent)⟩
    · refine ⟨c', before, ?_, hcarries⟩
      rw [getElem?_set_slot hslot, if_neg hc, hmoves.calls_eq, hbefore]
  once := h.once
  calls := by
    intro c' found hfound
    have hlocal : (s'.put c call').localNode = s.localNode := hmoves.localNode_eq
    rw [hlocal]
    obtain ⟨before, hbefore, -, ⟨rfl, rfl⟩ | ⟨-, rfl⟩⟩ := hmoves.call_before hcall hfound
    · obtain rfl : call = before := Option.some.inj (hcall.symm.trans hbefore)
      have hold := h.calls c call hcall
      constructor
      · rw [hmoves.rpc_eq, hmoves.id_eq]
        exact hold.stores
      · intro message hmessage
        refine Answered.of_call hmoves.rpc_eq hmoves.id_eq hmoves.node_eq ?_
        rcases hmoves.response_cases with hsame | ⟨wait, id, reply, hwait, hreturned, hresponse⟩
        · exact hold.answered message (hsame.symm.trans hmessage)
        · obtain rfl : reply.message = message :=
            Option.some.inj (hresponse.symm.trans hmessage)
          obtain ⟨held, hheld, hholds⟩ := hmoves.holds hreturned (.inr rfl)
          obtain ⟨src, hmem⟩ := h.arrived wait held reply hheld hholds
          have hid : reply.message.requestId = call.id := by
            obtain ⟨waiting, hwaiting, hsame⟩ := (h.kept.tracked c call hcall).waits wait hwait
            obtain rfl : held = waiting := Option.some.inj (hheld.symm.trans hwaiting)
            rw [← hsame]
            exact h.matched wait held reply hheld hholds
          exact h.answered hsent hcall hmem hid
    · exact h.calls c' found hbefore

/-- Any step of a call. -/
theorem Calls.step (h : T.Calls sent addr s) (hsent : ∀ p ∈ sent, T.Message sent p)
    (kind : Transport.Kind) (c : Nat) (st : Rpc.Step) :
    T.Calls sent addr (Rpc.step kind s (.step c st)) := by
  rcases Rpc.step_moves kind s c st with ⟨-, heq⟩ | ⟨call, s', call', hcall, hmoves, heq⟩
  · rw [heq]
    exact h
  · rw [heq]
    exact h.moves hsent hcall hmoves

end Trust

end System

end Kademlia
