import Kademlia.Protocol.FindValue

/-!
# Distributing a value

`Node::store` hands the value to `store_value`, which puts it into the storage and sends it
to the nodes closest to the key.  It then sends the value once more to every node of the
table, whatever `store_value` has returned.  A value that the storage rejects is not sent by
the first loop, since the error ends `store_value` there, but it is sent by the second one.

The storage is any implementation of the trait.  What a call of `Protocol::store` comes to
under the timeout around it is given with the call.
-/

namespace Kademlia

open Lib

/-- The part of the `Storage` trait that a store uses.  A store that returns an error changes
nothing. -/
class Storage (σ : Type) where
  store : σ → Instant → NodeId → Value → Except Error Unit × σ
  unchanged : ∀ s now key value error, (store s now key value).1 = .error error →
    (store s now key value).2 = s

namespace Distribution

variable {σ : Type}

structure State (σ : Type) where
  nodeId : NodeId
  addr : SocketAddr
  table : RoutingTable
  storage : σ

def State.localNode (s : State σ) : Node := Node.new s.nodeId s.addr

/-- What comes of a call of `Protocol::store` under the timeout around it: whether its request
is sent, the operations that it makes on the table, and the panic that ends it. -/
structure CallInput where
  id : MessageId
  sends : Bool
  bookkeeping : List TableOp
  panic : Option String

/-- The result of an operation, the requests that it has sent, each with the address that it
went to, and the state after it. -/
structure Ended (σ : Type) where
  result : Outcome Unit
  sent : List (SocketAddr × RequestMessage)
  state : State σ

/-- One call of `Protocol::store`.  Its errors are logged, and only a panic goes on. -/
def State.storeOn (s : State σ) (key : NodeId) (value : Value) (node : Node) (input : CallInput) :
    Ended σ :=
  { result := match input.panic with
      | some message => .error (.panic message)
      | none => .ok ()
    sent := if input.sends then [(node.addr, .store input.id s.localNode key value)] else []
    state := { s with table := run RoutingTable.step s.table input.bookkeeping } }

/-- The loop over the nodes, which leaves out the own one.  `inputs` are those of the calls, by
position. -/
def State.sendStores (key : NodeId) (value : Value) :
    List Node → (Nat → CallInput) → State σ → Ended σ
  | [], _, s => { result := .ok (), sent := [], state := s }
  | node :: rest, inputs, s =>
    if node.id = s.nodeId then State.sendStores key value rest (fun i => inputs (i + 1)) s
    else
      let first := s.storeOn key value node (inputs 0)
      match first.result with
      | .error _ => first
      | .ok _ =>
        let others := State.sendStores key value rest (fun i => inputs (i + 1)) first.state
        { others with sent := first.sent ++ others.sent }

/-- When the timeout around `store_value` elapses: not at all, while it waits for the storage,
or after some of its calls. -/
inductive Lapse where
  | never
  | beforeStore
  | afterCalls (calls : Nat)
deriving DecidableEq

/-- The nodes that `store_value` comes to. -/
def Lapse.reached (nodes : List Node) : Lapse → List Node
  | never => nodes
  | beforeStore => []
  | afterCalls calls => nodes.take calls

/-- `store_value` under the timeout of `Node::store`, which goes on with `Ok` after it. -/
def State.storeValue [Storage σ] (s : State σ) (now : Instant) (key : NodeId) (value : Value)
    (inputs : Nat → CallInput) (lapse : Lapse) : Ended σ :=
  if lapse = .beforeStore then { result := .ok (), sent := [], state := s }
  else
    match Storage.store s.storage now key value with
    | (.error error, storage) =>
      { result := .error (.err error), sent := [], state := { s with storage := storage } }
    | (.ok _, storage) =>
      State.sendStores key value (lapse.reached (FindValue.firstNodes s.table key)) inputs
        { s with storage := storage }

/-- What a store reads from its surroundings.  `meanwhile` are the operations of others on the
table before the second loop. -/
structure Input where
  now : Instant
  lapse : Lapse
  closest : Nat → CallInput
  meanwhile : List TableOp
  direct : Nat → CallInput

/-- The second loop, over the nodes that are in the table by then. -/
def State.sendDirect (s : State σ) (key : NodeId) (value : Value) (input : Input) : Ended σ :=
  let s := { s with table := run RoutingTable.step s.table input.meanwhile }
  State.sendStores key value s.table.getAllNodes input.direct s

/-- `Node::store`. -/
def State.store [Storage σ] (s : State σ) (key : List UInt8) (value : Value) (input : Input) :
    Ended σ :=
  let keyId := NodeId.fromBytes key
  let stored := s.storeValue input.now keyId value input.closest input.lapse
  match stored.result with
  | .error (.panic _) => stored
  | result =>
    let direct := stored.state.sendDirect keyId value input
    { result := match direct.result with
        | .error fault => .error fault
        | .ok _ => result
      sent := stored.sent ++ direct.sent
      state := direct.state }

/-- The request stores a value under the key. -/
def StoresKey (key : NodeId) : RequestMessage → Prop
  | .store _ _ key' _ => key' = key
  | _ => False

/-- Nothing was sent for the key if the operation has returned an error. -/
def Undistributed (key : NodeId) (ended : Ended σ) : Prop :=
  (∃ error, ended.result = .error (.err error)) →
    ∀ request ∈ ended.sent, ¬ StoresKey key request.2

/-- The storage is asked before the timeout and rejects the value. -/
def Rejected [Storage σ] (s : State σ) (key : NodeId) (value : Value) (input : Input) : Prop :=
  input.lapse ≠ .beforeStore ∧
    ∃ error, (Storage.store s.storage input.now key value).1 = .error error

/-- Some call of the loop satisfies `P`. -/
def SomeCall (nodeId : NodeId) (nodes : List Node) (inputs : Nat → CallInput)
    (P : CallInput → Prop) : Prop :=
  ∃ i node, nodes[i]? = some node ∧ node.id ≠ nodeId ∧ P (inputs i)

/-- The nodes of the second loop when `store_value` has not changed the table. -/
def State.directNodes (s : State σ) (input : Input) : List Node :=
  (run RoutingTable.step s.table input.meanwhile).getAllNodes

/-! ## The loop -/

section Loop

variable {nodeId key : NodeId} {value : Value} {node : Node} {nodes rest : List Node}
  {inputs : Nat → CallInput} {s : State σ}

theorem someCall_nil {P : CallInput → Prop} : ¬ SomeCall nodeId [] inputs P := by
  rintro ⟨i, node, hnode, -⟩
  cases hnode

theorem someCall_cons {P : CallInput → Prop} :
    SomeCall nodeId (node :: rest) inputs P ↔
      node.id ≠ nodeId ∧ P (inputs 0) ∨ SomeCall nodeId rest (fun i => inputs (i + 1)) P := by
  constructor
  · rintro ⟨i, found, hfound, hother, hP⟩
    cases i with
    | zero =>
      obtain rfl := Option.some.inj hfound
      exact .inl ⟨hother, hP⟩
    | succ i => exact .inr ⟨i, found, hfound, hother, hP⟩
  · rintro (⟨hother, hP⟩ | ⟨i, found, hfound, hother, hP⟩)
    · exact ⟨0, node, rfl, hother, hP⟩
    · exact ⟨i + 1, found, hfound, hother, hP⟩

/-- What the loop over the nodes does: it ends in a panic when some call does, and otherwise
it has sent a request when some call has. -/
structure LoopSpec (key nodeId : NodeId) (nodes : List Node) (inputs : Nat → CallInput)
    (ended : Ended σ) : Prop where
  noError : ∀ error, ended.result ≠ .error (.err error)
  panics : ended.result ≠ .ok () ↔ SomeCall nodeId nodes inputs fun input => input.panic ≠ none
  stores : ∀ request ∈ ended.sent, StoresKey key request.2
  sends : ended.result = .ok () →
    (ended.sent ≠ [] ↔ SomeCall nodeId nodes inputs fun input => input.sends = true)

theorem LoopSpec.skip {ended : Ended σ} (hown : node.id = nodeId)
    (h : LoopSpec key nodeId rest (fun i => inputs (i + 1)) ended) :
    LoopSpec key nodeId (node :: rest) inputs ended := by
  have hskip : ∀ P : CallInput → Prop, SomeCall nodeId (node :: rest) inputs P ↔
      SomeCall nodeId rest (fun i => inputs (i + 1)) P := by
    intro P
    rw [someCall_cons]
    simp [hown]
  exact ⟨h.noError, h.panics.trans (hskip _).symm, h.stores,
    fun hok => (h.sends hok).trans (hskip _).symm⟩

theorem storesKey_of_storeOn {input : CallInput} {request : SocketAddr × RequestMessage}
    (h : request ∈ (s.storeOn key value node input).sent) : StoresKey key request.2 := by
  unfold State.storeOn at h
  dsimp only at h
  split_ifs at h
  · rw [List.mem_singleton.mp h]
    exact rfl
  · cases h

/-- A call that panics is the last one. -/
theorem LoopSpec.panicked {message : String} (hother : node.id ≠ nodeId)
    (hpanic : (inputs 0).panic = some message) :
    LoopSpec key nodeId (node :: rest) inputs (s.storeOn key value node (inputs 0)) := by
  have hresult : (s.storeOn key value node (inputs 0)).result = .error (.panic message) := by
    rw [State.storeOn, hpanic]
  constructor
  · intro error h
    rw [hresult] at h
    cases h
  · rw [hresult, someCall_cons, hpanic]
    exact iff_of_true (fun h => nomatch h) (.inl ⟨hother, fun h => nomatch h⟩)
  · intro request hrequest
    exact storesKey_of_storeOn hrequest
  · intro hok
    rw [hresult] at hok
    cases hok

/-- A call that does not panic adds its request to those of the others. -/
theorem LoopSpec.called {others : Ended σ} (hother : node.id ≠ nodeId)
    (hpanic : (inputs 0).panic = none)
    (h : LoopSpec key nodeId rest (fun i => inputs (i + 1)) others) :
    LoopSpec key nodeId (node :: rest) inputs
      { others with sent := (s.storeOn key value node (inputs 0)).sent ++ others.sent } := by
  constructor
  · exact h.noError
  · rw [someCall_cons]
    simp [hpanic, h.panics]
  · intro request hrequest
    rcases List.mem_append.mp hrequest with hrequest | hrequest
    · exact storesKey_of_storeOn hrequest
    · exact h.stores request hrequest
  · intro hok
    rw [someCall_cons, ← h.sends hok]
    cases hsends : (inputs 0).sends <;> simp [State.storeOn, hsends, hother]

theorem sendStores_spec (nodes : List Node) (inputs : Nat → CallInput) (s : State σ) :
    LoopSpec key s.nodeId nodes inputs (State.sendStores key value nodes inputs s) := by
  induction nodes generalizing inputs s with
  | nil =>
    constructor
    · intro error h
      cases h
    · exact iff_of_false (fun h => h rfl) someCall_nil
    · intro request hrequest
      cases hrequest
    · intro _
      exact iff_of_false (fun h => h rfl) someCall_nil
  | cons node rest ih =>
    rw [State.sendStores]
    by_cases hown : node.id = s.nodeId
    · rw [if_pos hown]
      exact .skip hown (ih _ s)
    rw [if_neg hown]
    cases hpanic : (inputs 0).panic with
    | some message =>
      have hcall : (s.storeOn key value node (inputs 0)).result = .error (.panic message) := by
        rw [State.storeOn, hpanic]
      simp only [hcall]
      exact .panicked hown hpanic
    | none =>
      have hcall : (s.storeOn key value node (inputs 0)).result = .ok () := by
        rw [State.storeOn, hpanic]
      simp only [hcall]
      exact .called hown hpanic (ih _ (s.storeOn key value node (inputs 0)).state)

theorem sendDirect_spec (s : State σ) (key : NodeId) (value : Value) (input : Input) :
    LoopSpec key s.nodeId (s.directNodes input) input.direct (s.sendDirect key value input) :=
  sendStores_spec (s.directNodes input) input.direct
    { s with table := run RoutingTable.step s.table input.meanwhile }

end Loop

/-! ## Rejected values -/

section Rejected

variable [Storage σ] {s : State σ} {key : NodeId} {value : Value} {input : Input}

theorem storeValue_of_rejected (h : Rejected s key value input) :
    ∃ error, s.storeValue input.now key value input.closest input.lapse =
      { result := .error (.err error), sent := [], state := s } := by
  obtain ⟨hlapse, error, herror⟩ := h
  have hunchanged := Storage.unchanged s.storage input.now key value error herror
  refine ⟨error, ?_⟩
  rw [State.storeValue, if_neg hlapse]
  rcases hstore : Storage.store s.storage input.now key value with ⟨result, storage⟩
  rw [hstore] at herror hunchanged
  obtain rfl : result = .error error := herror
  obtain rfl : storage = s.storage := hunchanged
  rfl

theorem storeValue_of_not_rejected (h : ¬ Rejected s key value input) (error : Error) :
    (s.storeValue input.now key value input.closest input.lapse).result ≠ .error (.err error) := by
  intro herror
  unfold State.storeValue at herror
  split_ifs at herror with hlapse
  · rcases hstore : Storage.store s.storage input.now key value with ⟨fault | _, storage⟩
    · exact h ⟨hlapse, fault, congrArg Prod.fst hstore⟩
    · simp only [hstore] at herror
      exact (sendStores_spec _ _ _).noError error herror

theorem store_of_not_rejected {keyBytes : List UInt8}
    (h : ¬ Rejected s (NodeId.fromBytes keyBytes) value input) (error : Error) :
    (s.store keyBytes value input).result ≠ .error (.err error) := by
  have hstored := storeValue_of_not_rejected h error
  rw [State.store]
  dsimp only
  generalize s.storeValue input.now (NodeId.fromBytes keyBytes) value input.closest input.lapse =
    stored at hstored ⊢
  split
  · exact hstored
  · dsimp only
    split
    · rename_i fault hfault
      intro herror
      rw [Except.error.inj herror] at hfault
      exact (sendDirect_spec stored.state _ value input).noError error hfault
    · exact hstored

/-- A store whose value is rejected is not distributed exactly when the second loop panics or
sends nothing. -/
theorem undistributed_of_rejected_iff {keyBytes : List UInt8}
    (h : Rejected s (NodeId.fromBytes keyBytes) value input) :
    Undistributed (NodeId.fromBytes keyBytes) (s.store keyBytes value input) ↔
      SomeCall s.nodeId (s.directNodes input) input.direct (fun call => call.panic ≠ none) ∨
        ¬ SomeCall s.nodeId (s.directNodes input) input.direct fun call => call.sends = true := by
  obtain ⟨error, hstored⟩ := storeValue_of_rejected h
  have hloop := sendDirect_spec s (NodeId.fromBytes keyBytes) value input
  rw [State.store]
  simp only [hstored, List.nil_append]
  generalize s.sendDirect (NodeId.fromBytes keyBytes) value input = direct at hloop ⊢
  obtain ⟨fault | _, sent, state⟩ := direct
  · refine iff_of_true ?_ (.inl (hloop.panics.mp fun hok => nomatch hok))
    rintro ⟨error', herror⟩
    exact absurd herror (hloop.noError error')
  · rw [← hloop.panics, ← hloop.sends rfl]
    have hsent : (∀ request ∈ sent, ¬ StoresKey (NodeId.fromBytes keyBytes) request.2) ↔
        sent = [] := by
      constructor
      · intro hnone
        exact List.eq_nil_iff_forall_not_mem.mpr fun request hrequest =>
          hnone request hrequest (hloop.stores request hrequest)
      · rintro rfl request hrequest
        cases hrequest
    rw [Undistributed, hsent]
    simp

/-- For every storage, table, key and value: a store that returns an error has sent nothing
for the key exactly when the storage did not reject the value, or the second loop panics, or
none of its calls sends a request. -/
theorem undistributed_iff (s : State σ) (key : List UInt8) (value : Value) (input : Input) :
    Undistributed (NodeId.fromBytes key) (s.store key value input) ↔
      ¬ Rejected s (NodeId.fromBytes key) value input ∨
        SomeCall s.nodeId (s.directNodes input) input.direct (fun call => call.panic ≠ none) ∨
        ¬ SomeCall s.nodeId (s.directNodes input) input.direct fun call => call.sends = true := by
  by_cases hrejected : Rejected s (NodeId.fromBytes key) value input
  · rw [undistributed_of_rejected_iff hrejected]
    simp [hrejected]
  · refine iff_of_true ?_ (.inl hrejected)
    rintro ⟨error, herror⟩
    exact absurd herror (store_of_not_rejected hrejected error)

end Rejected

/-- A storage that takes no value. -/
structure FullStorage where

instance : Storage FullStorage where
  store s _ _ _ := (.error (.other "storage is full"), s)
  unchanged _ _ _ _ _ _ := rfl

/-- A node with a full storage that knows one other node. -/
def full : State FullStorage :=
  { nodeId := NodeId.fromBytes []
    addr := .v4 0x7f000001#32 8000
    table := run RoutingTable.step (.new (NodeId.fromBytes [])) [.update (.at 0) (Node.ofByte 0x80)]
    storage := {} }

/-- Every call sends its request. -/
def reachable : Input :=
  { now := 0, lapse := .never, closest := fun _ => ⟨1, true, [], none⟩, meanwhile := []
    direct := fun _ => ⟨2, true, [], none⟩ }

/-- The value that the storage rejects is sent to the other node. -/
theorem rejected_value_sent :
    ¬ ∀ (σ : Type) [Storage σ] (s : State σ) (key : List UInt8) (value : Value) (input : Input),
      Undistributed (NodeId.fromBytes key) (s.store key value input) := by
  intro h
  have hnone := h FullStorage full [7] [1] reachable ⟨.other "storage is full", by decide +kernel⟩
    ((Node.ofByte 0x80).addr, .store 2 full.localNode (NodeId.fromBytes [7]) [1])
    (by decide +kernel)
  exact hnone rfl

end Distribution

end Kademlia
