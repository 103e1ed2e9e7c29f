import Kademlia.System.Peer

/-!
# What the parts of a node may hold

A trust says which values may be stored under a key, which addresses an identifier may have
and which times may be read from the clock.  It spreads over everything a node holds: its table,
its storage, its lookups and the messages.  Each part keeps it when what comes in is trusted.
-/

namespace Kademlia

open Lib

namespace RecordContact

def Step.env : Step → Option Env
  | .contact env | .answer env _ | .timeout env | .seen env | .evict env | .retry env => some env
  | .error => none

theorem tableOp_env {nodeId : NodeId} {node : Node} {phase : Phase} {st : Step} {op : TableOp}
    (h : tableOp nodeId node phase st = some op) : st.env = some op.env := by
  unfold tableOp at h
  split at h
  · split_ifs at h
    cases h
    rfl
  all_goals
    cases h
    try rfl

end RecordContact

namespace System

structure Trust where
  value : NodeId → Value → Prop
  contact : NodeId → SocketAddr → Prop
  time : Nat → Prop := fun _ => True

namespace Trust

variable (T : Trust)

def Seen : LastSeen → Prop
  | .never => True
  | .at secs => T.time secs

structure Genuine (n : Node) : Prop where
  contact : T.contact n.id n.addr
  seen : T.Seen n.lastSeen

/-- All nodes of the list are genuine. -/
def Nodes (nodes : List Node) : Prop := ∀ n ∈ nodes, T.Genuine n

/-- A table of the node that operations have led to. -/
structure Table (nodeId : NodeId) (t : RoutingTable) : Prop where
  reached : ∃ ops, t = run RoutingTable.step (.new nodeId) ops
  entries : t.AllEntries T.Genuine

def Storage (s : MemoryStorage) : Prop :=
  ∀ key entry, s.storage.lookup key = some entry → T.value key entry.value

/-- The value of a `STORE` request is one for its key. -/
def Stores : RequestMessage → Prop
  | .store _ _ key value => T.value key value
  | _ => True

/-- A response answers a request: it has its identifier and is of its kind, and the value and
the nodes in it, at most `K` of them, are trusted. -/
def Answers : RequestMessage → ResponseMessage → Prop
  | .ping id _, .pong requestId _ => requestId = id
  | .store id _ _ _, .storeResult requestId _ _ => requestId = id
  | .findNode id _ _, .nodesFound requestId _ nodes =>
    requestId = id ∧ nodes.length ≤ K ∧ T.Nodes nodes
  | .findValue id _ key, .valueFound requestId _ value nodes =>
    requestId = id ∧ (∀ v, value = some v → T.value key v) ∧ nodes.length ≤ K ∧ T.Nodes nodes
  | _, _ => False

def LookupPhase (key : NodeId) : FindValue.Phase → Prop
  | .searching _ closestNodes _ => T.Nodes closestNodes
  | .querying _ closestNodes _ tasks found => T.Nodes closestNodes ∧ T.Nodes tasks ∧ T.Nodes found
  | .caching value => T.value key value
  | .finished result => ∀ value, result = .ok (some value) → T.value key value
  | _ => True

/-- What a query of a lookup has brought. -/
def ValueReply (key : NodeId) (reply : FindValue.Reply) : Prop :=
  ∀ value nodes, reply.result = some (value, nodes) →
    (∀ v, value = some v → T.value key v) ∧ T.Nodes nodes

variable {T}

theorem nodes_nil : T.Nodes [] := by
  intro n hn
  cases hn

theorem nodes_append {xs ys : List Node} (hx : T.Nodes xs) (hy : T.Nodes ys) :
    T.Nodes (xs ++ ys) := by
  intro n hn
  rcases List.mem_append.mp hn with hn | hn
  · exact hx n hn
  · exact hy n hn

theorem Nodes.subset {xs ys : List Node} (h : T.Nodes ys) (hsub : ∀ n ∈ xs, n ∈ ys) :
    T.Nodes xs :=
  fun n hn => h n (hsub n hn)

theorem nodes_nearest {κ : Type} [Ord κ] [Std.TransOrd κ] (key : Node → κ) (count : Nat)
    {nodes : List Node} (h : T.Nodes nodes) : T.Nodes (nearest key count nodes) := by
  obtain ⟨others, hperm, -⟩ := (nearest_spec key count nodes).least
  exact h.subset fun n hn => hperm.mem_iff.mp (List.mem_append_left _ hn)

/-! ## The table -/

theorem Answers.requestId {request : RequestMessage} {response : ResponseMessage}
    (h : T.Answers request response) : response.requestId = request.id := by
  cases request <;> cases response <;> first | exact h | exact h.1 | exact absurd h id

section Table

variable {nodeId : NodeId} {t : RoutingTable}

theorem Table.placed (h : T.Table nodeId t) : t.Placed := by
  obtain ⟨ops, rfl⟩ := h.reached
  exact RoutingTable.placed_run (RoutingTable.placed_withK nodeId K) ops

theorem Table.getAllNodes (h : T.Table nodeId t) : T.Nodes t.getAllNodes := by
  intro n hn
  obtain ⟨index, b, hlookup, hmem⟩ := RoutingTable.mem_getAllNodes.mp hn
  exact h.entries index b hlookup n (List.mem_append_left _ hmem)

theorem Table.getClosest (h : T.Table nodeId t) (target : NodeId) (count : Nat) :
    T.Nodes (t.getClosest target count) :=
  nodes_nearest _ count h.getAllNodes

theorem length_getClosest_le (t : RoutingTable) (target : NodeId) (count : Nat) :
    (t.getClosest target count).length ≤ count := by
  have hlength := (RoutingTable.getClosest_spec t target count).length
  omega

/-- The operation stamps contacts with a trusted time, and brings in trusted nodes only. -/
structure Operation (op : TableOp) : Prop where
  time : T.time op.env.stampedAt
  update : ∀ env node, op = .update env node → T.Genuine node

theorem Table.step (h : T.Table nodeId t) {op : TableOp} (hop : T.Operation op) :
    T.Table nodeId (t.step op) where
  reached := by
    obtain ⟨ops, rfl⟩ := h.reached
    exact ⟨ops ++ [op], (run_concat _ ops op).symm⟩
  entries := h.entries.step_env h.placed (fun _ hn => ⟨hn.contact, hop.time⟩) hop.update

theorem Table.run (h : T.Table nodeId t) {ops : List TableOp} (hops : ∀ op ∈ ops, T.Operation op) :
    T.Table nodeId (run RoutingTable.step t ops) := by
  induction ops generalizing t with
  | nil => exact h
  | cons op rest ih =>
    refine ih (h.step (hops op List.mem_cons_self)) ?_
    intro op' hop'
    exact hops op' (List.mem_cons_of_mem _ hop')

theorem table_new (nodeId : NodeId) : T.Table nodeId (.new nodeId) where
  reached := ⟨[], rfl⟩
  entries := by
    intro index b hlookup
    rw [RoutingTable.new, RoutingTable.withK, AList.lookup_empty] at hlookup
    cases hlookup

/-- A critical section of `record_contact` brings in its own node only. -/
theorem Table.next (h : T.Table nodeId t) (localId : NodeId) {node : Node} (hnode : T.Genuine node)
    (phase : RecordContact.Phase) {st : RecordContact.Step}
    (htime : ∀ env, st.env = some env → T.time env.stampedAt) :
    T.Table nodeId (RecordContact.next localId t node phase st).1 := by
  rw [RecordContact.next_table]
  split
  · exact h
  · rename_i op hop
    refine h.step ⟨htime _ (RecordContact.tableOp_env hop), ?_⟩
    rintro env node' rfl
    rw [RecordContact.tableOp_update hop]
    exact hnode

end Table

/-! ## The storage -/

theorem storage_new : T.Storage .new := by
  intro key entry hlookup
  rw [MemoryStorage.new, MemoryStorage.withTtl, AList.lookup_empty] at hlookup
  cases hlookup

theorem Storage.get {s : MemoryStorage} (h : T.Storage s) {now : Instant} {key : NodeId}
    {value : Value} (hget : s.get now key = .ok value) : T.value key value := by
  obtain ⟨entry, hlookup, rfl, -⟩ := MemoryStorage.get_eq_ok_iff.mp hget
  exact h key entry hlookup

theorem Storage.store {s : MemoryStorage} (h : T.Storage s) (now : Instant) {key : NodeId}
    {value : Value} (hvalue : T.value key value) : T.Storage (s.store now key value).2 := by
  intro key' entry hlookup
  rw [MemoryStorage.store, MemoryStorage.lookup_storeWithTtl] at hlookup
  split_ifs at hlookup with hkey
  · rw [← Option.some.inj hlookup, ← hkey]
    exact hvalue
  · exact h key' entry hlookup

theorem Storage.cleanup {s : MemoryStorage} (h : T.Storage s) (now : Instant) :
    T.Storage (s.cleanup now).2 :=
  fun key entry hlookup => h key entry (MemoryStorage.lookup_of_lookup_cleanup hlookup)

theorem Storage.snapshotPairs {s : MemoryStorage} (h : T.Storage s) {now : Instant}
    {keys : List NodeId} {items : List (NodeId × Value)}
    (hitems : Republish.snapshotPairs s now keys = .ok items) :
    ∀ item ∈ items, T.value item.1 item.2 := by
  induction keys generalizing items with
  | nil =>
    obtain rfl := Except.ok.inj hitems
    intro item hitem
    cases hitem
  | cons key keys ih =>
    unfold Republish.snapshotPairs at hitems
    split at hitems
    · exact ih hitems
    · cases hitems
    · rename_i value hget
      split at hitems
      · cases hitems
      · rename_i pairs hpairs
        obtain rfl := Except.ok.inj hitems
        intro item hitem
        rcases List.mem_cons.mp hitem with rfl | hitem
        · exact h.get hget
        · exact ih hpairs item hitem

/-! ## The responses of the handlers -/

/-- A handler that has its response answers the request, and stores what it is told to. -/
theorem respond_trusted {s : HandleRequest.State} {nodeId : NodeId} (htable : T.Table nodeId s.table)
    (hstorage : T.Storage s.storage) {now : Instant} {message : RequestMessage}
    (hmessage : T.Stores message) {response : ResponseMessage}
    (h : (s.respond now message).1 = .ok response) :
    T.Answers message response ∧ response.sender = s.localNode := by
  cases message with
  | ping id sender =>
    rw [← Except.ok.inj h]
    exact ⟨rfl, rfl⟩
  | store id sender key value =>
    rw [← Except.ok.inj h]
    exact ⟨rfl, rfl⟩
  | findNode id sender target =>
    rw [← Except.ok.inj h]
    exact ⟨⟨rfl, length_getClosest_le _ _ _, htable.getClosest target K⟩, rfl⟩
  | findValue id sender key =>
    simp only [HandleRequest.State.respond, HandleRequest.State.handleFindValue] at h
    split at h
    · rename_i value hget
      rw [← Except.ok.inj h]
      refine ⟨⟨rfl, ?_, Nat.zero_le K, nodes_nil⟩, rfl⟩
      intro v hv
      rw [← Option.some.inj hv]
      exact hstorage.get hget
    · cases h
    · rw [← Except.ok.inj h]
      refine ⟨⟨rfl, ?_, length_getClosest_le _ _ _, htable.getClosest key K⟩, rfl⟩
      intro v hv
      cases hv

theorem storage_respond {s : HandleRequest.State} (hstorage : T.Storage s.storage) (now : Instant)
    {message : RequestMessage} (hmessage : T.Stores message) :
    T.Storage (s.respond now message).2.storage := by
  cases message with
  | store id sender key value => exact hstorage.store now hmessage
  | _ => exact hstorage

/-! ## Lookups -/

theorem firstNodes_trusted {nodeId : NodeId} {t : RoutingTable} (h : T.Table nodeId t)
    (key : NodeId) :
    T.Nodes (FindValue.firstNodes t key) := by
  unfold FindValue.firstNodes
  dsimp only
  split_ifs
  · exact h.getAllNodes
  · exact h.getClosest key K

theorem nodesToQuery_trusted {closestNodes : List Node} (h : T.Nodes closestNodes)
    (nodeId : NodeId) (visited : List NodeId) :
    T.Nodes (FindValue.nodesToQuery nodeId closestNodes visited) :=
  h.subset fun _ hn => List.mem_of_mem_filter (List.mem_of_mem_take hn)

/-- A step of a value lookup with a trusted reply. -/
theorem advance_trusted {s : FindValue.State} {nodeId : NodeId} (htable : T.Table nodeId s.table)
    (hstorage : T.Storage s.storage) (hphase : T.LookupPhase s.key s.phase) {st : FindValue.Step}
    (hreply : ∀ reply, st = .await reply → T.ValueReply s.key reply) :
    T.Storage (s.advance st).storage ∧ T.LookupPhase s.key (s.advance st).phase := by
  cases st with
  | check now =>
    simp only [FindValue.State.advance]
    split
    · split
      · rename_i value hget
        refine ⟨hstorage, ?_⟩
        intro v hv
        rw [← Option.some.inj (Except.ok.inj hv)]
        exact hstorage.get hget
      · exact ⟨hstorage, fun v hv => by cases hv⟩
      · exact ⟨hstorage, trivial⟩
    · exact ⟨hstorage, hphase⟩
  | select =>
    simp only [FindValue.State.advance]
    split
    · split_ifs
      · exact ⟨hstorage, fun v hv => by cases hv⟩
      · exact ⟨hstorage, firstNodes_trusted htable s.key⟩
    · exact ⟨hstorage, hphase⟩
  | query =>
    simp only [FindValue.State.advance]
    split
    · rename_i iteration closestNodes visited heq
      rw [heq] at hphase
      split_ifs
      · exact ⟨hstorage, fun v hv => by cases hv⟩
      · exact ⟨hstorage, hphase, nodesToQuery_trusted hphase _ _, nodes_nil⟩
    · exact ⟨hstorage, hphase⟩
  | await reply =>
    simp only [FindValue.State.advance]
    split
    · rename_i iteration closestNodes visited task tasks found heq
      rw [heq] at hphase
      obtain ⟨hclosest, htasks, hfound⟩ := hphase
      have hrest : T.Nodes tasks := htasks.subset fun _ hn => List.mem_cons_of_mem _ hn
      split
      · rename_i value nodes hresult
        exact ⟨hstorage, (hreply reply rfl (some value) nodes hresult).1 value rfl⟩
      · rename_i more hresult
        have hmore : T.Nodes more := (hreply reply rfl none more hresult).2
        refine ⟨hstorage, hclosest, hrest, nodes_append hfound ?_⟩
        exact hmore.subset fun _ hn => List.mem_of_mem_filter hn
      · exact ⟨hstorage, hclosest, hrest, hfound⟩
    · exact ⟨hstorage, hphase⟩
  | collect =>
    simp only [FindValue.State.advance]
    split
    · rename_i iteration closestNodes visited found heq
      rw [heq] at hphase
      obtain ⟨hclosest, -, hfound⟩ := hphase
      split_ifs
      · exact ⟨hstorage, fun v hv => by cases hv⟩
      · exact ⟨hstorage, nodes_nearest _ K (nodes_append hclosest hfound)⟩
    · exact ⟨hstorage, hphase⟩
  | cache now =>
    simp only [FindValue.State.advance]
    split
    · rename_i value heq
      rw [heq] at hphase
      refine ⟨hstorage.store now hphase, ?_⟩
      intro v hv
      rw [← Option.some.inj (Except.ok.inj hv)]
      exact hphase
    · exact ⟨hstorage, hphase⟩

theorem addNodes_trusted {nodes : List Node} {search : FindNode.State}
    (h : T.Nodes search.closestNodes) (hnodes : T.Nodes nodes) :
    T.Nodes (nodes.foldl FindNode.State.addNode search).closestNodes := by
  induction nodes generalizing search with
  | nil => exact h
  | cons node rest ih =>
    refine ih ?_ (hnodes.subset fun _ hn => List.mem_cons_of_mem _ hn)
    unfold FindNode.State.addNode
    split_ifs
    · exact h
    · refine nodes_append h ?_
      intro n hn
      rw [List.mem_singleton.mp hn]
      exact hnodes node List.mem_cons_self

/-- A round of a node lookup whose answers are trusted. -/
theorem round_trusted {search : FindNode.State} (h : T.Nodes search.closestNodes)
    (target : NodeId) {replies : Nat → FindNode.Reply}
    (hreplies : ∀ idx nodes, (replies idx).result = .ok nodes → T.Nodes nodes) :
    T.Nodes (search.round target replies).closestNodes := by
  unfold FindNode.State.round
  induction search.active with
  | zero => exact h
  | succ idx ih =>
    rw [FindNode.State.consumed, FindNode.State.consume]
    split_ifs
    · exact ih
    · split
      · rename_i nodes hresult
        exact nodes_nearest _ K (addNodes_trusted ih (hreplies idx nodes hresult))
      · exact ih.subset fun _ hn => List.mem_of_mem_eraseIdx hn

end Trust

end System

end Kademlia
