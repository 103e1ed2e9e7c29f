import Kademlia.Routing.Admission
import Kademlia.Routing.Closest

/-!
# Faults of a table

The table and its buckets reach contacts through `unwrap`, `expect` and indexing, and a
bucket returns an `Err` for the local identifier.  The calls of a table keep what these
accesses rely on when `k` is at least one.  A bucket with `k = 0` is full while it is
empty, so that the first update for another node expects a front contact that is not
there.
-/

namespace Kademlia

open Lib

namespace RoutingTable

/-- The table with a bucket at `index`. -/
def createBucket (t : RoutingTable) (index : Nat) : RoutingTable :=
  if index ∈ t.buckets then t
  else t.setBucket index (KBucket.new t.localNodeId index t.k)

/-- `get_or_create_bucket` with its second lookup: the bucket, and the table that has it. -/
def getOrCreateBucketMut (t : RoutingTable) (index : Nat) : Outcome KBucket × RoutingTable :=
  let t := t.createBucket index
  match t.buckets.lookup index with
  | none => (.error (.panic "called `Option::unwrap()` on a `None` value"), t)
  | some bucket => (.ok bucket, t)

/-- `update` on the table that `get_or_create_bucket` leaves behind. -/
def updateMutFuel : Nat → RoutingTable → Env → Node → Outcome UpdateStatus × RoutingTable
  | 0, t, _, _ => (.error .outOfFuel, t)
  | fuel + 1, t, env, node =>
    if node.id = t.localNodeId then (.ok .unchanged, t)
    else
      match t.bucketIndex node.id with
      | none => (.ok .unchanged, t)
      | some index =>
        match t.getOrCreateBucketMut index with
        | (.error fault, t) => (.error fault, t)
        | (.ok bucket, t) =>
          match bucket.update env node with
          | (.error fault, bucket) => (.error fault, t.setBucket index bucket)
          | (.ok update, bucket) =>
            match bucket.shouldSplit with
            | .error fault => (.error fault, t.setBucket index bucket)
            | .ok shouldSplit =>
              if shouldSplit ∧ index < keyLengthBits - 1 then
                match bucket.split env with
                | .error fault => (.error fault, t.setBucket index bucket)
                | .ok (bucket0, bucket1) =>
                  let buckets := t.buckets.erase index
                  let buckets := buckets.insert index bucket0
                  let buckets := buckets.insert (index + 1) bucket1
                  updateMutFuel fuel { t with buckets := buckets } env node
              else (.ok (.ofBucket update), t.setBucket index bucket)

def updateMut (t : RoutingTable) (env : Env) (node : Node) : Outcome UpdateStatus × RoutingTable :=
  updateMutFuel (keyLengthBits + 1) t env node

end RoutingTable

/-- The calls of a table: its operations and its lookups. -/
inductive TableCall where
  | operation (op : TableOp)
  | contains (nodeId : NodeId)
  | get (nodeId : NodeId)
  | getClosest (target : NodeId) (count : Nat)
  | getAllNodes
deriving DecidableEq

/-- A condition on updates, for a call that is one. -/
theorem TableCall.forall_update_iff {env : Env} {node : Node} {P : Env → Node → Prop} :
    (∀ env' node', operation (.update env node) = operation (.update env' node') →
      P env' node') ↔ P env node := by
  refine ⟨fun h => h env node rfl, fun h env' node' heq => ?_⟩
  obtain ⟨rfl, rfl⟩ := TableOp.update.inj (operation.inj heq)
  exact h

/-- What a call returns. -/
inductive TableReply where
  | status (status : UpdateStatus)
  | done
  | removed (node : Option Node)
  | contains (found : Bool)
  | get (node : Option Node)
  | nodes (nodes : List Node)
deriving DecidableEq

namespace RoutingTable

def call (t : RoutingTable) : TableCall → Outcome TableReply × RoutingTable
  | .operation (.update env node) => ((t.updateMut env node).1.map .status, (t.updateMut env node).2)
  | .operation (.nodeSeen env id) =>
    ((t.nodeSeen env id).1.map fun _ => .done, (t.nodeSeen env id).2)
  | .operation (.recordSuccess env id responseTimeMs) =>
    ((t.recordSuccess env id responseTimeMs).1.map fun _ => .done,
      (t.recordSuccess env id responseTimeMs).2)
  | .operation (.recordFailure env id) =>
    ((t.recordFailure env id).1.map fun _ => .done, (t.recordFailure env id).2)
  | .operation (.remove env id) => ((t.remove env id).1.map .removed, (t.remove env id).2)
  | .contains id => (.ok (.contains (t.contains id)), t)
  | .get id => (.ok (.get (t.get id)), t)
  | .getClosest target count => (.ok (.nodes (t.getClosest target count)), t)
  | .getAllNodes => (.ok (.nodes t.getAllNodes), t)

def callStep (t : RoutingTable) (c : TableCall) : RoutingTable := (t.call c).2

/-- The call returns no `Err` and panics in no access.  The overflow of a success rate,
which is an addition, is the only other fault. -/
def AccessesHold (t : RoutingTable) (c : TableCall) : Prop :=
  ∀ fault, (t.call c).1 = .error fault → fault = .panic "attempt to add with overflow"

/-! ## The bucket that was created is found -/

theorem getOrCreateBucketMut_eq (t : RoutingTable) (index : Nat) :
    t.getOrCreateBucketMut index = (.ok (t.getOrCreateBucket index), t.createBucket index) := by
  unfold getOrCreateBucketMut getOrCreateBucket createBucket
  by_cases hmem : index ∈ t.buckets
  · obtain ⟨b, hlookup⟩ := Option.isSome_iff_exists.mp (AList.lookup_isSome.mpr hmem)
    simp only [if_pos hmem, hlookup]
  · simp only [if_neg hmem, lookup_setBucket, AList.lookup_eq_none.mpr hmem]

/-- What is done to a bucket hides whether it was created for it. -/
theorem setBucket_createBucket (t : RoutingTable) (index : Nat) (b : KBucket) :
    (t.createBucket index).setBucket index b = t.setBucket index b := by
  unfold createBucket
  by_cases hmem : index ∈ t.buckets
  · rw [if_pos hmem]
  · rw [if_neg hmem, setBucket, setBucket, setBucket, AList.insert_insert]

theorem split_createBucket (t : RoutingTable) (index : Nat) (bucket0 bucket1 : KBucket) :
    { t.createBucket index with
      buckets := (((t.createBucket index).buckets.erase index).insert index bucket0).insert
        (index + 1) bucket1 } =
      { t with
        buckets := ((t.buckets.erase index).insert index bucket0).insert (index + 1) bucket1 } := by
  unfold createBucket
  by_cases hmem : index ∈ t.buckets
  · rw [if_pos hmem]
  · have herase : (t.setBucket index (KBucket.new t.localNodeId index t.k)).buckets.erase index =
        t.buckets.erase index := AList.ext (List.kerase_cons_eq rfl)
    rw [if_neg hmem, herase]
    rfl

/-- The `unwrap` of `get_or_create_bucket` never fails. -/
theorem updateMutFuel_eq (fuel : Nat) (t : RoutingTable) (env : Env) (node : Node) :
    updateMutFuel fuel t env node = updateFuel fuel t env node := by
  induction fuel generalizing t with
  | zero => rfl
  | succ fuel ih =>
    rw [updateMutFuel, updateFuel]
    by_cases hlocal : node.id = t.localNodeId
    · rw [if_pos hlocal, if_pos hlocal]
    rw [if_neg hlocal, if_neg hlocal]
    rcases t.bucketIndex node.id with _ | index
    · rfl
    simp only [getOrCreateBucketMut_eq]
    rcases (t.getOrCreateBucket index).update env node with ⟨fault | update, bucket⟩
    · simp only [setBucket_createBucket]
    rcases hshould : bucket.shouldSplit with fault | shouldSplit
    · simp only [hshould, setBucket_createBucket]
    by_cases hsplit : shouldSplit = true ∧ index < keyLengthBits - 1
    · rcases hbuckets : bucket.split env with fault | ⟨bucket0, bucket1⟩
      · simp only [hshould, if_pos hsplit, hbuckets, setBucket_createBucket]
      · simp only [hshould, if_pos hsplit, hbuckets, split_createBucket, ih]
    · simp only [hshould, if_neg hsplit, setBucket_createBucket]

theorem updateMut_eq (t : RoutingTable) (env : Env) (node : Node) :
    t.updateMut env node = t.update env node :=
  updateMutFuel_eq _ t env node

/-! ## The calls of a placed table -/

theorem callStep_operation (t : RoutingTable) (op : TableOp) :
    t.callStep (.operation op) = t.step op := by
  cases op with
  | update env node => exact congrArg Prod.snd (t.updateMut_eq env node)
  | _ => rfl

/-- The lookups leave the table as it is. -/
theorem callStep_cases (t : RoutingTable) (c : TableCall) :
    (∃ op, c = .operation op ∧ t.callStep c = t.step op) ∨ t.callStep c = t := by
  cases c with
  | operation op => exact .inl ⟨op, rfl, t.callStep_operation op⟩
  | _ => exact .inr rfl

/-- Every call but an update returns a value. -/
theorem Placed.call_cases {t : RoutingTable} (h : t.Placed) (c : TableCall) :
    (∃ env node, c = .operation (.update env node)) ∨ ∃ reply, (t.call c).1 = .ok reply := by
  have hcontact : ∀ (env : Env) (id : NodeId) (edit : Node → Node),
      (∀ node, (edit node).id = node.id) →
      (t.withContact env id edit).1.map (fun _ => TableReply.done) = .ok .done := by
    intro env id edit hedit
    rw [h.withContact_eq_ok env id hedit]
    rfl
  cases c with
  | operation op =>
    cases op with
    | update env node => exact .inl ⟨env, node, rfl⟩
    | nodeSeen env id => exact .inr ⟨.done, hcontact env id _ fun _ => rfl⟩
    | recordSuccess env id responseTimeMs => exact .inr ⟨.done, hcontact env id _ fun _ => rfl⟩
    | recordFailure env id => exact .inr ⟨.done, hcontact env id _ fun _ => rfl⟩
    | remove env id =>
      obtain ⟨removed, hremoved⟩ := t.remove_ok env id
      refine .inr ⟨.removed removed, ?_⟩
      rw [call, hremoved]
      rfl
  | _ => exact .inr ⟨_, rfl⟩

theorem call_update_eq_error_iff (t : RoutingTable) (env : Env) (node : Node) (fault : Fault) :
    (t.call (.operation (.update env node))).1 = .error fault ↔
      (t.update env node).1 = .error fault := by
  rw [call, updateMut_eq]
  exact Outcome.map_eq_error_iff

end RoutingTable

/-! ## Buckets without room -/

theorem KBucket.UpdateSpec.fault_cases {b b' : KBucket} {env : Env} {node : Node} {fault : Fault}
    (hlocal : node.id ≠ b.localNodeId) (h : UpdateSpec b env node (.error fault) b') :
    fault = .panic "attempt to add with overflow" ∨ b.k = 0 := by
  cases h with
  | isLocal hlocal' => exact absurd hlocal' hlocal
  | overflowed _ _ _ hfault => exact .inl (unreliablePosition_eq_error hfault)
  | empty _ hfull _ hempty =>
    rw [hempty, List.length_nil] at hfull
    exact .inr (Nat.le_zero.mp hfull)

/-- A bucket with `k = 0` and no contact panics for every other node. -/
theorem KBucket.update_of_empty {b : KBucket} {env : Env} {node : Node}
    (hlocal : node.id ≠ b.localNodeId) (hk : b.k = 0) (hempty : b.nodes = []) :
    (b.update env node).1 = .error (.panic "bucket not empty") := by
  have hpos : positionOf b.nodes node.id = none :=
    positionOf_eq_none_iff.mpr (hempty ▸ fun _ h => nomatch h)
  have hscan : b.unreliablePosition env = .ok none := by
    rw [unreliablePosition, hempty, positionM]
  rw [update, if_neg hlocal, hpos]
  simp only [hk, Nat.not_lt_zero, if_false, hscan, hempty]

theorem Move.nodes_eq_nil {b b' : KBucket} {op : TableOp} (hk : b.k = 0) (hempty : b.nodes = [])
    (h : Move b op b') : b'.nodes = [] := by
  cases h with
  | insert _ hroom =>
    rw [hk] at hroom
    exact absurd hroom (Nat.not_lt_zero _)
  | refresh _ hsplit => exact absurd hsplit.mem (hempty ▸ List.not_mem_nil)
  | drop hsplit _ => exact absurd hsplit.mem (hempty ▸ List.not_mem_nil)
  | promote hsplit _ => exact absurd hsplit.mem (hempty ▸ List.not_mem_nil)
  | evict _ _ hsplit =>
    rw [hempty] at hsplit
    exact absurd hsplit.symm (List.append_ne_nil_of_right_ne_nil _ (List.cons_ne_nil _ _))
  | _ => exact hempty

namespace RoutingTable

/-- A table that `with_k` built: its buckets have no contacts when `k` is zero. -/
structure BuiltWith (t : RoutingTable) (localNodeId : NodeId) (k : Nat) : Prop where
  placed : t.Placed
  local_eq : t.localNodeId = localNodeId
  k_eq : t.k = k
  empty : k = 0 → t.AllBuckets fun _ b => b.k = 0 ∧ b.nodes = []

theorem builtWith_withK (localNodeId : NodeId) (k : Nat) :
    (withK localNodeId k).BuiltWith localNodeId k :=
  ⟨placed_withK localNodeId k, rfl, rfl, fun _ _ _ h => nomatch h⟩

variable {t : RoutingTable} {localNodeId : NodeId} {k : Nat}

theorem BuiltWith.step (h : t.BuiltWith localNodeId k) (op : TableOp) :
    (t.step op).BuiltWith localNodeId k := by
  have hspec := h.placed.step_spec op
  obtain ⟨hlocal, hk⟩ := hspec.params
  refine ⟨h.placed.step op, hlocal.trans h.local_eq, hk.trans h.k_eq, fun hzero => ?_⟩
  apply (h.empty hzero).step hspec (fun _ _ hb => hb)
  · intro index _
    exact ⟨h.k_eq.trans hzero, rfl⟩
  · rintro index b' - ⟨hbk, hempty⟩ hmove
    exact ⟨hmove.params.1.trans hbk, hmove.nodes_eq_nil hbk hempty⟩

theorem BuiltWith.callStep (h : t.BuiltWith localNodeId k) (c : TableCall) :
    (t.callStep c).BuiltWith localNodeId k := by
  rcases t.callStep_cases c with ⟨op, -, heq⟩ | heq
  · rw [heq]
    exact h.step op
  · rw [heq]
    exact h

theorem BuiltWith.update_holds_iff (h : t.BuiltWith localNodeId k) (env : Env) (node : Node) :
    (∀ fault, (t.update env node).1 = .error fault →
      fault = .panic "attempt to add with overflow") ↔ (k = 0 → node.id = localNodeId) := by
  rcases hindex : t.bucketIndex node.id with _ | index
  · have hid : node.id = localNodeId := h.local_eq ▸ NodeId.bucketIndex_eq_none_iff.mp hindex
    rw [h.placed.update_of_none hindex]
    exact ⟨fun _ _ => hid, fun _ fault hfault => nomatch hfault⟩
  have hlocal := h.placed.ne_local hindex
  have hid : node.id ≠ localNodeId := h.local_eq ▸ NodeId.ne_of_bucketIndex hindex
  have hbk : (t.getOrCreateBucket index).k = k := (h.placed.getOrCreate index).k_eq.trans h.k_eq
  simp only [h.placed.update_eq_error_bucket hindex]
  constructor
  · intro hholds hk
    have hempty := (AllBuckets.getOrCreate (h.empty hk) index ⟨h.k_eq.trans hk, rfl⟩).2
    have hpanic := hholds _ (KBucket.update_of_empty hlocal (hbk.trans hk) hempty)
    exact absurd (Fault.panic.inj hpanic) (by decide)
  · intro hk fault hfault
    have hspec := KBucket.update_spec (t.getOrCreateBucket index) env node
    rw [hfault] at hspec
    rcases hspec.fault_cases hlocal with hoverflow | hzero
    · exact hoverflow
    · exact absurd (hk (hbk.symm.trans hzero)) hid

/-- Only an update for another node needs room in a bucket. -/
theorem BuiltWith.accessesHold_iff (h : t.BuiltWith localNodeId k) (c : TableCall) :
    t.AccessesHold c ↔
      (k = 0 → ∀ env node, c = .operation (.update env node) → node.id = localNodeId) := by
  by_cases hupdate : ∃ env node, c = .operation (.update env node)
  · obtain ⟨env, node, rfl⟩ := hupdate
    simp only [AccessesHold, call_update_eq_error_iff]
    rw [h.update_holds_iff env node, TableCall.forall_update_iff]
  · obtain ⟨reply, hreply⟩ := (h.placed.call_cases c).resolve_left hupdate
    refine ⟨fun _ _ env node heq => absurd ⟨env, node, heq⟩ hupdate, fun _ fault hfault => ?_⟩
    rw [hreply] at hfault
    cases hfault

/-- Every access of a table holds and no call returns an `Err`, exactly when `k` is at
least one or no call is an update for another node. -/
theorem accessesHold_throughout_iff (localNodeId : NodeId) (k : Nat) (calls : List TableCall) :
    Meets callStep AccessesHold (withK localNodeId k) calls ↔
      1 ≤ k ∨ ∀ env node, .operation (.update env node) ∈ calls → node.id = localNodeId := by
  have hguard := meets_iff_meets (I := fun t : RoutingTable => t.BuiltWith localNodeId k)
    (fun _ c ht => ht.callStep c) (fun _ c ht => ht.accessesHold_iff c)
    (builtWith_withK localNodeId k) calls
  rw [hguard, meets_iff_forall]
  constructor
  · intro hall
    rcases Nat.eq_zero_or_pos k with hk | hk
    · exact .inr fun env node hmem => hall _ hmem hk env node rfl
    · exact .inl hk
  · rintro (hk | hlocal) c hc hzero env node rfl
    · exact absurd hzero (Nat.pos_iff_ne_zero.mp hk)
    · exact hlocal env node hc

/-- The first update of a table with buckets of no places. -/
theorem not_accessesHold_of_zero :
    ¬ Meets callStep AccessesHold (withK (NodeId.fromBytes []) 0)
      [.operation (.update (.at 0) (Node.ofByte 0x80))] := by
  intro h
  have hpanic : ((withK (NodeId.fromBytes []) 0).call
      (.operation (.update (.at 0) (Node.ofByte 0x80)))).1 = .error (.panic "bucket not empty") := by
    decide +kernel
  exact absurd (h.1 _ hpanic) (by decide)

/-! ## Calls that return -/

/-- The call neither panics nor returns an `Err`. -/
def Returns (t : RoutingTable) (c : TableCall) : Prop := ∃ reply, (t.call c).1 = .ok reply

/-- A call returns, unless it is an update for a node that its bucket neither admits nor
caches. -/
theorem Placed.returns_iff (h : t.Placed) (c : TableCall) :
    t.Returns c ↔ ∀ env node, c = .operation (.update env node) → ¬ t.Overflows env node.id := by
  by_cases hupdate : ∃ env node, c = .operation (.update env node)
  · obtain ⟨env, node, rfl⟩ := hupdate
    have herror : t.Returns (.operation (.update env node)) ↔
        ¬ ∃ fault, (t.update env node).1 = .error fault := by
      simp only [Returns, ← call_update_eq_error_iff]
      cases (t.call (.operation (.update env node))).1 <;> simp
    rw [herror, h.update_eq_error_iff, TableCall.forall_update_iff]
  · have hreturns := (h.call_cases c).resolve_left hupdate
    exact ⟨fun _ env node heq => absurd ⟨env, node, heq⟩ hupdate, fun _ => hreturns⟩

/-- Every call of a run returns exactly when each update finds a place for its node. -/
theorem returns_throughout_iff (localNodeId : NodeId) (k : Nat) (calls : List TableCall) :
    Meets callStep Returns (withK localNodeId k) calls ↔
      Meets callStep (fun t c => ∀ env node, c = .operation (.update env node) →
        ¬ t.Overflows env node.id) (withK localNodeId k) calls :=
  meets_iff_meets (I := fun t : RoutingTable => t.BuiltWith localNodeId k)
    (fun _ c ht => ht.callStep c) (fun _ c ht => ht.placed.returns_iff c)
    (builtWith_withK localNodeId k) calls

end RoutingTable

end Kademlia
