import Mathlib.Data.List.AList
import Mathlib.Data.List.Sort
import Kademlia.Lib.Run
import Kademlia.Routing.KBucket

/-!
# The routing table

The table maps bucket indices to k-buckets.  The map is an association list without
repeated keys, and the order of its entries stands for the iteration order of the
hash map, which no operation relies on.

`update` calls itself after a split.  `updateFuel` counts these calls, and
`updateFuel_ne_outOfFuel` shows that one call for each bit of an identifier, and one
more, is enough for every table.
-/

namespace Kademlia

open Lib

inductive UpdateStatus where
  | unchanged
  | updated
  | pendingPing (nodeToPing : Node)
deriving DecidableEq

def UpdateStatus.ofBucket : KBucketUpdate → UpdateStatus
  | .unchanged => .unchanged
  | .updated => .updated
  | .pendingPing nodeToPing => .pendingPing nodeToPing

structure RoutingTable where
  localNodeId : NodeId
  buckets : AList fun _ : Nat => KBucket
  k : Nat

namespace RoutingTable

def withK (localNodeId : NodeId) (k : Nat) : RoutingTable :=
  { localNodeId := localNodeId, buckets := ∅, k := k }

def new (localNodeId : NodeId) : RoutingTable := withK localNodeId K

def bucketIndex (t : RoutingTable) (nodeId : NodeId) : Option Nat :=
  t.localNodeId.bucketIndex nodeId

/-- The bucket `get_or_create_bucket` hands out. -/
def getOrCreateBucket (t : RoutingTable) (index : Nat) : KBucket :=
  match t.buckets.lookup index with
  | some bucket => bucket
  | none => KBucket.new t.localNodeId index t.k

/-- The table after the bucket at `index` was changed through its mutable reference. -/
def setBucket (t : RoutingTable) (index : Nat) (bucket : KBucket) : RoutingTable :=
  { t with buckets := t.buckets.insert index bucket }

def updateFuel : Nat → RoutingTable → Env → Node → Outcome UpdateStatus × RoutingTable
  | 0, t, _, _ => (.error .outOfFuel, t)
  | fuel + 1, t, env, node =>
    if node.id = t.localNodeId then (.ok .unchanged, t)
    else
      match t.bucketIndex node.id with
      | none => (.ok .unchanged, t)
      | some index =>
        match (t.getOrCreateBucket index).update env node with
        | (.error fault, bucket) => (.error fault, t.setBucket index bucket)
        | (.ok update, bucket) =>
          match bucket.shouldSplit with
          | .error fault => (.error fault, t.setBucket index bucket)
          | .ok shouldSplit =>
            if shouldSplit ∧ index < keyLengthBits - 1 then
              match bucket.split env with
              | .error fault => (.error fault, t.setBucket index bucket)
              | .ok (bucket0, bucket1) =>
                let buckets := t.buckets.erase index
                let buckets := buckets.insert index bucket0
                let buckets := buckets.insert (index + 1) bucket1
                updateFuel fuel { t with buckets := buckets } env node
            else (.ok (.ofBucket update), t.setBucket index bucket)

def update (t : RoutingTable) (env : Env) (node : Node) : Outcome UpdateStatus × RoutingTable :=
  updateFuel (keyLengthBits + 1) t env node

/-- The common body of `node_seen`, `record_success` and `record_failure`: a clone of
the contact is edited and handed back to its bucket. -/
def withContact (t : RoutingTable) (env : Env) (nodeId : NodeId) (edit : Node → Node) :
    Outcome Unit × RoutingTable :=
  match t.bucketIndex nodeId with
  | none => (.ok (), t)
  | some index =>
    match t.buckets.lookup index with
    | none => (.ok (), t)
    | some bucket =>
      match bucket.get nodeId with
      | none => (.ok (), t)
      | some node =>
        match bucket.update env (edit node) with
        | (.error fault, bucket) => (.error fault, t.setBucket index bucket)
        | (.ok _, bucket) => (.ok (), t.setBucket index bucket)

def nodeSeen (t : RoutingTable) (env : Env) (nodeId : NodeId) : Outcome Unit × RoutingTable :=
  t.withContact env nodeId fun node => node.updateLastSeen env

def recordSuccess (t : RoutingTable) (env : Env) (nodeId : NodeId) (responseTimeMs : UInt64) :
    Outcome Unit × RoutingTable :=
  t.withContact env nodeId fun node =>
    let stats := node.responseStats.recordSuccess
    let stats := stats.recordResponseTime responseTimeMs
    { node with responseStats := stats }.updateLastSeen env

def recordFailure (t : RoutingTable) (env : Env) (nodeId : NodeId) : Outcome Unit × RoutingTable :=
  t.withContact env nodeId fun node =>
    { node with responseStats := node.responseStats.recordFailure }

def remove (t : RoutingTable) (env : Env) (nodeId : NodeId) :
    Outcome (Option Node) × RoutingTable :=
  match t.bucketIndex nodeId with
  | none => (.ok none, t)
  | some index =>
    match t.buckets.lookup index with
    | none => (.ok none, t)
    | some bucket =>
      let (removed, bucket) := bucket.remove env nodeId
      (removed, t.setBucket index bucket)

def contains (t : RoutingTable) (nodeId : NodeId) : Bool :=
  match t.bucketIndex nodeId with
  | none => false
  | some index =>
    match t.buckets.lookup index with
    | none => false
    | some bucket => bucket.contains nodeId

def get (t : RoutingTable) (nodeId : NodeId) : Option Node :=
  match t.bucketIndex nodeId with
  | none => none
  | some index =>
    match t.buckets.lookup index with
    | none => none
    | some bucket => bucket.get nodeId

/-- The indices of the buckets, sorted. -/
def bucketIndices (t : RoutingTable) : List Nat := t.buckets.keys.insertionSort (· ≤ ·)

def nodeCount (t : RoutingTable) : Nat :=
  (t.buckets.entries.map fun entry => entry.2.nodes.length).sum

def getAllNodes (t : RoutingTable) : List Node :=
  t.buckets.entries.flatMap fun entry => entry.2.nodes

end RoutingTable

/-- The mutating operations of the table, each with the surroundings it runs in. -/
inductive TableOp where
  | update (env : Env) (node : Node)
  | nodeSeen (env : Env) (nodeId : NodeId)
  | recordSuccess (env : Env) (nodeId : NodeId) (responseTimeMs : UInt64)
  | recordFailure (env : Env) (nodeId : NodeId)
  | remove (env : Env) (nodeId : NodeId)
deriving DecidableEq

namespace TableOp

def env : TableOp → Env
  | update env _ | nodeSeen env _ | recordSuccess env _ _ | recordFailure env _
  | remove env _ => env

/-- The identifier the operation is about. -/
def nodeId : TableOp → NodeId
  | update _ node => node.id
  | nodeSeen _ id | recordSuccess _ id _ | recordFailure _ id | remove _ id => id

@[simp] theorem nodeId_update (env : Env) (node : Node) : (update env node).nodeId = node.id := rfl

/-- The clock never goes back, neither between operations nor inside one. -/
def NonDecreasing (ops : List TableOp) : Prop :=
  ops.Pairwise fun first second => first.env.stampedAt ≤ second.env.checkedAt

end TableOp

namespace RoutingTable

def step (t : RoutingTable) : TableOp → RoutingTable
  | .update env node => (t.update env node).2
  | .nodeSeen env id => (t.nodeSeen env id).2
  | .recordSuccess env id responseTimeMs => (t.recordSuccess env id responseTimeMs).2
  | .recordFailure env id => (t.recordFailure env id).2
  | .remove env id => (t.remove env id).2

/-! ## The recursion of `update` ends -/

theorem shouldSplit_ne_outOfFuel (b : KBucket) : b.shouldSplit ≠ .error .outOfFuel := by
  unfold KBucket.shouldSplit
  split
  · exact fun h => nomatch h
  · split <;> exact fun h => nomatch h

/-- Each split lengthens the prefix of the bucket at the same index, so the calls
left are bounded by the bits the prefix does not cover yet. -/
theorem updateFuel_ne_outOfFuel {fuel : Nat} {t : RoutingTable} {env : Env} {node : Node}
    (h : ∀ index, t.bucketIndex node.id = some index →
      keyLengthBits < fuel + (t.getOrCreateBucket index).prefixLen) (hfuel : 0 < fuel) :
    (updateFuel fuel t env node).1 ≠ .error .outOfFuel := by
  induction fuel generalizing t with
  | zero => omega
  | succ fuel ih =>
    unfold updateFuel
    split
    · exact fun hne => nomatch hne
    split
    · exact fun hne => nomatch hne
    rename_i index hindex
    have hspec := KBucket.update_spec (t.getOrCreateBucket index) env node
    split
    · rename_i fault bucket hupdate
      rw [hupdate] at hspec
      intro hne
      exact hspec.ne_outOfFuel (congrArg Except.error (Except.error.inj hne))
    rename_i update bucket hupdate
    rw [hupdate] at hspec
    split
    · rename_i fault hfault
      intro hne
      obtain rfl : fault = .outOfFuel := Except.error.inj hne
      exact shouldSplit_ne_outOfFuel bucket hfault
    rename_i shouldSplit hshould
    split
    · rename_i hsplit
      split
      · rename_i fault hfault
        intro hne
        exact KBucket.splitNodes_ne_outOfFuel
          (hfault.trans (congrArg Except.error (Except.error.inj hne)))
      · rename_i bucket0 bucket1 hbuckets
        have hlt := KBucket.prefixLen_lt_of_shouldSplit (hshould.trans (by rw [hsplit.1]))
        have hlen := KBucket.splitNodes_prefixLen hbuckets
        have hparams : bucket.prefixLen = (t.getOrCreateBucket index).prefixLen :=
          hspec.params.2.2
        have hbound := h index hindex
        simp only [KBucket.new] at hlen
        refine ih (fun index' hindex' => ?_) (by omega)
        obtain rfl : index = index' := Option.some.inj (hindex.symm.trans hindex')
        have hget : getOrCreateBucket { t with buckets :=
            ((t.buckets.erase index).insert index bucket0).insert (index + 1) bucket1 } index =
            bucket0 := by
          rw [getOrCreateBucket, AList.lookup_insert_ne (by omega), AList.lookup_insert]
        rw [hget]
        omega
    · exact fun hne => nomatch hne

theorem update_ne_outOfFuel (t : RoutingTable) (env : Env) (node : Node) :
    (t.update env node).1 ≠ .error .outOfFuel :=
  updateFuel_ne_outOfFuel (fun _ _ => by omega) (Nat.succ_pos _)

end RoutingTable

end Kademlia
