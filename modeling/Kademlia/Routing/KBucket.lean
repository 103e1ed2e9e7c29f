import Kademlia.Node

/-!
# K-buckets

A bucket keeps its contacts in a queue with the least recently seen one at the
front, and candidates for them in a replacement cache.  The definitions follow the
branches of the source in order.  `UpdateSpec` and `RemoveSpec` list what one call
can do to the queues, and every invariant of a bucket is proved by cases on them.
-/

namespace Kademlia

open Lib

/-- The default `k` parameter. -/
def K : Nat := 20

def nodeTimeout : Duration := Duration.fromSecs (60 * 15)

def minSuccessRate : Float := 0.5

inductive KBucketUpdate where
  | unchanged
  | updated
  | pendingPing (node : Node)
deriving DecidableEq

structure KBucket where
  k : Nat
  localNodeId : NodeId
  prefixLen : Nat
  nodes : List Node
  replacementCache : List Node
deriving DecidableEq

namespace KBucket

def new (localNodeId : NodeId) (prefixLen k : Nat) : KBucket :=
  { k := k, localNodeId := localNodeId, prefixLen := prefixLen, nodes := [],
    replacementCache := [] }

def isFull (b : KBucket) : Bool := decide (b.k ≤ b.nodes.length)

def contains (b : KBucket) (nodeId : NodeId) : Bool :=
  b.nodes.any fun node => node.id == nodeId

def get (b : KBucket) (nodeId : NodeId) : Option Node :=
  b.nodes.find? fun node => node.id == nodeId

/-- `iter().position(|n| n.id == id)` on either queue. -/
def positionOf (xs : List Node) (id : NodeId) : Option Nat :=
  xs.findIdx? fun n => n.id == id

/-- The search for a contact whose success rate is below the threshold. -/
def unreliablePosition (b : KBucket) (env : Env) : Outcome (Option Nat) :=
  positionM (fun n =>
    match n.responseStats.isReliable env minSuccessRate with
    | .error fault => .error fault
    | .ok reliable => .ok !reliable) b.nodes

/-- The cache without the first entry for `nodeId`, if there is one. -/
def cacheWithout (b : KBucket) (nodeId : NodeId) : List Node :=
  match positionOf b.replacementCache nodeId with
  | some pos => b.replacementCache.eraseIdx pos
  | none => b.replacementCache

def update (b : KBucket) (env : Env) (node : Node) : Outcome KBucketUpdate × KBucket :=
  if node.id = b.localNodeId then
    (.error (.err (.other "Cannot add local node to k-bucket")), b)
  else
    match positionOf b.nodes node.id with
    | some pos =>
      match removeAt b.nodes pos with
      | none => (.error (.panic "called `Option::unwrap()` on a `None` value"), b)
      | some (existing, rest) =>
        -- The stored entry is kept, so the statistics of `node` are dropped here.
        (.ok .updated, { b with nodes := rest ++ [existing.updateLastSeen env] })
    | none =>
      if b.nodes.length < b.k then
        (.ok .updated, { b with nodes := b.nodes ++ [node.updateLastSeen env] })
      else
        match b.unreliablePosition env with
        | .error fault => (.error fault, b)
        | .ok (some pos) =>
          match removeAt b.nodes pos with
          | none => (.error (.panic "called `Option::unwrap()` on a `None` value"), b)
          | some (_, rest) =>
            (.ok .updated, { b with nodes := rest ++ [node.updateLastSeen env] })
        | .ok none =>
          match b.nodes with
          | [] => (.error (.panic "bucket not empty"), b)
          | frontNode :: rest =>
            if !frontNode.isActive env nodeTimeout then
              (.ok .updated, { b with nodes := rest ++ [node.updateLastSeen env] })
            else
              (.ok (.pendingPing frontNode),
                { b with replacementCache :=
                    b.cacheWithout node.id ++ [node.updateLastSeen env] })

def remove (b : KBucket) (env : Env) (nodeId : NodeId) : Outcome (Option Node) × KBucket :=
  match positionOf b.nodes nodeId with
  | none => (.ok none, b)
  | some pos =>
    match removeAt b.nodes pos with
    | none => (.error (.panic "called `Option::unwrap()` on a `None` value"), b)
    | some (removedNode, rest) =>
      match b.replacementCache with
      | [] => (.ok (some removedNode), { b with nodes := rest })
      | replacement :: cache =>
        (.ok (some removedNode),
          { b with
            nodes := rest ++ [replacement.updateLastSeen env]
            replacementCache := cache })

def shouldSplit (b : KBucket) : Outcome Bool :=
  if !b.isFull then .ok false
  else
    match b.nodes with
    | [] => .error (.panic "Out of bounds access")
    | first :: _ =>
      let bitAtPos := first.id.bitAt b.prefixLen
      .ok !(b.nodes.all fun node => node.id.bitAt b.prefixLen == bitAtPos)

/-- The loop of `split` over the contacts.  A failed `update` is ignored with
`.ok()`, and a panic in it ends the call. -/
def splitNodes (prefixLen : Nat) (env : Env) :
    List Node → KBucket × KBucket → Outcome (KBucket × KBucket)
  | [], buckets => .ok buckets
  | node :: rest, (bucket0, bucket1) =>
    let bucket := if node.id.bitAt prefixLen then bucket1 else bucket0
    match bucket.update env node with
    | (.error (.panic message), _) => .error (.panic message)
    | (_, bucket') =>
      splitNodes prefixLen env rest
        (if node.id.bitAt prefixLen then (bucket0, bucket') else (bucket', bucket1))

def split (b : KBucket) (env : Env) : Outcome (KBucket × KBucket) :=
  let newPrefixLen := b.prefixLen + 1
  splitNodes b.prefixLen env b.nodes
    (new b.localNodeId newPrefixLen b.k, new b.localNodeId newPrefixLen b.k)

/-! ## What one call can do -/

/-- The reliability test the eviction makes on a contact. -/
def Reliable (env : Env) (node : Node) : Prop :=
  node.responseStats.isReliable env minSuccessRate = .ok true

def Unreliable (env : Env) (node : Node) : Prop :=
  node.responseStats.isReliable env minSuccessRate = .ok false

/-- `xs` is `l ++ x :: r` and `x` is its first element with the identifier `id`. -/
structure SplitAt (xs l : List Node) (x : Node) (r : List Node) (id : NodeId) : Prop where
  eq : xs = l ++ x :: r
  id_eq : x.id = id
  before : ∀ y ∈ l, y.id ≠ id

/-- What a bucket does with an identifier that is not among its contacts. -/
inductive Admission where
  | admits
  | caches
  | faults
deriving DecidableEq

/-- A bucket admits a new contact when it has room, or a contact that is unreliable, or
a front contact that is not active.  The search for an unreliable contact can overflow. -/
def admission (b : KBucket) (env : Env) : Admission :=
  if b.nodes.length < b.k then .admits
  else
    match b.unreliablePosition env with
    | .error _ => .faults
    | .ok (some _) => .admits
    | .ok none =>
      match b.nodes with
      | [] => .faults
      | frontNode :: _ => if frontNode.isActive env nodeTimeout then .caches else .admits

/-- The outcomes of `update`, one constructor for each branch of the source. -/
inductive UpdateSpec (b : KBucket) (env : Env) (node : Node) :
    Outcome KBucketUpdate → KBucket → Prop where
  | isLocal (hlocal : node.id = b.localNodeId) :
      UpdateSpec b env node (.error (.err (.other "Cannot add local node to k-bucket"))) b
  | refreshed {l r : List Node} {existing : Node} (hlocal : node.id ≠ b.localNodeId)
      (hsplit : SplitAt b.nodes l existing r node.id) :
      UpdateSpec b env node (.ok .updated)
        { b with nodes := l ++ r ++ [existing.updateLastSeen env] }
  | inserted (hlocal : node.id ≠ b.localNodeId) (hnew : ∀ x ∈ b.nodes, x.id ≠ node.id)
      (hroom : b.nodes.length < b.k) :
      UpdateSpec b env node (.ok .updated)
        { b with nodes := b.nodes ++ [node.updateLastSeen env] }
  | overflowed {fault : Fault} (hlocal : node.id ≠ b.localNodeId)
      (hnew : ∀ x ∈ b.nodes, x.id ≠ node.id) (hfull : b.k ≤ b.nodes.length)
      (hfault : b.unreliablePosition env = .error fault) :
      UpdateSpec b env node (.error fault) b
  | evicted {pos : Nat} {l r : List Node} {dropped : Node} (hlocal : node.id ≠ b.localNodeId)
      (hnew : ∀ x ∈ b.nodes, x.id ≠ node.id) (hfull : b.k ≤ b.nodes.length)
      (hscan : b.unreliablePosition env = .ok (some pos))
      (hsplit : b.nodes = l ++ dropped :: r) (hdropped : Unreliable env dropped) :
      UpdateSpec b env node (.ok .updated)
        { b with nodes := l ++ r ++ [node.updateLastSeen env] }
  | empty (hlocal : node.id ≠ b.localNodeId) (hfull : b.k ≤ b.nodes.length)
      (hscan : b.unreliablePosition env = .ok none) (hempty : b.nodes = []) :
      UpdateSpec b env node (.error (.panic "bucket not empty")) b
  | expired {front : Node} {r : List Node} (hlocal : node.id ≠ b.localNodeId)
      (hnew : ∀ x ∈ b.nodes, x.id ≠ node.id) (hfull : b.k ≤ b.nodes.length)
      (hscan : b.unreliablePosition env = .ok none) (hsplit : b.nodes = front :: r)
      (hinactive : front.isActive env nodeTimeout = false) :
      UpdateSpec b env node (.ok .updated)
        { b with nodes := r ++ [node.updateLastSeen env] }
  | cached {front : Node} {r : List Node} (hlocal : node.id ≠ b.localNodeId)
      (hnew : ∀ x ∈ b.nodes, x.id ≠ node.id) (hfull : b.k ≤ b.nodes.length)
      (hscan : b.unreliablePosition env = .ok none) (hsplit : b.nodes = front :: r)
      (hactive : front.isActive env nodeTimeout = true) :
      UpdateSpec b env node (.ok (.pendingPing front))
        { b with replacementCache := b.cacheWithout node.id ++ [node.updateLastSeen env] }

/-- The outcomes of `remove`. -/
inductive RemoveSpec (b : KBucket) (env : Env) (id : NodeId) :
    Outcome (Option Node) → KBucket → Prop where
  | absent (hnew : ∀ x ∈ b.nodes, x.id ≠ id) : RemoveSpec b env id (.ok none) b
  | dropped {l r : List Node} {removed : Node} (hsplit : SplitAt b.nodes l removed r id)
      (hcache : b.replacementCache = []) :
      RemoveSpec b env id (.ok (some removed)) { b with nodes := l ++ r }
  | promoted {l r cache : List Node} {removed replacement : Node}
      (hsplit : SplitAt b.nodes l removed r id)
      (hcache : b.replacementCache = replacement :: cache) :
      RemoveSpec b env id (.ok (some removed))
        { b with
          nodes := l ++ r ++ [replacement.updateLastSeen env]
          replacementCache := cache }

theorem SplitAt.mem {xs l r : List Node} {x : Node} {id : NodeId} (h : SplitAt xs l x r id) :
    x ∈ xs := by
  rw [h.eq]
  exact List.mem_append_right l List.mem_cons_self

theorem SplitAt.sublist {xs l r : List Node} {x : Node} {id : NodeId} (h : SplitAt xs l x r id) :
    (l ++ r).Sublist xs := by
  rw [h.eq]
  exact sublist_of_split l r x

theorem splitAt_of_positionOf {xs : List Node} {id : NodeId} {pos : Nat}
    (h : positionOf xs id = some pos) :
    ∃ l x r, SplitAt xs l x r id ∧ removeAt xs pos = some (x, l ++ r) := by
  obtain ⟨l, x, r, hxs, hx, hl, hrem⟩ := findIdx?_split h
  refine ⟨l, x, r, ⟨hxs, beq_iff_eq.mp hx, fun y hy => ?_⟩, hrem⟩
  exact beq_eq_false_iff_ne.mp (hl y hy)

theorem positionOf_eq_none_iff {xs : List Node} {id : NodeId} :
    positionOf xs id = none ↔ ∀ x ∈ xs, x.id ≠ id := by
  simp [positionOf]

theorem cacheWithout_eq_eraseP (b : KBucket) (id : NodeId) :
    b.cacheWithout id = b.replacementCache.eraseP fun n => n.id == id := by
  rw [List.eraseP_eq_eraseIdx, cacheWithout, positionOf]
  cases b.replacementCache.findIdx? fun n => n.id == id <;> rfl

/-- The test of the search returns the opposite of the reliability test. -/
theorem isReliable_of_test {stats : ResponseStats} {env : Env} {unreliable : Bool}
    (h : (match stats.isReliable env minSuccessRate with
      | .error fault => .error fault
      | .ok reliable => .ok !reliable : Outcome Bool) = .ok unreliable) :
    stats.isReliable env minSuccessRate = .ok !unreliable := by
  cases hreliable : stats.isReliable env minSuccessRate with
  | error fault =>
    rw [hreliable] at h
    cases h
  | ok reliable =>
    rw [hreliable] at h
    rw [← Except.ok.inj h, Bool.not_not]

theorem reliable_of_unreliablePosition {b : KBucket} {env : Env}
    (h : b.unreliablePosition env = .ok none) : ∀ x ∈ b.nodes, Reliable env x :=
  fun x hx => isReliable_of_test (positionM_eq_none h x hx)

theorem unreliable_of_unreliablePosition {b : KBucket} {env : Env} {pos : Nat}
    (h : b.unreliablePosition env = .ok (some pos)) :
    ∃ l x r, b.nodes = l ++ x :: r ∧ Unreliable env x ∧
      removeAt b.nodes pos = some (x, l ++ r) := by
  obtain ⟨l, x, r, hxs, htest, -, hrem⟩ := positionM_split h
  exact ⟨l, x, r, hxs, isReliable_of_test htest, hrem⟩

theorem update_spec (b : KBucket) (env : Env) (node : Node) :
    UpdateSpec b env node (b.update env node).1 (b.update env node).2 := by
  unfold update
  by_cases hlocal : node.id = b.localNodeId
  · rw [if_pos hlocal]
    exact .isLocal hlocal
  rw [if_neg hlocal]
  rcases hpos : positionOf b.nodes node.id with _ | pos
  · have hnew := positionOf_eq_none_iff.mp hpos
    by_cases hroom : b.nodes.length < b.k
    · simp only [hroom, if_true]
      exact .inserted hlocal hnew hroom
    have hfull : b.k ≤ b.nodes.length := Nat.not_lt.mp hroom
    simp only [hroom, if_false]
    rcases hscan : b.unreliablePosition env with fault | found
    · exact .overflowed hlocal hnew hfull hscan
    cases found with
    | some pos =>
      obtain ⟨l, x, r, hsplit, hx, hrem⟩ := unreliable_of_unreliablePosition hscan
      simp only [hrem]
      exact .evicted hlocal hnew hfull hscan hsplit hx
    | none =>
      dsimp only
      split
      · rename_i hnodes
        exact .empty hlocal hfull hscan hnodes
      · rename_i front rest hnodes
        by_cases hactive : front.isActive env nodeTimeout = true
        · simp only [hactive, Bool.not_true, Bool.false_eq_true, if_false]
          exact .cached hlocal hnew hfull hscan hnodes hactive
        · have hinactive := Bool.eq_false_iff.mpr hactive
          simp only [hinactive, Bool.not_false, if_true]
          exact .expired hlocal hnew hfull hscan hnodes hinactive
  · obtain ⟨l, x, r, hsplit, hrem⟩ := splitAt_of_positionOf hpos
    simp only [hrem]
    exact .refreshed hlocal hsplit

theorem remove_spec (b : KBucket) (env : Env) (id : NodeId) :
    RemoveSpec b env id (b.remove env id).1 (b.remove env id).2 := by
  unfold remove
  rcases hpos : positionOf b.nodes id with _ | pos
  · exact .absent (positionOf_eq_none_iff.mp hpos)
  · obtain ⟨l, x, r, hsplit, hrem⟩ := splitAt_of_positionOf hpos
    simp only [hrem]
    split
    · rename_i hcache
      exact .dropped hsplit hcache
    · rename_i replacement cache hcache
      exact .promoted hsplit hcache

theorem RemoveSpec.ok {b b' : KBucket} {env : Env} {id : NodeId}
    {result : Outcome (Option Node)} (h : RemoveSpec b env id result b') :
    ∃ removed, result = .ok removed := by
  cases h <;> exact ⟨_, rfl⟩

/-- No call changes the parameters of a bucket. -/
theorem UpdateSpec.params {b b' : KBucket} {env : Env} {node : Node}
    {result : Outcome KBucketUpdate} (h : UpdateSpec b env node result b') :
    b'.k = b.k ∧ b'.localNodeId = b.localNodeId ∧ b'.prefixLen = b.prefixLen := by
  cases h <;> exact ⟨rfl, rfl, rfl⟩

theorem unreliablePosition_eq_error {b : KBucket} {env : Env} {fault : Fault}
    (h : b.unreliablePosition env = .error fault) :
    fault = .panic "attempt to add with overflow" := by
  obtain ⟨x, -, hx⟩ := positionM_eq_error h
  split at hx
  · rename_i fault' hfault
    rw [← Except.error.inj hx]
    exact ResponseStats.isReliable_eq_error hfault
  · cases hx

theorem UpdateSpec.ne_outOfFuel {b b' : KBucket} {env : Env} {node : Node}
    {result : Outcome KBucketUpdate} (h : UpdateSpec b env node result b') :
    result ≠ .error .outOfFuel := by
  cases h with
  | overflowed _ _ _ hfault =>
    rw [unreliablePosition_eq_error hfault]
    exact fun hne => nomatch hne
  | _ => exact fun hne => nomatch hne

/-- An update that did not fail leaves a contact in the bucket. -/
theorem UpdateSpec.nodes_ne_nil {b b' : KBucket} {env : Env} {node : Node} {update : KBucketUpdate}
    (h : UpdateSpec b env node (.ok update) b') : b'.nodes ≠ [] := by
  cases h with
  | cached _ _ _ _ hsplit _ =>
    rw [hsplit]
    exact List.cons_ne_nil _ _
  | _ => exact List.append_ne_nil_of_right_ne_nil _ (List.cons_ne_nil _ _)

/-- A bucket whose prefix covers the whole identifier has no bit left to split at. -/
theorem prefixLen_lt_of_shouldSplit {b : KBucket} (h : b.shouldSplit = .ok true) :
    b.prefixLen < keyLengthBits := by
  by_contra hge
  have hbit : ∀ x : NodeId, x.bitAt b.prefixLen = false :=
    fun x => NodeId.bitAt_of_ge x (Nat.not_lt.mp hge)
  unfold shouldSplit at h
  split at h
  · cases h
  · split at h
    · cases h
    · simp [hbit] at h

theorem splitNodes_prefixLen {prefixLen : Nat} {env : Env} {nodes : List Node}
    {buckets result : KBucket × KBucket}
    (h : splitNodes prefixLen env nodes buckets = .ok result) :
    result.1.prefixLen = buckets.1.prefixLen := by
  induction nodes generalizing buckets with
  | nil =>
    rw [splitNodes, Except.ok.injEq] at h
    rw [h]
  | cons node rest ih =>
    obtain ⟨bucket0, bucket1⟩ := buckets
    rw [splitNodes] at h
    split at h
    · cases h
    · rename_i bucket' hne heq
      rw [ih h]
      by_cases hbit : node.id.bitAt prefixLen = true
      · rw [if_pos hbit]
      · rw [if_neg hbit] at heq ⊢
        have hparams := (update_spec bucket0 env node).params
        rw [heq] at hparams
        exact hparams.2.2

theorem splitNodes_ne_outOfFuel {prefixLen : Nat} {env : Env} {nodes : List Node}
    {buckets : KBucket × KBucket} : splitNodes prefixLen env nodes buckets ≠ .error .outOfFuel := by
  induction nodes generalizing buckets with
  | nil => exact fun h => nomatch h
  | cons node rest ih =>
    obtain ⟨bucket0, bucket1⟩ := buckets
    rw [splitNodes]
    split
    · exact fun h => nomatch h
    · exact ih

end KBucket

end Kademlia
