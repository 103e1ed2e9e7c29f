import Kademlia.Lib.Recency
import Kademlia.Routing.Step

/-!
# What a split keeps

`split` builds its two halves by updating them with the contacts of the bucket one after
another.  Each update puts a new stamp on its contact, two contacts with one identifier
become one, and the replacement cache is not looked at.  The main result says that
nothing is lost or changed exactly for the buckets in which none of this shows, as long
as the length of the prefix does not overflow.
-/

namespace Kademlia

open Lib

/-- The operations of a bucket. -/
inductive BucketOp where
  | update (env : Env) (node : Node)
  | remove (env : Env) (nodeId : NodeId)
deriving DecidableEq

namespace KBucket

def step (b : KBucket) : BucketOp → KBucket
  | .update env node => (b.update env node).2
  | .remove env nodeId => (b.remove env nodeId).2

/-- The loop of `split` where each contact comes with the readings of its update. -/
def splitEntries (prefixLen : Nat) :
    List (Env × Node) → KBucket × KBucket → Outcome (KBucket × KBucket)
  | [], buckets => .ok buckets
  | (env, node) :: rest, (bucket0, bucket1) =>
    let bucket := if node.id.bitAt prefixLen then bucket1 else bucket0
    match bucket.update env node with
    | (.error (.panic message), _) => .error (.panic message)
    | (_, bucket') =>
      splitEntries prefixLen rest
        (if node.id.bitAt prefixLen then (bucket0, bucket') else (bucket', bucket1))

/-- The contacts, each with what its update in `split` reads. -/
def entries (b : KBucket) (clock : Nat → Env) : List (Env × Node) :=
  b.nodes.mapIdx fun i node => (clock i, node)

/-- `prefix_len + 1` as a `usize` of 64 bits, in a build with or without overflow checks. -/
def newPrefixLen (overflowChecks : Bool) (prefixLen : Nat) : Outcome Nat :=
  if prefixLen + 1 < 2 ^ 64 then .ok (prefixLen + 1)
  else if overflowChecks then .error (.panic "attempt to add with overflow")
  else .ok ((prefixLen + 1) % 2 ^ 64)

/-- `split` where the update of the contact at position `i` reads `clock i`. -/
def splitReading (b : KBucket) (overflowChecks : Bool) (clock : Nat → Env) :
    Outcome (KBucket × KBucket) :=
  match newPrefixLen overflowChecks b.prefixLen with
  | .error fault => .error fault
  | .ok newPrefixLen =>
    splitEntries b.prefixLen (b.entries clock)
      (new b.localNodeId newPrefixLen b.k, new b.localNodeId newPrefixLen b.k)

theorem splitNodes_eq (prefixLen : Nat) (env : Env) (nodes : List Node)
    (buckets : KBucket × KBucket) :
    splitNodes prefixLen env nodes buckets =
      splitEntries prefixLen (nodes.map fun node => (env, node)) buckets := by
  induction nodes generalizing buckets with
  | nil => rfl
  | cons node rest ih =>
    obtain ⟨bucket0, bucket1⟩ := buckets
    rw [splitNodes, List.map_cons, splitEntries]
    rcases (if node.id.bitAt prefixLen then bucket1 else bucket0).update env node with
      ⟨fault | update, bucket'⟩
    · cases fault with
      | panic message => rfl
      | err error => exact ih _
      | outOfFuel => exact ih _
    · exact ih _

/-- The split at one instant of a bucket whose prefix can grow. -/
theorem split_eq_splitReading {b : KBucket} (h : b.prefixLen + 1 < 2 ^ 64) (env : Env) :
    b.split env = b.splitReading env.overflowChecks fun _ => env := by
  have hentries : b.entries (fun _ => env) = b.nodes.map fun node => (env, node) := by
    apply List.ext_getElem?
    simp [entries]
  rw [splitReading, newPrefixLen, if_pos h, hentries]
  exact splitNodes_eq _ _ _ _

/-! ## The halves -/

/-- The contacts after an update for an entry in a bucket with room. -/
def sighted : List Node → Env × Node → List Node :=
  touch Node.id fun env node => node.updateLastSeen env

/-- The identifier of the contact has `bit` at the position the bucket splits at. -/
def onSide (b : KBucket) (bit : Bool) (node : Node) : Bool := node.id.bitAt b.prefixLen == bit

/-- The half for `bit`. -/
def half (b : KBucket) (newPrefixLen : Nat) (clock : Nat → Env) (bit : Bool) : KBucket :=
  { new b.localNodeId newPrefixLen b.k with
    nodes := ((b.entries clock).filter fun entry => b.onSide bit entry.2).foldl sighted [] }

theorem update_of_room {b : KBucket} {env : Env} {node : Node} (hlocal : node.id ≠ b.localNodeId)
    (hroom : b.nodes.length < b.k) :
    b.update env node = (.ok .updated, { b with nodes := sighted b.nodes (env, node) }) := by
  have hspec := update_spec b env node
  have hnotFull : ¬ b.k ≤ b.nodes.length := Nat.not_le.mpr hroom
  rcases hresult : b.update env node with ⟨result, b'⟩
  rw [hresult] at hspec
  cases hspec with
  | isLocal hlocal' => exact absurd hlocal' hlocal
  | refreshed _ hsplit =>
    rw [sighted, hsplit.eq, touch_of_split hsplit.id_eq hsplit.before]
  | inserted _ hnew _ => rw [sighted, touch_of_new hnew]
  | overflowed _ _ hfull _ => exact absurd hfull hnotFull
  | evicted _ _ hfull _ _ _ => exact absurd hfull hnotFull
  | empty _ hfull _ _ => exact absurd hfull hnotFull
  | expired _ _ hfull _ _ _ => exact absurd hfull hnotFull
  | cached _ _ hfull _ _ _ => exact absurd hfull hnotFull

/-- The bucket takes all entries without evicting a contact. -/
structure RoomFor (b : KBucket) (entries : List (Env × Node)) : Prop where
  foreign : ∀ entry ∈ entries, entry.2.id ≠ b.localNodeId
  room : b.nodes.length + entries.length ≤ b.k

theorem RoomFor.update {b : KBucket} {env : Env} {node : Node} {rest : List (Env × Node)}
    (h : b.RoomFor ((env, node) :: rest)) :
    b.update env node = (.ok .updated, { b with nodes := sighted b.nodes (env, node) }) := by
  have hroom := h.room
  rw [List.length_cons] at hroom
  exact update_of_room (h.foreign _ List.mem_cons_self) (by omega)

theorem RoomFor.tail {b : KBucket} {entry : Env × Node} {rest : List (Env × Node)}
    (h : b.RoomFor (entry :: rest)) : b.RoomFor rest := by
  have hroom := h.room
  rw [List.length_cons] at hroom
  exact ⟨fun e he => h.foreign e (List.mem_cons_of_mem entry he), by omega⟩

theorem RoomFor.sighted {b : KBucket} {entry : Env × Node} {rest : List (Env × Node)}
    (h : b.RoomFor (entry :: rest)) :
    { b with nodes := sighted b.nodes entry }.RoomFor rest := by
  have hroom := h.room
  have hlen : (KBucket.sighted b.nodes entry).length ≤ b.nodes.length + 1 := length_touch_le _ _
  rw [List.length_cons] at hroom
  refine ⟨h.tail.foreign, ?_⟩
  dsimp only
  omega

/-- With room in both buckets the loop hands every entry to the bucket of its bit. -/
theorem splitEntries_eq {prefixLen : Nat} {entries : List (Env × Node)} {bucket0 bucket1 : KBucket}
    (h0 : bucket0.RoomFor entries) (h1 : bucket1.RoomFor entries) :
    splitEntries prefixLen entries (bucket0, bucket1) =
      .ok ({ bucket0 with nodes := (entries.filter fun entry =>
              entry.2.id.bitAt prefixLen == false).foldl KBucket.sighted bucket0.nodes },
        { bucket1 with nodes := (entries.filter fun entry =>
              entry.2.id.bitAt prefixLen == true).foldl KBucket.sighted bucket1.nodes }) := by
  induction entries generalizing bucket0 bucket1 with
  | nil => rfl
  | cons entry rest ih =>
    obtain ⟨env, node⟩ := entry
    rw [splitEntries]
    by_cases hbit : node.id.bitAt prefixLen = true
    · simp only [hbit, if_true, h1.update]
      rw [ih h0.tail h1.sighted]
      simp [hbit]
    · simp only [hbit, if_false, Bool.false_eq_true, h0.update]
      rw [ih h0.sighted h1.tail]
      simp [hbit]

/-- All that a bucket stores, its contacts before its candidates. -/
def contents (b : KBucket) : List Node := b.nodes ++ b.replacementCache

/-- What holds of a bucket since it was empty. -/
structure Grown (b : KBucket) : Prop where
  length_le : b.nodes.length ≤ b.k
  foreign : ∀ n ∈ b.contents, n.id ≠ b.localNodeId

theorem grown_new (localNodeId : NodeId) (prefixLen k : Nat) :
    (new localNodeId prefixLen k).Grown :=
  ⟨Nat.zero_le k, fun _ h => nomatch h⟩

theorem Grown.move {b b' : KBucket} {op : TableOp} (h : b.Grown)
    (hlocal : ∀ env node, op = .update env node → node.id ≠ b.localNodeId)
    (hmove : Move b op b') : b'.Grown := by
  refine ⟨hmove.length_nodes_le h.length_le, ?_⟩
  rw [hmove.params.2.1]
  exact hmove.forall_stored (P := fun n => n.id ≠ b.localNodeId) (fun _ _ hn => hn) hlocal h.foreign

theorem Grown.step {b : KBucket} (h : b.Grown) (op : BucketOp) : (b.step op).Grown := by
  cases op with
  | update env node =>
    rw [KBucket.step]
    by_cases hlocal : node.id = b.localNodeId
    · rw [update, if_pos hlocal]
      exact h
    · refine h.move ?_ ((update_spec b env node).move hlocal)
      rintro env' node' heq
      obtain ⟨-, rfl⟩ := TableOp.update.inj heq
      exact hlocal
  | remove env nodeId =>
    refine h.move ?_ (remove_spec b env nodeId).move
    exact fun _ _ heq => nomatch heq

theorem grown_run (localNodeId : NodeId) (prefixLen k : Nat) (ops : List BucketOp) :
    (run step (new localNodeId prefixLen k) ops).Grown :=
  invariant (P := Grown) (fun _ op h => h.step op) (grown_new localNodeId prefixLen k) ops

theorem map_snd_entries (b : KBucket) (clock : Nat → Env) :
    (b.entries clock).map Prod.snd = b.nodes := by
  apply List.ext_getElem?
  intro i
  rw [entries, List.getElem?_map, List.getElem?_mapIdx, Option.map_map]
  exact Option.map_id'

theorem mem_nodes_of_mem_entries {b : KBucket} {clock : Nat → Env} {entry : Env × Node}
    (h : entry ∈ b.entries clock) : entry.2 ∈ b.nodes := by
  rw [← map_snd_entries b clock]
  exact List.mem_map_of_mem h

theorem newPrefixLen_eq_ok_iff {overflowChecks : Bool} {prefixLen : Nat} :
    (∃ n, newPrefixLen overflowChecks prefixLen = .ok n) ↔
      (overflowChecks = true → prefixLen + 1 < 2 ^ 64) := by
  unfold newPrefixLen
  by_cases hlt : prefixLen + 1 < 2 ^ 64
  · rw [if_pos hlt]
    exact ⟨fun _ _ => hlt, fun _ => ⟨_, rfl⟩⟩
  · rw [if_neg hlt]
    cases overflowChecks with
    | false => exact ⟨fun _ h => (nomatch h), fun _ => ⟨_, rfl⟩⟩
    | true =>
      refine ⟨?_, fun h => absurd (h rfl) hlt⟩
      rintro ⟨n, hn⟩
      cases hn

/-- When the prefix can grow, the split of a bucket does not fail. -/
theorem Grown.splitReading_eq {b : KBucket} (h : b.Grown) {overflowChecks : Bool} {n : Nat}
    (hnew : newPrefixLen overflowChecks b.prefixLen = .ok n) (clock : Nat → Env) :
    b.splitReading overflowChecks clock = .ok (b.half n clock false, b.half n clock true) := by
  have hroom : (new b.localNodeId n b.k).RoomFor (b.entries clock) := by
    refine ⟨fun entry hentry => ?_, ?_⟩
    · exact h.foreign _ (List.mem_append_left _ (mem_nodes_of_mem_entries hentry))
    · rw [← List.length_map (f := Prod.snd), map_snd_entries]
      simpa [new] using h.length_le
  rw [splitReading, hnew]
  exact splitEntries_eq hroom hroom

/-! ## When nothing is lost -/

/-- The halves have the entries of a queue unchanged and in their order, each of them in
the half for its bit, and nothing else. -/
structure Partitions (b : KBucket) (halves : KBucket × KBucket) (queue : KBucket → List Node) :
    Prop where
  zeros : queue halves.1 = (queue b).filter (b.onSide false)
  ones : queue halves.2 = (queue b).filter (b.onSide true)

/-- The bucket has no candidates, no two contacts with one identifier, and only contacts
that were last seen at the second in which their update reads the clock. -/
structure Settled (b : KBucket) (clock : Nat → Env) : Prop where
  cache : b.replacementCache = []
  nodup : (b.nodes.map Node.id).Nodup
  stamped : ∀ entry ∈ b.entries clock, entry.2.lastSeen = .at entry.1.stampedAt

theorem updateLastSeen_eq_self_iff {env : Env} {node : Node} :
    node.updateLastSeen env = node ↔ node.lastSeen = .at env.stampedAt := by
  obtain ⟨id, addr, lastSeen, responseStats⟩ := node
  simp [Node.updateLastSeen, eq_comm]

theorem filter_entries (b : KBucket) (clock : Nat → Env) (bit : Bool) :
    ((b.entries clock).filter fun entry => b.onSide bit entry.2).map Prod.snd =
      b.nodes.filter (b.onSide bit) := by
  rw [← map_snd_entries b clock, List.filter_map]
  rfl

theorem half_nodes_of_nodup {b : KBucket} (h : (b.nodes.map Node.id).Nodup) (n : Nat)
    (clock : Nat → Env) (bit : Bool) :
    (b.half n clock bit).nodes = ((b.entries clock).filter fun entry => b.onSide bit entry.2).map
      fun entry => entry.2.updateLastSeen entry.1 := by
  have hids : (((b.entries clock).filter fun entry => b.onSide bit entry.2).map
      fun entry => entry.2.id).Nodup := by
    have hsub := (List.filter_sublist (p := b.onSide bit) (l := b.nodes)).map Node.id
    rw [← filter_entries b clock, List.map_map] at hsub
    exact h.sublist hsub
  refine touches_of_nodup ?_ ?_
  · exact fun _ _ => rfl
  · exact hids

/-- The halves of a settled bucket have its contacts as they were. -/
theorem Settled.half_nodes {b : KBucket} {clock : Nat → Env} (h : b.Settled clock) (n : Nat)
    (bit : Bool) :
    (b.half n clock bit).nodes = b.nodes.filter (b.onSide bit) := by
  rw [half_nodes_of_nodup h.nodup, ← filter_entries b clock]
  apply List.map_congr_left
  intro entry hentry
  exact updateLastSeen_eq_self_iff.mpr (h.stamped entry (List.mem_filter.mp hentry).1)

theorem contents_half (b : KBucket) (n : Nat) (clock : Nat → Env) (bit : Bool) :
    (b.half n clock bit).contents = (b.half n clock bit).nodes := List.append_nil _

theorem length_half_le (b : KBucket) (n : Nat) (clock : Nat → Env) (bit : Bool) :
    (b.half n clock bit).nodes.length ≤ (b.nodes.filter (b.onSide bit)).length := by
  rw [← filter_entries b clock, List.length_map]
  have hle : (b.half n clock bit).nodes.length ≤ [].length + _ := length_touches_le _ _
  rwa [List.length_nil, Nat.zero_add] at hle

theorem nodup_half (b : KBucket) (n : Nat) (clock : Nat → Env) (bit : Bool) :
    ((b.half n clock bit).nodes.map Node.id).Nodup := by
  refine nodup_touches ?_ _ ?_
  · exact fun _ _ => rfl
  · exact List.nodup_nil

/-- Each entry of a queue is on one of the two sides. -/
theorem filter_onSide_perm (b : KBucket) (nodes : List Node) :
    (nodes.filter (b.onSide true) ++ nodes.filter (b.onSide false)).Perm nodes := by
  have hfalse : b.onSide false = fun node => !b.onSide true node := by
    funext node
    simp [onSide]
  rw [hfalse]
  exact List.filter_append_perm _ _

theorem length_filter_onSide (b : KBucket) (nodes : List Node) :
    (nodes.filter (b.onSide true)).length + (nodes.filter (b.onSide false)).length =
      nodes.length := by
  rw [← List.length_append]
  exact (b.filter_onSide_perm nodes).length_eq

/-- Contacts on different sides have different identifiers. -/
theorem nodup_of_sides {b : KBucket}
    (h : ∀ bit, ((b.nodes.filter (b.onSide bit)).map Node.id).Nodup) :
    (b.nodes.map Node.id).Nodup := by
  refine ((b.filter_onSide_perm b.nodes).map Node.id).nodup_iff.mp ?_
  rw [List.map_append, List.nodup_append]
  refine ⟨h true, h false, ?_⟩
  intro id hone id' hzero heq
  obtain ⟨n, hn, rfl⟩ := List.mem_map.mp hone
  obtain ⟨m, hm, rfl⟩ := List.mem_map.mp hzero
  have hbitOne : n.id.bitAt b.prefixLen = true := beq_iff_eq.mp (List.mem_filter.mp hn).2
  have hbitZero : m.id.bitAt b.prefixLen = false := beq_iff_eq.mp (List.mem_filter.mp hm).2
  rw [heq, hbitZero] at hbitOne
  cases hbitOne

/-- A split that keeps all that a bucket stores was a split of a settled bucket. -/
theorem settled_of_partitions {b : KBucket} {n : Nat} {clock : Nat → Env}
    (h : b.Partitions (b.half n clock false, b.half n clock true) contents) : b.Settled clock := by
  have hcontents : ∀ bit, (b.half n clock bit).nodes = b.contents.filter (b.onSide bit) := by
    intro bit
    rw [← contents_half]
    cases bit with
    | false => exact h.zeros
    | true => exact h.ones
  -- The halves have no more entries than the bucket has contacts.
  have hcache : b.replacementCache = [] := by
    have hzeros := b.length_half_le n clock false
    have hones := b.length_half_le n clock true
    rw [hcontents] at hzeros hones
    have hall := b.length_filter_onSide b.contents
    have hnodes := b.length_filter_onSide b.nodes
    have hlength : b.contents.length = b.nodes.length + b.replacementCache.length :=
      List.length_append
    exact List.eq_nil_of_length_eq_zero (by omega)
  have hhalf : ∀ bit, (b.half n clock bit).nodes = b.nodes.filter (b.onSide bit) := by
    intro bit
    rw [hcontents, contents, hcache, List.append_nil]
  have hnodup : (b.nodes.map Node.id).Nodup :=
    nodup_of_sides fun bit => hhalf bit ▸ b.nodup_half n clock bit
  refine ⟨hcache, hnodup, fun entry hentry => ?_⟩
  have hside := half_nodes_of_nodup hnodup n clock (entry.2.id.bitAt b.prefixLen)
  rw [hhalf, ← filter_entries b clock, eq_comm, List.map_inj_left] at hside
  have hmem : b.onSide (entry.2.id.bitAt b.prefixLen) entry.2 = true := beq_self_eq_true _
  exact updateLastSeen_eq_self_iff.mp (hside entry (List.mem_filter.mpr ⟨hentry, hmem⟩))

theorem Settled.partitions {b : KBucket} {clock : Nat → Env} (h : b.Settled clock) (n : Nat) :
    b.Partitions (b.half n clock false, b.half n clock true) KBucket.nodes ∧
      b.Partitions (b.half n clock false, b.half n clock true) KBucket.replacementCache := by
  refine ⟨⟨h.half_nodes n false, h.half_nodes n true⟩, ?_, ?_⟩
  · rw [h.cache]
    rfl
  · rw [h.cache]
    rfl

theorem Partitions.contents {b : KBucket} {halves : KBucket × KBucket}
    (hnodes : b.Partitions halves KBucket.nodes)
    (hcache : b.Partitions halves KBucket.replacementCache) :
    b.Partitions halves KBucket.contents := by
  constructor
  · rw [KBucket.contents, KBucket.contents, List.filter_append, hnodes.zeros, hcache.zeros]
  · rw [KBucket.contents, KBucket.contents, List.filter_append, hnodes.ones, hcache.ones]

/-- A property that the halves have for settled buckets holds of a split when it returns. -/
theorem Grown.split_iff_settled {b : KBucket} (h : b.Grown) {overflowChecks : Bool}
    {clock : Nat → Env} {P : KBucket × KBucket → Prop}
    (hP : ∀ n, P (b.half n clock false, b.half n clock true) ↔ b.Settled clock) :
    (∃ halves, b.splitReading overflowChecks clock = .ok halves ∧ P halves) ↔
      (overflowChecks = true → b.prefixLen + 1 < 2 ^ 64) ∧ b.Settled clock := by
  rw [← newPrefixLen_eq_ok_iff]
  constructor
  · rintro ⟨halves, hhalves, hkeeps⟩
    cases hnew : newPrefixLen overflowChecks b.prefixLen with
    | error fault =>
      rw [splitReading, hnew] at hhalves
      cases hhalves
    | ok n =>
      obtain rfl := Except.ok.inj ((h.splitReading_eq hnew clock).symm.trans hhalves)
      exact ⟨⟨n, rfl⟩, (hP n).mp hkeeps⟩
  · rintro ⟨⟨n, hnew⟩, hsettled⟩
    exact ⟨_, h.splitReading_eq hnew clock, (hP n).mpr hsettled⟩

/-- The split of a bucket keeps all that it stores, and keeps it in the two queues it was in,
exactly when the bucket is settled and its prefix can grow. -/
theorem split_lossless_iff (localNodeId : NodeId) (prefixLen k : Nat) (ops : List BucketOp)
    (overflowChecks : Bool) (clock : Nat → Env) :
    let b := run step (new localNodeId prefixLen k) ops
    ((∃ halves, b.splitReading overflowChecks clock = .ok halves ∧ b.Partitions halves contents) ↔
      (overflowChecks = true → b.prefixLen + 1 < 2 ^ 64) ∧ b.Settled clock) ∧
    ((∃ halves, b.splitReading overflowChecks clock = .ok halves ∧
        b.Partitions halves KBucket.nodes ∧ b.Partitions halves KBucket.replacementCache) ↔
      (overflowChecks = true → b.prefixLen + 1 < 2 ^ 64) ∧ b.Settled clock) := by
  intro b
  have hgrown : b.Grown := grown_run localNodeId prefixLen k ops
  constructor
  · refine hgrown.split_iff_settled fun n => ⟨settled_of_partitions, fun h => ?_⟩
    exact (h.partitions n).1.contents (h.partitions n).2
  · refine hgrown.split_iff_settled fun n => ⟨fun h => ?_, fun h => h.partitions n⟩
    exact settled_of_partitions (h.1.contents h.2)

example : (run step (new (NodeId.fromBytes []) 0 2)
    [.update (.at 0) (Node.ofByte 0x80), .update (.at 0) (Node.ofByte 0x40)]).split (.at 0) =
      .ok ({ new (NodeId.fromBytes []) 1 2 with
             nodes := [(Node.ofByte 0x40).updateLastSeen (.at 0)] },
        { new (NodeId.fromBytes []) 1 2 with
          nodes := [(Node.ofByte 0x80).updateLastSeen (.at 0)] }) := by
  decide +kernel

/-- A full bucket with a candidate that was seen in the same second as the contact. -/
def crowded : KBucket :=
  run step (new (NodeId.fromBytes []) 0 1)
    [.update (.at 0) (Node.ofByte 0x80), .update (.at 0) (Node.ofByte 0xC0)]

/-- The split in that second loses the candidate. -/
theorem not_lossless_of_candidate :
    ¬ ∃ halves, crowded.splitReading true (fun _ => .at 0) = .ok halves ∧
      crowded.Partitions halves contents := by
  rintro ⟨halves, hhalves, hkeeps⟩
  have hsplit : crowded.splitReading true (fun _ => .at 0) =
      .ok (new (NodeId.fromBytes []) 1 1,
        { new (NodeId.fromBytes []) 1 1 with
          nodes := [(Node.ofByte 0x80).updateLastSeen (.at 0)] }) := by
    decide +kernel
  have hside : crowded.contents.filter (crowded.onSide true) =
      [(Node.ofByte 0x80).updateLastSeen (.at 0), (Node.ofByte 0xC0).updateLastSeen (.at 0)] := by
    decide +kernel
  obtain rfl := Except.ok.inj (hsplit.symm.trans hhalves)
  exact absurd (hkeeps.ones.trans hside) (by decide)

end KBucket

end Kademlia
