import Mathlib.Data.List.Induction
import Mathlib.Data.List.TakeWhile
import Kademlia.Routing.Placement

/-!
# The counters of a contact

`record_success` and `record_failure` raise a counter on a clone of the contact and
hand the clone to the bucket.  The bucket already has the identifier, so it keeps its
stored entry, and the clone is dropped.  A counter therefore never moves after its
contact was inserted, and it agrees with the calls recorded for the contact only as
long as these calls have nothing to add.

The bucket moves the stored entry to the back and stamps it, for a failure as for a
success.  `keepsRecency_recordFailure_iff` says when that changes nothing.
-/

namespace Kademlia

open Lib

inductive Counter where
  | successes
  | failures
deriving DecidableEq

def Counter.read : Counter → ResponseStats → UInt32
  | .successes, stats => stats.successes
  | .failures, stats => stats.failures

/-- The call raises the counter of the contact `id`. -/
def TableOp.records (counter : Counter) (id : NodeId) : TableOp → Bool
  | .recordSuccess _ nodeId _ => counter = .successes && nodeId = id
  | .recordFailure _ nodeId => counter = .failures && nodeId = id
  | _ => false

namespace RoutingTable

/-- The counters of a contact are those of the entry that was inserted for it and the calls
recorded for it since, up to the largest `u32`. -/
def Counts (entry : Node) (since : List TableOp) (contact : Node) : Prop :=
  contact.id = entry.id ∧ contact.addr = entry.addr ∧
    ∀ counter : Counter, (counter.read contact.responseStats).toNat =
      min ((counter.read entry.responseStats).toNat +
        since.countP (TableOp.records counter entry.id)) (2 ^ 32 - 1)

/-- The accounts of a run balance: each contact of the final table was inserted at some
operation, its counters are those it was inserted with and the calls recorded for it since,
and so it has been in every table in between. -/
def Credited (t : RoutingTable) (ops : List TableOp) : Prop :=
  ∀ contact ∈ (run step t ops).getAllNodes, ∃ before op since entry,
    ops = before ++ op :: since ∧ (run step t before).inserted op = some entry ∧
    Counts entry since contact ∧
    ∀ mid, mid <+: since →
      ∃ m ∈ (run step t (before ++ op :: mid)).getAllNodes, Counts entry mid m

/-- A call that has nothing to add: its identifier is not a contact, or the counter of
the contact is at its maximum. -/
def NothingToAdd (t : RoutingTable) (op : TableOp) : Prop :=
  ∀ counter id, op.records counter id = true →
    ∀ n ∈ t.getAllNodes, n.id = id → (counter.read n.responseStats).toNat = 2 ^ 32 - 1

/-- A call that has nothing to add leaves the counters as they are. -/
theorem Counts.concat {entry m contact : Node} {since : List TableOp} (h : Counts entry since m)
    (hid : m.id = contact.id) (haddr : m.addr = contact.addr)
    (hstats : m.responseStats = contact.responseStats) {op : TableOp}
    (hop : ∀ counter, op.records counter m.id = true →
      (counter.read m.responseStats).toNat = 2 ^ 32 - 1) :
    Counts entry (since ++ [op]) contact := by
  obtain ⟨hentry, haddrEntry, hcount⟩ := h
  refine ⟨hid.symm.trans hentry, haddr.symm.trans haddrEntry, fun counter => ?_⟩
  rw [← hstats, hcount counter, List.countP_append, List.countP_singleton]
  by_cases hrec : op.records counter entry.id = true
  · -- The counter is at its maximum, so one more call makes no difference.
    have hmax := hop counter (hentry ▸ hrec)
    rw [hcount counter] at hmax
    rw [if_pos hrec]
    omega
  · rw [if_neg hrec, Nat.add_zero]

theorem counts_nil (contact : Node) : Counts contact [] contact := by
  refine ⟨rfl, rfl, fun counter => ?_⟩
  have hlt := (counter.read contact.responseStats).toNat_lt
  simp only [List.countP_nil, Nat.add_zero]
  omega

theorem credited_concat {t : RoutingTable} {ops : List TableOp} {op : TableOp}
    (ht : (run step t ops).Placed) (h : Credited t ops)
    (hop : NothingToAdd (run step t ops) op) : Credited t (ops ++ [op]) := by
  intro contact hc
  have hafter : contact ∈ ((run step t ops).step op).getAllNodes := by
    rw [run_concat] at hc
    exact hc
  rcases (ht.step_spec op).mem_getAllNodes rfl (ht.step op) hafter with
    ⟨m, hm, hid, haddr, hstats⟩ | hinserted
  · obtain ⟨before, first, since, entry, rfl, hentry, hcounts, hpresent⟩ := h m hm
    have hnow : Counts entry (since ++ [op]) contact :=
      hcounts.concat hid haddr hstats fun counter hrec => hop counter m.id hrec m hm rfl
    refine ⟨before, first, since ++ [op], entry, by simp, hentry, hnow, ?_⟩
    intro mid hmid
    rcases List.prefix_concat_iff.mp hmid with rfl | hmid
    · refine ⟨contact, ?_, hnow⟩
      simpa using hc
    · exact hpresent mid hmid
  · refine ⟨ops, op, [], contact, rfl, hinserted, counts_nil contact, ?_⟩
    intro mid hmid
    rw [List.prefix_nil.mp hmid]
    exact ⟨contact, hc, counts_nil contact⟩

theorem credited_run {t : RoutingTable} (ht : t.Placed) (hempty : t.getAllNodes = [])
    {ops : List TableOp} (hops : Meets step NothingToAdd t ops) : Credited t ops := by
  induction ops using List.reverseRecOn with
  | nil =>
    intro contact hc
    rw [run_nil, hempty] at hc
    exact absurd hc List.not_mem_nil
  | append_singleton ops op ih =>
    obtain ⟨hbefore, hop, -⟩ := meets_append.mp hops
    exact credited_concat (placed_run ht ops) (ih hbefore) hop

/-- Recording for one identifier leaves the entries of all others as they are. -/
theorem StepSpec.mem_iff_of_records {t t' : RoutingTable} {op : TableOp} (h : StepSpec t op t')
    {counter : Counter} {id : NodeId} (hop : op.records counter id = true) {n : Node}
    (hn : n.id ≠ id) : n ∈ t'.getAllNodes ↔ n ∈ t.getAllNodes := by
  have hid : op.nodeId = id := by
    cases op <;> simp_all [TableOp.records, TableOp.nodeId]
  cases h with
  | outside _ => rfl
  | absent _ _ _ => rfl
  | @moved index b' hindex hmove =>
    rw [mem_getAllNodes_setBucket, mem_getAllNodes_iff t index]
    apply or_congr_left
    cases hmove with
    | absent _ _ => rfl
    | @refresh _ l r existing _ hsplit =>
      have hne : n ≠ existing.updateLastSeen op.env := by
        rintro rfl
        exact hn (hsplit.id_eq.trans hid)
      have hne' : n ≠ existing := by
        rintro rfl
        exact hn (hsplit.id_eq.trans hid)
      simp [hsplit.eq, hne, hne']
    | _ => cases hop

/-- As long as every recorded call has nothing to add, the accounts balance in every
state of a run.  No recorded call touches the entry of another identifier. -/
theorem credited_of_nothingToAdd (localNodeId : NodeId) (k : Nat)
    (ops : List TableOp) (hops : Meets step NothingToAdd (withK localNodeId k) ops) :
    (∀ done, done <+: ops → Credited (withK localNodeId k) done) ∧
    ∀ done op counter id, TableOp.records counter id op = true → ∀ n : Node, n.id ≠ id →
      (n ∈ (run step (withK localNodeId k) (done ++ [op])).getAllNodes ↔
        n ∈ (run step (withK localNodeId k) done).getAllNodes) := by
  have ht := placed_withK localNodeId k
  refine ⟨?_, fun done op counter id hop n hn => ?_⟩
  · rintro done ⟨rest, rfl⟩
    exact credited_run ht rfl (meets_append.mp hops).1
  · rw [run_concat]
    exact ((placed_run ht done).step_spec op).mem_iff_of_records hop hn

/-- A success recorded before its contact is known, and the contact after it. -/
theorem credited_of_nothingToAdd_early :
    Credited (withK (NodeId.fromBytes []) 1) [.recordSuccess (.at 0) (NodeId.fromBytes [0x80]) 5,
      .update (.at 0) (Node.ofByte 0x80)] := by
  have hops : Meets step NothingToAdd (withK (NodeId.fromBytes []) 1)
      [.recordSuccess (.at 0) (NodeId.fromBytes [0x80]) 5,
        .update (.at 0) (Node.ofByte 0x80)] := by
    refine ⟨fun _ _ _ n hn => ?_, fun _ _ hop => (nomatch hop), trivial⟩
    exact absurd hn List.not_mem_nil
  exact (credited_of_nothingToAdd (NodeId.fromBytes []) 1 _ hops).1 _ (List.prefix_refl _)

/-- One contact and one success recorded for it, which its counter does not show. -/
def unrecordedOps : List TableOp :=
  [.update (.at 0) (Node.ofByte 0x80), .recordSuccess (.at 0) (NodeId.fromBytes [0x80]) 5]

theorem not_credited_after_success :
    ¬ ∀ (localNodeId : NodeId) (k : Nat) (ops : List TableOp),
      Credited (withK localNodeId k) ops := by
  intro h
  have hmem : (Node.ofByte 0x80).updateLastSeen (.at 0) ∈
      (run step (withK (NodeId.fromBytes []) 1) unrecordedOps).getAllNodes := by
    decide +kernel
  obtain ⟨before, op, since, entry, hops, hentry, ⟨hidEntry, -, hcount⟩, -⟩ :=
    h (NodeId.fromBytes []) 1 unrecordedOps _ hmem
  have hsuccesses := hcount .successes
  match before, hops with
  | [], hops =>
    obtain ⟨rfl, rfl⟩ := List.cons.inj hops
    have hone : List.countP (TableOp.records .successes (NodeId.fromBytes [0x80]))
        [.recordSuccess (.at 0) (NodeId.fromBytes [0x80]) 5] = 1 := by
      simp [TableOp.records]
    have hzero : (Counter.read .successes
        ((Node.ofByte 0x80).updateLastSeen (.at 0)).responseStats).toNat = 0 := rfl
    have hid : ((Node.ofByte 0x80).updateLastSeen (.at 0)).id = NodeId.fromBytes [0x80] := rfl
    rw [hzero, ← hidEntry, hid, hone] at hsuccesses
    omega
  | [_], hops =>
    obtain ⟨-, htail⟩ := List.cons.inj hops
    obtain ⟨rfl, -⟩ := List.cons.inj htail
    cases hentry
  | _ :: _ :: before, hops =>
    have hlen := congrArg List.length hops
    simp [unrecordedOps] at hlen

/-! ## What a failure leaves as it was -/

/-- The entries are equal, the statistics of the contact `id` apart. -/
structure SameRecency (id : NodeId) (n n' : Node) : Prop where
  id_eq : n'.id = n.id
  addr : n'.addr = n.addr
  lastSeen : n'.lastSeen = n.lastSeen
  responseStats : n.id ≠ id → n'.responseStats = n.responseStats

theorem SameRecency.refl (id : NodeId) (n : Node) : SameRecency id n n :=
  ⟨rfl, rfl, rfl, fun _ => rfl⟩

/-- A failure of `id` does not make a contact look fresher: every bucket has the entries
it had, in the same order and last seen at the same time, and the same candidates. -/
def KeepsRecency (id : NodeId) (t t' : RoutingTable) : Prop :=
  ∀ index, Option.Rel
    (fun b b' : KBucket => b.nodes.Forall₂ (SameRecency id) b'.nodes ∧
      b'.replacementCache = b.replacementCache)
    (t.buckets.lookup index) (t'.buckets.lookup index)

/-- From the contact `id` to the back of its bucket there are entries of `id` only, with
its address and last seen at the reading of the call. -/
def JustSeenLast (t : RoutingTable) (env : Env) (id : NodeId) : Prop :=
  ∀ index b, t.bucketIndex id = some index → t.buckets.lookup index = some b →
    ∀ n ∈ b.nodes.dropWhile fun n => n.id != id,
      n.id = id ∧ (b.get id).map Node.addr = some n.addr ∧ n.lastSeen = .at env.stampedAt

theorem forall₂_sameRecency_refl (id : NodeId) (nodes : List Node) :
    nodes.Forall₂ (SameRecency id) nodes :=
  List.forall₂_same.mpr fun n _ => .refl id n

theorem forall₂_sameRecency_append {id : NodeId} {l xs ys : List Node} :
    (l ++ xs).Forall₂ (SameRecency id) (l ++ ys) ↔ xs.Forall₂ (SameRecency id) ys := by
  induction l with
  | nil => rfl
  | cons n l ih =>
    rw [List.cons_append, List.cons_append, List.forall₂_cons, ih]
    exact and_iff_right (.refl id n)

/-- Taking the contact out of the front of a queue and putting another entry of it at the
back moves every entry one place, so nothing changes only if all entries agree. -/
theorem forall₂_sameRecency_rotate {id : NodeId} {x y : Node} {r : List Node} (hx : x.id = id) :
    (x :: r).Forall₂ (SameRecency id) (r ++ [y]) ↔
      ∀ n ∈ r ++ [y], n.id = id ∧ n.addr = x.addr ∧ n.lastSeen = x.lastSeen := by
  induction r generalizing x with
  | nil =>
    simp only [List.nil_append, List.forall₂_cons, List.Forall₂.nil, and_true,
      List.mem_singleton, forall_eq]
    constructor
    · intro h
      exact ⟨h.id_eq.trans hx, h.addr, h.lastSeen⟩
    · intro h
      exact ⟨h.1.trans hx.symm, h.2.1, h.2.2, fun hne => absurd hx hne⟩
  | cons z r ih =>
    rw [List.cons_append, List.forall₂_cons, List.forall_mem_cons]
    constructor
    · intro h
      have hz : z.id = id := h.1.id_eq.trans hx
      refine ⟨⟨hz, h.1.addr, h.1.lastSeen⟩, fun n hn => ?_⟩
      have hn' := (ih hz).mp h.2 n hn
      exact ⟨hn'.1, hn'.2.1.trans h.1.addr, hn'.2.2.trans h.1.lastSeen⟩
    · intro h
      have hsame : SameRecency id x z :=
        ⟨h.1.1.trans hx.symm, h.1.2.1, h.1.2.2, fun hne => absurd hx hne⟩
      refine ⟨hsame, (ih h.1.1).mpr fun n hn => ?_⟩
      have hn' := h.2 n hn
      exact ⟨hn'.1, hn'.2.1.trans hsame.addr.symm, hn'.2.2.trans hsame.lastSeen.symm⟩

theorem keepsRecency_refl (id : NodeId) (t : RoutingTable) : KeepsRecency id t t := by
  intro index
  rcases t.buckets.lookup index with _ | b
  · exact .none
  · exact .some ⟨forall₂_sameRecency_refl id b.nodes, rfl⟩

theorem map_lastSeen_eq {id : NodeId} {xs ys : List Node} (h : xs.Forall₂ (SameRecency id) ys) :
    ys.map Node.lastSeen = xs.map Node.lastSeen := by
  induction h with
  | nil => rfl
  | cons hsame _ ih => rw [List.map_cons, List.map_cons, hsame.lastSeen, ih]

theorem KeepsRecency.lastSeen_eq {id : NodeId} {t t' : RoutingTable} (h : KeepsRecency id t t')
    (index : Nat) :
    (t'.buckets.lookup index).map (fun b => b.nodes.map Node.lastSeen) =
      (t.buckets.lookup index).map fun b => b.nodes.map Node.lastSeen := by
  have hindex := h index
  generalize t.buckets.lookup index = before at hindex ⊢
  generalize t'.buckets.lookup index = after at hindex ⊢
  cases hindex with
  | none => rfl
  | some hb =>
    exact congrArg some (map_lastSeen_eq hb.1)

/-- Only the bucket that was set has to be looked at. -/
theorem keepsRecency_setBucket_iff {id : NodeId} {t : RoutingTable} {index : Nat}
    {b b' : KBucket} (hlookup : t.buckets.lookup index = some b) :
    KeepsRecency id t (t.setBucket index b') ↔
      b.nodes.Forall₂ (SameRecency id) b'.nodes ∧
        b'.replacementCache = b.replacementCache := by
  constructor
  · intro h
    have hindex := h index
    rw [lookup_setBucket, hlookup] at hindex
    cases hindex with
    | some hb => exact hb
  · intro h j
    by_cases hj : j = index
    · subst hj
      rw [lookup_setBucket, hlookup]
      exact .some h
    · rw [lookup_setBucket_ne t b' hj]
      exact keepsRecency_refl id t j

theorem dropWhile_of_splitAt {xs l r : List Node} {x : Node} {id : NodeId}
    (h : KBucket.SplitAt xs l x r id) : xs.dropWhile (fun n => n.id != id) = x :: r := by
  rw [h.eq, List.dropWhile_append_of_pos (by simpa using h.before),
    List.dropWhile_cons_of_neg (by simp [h.id_eq])]

theorem get_of_splitAt {b : KBucket} {l r : List Node} {x : Node} {id : NodeId}
    (h : KBucket.SplitAt b.nodes l x r id) : b.get id = some x := by
  have hl : l.find? (fun node => node.id == id) = none := by
    simpa using h.before
  rw [KBucket.get, h.eq, List.find?_append, hl, Option.none_or,
    List.find?_cons_of_pos (by simp [h.id_eq])]

theorem justSeenLast_iff {t : RoutingTable} {env : Env} {id : NodeId} {index : Nat} {b : KBucket}
    {l r : List Node} {existing : Node} (hindex : t.bucketIndex id = some index)
    (hlookup : t.buckets.lookup index = some b) (hsplit : KBucket.SplitAt b.nodes l existing r id) :
    JustSeenLast t env id ↔ ∀ n ∈ existing :: r,
      n.id = id ∧ n.addr = existing.addr ∧ n.lastSeen = .at env.stampedAt := by
  have haddr : (b.get id).map Node.addr = some existing.addr := by
    rw [get_of_splitAt hsplit, Option.map_some]
  constructor
  · intro h n hn
    rw [← dropWhile_of_splitAt hsplit] at hn
    have hlast := h index b hindex hlookup n hn
    rw [haddr] at hlast
    exact ⟨hlast.1, (Option.some.inj hlast.2.1).symm, hlast.2.2⟩
  · intro h index' b' hindex' hlookup' n hn
    obtain rfl : index = index' := Option.some.inj (hindex.symm.trans hindex')
    obtain rfl : b = b' := Option.some.inj (hlookup.symm.trans hlookup')
    rw [dropWhile_of_splitAt hsplit] at hn
    obtain ⟨hid, hsame, hseen⟩ := h n hn
    exact ⟨hid, by rw [haddr, hsame], hseen⟩

/-- Recording a failure leaves the recency of all contacts alone exactly when the contact
is at the back of its bucket and was seen at the very reading of the call. -/
theorem keepsRecency_recordFailure_iff (localNodeId : NodeId) (k : Nat) (ops : List TableOp)
    (env : Env) (id : NodeId) :
    KeepsRecency id (run step (withK localNodeId k) ops)
        ((run step (withK localNodeId k) ops).recordFailure env id).2 ↔
      JustSeenLast (run step (withK localNodeId k) ops) env id := by
  have ht := placed_run (placed_withK localNodeId k) ops
  generalize run step (withK localNodeId k) ops = t at ht ⊢
  rcases ht.withContact_cases env id (fun node =>
      { node with responseStats := node.responseStats.recordFailure }) (fun _ => rfl) with
    ⟨heq, habsent⟩ | ⟨index, b, l, existing, r, hindex, hlookup, hsplit, heq⟩
  · rw [recordFailure, heq]
    refine iff_of_true (keepsRecency_refl id t) ?_
    intro index b hindex hlookup n hn
    have hnone := habsent index hindex
    rw [getOrCreateBucket_of_lookup hlookup] at hnone
    rw [List.dropWhile_eq_nil_iff.mpr (by simpa using hnone)] at hn
    exact absurd hn List.not_mem_nil
  · rw [recordFailure, heq, keepsRecency_setBucket_iff hlookup, hsplit.eq, List.append_assoc,
      forall₂_sameRecency_append, forall₂_sameRecency_rotate hsplit.id_eq,
      justSeenLast_iff hindex hlookup hsplit, and_iff_left rfl]
    simp only [List.forall_mem_append, List.forall_mem_cons, Node.updateLastSeen_id]
    constructor
    · intro h
      have hseen : existing.lastSeen = .at env.stampedAt := h.2.1.2.2.symm
      refine ⟨⟨hsplit.id_eq, trivial, hseen⟩, fun n hn => ?_⟩
      have hn' := h.1 n hn
      exact ⟨hn'.1, hn'.2.1, hn'.2.2.trans hseen⟩
    · intro h
      have hseen : existing.lastSeen = .at env.stampedAt := h.1.2.2
      refine ⟨fun n hn => ?_, ⟨hsplit.id_eq, rfl, hseen.symm⟩, List.forall_mem_nil _⟩
      have hn' := h.2 n hn
      exact ⟨hn'.1, hn'.2.1, hn'.2.2.trans hseen.symm⟩

/-- Two contacts in one bucket, and a failure of the one seen less recently ten seconds
later. -/
def refreshedOps : List TableOp :=
  [.update (.at 0) (Node.ofByte 0x80), .update (.at 1) (Node.ofByte 0xc0)]

theorem failure_refreshes_contact :
    ¬ ∀ (localNodeId : NodeId) (k : Nat) (ops : List TableOp) (env : Env) (id : NodeId),
      (run step (withK localNodeId k) ops).contains id = true →
      KeepsRecency id (run step (withK localNodeId k) ops)
        ((run step (withK localNodeId k) ops).recordFailure env id).2 := by
  intro h
  have hkeeps := h (NodeId.fromBytes []) 2 refreshedOps (.at 10) (NodeId.fromBytes [0x80])
    (by decide +kernel)
  exact absurd (hkeeps.lastSeen_eq 0) (by decide +kernel)

end RoutingTable

end Kademlia
