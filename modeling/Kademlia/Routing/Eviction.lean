import Mathlib.Data.List.Induction
import Kademlia.Routing.Placement

/-!
# Which contact a full bucket gives up

`update` tests only the front of the queue for activity.  That this speaks for the
whole bucket rests on the order of the queue: with a clock that does not go back, the
times the contacts were last seen do not decrease from front to back.
-/

namespace Kademlia

open Lib

/-- `never` is before every time. -/
def LastSeen.le : LastSeen → LastSeen → Prop
  | .never, _ => True
  | .at _, .never => False
  | .at s, .at t => s ≤ t

namespace Move

/-- A move takes contacts out of the queue and puts at most one at its back, stamped
with the time of the operation. -/
theorem nodes_shape {b b' : KBucket} {op : TableOp} (h : Move b op b') :
    ∃ rest, rest.Sublist b.nodes ∧
      (b'.nodes = rest ∨ ∃ n : Node, b'.nodes = rest ++ [n.updateLastSeen op.env]) := by
  cases h with
  | absent _ _ => exact ⟨_, List.Sublist.refl _, .inl rfl⟩
  | fault _ _ => exact ⟨_, List.Sublist.refl _, .inl rfl⟩
  | refresh _ hsplit => exact ⟨_, hsplit.sublist, .inr ⟨_, rfl⟩⟩
  | insert _ _ => exact ⟨_, List.Sublist.refl _, .inr ⟨_, rfl⟩⟩
  | evict _ _ hsplit =>
    refine ⟨_, ?_, .inr ⟨_, rfl⟩⟩
    rw [hsplit]
    exact sublist_of_split _ _ _
  | cache _ _ => exact ⟨_, List.Sublist.refl _, .inl rfl⟩
  | drop hsplit _ => exact ⟨_, hsplit.sublist, .inl rfl⟩
  | promote hsplit _ => exact ⟨_, hsplit.sublist, .inr ⟨_, rfl⟩⟩

end Move

namespace KBucket

/-- The contacts were seen by `now`, in the order of the queue. -/
structure Ordered (b : KBucket) (now : Nat) : Prop where
  seen : ∀ n ∈ b.nodes, ∃ s, n.lastSeen = .at s ∧ s ≤ now
  sorted : b.nodes.Pairwise fun n m => n.lastSeen.le m.lastSeen

theorem ordered_new (localNodeId : NodeId) (index k now : Nat) :
    (new localNodeId index k).Ordered now :=
  ⟨(fun _ h => nomatch h), List.Pairwise.nil⟩

theorem Ordered.mono {b : KBucket} {before now : Nat} (h : b.Ordered before) (hle : before ≤ now) :
    b.Ordered now := by
  refine ⟨fun n hn => ?_, h.sorted⟩
  obtain ⟨s, hs, hbefore⟩ := h.seen n hn
  exact ⟨s, hs, hbefore.trans hle⟩

theorem Ordered.move {b b' : KBucket} {op : TableOp} {before now : Nat} (h : b.Ordered before)
    (hmove : Move b op b') (hbefore : before ≤ op.env.checkedAt) (hnow : op.env.stampedAt ≤ now) :
    b'.Ordered now := by
  obtain ⟨rest, hsub, hnodes⟩ := hmove.nodes_shape
  have hstamp : before ≤ op.env.stampedAt := hbefore.trans op.env.ordered
  have hseen : ∀ n ∈ rest, ∃ s, n.lastSeen = .at s ∧ s ≤ before :=
    fun n hn => h.seen n (hsub.subset hn)
  have hrest : ∀ n ∈ rest, ∃ s, n.lastSeen = .at s ∧ s ≤ now := by
    intro n hn
    obtain ⟨s, hs, hle⟩ := hseen n hn
    exact ⟨s, hs, by omega⟩
  have hsorted := h.sorted.sublist hsub
  rcases hnodes with hnodes | ⟨m, hnodes⟩
  · exact ⟨hnodes ▸ hrest, hnodes ▸ hsorted⟩
  · refine ⟨fun n hn => ?_, ?_⟩
    · rw [hnodes, List.mem_append, List.mem_singleton] at hn
      rcases hn with hn | rfl
      · exact hrest n hn
      · exact ⟨_, rfl, hnow⟩
    · rw [hnodes, List.pairwise_append]
      refine ⟨hsorted, List.pairwise_singleton _ _, fun n hn n' hn' => ?_⟩
      obtain ⟨s, hs, hle⟩ := hseen n hn
      rw [List.mem_singleton.mp hn', hs]
      exact hle.trans hstamp

/-- In an ordered bucket the front contact was seen before all others. -/
theorem Ordered.front_le {b : KBucket} {now : Nat} (h : b.Ordered now) {front : Node}
    {rest : List Node} (hsplit : b.nodes = front :: rest) :
    ∀ n ∈ b.nodes, front.lastSeen.le n.lastSeen := by
  intro n hn
  have hsorted := h.sorted
  rw [hsplit] at hsorted hn
  rcases List.mem_cons.mp hn with rfl | hn
  · obtain ⟨s, hs, -⟩ := h.seen n (hsplit ▸ List.mem_cons_self)
    rw [hs]
    exact Nat.le_refl s
  · exact (List.pairwise_cons.mp hsorted).1 n hn

/-- When the front contact is active, so is every contact. -/
theorem Ordered.isActive_of_front {b : KBucket} {env : Env} {now : Nat} (h : b.Ordered now)
    (hnow : now ≤ env.checkedAt) {front : Node} {rest : List Node}
    (hsplit : b.nodes = front :: rest) (hfront : front.isActive env nodeTimeout = true) :
    ∀ n ∈ b.nodes, n.isActive env nodeTimeout = true := by
  intro n hn
  obtain ⟨s, hs, hle⟩ := h.seen front (hsplit ▸ List.mem_cons_self)
  obtain ⟨s', hs', hle'⟩ := h.seen n hn
  have horder := h.front_le hsplit n hn
  rw [hs, hs'] at horder
  have hss : s ≤ s' := horder
  rw [nodeTimeout, Node.isActive_fromSecs_iff hs (hle.trans hnow)] at hfront
  rw [nodeTimeout, Node.isActive_fromSecs_iff hs' (hle'.trans hnow)]
  omega

/-! ## One update of a full bucket -/

/-- The failures of a contact outnumber its successes. -/
def Failing (n : Node) : Prop := n.responseStats.successes < n.responseStats.failures

instance (n : Node) : Decidable (Failing n) :=
  inferInstanceAs (Decidable (n.responseStats.successes < n.responseStats.failures))

theorem reliable_iff {env : Env} {n : Node} (h : n.responseStats.Fits) :
    Reliable env n ↔ ¬ Failing n := by
  rw [Reliable, minSuccessRate, ResponseStats.isReliable_half h, Failing, Except.ok.injEq,
    decide_eq_true_iff, UInt32.not_lt]

theorem unreliable_iff {env : Env} {n : Node} (h : n.responseStats.Fits) :
    Unreliable env n ↔ Failing n := by
  rw [Unreliable, minSuccessRate, ResponseStats.isReliable_half h, Failing, Except.ok.injEq,
    decide_eq_false_iff_not, UInt32.not_le]

theorem unreliablePosition_ne_error {b : KBucket} {env : Env}
    (hfit : ∀ n ∈ b.nodes, n.responseStats.Fits) (fault : Fault) :
    b.unreliablePosition env ≠ .error fault := by
  intro h
  obtain ⟨x, hx, hfault⟩ := positionM_eq_error h
  rw [minSuccessRate, ResponseStats.isReliable_half (hfit x hx)] at hfault
  cases hfault

/-- The contacts a call took out of the bucket: at most one, which is failing or not
active, and failing if any contact is. -/
def EvictsWell (b : KBucket) (env : Env) (node : Node) (b' : KBucket) : Prop :=
  ∃ l removed r, b.nodes = l ++ removed ++ r ∧ removed.length ≤ 1 ∧
    (b'.nodes = l ++ r ∨ b'.nodes = l ++ r ++ [node.updateLastSeen env]) ∧
    ∀ x ∈ removed, (Failing x ∨ x.isActive env nodeTimeout = false) ∧
      (b.isFull = true → (∃ y ∈ b.nodes, Failing y) → Failing x)

theorem UpdateSpec.evictsWell {b b' : KBucket} {env : Env} {node : Node}
    {result : Outcome KBucketUpdate} (h : UpdateSpec b env node result b')
    (hfit : ∀ n ∈ b.nodes, n.responseStats.Fits) (hnew : ∀ n ∈ b.nodes, n.id ≠ node.id) :
    b.EvictsWell env node b' := by
  cases h with
  | isLocal _ => exact ⟨b.nodes, [], [], by simp, by simp, .inl (by simp), by simp⟩
  | refreshed _ hsplit => exact absurd hsplit.id_eq (hnew _ hsplit.mem)
  | inserted _ _ _ => exact ⟨b.nodes, [], [], by simp, by simp, .inr (by simp), by simp⟩
  | overflowed _ _ _ _ => exact ⟨b.nodes, [], [], by simp, by simp, .inl (by simp), by simp⟩
  | @evicted pos l r dropped _ _ _ _ hsplit hdropped =>
    have hmem : dropped ∈ b.nodes := hsplit ▸ List.mem_append_right _ List.mem_cons_self
    have hfailing := (unreliable_iff (hfit dropped hmem)).mp hdropped
    refine ⟨l, [dropped], r, by simpa using hsplit, by simp, .inr rfl, ?_⟩
    intro x hx
    rw [List.mem_singleton.mp hx]
    exact ⟨.inl hfailing, fun _ _ => hfailing⟩
  | empty _ _ _ _ => exact ⟨b.nodes, [], [], by simp, by simp, .inl (by simp), by simp⟩
  | @expired front r _ _ _ hscan hsplit hinactive =>
    refine ⟨[], [front], r, by simpa using hsplit, by simp, .inr rfl, ?_⟩
    intro x hx
    rw [List.mem_singleton.mp hx]
    refine ⟨.inr hinactive, fun _ ⟨y, hy, hfailing⟩ => ?_⟩
    -- The search found no unreliable contact.
    have hreliable := reliable_of_unreliablePosition hscan y hy
    exact absurd hfailing ((reliable_iff (hfit y hy)).mp hreliable)
  | cached _ _ _ _ _ _ => exact ⟨b.nodes, [], [], by simp, by simp, .inl (by simp), by simp⟩

/-- A ping is asked for exactly when the bucket is full of contacts that are reliable
and active. -/
theorem UpdateSpec.pendingPing_iff {b b' : KBucket} {env : Env} {node : Node}
    {result : Outcome KBucketUpdate} (h : UpdateSpec b env node result b') {now : Nat}
    (hordered : b.Ordered now) (hnow : now ≤ env.checkedAt) (hk : 1 ≤ b.k)
    (hfit : ∀ n ∈ b.nodes, n.responseStats.Fits) (hnew : ∀ n ∈ b.nodes, n.id ≠ node.id) :
    (∃ f, result = .ok (.pendingPing f)) ↔ node.id ≠ b.localNodeId ∧ b.isFull = true ∧
      ∀ n ∈ b.nodes, ¬ Failing n ∧ n.isActive env nodeTimeout = true := by
  cases h with
  | isLocal hlocal => simp [hlocal]
  | refreshed _ hsplit => exact absurd hsplit.id_eq (hnew _ hsplit.mem)
  | inserted _ _ hroom => simp [isFull, hroom]
  | overflowed _ _ _ hfault => exact absurd hfault (unreliablePosition_ne_error hfit _)
  | @evicted pos l r dropped _ _ _ _ hsplit hdropped =>
    have hmem : dropped ∈ b.nodes := hsplit ▸ List.mem_append_right _ List.mem_cons_self
    have hfailing := (unreliable_iff (hfit dropped hmem)).mp hdropped
    apply iff_of_false (by simp)
    intro hall
    exact (hall.2.2 dropped hmem).1 hfailing
  | empty _ hfull _ hempty =>
    rw [hempty, List.length_nil] at hfull
    omega
  | @expired front r _ _ _ _ hsplit hinactive =>
    apply iff_of_false (by simp)
    intro hall
    have hactive := (hall.2.2 front (hsplit ▸ List.mem_cons_self)).2
    rw [hinactive] at hactive
    cases hactive
  | @cached front r hlocal _ hfull hscan hsplit hactive =>
    refine iff_of_true ⟨front, rfl⟩ ⟨hlocal, decide_eq_true hfull, fun n hn => ?_⟩
    have hreliable := reliable_of_unreliablePosition hscan n hn
    exact ⟨(reliable_iff (hfit n hn)).mp hreliable,
      hordered.isActive_of_front hnow hsplit hactive n hn⟩

theorem UpdateSpec.pendingPing_front {b b' : KBucket} {env : Env} {node f : Node}
    {result : Outcome KBucketUpdate} (h : UpdateSpec b env node result b') {now : Nat}
    (hordered : b.Ordered now) (hf : result = .ok (.pendingPing f)) :
    b'.nodes = b.nodes ∧ f ∈ b.nodes ∧ ∀ n ∈ b.nodes, f.lastSeen.le n.lastSeen := by
  cases h with
  | cached _ _ _ _ hsplit _ =>
    obtain rfl := KBucketUpdate.pendingPing.inj (Except.ok.inj hf)
    exact ⟨rfl, hsplit ▸ List.mem_cons_self, hordered.front_le hsplit⟩
  | _ => cases hf

end KBucket

namespace RoutingTable

/-- With a clock that does not go back, every bucket of a reachable table is ordered. -/
theorem ordered_run (localNodeId : NodeId) (k : Nat) {ops : List TableOp} {now : Nat}
    (hclock : TableOp.NonDecreasing ops) (hnow : ∀ op ∈ ops, op.env.stampedAt ≤ now) :
    (run step (withK localNodeId k) ops).AllBuckets fun _ b => b.Ordered now := by
  induction ops using List.reverseRecOn generalizing now with
  | nil => exact fun _ _ h => nomatch h
  | append_singleton ops op ih =>
    obtain ⟨hclock', -, hlast⟩ := List.pairwise_append.mp hclock
    have hbefore : ∀ op' ∈ ops, op'.env.stampedAt ≤ op.env.checkedAt :=
      fun op' hop' => hlast op' hop' op (List.mem_singleton_self op)
    have hop : op.env.stampedAt ≤ now :=
      hnow op (List.mem_append_right _ (List.mem_singleton_self op))
    have hordered := ih hclock' hbefore
    have hplaced := placed_run (placed_withK localNodeId k) ops
    rw [run_concat]
    refine hordered.step (hplaced.step_spec op) ?_ ?_ ?_
    · exact fun _ b hb => hb.mono (op.env.ordered.trans hop)
    · exact fun _ _ => KBucket.ordered_new _ _ _ _
    · exact fun _ b' _ hb hmove => hb.move hmove (Nat.le_refl _) hop

/-- In every bucket of a reachable table, an update for an identifier that is not there
takes out at most one contact, an unreliable one if there is any and else one that is
not active.  It asks for a ping exactly when the identifier is not the local one and the
bucket is full of reliable and active contacts, and then it names the one that was seen
least recently.  For the local identifier it fails and changes nothing. -/
theorem eviction_policy (localNodeId : NodeId) (k : Nat) (hk : 1 ≤ k) (ops : List TableOp)
    (env : Env) (node : Node) (hclock : TableOp.NonDecreasing (ops ++ [.update env node]))
    (index : Nat) (b : KBucket)
    (hlookup : (run step (withK localNodeId k) ops).buckets.lookup index = some b)
    (hfit : ∀ n ∈ b.nodes, n.responseStats.Fits) (hnew : ∀ n ∈ b.nodes, n.id ≠ node.id) :
    b.EvictsWell env node (b.update env node).2 ∧
    ((∃ f, (b.update env node).1 = .ok (.pendingPing f)) ↔
      node.id ≠ localNodeId ∧ b.isFull = true ∧
        ∀ n ∈ b.nodes, ¬ KBucket.Failing n ∧ n.isActive env nodeTimeout = true) ∧
    (∀ f, (b.update env node).1 = .ok (.pendingPing f) →
      (b.update env node).2.nodes = b.nodes ∧ f ∈ b.nodes ∧
        ∀ n ∈ b.nodes, f.lastSeen.le n.lastSeen) ∧
    (node.id = localNodeId →
      b.update env node = (.error (.err (.other "Cannot add local node to k-bucket")), b)) := by
  have hplaced := placed_run (placed_withK localNodeId k) ops
  have hparams := run_params (placed_withK localNodeId k) ops
  have hb := hplaced.buckets index b hlookup
  have hlocal : b.localNodeId = localNodeId := hb.local_eq.trans hparams.1
  have hbk : 1 ≤ b.k := by
    rw [hb.k_eq, hparams.2]
    exact hk
  obtain ⟨hclock', -, hlast⟩ := List.pairwise_append.mp hclock
  have hnow : ∀ op ∈ ops, op.env.stampedAt ≤ env.checkedAt :=
    fun op hop => hlast op hop _ (List.mem_singleton_self _)
  have hordered := ordered_run localNodeId k hclock' hnow index b hlookup
  have hspec := KBucket.update_spec b env node
  refine ⟨hspec.evictsWell hfit hnew, ?_, ?_, ?_⟩
  · rw [← hlocal]
    exact hspec.pendingPing_iff hordered (Nat.le_refl _) hbk hfit hnew
  · exact fun f hf => hspec.pendingPing_front hordered hf
  · intro hid
    rw [KBucket.update, if_pos (hid.trans hlocal.symm)]

/-- The bucket after the first contact of a table with room for one. -/
def oneContact : KBucket :=
  { k := 1, localNodeId := NodeId.fromBytes [], prefixLen := 0,
    nodes := [(Node.ofByte 0x80).updateLastSeen (.at 0)], replacementCache := [] }

theorem lookup_oneContact :
    (run step (withK (NodeId.fromBytes []) 1) [.update (.at 0) (Node.ofByte 0x80)]).buckets.lookup
      0 = some oneContact := by
  decide +kernel

theorem eviction_policy_oneContact :
    ∃ f, (oneContact.update (.at 0) (Node.ofByte 0xC0)).1 = .ok (.pendingPing f) := by
  have hpolicy := eviction_policy (NodeId.fromBytes []) 1 (by decide)
    [.update (.at 0) (Node.ofByte 0x80)] (.at 0) (Node.ofByte 0xC0)
    (by simp [TableOp.NonDecreasing, TableOp.env, Env.at]) 0 oneContact lookup_oneContact
    (by decide +kernel) (by decide +kernel)
  exact hpolicy.2.1.mpr (by decide +kernel)

/-- The bucket is full of reliable and active contacts, and the update for the local
identifier fails instead of asking for a ping. -/
theorem no_ping_for_local_id :
    ¬ ∀ (localNodeId : NodeId) (k : Nat), 1 ≤ k → ∀ (ops : List TableOp) (env : Env) (node : Node),
      TableOp.NonDecreasing (ops ++ [.update env node]) → ∀ (index : Nat) (b : KBucket),
      (run step (withK localNodeId k) ops).buckets.lookup index = some b →
      (∀ n ∈ b.nodes, n.responseStats.Fits) → (∀ n ∈ b.nodes, n.id ≠ node.id) →
      ((∃ f, (b.update env node).1 = .ok (.pendingPing f)) ↔ b.isFull = true ∧
        ∀ n ∈ b.nodes, ¬ KBucket.Failing n ∧ n.isActive env nodeTimeout = true) := by
  intro h
  have hping := (h (NodeId.fromBytes []) 1 (by decide) [.update (.at 0) (Node.ofByte 0x80)] (.at 0)
    (Node.ofByte 0) (by simp [TableOp.NonDecreasing, TableOp.env, Env.at]) 0 oneContact
    lookup_oneContact (by decide +kernel) (by decide +kernel)).mpr (by decide +kernel)
  obtain ⟨f, hf⟩ := hping
  have herror : (oneContact.update (.at 0) (Node.ofByte 0)).1 =
      .error (.err (.other "Cannot add local node to k-bucket")) := by
    rw [KBucket.update, if_pos (by decide +kernel)]
  rw [herror] at hf
  cases hf

end RoutingTable

end Kademlia
