import Kademlia.Routing.Uniqueness

/-!
# Removing a contact

`remove` takes the first entry of an identifier out of its bucket and puts the candidate
at the front of the replacement cache in its place.  It compares this candidate neither
with the identifier nor with the other contacts, so the identifier may be a contact again
when the call returns.  `removes_iff` says for which tables it is not.
-/

namespace Kademlia

open Lib

namespace KBucket

/-- The identifier is a contact at most once, and the front candidate has another one. -/
def Single (b : KBucket) (id : NodeId) : Prop :=
  (b.nodes.map Node.id).count id ≤ 1 ∧ (b.replacementCache.map Node.id).head? ≠ some id

theorem count_map_id_eq_zero_iff {xs : List Node} {id : NodeId} :
    (xs.map Node.id).count id = 0 ↔ ∀ x ∈ xs, x.id ≠ id := by
  rw [List.count_eq_zero]
  constructor
  · intro h x hx heq
    exact h (List.mem_map.mpr ⟨x, hx, heq⟩)
  · intro h
    exact not_mem_map_id h

/-- The entry that is taken out counts once, and the others are what is left. -/
theorem SplitAt.count_eq {xs l r : List Node} {x : Node} {id : NodeId} (h : SplitAt xs l x r id) :
    (xs.map Node.id).count id = ((l ++ r).map Node.id).count id + 1 := by
  rw [h.eq, List.map_append, List.map_cons, List.map_append, List.count_append, List.count_append,
    h.id_eq, List.count_cons_self]
  omega

theorem RemoveSpec.gone_iff {b b' : KBucket} {env : Env} {id : NodeId}
    {result : Outcome (Option Node)} (h : RemoveSpec b env id result b') :
    (∀ n ∈ b'.nodes, n.id ≠ id) ↔ ((∃ n ∈ b.nodes, n.id = id) → b.Single id) := by
  rw [← count_map_id_eq_zero_iff]
  cases h with
  | absent hnew =>
    constructor
    · intro _ ⟨n, hn, hid⟩
      exact absurd hid (hnew n hn)
    · intro _
      exact count_map_id_eq_zero_iff.mpr hnew
  | @dropped l r removed hsplit hcache =>
    have hcount := hsplit.count_eq
    have hmem : ∃ n ∈ b.nodes, n.id = id := ⟨removed, hsplit.mem, hsplit.id_eq⟩
    show ((l ++ r).map Node.id).count id = 0 ↔ _
    constructor
    · intro hzero _
      refine ⟨by omega, ?_⟩
      rw [hcache]
      intro hhead
      cases hhead
    · intro hsingle
      have hone := (hsingle hmem).1
      omega
  | @promoted l r cache removed replacement hsplit hcache =>
    have hcount := hsplit.count_eq
    have hmem : ∃ n ∈ b.nodes, n.id = id := ⟨removed, hsplit.mem, hsplit.id_eq⟩
    have hhead : (b.replacementCache.map Node.id).head? = some replacement.id := by
      rw [hcache]
      rfl
    show ((l ++ r ++ [replacement.updateLastSeen env]).map Node.id).count id = 0 ↔ _
    rw [List.map_append, List.count_append, List.map_singleton, Node.updateLastSeen_id, Single,
      hhead]
    by_cases hid : replacement.id = id
    · subst hid
      rw [List.count_singleton_self]
      constructor
      · intro hzero
        omega
      · intro hsingle
        exact absurd rfl (hsingle hmem).2
    · rw [List.count_singleton, if_neg (by simpa using hid)]
      constructor
      · intro hzero _
        refine ⟨by omega, ?_⟩
        intro heq
        exact hid (Option.some.inj heq)
      · intro hsingle
        have hone := (hsingle hmem).1
        omega

/-- The other contacts stay where they are. -/
theorem RemoveSpec.mem_of_ne {b b' : KBucket} {env : Env} {id : NodeId}
    {result : Outcome (Option Node)} (h : RemoveSpec b env id result b') {n : Node}
    (hn : n ∈ b.nodes) (hid : n.id ≠ id) : n ∈ b'.nodes := by
  have hsplit : ∀ {l r : List Node} {removed : Node}, SplitAt b.nodes l removed r id →
      n ∈ l ++ r := by
    intro l r removed hsplit
    rw [hsplit.eq] at hn
    rcases List.mem_append.mp hn with hn | hn
    · exact List.mem_append_left r hn
    · rcases List.mem_cons.mp hn with rfl | hn
      · exact absurd hsplit.id_eq hid
      · exact List.mem_append_right l hn
  cases h with
  | absent _ => exact hn
  | dropped hsplit' _ => exact hsplit hsplit'
  | promoted hsplit' _ => exact List.mem_append_left _ (hsplit hsplit')

/-- A contact that was not there before is the front candidate. -/
theorem RemoveSpec.mem_cases {b b' : KBucket} {env : Env} {id : NodeId}
    {result : Outcome (Option Node)} (h : RemoveSpec b env id result b') {n : Node}
    (hn : n ∈ b'.nodes) :
    n ∈ b.nodes ∨ ∃ m, b.replacementCache.head? = some m ∧ n = m.updateLastSeen env := by
  cases h with
  | absent _ => exact .inl hn
  | dropped hsplit _ => exact .inl (hsplit.sublist.subset hn)
  | promoted hsplit hcache =>
    rcases List.mem_append.mp hn with hn | hn
    · exact .inl (hsplit.sublist.subset hn)
    · refine .inr ⟨_, ?_, List.mem_singleton.mp hn⟩
      rw [hcache]
      rfl

theorem RemoveSpec.isSome_eq {b b' : KBucket} {env : Env} {id : NodeId}
    {removed : Option Node} (h : RemoveSpec b env id (.ok removed) b') :
    removed.isSome = b.contains id := by
  cases h with
  | absent hnew =>
    symm
    simpa [contains] using hnew
  | dropped hsplit _ =>
    symm
    exact List.any_eq_true.mpr ⟨_, hsplit.mem, beq_iff_eq.mpr hsplit.id_eq⟩
  | promoted hsplit _ =>
    symm
    exact List.any_eq_true.mpr ⟨_, hsplit.mem, beq_iff_eq.mpr hsplit.id_eq⟩

end KBucket

namespace RoutingTable

/-- What a removal is for.  It says whether there was such a contact, the contact is gone
afterwards, the others stay, and at most the front candidate of the bucket is added. -/
structure Removes (t : RoutingTable) (env : Env) (id : NodeId) : Prop where
  returns : ∃ removed, (t.remove env id).1 = .ok removed ∧ removed.isSome = t.contains id
  gone : (t.remove env id).2.contains id = false
  kept : ∀ n ∈ t.getAllNodes, n.id ≠ id → n ∈ (t.remove env id).2.getAllNodes
  added : ∀ n ∈ (t.remove env id).2.getAllNodes, n ∈ t.getAllNodes ∨
    ∃ index m, t.bucketIndex id = some index ∧
      (t.getOrCreateBucket index).replacementCache.head? = some m ∧ n = m.updateLastSeen env

/-- If the identifier is a contact, it is one only once, and not at the front of the
candidates of its bucket. -/
def RemovedAtOnce (t : RoutingTable) (id : NodeId) : Prop :=
  t.contains id = true → ∀ index, t.bucketIndex id = some index →
    (t.getOrCreateBucket index).Single id

/-- A removal for an identifier whose bucket does not exist changes nothing. -/
theorem removes_of_unchanged {t : RoutingTable} {env : Env} {id : NodeId}
    (hremove : t.remove env id = (.ok none, t)) (habsent : t.contains id = false) :
    t.Removes env id where
  returns := by
    rw [hremove]
    exact ⟨none, rfl, habsent.symm⟩
  gone := by
    rw [hremove]
    exact habsent
  kept := by
    rw [hremove]
    intro n hn _
    exact hn
  added := by
    rw [hremove]
    intro n hn
    exact .inl hn

theorem removes_iff_of_lookup {t : RoutingTable} {env : Env} {id : NodeId} {index : Nat}
    {b : KBucket} (hindex : t.bucketIndex id = some index)
    (hlookup : t.buckets.lookup index = some b) : t.Removes env id ↔ t.RemovedAtOnce id := by
  have hspec := KBucket.remove_spec b env id
  have hbucket : t.getOrCreateBucket index = b := getOrCreateBucket_of_lookup hlookup
  have hremove : t.remove env id = ((b.remove env id).1, t.setBucket index (b.remove env id).2) :=
    remove_of_lookup hindex hlookup
  have hcontains := contains_iff_getOrCreate hindex
  rw [hbucket] at hcontains
  have hcontains' : (t.setBucket index (b.remove env id).2).contains id = true ↔
      ∃ n ∈ (b.remove env id).2.nodes, n.id = id := by
    have hiff := contains_iff_getOrCreate (t := t.setBucket index (b.remove env id).2) hindex
    rwa [getOrCreateBucket_of_lookup (lookup_setBucket t index _)] at hiff
  have hgone : (t.remove env id).2.contains id = false ↔ t.RemovedAtOnce id := by
    have hnot : (t.remove env id).2.contains id = false ↔
        ∀ n ∈ (b.remove env id).2.nodes, n.id ≠ id := by
      rw [hremove, ← Bool.not_eq_true, hcontains']
      push Not
      exact Iff.rfl
    rw [hnot, hspec.gone_iff, RemovedAtOnce, hcontains]
    constructor
    · intro h hmem index' hindex'
      obtain rfl : index = index' := Option.some.inj (hindex.symm.trans hindex')
      rw [hbucket]
      exact h hmem
    · intro h hmem
      rw [← hbucket]
      exact h hmem index hindex
  constructor
  · intro h
    exact hgone.mp h.gone
  · intro h
    obtain ⟨removed, hresult⟩ := t.remove_ok env id
    constructor
    · refine ⟨removed, hresult, ?_⟩
      rw [hremove] at hresult
      rw [hresult] at hspec
      rw [hspec.isSome_eq, contains, hindex]
      simp only [hlookup]
    · exact hgone.mpr h
    · intro n hn hid
      rw [hremove, mem_getAllNodes_setBucket]
      rcases (mem_getAllNodes_iff t index n).mp hn with hn | helse
      · rw [hbucket] at hn
        exact .inl (hspec.mem_of_ne hn hid)
      · exact .inr helse
    · intro n hn
      rw [hremove, mem_getAllNodes_setBucket] at hn
      rw [mem_getAllNodes_iff t index n, hbucket]
      rcases hn with hn | helse
      · rcases hspec.mem_cases hn with hold | ⟨m, hhead, hstamp⟩
        · exact .inl (.inl hold)
        · refine .inr ⟨index, m, hindex, ?_, hstamp⟩
          rw [hbucket]
          exact hhead
      · exact .inl (.inr helse)

theorem removes_iff_of_unchanged {t : RoutingTable} {env : Env} {id : NodeId}
    (hremove : t.remove env id = (.ok none, t)) (habsent : t.contains id = false) :
    t.Removes env id ↔ t.RemovedAtOnce id := by
  apply iff_of_true (removes_of_unchanged hremove habsent)
  intro hcontains
  rw [habsent] at hcontains
  cases hcontains

/-- In a table reached by any operations, a removal does what it is for if and only if the
identifier is no contact, or a contact only once and not the front candidate as well. -/
theorem removes_iff (localNodeId : NodeId) (k : Nat) (ops : List TableOp) (env : Env) (id : NodeId) :
    (run step (withK localNodeId k) ops).Removes env id ↔
      (run step (withK localNodeId k) ops).RemovedAtOnce id := by
  generalize run step (withK localNodeId k) ops = t
  cases hindex : t.bucketIndex id with
  | none =>
    have habsent : t.contains id = false := by
      rw [contains, hindex]
    exact removes_iff_of_unchanged (by rw [remove, hindex]) habsent
  | some index =>
    cases hlookup : t.buckets.lookup index with
    | none =>
      have habsent : t.contains id = false := by
        rw [contains, hindex]
        simp only [hlookup]
      refine removes_iff_of_unchanged ?_ habsent
      rw [remove, hindex]
      simp only [hlookup]
    | some b => exact removes_iff_of_lookup hindex hlookup

/-- The contact that was readmitted is still a candidate, and its removal promotes it. -/
theorem readmitted_contact_not_removed :
    ¬ ∀ (localNodeId : NodeId) (k : Nat), 1 ≤ k → ∀ (ops : List TableOp) (env : Env) (id : NodeId),
      TableOp.NonDecreasing (ops ++ [.remove env id]) →
      (run step (withK localNodeId k) ops).Removes env id := by
  intro h
  have hclock : TableOp.NonDecreasing
      (readmissionOps ++ [.remove (.at 1001) (Node.ofByte 0xC0).id]) := by
    simp [readmissionOps, TableOp.NonDecreasing, TableOp.env, Env.at]
  have hgone := (h (NodeId.fromBytes []) 1 (by decide) readmissionOps (.at 1001)
    (Node.ofByte 0xC0).id hclock).gone
  revert hgone
  decide +kernel

end RoutingTable

end Kademlia
