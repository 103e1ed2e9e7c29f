import Kademlia.Protocol.NewContact
import Kademlia.Protocol.Replacement

/-!
# Who comes in when a contact is recorded

The contacts of a table after some operations are those that were there before and those that
the operations brought in.  `From` keeps them apart, and follows the steps of a call of
`record_contact`: it can bring in its node, and the candidate that a removal promotes.
`recordContact_quiet_iff` says when it brings in nobody.

A call that returns has returned no error: what it hands on are panics only.
-/

namespace Kademlia

open Lib

namespace RecordContact

/-- If the check of the front contact fails, the candidate that gets its place is a contact
already, and leaves no place for the node. -/
def LeavesNoPlace (t : RoutingTable) (b : KBucket) (f node : Node) (check : Check) :
    Prop :=
  ∀ evict retry, check.failure = some (evict, retry) →
    ∃ candidate waiting, b.cacheWithout node.id = candidate :: waiting ∧
      t.contains candidate.id = true ∧
      (standIn (check.checked b f) f candidate evict).admission retry ≠ .admits

/-- Recording the node brings no identifier into the table.  It is the own one or one of a
contact, or its bucket takes it as a candidate only. -/
def KeepsOut (nodeId : NodeId) (t : RoutingTable) (node : Node) (input : Input) :
    Prop :=
  node.id = nodeId ∨ t.contains node.id = true ∨
    ∃ index f rest, t.bucketIndex node.id = some index ∧
      (t.getOrCreateBucket index).nodes = f :: rest ∧
      (t.getOrCreateBucket index).admission input.env = .caches ∧
      LeavesNoPlace t (t.getOrCreateBucket index) f node input.check

/-! ## Where contacts come from -/

section Contacts

variable {t t' t'' : RoutingTable} {new new' : List Node}

/-- Every contact of `t'` has the identifier and the statistics of a contact of `t` or of one
of the entries. -/
def From (t : RoutingTable) (new : List Node) (t' : RoutingTable) : Prop :=
  ∀ n ∈ t'.getAllNodes, ∃ m ∈ t.getAllNodes ++ new,
    m.id = n.id ∧ m.responseStats = n.responseStats

theorem From.refl (t : RoutingTable) : From t [] t := by
  intro n hn
  exact ⟨n, List.mem_append_left _ hn, rfl, rfl⟩

theorem From.trans (h : From t new t') (h' : From t' new' t'') : From t (new ++ new') t'' := by
  intro n hn
  obtain ⟨m', hm', hid', hstats'⟩ := h' n hn
  rcases List.mem_append.mp hm' with hm' | hm'
  · obtain ⟨m, hm, hid, hstats⟩ := h m' hm'
    refine ⟨m, ?_, hid.trans hid', hstats.trans hstats'⟩
    rw [← List.append_assoc]
    exact List.mem_append_left _ hm
  · exact ⟨m', List.mem_append_right _ (List.mem_append_right _ hm'), hid', hstats'⟩

/-- An operation brings in the entry that it inserts. -/
theorem from_step (ht : t.Placed) {op : TableOp}
    (hop : ∀ entry, t.inserted op = some entry → ∃ m ∈ new,
      m.id = entry.id ∧ m.responseStats = entry.responseStats) : From t new (t.step op) := by
  intro n hn
  rcases (ht.step_spec op).mem_getAllNodes rfl (ht.step op) hn with
    ⟨m, hm, hid, -, hstats⟩ | hinserted
  · exact ⟨m, List.mem_append_left _ hm, hid, hstats⟩
  · obtain ⟨m, hm, hlike⟩ := hop n hinserted
    exact ⟨m, List.mem_append_right _ hm, hlike⟩

theorem from_step_of_none (ht : t.Placed) {op : TableOp} (hop : t.inserted op = none) :
    From t [] (t.step op) := by
  refine from_step ht ?_
  intro entry hentry
  rw [hop] at hentry
  cases hentry

theorem from_update (ht : t.Placed) (env : Env) (node : Node) :
    From t [node] (t.step (.update env node)) := by
  refine from_step ht ?_
  intro entry hentry
  rw [RoutingTable.inserted] at hentry
  split_ifs at hentry
  rw [← Option.some.inj hentry]
  exact ⟨node, List.mem_cons_self, rfl, rfl⟩

theorem from_remove (ht : t.Placed) (env : Env) {id : NodeId} {index : Nat}
    (hindex : t.bucketIndex id = some index) :
    From t (t.getOrCreateBucket index).replacementCache.head?.toList (t.step (.remove env id)) := by
  refine from_step ht ?_
  intro entry hentry
  simp only [RoutingTable.inserted, hindex] at hentry
  split_ifs at hentry
  obtain ⟨m, hhead, rfl⟩ := Option.map_eq_some_iff.mp hentry
  exact ⟨m, Option.mem_toList.mpr hhead, rfl, rfl⟩

/-- A table with contacts from another one has no other identifiers. -/
theorem From.contains (h : From t new t') (ht : t.Placed) (ht' : t'.Placed) {id : NodeId}
    (hid : t'.contains id = true) : t.contains id = true ∨ ∃ m ∈ new, m.id = id := by
  obtain ⟨n, hn, rfl⟩ := (ht'.contains_iff_mem id).mp hid
  obtain ⟨m, hm, hlike, -⟩ := h n hn
  rcases List.mem_append.mp hm with hm | hm
  · exact .inl ((ht.contains_iff_mem n.id).mpr ⟨m, hm, hlike⟩)
  · exact .inr ⟨m, hm, hlike⟩

theorem quiet_iff :
    Quiet t t' ↔ ∀ id, t'.contains id = true → t.contains id = true := by
  refine forall_congr' fun id => ?_
  cases t.contains id <;> cases t'.contains id <;> simp

theorem not_quiet {id : NodeId} (hafter : t'.contains id = true)
    (hbefore : t.contains id = false) : ¬ Quiet t t' := by
  intro h
  rw [h id hbefore] at hafter
  cases hafter

theorem From.quiet (h : From t [] t') (ht : t.Placed) (ht' : t'.Placed) : Quiet t t' := by
  rw [quiet_iff]
  intro id hid
  rcases h.contains ht ht' hid with hbefore | ⟨m, hm, -⟩
  · exact hbefore
  · cases hm

end Contacts

/-! ## Recording the bootstrap node -/

section Record

variable {nodeId : NodeId} {t : RoutingTable} {node f : Node} {index : Nat}
  {input : Input}

/-- A check that fails lets the first candidate in, and perhaps the node. -/
theorem from_check (ht : t.Placed) (hping : t.bucketIndex f.id = some index) {b : KBucket}
    (hlookup : t.buckets.lookup index = some b) {rest : List Node} (hnodes : b.nodes = f :: rest)
    (wasKnown : Bool) {check : Check} {evict retry : Env}
    (hfails : check.failure = some (evict, retry)) :
    From t (b.replacementCache.head?.toList ++ [node])
      (run (fun call st => next nodeId call.1 node call.2 st)
        (t, .checking wasKnown f) check.steps).1 := by
  obtain ⟨t', ht', hlocal', htable, hlookup', hrun⟩ :=
    run_check nodeId node ht hping hlookup hnodes wasKnown hfails
  have hfrom : From t [] t' := by
    rcases htable with rfl | ⟨env, rfl⟩
    · exact From.refl t'
    · exact from_step_of_none ht rfl
  have hindex : t'.bucketIndex f.id = some index := by
    rw [RoutingTable.bucketIndex, hlocal']
    exact hping
  have hcache : (t'.getOrCreateBucket index).replacementCache = b.replacementCache := by
    rw [RoutingTable.getOrCreateBucket_of_lookup hlookup']
    cases check <;> rfl
  have hremove := from_remove ht' evict hindex
  rw [hcache] at hremove
  have hplaced := ht'.step (.remove evict f.id)
  have hend : (run (fun call st => next nodeId call.1 node call.2 st)
      (t', .failed wasKnown f) [.evict evict, .retry retry]).1 =
      (t'.step (.remove evict f.id)).step (.update retry node) := by
    rw [run_cons, next_removed]
    exact next_table nodeId _ node (.removed wasKnown) (.retry retry)
  rw [hrun, hend]
  exact (hfrom.trans hremove).trans (from_update hplaced retry node)

/-- A check that is answered lets nobody in. -/
theorem from_answered (ht : t.Placed) (wasKnown : Bool) {check : Check}
    (hanswered : check.failure = none) :
    From t [] (run (fun call st => next nodeId call.1 node call.2 st)
      (t, .checking wasKnown f) check.steps).1 := by
  cases check with
  | timedOut env evict retry => cases hanswered
  | failed evict retry => cases hanswered
  | answered env responseTimeMs seen =>
    have hplaced := ht.step (.recordSuccess env f.id responseTimeMs)
    have hend : (run (fun call st => next nodeId call.1 node call.2 st)
        (t, .checking wasKnown f) [.answer env responseTimeMs, .seen seen]).1 =
        (t.step (.recordSuccess env f.id responseTimeMs)).step (.nodeSeen seen f.id) := by
      have hfirst : next nodeId t node (.checking wasKnown f)
          (.answer env responseTimeMs) =
          (t.step (.recordSuccess env f.id responseTimeMs), .answered f) :=
        ignoring_of_ok _
          (recordSuccess_eq_ok ht env f.id responseTimeMs)
      rw [run_cons, hfirst]
      exact next_table nodeId _ node (.answered f) (.seen seen)
    rw [Check.steps, hend]
    exact (from_step_of_none ht rfl).trans (from_step_of_none hplaced rfl)

/-- The update for a node that its bucket takes only as a candidate. -/
theorem update_of_caches (ht : t.Placed) (hindex : t.bucketIndex node.id = some index)
    (hnew : t.contains node.id = false) {env : Env}
    (hcaches : (t.getOrCreateBucket index).admission env = .caches) :
    ∃ f rest, (t.getOrCreateBucket index).nodes = f :: rest ∧
      (t.update env node).1 = .ok (.pendingPing f) := by
  rw [ht.update_of_index hindex]
  rw [RoutingTable.contains_eq_getOrCreate hindex] at hnew
  have hspec : KBucket.TakeSpec (t.getOrCreateBucket index) env node _ _ :=
    KBucket.update_takeSpec (ht.ne_local hindex)
  generalize t.getOrCreateBucket index = b at hnew hcaches hspec ⊢
  generalize (b.update env node).1 = result, (b.update env node).2 = b' at hspec ⊢
  cases hspec with
  | known hknown _ =>
    rw [hnew] at hknown
    cases hknown
  | contact _ hadmits _ =>
    rw [hcaches] at hadmits
    cases hadmits
  | overflow _ hfaults =>
    rw [hcaches] at hfaults
    cases hfaults
  | candidate _ _ hnodes => exact ⟨_, _, hnodes, rfl⟩

theorem recordContact_of_updated (hself : node.id ≠ nodeId)
    (h : (t.update input.env node).1 = .ok .updated) :
    (recordContact nodeId t node input).1 = t.step (.update input.env node) := by
  show _ = (t.update input.env node).2
  unfold recordContact contact
  rw [if_neg hself]
  rcases hresult : t.update input.env node with ⟨result, t'⟩
  rw [hresult] at h
  obtain rfl : result = .ok .updated := h
  rfl

/-- What recording a node does that is no contact: the bucket takes it as a contact, or it
waits as a candidate while the front contact is checked. -/
inductive Recorded (t : RoutingTable) (node : Node) (input : Input) (index : Nat) :
    RoutingTable → Prop where
  | admitted (hadmits : (t.getOrCreateBucket index).admission input.env = .admits)
      (hcontains : (t.step (.update input.env node)).contains node.id = true) :
      Recorded t node input index (t.step (.update input.env node))
  | answered {f : Node} {rest : List Node} {t' : RoutingTable}
      (hcaches : (t.getOrCreateBucket index).admission input.env = .caches)
      (hnodes : (t.getOrCreateBucket index).nodes = f :: rest)
      (hanswered : input.check.failure = none) (hfrom : From t [] t') :
      Recorded t node input index t'
  | failed {f : Node} {rest : List Node} {evict retry : Env}
      {result : RoutingTable × Phase}
      (hcaches : (t.getOrCreateBucket index).admission input.env = .caches)
      (hnodes : (t.getOrCreateBucket index).nodes = f :: rest)
      (hfails : input.check.failure = some (evict, retry))
      (hfrom : From t (((t.getOrCreateBucket index).cacheWithout node.id ++
        [node.updateLastSeen input.env]).head?.toList ++ [node]) result.1)
      (halone : (t.getOrCreateBucket index).cacheWithout node.id = [] →
        Replaced node result)
      (hwaiting : ∀ candidate waiting,
        (t.getOrCreateBucket index).cacheWithout node.id = candidate :: waiting →
        ((standIn (input.check.checked (t.getOrCreateBucket index) f) f candidate evict).admission
          retry = .admits → Replaced node result) ∧
        ((standIn (input.check.checked (t.getOrCreateBucket index) f) f candidate evict).admission
          retry ≠ .admits → Queued node candidate index result)) :
      Recorded t node input index result.1

theorem recordContact_recorded (ht : t.Placed) (hlocal : t.localNodeId = nodeId)
    (hindex : t.bucketIndex node.id = some index)
    (hdistinct : (t.getOrCreateBucket index).DistinctCandidates)
    (hnew : t.contains node.id = false) (hno : NoOverflow nodeId t node input) :
    Recorded t node input index (recordContact nodeId t node input).1 := by
  have hself : node.id ≠ nodeId := hlocal ▸ NodeId.ne_of_bucketIndex hindex
  have hne : node.id ≠ t.localNodeId := NodeId.ne_of_bucketIndex hindex
  obtain ⟨hoverflows, hchecks⟩ := hno.resolve_left hself
  cases hadmission : (t.getOrCreateBucket index).admission input.env with
  | faults => exact absurd ⟨hnew, index, hindex, hadmission⟩ hoverflows
  | admits =>
    have hupdated : (t.update input.env node).1 = .ok .updated := by
      rw [ht.update_of_index hindex,
        (KBucket.update_updated (ht.ne_local hindex) (.inr hadmission)).1]
      rfl
    rw [recordContact_of_updated hself hupdated]
    exact .admitted hadmission ((ht.update_updated_iff input.env hne).mp hupdated)
  | caches =>
    obtain ⟨f, rest, hnodes, hupdate⟩ := update_of_caches ht hindex hnew hadmission
    obtain ⟨htimeouts, -⟩ := hchecks f hupdate
    have hplaced : (t.update input.env node).2.Placed := ht.step (.update input.env node)
    have hfirst : From t [] (t.update input.env node).2 := by
      have hafter : (t.update input.env node).2.contains node.id = false := by
        rw [Bool.eq_false_iff]
        intro hcontains
        rw [(ht.update_updated_iff input.env hne).mpr hcontains] at hupdate
        cases hupdate
      have hinserted : t.inserted (.update input.env node) = none := by
        rw [RoutingTable.inserted, hafter, Bool.and_false, if_neg Bool.false_ne_true]
      exact from_step_of_none ht hinserted
    have hrecord := recordContact_pendingPing hself hupdate htimeouts
    cases hfailure : input.check.failure with
    | none =>
      refine .answered hadmission hnodes hfailure ?_
      rw [hrecord]
      exact hfirst.trans (from_answered hplaced _ hfailure)
    | some failure =>
      obtain ⟨evict, retry⟩ := failure
      obtain ⟨halone, hwaiting⟩ := recordContact_failed ht hlocal hindex hdistinct
        hupdate htimeouts hfailure
      refine .failed hadmission hnodes hfailure ?_ halone hwaiting
      obtain ⟨index', hindex', hping, -, -⟩ := ht.pendingPing_target hupdate
      obtain rfl : index = index' := Option.some.inj (hindex.symm.trans hindex')
      obtain ⟨-, -, hcached⟩ :=
        KBucket.update_pendingPing (ht.ne_local hindex) (ht.pendingPing_bucket hindex hupdate)
      have htable : (t.update input.env node).2 = t.setBucket index
          { t.getOrCreateBucket index with
            replacementCache := (t.getOrCreateBucket index).cacheWithout node.id ++
              [node.updateLastSeen input.env] } := by
        rw [ht.update_of_index hindex, hcached]
      rw [hrecord]
      refine hfirst.trans ?_
      rw [htable] at hplaced ⊢
      exact from_check hplaced hping (t.lookup_setBucket index _) hnodes _ hfailure

/-- The entries of the node that a call brings in have its statistics. -/
theorem Recorded.stats {t' : RoutingTable} (h : Recorded t node input index t') (ht : t.Placed)
    (hdistinct : (t.getOrCreateBucket index).DistinctCandidates)
    (hnew : t.contains node.id = false) {n : Node} (hn : n ∈ t'.getAllNodes)
    (hid : n.id = node.id) : n.responseStats = node.responseStats := by
  have hnone : ∀ m ∈ t.getAllNodes, m.id ≠ n.id := by
    intro m hm hlike
    rw [(ht.contains_iff_mem node.id).mpr ⟨m, hm, hlike.trans hid⟩] at hnew
    cases hnew
  have hentries : ∃ new, From t new t' ∧
      ∀ m ∈ new, m.id = node.id → m.responseStats = node.responseStats := by
    cases h with
    | admitted _ _ =>
      refine ⟨[node], from_update ht input.env node, ?_⟩
      intro m hm _
      rw [List.mem_singleton.mp hm]
    | answered _ _ _ hfrom => exact ⟨[], hfrom, fun _ hm => nomatch hm⟩
    | failed _ _ _ hfrom _ _ =>
      refine ⟨_, hfrom, ?_⟩
      intro m hm hmid
      rcases List.mem_append.mp hm with hm | hm
      · have hcached := List.mem_of_head? (Option.mem_toList.mp hm)
        rcases List.mem_append.mp hcached with hwaits | hm
        · exact absurd hmid (hdistinct.ne_of_mem_cacheWithout hwaits)
        · rw [List.mem_singleton.mp hm]
          rfl
      · rw [List.mem_singleton.mp hm]
  obtain ⟨new, hfrom, hstats⟩ := hentries
  obtain ⟨m, hm, hlike, hsame⟩ := hfrom n hn
  rcases List.mem_append.mp hm with hm | hm
  · exact absurd hlike (hnone m hm)
  · rw [← hsame]
    exact hstats m hm (hlike.trans hid)

/-- After a check that failed, the candidate or the node is new, unless the candidate was a
contact and the node got no place. -/
theorem quiet_of_failed_iff {evict retry : Env} {result : RoutingTable × Phase}
    (ht : t.Placed) (ht' : result.1.Placed) (hnew : t.contains node.id = false)
    (hfails : input.check.failure = some (evict, retry))
    (hfrom : From t (((t.getOrCreateBucket index).cacheWithout node.id ++
      [node.updateLastSeen input.env]).head?.toList ++ [node]) result.1)
    (halone : (t.getOrCreateBucket index).cacheWithout node.id = [] →
      Replaced node result)
    (hwaiting : ∀ candidate waiting,
      (t.getOrCreateBucket index).cacheWithout node.id = candidate :: waiting →
      ((standIn (input.check.checked (t.getOrCreateBucket index) f) f candidate evict).admission
        retry = .admits → Replaced node result) ∧
      ((standIn (input.check.checked (t.getOrCreateBucket index) f) f candidate evict).admission
        retry ≠ .admits → Queued node candidate index result)) :
    Quiet t result.1 ↔ LeavesNoPlace t (t.getOrCreateBucket index) f node input.check := by
  constructor
  · intro hnone evict' retry' hfails'
    rw [hfails] at hfails'
    obtain ⟨rfl, rfl⟩ := Prod.mk.inj (Option.some.inj hfails')
    have hout : ¬ Replaced node result := by
      intro hreplaced
      exact not_quiet hreplaced.1 hnew hnone
    cases hcache : (t.getOrCreateBucket index).cacheWithout node.id with
    | nil => exact absurd (halone hcache) hout
    | cons candidate waiting =>
      obtain ⟨hreplaced, hqueued⟩ := hwaiting candidate waiting hcache
      have hrefused := mt hreplaced hout
      have hknown := quiet_iff.mp hnone candidate.id (hqueued hrefused).candidate
      exact ⟨candidate, waiting, rfl, hknown, hrefused⟩
  · intro hleaves
    rw [quiet_iff]
    intro id hid
    obtain ⟨candidate, waiting, hcache, hknown, hrefused⟩ := hleaves evict retry hfails
    have hqueued := (hwaiting candidate waiting hcache).2 hrefused
    rcases hfrom.contains ht ht' hid with hbefore | ⟨m, hm, rfl⟩
    · exact hbefore
    · rw [hcache] at hm
      rcases List.mem_cons.mp hm with rfl | hm
      · exact hknown
      · rw [List.mem_singleton.mp hm, hqueued.absent] at hid
        cases hid

theorem Recorded.quiet_iff {t' : RoutingTable} (h : Recorded t node input index t')
    (ht : t.Placed) (ht' : t'.Placed) (hself : node.id ≠ nodeId)
    (hindex : t.bucketIndex node.id = some index) (hnew : t.contains node.id = false) :
    Quiet t t' ↔ KeepsOut nodeId t node input := by
  have hiff : KeepsOut nodeId t node input ↔ ∃ f rest,
      (t.getOrCreateBucket index).nodes = f :: rest ∧
      (t.getOrCreateBucket index).admission input.env = .caches ∧
      LeavesNoPlace t (t.getOrCreateBucket index) f node input.check := by
    rw [KeepsOut, hnew]
    simp [hself, hindex]
  rw [hiff]
  cases h with
  | admitted hadmits hcontains =>
    refine iff_of_false (not_quiet hcontains hnew) ?_
    rintro ⟨f, rest, -, hcaches, -⟩
    rw [hadmits] at hcaches
    cases hcaches
  | answered hcaches hnodes hanswered hfrom =>
    refine iff_of_true ?_ ⟨_, _, hnodes, hcaches, ?_⟩
    · exact hfrom.quiet ht ht'
    · intro evict retry hfails
      rw [hanswered] at hfails
      cases hfails
  | @failed f rest evict retry result hcaches hnodes hfails hfrom halone hwaiting =>
    rw [quiet_of_failed_iff ht ht' hnew hfails hfrom halone hwaiting]
    constructor
    · intro hleaves
      exact ⟨f, rest, hnodes, hcaches, hleaves⟩
    · rintro ⟨f', rest', hnodes', -, hleaves⟩
      rw [hnodes] at hnodes'
      obtain ⟨rfl, -⟩ := List.cons.inj hnodes'
      exact hleaves

/-- Recording a node brings nobody in exactly when it is kept out. -/
theorem recordContact_quiet_iff (ht : t.Placed) (hlocal : t.localNodeId = nodeId)
    (hdistinct : ∀ index, (t.getOrCreateBucket index).DistinctCandidates)
    (hno : NoOverflow nodeId t node input) :
    Quiet t (recordContact nodeId t node input).1 ↔ KeepsOut nodeId t node input := by
  have ht' := HandleRequest.placed_recordContact nodeId ht node input
  by_cases hself : node.id = nodeId
  · refine iff_of_true ?_ (.inl hself)
    have hsame : (recordContact nodeId t node input).1 = t := by
      simp [recordContact, contact, hself]
    rw [hsame]
    exact fun _ hid => hid
  cases hnew : t.contains node.id with
  | true =>
    have hne : node.id ≠ t.localNodeId := hlocal ▸ hself
    have hupdated := (ht.update_updated_iff input.env hne).mpr (ht.contains_update input.env hnew)
    refine iff_of_true ?_ (.inr (.inl hnew))
    rw [quiet_iff]
    intro id hid
    rw [recordContact_of_updated hself hupdated] at hid ht'
    rcases (from_update ht input.env node).contains ht ht' hid with hbefore | ⟨m, hm, rfl⟩
    · exact hbefore
    · rw [List.mem_singleton.mp hm]
      exact hnew
  | false =>
    rcases hindex : t.bucketIndex node.id with _ | index
    · exact absurd (hlocal ▸ NodeId.bucketIndex_eq_none_iff.mp hindex) hself
    exact (recordContact_recorded ht hlocal hindex (hdistinct index) hnew hno).quiet_iff ht ht'
      hself hindex hnew

end Record

/-! ## Errors and panics -/

section Faults

variable {nodeId : NodeId} {t : RoutingTable} {node : Node}

/-- An update of a placed table returns no error. -/
theorem update_ne_err (ht : t.Placed) (env : Env) (error : Error) :
    (t.update env node).1 ≠ .error (.err error) := by
  intro h
  rcases hindex : t.bucketIndex node.id with _ | index
  · rw [ht.update_of_none hindex] at h
    cases h
  rw [ht.update_of_index hindex] at h
  have hspec : KBucket.TakeSpec (t.getOrCreateBucket index) env node _ _ :=
    KBucket.update_takeSpec (ht.ne_local hindex)
  generalize ((t.getOrCreateBucket index).update env node).1 = result,
    ((t.getOrCreateBucket index).update env node).2 = b' at hspec h
  cases hspec <;> cases h

theorem adaptiveTimeout_ne_err (stats : ResponseStats) (env : Env) (error : Error) :
    stats.adaptiveTimeout env 3.0 (Duration.fromSecs 5) ≠ .error (.err error) := by
  intro h
  unfold ResponseStats.adaptiveTimeout addU64 at h
  cases hmean : stats.avgResponseTimeMs with
  | none =>
    simp only [hmean] at h
    cases h
  | some avgMs =>
    simp only [hmean] at h
    split_ifs at h
    · cases h

theorem timeouts_ne_err (rpc : Rpc) (env : Env) (error : Error) :
    rpc.timeouts t env node ≠ .error (.err error) := by
  intro h
  unfold Rpc.timeouts at h
  split at h
  · cases h
  · cases hget : t.get node.id with
    | none =>
      simp only [hget] at h
      cases h
    | some existingNode =>
      simp only [hget] at h
      cases htimeout : existingNode.responseStats.adaptiveTimeout env 3.0 (Duration.fromSecs 5) with
      | ok timeout =>
        simp only [htimeout] at h
        cases h
      | error fault =>
        simp only [htimeout] at h
        rw [Except.error.inj h] at htimeout
        exact adaptiveTimeout_ne_err _ env error htimeout

/-- The call has returned no error. -/
def Sane (phase : Phase) : Prop :=
  ∀ error, phase ≠ .finished (.error (.err error))

theorem sane_contact (ht : t.Placed) (env : Env) :
    Sane (contact nodeId t env node).2 := by
  intro error h
  unfold contact at h
  split_ifs at h
  · cases h
  have hupdate : (t.update env node).1 ≠ .error (.err error) := update_ne_err ht env error
  rcases hresult : t.update env node with ⟨fault | status, t'⟩
  · rw [hresult] at hupdate
    simp only [hresult] at h
    cases h
    exact hupdate rfl
  · cases status <;> simp only [hresult] at h <;> cases h

theorem sane_ignoring {phase : Phase} (h : Sane phase)
    (result : Outcome Unit × RoutingTable) : Sane (ignoring phase result).2 := by
  rcases result with ⟨fault | _, t'⟩
  · cases fault with
    | panic message =>
      intro error hpanic
      cases hpanic
    | err error => exact h
    | outOfFuel => exact h
  · exact h

theorem sane_next (ht : t.Placed) {phase : Phase} (h : Sane phase)
    (st : Step) : Sane (next nodeId t node phase st).2 := by
  unfold next
  split
  · exact sane_contact ht _
  · refine sane_ignoring ?_ _
    exact fun _ hfault => nomatch hfault
  · refine sane_ignoring ?_ _
    exact fun _ hfault => nomatch hfault
  · exact fun _ hfault => nomatch hfault
  · rename_i nodeToPing env
    have hseen := nodeSeen_eq_ok ht env nodeToPing.id
    split
    · rename_i hresult
      rw [hresult] at hseen
      cases hseen
    · exact fun _ hfault => nomatch hfault
  · rename_i nodeToPing env
    obtain ⟨removed, hremoved⟩ := t.remove_ok env nodeToPing.id
    split
    · rename_i hresult
      rw [hresult] at hremoved
      cases hremoved
    · exact fun _ hfault => nomatch hfault
  · rename_i env
    split
    · rename_i hresult
      intro error hfault
      cases hfault
      exact update_ne_err ht env error (congrArg Prod.fst hresult)
    · exact fun _ hfault => nomatch hfault
    · exact fun _ hfault => nomatch hfault
  · exact h

/-- Recording a contact returns no error. -/
theorem sane_recordContact (ht : t.Placed) (input : Input) :
    Sane (recordContact nodeId t node input).2 := by
  have hcontact : Sane (contact nodeId t input.env node).2 :=
    sane_contact ht input.env
  have hplaced := ((contact_spec nodeId t node input.env).placed ht).1
  unfold recordContact
  split
  · rename_i t' wasKnown nodeToPing hresult
    rw [hresult] at hplaced
    split
    · rename_i hfault
      intro error h
      cases h
      exact timeouts_ne_err _ _ error hfault
    · refine (invariant (P := fun call : RoutingTable × Phase =>
        call.1.Placed ∧ Sane call.2) ?_ ⟨hplaced, fun _ hfault => nomatch hfault⟩ _).2
      intro call st ⟨hcall, hsane⟩
      exact ⟨((next_spec nodeId call.1 node call.2 st).placed hcall).1,
        sane_next hcall hsane st⟩
  · exact hcontact

end Faults

/-! ## The history of a new contact -/

section History

variable {nodeId : NodeId} {t : RoutingTable} {node : Node}

theorem mem_of_get {id : NodeId} {n : Node} (h : t.get id = some n) :
    n ∈ t.getAllNodes ∧ n.id = id := by
  unfold RoutingTable.get at h
  rcases hindex : t.bucketIndex id with _ | index
  · simp only [hindex] at h
    cases h
  rcases hlookup : t.buckets.lookup index with _ | b
  · simp only [hindex, hlookup] at h
    cases h
  · simp only [hindex, hlookup] at h
    have hn : n ∈ b.nodes := List.mem_of_find?_eq_some h
    have hid : n.id = id := by simpa using List.find?_some h
    exact ⟨RoutingTable.mem_getAllNodes.mpr ⟨index, b, hlookup, hn⟩, hid⟩

/-- The timeout of a call to a node without a history does not overflow. -/
theorem timeouts_of_fresh (h : ∀ n ∈ t.getAllNodes, n.id = node.id → n.responseStats = .default)
    (rpc : Rpc) (env : Env) : ∃ timeouts, rpc.timeouts t env node = .ok timeouts := by
  cases htimeouts : rpc.timeouts t env node with
  | ok timeouts => exact ⟨timeouts, rfl⟩
  | error fault =>
    unfold Rpc.timeouts at htimeouts
    split at htimeouts
    · cases htimeouts
    · cases hget : t.get node.id with
      | none =>
        simp only [hget] at htimeouts
        cases htimeouts
      | some n =>
        obtain ⟨hn, hid⟩ := mem_of_get hget
        simp only [hget, h n hn hid] at htimeouts
        cases htimeouts

/-- The bootstrap node has no history when recording it has brought it in. -/
theorem timeouts_of_entered {input : Input} (ht : t.Placed)
    (hlocal : t.localNodeId = nodeId)
    (hdistinct : ∀ index, (t.getOrCreateBucket index).DistinctCandidates)
    (hno : NoOverflow nodeId t node input) (hout : ¬ KeepsOut nodeId t node input)
    (hstats : node.responseStats = .default) (rpc : Rpc) (env : Env) :
    ∃ timeouts, rpc.timeouts (recordContact nodeId t node input).1 env node = .ok timeouts := by
  obtain ⟨hself, hunknown⟩ := not_or.mp hout
  have hnew : t.contains node.id = false := Bool.eq_false_iff.mpr (not_or.mp hunknown).1
  rcases hindex : t.bucketIndex node.id with _ | index
  · exact absurd (hlocal ▸ NodeId.bucketIndex_eq_none_iff.mp hindex) hself
  have hrecorded := recordContact_recorded ht hlocal hindex (hdistinct index) hnew hno
  refine timeouts_of_fresh ?_ rpc env
  intro n hn hid
  exact (hrecorded.stats ht (hdistinct index) hnew hn hid).trans hstats

end History

end RecordContact

end Kademlia
