import Kademlia.Protocol.RecordContact
import Kademlia.Routing.Admission

/-!
# Which calls report a new contact

A call reports `true` when it takes its node for a new contact.  It should do so exactly
when one of its own steps brought the node into the table.  Two things break this: the
removal inside a call can promote a candidate other than its node, which nobody reports,
and a node can be inserted by another call while this one checks a contact, which both
report.  `Reports` excludes these steps, and `exact_step_iff` says that nothing else makes
the reports inexact.
-/

namespace Kademlia

open Lib

namespace KBucket

/-- An update for another node than the local one ends with it among the contacts exactly when
it says so. -/
theorem update_updated_iff {b : KBucket} {env : Env} {node : Node}
    (hlocal : node.id ≠ b.localNodeId) :
    (b.update env node).1 = .ok .updated ↔ (b.update env node).2.contains node.id = true := by
  have hspec : TakeSpec b env node _ _ := update_takeSpec hlocal
  generalize (b.update env node).1 = result, (b.update env node).2 = b' at hspec ⊢
  cases hspec with
  | known _ hcontains => exact iff_of_true rfl hcontains
  | contact _ _ hcontains => exact iff_of_true rfl hcontains
  | candidate hnew _ _ => exact iff_of_false (fun h => nomatch h) (Bool.eq_false_iff.mp hnew)
  | overflow hnew _ => exact iff_of_false (fun h => nomatch h) (Bool.eq_false_iff.mp hnew)

theorem RemoveSpec.mem_of_head {b b' : KBucket} {env : Env} {id : NodeId}
    {result : Outcome (Option Node)} (h : RemoveSpec b env id result b') {m : Node}
    (hcontact : ∃ x ∈ b.nodes, x.id = id) (hhead : b.replacementCache.head? = some m) :
    m.updateLastSeen env ∈ b'.nodes := by
  cases h with
  | absent hnew =>
    obtain ⟨x, hx, hid⟩ := hcontact
    exact absurd hid (hnew x hx)
  | dropped _ hcache =>
    rw [hcache] at hhead
    cases hhead
  | promoted _ hcache =>
    rw [hcache] at hhead
    obtain rfl := Option.some.inj hhead
    exact List.mem_append_right _ List.mem_cons_self

end KBucket

namespace RoutingTable

theorem Placed.update_updated_iff {t : RoutingTable} (h : t.Placed) (env : Env) {node : Node}
    (hlocal : node.id ≠ t.localNodeId) :
    (t.update env node).1 = .ok .updated ↔ (t.update env node).2.contains node.id = true := by
  rcases hindex : t.bucketIndex node.id with _ | index
  · exact absurd (NodeId.bucketIndex_eq_none_iff.mp hindex) hlocal
  have hiff : ((t.getOrCreateBucket index).update env node).1 = .ok .updated ↔ _ :=
    KBucket.update_updated_iff (h.ne_local hindex)
  rw [h.update_of_index hindex, contains_setBucket hindex, ← hiff]
  generalize ((t.getOrCreateBucket index).update env node).1 = result
  cases result with
  | error fault => simp [Except.map]
  | ok update => cases update <;> simp [Except.map, UpdateStatus.ofBucket]

/-- An update for a contact keeps it. -/
theorem Placed.contains_update {t : RoutingTable} (h : t.Placed) (env : Env) {node : Node}
    (hcontains : t.contains node.id = true) : (t.update env node).2.contains node.id = true := by
  rcases hindex : t.bucketIndex node.id with _ | index
  · rw [h.update_of_none hindex]
    exact hcontains
  rw [contains_eq_getOrCreate hindex] at hcontains
  rw [h.update_of_index hindex, contains_setBucket hindex]
  have hspec : KBucket.TakeSpec (t.getOrCreateBucket index) env node _ _ :=
    KBucket.update_takeSpec (h.ne_local hindex)
  generalize ((t.getOrCreateBucket index).update env node).1 = result,
    ((t.getOrCreateBucket index).update env node).2 = b' at hspec ⊢
  cases hspec with
  | known _ hafter => exact hafter
  | contact _ _ hafter => exact hafter
  | candidate _ _ _ => exact hcontains
  | overflow _ _ => exact hcontains

/-- An identifier that enters the table is the one inserted. -/
theorem Placed.inserted_of_enters {t : RoutingTable} (h : t.Placed) {op : TableOp} {id : NodeId}
    (hbefore : t.contains id = false) (hafter : (t.step op).contains id = true) :
    ∃ entry, t.inserted op = some entry ∧ entry.id = id := by
  obtain ⟨contact, hcontact, rfl⟩ := ((h.step op).contains_iff_mem id).mp hafter
  rcases (h.step_spec op).mem_getAllNodes rfl (h.step op) hcontact with ⟨m, hm, hid, -⟩ | hinserted
  · have hcontains := (h.contains_iff_mem contact.id).mpr ⟨m, hm, hid⟩
    rw [hbefore] at hcontains
    cases hcontains
  · exact ⟨contact, hinserted, rfl⟩

theorem inserted_update_id {t : RoutingTable} {env : Env} {node entry : Node}
    (h : t.inserted (.update env node) = some entry) : entry.id = node.id := by
  rw [inserted] at h
  split_ifs at h
  rw [← Option.some.inj h]
  rfl

/-- The candidate that a removal promotes is a contact afterwards. -/
theorem Placed.contains_of_inserted_remove {t : RoutingTable} (h : t.Placed) {env : Env}
    {id : NodeId} {entry : Node} (hinserted : t.inserted (.remove env id) = some entry) :
    (t.step (.remove env id)).contains entry.id = true := by
  unfold inserted at hinserted
  rcases hindex : t.bucketIndex id with _ | index
  · simp only [hindex] at hinserted
    cases hinserted
  simp only [hindex] at hinserted
  split_ifs at hinserted with hcontains
  obtain ⟨m, hhead, rfl⟩ := Option.map_eq_some_iff.mp hinserted
  have hcontact : ∃ x ∈ (t.getOrCreateBucket index).nodes, x.id = id := by
    simpa [KBucket.contains] using hcontains
  rcases hlookup : t.buckets.lookup index with _ | b
  · obtain ⟨x, hx, -⟩ := hcontact
    rw [getOrCreateBucket_of_none hlookup] at hx
    exact absurd hx List.not_mem_nil
  rw [getOrCreateBucket_of_lookup hlookup] at hcontact hhead
  have hmem := (KBucket.remove_spec b env id).mem_of_head hcontact hhead
  have hstep : t.step (.remove env id) = t.setBucket index (b.remove env id).2 := by
    show (t.remove env id).2 = _
    rw [remove_of_lookup hindex hlookup]
  rw [(h.step _).contains_iff_mem, hstep]
  exact ⟨_, (mem_getAllNodes_setBucket t index _ _).mpr (.inl hmem), rfl⟩

/-- What an operation inserts is a contact afterwards. -/
theorem Placed.contains_of_inserted {t : RoutingTable} (h : t.Placed) {op : TableOp} {entry : Node}
    (hinserted : t.inserted op = some entry) : (t.step op).contains entry.id = true := by
  cases op with
  | update env node =>
    have hid := inserted_update_id hinserted
    rw [inserted] at hinserted
    split_ifs at hinserted with henters
    rw [hid]
    exact (Bool.and_eq_true_iff.mp henters).2
  | remove env id => exact h.contains_of_inserted_remove hinserted
  | _ => cases hinserted

end RoutingTable

namespace RecordContact

/-- The reports are exact so far: no step brought a foreign identifier into the table, a
call brought in its own at most once, and a call that has ended reported `true` exactly
when it did. -/
structure Exact (s : State) : Prop where
  own : s.foreign = false
  calls : ∀ (c : Nat) (call : Call), s.calls[c]? = some call → call.entered ≤ 1 ∧
    ∀ result, call.phase = .finished result → (result = .ok true ↔ call.entered = 1)

/-- The steps that keep the reports exact: a removal promotes no candidate but the node
of the call or one that is a contact already, and the last update of a call finds its
node in the table exactly when its own removal brought it there. -/
def Reports (s : State) : Event → Prop
  | .step c (.evict env) =>
    ∀ call wasKnown nodeToPing, s.calls[c]? = some call →
      call.phase = .failed wasKnown nodeToPing →
      ∀ entry, s.table.inserted (.remove env nodeToPing.id) = some entry →
        entry.id = call.node.id ∨ s.table.contains entry.id = true
  | .step c (.retry _) =>
    ∀ call wasKnown, s.calls[c]? = some call → call.phase = .removed wasKnown →
      (s.table.contains call.node.id = true ↔ call.entered = 1)
  | _ => True

/-- What holds of a call in each phase, whatever the others do. -/
def Call.Sound (nodeId : NodeId) (call : Call) : Prop :=
  match call.phase with
  | .arrived => call.entered = 0
  | .checking wasKnown _ => wasKnown = false ∧ call.entered = 0 ∧ call.node.id ≠ nodeId
  | .answered _ => call.entered = 0
  | .failed wasKnown _ => wasKnown = false ∧ call.entered = 0 ∧ call.node.id ≠ nodeId
  | .removed wasKnown => wasKnown = false ∧ call.entered ≤ 1 ∧ call.node.id ≠ nodeId
  | .finished _ => True

structure Sound (s : State) : Prop where
  placed : s.table.Placed
  nodeId_eq : s.table.localNodeId = s.nodeId
  calls : ∀ (c : Nat) (call : Call), s.calls[c]? = some call → call.Sound s.nodeId

/-! ## One step of a call -/

theorem anyEnters_eq_false_iff {t t' : RoutingTable} (h : t'.Placed) {test : NodeId → Bool} :
    anyEnters t t' test = false ↔
      ∀ id, test id = true → t.contains id = false → t'.contains id = false := by
  rw [anyEnters, List.any_eq_false]
  constructor
  · intro hall id htest hbefore
    rw [Bool.eq_false_iff]
    intro hafter
    obtain ⟨n, hn, rfl⟩ := (h.contains_iff_mem id).mp hafter
    exact hall n hn (by simp [htest, hbefore])
  · intro hall n hn hboth
    simp only [Bool.and_eq_true, Bool.not_eq_true'] at hboth
    have hafter := hall n.id hboth.1 hboth.2
    rw [(h.contains_iff_mem n.id).mpr ⟨n, hn, rfl⟩] at hafter
    cases hafter

/-- No identifier enters the table. -/
def Quiet (t t' : RoutingTable) : Prop :=
  ∀ id, t.contains id = false → t'.contains id = false

theorem quiet_step {t : RoutingTable} (h : t.Placed) {op : TableOp} (hop : t.inserted op = none) :
    Quiet t (t.step op) := by
  intro id hbefore
  rw [Bool.eq_false_iff]
  intro hafter
  obtain ⟨entry, hinserted, -⟩ := h.inserted_of_enters hbefore hafter
  rw [hop] at hinserted
  cases hinserted

/-- The number of times the node of a call has entered the table, after a step to `t'`. -/
def Call.enteredAfter (call : Call) (t t' : RoutingTable) : Nat :=
  call.entered + if enters t t' call.node.id then 1 else 0

theorem exact_advance_iff {s : State} (h : Exact s) {c : Nat} {call : Call}
    (hcall : s.calls[c]? = some call) (t' : RoutingTable) (phase : Phase) :
    Exact (s.advance c call t' phase) ↔
      anyEnters s.table t' (fun id => id ≠ call.node.id) = false ∧
      call.enteredAfter s.table t' ≤ 1 ∧
      ∀ result, phase = .finished result →
        (result = .ok true ↔ call.enteredAfter s.table t' = 1) := by
  constructor
  · intro hexact
    have hown : (s.foreign || anyEnters s.table t' fun id => id ≠ call.node.id) = false :=
      hexact.own
    rw [h.own, Bool.false_or] at hown
    have hnew := hexact.calls c { call with
      phase := phase, entered := call.enteredAfter s.table t' } (by
        show (s.calls.set c _)[c]? = _
        rw [getElem?_set_slot hcall, if_pos rfl]
        rfl)
    exact ⟨hown, hnew⟩
  · rintro ⟨hown, hnew⟩
    refine ⟨?_, fun c' call' hcall' => ?_⟩
    · show (s.foreign || anyEnters s.table t' fun id => id ≠ call.node.id) = false
      rw [h.own, hown, Bool.false_or]
    · rcases getElem?_set_cases hcall' with ⟨-, rfl⟩ | ⟨-, hold⟩
      · exact hnew
      · exact h.calls c' call' hold

theorem Quiet.refl (t : RoutingTable) : Quiet t t := fun _ hbefore => hbefore

theorem Call.enteredAfter_of_quiet (call : Call) {t t' : RoutingTable} (hquiet : Quiet t t') :
    call.enteredAfter t t' = call.entered := by
  have hfalse : enters t t' call.node.id = false := by
    unfold enters
    rcases hbefore : t.contains call.node.id with _ | _
    · rw [hquiet _ hbefore]
      rfl
    · rfl
  rw [Call.enteredAfter, hfalse]
  rfl

/-! ## The invariant -/

theorem Call.enteredAfter_le (call : Call) (t t' : RoutingTable) :
    call.enteredAfter t t' ≤ call.entered + 1 := by
  unfold Call.enteredAfter
  split_ifs <;> omega

/-- An update brings its node in when it says so and the node was not there. -/
theorem enters_update_iff {t : RoutingTable} (h : t.Placed) {nodeId : NodeId}
    (hnodeId : t.localNodeId = nodeId) (env : Env) {node : Node} (hid : node.id ≠ nodeId) :
    enters t (t.step (.update env node)) node.id = true ↔
      (t.update env node).1 = .ok .updated ∧ t.contains node.id = false := by
  have hlocal : node.id ≠ t.localNodeId := by
    rw [hnodeId]
    exact hid
  rw [h.update_updated_iff env hlocal, enters, Bool.and_eq_true, Bool.not_eq_true', and_comm]
  exact Iff.rfl

/-- The health check is for a node that is not a contact. -/
theorem not_contains_of_pendingPing {t : RoutingTable} (h : t.Placed) {nodeId : NodeId}
    (hnodeId : t.localNodeId = nodeId) {env : Env} {node f : Node} (hid : node.id ≠ nodeId)
    (hupdate : (t.update env node).1 = .ok (.pendingPing f)) : t.contains node.id = false := by
  rw [Bool.eq_false_iff]
  intro hbefore
  have hlocal : node.id ≠ t.localNodeId := by
    rw [hnodeId]
    exact hid
  have hupdated := (h.update_updated_iff env hlocal).mpr (h.contains_update env hbefore)
  rw [hupdate] at hupdated
  cases hupdated

theorem quiet_of_tableOp {t : RoutingTable} (h : t.Placed) {nodeId : NodeId} {node f : Node}
    {wasKnown : Bool} {st : Step} {op : TableOp}
    (hop : tableOp nodeId node (.checking wasKnown f) st = some op) : Quiet t (t.step op) := by
  cases st with
  | answer env ms =>
    obtain rfl := Option.some.inj hop
    exact quiet_step h rfl
  | timeout env =>
    obtain rfl := Option.some.inj hop
    exact quiet_step h rfl
  | _ => cases hop

theorem NextSpec.sound {nodeId : NodeId} {t t' : RoutingTable} {node : Node} {phase phase' : Phase}
    {st : Step} (hspec : NextSpec nodeId t node phase st t' phase') (h : t.Placed)
    (hnodeId : t.localNodeId = nodeId) {entered : Nat}
    (hcall : Call.Sound nodeId ⟨node, phase, entered⟩) :
    Call.Sound nodeId ⟨node, phase', Call.enteredAfter ⟨node, phase, entered⟩ t t'⟩ := by
  cases hspec with
  | idle hop =>
    rw [Call.enteredAfter_of_quiet _ (.refl t)]
    exact hcall
  | @checks env f hid hupdate =>
    refine ⟨not_contains_of_pendingPing h hnodeId hid hupdate, ?_, hid⟩
    show entered + (if enters t _ node.id then 1 else 0) = 0
    have hcount := enters_update_iff h hnodeId env hid
    rw [hupdate] at hcount
    rw [if_neg fun henters => nomatch (hcount.mp henters).1]
    exact hcall
  | answered =>
    rw [Call.enteredAfter_of_quiet _ (quiet_step h rfl)]
    exact hcall.2.1
  | timedOut =>
    rw [Call.enteredAfter_of_quiet _ (quiet_step h rfl)]
    exact hcall
  | broke =>
    rw [Call.enteredAfter_of_quiet _ (.refl t)]
    exact hcall
  | removed =>
    obtain ⟨hknown, hentered, hid⟩ := hcall
    refine ⟨hknown, (Call.enteredAfter_le _ _ _).trans ?_, hid⟩
    show entered + 1 ≤ 1
    replace hentered : entered = 0 := hentered
    omega
  | self hid => trivial
  | ends hid hresult => trivial
  | panicked hop => trivial
  | seen hresult => trivial
  | retried hresult => trivial

theorem sound_start (nodeId : NodeId) (k : Nat) : Sound (start nodeId k) :=
  ⟨RoutingTable.placed_withK nodeId k, rfl, fun _ _ h => nomatch h⟩

theorem Sound.operate {s : State} (h : Sound s) (op : TableOp) : Sound (s.operate op) := by
  refine ⟨h.placed.step op, ?_, h.calls⟩
  exact (h.placed.step_spec op).params.1.trans h.nodeId_eq

theorem Sound.advance {s : State} (h : Sound s) {c : Nat} {call : Call}
    (hcall : s.calls[c]? = some call) {st : Step} {t' : RoutingTable} {phase : Phase}
    (hspec : NextSpec s.nodeId s.table call.node call.phase st t' phase) :
    Sound (s.advance c call t' phase) := by
  obtain ⟨hplaced, hlocal⟩ := hspec.placed h.placed
  refine ⟨hplaced, hlocal.trans h.nodeId_eq, fun c' call' hcall' => ?_⟩
  rcases getElem?_set_cases hcall' with ⟨-, rfl⟩ | ⟨-, hold⟩
  · exact hspec.sound h.placed h.nodeId_eq (h.calls c call hcall)
  · exact h.calls c' call' hold

theorem Sound.step {s : State} (h : Sound s) (e : Event) : Sound (step s e) := by
  cases e with
  | call node =>
    refine ⟨h.placed, h.nodeId_eq, fun c call hcall => ?_⟩
    rcases getElem?_concat_cases hcall with hcall | rfl
    · exact h.calls c call hcall
    · rfl
  | step c st =>
    rw [RecordContact.step]
    rcases hcall : s.calls[c]? with _ | call
    · exact h
    · exact h.advance hcall (next_spec s.nodeId s.table call.node call.phase st)
  | recordSuccess env id ms => exact h.operate _
  | recordFailure env id => exact h.operate _

/-! ## The guard is exact -/

/-- An update brings in nobody but its node. -/
theorem own_update {t : RoutingTable} (h : t.Placed) (env : Env) (node : Node) :
    anyEnters t (t.step (.update env node)) (fun id => id ≠ node.id) = false := by
  rw [anyEnters_eq_false_iff (h.step _)]
  intro id hne hbefore
  rw [Bool.eq_false_iff]
  intro hafter
  obtain ⟨entry, hinserted, rfl⟩ := h.inserted_of_enters hbefore hafter
  have hid : entry.id = node.id := RoutingTable.inserted_update_id hinserted
  simp [hid] at hne

theorem Exact.checks {s : State} (h : Exact s) (hs : Sound s) {c : Nat} {node f : Node}
    {entered : Nat} (hcall : s.calls[c]? = some ⟨node, .arrived, entered⟩) (env : Env)
    (wasKnown : Bool) :
    Exact (s.advance c ⟨node, .arrived, entered⟩ (s.table.step (.update env node))
      (.checking wasKnown f)) := by
  have hentered : entered = 0 := hs.calls c _ hcall
  subst hentered
  rw [exact_advance_iff h hcall]
  exact ⟨own_update hs.placed env node, Call.enteredAfter_le _ _ _,
    fun _ hresult => nomatch hresult⟩

theorem Exact.ends {s : State} (h : Exact s) (hs : Sound s) {c : Nat} {node : Node} {entered : Nat}
    (hcall : s.calls[c]? = some ⟨node, .arrived, entered⟩) {env : Env} {result : Outcome Bool}
    (hid : node.id ≠ s.nodeId)
    (hresult : result = .ok true ↔
      (s.table.update env node).1 = .ok .updated ∧ s.table.contains node.id = false) :
    Exact (s.advance c ⟨node, .arrived, entered⟩ (s.table.step (.update env node))
      (.finished result)) := by
  have hentered : entered = 0 := hs.calls c _ hcall
  subst hentered
  rw [exact_advance_iff h hcall]
  refine ⟨own_update hs.placed env node, Call.enteredAfter_le _ _ _, ?_⟩
  intro result' hfinished
  rw [← Phase.finished.inj hfinished, hresult, ← enters_update_iff hs.placed hs.nodeId_eq env hid,
    Call.enteredAfter]
  split_ifs with henters <;> simp [henters]

/-- A removal keeps the reports exact if it promotes only the node of its call. -/
theorem exact_removed_iff {s : State} (h : Exact s) (hs : Sound s) {c : Nat} {node f : Node}
    {wasKnown : Bool} {entered : Nat}
    (hcall : s.calls[c]? = some ⟨node, .failed wasKnown f, entered⟩) (env : Env) :
    Exact (s.advance c ⟨node, .failed wasKnown f, entered⟩ (s.table.step (.remove env f.id))
      (.removed wasKnown)) ↔
      ∀ entry, s.table.inserted (.remove env f.id) = some entry →
        entry.id = node.id ∨ s.table.contains entry.id = true := by
  have hentered : entered = 0 := (hs.calls c _ hcall).2.1
  subst hentered
  rw [exact_advance_iff h hcall, anyEnters_eq_false_iff (hs.placed.step _)]
  constructor
  · rintro ⟨hown, -⟩ entry hinserted
    by_contra hforeign
    obtain ⟨hne, hbefore⟩ := not_or.mp hforeign
    have hafter := hown entry.id (decide_eq_true hne) (Bool.eq_false_iff.mpr hbefore)
    rw [hs.placed.contains_of_inserted_remove hinserted] at hafter
    cases hafter
  · intro hall
    refine ⟨fun id hne hbefore => ?_, Call.enteredAfter_le _ _ _, fun _ hresult => nomatch hresult⟩
    rw [Bool.eq_false_iff]
    intro hafter
    obtain ⟨entry, hinserted, rfl⟩ := hs.placed.inserted_of_enters hbefore hafter
    rcases hall entry hinserted with hid | hcontains
    · exact of_decide_eq_true hne hid
    · rw [hbefore] at hcontains
      cases hcontains

/-- The last update reports `true` whenever its node is a contact afterwards, since the
call did not know the node when it started. -/
theorem exact_retried_iff {s : State} (h : Exact s) (hs : Sound s) {c : Nat} {node : Node}
    {wasKnown : Bool} {entered : Nat}
    (hcall : s.calls[c]? = some ⟨node, .removed wasKnown, entered⟩) {env : Env}
    {result : Outcome Bool}
    (hresult : result = .ok true ↔
      (s.table.update env node).1 = .ok .updated ∧ wasKnown = false) :
    Exact (s.advance c ⟨node, .removed wasKnown, entered⟩ (s.table.step (.update env node))
      (.finished result)) ↔ (s.table.contains node.id = true ↔ entered = 1) := by
  obtain ⟨hknown, hentered, hid⟩ := hs.calls c _ hcall
  replace hentered : entered ≤ 1 := hentered
  have henters := enters_update_iff hs.placed hs.nodeId_eq env hid
  have hupdated : s.table.contains node.id = true →
      (s.table.update env node).1 = .ok .updated := by
    intro hbefore
    rw [hs.placed.update_updated_iff env (by rw [hs.nodeId_eq]; exact hid)]
    exact hs.placed.contains_update env hbefore
  rw [exact_advance_iff h hcall]
  simp only [own_update hs.placed env node, true_and, Call.enteredAfter, Phase.finished.injEq,
    forall_eq', hresult, hknown, and_true]
  rcases hbefore : s.table.contains node.id with _ | _
  · rw [hbefore] at henters
    by_cases hstatus : (s.table.update env node).1 = .ok .updated
    · rw [if_pos (henters.mpr ⟨hstatus, rfl⟩)]
      simp only [hstatus, true_iff, Bool.false_eq_true, false_iff]
      omega
    · rw [if_neg fun hin => hstatus (henters.mp hin).1]
      simp only [hstatus, false_iff, Bool.false_eq_true, Nat.add_zero]
      omega
  · rw [hbefore] at henters
    rw [if_neg fun hin => nomatch (henters.mp hin).2]
    simp only [hupdated hbefore, true_iff, Nat.add_zero]
    omega

/-- A step at which a call does nothing, or goes on or ends without bringing its node in. -/
theorem Exact.quiet {s : State} (h : Exact s) {c : Nat} {node : Node} {phase phase' : Phase}
    {entered : Nat} (hcall : s.calls[c]? = some ⟨node, phase, entered⟩) {t' : RoutingTable}
    (ht' : t'.Placed) (hquiet : Quiet s.table t')
    (hphase : phase' = phase ∨
      entered = 0 ∧ ∀ result, phase' = .finished result → result ≠ .ok true) :
    Exact (s.advance c ⟨node, phase, entered⟩ t' phase') := by
  obtain ⟨hle, hresult⟩ := h.calls c _ hcall
  rw [exact_advance_iff h hcall, Call.enteredAfter_of_quiet _ hquiet, anyEnters_eq_false_iff ht']
  refine ⟨fun id _ hbefore => hquiet id hbefore, hle, ?_⟩
  rcases hphase with rfl | ⟨hentered, hfalse⟩
  · exact hresult
  · intro result hfinished
    apply iff_of_false (hfalse result hfinished)
    show entered ≠ 1
    omega

theorem reports_of_idle {s : State} {c : Nat} {node : Node} {phase : Phase} {entered : Nat}
    (hcall : s.calls[c]? = some ⟨node, phase, entered⟩) {st : Step}
    (hop : tableOp s.nodeId node phase st = none) : Reports s (.step c st) := by
  cases st with
  | evict env =>
    intro call wasKnown f hcall' hphase
    obtain rfl := Option.some.inj (hcall.symm.trans hcall')
    obtain rfl : phase = .failed wasKnown f := hphase
    cases hop
  | retry env =>
    intro call wasKnown hcall' hphase
    obtain rfl := Option.some.inj (hcall.symm.trans hcall')
    obtain rfl : phase = .removed wasKnown := hphase
    cases hop
  | _ => trivial

theorem NextSpec.exact_iff {s : State} {node : Node} {phase phase' : Phase} {st : Step}
    {t' : RoutingTable} (hspec : NextSpec s.nodeId s.table node phase st t' phase') (h : Exact s)
    (hs : Sound s) {c entered : Nat} (hcall : s.calls[c]? = some ⟨node, phase, entered⟩) :
    Exact (s.advance c ⟨node, phase, entered⟩ t' phase') ↔ Reports s (.step c st) := by
  have hsound := hs.calls c _ hcall
  have hplaced := (hspec.placed hs.placed).1
  have hnotTrue : ∀ {r : Outcome Bool}, r ≠ .ok true →
      ∀ result, Phase.finished r = .finished result → result ≠ .ok true := by
    intro r hr result hresult
    rw [← Phase.finished.inj hresult]
    exact hr
  cases hspec with
  | idle hop =>
    refine iff_of_true ?_ (reports_of_idle hcall hop)
    exact h.quiet hcall hplaced (.refl _) (.inl rfl)
  | self hid =>
    refine iff_of_true ?_ trivial
    exact h.quiet hcall hplaced (.refl _) (.inr ⟨hsound, hnotTrue fun h => nomatch h⟩)
  | checks hid hupdate => exact iff_of_true (h.checks hs hcall _ _) trivial
  | ends hid hresult => exact iff_of_true (h.ends hs hcall hid hresult) trivial
  | answered =>
    refine iff_of_true ?_ trivial
    exact h.quiet hcall hplaced (quiet_step hs.placed rfl) (.inr ⟨hsound.2.1, fun _ h => nomatch h⟩)
  | timedOut =>
    refine iff_of_true ?_ trivial
    exact h.quiet hcall hplaced (quiet_step hs.placed rfl) (.inr ⟨hsound.2.1, fun _ h => nomatch h⟩)
  | panicked hop =>
    have hquiet := quiet_of_tableOp hs.placed hop
    refine iff_of_true ?_ ?_
    · exact h.quiet hcall hplaced hquiet (.inr ⟨hsound.2.1, hnotTrue fun h => nomatch h⟩)
    · cases st with
      | answer env ms => trivial
      | timeout env => trivial
      | _ => cases hop
  | broke =>
    refine iff_of_true ?_ trivial
    exact h.quiet hcall hplaced (.refl _) (.inr ⟨hsound.2.1, fun _ h => nomatch h⟩)
  | seen hresult =>
    refine iff_of_true ?_ trivial
    exact h.quiet hcall hplaced (quiet_step hs.placed rfl) (.inr ⟨hsound, hnotTrue hresult⟩)
  | @removed wasKnown f env =>
    rw [exact_removed_iff h hs hcall]
    constructor
    · intro hall call wasKnown' f' hcall' hphase
      obtain rfl := Option.some.inj (hcall.symm.trans hcall')
      obtain ⟨rfl, rfl⟩ := Phase.failed.inj hphase
      exact hall
    · intro hreports
      exact hreports _ _ _ hcall rfl
  | @retried wasKnown env result hresult =>
    rw [exact_retried_iff h hs hcall hresult]
    constructor
    · intro hiff call wasKnown' hcall' hphase
      obtain rfl := Option.some.inj (hcall.symm.trans hcall')
      exact hiff
    · intro hreports
      exact hreports _ _ hcall rfl

theorem Exact.operate {s : State} (h : Exact s) (hs : Sound s) {op : TableOp}
    (hop : s.table.inserted op = none) : Exact (s.operate op) := by
  refine ⟨?_, h.calls⟩
  show (s.foreign || anyEnters s.table (s.table.step op) fun _ => true) = false
  rw [h.own, Bool.false_or, anyEnters_eq_false_iff (hs.placed.step op)]
  exact fun id _ hbefore => quiet_step hs.placed hop id hbefore

theorem exact_start (nodeId : NodeId) (k : Nat) : Exact (start nodeId k) :=
  ⟨rfl, fun _ _ h => nomatch h⟩

theorem exact_step_iff {s : State} (hs : Sound s) (h : Exact s) (e : Event) :
    Exact (step s e) ↔ Reports s e := by
  cases e with
  | call node =>
    refine iff_of_true ⟨h.own, fun c call hcall => ?_⟩ trivial
    rcases getElem?_concat_cases hcall with hcall | rfl
    · exact h.calls c call hcall
    · exact ⟨Nat.zero_le 1, fun _ h => nomatch h⟩
  | step c st =>
    rw [step]
    rcases hcall : s.calls[c]? with _ | ⟨node, phase, entered⟩
    · refine iff_of_true h ?_
      cases st with
      | evict env =>
        intro call _ _ hcall'
        rw [hcall] at hcall'
        cases hcall'
      | retry env =>
        intro call _ hcall'
        rw [hcall] at hcall'
        cases hcall'
      | _ => trivial
    · exact (next_spec s.nodeId s.table node phase st).exact_iff h hs hcall
  | recordSuccess env id ms => exact iff_of_true (h.operate hs rfl) trivial
  | recordFailure env id => exact iff_of_true (h.operate hs rfl) trivial

end RecordContact

end Kademlia
