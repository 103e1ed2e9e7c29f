import Mathlib.Data.List.Induction
import Kademlia.Protocol.RecordContact

/-!
# What precedes a removal

A call removes the contact that its first update named, after its own health check of
that contact has failed.  Nothing else is looked at again: a sighting of the contact by
another request during the check does not keep it in the table.
-/

namespace Kademlia

open Lib

/-- The identifier of which an operation records a sighting. -/
def TableOp.sighting : TableOp → Option NodeId
  | .update _ node => some node.id
  | .nodeSeen _ nodeId => some nodeId
  | .recordSuccess _ nodeId _ => some nodeId
  | _ => none

namespace RecordContact

/-- The operation on the table that an event makes. -/
def operation (s : State) : Event → Option TableOp
  | .call _ => none
  | .step c st => s.calls[c]?.bind fun call => tableOp s.nodeId call.node call.phase st
  | .recordSuccess env nodeId responseTimeMs => some (.recordSuccess env nodeId responseTimeMs)
  | .recordFailure env nodeId => some (.recordFailure env nodeId)

def Sights (s : State) (e : Event) (id : NodeId) : Prop :=
  (operation s e).bind TableOp.sighting = some id

/-- The first update of call `c` answers with `f`, which makes the call check `f`. -/
def Issues (s : State) (c : Nat) (f : Node) (e : Event) : Prop :=
  ∃ env call, e = .step c (.contact env) ∧ s.calls[c]? = some call ∧ call.phase = .arrived ∧
    call.node.id ≠ s.nodeId ∧ (s.table.update env call.node).1 = .ok (.pendingPing f)

/-- The health check of `f` by call `c` ends with a timeout or an error. -/
def Fails (s : State) (c : Nat) (f : Node) (e : Event) : Prop :=
  (∃ call wasKnown, s.calls[c]? = some call ∧ call.phase = .checking wasKnown f) ∧
    (e = .step c .error ∨ ∃ env, e = .step c (.timeout env))

/-- The event is no sighting of `id` by call `c`. -/
def OwnSilent (c : Nat) (id : NodeId) (s : State) (e : Event) : Prop :=
  (∃ st, e = .step c st) → ¬ Sights s e id

/-- Call `c` issued a check of `f` after the events `pre`, and saw nothing of `f` since. -/
structure Checked (s₀ : State) (c : Nat) (f : Node) (pre : List Event) (issue : Event)
    (since : List Event) : Prop where
  issued : Issues (run step s₀ pre) c f issue
  silent : Meets step (OwnSilent c f.id) (run step s₀ (pre ++ [issue])) since

/-- What a call in a phase has done before. -/
def Past (s₀ : State) (c : Nat) (before : List Event) : Phase → Prop
  | .checking _ f => ∃ pre issue since, before = pre ++ issue :: since ∧
      Checked s₀ c f pre issue since
  | .failed _ f => ∃ pre issue during fail after,
      before = pre ++ issue :: (during ++ fail :: after) ∧
      Checked s₀ c f pre issue (during ++ fail :: after) ∧
      Fails (run step s₀ (pre ++ issue :: during)) c f fail
  | _ => True

section Past

variable {s₀ : State} {c : Nat} {f : Node} {pre since : List Event} {issue : Event}

theorem run_split (s₀ : State) (pre : List Event) (issue : Event) (since : List Event) :
    run step s₀ (pre ++ issue :: since) = run step (run step s₀ (pre ++ [issue])) since := by
  rw [← run_append, List.append_assoc, List.singleton_append]

theorem Checked.concat (h : Checked s₀ c f pre issue since) {e : Event}
    (hsilent : OwnSilent c f.id (run step s₀ (pre ++ issue :: since)) e) :
    Checked s₀ c f pre issue (since ++ [e]) := by
  refine ⟨h.issued, meets_append.mpr ⟨h.silent, ?_, trivial⟩⟩
  rw [← run_split]
  exact hsilent

/-- A call that stays in its phase keeps its past when it makes no sighting. -/
theorem Past.concat {before : List Event} {phase : Phase} (h : Past s₀ c before phase) {e : Event}
    (hsilent : ∀ f, OwnSilent c f (run step s₀ before) e) : Past s₀ c (before ++ [e]) phase := by
  cases phase with
  | checking wasKnown f =>
    obtain ⟨pre, issue, since, rfl, hchecked⟩ := h
    refine ⟨pre, issue, since ++ [e], ?_, hchecked.concat (hsilent f.id)⟩
    rw [List.append_assoc, List.cons_append]
  | failed wasKnown f =>
    obtain ⟨pre, issue, during, fail, after, rfl, hchecked, hfails⟩ := h
    refine ⟨pre, issue, during, fail, after ++ [e], ?_, ?_, hfails⟩
    · rw [List.append_assoc, List.cons_append, List.append_assoc, List.cons_append]
    · have hlonger := hchecked.concat (hsilent f.id)
      rwa [List.append_assoc, List.cons_append] at hlonger
  | _ => trivial

theorem ownSilent_of_tableOp {s : State} {call : Call} (hcall : s.calls[c]? = some call) {st : Step}
    (hop : (tableOp s.nodeId call.node call.phase st).bind TableOp.sighting = none) (id : NodeId) :
    OwnSilent c id s (.step c st) := by
  intro _ hsights
  rw [Sights, operation, hcall, Option.bind_some, hop] at hsights
  cases hsights

/-- A step of call `c` itself. -/
theorem NextSpec.past {before : List Event} {node : Node} {phase phase' : Phase} {entered : Nat}
    {st : Step} {t' : RoutingTable}
    (hspec : NextSpec (run step s₀ before).nodeId (run step s₀ before).table node phase st t'
      phase')
    (hcall : (run step s₀ before).calls[c]? = some ⟨node, phase, entered⟩)
    (h : Past s₀ c before phase) : Past s₀ c (before ++ [.step c st]) phase' := by
  have hsilent : (tableOp (run step s₀ before).nodeId node phase st).bind TableOp.sighting = none →
      ∀ id, OwnSilent c id (run step s₀ before) (.step c st) := ownSilent_of_tableOp hcall
  cases hspec with
  | idle hop =>
    refine h.concat (hsilent ?_)
    simp only [hop, Option.bind_none]
  | checks hid hupdate =>
    refine ⟨before, _, [], rfl, ⟨⟨_, _, rfl, hcall, rfl, hid, hupdate⟩, trivial⟩⟩
  | timedOut =>
    obtain ⟨pre, issue, since, rfl, hchecked⟩ := h
    refine ⟨pre, issue, since, _, [], ?_, hchecked.concat (hsilent rfl _), ?_⟩
    · rw [List.append_assoc, List.cons_append]
    · exact ⟨⟨_, _, hcall, rfl⟩, .inr ⟨_, rfl⟩⟩
  | broke =>
    obtain ⟨pre, issue, since, rfl, hchecked⟩ := h
    refine ⟨pre, issue, since, _, [], ?_, hchecked.concat (hsilent rfl _), ?_⟩
    · rw [List.append_assoc, List.cons_append]
    · exact ⟨⟨_, _, hcall, rfl⟩, .inl rfl⟩
  | _ => trivial

theorem past_run (s₀ : State) (hs₀ : s₀.calls = []) (events : List Event) :
    ∀ (c : Nat) (call : Call), (run step s₀ events).calls[c]? = some call →
      Past s₀ c events call.phase := by
  induction events using List.reverseRecOn with
  | nil =>
    intro c call hcall
    rw [run_nil, hs₀] at hcall
    cases hcall
  | append_singleton before e ih =>
    intro c call hcall
    rw [run_concat] at hcall
    rcases step_call hcall with hphase | ⟨hcall', hother⟩ |
      ⟨st, ⟨node, phase, entered⟩, rfl, hcall', hphase⟩
    · rw [hphase]
      trivial
    · exact (ih c call hcall').concat fun id hown => absurd hown hother
    · rw [hphase]
      exact (next_spec _ _ node phase st).past hcall' (ih c _ hcall')

end Past

/-- The only removals are those of a call whose health check failed. -/
theorem operation_eq_remove {s : State} {e : Event} {env : Env} {id : NodeId}
    (h : operation s e = some (.remove env id)) :
    ∃ c call wasKnown f, e = .step c (.evict env) ∧ s.calls[c]? = some call ∧
      call.phase = .failed wasKnown f ∧ f.id = id := by
  cases e with
  | call node => cases h
  | recordSuccess env' id' ms => cases h
  | recordFailure env' id' => cases h
  | step c st =>
    obtain ⟨⟨node, phase, entered⟩, hcall, hop⟩ := Option.bind_eq_some_iff.mp h
    cases phase with
    | arrived =>
      cases st with
      | contact env' =>
        unfold tableOp at hop
        split_ifs at hop
        cases hop
      | _ => cases hop
    | failed wasKnown f =>
      cases st with
      | evict env' =>
        cases hop
        exact ⟨c, _, wasKnown, f, rfl, hcall, rfl, rfl⟩
      | _ => cases hop
    | _ => cases st <;> cases hop

/-- A contact is removed only by a call that checked it, after the check failed, and the
call itself recorded no sighting of the contact in between. -/
theorem removed_after_failed_check (nodeId : NodeId) (k : Nat) (before : List Event) (e : Event)
    (env : Env) (id : NodeId)
    (h : operation (run step (start nodeId k) before) e = some (.remove env id)) :
    ∃ c f pre issue during fail after, f.id = id ∧ e = .step c (.evict env) ∧
      before = pre ++ issue :: (during ++ fail :: after) ∧
      Issues (run step (start nodeId k) pre) c f issue ∧
      Fails (run step (start nodeId k) (pre ++ issue :: during)) c f fail ∧
      Meets step (OwnSilent c id) (run step (start nodeId k) (pre ++ [issue]))
        (during ++ fail :: after) := by
  obtain ⟨c, call, wasKnown, f, rfl, hcall, hphase, rfl⟩ := operation_eq_remove h
  have hpast := past_run (start nodeId k) rfl before c call hcall
  rw [hphase] at hpast
  obtain ⟨pre, issue, during, fail, after, hbefore, hchecked, hfails⟩ := hpast
  exact ⟨c, f, pre, issue, during, fail, after, rfl, rfl, hbefore, hchecked.issued, hfails,
    hchecked.silent⟩

/-- A sender waits for the check of the only contact of a bucket of one. -/
def arrivals : List Event :=
  [.call (Node.ofByte 0x80), .step 0 (.contact (.at 0)), .call (Node.ofByte 0xC0)]

theorem removed_after_failed_check_timeout :
    operation (run step (start (NodeId.fromBytes []) 1)
        (arrivals ++ [.step 1 (.contact (.at 0)), .step 1 (.timeout (.at 5))]))
        (.step 1 (.evict (.at 5))) = some (.remove (.at 5) (Node.ofByte 0x80).id) ∧
      ∃ c f pre issue during fail after, f.id = (Node.ofByte 0x80).id ∧
        Event.step 1 (.evict (.at 5)) = .step c (.evict (.at 5)) ∧
        arrivals ++ [.step 1 (.contact (.at 0)), .step 1 (.timeout (.at 5))] =
          pre ++ issue :: (during ++ fail :: after) ∧
        Issues (run step (start (NodeId.fromBytes []) 1) pre) c f issue ∧
        Fails (run step (start (NodeId.fromBytes []) 1) (pre ++ issue :: during)) c f fail ∧
        Meets step (OwnSilent c (Node.ofByte 0x80).id)
          (run step (start (NodeId.fromBytes []) 1) (pre ++ [issue]))
          (during ++ fail :: after) := by
  have hremove : operation (run step (start (NodeId.fromBytes []) 1)
      (arrivals ++ [.step 1 (.contact (.at 0)), .step 1 (.timeout (.at 5))]))
      (.step 1 (.evict (.at 5))) = some (.remove (.at 5) (Node.ofByte 0x80).id) := by
    decide +kernel
  exact ⟨hremove, removed_after_failed_check _ _ _ _ _ _ hremove⟩

/-- The contact sends a request while it is being checked, and is removed all the same. -/
def sightedMeanwhile : List Event :=
  [.call (Node.ofByte 0x80), .step 2 (.contact (.at 3)), .step 1 (.timeout (.at 5))]

theorem sighted_contact_removed :
    ¬ ∀ (nodeId : NodeId) (k : Nat) (pre since : List Event) (issue : Event) (c : Nat) (f : Node)
        (env : Env),
      Issues (run step (start nodeId k) pre) c f issue →
      operation (run step (start nodeId k) (pre ++ issue :: since)) (.step c (.evict env)) =
        some (.remove env f.id) →
      Meets step (fun s e => ¬ Sights s e f.id) (run step (start nodeId k) (pre ++ [issue]))
        since := by
  intro h
  have hissues : Issues (run step (start (NodeId.fromBytes []) 1) arrivals) 1
      ((Node.ofByte 0x80).updateLastSeen (.at 0)) (.step 1 (.contact (.at 0))) :=
    ⟨.at 0, ⟨Node.ofByte 0xC0, .arrived, 0⟩, rfl, rfl, rfl, by decide +kernel, by decide +kernel⟩
  have hmeets := h (NodeId.fromBytes []) 1 arrivals sightedMeanwhile _ 1 _ (.at 5) hissues
    (by decide +kernel)
  apply hmeets.2.1
  show (operation _ _).bind TableOp.sighting = _
  decide +kernel

end RecordContact

end Kademlia
