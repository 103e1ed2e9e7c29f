import Mathlib.Data.Finset.Dedup
import Kademlia.Storage.Expiry

/-!
# Garbage collection seen through the storage interface

A `cleanup` takes out entries that `get` does not return any more, so no `get` can tell
whether it was called.  The other two readers of the map do not look at the deadlines: a
`remove` succeeds for an entry that has expired, and `keys` lists it, as long as no cleanup
has come in between.

Here every call has a time, also those that make no reading of the clock, since it says which
cleanups can come before them.
-/

namespace Kademlia

open Lib

namespace Collection

inductive Op where
  | store (now : Instant) (key : NodeId) (value : Value)
  | storeWithTtl (now : Instant) (key : NodeId) (value : Value) (ttl : Duration)
  | get (now : Instant) (key : NodeId)
  | remove (now : Instant) (key : NodeId)
  | keys (now : Instant)
  | cleanup (now : Instant)

def Op.time : Op → Instant
  | store now _ _ | storeWithTtl now _ _ _ | get now _ | remove now _ | keys now
  | cleanup now => now

def Op.isCleanup : Op → Bool
  | cleanup _ => true
  | _ => false

/-- The deadline that an operation writes can be represented. -/
def Op.Fits (defaultTtl : Duration) : Op → Prop
  | store now _ _ => now + defaultTtl < instantLimit
  | storeWithTtl now _ _ ttl => now + ttl < instantLimit
  | _ => True

def step (s : MemoryStorage) : Op → MemoryStorage
  | .store now key value => (s.store now key value).2
  | .storeWithTtl now key value ttl => (s.storeWithTtl now key value ttl).2
  | .get _ _ | .keys _ => s
  | .remove _ key => (s.remove key).2
  | .cleanup now => (s.cleanup now).2

/-- What a caller sees of a removal or of the keys. -/
inductive Observation where
  | removed (result : Outcome Unit)
  | keys (keys : Finset NodeId)

def observe (s : MemoryStorage) : Op → List Observation
  | .remove _ key => [.removed (s.remove key).1]
  | .keys _ => [.keys s.keys.toFinset]
  | _ => []

/-- However cleanups are put between the operations, in the order of time, every removal and
every list of keys is the same. -/
def Invisible (s : MemoryStorage) (ops : List Op) : Prop :=
  ∀ ops', (ops'.filter fun op => !op.isCleanup) = ops →
    (ops'.map Op.time).Pairwise (· ≤ ·) →
      outputs step observe s ops' = outputs step observe s ops

/-- A removal finds no expired entry for its key, and the keys are listed while no entry has
expired. -/
def SeesNoExpired (s : MemoryStorage) : Op → Prop
  | .remove now key => ∀ entry, s.storage.lookup key = some entry →
      now < entry.timestamp + entry.ttl
  | .keys now => ∀ key entry, s.storage.lookup key = some entry →
      now < entry.timestamp + entry.ttl
  | _ => True

/-! ## Collected entries -/

/-- The storage `s'` has the entries of `s`, but for some that have expired by the time
`clock`. -/
structure Collected (clock : Instant) (s s' : MemoryStorage) : Prop where
  defaultTtl_eq : s'.defaultTtl = s.defaultTtl
  covers : ({ entries := s.view, clock := clock } : ExpiringMap NodeId Value).Covers s'.view

variable {clock : Instant} {s s' : MemoryStorage}

theorem collected_refl (clock : Instant) (s : MemoryStorage) : Collected clock s s :=
  ⟨rfl, ExpiringMap.covers_self _⟩

theorem Collected.cleanup (h : Collected clock s s') {now : Instant} (hnow : clock ≤ now) :
    Collected now s (s'.cleanup now).2 :=
  ⟨h.defaultTtl_eq, (h.covers.advance hnow).collect (s'.view_cleanup now)⟩

theorem Collected.step (h : Collected clock s s') {op : Op} (hop : op.isCleanup = false)
    (htime : clock ≤ op.time) : Collected op.time (step s op) (step s' op) := by
  have hcovers := h.covers.advance htime
  cases op with
  | store now key value =>
    refine ⟨h.defaultTtl_eq, ?_⟩
    show ({ entries := (s.storeWithTtl now key value s.defaultTtl).2.view, clock := now } :
      ExpiringMap NodeId Value).Covers (s'.storeWithTtl now key value s'.defaultTtl).2.view
    rw [MemoryStorage.view_storeWithTtl, MemoryStorage.view_storeWithTtl, h.defaultTtl_eq]
    exact hcovers.put key _
  | storeWithTtl now key value ttl =>
    refine ⟨h.defaultTtl_eq, ?_⟩
    show ({ entries := (s.storeWithTtl now key value ttl).2.view, clock := now } :
      ExpiringMap NodeId Value).Covers (s'.storeWithTtl now key value ttl).2.view
    rw [MemoryStorage.view_storeWithTtl, MemoryStorage.view_storeWithTtl]
    exact hcovers.put key _
  | get now key => exact ⟨h.defaultTtl_eq, hcovers⟩
  | remove now key =>
    refine ⟨?_, ?_⟩
    · exact (s'.remove_defaultTtl key).trans
        (h.defaultTtl_eq.trans (s.remove_defaultTtl key).symm)
    · show ({ entries := (s.remove key).2.view, clock := now } :
        ExpiringMap NodeId Value).Covers (s'.remove key).2.view
      rw [MemoryStorage.view_remove, MemoryStorage.view_remove]
      exact hcovers.put key none
  | keys now => exact ⟨h.defaultTtl_eq, hcovers⟩
  | cleanup now => cases hop

/-- An entry that has not expired is in both. -/
theorem Collected.view_eq (h : Collected clock s s') {now : Instant} (hnow : clock ≤ now)
    {key : NodeId}
    (hlive : ∀ entry, s.storage.lookup key = some entry → now < entry.timestamp + entry.ttl) :
    s'.view key = s.view key := by
  rcases h.covers key with heq | ⟨-, value, deadline, hentry, hdeadline⟩
  · exact heq
  · obtain ⟨entry, hlookup, hpair⟩ := Option.map_eq_some_iff.mp hentry
    have hlt := hlive entry hlookup
    have hdeadline' : deadline ≤ clock := hdeadline
    rw [← (Prod.mk.inj hpair).2] at hdeadline'
    exact absurd hlt (Nat.not_lt.mpr (Nat.le_trans hdeadline' hnow))

theorem isSome_view (s : MemoryStorage) (key : NodeId) :
    (s.view key).isSome = (s.storage.lookup key).isSome :=
  Option.isSome_map

theorem mem_keys_iff {key : NodeId} : key ∈ s.keys ↔ (s.view key).isSome = true := by
  rw [isSome_view, AList.lookup_isSome]
  rfl

theorem remove_eq (s : MemoryStorage) (key : NodeId) :
    (s.remove key).1 = if (s.view key).isSome then .ok () else .error (.err .valueNotFound) := by
  rw [isSome_view, MemoryStorage.remove]
  cases s.storage.lookup key with
  | none => rfl
  | some entry => rfl

theorem Collected.observe_eq (h : Collected clock s s') {op : Op} (htime : clock ≤ op.time)
    (hsees : SeesNoExpired s op) : observe s' op = observe s op := by
  cases op with
  | remove now key =>
    show [Observation.removed _] = [Observation.removed _]
    rw [remove_eq, remove_eq, h.view_eq htime hsees]
  | keys now =>
    have hkeys : s'.keys.toFinset = s.keys.toFinset := by
      ext key
      rw [List.mem_toFinset, List.mem_toFinset, mem_keys_iff, mem_keys_iff,
        h.view_eq htime (hsees key)]
    show [Observation.keys _] = [Observation.keys _]
    rw [hkeys]
  | _ => rfl

/-- Cleanups change no observation of a run that sees no expired entry. -/
theorem outputs_eq_of_seesNoExpired {ops' : List Op} (h : Collected clock s s')
    (htimes : (clock :: ops'.map Op.time).Pairwise (· ≤ ·))
    (hsees : Meets step SeesNoExpired s (ops'.filter fun op => !op.isCleanup)) :
    outputs step observe s' ops' =
      outputs step observe s (ops'.filter fun op => !op.isCleanup) := by
  induction ops' generalizing clock s s' with
  | nil => rfl
  | cons op rest ih =>
    rw [List.map_cons, List.pairwise_cons] at htimes
    have htime : clock ≤ op.time := htimes.1 _ List.mem_cons_self
    cases hop : op.isCleanup with
    | true =>
      rw [List.filter_cons_of_neg (by simp [hop])] at hsees ⊢
      cases op with
      | cleanup now => exact ih (h.cleanup htime) htimes.2 hsees
      | _ => cases hop
    | false =>
      rw [List.filter_cons_of_pos (by rw [hop]; rfl)] at hsees ⊢
      show observe s' op ++ _ = observe s op ++ _
      rw [h.observe_eq htime hsees.1, ih (h.step hop htime) htimes.2 hsees.2]

/-! ## A cleanup right before an observation -/

theorem fits_step (h : s.Fits) {op : Op} (hop : op.Fits s.defaultTtl) : (step s op).Fits := by
  cases op with
  | store now key value => exact h.storeWithTtl key value hop
  | storeWithTtl now key value ttl => exact h.storeWithTtl key value hop
  | get now key => exact h
  | remove now key => exact h.remove key
  | keys now => exact h
  | cleanup now => exact h.cleanup now

theorem step_defaultTtl (s : MemoryStorage) (op : Op) : (step s op).defaultTtl = s.defaultTtl := by
  cases op with
  | remove now key => exact s.remove_defaultTtl key
  | _ => rfl

/-- When a cleanup at the time of an operation does not change what it observes, it sees no
expired entry. -/
theorem seesNoExpired_of_observe_eq (h : s.Fits) {op : Op}
    (hsame : observe (s.cleanup op.time).2 op = observe s op) : SeesNoExpired s op := by
  have hgone : ∀ now key entry, s.storage.lookup key = some entry →
      ¬ now < entry.timestamp + entry.ttl → ((s.cleanup now).2.view key).isSome = false := by
    intro now key entry hlookup hexpired
    rw [isSome_view, Option.isSome_eq_false_iff, Option.isNone_iff_eq_none,
      Option.eq_none_iff_forall_ne_some]
    intro entry' hentry'
    rw [h.lookup_cleanup, hlookup] at hentry'
    obtain rfl := Option.some.inj hentry'.1
    exact hexpired hentry'.2
  cases op with
  | remove now key =>
    intro entry hlookup
    by_contra hexpired
    have hremoved : ((s.cleanup now).2.remove key).1 = (s.remove key).1 :=
      Observation.removed.inj (List.cons.inj hsame).1
    rw [remove_eq, remove_eq, hgone now key entry hlookup hexpired, isSome_view,
      hlookup] at hremoved
    cases hremoved
  | keys now =>
    intro key entry hlookup
    by_contra hexpired
    have hkeys : (s.cleanup now).2.keys.toFinset = s.keys.toFinset :=
      Observation.keys.inj (List.cons.inj hsame).1
    have hmem : key ∈ s.keys.toFinset := by
      rw [List.mem_toFinset, mem_keys_iff, isSome_view, hlookup]
      rfl
    rw [← hkeys, List.mem_toFinset, mem_keys_iff, hgone now key entry hlookup hexpired] at hmem
    cases hmem
  | _ => trivial

theorem fits_run (h : s.Fits) {ops : List Op} (hops : ∀ op ∈ ops, op.Fits s.defaultTtl) :
    (run step s ops).Fits := by
  have hmeets : Meets step (fun _ op => op.Fits s.defaultTtl) s ops :=
    meets_of_forall fun _ => hops
  have hrun := invariant_of_meets
    (P := fun s' => s'.Fits ∧ s'.defaultTtl = s.defaultTtl) ?_ ⟨h, rfl⟩ hmeets
  · exact hrun.1
  · intro s' op hs' hop
    exact ⟨fits_step hs'.1 (hs'.2.symm ▸ hop), (step_defaultTtl s' op).trans hs'.2⟩

theorem length_observe (s s' : MemoryStorage) (op : Op) :
    (observe s op).length = (observe s' op).length := by
  cases op <;> rfl

theorem filter_cleanup_eq {ops : List Op} (h : ∀ op ∈ ops, op.isCleanup = false) :
    (ops.filter fun op => !op.isCleanup) = ops := by
  rw [List.filter_eq_self]
  intro op hop
  rw [h op hop]
  rfl

/-- A run on which cleanups cannot be seen sees no expired entry. -/
theorem seesNoExpired_of_invisible (h : s.Fits) {ops : List Op}
    (hops : ∀ op ∈ ops, op.isCleanup = false) (htimes : (ops.map Op.time).Pairwise (· ≤ ·))
    (hfits : ∀ op ∈ ops, op.Fits s.defaultTtl) (hinvisible : Invisible s ops) :
    Meets step SeesNoExpired s ops := by
  apply meets_of_split
  rintro before op rest rfl
  have hsplit : ∀ op' ∈ before, op'.Fits s.defaultTtl := fun op' hop' =>
    hfits op' (List.mem_append_left _ hop')
  apply seesNoExpired_of_observe_eq (fits_run h hsplit)
  have hsame : ((before ++ Op.cleanup op.time :: op :: rest).filter fun op => !op.isCleanup) =
      before ++ op :: rest := by
    rw [List.filter_append, List.filter_cons_of_neg (by simp [Op.isCleanup]), ← List.filter_append,
      filter_cleanup_eq hops]
  have htimes' : ((before ++ Op.cleanup op.time :: op :: rest).map Op.time).Pairwise (· ≤ ·) := by
    rw [List.map_append, List.map_cons, List.pairwise_append] at htimes
    obtain ⟨hbefore, hafter, hcross⟩ := htimes
    rw [List.map_append, List.map_cons, List.map_cons, List.pairwise_append, List.pairwise_cons]
    refine ⟨hbefore, ⟨?_, hafter⟩, ?_⟩
    · intro time htime
      rcases List.mem_cons.mp htime with rfl | htime
      · exact Nat.le_refl _
      · exact (List.pairwise_cons.mp hafter).1 time htime
    · intro first hfirst second hsecond
      rcases List.mem_cons.mp hsecond with rfl | hsecond
      · exact hcross first hfirst op.time List.mem_cons_self
      · exact hcross first hfirst second hsecond
  have houtputs := hinvisible _ hsame htimes'
  rw [outputs_append, outputs_append] at houtputs
  have hrest : observe ((run step s before).cleanup op.time).2 op ++
        outputs step observe (step ((run step s before).cleanup op.time).2 op) rest =
      observe (run step s before) op ++
        outputs step observe (step (run step s before) op) rest :=
    List.append_cancel_left houtputs
  exact (List.append_inj hrest (length_observe _ _ op)).1

/-- For every storage and all operations in the order of time, cleanups put anywhere between
them change no removal and no list of keys if the removals find no expired entry for their key
and the keys are listed while no entry has expired.  With deadlines that can be represented, it
is necessary too. -/
theorem cleanups_invisible_iff (s : MemoryStorage) (ops : List Op)
    (hops : ∀ op ∈ ops, op.isCleanup = false)
    (htimes : (ops.map Op.time).Pairwise (· ≤ ·)) :
    (Meets step SeesNoExpired s ops → Invisible s ops) ∧
    (s.Fits → (∀ op ∈ ops, op.Fits s.defaultTtl) → Invisible s ops →
      Meets step SeesNoExpired s ops) := by
  constructor
  · rintro hsees ops' rfl htimes'
    refine outputs_eq_of_seesNoExpired (collected_refl 0 s) ?_ hsees
    exact List.pairwise_cons.mpr ⟨fun time _ => Nat.zero_le time, htimes'⟩
  · intro hs hfits hinvisible
    exact seesNoExpired_of_invisible hs hops htimes hfits hinvisible

/-- A value stored for ten nanoseconds and removed after five. -/
theorem cleanups_invisible_early_removal :
    Invisible (.withTtl 10)
      [.store 0 (NodeId.fromBytes [7]) [1], .remove 5 (NodeId.fromBytes [7])] := by
  refine (cleanups_invisible_iff _ _ (by simp [Op.isCleanup]) (by decide)).1 ⟨trivial, ?_, trivial⟩
  intro entry hlookup
  obtain rfl : { value := [1], timestamp := 0, ttl := 10 } = entry :=
    Option.some.inj ((AList.lookup_insert _).symm.trans hlookup)
  decide

/-- The same value removed after twenty nanoseconds.  The removal succeeds, and after a cleanup
it does not. -/
theorem cleanup_changes_late_removal :
    ¬ ∀ (s : MemoryStorage) (ops : List Op), (∀ op ∈ ops, op.isCleanup = false) →
      (ops.map Op.time).Pairwise (· ≤ ·) → Invisible s ops := by
  intro h
  have hsame := h (.withTtl 10) [.store 0 (NodeId.fromBytes [7]) [1],
      .remove 20 (NodeId.fromBytes [7])] (by simp [Op.isCleanup]) (by decide)
    [.store 0 (NodeId.fromBytes [7]) [1], .cleanup 15, .remove 20 (NodeId.fromBytes [7])] rfl
    (by decide)
  have hresults := Observation.removed.inj (List.cons.inj hsame).1
  revert hresults
  decide +kernel

end Collection

end Kademlia
