import Kademlia.Storage.Collection

/-!
# Storages built without a time to live

`new` and `with_name` give the entries a day.  `Default` is derived, so that its time to live is
that of a default `Duration`, which is zero: what it stores has expired at once.

The two kinds of storage are run side by side.  What each holds for a key follows from the
calls so far: the last store of the key and the last cleanup after it.
-/

namespace Kademlia

open Lib

namespace Constructors

inductive Op where
  | store (now : Instant) (key : NodeId) (value : Value)
  | get (now : Instant) (key : NodeId)
  | remove (now : Instant) (key : NodeId)
  | keys (now : Instant)
  | cleanup (now : Instant)

def Op.time : Op → Instant
  | store now _ _ | get now _ | remove now _ | keys now | cleanup now => now

def step (s : MemoryStorage) : Op → MemoryStorage
  | .store now key value => (s.store now key value).2
  | .get _ _ | .keys _ => s
  | .remove _ key => (s.remove key).2
  | .cleanup now => (s.cleanup now).2

/-- What a caller sees.  A cleanup returns nothing, but it may panic. -/
inductive Observation where
  | got (result : Outcome Value)
  | removed (result : Outcome Unit)
  | keys (keys : Finset NodeId)
  | cleaned (result : Outcome Unit)

def observe (s : MemoryStorage) : Op → List Observation
  | .store _ _ _ => []
  | .get now key => [.got (s.get now key)]
  | .remove _ key => [.removed (s.remove key).1]
  | .keys _ => [.keys s.keys.toFinset]
  | .cleanup now => [.cleaned (s.cleanup now).1]

def observations (s : MemoryStorage) (ops : List Op) : List Observation := outputs step observe s ops

/-- Every way to build a storage without a time to live gives the same results. -/
def SameResults (ops : List Op) : Prop :=
  (∀ name, observations (.withName name) ops = observations .new ops) ∧
    observations .default ops = observations .new ops

/-! ## The last store of a key -/

/-- A value that is stored and not removed, with the last cleanup since then. -/
structure Written where
  value : Value
  writtenAt : Instant
  cleanedAt : Option Instant
deriving DecidableEq

def track (key : NodeId) (written : Option Written) : Op → Option Written
  | .store now key' value =>
    if key' = key then some { value := value, writtenAt := now, cleanedAt := none } else written
  | .remove _ key' => if key' = key then none else written
  | .cleanup now => written.map fun w => { w with cleanedAt := some now }
  | _ => written

/-- What the calls so far say about a key. -/
def written (history : List Op) (key : NodeId) : Option Written := run (track key) none history

/-- The last cleanup since the store, if there is one, has come after the day was over. -/
def Written.CleanedLate (w : Written) : Prop :=
  ∀ c, w.cleanedAt = some c → w.writtenAt + defaultTtl ≤ c

/-- When both kinds of storage answer alike.  A `get` comes after the day of the value is over.
The key of a `remove`, and every key for `keys`, has not been cleaned up since its store, or only
after the day.  A `cleanup` finds no day that ends after the last instant. -/
def Alike (history : List Op) : Op → Prop
  | .store _ _ _ => True
  | .get now key => ∀ w, written history key = some w → w.writtenAt + defaultTtl ≤ now
  | .remove _ key => ∀ w, written history key = some w → w.CleanedLate
  | .keys _ => ∀ key w, written history key = some w → w.CleanedLate
  | .cleanup _ => ∀ key w, written history key = some w → w.writtenAt + defaultTtl < instantLimit

theorem written_concat (history : List Op) (op : Op) (key : NodeId) :
    written (history ++ [op]) key = track key (written history key) op :=
  run_concat none history op

/-- Times of calls bound the times that are remembered of them. -/
theorem written_le {history : List Op} {key : NodeId} {w : Written} {time : Instant}
    (htime : ∀ op ∈ history, op.time ≤ time) (h : written history key = some w) :
    w.writtenAt ≤ time ∧ ∀ c, w.cleanedAt = some c → c ≤ time := by
  induction history using List.reverseRecOn generalizing w with
  | nil => cases h
  | append_singleton history op ih =>
    have hop : op.time ≤ time := htime op (by simp)
    replace ih := fun {w} => ih (w := w) fun op' hop' => htime op' (List.mem_append_left _ hop')
    rw [written_concat] at h
    cases op with
    | store now key' value =>
      rw [track] at h
      split_ifs at h
      · obtain rfl := Option.some.inj h
        exact ⟨hop, fun c hc => by cases hc⟩
      · exact ih h
    | remove now key' =>
      rw [track] at h
      split_ifs at h
      exact ih h
    | cleanup now =>
      obtain ⟨w', hw', rfl⟩ := Option.map_eq_some_iff.mp h
      refine ⟨(ih hw').1, fun c hc => ?_⟩
      obtain rfl := Option.some.inj hc
      exact hop
    | get now key' => exact ih h
    | keys now => exact ih h

/-! ## What a storage holds -/

/-- A storage that gives its entries the time `ttl` holds what was stored and not removed, unless
a cleanup has come after that time. -/
structure Holds (ttl : Duration) (s : MemoryStorage) (history : List Op) : Prop where
  defaultTtl_eq : s.defaultTtl = ttl
  lookup_iff : ∀ key entry, s.storage.lookup key = some entry ↔
    ∃ w, written history key = some w ∧
      entry = { value := w.value, timestamp := w.writtenAt, ttl := ttl } ∧
        ∀ c, w.cleanedAt = some c → c < w.writtenAt + ttl

/-- The deadlines of everything stored can be represented. -/
def AllFit (ttl : Duration) (history : List Op) : Prop :=
  ∀ key w, written history key = some w → w.writtenAt + ttl < instantLimit

/-- The next call does not come before the others, and has a time that is an instant. -/
def InOrder (history : List Op) (op : Op) : Prop :=
  (∀ earlier ∈ history, earlier.time ≤ op.time) ∧ op.time < instantLimit

variable {ttl : Duration} {s d : MemoryStorage} {history : List Op}

theorem holds_withTtl (ttl : Duration) : Holds ttl (.withTtl ttl) [] := by
  refine ⟨rfl, fun key entry => ⟨?_, ?_⟩⟩
  · intro h
    cases h
  · rintro ⟨w, hw, -⟩
    cases hw

theorem Holds.fits (h : Holds ttl s history) (hfit : AllFit ttl history) : s.Fits := by
  intro key entry hlookup
  obtain ⟨w, hw, rfl, -⟩ := (h.lookup_iff key entry).mp hlookup
  exact hfit key w hw

theorem Holds.step (h : Holds ttl s history) {op : Op} (horder : InOrder history op)
    (hfit : ∀ now, op = .cleanup now → AllFit ttl history) :
    Holds ttl (step s op) (history ++ [op]) := by
  cases op with
  | store now key value =>
    refine ⟨h.defaultTtl_eq, fun key' entry => ?_⟩
    show (s.storeWithTtl now key value s.defaultTtl).2.storage.lookup key' = some entry ↔ _
    rw [MemoryStorage.lookup_storeWithTtl, written_concat, track, h.defaultTtl_eq]
    split_ifs
    · constructor
      · intro hentry
        exact ⟨_, rfl, (Option.some.inj hentry).symm, fun c hc => by cases hc⟩
      · rintro ⟨w, hw, rfl, -⟩
        rw [← Option.some.inj hw]
    · exact h.lookup_iff key' entry
  | get now key =>
    refine ⟨h.defaultTtl_eq, fun key' entry => ?_⟩
    rw [written_concat]
    exact h.lookup_iff key' entry
  | remove now key =>
    refine ⟨(s.remove_defaultTtl key).trans h.defaultTtl_eq, fun key' entry => ?_⟩
    show (s.remove key).2.storage.lookup key' = some entry ↔ _
    rw [MemoryStorage.lookup_remove, written_concat, track]
    split_ifs
    · constructor
      · intro hentry
        cases hentry
      · rintro ⟨w, hw, -⟩
        cases hw
    · exact h.lookup_iff key' entry
  | keys now =>
    refine ⟨h.defaultTtl_eq, fun key' entry => ?_⟩
    rw [written_concat]
    exact h.lookup_iff key' entry
  | cleanup now =>
    refine ⟨h.defaultTtl_eq, fun key' entry => ?_⟩
    show (s.cleanup now).2.storage.lookup key' = some entry ↔ _
    rw [(h.fits (hfit now rfl)).lookup_cleanup, h.lookup_iff, written_concat, track]
    constructor
    · rintro ⟨⟨w, hw, rfl, -⟩, hnow⟩
      refine ⟨_, Option.map_eq_some_iff.mpr ⟨w, hw, rfl⟩, rfl, fun c hc => ?_⟩
      rw [← Option.some.inj hc]
      exact hnow
    · rintro ⟨w', hw', rfl, hkept⟩
      obtain ⟨w, hw, rfl⟩ := Option.map_eq_some_iff.mp hw'
      have hnow := hkept now rfl
      -- An earlier cleanup took the entry out only if this one would.
      refine ⟨⟨w, hw, rfl, fun c hc => ?_⟩, hnow⟩
      exact Nat.lt_of_le_of_lt ((written_le horder.1 hw).2 c hc) hnow

/-! ## One call to both storages -/

theorem Holds.isSome_view_iff (h : Holds ttl s history) (key : NodeId) :
    (s.view key).isSome = true ↔
      ∃ w, written history key = some w ∧ ∀ c, w.cleanedAt = some c → c < w.writtenAt + ttl := by
  rw [Collection.isSome_view, Option.isSome_iff_exists]
  constructor
  · rintro ⟨entry, hlookup⟩
    obtain ⟨w, hw, -, hkept⟩ := (h.lookup_iff key entry).mp hlookup
    exact ⟨w, hw, hkept⟩
  · rintro ⟨w, hw, hkept⟩
    exact ⟨_, (h.lookup_iff key _).mpr ⟨w, hw, rfl, hkept⟩⟩

/-- Cleanups do not come before the stores they come after. -/
def CleanedAfter (history : List Op) : Prop :=
  ∀ key w c, written history key = some w → w.cleanedAt = some c → w.writtenAt ≤ c

theorem CleanedAfter.step (h : CleanedAfter history) {op : Op} (horder : InOrder history op) :
    CleanedAfter (history ++ [op]) := by
  intro key w c hw hc
  rw [written_concat] at hw
  cases op with
  | store now key' value =>
    rw [track] at hw
    split_ifs at hw
    · obtain rfl := Option.some.inj hw
      cases hc
    · exact h key w c hw hc
  | remove now key' =>
    rw [track] at hw
    split_ifs at hw
    exact h key w c hw hc
  | cleanup now =>
    obtain ⟨w', hw', rfl⟩ := Option.map_eq_some_iff.mp hw
    rw [← Option.some.inj hc]
    exact (written_le horder.1 hw').1
  | get now key' => exact h key w c hw hc
  | keys now => exact h key w c hw hc

/-- A storage from `new` and one from `Default` after the same calls. -/
structure SideBySide (s d : MemoryStorage) (history : List Op) : Prop where
  new : Holds defaultTtl s history
  default : Holds 0 d history
  cleanedAfter : CleanedAfter history

theorem sideBySide_start : SideBySide .new .default [] :=
  ⟨holds_withTtl defaultTtl, holds_withTtl 0, fun _ _ _ h => by cases h⟩

/-- What has expired at once has a deadline that is an instant. -/
theorem allFit_zero {op : Op} (horder : InOrder history op) : AllFit 0 history :=
  fun _ _ hw => Nat.lt_of_le_of_lt (written_le horder.1 hw).1 horder.2

theorem SideBySide.step (h : SideBySide s d history) {op : Op} (horder : InOrder history op)
    (halike : Alike history op) :
    SideBySide (step s op) (step d op) (history ++ [op]) := by
  refine ⟨h.new.step horder ?_, h.default.step horder ?_, h.cleanedAfter.step horder⟩
  · rintro now rfl
    exact halike
  · rintro now rfl
    exact allFit_zero horder

/-- Both storages have the key, or neither has it, if its cleanups have come late. -/
theorem SideBySide.isSome_view_eq_iff (h : SideBySide s d history) (key : NodeId) :
    (s.view key).isSome = (d.view key).isSome ↔
      ∀ w, written history key = some w → w.CleanedLate := by
  rw [Bool.eq_iff_iff, h.new.isSome_view_iff, h.default.isSome_view_iff]
  constructor
  · intro hiff w hw c hc
    by_contra hearly
    obtain ⟨w', hw', hkept⟩ := hiff.mp ⟨w, hw, fun c' hc' => by
      rw [← Option.some.inj (hc.symm.trans hc')]
      exact Nat.not_le.mp hearly⟩
    obtain rfl := Option.some.inj (hw.symm.trans hw')
    exact absurd (hkept c hc) (Nat.not_lt.mpr (h.cleanedAfter key w c hw hc))
  · intro hlate
    constructor
    · rintro ⟨w, hw, hkept⟩
      exact ⟨w, hw, fun c hc => absurd (hkept c hc) (Nat.not_lt.mpr (hlate w hw c hc))⟩
    · rintro ⟨w, hw, hkept⟩
      exact ⟨w, hw, fun c hc => Nat.lt_of_lt_of_le (hkept c hc) (Nat.le_add_right _ _)⟩

/-- Of a store that a cleanup has taken out, the time to live was over. -/
theorem Holds.lookup_or_le (h : Holds ttl s history) {op : Op} (horder : InOrder history op)
    {key : NodeId} {w : Written} (hw : written history key = some w) :
    s.storage.lookup key = some { value := w.value, timestamp := w.writtenAt, ttl := ttl } ∨
      w.writtenAt + ttl ≤ op.time := by
  by_cases hkept : ∀ c, w.cleanedAt = some c → c < w.writtenAt + ttl
  · exact .inl ((h.lookup_iff key _).mpr ⟨w, hw, rfl, hkept⟩)
  · push Not at hkept
    obtain ⟨c, hc, hle⟩ := hkept
    exact .inr (Nat.le_trans hle ((written_le horder.1 hw).2 c hc))

/-- A value is not found once its time to live is over. -/
theorem Holds.get_eq_notFound_iff (h : Holds ttl s history) {now : Instant} {key : NodeId}
    (horder : InOrder history (.get now key)) :
    s.get now key = .error (.err .valueNotFound) ↔
      ∀ w, written history key = some w → w.writtenAt + ttl ≤ now := by
  rw [MemoryStorage.get_eq_notFound_iff]
  constructor
  · intro hnone w hw
    rcases h.lookup_or_le horder hw with hlookup | hle
    · exact (hnone _ hlookup).2
    · exact hle
  · intro hover entry hlookup
    obtain ⟨w, hw, rfl, -⟩ := (h.lookup_iff key entry).mp hlookup
    exact ⟨Nat.lt_of_le_of_lt (hover w hw) horder.2, hover w hw⟩

theorem Holds.fits_iff (h : Holds ttl s history) {op : Op} (horder : InOrder history op) :
    s.Fits ↔ AllFit ttl history := by
  refine ⟨fun hfits key w hw => ?_, h.fits⟩
  rcases h.lookup_or_le horder hw with hlookup | hle
  · exact hfits key _ hlookup
  · exact Nat.lt_of_le_of_lt hle horder.2

theorem SideBySide.observe_eq_iff (h : SideBySide s d history) {op : Op}
    (horder : InOrder history op) : observe d op = observe s op ↔ Alike history op := by
  cases op with
  | store now key value => exact ⟨fun _ => trivial, fun _ => rfl⟩
  | get now key =>
    have hd : d.get now key = .error (.err .valueNotFound) :=
      (h.default.get_eq_notFound_iff horder).mpr fun w hw => (written_le horder.1 hw).1
    show [Observation.got (d.get now key)] = [Observation.got (s.get now key)] ↔ _
    rw [hd, List.singleton_inj, Observation.got.injEq, eq_comm, h.new.get_eq_notFound_iff horder]
    exact Iff.rfl
  | remove now key =>
    show [Observation.removed (d.remove key).1] = [Observation.removed (s.remove key).1] ↔ _
    rw [List.singleton_inj, Observation.removed.injEq, Collection.remove_eq, Collection.remove_eq]
    refine Iff.trans ?_ (h.isSome_view_eq_iff key)
    cases (s.view key).isSome <;> cases (d.view key).isSome <;> simp
  | keys now =>
    show [Observation.keys d.keys.toFinset] = [Observation.keys s.keys.toFinset] ↔ _
    rw [List.singleton_inj, Observation.keys.injEq, Finset.ext_iff]
    refine forall_congr' fun key => ?_
    rw [List.mem_toFinset, List.mem_toFinset, Collection.mem_keys_iff, Collection.mem_keys_iff,
      ← Bool.eq_iff_iff, eq_comm]
    exact h.isSome_view_eq_iff key
  | cleanup now =>
    have hd : (d.cleanup now).1 = .ok () :=
      MemoryStorage.cleanup_eq_ok_iff.mpr (h.default.fits (allFit_zero horder))
    show [Observation.cleaned (d.cleanup now).1] = [Observation.cleaned (s.cleanup now).1] ↔ _
    rw [hd, List.singleton_inj, Observation.cleaned.injEq, eq_comm,
      MemoryStorage.cleanup_eq_ok_iff, h.new.fits_iff horder]
    exact Iff.rfl

/-! ## Runs -/

theorem length_observe (s d : MemoryStorage) (op : Op) :
    (observe s op).length = (observe d op).length := by
  cases op <;> rfl

theorem inOrder_of_pairwise {ops : List Op} (htimes : (ops.map Op.time).Pairwise (· ≤ ·))
    (hlimit : ∀ op ∈ ops, op.time < instantLimit) :
    ∀ before op rest, ops = before ++ op :: rest → InOrder before op := by
  rintro before op rest rfl
  rw [List.map_append, List.map_cons, List.pairwise_append] at htimes
  exact ⟨fun earlier hearlier =>
    htimes.2.2 _ (List.mem_map_of_mem hearlier) _ List.mem_cons_self, hlimit op (by simp)⟩

/-- Both storages take a call. -/
def bothStep (p : MemoryStorage × MemoryStorage) (op : Op) : MemoryStorage × MemoryStorage :=
  (step p.1 op, step p.2 op)

theorem meets_alike_iff {ops : List Op} :
    Meets (logged bothStep) (fun p op => Alike p.2 op) ((.default, .new), []) ops ↔
      ∀ before op rest, ops = before ++ op :: rest → Alike before op :=
  meets_logged_iff_split

/-- For all calls in the order of time, every way to build a storage without a time to live gives
the same results if and only if each call finds the storages alike: values are read after their
day, keys are removed and listed with no cleanup within the day after their store, and
cleanups find no day that ends after the last instant. -/
theorem same_results_iff (ops : List Op) (htimes : (ops.map Op.time).Pairwise (· ≤ ·))
    (hlimit : ∀ op ∈ ops, op.time < instantLimit) :
    SameResults ops ↔ ∀ before op rest, ops = before ++ op :: rest → Alike before op := by
  have hname : ∀ name, observations (.withName name) ops = observations .new ops := fun _ => rfl
  have hallowed : Meets (logged bothStep) (fun p op => InOrder p.2 op) ((.default, .new), []) ops :=
    meets_logged_iff_split.mpr (inOrder_of_pairwise htimes hlimit)
  have hsame : observations .default ops = observations .new ops ↔
      Meets (logged bothStep) (fun p op => observe p.1.1 op = observe p.1.2 op)
        ((.default, .new), []) ops :=
    (outputs_eq_iff_meets length_observe).trans meets_logged.symm
  rw [SameResults, and_iff_right hname, hsame, ← meets_alike_iff]
  refine meets_iff_meets_of_meets (I := fun p => SideBySide p.1.2 p.1.1 p.2) ?_ ?_
    sideBySide_start hallowed
  · intro p op hp horder halike
    exact hp.step horder halike
  · intro p op hp horder
    exact hp.observe_eq_iff horder

/-- A value is read a day after it is stored. -/
theorem same_results_after_a_day :
    SameResults [.store 0 (NodeId.fromBytes [7]) [1],
      .get defaultTtl (NodeId.fromBytes [7])] := by
  refine (same_results_iff _ (by decide) (by decide)).mpr (meets_alike_iff.mp ⟨trivial, ?_, trivial⟩)
  intro w hw
  have hwritten : written [.store 0 (NodeId.fromBytes [7]) [1]] (NodeId.fromBytes [7]) =
      some { value := [1], writtenAt := 0, cleanedAt := none } := by decide +kernel
  obtain rfl := Option.some.inj (hwritten.symm.trans hw)
  exact Nat.le_refl _

/-- A value is read when it is stored. -/
theorem derived_default_forgets :
    ¬ ∀ ops : List Op, (ops.map Op.time).Pairwise (· ≤ ·) →
      (∀ op ∈ ops, op.time < instantLimit) → SameResults ops := by
  intro h
  have hsame := (h [.store 0 (NodeId.fromBytes [7]) [1], .get 0 (NodeId.fromBytes [7])]
    (by decide) (by decide)).2
  have hresults := Observation.got.inj (List.cons.inj hsame).1
  revert hresults
  decide +kernel

end Constructors

end Kademlia
