import Mathlib.Data.List.Induction
import Kademlia.Lib.ExpiringMap
import Kademlia.Lib.Simulation
import Kademlia.Storage.Memory

/-!
# The storage as a map with expiry

The map of the storage keeps expired entries until `cleanup` takes them out.  The
abstract map forgets nothing and does nothing at a `cleanup`.  The storage refines it:
its entries are those of the abstract map, but for some that are past their deadline,
and every `get` of a run gives the same result in both.

What a `get` returns is then a matter of the last write to its key, and where the
cleanups stand makes no difference.
-/

namespace Kademlia

open Lib

namespace MemoryStorage

/-- The value and the deadline held for a key. -/
def view (s : MemoryStorage) (key : NodeId) : Option (Value × Nat) :=
  (s.storage.lookup key).map fun entry => (entry.value, entry.timestamp + entry.ttl)

/-- Every deadline in the map can be represented. -/
def Fits (s : MemoryStorage) : Prop :=
  ∀ key entry, s.storage.lookup key = some entry → entry.timestamp + entry.ttl < instantLimit

theorem fits_withTtl (ttl : Duration) : (withTtl ttl).Fits := fun _ _ h => nomatch h

theorem view_storeWithTtl (s : MemoryStorage) (now : Instant) (key : NodeId) (value : Value)
    (ttl : Duration) :
    (s.storeWithTtl now key value ttl).2.view =
      Function.update s.view key (some (value, now + ttl)) := by
  funext key'
  by_cases h : key' = key
  · subst h
    simp [view, storeWithTtl]
  · rw [Function.update_of_ne h]
    simp only [view, storeWithTtl, AList.lookup_insert_ne h]

theorem view_remove (s : MemoryStorage) (key : NodeId) :
    (s.remove key).2.view = Function.update s.view key none := by
  funext key'
  unfold remove
  by_cases h : key' = key
  · subst h
    rw [Function.update_self]
    cases hlookup : s.storage.lookup key' with
    | none => simp [view, hlookup]
    | some entry => simp [view]
  · rw [Function.update_of_ne h]
    cases hlookup : s.storage.lookup key with
    | none => rfl
    | some entry => simp only [view, AList.lookup_erase_ne h]

theorem Fits.storeWithTtl {s : MemoryStorage} (h : s.Fits) {now : Instant} (key : NodeId)
    (value : Value) {ttl : Duration} (hfits : now + ttl < instantLimit) :
    (s.storeWithTtl now key value ttl).2.Fits := by
  intro key' entry hlookup
  by_cases hkey : key' = key
  · subst hkey
    simp only [MemoryStorage.storeWithTtl, AList.lookup_insert, Option.some.injEq] at hlookup
    rw [← hlookup]
    exact hfits
  · simp only [MemoryStorage.storeWithTtl, AList.lookup_insert_ne hkey] at hlookup
    exact h key' entry hlookup

theorem Fits.remove {s : MemoryStorage} (h : s.Fits) (key : NodeId) : (s.remove key).2.Fits := by
  intro key' entry hlookup
  exact h key' entry (lookup_of_lookup_remove hlookup)

/-- With representable deadlines a cleanup keeps what is not expired. -/
theorem Fits.cleanup_entries {s : MemoryStorage} (h : s.Fits) (now : Instant) :
    (s.cleanup now).2.storage.entries =
      s.storage.entries.filter fun entry => now < entry.2.timestamp + entry.2.ttl := by
  have htest : ∀ entry ∈ s.storage.entries, unexpired now entry.2 =
      .ok (decide (now < entry.2.timestamp + entry.2.ttl)) := by
    intro entry hentry
    exact unexpired_of_fits (h entry.1 entry.2 (AList.mem_lookup_iff.mpr hentry)) now
  show (retainM (fun entry => unexpired now entry.2) s.storage.entries).2 = _
  rw [retainM_of_ok htest]

theorem Fits.lookup_cleanup {s : MemoryStorage} (h : s.Fits) (now : Instant) (key : NodeId)
    (entry : StorageEntry) :
    (s.cleanup now).2.storage.lookup key = some entry ↔
      s.storage.lookup key = some entry ∧ now < entry.timestamp + entry.ttl := by
  have hleft : (s.cleanup now).2.storage.lookup key = some entry ↔
      Sigma.mk key entry ∈ (s.cleanup now).2.storage.entries := AList.mem_lookup_iff
  have hright : s.storage.lookup key = some entry ↔ Sigma.mk key entry ∈ s.storage.entries :=
    AList.mem_lookup_iff
  rw [hleft, hright, h.cleanup_entries, List.mem_filter, decide_eq_true_eq]

theorem Fits.cleanup {s : MemoryStorage} (h : s.Fits) (now : Instant) : (s.cleanup now).2.Fits :=
  fun key entry hlookup => h key entry (lookup_of_lookup_cleanup hlookup)

/-- A cleanup ends well when it can compute every deadline. -/
theorem cleanup_eq_ok_iff {s : MemoryStorage} {now : Instant} :
    (s.cleanup now).1 = .ok () ↔ s.Fits := by
  constructor
  · intro h key entry hlookup
    obtain ⟨kept, htest⟩ := ok_of_retainM_eq_ok h (AList.mem_lookup_iff.mp hlookup)
    by_contra hfits
    rw [unexpired_of_endless hfits] at htest
    cases htest
  · intro h
    cases hresult : (s.cleanup now).1 with
    | ok => rfl
    | error fault =>
      obtain ⟨-, key, entry, hlookup, hnot⟩ := cleanup_eq_error hresult
      exact absurd (h key entry hlookup) hnot

/-- A cleanup changes the entries past their deadline only, also when it ends in a panic. -/
theorem view_cleanup (s : MemoryStorage) (now : Instant) (key : NodeId) :
    (s.cleanup now).2.view key = s.view key ∨ (s.cleanup now).2.view key = none ∧
      ∃ value deadline, s.view key = some (value, deadline) ∧ deadline ≤ now := by
  cases hcleaned : (s.cleanup now).2.storage.lookup key with
  | some entry =>
    have hlookup := lookup_of_lookup_cleanup hcleaned
    exact .inl (by simp only [view, hcleaned, hlookup])
  | none =>
    cases hlookup : s.storage.lookup key with
    | none => exact .inl (by simp only [view, hcleaned, hlookup])
    | some entry =>
      refine .inr ⟨by simp only [view, hcleaned, Option.map_none], entry.value,
        entry.timestamp + entry.ttl, by simp only [view, hlookup, Option.map_some], ?_⟩
      have hmem : Sigma.mk key entry ∈ s.storage.entries := AList.mem_lookup_iff.mp hlookup
      rcases mem_retainM_or (p := fun entry => unexpired now entry.2) hmem with hkept | hdropped
      · have hsome : (s.cleanup now).2.storage.lookup key = some entry :=
          AList.mem_lookup_iff.mpr hkept
        rw [hcleaned] at hsome
        cases hsome
      · by_cases hfits : entry.timestamp + entry.ttl < instantLimit
        · rw [unexpired_of_fits hfits] at hdropped
          exact Nat.not_lt.mp (of_decide_eq_false (Except.ok.inj hdropped))
        · rw [unexpired_of_endless hfits] at hdropped
          cases hdropped

theorem Fits.get_eq {s : MemoryStorage} (h : s.Fits) (now : Instant) (key : NodeId) :
    s.get now key =
      match ExpiringMap.readEntry now (s.view key) with
      | some value => .ok value
      | none => .error (.err .valueNotFound) := by
  have hspec := get_spec s now key
  generalize s.get now key = result at hspec ⊢
  cases hspec with
  | missing hlookup => simp only [view, hlookup, Option.map_none, ExpiringMap.readEntry]
  | found hlookup _ hnow =>
    simp only [view, hlookup, Option.map_some, ExpiringMap.readEntry, if_pos hnow]
  | expired hlookup _ hnow =>
    simp only [view, hlookup, Option.map_some, ExpiringMap.readEntry, if_neg hnow]
  | endless hlookup hfits => exact absurd (h key _ hlookup) hfits

end MemoryStorage

namespace Expiry

inductive Op where
  | store (now : Instant) (key : NodeId) (value : Value)
  | storeWithTtl (now : Instant) (key : NodeId) (value : Value) (ttl : Duration)
  | get (now : Instant) (key : NodeId)
  | remove (key : NodeId)
  | cleanup (now : Instant)

/-- The reading of the clock, which a removal does not make. -/
def Op.time : Op → Option Instant
  | store now _ _ | storeWithTtl now _ _ _ | get now _ | cleanup now => some now
  | remove _ => none

/-- The deadline that an operation writes can be represented. -/
def Op.Fits (defaultTtl : Duration) : Op → Prop
  | store now _ _ => now + defaultTtl < instantLimit
  | storeWithTtl now _ _ ttl => now + ttl < instantLimit
  | _ => True

def Op.isCleanup : Op → Bool
  | cleanup _ => true
  | _ => false

def step (s : MemoryStorage) : Op → MemoryStorage
  | .store now key value => (s.store now key value).2
  | .storeWithTtl now key value ttl => (s.storeWithTtl now key value ttl).2
  | .get _ _ => s
  | .remove key => (s.remove key).2
  | .cleanup now => (s.cleanup now).2

/-- The result of a `get`. -/
def result (s : MemoryStorage) : Op → List (Outcome Value)
  | .get now key => [s.get now key]
  | _ => []

/-- What an operation does to a key: a store of a value at a time with a time to live, or
a removal. -/
inductive Write where
  | stored (value : Value) (writtenAt : Instant) (ttl : Duration)
  | removed
deriving DecidableEq

def Op.write (defaultTtl : Duration) (key : NodeId) : Op → Option Write
  | store now key' value => if key' = key then some (.stored value now defaultTtl) else none
  | storeWithTtl now key' value ttl => if key' = key then some (.stored value now ttl) else none
  | remove key' => if key' = key then some .removed else none
  | _ => none

/-- The last store or removal of a key. -/
def lastWrite (defaultTtl : Duration) (key : NodeId) (ops : List Op) : Option Write :=
  latest (Op.write defaultTtl key) ops

/-! ## The abstract map -/

/-- The map with its clock at the reading of an operation. -/
def tick (m : ExpiringMap NodeId Value) (op : Op) : ExpiringMap NodeId Value :=
  match op.time with
  | some now => m.advance now
  | none => m

def specStep (defaultTtl : Duration) (m : ExpiringMap NodeId Value) (op : Op) :
    ExpiringMap NodeId Value :=
  match op with
  | .store now key value => (tick m op).put key (some (value, now + defaultTtl))
  | .storeWithTtl now key value ttl => (tick m op).put key (some (value, now + ttl))
  | .remove key => m.put key none
  | .get _ _ | .cleanup _ => tick m op

def specGet (m : ExpiringMap NodeId Value) (now : Instant) (key : NodeId) : Outcome Value :=
  match m.read now key with
  | some value => .ok value
  | none => .error (.err .valueNotFound)

def specResult (m : ExpiringMap NodeId Value) : Op → List (Outcome Value)
  | .get now key => [specGet m now key]
  | _ => []

/-- The clock does not go back, and deadlines can be represented. -/
def Timely (defaultTtl : Duration) (m : ExpiringMap NodeId Value) (op : Op) : Prop :=
  (∀ now, op.time = some now → m.clock ≤ now) ∧ op.Fits defaultTtl

structure Refines (defaultTtl : Duration) (s : MemoryStorage) (m : ExpiringMap NodeId Value) :
    Prop where
  defaultTtl_eq : s.defaultTtl = defaultTtl
  fits : s.Fits
  covers : m.Covers s.view

variable {defaultTtl : Duration}

theorem refines_withTtl (defaultTtl : Duration) :
    Refines defaultTtl (.withTtl defaultTtl) .empty :=
  { defaultTtl_eq := rfl, fits := MemoryStorage.fits_withTtl defaultTtl,
    covers := ExpiringMap.covers_self _ }

theorem Refines.get_eq {s : MemoryStorage} {m : ExpiringMap NodeId Value}
    (h : Refines defaultTtl s m) {now : Instant} (hnow : m.clock ≤ now) (key : NodeId) :
    s.get now key = specGet m now key := by
  rw [h.fits.get_eq, h.covers.read hnow]
  rfl

theorem Refines.step {s : MemoryStorage} {m : ExpiringMap NodeId Value}
    (h : Refines defaultTtl s m) {op : Op} (hop : Timely defaultTtl m op) :
    Refines defaultTtl (step s op) (specStep defaultTtl m op) := by
  obtain ⟨htime, hfits⟩ := hop
  have hcovers : (tick m op).Covers s.view := by
    unfold tick
    cases ht : op.time with
    | none => exact h.covers
    | some now => exact h.covers.advance (htime now ht)
  cases op with
  | store now key value =>
    have hwrite : now + s.defaultTtl < instantLimit := by
      rw [h.defaultTtl_eq]
      exact hfits
    constructor
    · exact h.defaultTtl_eq
    · exact h.fits.storeWithTtl key value hwrite
    · show ((tick m (.store now key value)).put key _).Covers (s.storeWithTtl _ _ _ _).2.view
      rw [MemoryStorage.view_storeWithTtl, h.defaultTtl_eq]
      exact hcovers.put key _
  | storeWithTtl now key value ttl =>
    constructor
    · exact h.defaultTtl_eq
    · exact h.fits.storeWithTtl key value hfits
    · show ((tick m (.storeWithTtl now key value ttl)).put key _).Covers
        (s.storeWithTtl now key value ttl).2.view
      rw [MemoryStorage.view_storeWithTtl]
      exact hcovers.put key _
  | get now key => exact { h with covers := hcovers }
  | remove key =>
    constructor
    · exact (s.remove_defaultTtl key).trans h.defaultTtl_eq
    · exact h.fits.remove key
    · show (m.put key none).Covers (s.remove key).2.view
      rw [MemoryStorage.view_remove]
      exact h.covers.put key none
  | cleanup now =>
    constructor
    · exact h.defaultTtl_eq
    · exact h.fits.cleanup now
    · exact hcovers.collect (s.view_cleanup now)

/-- Every `get` of a run gives the result of the abstract map. -/
theorem results_eq_spec {ops : List Op}
    (h : Meets (specStep defaultTtl) (Timely defaultTtl) .empty ops) :
    outputs step result (.withTtl defaultTtl) ops =
      outputs (specStep defaultTtl) specResult .empty ops := by
  have hstep : ∀ s m op, Refines defaultTtl s m → Timely defaultTtl m op →
      Refines defaultTtl (step s op) (specStep defaultTtl m op) := by
    intro s m op hR hop
    exact hR.step hop
  apply outputs_eq_of_meets hstep
  · intro s m op hR hop
    cases op with
    | get now key =>
      show [s.get now key] = [specGet m now key]
      rw [hR.get_eq (hop.1 now rfl)]
    | _ => rfl
  · exact refines_withTtl defaultTtl
  · exact h

/-! ## Clock readings -/

theorem specStep_clock (m : ExpiringMap NodeId Value) (op : Op) :
    (specStep defaultTtl m op).clock = op.time.getD m.clock := by
  cases op <;> rfl

/-- Operations in the order of their readings meet the condition of the refinement. -/
theorem meets_timely {m : ExpiringMap NodeId Value} {ops : List Op}
    (hclock : (m.clock :: ops.filterMap Op.time).Pairwise (· ≤ ·))
    (hfits : ∀ op ∈ ops, op.Fits defaultTtl) :
    Meets (specStep defaultTtl) (Timely defaultTtl) m ops := by
  induction ops generalizing m with
  | nil => trivial
  | cons op rest ih =>
    have hrest : ∀ op' ∈ rest, op'.Fits defaultTtl := fun op' hop' =>
      hfits op' (List.mem_cons_of_mem op hop')
    have hfirst := hfits op List.mem_cons_self
    cases ht : op.time with
    | none =>
      rw [List.filterMap_cons_none ht] at hclock
      refine ⟨⟨fun now hnow => ?_, hfirst⟩, ih ?_ hrest⟩
      · rw [ht] at hnow
        cases hnow
      · rw [specStep_clock, ht]
        exact hclock
    | some time =>
      rw [List.filterMap_cons_some ht, List.pairwise_cons] at hclock
      obtain ⟨hle, hpairwise⟩ := hclock
      refine ⟨⟨fun now hnow => ?_, hfirst⟩, ih ?_ hrest⟩
      · rw [ht] at hnow
        obtain rfl := Option.some.inj hnow
        exact hle time List.mem_cons_self
      · rw [specStep_clock, ht]
        exact hpairwise

theorem meets_timely_empty {ops : List Op} (hclock : (ops.filterMap Op.time).Pairwise (· ≤ ·))
    (hfits : ∀ op ∈ ops, op.Fits defaultTtl) :
    Meets (specStep defaultTtl) (Timely defaultTtl) .empty ops := by
  apply meets_timely _ hfits
  rw [List.pairwise_cons]
  exact ⟨fun now _ => Nat.zero_le now, hclock⟩

/-! ## The last write to a key -/

/-- What the map holds for a key after its last write. -/
def entryOf : Option Write → Option (Value × Nat)
  | some (.stored value writtenAt ttl) => some (value, writtenAt + ttl)
  | _ => none

theorem entries_specStep (m : ExpiringMap NodeId Value) (op : Op) (key : NodeId) :
    (specStep defaultTtl m op).entries key =
      match op.write defaultTtl key with
      | some write => entryOf (some write)
      | none => m.entries key := by
  cases op with
  | store now key' value =>
    by_cases h : key' = key
    · subst h
      simp [specStep, ExpiringMap.put, Op.write, entryOf]
    · simp [specStep, ExpiringMap.put, Op.write, h, Function.update_of_ne (Ne.symm h), tick,
        Op.time, ExpiringMap.advance]
  | storeWithTtl now key' value ttl =>
    by_cases h : key' = key
    · subst h
      simp [specStep, ExpiringMap.put, Op.write, entryOf]
    · simp [specStep, ExpiringMap.put, Op.write, h, Function.update_of_ne (Ne.symm h), tick,
        Op.time, ExpiringMap.advance]
  | remove key' =>
    by_cases h : key' = key
    · subst h
      simp [specStep, ExpiringMap.put, Op.write, entryOf]
    · simp [specStep, ExpiringMap.put, Op.write, h, Function.update_of_ne (Ne.symm h)]
  | get now key' => rfl
  | cleanup now => rfl

theorem entries_run (ops : List Op) (key : NodeId) :
    (run (specStep defaultTtl) .empty ops).entries key =
      entryOf (lastWrite defaultTtl key ops) := by
  induction ops using List.reverseRecOn with
  | nil => rfl
  | append_singleton ops op ih =>
    rw [run_concat, entries_specStep, lastWrite, latest_concat]
    cases op.write defaultTtl key with
    | none => exact ih
    | some write => rfl

/-- Where the cleanups stand makes no difference to the abstract map. -/
theorem specResults_filter {m m' : ExpiringMap NodeId Value} (h : m.entries = m'.entries)
    (ops : List Op) :
    outputs (specStep defaultTtl) specResult m ops =
      outputs (specStep defaultTtl) specResult m' (ops.filter fun op => !op.isCleanup) := by
  induction ops generalizing m m' with
  | nil => rfl
  | cons op rest ih =>
    have hstep : (specStep defaultTtl m op).entries = (specStep defaultTtl m' op).entries := by
      funext key
      rw [entries_specStep, entries_specStep, h]
    have hresult : specResult m op = specResult m' op := by
      cases op with
      | get now key => simp only [specResult, specGet, ExpiringMap.read, h]
      | _ => rfl
    cases hop : op.isCleanup with
    | false =>
      rw [List.filter_cons_of_pos (by rw [hop]; rfl)]
      show specResult m op ++ _ = specResult m' op ++ _
      rw [hresult, ih hstep]
    | true =>
      rw [List.filter_cons_of_neg (by simp [hop])]
      cases op with
      | cleanup now => exact ih h
      | _ => cases hop

/-- Two runs with the same operations but for the cleanups give the same results. -/
theorem results_eq_of_filter_eq {ops ops' : List Op}
    (hsame : (ops'.filter fun op => !op.isCleanup) = ops.filter fun op => !op.isCleanup)
    (hclock : (ops.filterMap Op.time).Pairwise (· ≤ ·))
    (hclock' : (ops'.filterMap Op.time).Pairwise (· ≤ ·))
    (hfits : ∀ op ∈ ops, op.Fits defaultTtl) :
    outputs step result (.withTtl defaultTtl) ops' =
      outputs step result (.withTtl defaultTtl) ops := by
  have hfits' : ∀ op ∈ ops', op.Fits defaultTtl := by
    intro op hop
    cases hcleanup : op.isCleanup with
    | true =>
      cases op with
      | cleanup now => trivial
      | _ => cases hcleanup
    | false =>
      have hmem : op ∈ ops'.filter fun op => !op.isCleanup :=
        List.mem_filter.mpr ⟨hop, by rw [hcleanup]; rfl⟩
      rw [hsame] at hmem
      exact hfits op (List.mem_filter.mp hmem).1
  calc outputs step result (.withTtl defaultTtl) ops'
      = outputs (specStep defaultTtl) specResult .empty ops' :=
        results_eq_spec (meets_timely_empty hclock' hfits')
    _ = outputs (specStep defaultTtl) specResult .empty (ops'.filter fun op => !op.isCleanup) :=
        specResults_filter rfl ops'
    _ = outputs (specStep defaultTtl) specResult .empty (ops.filter fun op => !op.isCleanup) := by
        rw [hsame]
    _ = outputs (specStep defaultTtl) specResult .empty ops := (specResults_filter rfl ops).symm
    _ = outputs step result (.withTtl defaultTtl) ops :=
        (results_eq_spec (meets_timely_empty hclock hfits)).symm

/-- A `get` after a run reads the last write to its key. -/
theorem get_run {ops : List Op} {now : Instant} {key : NodeId}
    (hclock : ((ops ++ [Op.get now key]).filterMap Op.time).Pairwise (· ≤ ·))
    (hfits : ∀ op ∈ ops, op.Fits defaultTtl) :
    (run step (.withTtl defaultTtl) ops).get now key =
      match ExpiringMap.readEntry now (entryOf (lastWrite defaultTtl key ops)) with
      | some value => .ok value
      | none => .error (.err .valueNotFound) := by
  have hops : ∀ op ∈ ops ++ [Op.get now key], op.Fits defaultTtl := by
    intro op hop
    rcases List.mem_append.mp hop with hop | hop
    · exact hfits op hop
    · rw [List.mem_singleton.mp hop]
      trivial
  have hall := meets_timely_empty hclock hops
  rw [meets_append] at hall
  have hrefines : Refines defaultTtl (run step (.withTtl defaultTtl) ops)
      (run (specStep defaultTtl) .empty ops) :=
    refines_of_meets (fun s m op hR hop => hR.step hop) (refines_withTtl defaultTtl) hall.1
  rw [hrefines.get_eq (hall.2.1.1 now rfl) key, specGet, ExpiringMap.read, entries_run]

theorem readEntry_entryOf {now : Instant} {write : Option Write} {value : Value} :
    ExpiringMap.readEntry now (entryOf write) = some value ↔
      ∃ writtenAt ttl, write = some (.stored value writtenAt ttl) ∧ now < writtenAt + ttl := by
  rw [ExpiringMap.readEntry_eq_some_iff]
  cases write with
  | none => simp [entryOf]
  | some write =>
    cases write with
    | removed => simp [entryOf]
    | stored value' writtenAt ttl => simp [entryOf]

/-- A `get` returns the value of the last write to its key when that was a store whose time
to live has not passed, and nothing otherwise.  Cleanups change no result. -/
theorem get_after_run (defaultTtl : Duration) (ops : List Op) (now : Instant) (key : NodeId)
    (hclock : ((ops ++ [Op.get now key]).filterMap Op.time).Pairwise (· ≤ ·))
    (hfits : ∀ op ∈ ops, op.Fits defaultTtl) :
    (∀ value, (run step (.withTtl defaultTtl) ops).get now key = .ok value ↔
      ∃ writtenAt ttl, lastWrite defaultTtl key ops = some (.stored value writtenAt ttl) ∧
        now < writtenAt + ttl) ∧
    ((¬ ∃ value writtenAt ttl, lastWrite defaultTtl key ops = some (.stored value writtenAt ttl) ∧
        now < writtenAt + ttl) →
      (run step (.withTtl defaultTtl) ops).get now key = .error (.err .valueNotFound)) ∧
    ∀ ops', (ops'.filter fun op => !op.isCleanup) = (ops.filter fun op => !op.isCleanup) →
      (ops'.filterMap Op.time).Pairwise (· ≤ ·) →
      outputs step result (.withTtl defaultTtl) ops' =
        outputs step result (.withTtl defaultTtl) ops := by
  have hget := get_run hclock hfits
  refine ⟨?_, ?_, ?_⟩
  · intro value
    rw [hget, ← readEntry_entryOf]
    cases ExpiringMap.readEntry now (entryOf (lastWrite defaultTtl key ops)) <;> simp
  · intro hnone
    rw [hget]
    cases hvalue : ExpiringMap.readEntry now (entryOf (lastWrite defaultTtl key ops)) with
    | none => rfl
    | some value => exact absurd ⟨value, readEntry_entryOf.mp hvalue⟩ hnone
  · intro ops' hsame hclock'
    rw [List.filterMap_append] at hclock
    exact results_eq_of_filter_eq hsame (List.pairwise_append.mp hclock).1 hclock' hfits

/-- A value stored at 1 for ten nanoseconds is there at 10, after a cleanup at 5, and gone
at 11, where a cleanup at that instant takes it out. -/
theorem get_after_run_boundary :
    (run step (.withTtl 10) [.store 1 (NodeId.fromBytes [7]) [1], .cleanup 5]).get 10
      (NodeId.fromBytes [7]) = .ok [1] ∧
    (run step (.withTtl 10) [.store 1 (NodeId.fromBytes [7]) [1], .cleanup 11]).get 11
      (NodeId.fromBytes [7]) = .error (.err .valueNotFound) := by
  have hfits : ∀ now : Instant, ∀ op ∈ [Op.store 1 (NodeId.fromBytes [7]) [1], .cleanup now],
      op.Fits 10 := by
    intro now op hop
    simp only [List.mem_cons, List.not_mem_nil, or_false] at hop
    rcases hop with rfl | rfl
    · show 1 + 10 < instantLimit
      decide
    · trivial
  constructor
  · have h := get_after_run 10 [.store 1 (NodeId.fromBytes [7]) [1], .cleanup 5] 10
      (NodeId.fromBytes [7]) (by decide) (hfits 5)
    exact (h.1 [1]).mpr ⟨1, 10, by decide +kernel, by decide⟩
  · have h := get_after_run 10 [.store 1 (NodeId.fromBytes [7]) [1], .cleanup 11] 11
      (NodeId.fromBytes [7]) (by decide) (hfits 11)
    apply h.2.1
    intro ⟨value, writtenAt, ttl, hlast, hlt⟩
    have hwrite : lastWrite 10 (NodeId.fromBytes [7])
        [.store 1 (NodeId.fromBytes [7]) [1], .cleanup 11] = some (.stored [1] 1 10) := by
      decide +kernel
    rw [hwrite] at hlast
    cases hlast
    exact absurd hlt (by decide)

end Expiry

end Kademlia
