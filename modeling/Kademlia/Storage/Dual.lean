import Kademlia.Lib.Run
import Kademlia.Storage.Expiry

/-!
# The dual storage

The dual storage keeps every value twice, in a memory storage that expires its entries and
in a map shared with the network, whose values carry no time.  Each of its operations
writes both copies, and `agree_throughout` says that they hold the same values for the same
keys after any operations.

The copy without times is what breaks the expiry.  A `get` of an entry that has expired and
was not cleaned up finds the value in the shared map, returns it, and writes it back with a
new time to live.
-/

namespace Kademlia

open Lib

/-- The values of a storage without their times. -/
def MemoryStorage.createShared (s : MemoryStorage) : AList fun _ : NodeId => Value :=
  s.storage.entries.foldl (fun shared entry => shared.insert entry.1 entry.2.value) ∅

structure DualStorage where
  memoryStorage : MemoryStorage
  sharedStorage : AList fun _ : NodeId => Value

namespace DualStorage

def new : DualStorage :=
  { memoryStorage := .new, sharedStorage := MemoryStorage.new.createShared }

def store (s : DualStorage) (now : Instant) (key : NodeId) (value : Value) :
    Outcome Unit × DualStorage :=
  let (result, memoryStorage) := s.memoryStorage.store now key value
  (result, { memoryStorage := memoryStorage, sharedStorage := s.sharedStorage.insert key value })

/-- `now` is the reading of the clock by the memory storage, and `writtenAt` the later one
when the value is written back. -/
def get (s : DualStorage) (now writtenAt : Instant) (key : NodeId) : Outcome Value × DualStorage :=
  match s.memoryStorage.get now key with
  | .ok value => (.ok value, s)
  | .error (.panic message) => (.error (.panic message), s)
  | .error _ =>
    match s.sharedStorage.lookup key with
    | some value =>
      (.ok value, { s with memoryStorage := (s.memoryStorage.store writtenAt key value).2 })
    | none => (.error (.err .valueNotFound), s)

def remove (s : DualStorage) (key : NodeId) : Outcome Unit × DualStorage :=
  let (result, memoryStorage) := s.memoryStorage.remove key
  (result, { memoryStorage := memoryStorage, sharedStorage := s.sharedStorage.erase key })

def keys (s : DualStorage) : List NodeId := s.memoryStorage.keys

/-- `retain` on the shared map, with the keys that are still valid. -/
def retainKeys (shared : AList fun _ : NodeId => Value) (validKeys : List NodeId) :
    AList fun _ : NodeId => Value :=
  { entries := shared.entries.filter fun entry => validKeys.contains entry.1
    nodupKeys := shared.nodupKeys.sublist List.filter_sublist }

def cleanup (s : DualStorage) (now : Instant) : Outcome Unit × DualStorage :=
  match s.memoryStorage.cleanup now with
  | (.error fault, memoryStorage) => (.error fault, { s with memoryStorage := memoryStorage })
  | (.ok _, memoryStorage) =>
    (.ok (), { memoryStorage := memoryStorage,
               sharedStorage := retainKeys s.sharedStorage memoryStorage.keys })

/-- The operations of the `Storage` trait that change the storage. -/
inductive Op where
  | store (now : Instant) (key : NodeId) (value : Value)
  | get (now writtenAt : Instant) (key : NodeId)
  | remove (key : NodeId)
  | cleanup (now : Instant)

/-- The readings of the clock, in order. -/
def Op.times : Op → List Instant
  | store now _ _ | cleanup now => [now]
  | get now writtenAt _ => [now, writtenAt]
  | remove _ => []

/-- The clock does not go back. -/
def Op.NonDecreasing (ops : List Op) : Prop := (ops.flatMap Op.times).Pairwise (· ≤ ·)

/-- Deadlines from the readings of an operation on can be represented. -/
def Op.Fits (op : Op) : Prop := ∀ now ∈ op.times, now + defaultTtl < instantLimit

def step (s : DualStorage) : Op → DualStorage
  | .store now key value => (s.store now key value).2
  | .get now writtenAt key => (s.get now writtenAt key).2
  | .remove key => (s.remove key).2
  | .cleanup now => (s.cleanup now).2

/-- The operation does not panic. -/
def Returns (s : DualStorage) : Op → Prop
  | .store now key value => ∀ message, (s.store now key value).1 ≠ .error (.panic message)
  | .get now writtenAt key => ∀ message, (s.get now writtenAt key).1 ≠ .error (.panic message)
  | .remove key => ∀ message, (s.remove key).1 ≠ .error (.panic message)
  | .cleanup now => ∀ message, (s.cleanup now).1 ≠ .error (.panic message)

/-! ## The two copies agree -/

/-- The same keys in both copies, with the same value for each. -/
structure Agree (s : DualStorage) : Prop where
  keys : ∀ key, key ∈ s.memoryStorage.storage ↔ key ∈ s.sharedStorage
  values : ∀ key entry value, s.memoryStorage.storage.lookup key = some entry →
    s.sharedStorage.lookup key = some value → entry.value = value

theorem agree_iff {s : DualStorage} :
    s.Agree ↔ ∀ key, s.memoryStorage.held key = s.sharedStorage.lookup key := by
  constructor
  · intro h key
    have hkeys := h.keys key
    rw [← AList.lookup_isSome, ← AList.lookup_isSome] at hkeys
    rw [MemoryStorage.held]
    cases hentry : s.memoryStorage.storage.lookup key with
    | none =>
      rw [hentry] at hkeys
      cases hvalue : s.sharedStorage.lookup key with
      | none => rfl
      | some value => simp [hvalue] at hkeys
    | some entry =>
      rw [hentry] at hkeys
      obtain ⟨value, hvalue⟩ := Option.isSome_iff_exists.mp (hkeys.mp rfl)
      rw [hvalue, Option.map_some, h.values key entry value hentry hvalue]
  · intro h
    constructor
    · intro key
      rw [← AList.lookup_isSome, ← AList.lookup_isSome, ← h key, MemoryStorage.held,
        Option.isSome_map]
    · intro key entry value hentry hvalue
      have hkey := h key
      rw [MemoryStorage.held, hentry, hvalue] at hkey
      exact Option.some.inj hkey

theorem agree_new : new.Agree := agree_iff.mpr fun _ => rfl

theorem lookup_retainKeys (shared : AList fun _ : NodeId => Value) (validKeys : List NodeId)
    (key : NodeId) :
    (retainKeys shared validKeys).lookup key =
      if key ∈ validKeys then shared.lookup key else none := by
  apply Option.ext
  intro value
  have hleft : (retainKeys shared validKeys).lookup key = some value ↔
      Sigma.mk key value ∈ (retainKeys shared validKeys).entries := AList.mem_lookup_iff
  have hright : shared.lookup key = some value ↔ Sigma.mk key value ∈ shared.entries :=
    AList.mem_lookup_iff
  by_cases hvalid : key ∈ validKeys
  · rw [if_pos hvalid, hleft, hright]
    simp [retainKeys, hvalid]
  · rw [if_neg hvalid, hleft]
    simp [retainKeys, hvalid]

/-- A `get` leaves the storage alone and answers as the memory storage does, or it finds
nothing there and takes the value of the shared map. -/
theorem get_cases (s : DualStorage) (now writtenAt : Instant) (key : NodeId) :
    s.get now writtenAt key = (s.memoryStorage.get now key, s) ∧
        (s.memoryStorage.get now key = .error (.err .valueNotFound) →
          s.sharedStorage.lookup key = none) ∨
      ∃ value, s.memoryStorage.get now key = .error (.err .valueNotFound) ∧
        s.sharedStorage.lookup key = some value ∧
        s.get now writtenAt key =
          (.ok value, { s with memoryStorage := (s.memoryStorage.store writtenAt key value).2 }) := by
  unfold get
  cases hget : s.memoryStorage.get now key with
  | ok value =>
    refine .inl ⟨rfl, ?_⟩
    intro h
    cases h
  | error fault =>
    rcases MemoryStorage.get_eq_error hget with rfl | ⟨⟨message, rfl⟩, -⟩
    · cases hshared : s.sharedStorage.lookup key with
      | none => exact .inl ⟨rfl, fun _ => rfl⟩
      | some value => exact .inr ⟨value, rfl, rfl, rfl⟩
    · refine .inl ⟨rfl, ?_⟩
      intro h
      cases h

theorem cleanup_memoryStorage (s : DualStorage) (now : Instant) :
    (s.cleanup now).2.memoryStorage = (s.memoryStorage.cleanup now).2 := by
  unfold cleanup
  split
  · rename_i hresult
    rw [hresult]
  · rename_i hresult
    rw [hresult]

/-- A cleanup that does not panic cleans up both copies. -/
theorem cleanup_of_returns {s : DualStorage} {now : Instant}
    (h : ∀ message, (s.cleanup now).1 ≠ .error (.panic message)) :
    (s.cleanup now).2 =
      { memoryStorage := (s.memoryStorage.cleanup now).2
        sharedStorage := retainKeys s.sharedStorage (s.memoryStorage.cleanup now).2.keys } := by
  have hpanic : ∀ fault, (s.memoryStorage.cleanup now).1 = .error fault →
      ∃ message, fault = .panic message := by
    intro fault hfault
    exact (MemoryStorage.cleanup_eq_error hfault).1
  unfold cleanup at h ⊢
  rcases hresult : s.memoryStorage.cleanup now with ⟨fault | result, memoryStorage⟩
  · rw [hresult] at h hpanic
    obtain ⟨message, rfl⟩ := hpanic fault rfl
    exact absurd rfl (h message)
  · rfl

theorem Agree.step {s : DualStorage} (h : s.Agree) {op : Op} (hreturns : s.Returns op) :
    (s.step op).Agree := by
  have hheld := agree_iff.mp h
  refine agree_iff.mpr fun key => ?_
  cases op with
  | store now key' value =>
    show (s.memoryStorage.store now key' value).2.held key =
      (s.sharedStorage.insert key' value).lookup key
    rw [MemoryStorage.held_store]
    by_cases hkey : key' = key
    · subst hkey
      rw [if_pos rfl, AList.lookup_insert]
    · rw [if_neg hkey, AList.lookup_insert_ne (Ne.symm hkey), hheld]
  | get now writtenAt key' =>
    rcases s.get_cases now writtenAt key' with ⟨hget, -⟩ | ⟨value, -, hshared, hget⟩
    · rw [DualStorage.step, hget]
      exact hheld key
    · rw [DualStorage.step, hget, MemoryStorage.held_store]
      by_cases hkey : key' = key
      · subst hkey
        rw [if_pos rfl, hshared]
      · rw [if_neg hkey, hheld]
  | remove key' =>
    show (s.memoryStorage.remove key').2.held key = (s.sharedStorage.erase key').lookup key
    rw [MemoryStorage.held_remove]
    by_cases hkey : key' = key
    · subst hkey
      rw [if_pos rfl, AList.lookup_erase]
    · rw [if_neg hkey, AList.lookup_erase_ne (Ne.symm hkey), hheld]
  | cleanup now =>
    rw [DualStorage.step, cleanup_of_returns hreturns, lookup_retainKeys, MemoryStorage.held]
    have hmem : key ∈ (s.memoryStorage.cleanup now).2.keys ↔
        ((s.memoryStorage.cleanup now).2.storage.lookup key).isSome = true :=
      AList.lookup_isSome.symm
    rw [if_congr hmem rfl rfl]
    cases hkept : (s.memoryStorage.cleanup now).2.storage.lookup key with
    | none => rfl
    | some entry =>
      rw [Option.isSome_some, if_pos rfl, ← hheld, MemoryStorage.held,
        MemoryStorage.lookup_of_lookup_cleanup hkept]

/-- Every deadline in the memory storage can be represented, and those of the entries to
come are a time to live away. -/
structure Timed (s : DualStorage) : Prop where
  fits : s.memoryStorage.Fits
  ttl : s.memoryStorage.defaultTtl = defaultTtl

theorem Timed.store {s : DualStorage} (h : s.Timed) {now : Instant} (key : NodeId) (value : Value)
    (hnow : now + defaultTtl < instantLimit) :
    (s.memoryStorage.store now key value).2.Fits ∧
      (s.memoryStorage.store now key value).2.defaultTtl = defaultTtl := by
  refine ⟨h.fits.storeWithTtl key value ?_, h.ttl⟩
  rw [h.ttl]
  exact hnow

theorem Timed.step {s : DualStorage} (h : s.Timed) {op : Op} (hop : op.Fits) : (s.step op).Timed := by
  cases op with
  | store now key value =>
    obtain ⟨hfits, httl⟩ := h.store key value (hop now List.mem_cons_self)
    exact ⟨hfits, httl⟩
  | get now writtenAt key =>
    rcases s.get_cases now writtenAt key with ⟨hget, -⟩ | ⟨value, -, -, hget⟩
    · rw [DualStorage.step, hget]
      exact h
    · obtain ⟨hfits, httl⟩ := h.store key value
        (hop writtenAt (List.mem_cons_of_mem now List.mem_cons_self))
      rw [DualStorage.step, hget]
      exact ⟨hfits, httl⟩
  | remove key =>
    exact ⟨h.fits.remove key, (s.memoryStorage.remove_defaultTtl key).trans h.ttl⟩
  | cleanup now =>
    constructor
    · rw [DualStorage.step, cleanup_memoryStorage]
      exact h.fits.cleanup now
    · rw [DualStorage.step, cleanup_memoryStorage]
      exact h.ttl

/-- Where the deadlines can be represented, no operation panics. -/
theorem Timed.returns {s : DualStorage} (h : s.Timed) (op : Op) : s.Returns op := by
  cases op with
  | store now key value =>
    intro message hpanic
    cases hpanic
  | get now writtenAt key =>
    intro message hpanic
    rcases s.get_cases now writtenAt key with ⟨hget, -⟩ | ⟨value, -, -, hget⟩
    · rw [hget] at hpanic
      rcases MemoryStorage.get_eq_error hpanic with hfault | ⟨-, entry, hlookup, hfits⟩
      · cases hfault
      · exact hfits (h.fits key entry hlookup)
    · rw [hget] at hpanic
      cases hpanic
  | remove key =>
    intro message hpanic
    change (s.memoryStorage.remove key).1 = _ at hpanic
    unfold MemoryStorage.remove at hpanic
    split at hpanic <;> cases hpanic
  | cleanup now =>
    intro message hpanic
    have hmemory : (s.memoryStorage.cleanup now).1 = .error (.panic message) := by
      unfold DualStorage.cleanup at hpanic
      split at hpanic
      · rename_i hresult
        rw [hresult]
        exact hpanic
      · cases hpanic
    obtain ⟨-, key, entry, hlookup, hfits⟩ := MemoryStorage.cleanup_eq_error hmemory
    exact hfits (h.fits key entry hlookup)

theorem timed_new : new.Timed := ⟨MemoryStorage.fits_withTtl defaultTtl, rfl⟩

theorem meets_returns {ops : List Op} (hfits : ∀ op ∈ ops, op.Fits) :
    Meets step Returns new ops := by
  have hallowed : Meets step (fun _ op => op.Fits) new ops :=
    meets_of_forall fun _ op hop => hfits op hop
  exact meets_of_invariant (fun _ _ hs hop => hs.step hop) (fun _ op hs _ => hs.returns op)
    timed_new hallowed

/-- The copies agree in every state of a run whose operations return, and they return where
the times allow the deadlines to be represented. -/
theorem agree_throughout (ops : List Op) :
    (Meets step Returns new ops → Throughout step Agree new ops) ∧
      ((∀ op ∈ ops, op.Fits) → Meets step Returns new ops) := by
  constructor
  · intro h
    exact throughout_of_meets (fun _ _ hs hreturns => hs.step hreturns) agree_new h
  · intro hfits
    exact meets_returns hfits

/-! ## Expiry -/

/-- The time of a `store` of a key. -/
def Op.stores (key : NodeId) : Op → Option Instant
  | store now key' _ => if key' = key then some now else none
  | _ => none

/-- The time of the last `store` of a key. -/
def lastStore (key : NodeId) (ops : List Op) : Option Instant := latest (Op.stores key) ops

/-- What expiry asks of a `get` after some operations: it returns a value only before the
last store of its key has expired, and no deadline is later afterwards. -/
def Honours (s : DualStorage × List Op) : Op → Prop
  | .get now writtenAt key =>
    (∀ value, (s.1.get now writtenAt key).1 = .ok value →
      ∃ storedAt, lastStore key s.2 = some storedAt ∧ now < storedAt + defaultTtl) ∧
    ∀ key' entry', (s.1.get now writtenAt key).2.memoryStorage.storage.lookup key' = some entry' →
      ∃ entry, s.1.memoryStorage.storage.lookup key' = some entry ∧
        entry'.timestamp + entry'.ttl ≤ entry.timestamp + entry.ttl
  | _ => True

/-- The operation does not read an entry that has expired and is still there. -/
def ReadsUnexpired (s : DualStorage) : Op → Prop
  | .get now _ key => ∀ entry, s.memoryStorage.storage.lookup key = some entry →
      now < entry.timestamp + entry.ttl
  | _ => True

/-- The entries are those of the last stores. -/
structure Dated (s : DualStorage × List Op) : Prop where
  agree : s.1.Agree
  ttl : s.1.memoryStorage.defaultTtl = defaultTtl
  entries : ∀ key entry, s.1.memoryStorage.storage.lookup key = some entry →
    lastStore key s.2 = some entry.timestamp ∧ entry.ttl = defaultTtl

theorem dated_new : Dated (new, []) where
  agree := agree_new
  ttl := rfl
  entries := fun _ _ h => nomatch h

/-- An operation that stores nothing for a key keeps its last store. -/
theorem lastStore_concat_of_none {key : NodeId} {op : Op} (h : op.stores key = none)
    (ops : List Op) : lastStore key (ops ++ [op]) = lastStore key ops := by
  rw [lastStore, latest_concat, h]
  rfl

/-- Without expired entries the shared map is not read. -/
theorem get_of_readsUnexpired {s : DualStorage} (h : s.Agree) {now writtenAt : Instant}
    {key : NodeId} (hread : s.ReadsUnexpired (.get now writtenAt key)) :
    s.get now writtenAt key = (s.memoryStorage.get now key, s) := by
  rcases s.get_cases now writtenAt key with ⟨hget, -⟩ | ⟨value, hnone, hshared, -⟩
  · exact hget
  · have hheld := agree_iff.mp h key
    rw [hshared, MemoryStorage.held] at hheld
    obtain ⟨entry, hlookup, -⟩ := Option.map_eq_some_iff.mp hheld
    have hexpired := MemoryStorage.le_of_get_eq_notFound hnone hlookup
    exact absurd (hread entry hlookup) (Nat.not_lt.mpr hexpired)

/-- An entry that is there is returned, expired or not. -/
theorem get_of_lookup {s : DualStorage} (h : s.Agree) {now writtenAt : Instant} {key : NodeId}
    (hreturns : s.Returns (.get now writtenAt key)) {entry : StorageEntry}
    (hlookup : s.memoryStorage.storage.lookup key = some entry) :
    ∃ value, (s.get now writtenAt key).1 = .ok value := by
  rcases s.get_cases now writtenAt key with ⟨hget, hshared⟩ | ⟨value, -, -, hget⟩
  · cases hmemory : s.memoryStorage.get now key with
    | ok value => exact ⟨value, by rw [hget, hmemory]⟩
    | error fault =>
      rcases MemoryStorage.get_eq_error hmemory with rfl | ⟨⟨message, rfl⟩, -⟩
      · have hheld := agree_iff.mp h key
        rw [hshared hmemory, MemoryStorage.held, hlookup] at hheld
        cases hheld
      · exact absurd (by rw [hget, hmemory]) (hreturns message)
  · exact ⟨value, by rw [hget]⟩

theorem Dated.step {s : DualStorage × List Op} (h : Dated s) {op : Op} (hreturns : s.1.Returns op)
    (hread : s.1.ReadsUnexpired op) : Dated (logged DualStorage.step s op) := by
  have hagree := h.agree.step hreturns
  cases op with
  | store now key value =>
    refine ⟨hagree, h.ttl, ?_⟩
    intro key' entry hlookup
    change (s.1.memoryStorage.store now key value).2.storage.lookup key' = some entry at hlookup
    rw [MemoryStorage.store, MemoryStorage.storeWithTtl] at hlookup
    by_cases hkey : key' = key
    · subst hkey
      rw [AList.lookup_insert] at hlookup
      obtain rfl := Option.some.inj hlookup
      refine ⟨?_, h.ttl⟩
      rw [logged, lastStore, latest_concat, Op.stores, if_pos rfl]
      rfl
    · have hstores : (Op.store now key value).stores key' = none := if_neg (Ne.symm hkey)
      rw [AList.lookup_insert_ne hkey] at hlookup
      rw [logged, lastStore_concat_of_none hstores]
      exact h.entries key' entry hlookup
  | get now writtenAt key =>
    rw [logged, DualStorage.step, get_of_readsUnexpired h.agree hread]
    refine ⟨h.agree, h.ttl, ?_⟩
    intro key' entry hlookup
    rw [lastStore_concat_of_none rfl]
    exact h.entries key' entry hlookup
  | remove key =>
    refine ⟨hagree, (s.1.memoryStorage.remove_defaultTtl key).trans h.ttl, ?_⟩
    intro key' entry hlookup
    rw [logged, lastStore_concat_of_none rfl]
    exact h.entries key' entry (MemoryStorage.lookup_of_lookup_remove hlookup)
  | cleanup now =>
    have hmemory := s.1.cleanup_memoryStorage now
    refine ⟨hagree, (congrArg MemoryStorage.defaultTtl hmemory).trans h.ttl, ?_⟩
    intro key' entry hlookup
    rw [logged, DualStorage.step, hmemory] at hlookup
    rw [logged, lastStore_concat_of_none rfl]
    exact h.entries key' entry (MemoryStorage.lookup_of_lookup_cleanup hlookup)

/-- A `get` honours expiry exactly when it reads no expired entry: the value of an expired
one comes from the shared map. -/
theorem Dated.honours_iff {s : DualStorage × List Op} (h : Dated s) {op : Op}
    (hreturns : s.1.Returns op) : Honours s op ↔ s.1.ReadsUnexpired op := by
  cases op with
  | get now writtenAt key =>
    constructor
    · intro ⟨hhonours, _⟩ entry hlookup
      obtain ⟨hstored, httl⟩ := h.entries key entry hlookup
      obtain ⟨value, hvalue⟩ := get_of_lookup h.agree hreturns hlookup
      obtain ⟨storedAt, hlast, hnow⟩ := hhonours value hvalue
      obtain rfl : entry.timestamp = storedAt := Option.some.inj (hstored.symm.trans hlast)
      rw [httl]
      exact hnow
    · intro hread
      rw [Honours, get_of_readsUnexpired h.agree hread]
      refine ⟨?_, ?_⟩
      · intro value hvalue
        obtain ⟨entry, hlookup, -, -, hnow⟩ := MemoryStorage.get_eq_ok_iff.mp hvalue
        obtain ⟨hstored, httl⟩ := h.entries key entry hlookup
        rw [httl] at hnow
        exact ⟨entry.timestamp, hstored, hnow⟩
      · intro key' entry' hlookup
        exact ⟨entry', hlookup, Nat.le_refl _⟩
  | store now key value => exact Iff.rfl
  | remove key => exact Iff.rfl
  | cleanup now => exact Iff.rfl

/-- Expiry is honoured in a run exactly when no `get` of it reads an entry that has expired
and was not cleaned up. -/
theorem honours_iff_readsUnexpired (ops : List Op) (hreturns : Meets step Returns new ops) :
    Meets (logged step) Honours (new, []) ops ↔ Meets step ReadsUnexpired new ops := by
  have hallowed : Meets (logged step) (fun s op => s.1.Returns op) (new, []) ops :=
    meets_logged.mpr hreturns
  have hiff : Meets (logged step) Honours (new, []) ops ↔
      Meets (logged step) (fun s op => s.1.ReadsUnexpired op) (new, []) ops :=
    meets_iff_meets_of_meets (fun s op hs hop hread => hs.step hop hread)
      (fun s op hs hop => hs.honours_iff hop) dated_new hallowed
  exact hiff.trans meets_logged

/-- A value that is stored at the start and read once. -/
def readAt (now : Instant) : List Op :=
  [.store 0 (NodeId.fromBytes [7]) [1], .get now now (NodeId.fromBytes [7])]

theorem meets_returns_readAt {now : Instant} (h : now + defaultTtl < instantLimit) :
    Meets step Returns new (readAt now) := by
  refine meets_returns fun op hop => ?_
  simp only [readAt, List.mem_cons, List.not_mem_nil, or_false] at hop
  rcases hop with rfl | rfl
  · intro t ht
    rw [List.mem_singleton.mp ht]
    exact Nat.lt_of_le_of_lt (Nat.add_le_add_right (Nat.zero_le now) _) h
  · intro t ht
    simp only [Op.times, List.mem_cons, List.not_mem_nil, or_false, or_self] at ht
    rw [ht]
    exact h

theorem lookup_readAt :
    (step new (.store 0 (NodeId.fromBytes [7]) [1])).memoryStorage.storage.lookup
      (NodeId.fromBytes [7]) = some { value := [1], timestamp := 0, ttl := defaultTtl } := by
  decide +kernel

theorem honours_early_read : Meets (logged step) Honours (new, []) (readAt 1) := by
  refine (honours_iff_readsUnexpired (readAt 1) (meets_returns_readAt (by decide))).mpr ?_
  refine ⟨trivial, ?_, trivial⟩
  intro entry hlookup
  rw [← Option.some.inj (lookup_readAt.symm.trans hlookup)]
  decide

/-- A value that is read at its deadline is returned. -/
theorem late_read_not_honoured :
    ¬ ∀ ops : List Op, Op.NonDecreasing ops → Meets step Returns new ops →
      Meets (logged step) Honours (new, []) ops := by
  intro h
  have hreturns : Meets step Returns new (readAt defaultTtl) := meets_returns_readAt (by decide)
  have hclock : Op.NonDecreasing (readAt defaultTtl) := by
    simp [Op.NonDecreasing, readAt, Op.times]
  have hmeets := h (readAt defaultTtl) hclock hreturns
  obtain ⟨storedAt, hlast, hnow⟩ := hmeets.2.1.1 [1] (by decide +kernel)
  obtain rfl : 0 = storedAt := by
    have hzero : lastStore (NodeId.fromBytes [7]) [.store 0 (NodeId.fromBytes [7]) [1]] = some 0 := by
      decide +kernel
    exact Option.some.inj (hzero.symm.trans hlast)
  exact absurd hnow (by decide)

end DualStorage

end Kademlia
