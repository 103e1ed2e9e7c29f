import Kademlia.Storage.Dual

/-!
# Inserts through the shared handle

`shared_storage` hands out the shared map itself, and the network inserts into it.  Such an
insert is not seen by the memory storage until a `get` copies it there.  A `get` finds it all
the same, but a `cleanup` keeps only the keys of the memory storage, and the result of a
`remove` is that of the memory storage.

The keys of the memory storage are always among those of the shared map, so the only keys
that are treated differently are those that were inserted and not read since.
-/

namespace Kademlia

open Lib

namespace DualStorage

/-- An operation of the trait, or an insert through the map of `shared_storage`. -/
inductive Access where
  | call (op : Op)
  | insert (key : NodeId) (value : Value)

def Access.times : Access → List Instant
  | call op => op.times
  | insert _ _ => []

def access (s : DualStorage) : Access → DualStorage
  | .call op => s.step op
  | .insert key value => { s with sharedStorage := s.sharedStorage.insert key value }

/-- Whether an access inserts a key through the handle or removes it. -/
def Access.inserts (key : NodeId) : Access → Option Bool
  | insert key' _ => if key' = key then some true else none
  | call (.remove key') => if key' = key then some false else none
  | call _ => none

/-- The key was inserted through the handle and not removed since. -/
def Inserted (key : NodeId) (log : List Access) : Prop :=
  latest (Access.inserts key) log = some true

instance (key : NodeId) (log : List Access) : Decidable (Inserted key log) :=
  inferInstanceAs (Decidable (_ = _))

def Holds (s : DualStorage) (key : NodeId) : Prop :=
  key ∈ s.memoryStorage.storage ∨ key ∈ s.sharedStorage

instance (s : DualStorage) (key : NodeId) : Decidable (s.Holds key) :=
  inferInstanceAs (Decidable (_ ∨ _))

/-- A `cleanup` removes no key that was inserted through the handle, unless it is stored with
a time to live that has passed, and a `remove` succeeds exactly when a `get` would. -/
def FirstClass (s : DualStorage × List Access) : Access → Prop
  | .call (.cleanup now) => ∀ key, Inserted key s.2 →
      (∀ entry, s.1.memoryStorage.storage.lookup key = some entry →
        now < entry.timestamp + entry.ttl) →
      s.1.Holds key → (s.1.cleanup now).2.Holds key
  | .call (.remove key) => ∀ now writtenAt,
      (s.1.remove key).1 = .ok () ↔ ∃ value, (s.1.get now writtenAt key).1 = .ok value
  | _ => True

/-- The memory storage has the keys that decide the operation.  For a `cleanup` these are the
keys inserted through the handle, and with a deadline that cannot be represented it panics
before it comes to the shared map. -/
def Synced (s : DualStorage × List Access) : Access → Prop
  | .call (.cleanup _) => s.1.memoryStorage.Fits →
      ∀ key, Inserted key s.2 → key ∈ s.1.sharedStorage → key ∈ s.1.memoryStorage.storage
  | .call (.remove key) =>
      (key ∈ s.1.sharedStorage → key ∈ s.1.memoryStorage.storage) ∧
        ∀ entry, s.1.memoryStorage.storage.lookup key = some entry →
          entry.timestamp + entry.ttl < instantLimit
  | _ => True

/-! ## Keys of the two maps -/

end DualStorage

namespace MemoryStorage

variable {s : MemoryStorage} {key key' : NodeId}

theorem mem_remove : key' ∈ (s.remove key).2.storage ↔ key' ≠ key ∧ key' ∈ s.storage := by
  unfold remove
  cases hlookup : s.storage.lookup key with
  | none =>
    have hkey : key ∉ s.storage := AList.lookup_eq_none.mp hlookup
    constructor
    · intro h
      refine ⟨?_, h⟩
      rintro rfl
      exact hkey h
    · exact And.right
  | some entry => exact AList.mem_erase

theorem remove_eq_ok_iff : (s.remove key).1 = .ok () ↔ key ∈ s.storage := by
  rw [← AList.lookup_isSome]
  unfold remove
  cases s.storage.lookup key with
  | none => simp
  | some entry => simp

theorem mem_of_mem_cleanup {now : Instant} (h : key ∈ (s.cleanup now).2.storage) :
    key ∈ s.storage := by
  obtain ⟨entry, hlookup⟩ := Option.isSome_iff_exists.mp (AList.lookup_isSome.mpr h)
  rw [← AList.lookup_isSome, lookup_of_lookup_cleanup hlookup]
  rfl

end MemoryStorage

namespace DualStorage

variable {s : DualStorage} {key : NodeId}

theorem mem_retainKeys {shared : AList fun _ : NodeId => Value} {validKeys : List NodeId} :
    key ∈ retainKeys shared validKeys ↔ key ∈ validKeys ∧ key ∈ shared := by
  rw [← AList.lookup_isSome, ← AList.lookup_isSome, lookup_retainKeys]
  by_cases hvalid : key ∈ validKeys
  · simp [hvalid]
  · simp [hvalid]

/-- A cleanup cuts the shared map down to the keys of the memory storage, or it panics and
leaves it alone. -/
theorem cleanup_cases (s : DualStorage) (now : Instant) :
    s.memoryStorage.Fits ∧ (s.cleanup now).2.sharedStorage =
        retainKeys s.sharedStorage (s.memoryStorage.cleanup now).2.keys ∨
      ¬ s.memoryStorage.Fits ∧ (s.cleanup now).2.sharedStorage = s.sharedStorage := by
  unfold cleanup
  rcases hresult : s.memoryStorage.cleanup now with ⟨fault | result, memoryStorage⟩
  · refine .inr ⟨?_, rfl⟩
    intro hfits
    obtain ⟨-, key, entry, hlookup, hpanics⟩ :=
      MemoryStorage.cleanup_eq_error (congrArg Prod.fst hresult)
    exact hpanics (hfits key entry hlookup)
  · exact .inl ⟨MemoryStorage.cleanup_eq_ok_iff.mp (congrArg Prod.fst hresult), rfl⟩

/-- The shared map has every key of the memory storage. -/
def Covers (s : DualStorage) : Prop := ∀ key ∈ s.memoryStorage.storage, key ∈ s.sharedStorage

theorem covers_new : new.Covers := fun _ h => nomatch h

theorem Covers.step (h : s.Covers) (op : Op) : (s.step op).Covers := by
  intro key hkey
  cases op with
  | store now key' value =>
    rcases (AList.mem_insert _).mp hkey with rfl | hkey
    · exact (AList.mem_insert _).mpr (.inl rfl)
    · exact (AList.mem_insert _).mpr (.inr (h key hkey))
  | get now writtenAt key' =>
    rcases s.get_cases now writtenAt key' with ⟨hget, -⟩ | ⟨value, -, hshared, hget⟩
    · rw [DualStorage.step, hget] at hkey ⊢
      exact h key hkey
    · rw [DualStorage.step, hget] at hkey ⊢
      rcases (AList.mem_insert _).mp hkey with rfl | hkey
      · rw [← AList.lookup_isSome, hshared]
        rfl
      · exact h key hkey
  | remove key' =>
    obtain ⟨hne, hkey⟩ := MemoryStorage.mem_remove.mp hkey
    exact AList.mem_erase.mpr ⟨hne, h key hkey⟩
  | cleanup now =>
    rw [DualStorage.step, cleanup_memoryStorage] at hkey
    have hshared := h key (MemoryStorage.mem_of_mem_cleanup hkey)
    rcases s.cleanup_cases now with ⟨-, hcleaned⟩ | ⟨-, hcleaned⟩
    · rw [DualStorage.step, hcleaned]
      exact mem_retainKeys.mpr ⟨hkey, hshared⟩
    · rw [DualStorage.step, hcleaned]
      exact hshared

theorem Covers.access (h : s.Covers) (access : Access) : (s.access access).Covers := by
  cases access with
  | call op => exact h.step op
  | insert key value =>
    intro key' hkey'
    exact (AList.mem_insert _).mpr (.inr (h key' hkey'))

/-! ## Cleanups and removals -/

theorem Covers.mem_of_holds (h : s.Covers) (hholds : s.Holds key) : key ∈ s.sharedStorage :=
  hholds.elim (h key) id

/-- A cleanup that reaches the shared map keeps the keys with an entry that has not expired,
and no others. -/
theorem holds_cleanup_iff (hfits : s.memoryStorage.Fits) (now : Instant) :
    (s.cleanup now).2.Holds key ↔ ∃ entry, s.memoryStorage.storage.lookup key = some entry ∧
      now < entry.timestamp + entry.ttl := by
  have hkept : (s.cleanup now).2.Holds key ↔ key ∈ (s.memoryStorage.cleanup now).2.storage := by
    rw [Holds, cleanup_memoryStorage]
    rcases s.cleanup_cases now with ⟨-, hcleaned⟩ | ⟨hpanics, -⟩
    · rw [hcleaned, mem_retainKeys]
      constructor
      · rintro (hkey | ⟨hkey, -⟩)
        · exact hkey
        · exact hkey
      · exact .inl
    · exact absurd hfits hpanics
  rw [hkept, ← AList.lookup_isSome, Option.isSome_iff_exists]
  exact exists_congr fun entry => hfits.lookup_cleanup now key entry

/-- A `get` succeeds for every key of the shared map, expired or not, unless it panics. -/
theorem Covers.get_eq_ok_iff (h : s.Covers) {now writtenAt : Instant} :
    (∃ value, (s.get now writtenAt key).1 = .ok value) ↔
      key ∈ s.sharedStorage ∧ ∀ entry, s.memoryStorage.storage.lookup key = some entry →
        entry.timestamp + entry.ttl < instantLimit := by
  constructor
  · rintro ⟨value, hvalue⟩
    rcases s.get_cases now writtenAt key with ⟨hget, -⟩ | ⟨value', hnone, hshared, -⟩
    · rw [hget] at hvalue
      obtain ⟨entry, hlookup, -, hfits, -⟩ := MemoryStorage.get_eq_ok_iff.mp hvalue
      refine ⟨h key ?_, ?_⟩
      · rw [← AList.lookup_isSome, hlookup]
        rfl
      · intro entry' hlookup'
        rw [← Option.some.inj (hlookup.symm.trans hlookup')]
        exact hfits
    · refine ⟨?_, ?_⟩
      · rw [← AList.lookup_isSome, hshared]
        rfl
      · intro entry hlookup
        exact (MemoryStorage.get_eq_notFound_iff.mp hnone entry hlookup).1
  · rintro ⟨hkey, hfits⟩
    obtain ⟨value, hvalue⟩ := Option.isSome_iff_exists.mp (AList.lookup_isSome.mpr hkey)
    rcases s.get_cases now writtenAt key with ⟨hget, hshared⟩ | ⟨value', -, -, hget⟩
    · cases hmemory : s.memoryStorage.get now key with
      | ok value' => exact ⟨value', by rw [hget, hmemory]⟩
      | error fault =>
        rcases MemoryStorage.get_eq_error hmemory with rfl | ⟨-, entry, hlookup, hpanics⟩
        · rw [hshared hmemory] at hvalue
          cases hvalue
        · exact absurd (hfits entry hlookup) hpanics
    · exact ⟨value', by rw [hget]⟩

theorem Covers.firstClass_cleanup_iff {log : List Access} (h : s.Covers) (now : Instant) :
    FirstClass (s, log) (.call (.cleanup now)) ↔ Synced (s, log) (.call (.cleanup now)) := by
  constructor
  · intro hkept hfits key hinserted hshared
    by_contra hmemory
    have hlookup := AList.lookup_eq_none.mpr hmemory
    have hholds : (s.cleanup now).2.Holds key := by
      refine hkept key hinserted ?_ (.inr hshared)
      intro entry hentry
      rw [hlookup] at hentry
      cases hentry
    obtain ⟨entry, hentry, -⟩ := (holds_cleanup_iff hfits now).mp hholds
    rw [hlookup] at hentry
    cases hentry
  · intro hsynced key hinserted hunexpired hholds
    have hshared := h.mem_of_holds hholds
    by_cases hfits : s.memoryStorage.Fits
    · have hmemory := hsynced hfits key hinserted hshared
      obtain ⟨entry, hlookup⟩ := Option.isSome_iff_exists.mp (AList.lookup_isSome.mpr hmemory)
      exact (holds_cleanup_iff hfits now).mpr ⟨entry, hlookup, hunexpired entry hlookup⟩
    · rcases s.cleanup_cases now with ⟨hfits', -⟩ | ⟨-, hcleaned⟩
      · exact absurd hfits' hfits
      · refine .inr ?_
        rw [hcleaned]
        exact hshared

theorem Covers.firstClass_remove_iff {log : List Access} (h : s.Covers) (key : NodeId) :
    FirstClass (s, log) (.call (.remove key)) ↔ Synced (s, log) (.call (.remove key)) := by
  have hremoved : (s.remove key).1 = .ok () ↔ key ∈ s.memoryStorage.storage :=
    MemoryStorage.remove_eq_ok_iff
  constructor
  · intro hremove
    have hiff := (hremove 0 0).symm.trans hremoved
    rw [h.get_eq_ok_iff] at hiff
    have hfits : ∀ entry, s.memoryStorage.storage.lookup key = some entry →
        entry.timestamp + entry.ttl < instantLimit := by
      intro entry hlookup
      have hmemory : key ∈ s.memoryStorage.storage := by
        rw [← AList.lookup_isSome, hlookup]
        rfl
      exact (hiff.mpr hmemory).2 entry hlookup
    exact ⟨fun hshared => hiff.mp ⟨hshared, hfits⟩, hfits⟩
  · rintro ⟨hsynced, hfits⟩ now writtenAt
    rw [hremoved, h.get_eq_ok_iff]
    exact ⟨fun hmemory => ⟨h key hmemory, hfits⟩, fun hshared => hsynced hshared.1⟩

theorem Covers.firstClass_iff {s : DualStorage × List Access} (h : s.1.Covers) (access : Access) :
    FirstClass s access ↔ Synced s access := by
  obtain ⟨s, log⟩ := s
  cases access with
  | call op =>
    cases op with
    | cleanup now => exact h.firstClass_cleanup_iff now
    | remove key => exact h.firstClass_remove_iff key
    | store now key value => exact Iff.rfl
    | get now writtenAt key => exact Iff.rfl
  | insert key value => exact Iff.rfl

end DualStorage

end Kademlia
