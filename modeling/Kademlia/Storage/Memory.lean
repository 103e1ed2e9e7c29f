import Mathlib.Data.List.AList
import Kademlia.Lib.Scan
import Kademlia.Node

/-!
# The in-memory storage

A map from keys to entries, each with the time it was written and its time to live.
An entry past its deadline stays in the map until it is overwritten, removed or
cleaned up, and `get` does not return it.  The name of a storage is only logged.
-/

namespace Kademlia

open Lib

/-- A `std::time::Instant` in nanoseconds. -/
abbrev Instant : Type := Nat

/-- The instants a 64-bit second count can represent. -/
def instantLimit : Nat := 2 ^ 63 * 1000000000

/-- `Instant + Duration`, which panics when the sum cannot be represented. -/
def Instant.add (t : Instant) (d : Duration) : Outcome Instant :=
  if t + d < instantLimit then .ok (t + d)
  else .error (.panic "overflow when adding duration to instant")

abbrev Value : Type := List UInt8

def defaultTtl : Duration := Duration.fromSecs 86400

structure StorageEntry where
  value : Value
  timestamp : Instant
  ttl : Duration
deriving DecidableEq

structure MemoryStorage where
  storage : AList fun _ : NodeId => StorageEntry
  defaultTtl : Duration

namespace MemoryStorage

def withTtl (ttl : Duration) : MemoryStorage := { storage := ∅, defaultTtl := ttl }

def new : MemoryStorage := withTtl Kademlia.defaultTtl

def withName (_name : String) : MemoryStorage := withTtl Kademlia.defaultTtl

def withNameAndTtl (_name : String) (ttl : Duration) : MemoryStorage := withTtl ttl

/-- The derived `Default`, with the default `Duration`, which is zero. -/
def default : MemoryStorage := { storage := ∅, defaultTtl := 0 }

def storeWithTtl (s : MemoryStorage) (now : Instant) (key : NodeId) (value : Value)
    (ttl : Duration) : Outcome Unit × MemoryStorage :=
  let entry := { value := value, timestamp := now, ttl := ttl }
  (.ok (), { s with storage := s.storage.insert key entry })

def store (s : MemoryStorage) (now : Instant) (key : NodeId) (value : Value) :
    Outcome Unit × MemoryStorage :=
  s.storeWithTtl now key value s.defaultTtl

def get (s : MemoryStorage) (now : Instant) (key : NodeId) : Outcome Value :=
  match s.storage.lookup key with
  | none => .error (.err .valueNotFound)
  | some entry =>
    match entry.timestamp.add entry.ttl with
    | .error fault => .error fault
    | .ok deadline =>
      if now < deadline then .ok entry.value else .error (.err .valueNotFound)

def remove (s : MemoryStorage) (key : NodeId) : Outcome Unit × MemoryStorage :=
  match s.storage.lookup key with
  | some _ => (.ok (), { s with storage := s.storage.erase key })
  | none => (.error (.err .valueNotFound), s)

/-- The test of `cleanup`: the deadline of the entry is later than the clock. -/
def unexpired (now : Instant) (entry : StorageEntry) : Outcome Bool :=
  match entry.timestamp.add entry.ttl with
  | .error fault => .error fault
  | .ok deadline => .ok (decide (now < deadline))

def cleanup (s : MemoryStorage) (now : Instant) : Outcome Unit × MemoryStorage :=
  let kept := retainM (fun entry => unexpired now entry.2) s.storage.entries
  (kept.1, { s with storage :=
    { entries := kept.2, nodupKeys := s.storage.nodupKeys.sublist (retainM_sublist _ _) } })

def keys (s : MemoryStorage) : List NodeId := s.storage.keys

/-! ## The value held for a key -/

/-- The value in the map, expired or not. -/
def held (s : MemoryStorage) (key : NodeId) : Option Value :=
  (s.storage.lookup key).map StorageEntry.value

theorem held_store (s : MemoryStorage) (now : Instant) (key : NodeId) (value : Value)
    (key' : NodeId) :
    (s.store now key value).2.held key' = if key = key' then some value else s.held key' := by
  by_cases h : key = key'
  · subst h
    simp [held, store, storeWithTtl]
  · simp [held, store, storeWithTtl, AList.lookup_insert_ne (Ne.symm h), h]

theorem held_remove (s : MemoryStorage) (key key' : NodeId) :
    (s.remove key).2.held key' = if key = key' then none else s.held key' := by
  unfold remove
  rcases hlookup : s.storage.lookup key with _ | entry
  · by_cases h : key = key'
    · subst h
      simp [held, hlookup]
    · simp [h]
  · by_cases h : key = key'
    · subst h
      simp [held]
    · simp [held, AList.lookup_erase_ne (Ne.symm h), h]

/-! ## The value returned for a key -/

/-- The outcomes of `get`: there is no entry, or there is one whose deadline is ahead,
reached, or later than any instant. -/
inductive GetSpec (s : MemoryStorage) (now : Instant) (key : NodeId) : Outcome Value → Prop where
  | missing (hlookup : s.storage.lookup key = none) :
      GetSpec s now key (.error (.err .valueNotFound))
  | found {entry : StorageEntry} (hlookup : s.storage.lookup key = some entry)
      (hfits : entry.timestamp + entry.ttl < instantLimit)
      (hnow : now < entry.timestamp + entry.ttl) : GetSpec s now key (.ok entry.value)
  | expired {entry : StorageEntry} (hlookup : s.storage.lookup key = some entry)
      (hfits : entry.timestamp + entry.ttl < instantLimit)
      (hnow : ¬ now < entry.timestamp + entry.ttl) :
      GetSpec s now key (.error (.err .valueNotFound))
  | endless {entry : StorageEntry} (hlookup : s.storage.lookup key = some entry)
      (hfits : ¬ entry.timestamp + entry.ttl < instantLimit) :
      GetSpec s now key (.error (.panic "overflow when adding duration to instant"))

theorem get_spec (s : MemoryStorage) (now : Instant) (key : NodeId) :
    GetSpec s now key (s.get now key) := by
  unfold get Instant.add
  cases hlookup : s.storage.lookup key with
  | none => exact .missing hlookup
  | some entry =>
    by_cases hfits : entry.timestamp + entry.ttl < instantLimit
    · by_cases hnow : now < entry.timestamp + entry.ttl
      · simp only [if_pos hfits, if_pos hnow]
        exact .found hlookup hfits hnow
      · simp only [if_pos hfits, if_neg hnow]
        exact .expired hlookup hfits hnow
    · simp only [if_neg hfits]
      exact .endless hlookup hfits

theorem get_eq_ok_iff {s : MemoryStorage} {now : Instant} {key : NodeId} {value : Value} :
    s.get now key = .ok value ↔ ∃ entry, s.storage.lookup key = some entry ∧
      entry.value = value ∧ entry.timestamp + entry.ttl < instantLimit ∧
      now < entry.timestamp + entry.ttl := by
  have hspec := get_spec s now key
  generalize s.get now key = result at hspec
  cases hspec with
  | missing hlookup => simp [hlookup]
  | found hlookup hfits hnow => simp [hlookup, hfits, hnow]
  | expired hlookup hfits hnow => simp [hlookup, hnow]
  | endless hlookup hfits => simp [hlookup, hfits]

/-- A `get` fails because it finds nothing, or by a panic when the deadline cannot be
represented. -/
theorem get_eq_error {s : MemoryStorage} {now : Instant} {key : NodeId} {fault : Fault}
    (h : s.get now key = .error fault) :
    fault = .err .valueNotFound ∨ (∃ message, fault = .panic message) ∧
      ∃ entry, s.storage.lookup key = some entry ∧
        ¬ entry.timestamp + entry.ttl < instantLimit := by
  have hspec := get_spec s now key
  rw [h] at hspec
  cases hspec with
  | missing _ => exact .inl rfl
  | expired _ _ _ => exact .inl rfl
  | endless hlookup hfits => exact .inr ⟨⟨_, rfl⟩, _, hlookup, hfits⟩

/-- What is not found is not there or has expired. -/
theorem get_eq_notFound_iff {s : MemoryStorage} {now : Instant} {key : NodeId} :
    s.get now key = .error (.err .valueNotFound) ↔ ∀ entry, s.storage.lookup key = some entry →
      entry.timestamp + entry.ttl < instantLimit ∧ entry.timestamp + entry.ttl ≤ now := by
  have hspec := get_spec s now key
  generalize s.get now key = result at hspec
  cases hspec with
  | missing hlookup => simp [hlookup]
  | found hlookup hfits hnow => simp [hlookup, hnow]
  | expired hlookup hfits hnow => simp [hlookup, hfits, Nat.not_lt.mp hnow]
  | endless hlookup hfits => simp [hlookup, hfits]

/-- An entry that is not found has expired. -/
theorem le_of_get_eq_notFound {s : MemoryStorage} {now : Instant} {key : NodeId}
    {entry : StorageEntry} (h : s.get now key = .error (.err .valueNotFound))
    (hlookup : s.storage.lookup key = some entry) : entry.timestamp + entry.ttl ≤ now :=
  (get_eq_notFound_iff.mp h entry hlookup).2

theorem get_storeWithTtl_self_eq_ok_iff {s : MemoryStorage} {now t : Instant} {key : NodeId}
    {value value' : Value} {ttl : Duration} :
    (s.storeWithTtl now key value ttl).2.get t key = .ok value' ↔
      value = value' ∧ now + ttl < instantLimit ∧ t < now + ttl := by
  rw [get_eq_ok_iff]
  simp [storeWithTtl]

theorem get_storeWithTtl_ne (s : MemoryStorage) (now t : Instant) {key key' : NodeId}
    (value : Value) (ttl : Duration) (h : key' ≠ key) :
    (s.storeWithTtl now key value ttl).2.get t key' = s.get t key' := by
  simp only [get, storeWithTtl, AList.lookup_insert_ne h]

@[simp] theorem remove_defaultTtl (s : MemoryStorage) (key : NodeId) :
    (s.remove key).2.defaultTtl = s.defaultTtl := by
  unfold remove
  split <;> rfl

theorem lookup_storeWithTtl (s : MemoryStorage) (now : Instant) (key key' : NodeId) (value : Value)
    (ttl : Duration) :
    (s.storeWithTtl now key value ttl).2.storage.lookup key' =
      if key = key' then some { value := value, timestamp := now, ttl := ttl }
      else s.storage.lookup key' := by
  by_cases h : key = key'
  · subst h
    rw [if_pos rfl]
    exact AList.lookup_insert _
  · rw [if_neg h]
    exact AList.lookup_insert_ne (Ne.symm h)

theorem lookup_remove (s : MemoryStorage) (key key' : NodeId) :
    (s.remove key).2.storage.lookup key' = if key = key' then none else s.storage.lookup key' := by
  unfold remove
  by_cases h : key = key'
  · subst h
    cases hlookup : s.storage.lookup key with
    | none => simp [hlookup]
    | some entry => simp
  · cases s.storage.lookup key with
    | none => simp [h]
    | some entry => simp [h, AList.lookup_erase_ne (Ne.symm h)]

theorem lookup_of_lookup_remove {s : MemoryStorage} {key key' : NodeId} {entry : StorageEntry}
    (h : (s.remove key).2.storage.lookup key' = some entry) :
    s.storage.lookup key' = some entry := by
  unfold remove at h
  split at h
  · by_cases hkey : key' = key
    · subst hkey
      simp at h
    · rwa [AList.lookup_erase_ne hkey] at h
  · exact h

theorem get_of_get_remove {s : MemoryStorage} {key key' : NodeId} {t : Instant} {value : Value}
    (h : (s.remove key).2.get t key' = .ok value) : s.get t key' = .ok value := by
  obtain ⟨entry, hlookup, hentry⟩ := get_eq_ok_iff.mp h
  exact get_eq_ok_iff.mpr ⟨entry, lookup_of_lookup_remove hlookup, hentry⟩

theorem unexpired_of_fits {entry : StorageEntry}
    (hfits : entry.timestamp + entry.ttl < instantLimit) (now : Instant) :
    unexpired now entry = .ok (decide (now < entry.timestamp + entry.ttl)) := by
  simp only [unexpired, Instant.add, if_pos hfits]

theorem unexpired_of_endless {entry : StorageEntry}
    (hfits : ¬ entry.timestamp + entry.ttl < instantLimit) (now : Instant) :
    unexpired now entry = .error (.panic "overflow when adding duration to instant") := by
  simp only [unexpired, Instant.add, if_neg hfits]

/-- A cleanup fails only when a deadline cannot be represented. -/
theorem cleanup_eq_error {s : MemoryStorage} {now : Instant} {fault : Fault}
    (h : (s.cleanup now).1 = .error fault) :
    (∃ message, fault = .panic message) ∧ ∃ key entry, s.storage.lookup key = some entry ∧
      ¬ entry.timestamp + entry.ttl < instantLimit := by
  obtain ⟨⟨key, entry⟩, hmem, htest⟩ := retainM_eq_error h
  by_cases hfits : entry.timestamp + entry.ttl < instantLimit
  · rw [unexpired_of_fits hfits] at htest
    cases htest
  · rw [unexpired_of_endless hfits] at htest
    rw [← Except.error.inj htest]
    exact ⟨⟨_, rfl⟩, key, entry, AList.mem_lookup_iff.mpr hmem, hfits⟩

/-- A cleanup adds no entry, also when it ends in a panic. -/
theorem lookup_of_lookup_cleanup {s : MemoryStorage} {now : Instant} {key : NodeId}
    {entry : StorageEntry} (h : (s.cleanup now).2.storage.lookup key = some entry) :
    s.storage.lookup key = some entry := by
  have hmem : Sigma.mk key entry ∈ (s.cleanup now).2.storage.entries := AList.mem_lookup_iff.mp h
  have hmem' : Sigma.mk key entry ∈ s.storage.entries := (retainM_sublist _ _).subset hmem
  exact AList.mem_lookup_iff.mpr hmem'

theorem get_of_get_cleanup {s : MemoryStorage} {now t : Instant} {key : NodeId} {value : Value}
    (h : (s.cleanup now).2.get t key = .ok value) : s.get t key = .ok value := by
  obtain ⟨entry, hlookup, hentry⟩ := get_eq_ok_iff.mp h
  exact get_eq_ok_iff.mpr ⟨entry, lookup_of_lookup_cleanup hlookup, hentry⟩

end MemoryStorage

end Kademlia
