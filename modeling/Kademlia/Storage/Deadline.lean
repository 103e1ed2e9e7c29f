import Kademlia.Storage.Expiry

/-!
# Deadlines beyond the last instant

Any `Duration` is accepted as a time to live.  The deadline is computed when it is read, and
the addition panics when the sum is no instant, in `get` for that key and in `cleanup` for the
whole map.  A `cleanup` never takes such an entry out, so all later ones fail as well.

An operation does what it is meant to do if and only if the last writes to the keys it
reads have deadlines that can be represented.
-/

namespace Kademlia

open Lib

namespace Expiry

/-- The entry has a deadline that can be represented, and the clock has reached it. -/
def Expired (now : Instant) (entry : StorageEntry) : Prop :=
  entry.timestamp + entry.ttl < instantLimit ∧ entry.timestamp + entry.ttl ≤ now

instance (now : Instant) (entry : StorageEntry) : Decidable (Expired now entry) :=
  inferInstanceAs (Decidable (_ ∧ _))

/-- What a `get` of an entry is meant to return. -/
def readable (now : Instant) : Option StorageEntry → Outcome Value
  | some entry => if Expired now entry then .error (.err .valueNotFound) else .ok entry.value
  | none => .error (.err .valueNotFound)

/-- A `get` returns what has not expired, and a `cleanup` ends well and takes out what has
expired and nothing else. -/
def NeverFails (s : MemoryStorage) : Op → Prop
  | .get now key => s.get now key = readable now (s.storage.lookup key)
  | .cleanup now =>
    (s.cleanup now).1 = .ok () ∧ ∀ key entry,
      (s.cleanup now).2.storage.lookup key = some entry ↔
        s.storage.lookup key = some entry ∧ ¬ Expired now entry
  | _ => True

/-- The last write to the key has stored a value until after the last instant. -/
def Endless (defaultTtl : Duration) (history : List Op) (key : NodeId) : Prop :=
  ∃ value writtenAt ttl, lastWrite defaultTtl key history = some (.stored value writtenAt ttl) ∧
    instantLimit ≤ writtenAt + ttl

/-- What an operation reads is not endless: a `get` reads its key, and a `cleanup` all keys. -/
def ReadsDeadlines (defaultTtl : Duration) (history : List Op) : Op → Prop
  | .get _ key => ¬ Endless defaultTtl history key
  | .cleanup _ => ∀ key, ¬ Endless defaultTtl history key
  | _ => True

/-! ## One operation -/

/-- The entry of the key has a deadline that can be represented, if it has an entry. -/
def FitsAt (s : MemoryStorage) (key : NodeId) : Prop :=
  ∀ entry, s.storage.lookup key = some entry → entry.timestamp + entry.ttl < instantLimit

theorem neverFails_get_iff {s : MemoryStorage} {now : Instant} {key : NodeId} :
    NeverFails s (.get now key) ↔ FitsAt s key := by
  show s.get now key = readable now (s.storage.lookup key) ↔
    ∀ entry, s.storage.lookup key = some entry → entry.timestamp + entry.ttl < instantLimit
  have hspec := s.get_spec now key
  generalize s.get now key = result at hspec ⊢
  cases hspec with
  | missing hlookup => simp [hlookup, readable]
  | found hlookup hfits hnow => simp [hlookup, readable, Expired, hfits, hnow]
  | expired hlookup hfits hnow => simp [hlookup, readable, Expired, hfits, hnow]
  | endless hlookup hfits => simp [hlookup, readable, Expired, hfits]

theorem neverFails_cleanup_iff {s : MemoryStorage} {now : Instant} :
    NeverFails s (.cleanup now) ↔ ∀ key, FitsAt s key := by
  refine ⟨fun h => MemoryStorage.cleanup_eq_ok_iff.mp h.1, fun h => ?_⟩
  have hfits : s.Fits := h
  refine ⟨MemoryStorage.cleanup_eq_ok_iff.mpr hfits, fun key entry => ?_⟩
  rw [hfits.lookup_cleanup]
  refine and_congr_right fun hlookup => ?_
  rw [Expired, and_iff_right (hfits key entry hlookup), Nat.not_le]

/-! ## The entries after a run -/

/-- A cleanup leaves an entry whose deadline cannot be represented. -/
theorem lookup_cleanup_of_endless {s : MemoryStorage} {key : NodeId} {entry : StorageEntry}
    (hlookup : s.storage.lookup key = some entry)
    (hendless : instantLimit ≤ entry.timestamp + entry.ttl) (now : Instant) :
    (s.cleanup now).2.storage.lookup key = some entry := by
  have hmem : Sigma.mk key entry ∈ s.storage.entries := AList.mem_lookup_iff.mp hlookup
  rcases mem_retainM_or (p := fun entry => MemoryStorage.unexpired now entry.2) hmem with
    hkept | hdropped
  · exact AList.mem_lookup_iff.mpr hkept
  · rw [MemoryStorage.unexpired_of_endless (Nat.not_lt.mpr hendless)] at hdropped
    cases hdropped

/-- What a storage holds for a key is what the last write to it has stored, and it is there
if it is endless. -/
structure Tracks (defaultTtl : Duration) (s : MemoryStorage) (history : List Op) : Prop where
  defaultTtl_eq : s.defaultTtl = defaultTtl
  written : ∀ key entry, s.storage.lookup key = some entry →
    lastWrite defaultTtl key history = some (.stored entry.value entry.timestamp entry.ttl)
  kept : ∀ key value writtenAt ttl,
    lastWrite defaultTtl key history = some (.stored value writtenAt ttl) →
      instantLimit ≤ writtenAt + ttl →
        s.storage.lookup key = some { value := value, timestamp := writtenAt, ttl := ttl }

variable {defaultTtl : Duration}

theorem lastWrite_concat (key : NodeId) (history : List Op) (op : Op) :
    lastWrite defaultTtl key (history ++ [op]) =
      (op.write defaultTtl key).or (lastWrite defaultTtl key history) :=
  latest_concat _ history op

theorem tracks_withTtl (defaultTtl : Duration) : Tracks defaultTtl (.withTtl defaultTtl) [] :=
  ⟨rfl, (fun _ _ h => by cases h), fun _ _ _ _ h => by cases h⟩

/-- A store of one key. -/
theorem Tracks.storeWithTtl {s : MemoryStorage} {history : List Op} (h : Tracks defaultTtl s history)
    {op : Op} {now : Instant} {key : NodeId} {value : Value} {ttl : Duration}
    (hwrite : ∀ key', op.write defaultTtl key' =
      if key = key' then some (.stored value now ttl) else none) :
    Tracks defaultTtl (s.storeWithTtl now key value ttl).2 (history ++ [op]) := by
  refine ⟨h.defaultTtl_eq, ?_, ?_⟩
  · intro key' entry hlookup
    rw [MemoryStorage.lookup_storeWithTtl] at hlookup
    rw [lastWrite_concat, hwrite]
    split_ifs at hlookup ⊢
    · rw [← Option.some.inj hlookup]
      rfl
    · exact h.written key' entry hlookup
  · intro key' value' writtenAt ttl' hlast hendless
    rw [lastWrite_concat, hwrite] at hlast
    rw [MemoryStorage.lookup_storeWithTtl]
    split_ifs at hlast ⊢
    · cases hlast
      rfl
    · exact h.kept key' value' writtenAt ttl' hlast hendless

theorem Tracks.step {s : MemoryStorage} {history : List Op} (h : Tracks defaultTtl s history)
    (op : Op) : Tracks defaultTtl (step s op) (history ++ [op]) := by
  cases op with
  | store now key value =>
    show Tracks defaultTtl (s.storeWithTtl now key value s.defaultTtl).2 _
    rw [h.defaultTtl_eq]
    exact h.storeWithTtl fun key' => rfl
  | storeWithTtl now key value ttl => exact h.storeWithTtl fun key' => rfl
  | get now key =>
    refine ⟨h.defaultTtl_eq, ?_, ?_⟩
    · intro key' entry hlookup
      rw [lastWrite_concat]
      exact h.written key' entry hlookup
    · intro key' value writtenAt ttl hlast hendless
      rw [lastWrite_concat] at hlast
      exact h.kept key' value writtenAt ttl hlast hendless
  | remove key =>
    refine ⟨(s.remove_defaultTtl key).trans h.defaultTtl_eq, ?_, ?_⟩
    · intro key' entry hlookup
      replace hlookup : (s.remove key).2.storage.lookup key' = some entry := hlookup
      rw [MemoryStorage.lookup_remove] at hlookup
      rw [lastWrite_concat, Op.write]
      split_ifs at hlookup ⊢
      exact h.written key' entry hlookup
    · intro key' value writtenAt ttl hlast hendless
      rw [lastWrite_concat, Op.write] at hlast
      show (s.remove key).2.storage.lookup key' = _
      rw [MemoryStorage.lookup_remove]
      split_ifs at hlast ⊢
      · cases hlast
      · exact h.kept key' value writtenAt ttl hlast hendless
  | cleanup now =>
    refine ⟨h.defaultTtl_eq, ?_, ?_⟩
    · intro key' entry hlookup
      rw [lastWrite_concat]
      exact h.written key' entry (MemoryStorage.lookup_of_lookup_cleanup hlookup)
    · intro key' value writtenAt ttl hlast hendless
      rw [lastWrite_concat] at hlast
      exact lookup_cleanup_of_endless (h.kept key' value writtenAt ttl hlast hendless) hendless now

theorem tracks_run (defaultTtl : Duration) (ops : List Op) :
    Tracks defaultTtl (run step (.withTtl defaultTtl) ops) ops := by
  induction ops using List.reverseRecOn with
  | nil => exact tracks_withTtl defaultTtl
  | append_singleton ops op ih =>
    rw [run_concat]
    exact ih.step op

theorem Tracks.fitsAt_iff {s : MemoryStorage} {history : List Op}
    (h : Tracks defaultTtl s history) (key : NodeId) :
    FitsAt s key ↔ ¬ Endless defaultTtl history key := by
  constructor
  · rintro hfits ⟨value, writtenAt, ttl, hlast, hendless⟩
    have hlt := hfits _ (h.kept key value writtenAt ttl hlast hendless)
    exact absurd hlt (Nat.not_lt.mpr hendless)
  · intro hnot entry hlookup
    by_contra hfits
    exact hnot ⟨_, _, _, h.written key entry hlookup, Nat.not_lt.mp hfits⟩

theorem Tracks.neverFails_iff {s : MemoryStorage} {history : List Op}
    (h : Tracks defaultTtl s history) (op : Op) :
    NeverFails s op ↔ ReadsDeadlines defaultTtl history op := by
  cases op with
  | get now key => exact neverFails_get_iff.trans (h.fitsAt_iff key)
  | cleanup now => exact neverFails_cleanup_iff.trans (forall_congr' h.fitsAt_iff)
  | _ => exact Iff.rfl

theorem meets_neverFails_iff (defaultTtl : Duration) (ops : List Op) :
    Meets step NeverFails (.withTtl defaultTtl) ops ↔
      ∀ before op rest, ops = before ++ op :: rest → ReadsDeadlines defaultTtl before op := by
  rw [meets_iff_split]
  refine forall_congr' fun before => forall_congr' fun op => forall₂_congr fun rest _ => ?_
  exact (tracks_run defaultTtl before).neverFails_iff op

/-- For every time to live of the storage and all operations at any readings of the clock,
each `get` and each `cleanup` does what it is meant to do if and only if the last writes to
the keys it reads are not endless. -/
theorem never_fails_iff (name : String) (defaultTtl : Duration) (ops : List Op) :
    (Meets step NeverFails (.withTtl defaultTtl) ops ↔
      ∀ before op rest, ops = before ++ op :: rest → ReadsDeadlines defaultTtl before op) ∧
    (Meets step NeverFails (.withNameAndTtl name defaultTtl) ops ↔
      ∀ before op rest, ops = before ++ op :: rest → ReadsDeadlines defaultTtl before op) :=
  ⟨meets_neverFails_iff defaultTtl ops, meets_neverFails_iff defaultTtl ops⟩

/-- The longest `Duration` as the time to live of a storage, and a `get` of what was just
stored. -/
theorem longest_ttl_panics :
    ¬ ∀ (defaultTtl : Duration) (ops : List Op),
      Meets step NeverFails (.withTtl defaultTtl) ops := by
  intro h
  have hget := (h (2 ^ 64 * 1000000000 - 1)
    [.store 0 (NodeId.fromBytes [7]) [1], .get 1 (NodeId.fromBytes [7])]).2.1
  have hfits := neverFails_get_iff.mp hget _ (AList.lookup_insert _)
  exact absurd hfits (by decide)

end Expiry

end Kademlia
