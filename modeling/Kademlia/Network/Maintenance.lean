import Kademlia.Network.Republish

/-!
# Maintenance and the time to live

A node without peers runs its republish passes and its cleanups beside the writes of its
clients.  A pass stores each pair of its snapshot again, and the storage gives the entry
a new time to live as it does for a client.  The entry then lives on past the deadline
that the client's write gave it.

`Expires` says that no value can be read at or after the deadline of the last client
write of it, and the main result says in which runs that holds.
-/

namespace Kademlia

open Lib

namespace Maintenance

open Republish (Pass snapshotPairs)

/-- The critical sections on the storage of a node without peers.  `store` is the local
write of `store`, `store_value` and `handle_store`, and a write-back is the `store_value`
of a pass. -/
inductive Event where
  | store (now : Instant) (key : NodeId) (value : Value)
  | storeWithTtl (now : Instant) (key : NodeId) (value : Value) (ttl : Duration)
  | remove (key : NodeId)
  | snapshot (now : Instant) (keys : List NodeId)
  | writeBack (now : Instant)
  | cleanup (now : Instant)

def Event.time : Event → Option Instant
  | store now _ _ | storeWithTtl now _ _ _ | snapshot now _ | writeBack now | cleanup now =>
    some now
  | remove _ => none

/-- `past` holds the events so far, which the statements refer to. -/
structure State where
  storage : MemoryStorage
  pass : Pass
  clock : Instant
  past : List Event

def start (defaultTtl : Duration) : State :=
  { storage := .withTtl defaultTtl, pass := .waiting, clock := 0, past := [] }

/-- The snapshot of a pass.  A new pass begins when the one before it has written all its
pairs, and `keys` is the order in which the hash map yields its keys. -/
def snapshotPass (storage : MemoryStorage) (pass : Pass) (now : Instant) (keys : List NodeId) :
    Pass :=
  match pass with
  | .waiting | .writing [] =>
    if keys.Perm storage.keys then
      match snapshotPairs storage now keys with
      | .error _ => .panicked
      | .ok pairs => .writing pairs
    else pass
  | _ => pass

/-- What an event does to the storage and to the pass. -/
def act (storage : MemoryStorage) (pass : Pass) : Event → MemoryStorage × Pass
  | .store now key value => ((storage.store now key value).2, pass)
  | .storeWithTtl now key value ttl => ((storage.storeWithTtl now key value ttl).2, pass)
  | .remove key => ((storage.remove key).2, pass)
  | .snapshot now keys => (storage, snapshotPass storage pass now keys)
  | .writeBack now =>
    match pass with
    | .writing ((key, value) :: items) => ((storage.store now key value).2, .writing items)
    | _ => (storage, pass)
  | .cleanup now => ((storage.cleanup now).2, pass)

/-- The clock does not go back. -/
def State.timely (s : State) (event : Event) : Bool :=
  decide (s.clock ≤ event.time.getD s.clock)

def step (s : State) (event : Event) : State :=
  if s.timely event then
    { storage := (act s.storage s.pass event).1
      pass := (act s.storage s.pass event).2
      clock := event.time.getD s.clock
      past := s.past ++ [event] }
  else s

/-- The time and the time to live of a client's write of `value` to `key`. -/
def Event.grant (defaultTtl : Duration) (key : NodeId) (value : Value) :
    Event → Option (Instant × Duration)
  | store now key' value' => if key' = key ∧ value' = value then some (now, defaultTtl) else none
  | storeWithTtl now key' value' ttl =>
    if key' = key ∧ value' = value then some (now, ttl) else none
  | _ => none

/-- The last client write of `value` to `key`. -/
def lastGrant (defaultTtl : Duration) (key : NodeId) (value : Value) (past : List Event) :
    Option (Instant × Duration) :=
  latest (Event.grant defaultTtl key value) past

/-- From now on no value can be read at or after the deadline of the last client write
of it. -/
def Expires (defaultTtl : Duration) (s : State) : Prop :=
  ∀ key value writtenAt ttl, lastGrant defaultTtl key value s.past = some (writtenAt, ttl) →
    ∀ t, s.clock ≤ t → writtenAt + ttl ≤ t → s.storage.get t key ≠ .ok value

/-- The pair that an event writes back. -/
def writesBack (s : State) (event : Event) : Option (Instant × NodeId × Value) :=
  match event, s.pass with
  | .writeBack now, .writing ((key, value) :: _) =>
    if s.timely event then some (now, key, value) else none
  | _, _ => none

/-- A write-back gives its value no later deadline than the last client write did.  With a
time to live of zero, or a deadline that cannot be represented, the entry is never read. -/
def WithinGrant (defaultTtl : Duration) (s : State) (event : Event) : Prop :=
  ∀ now key value writtenAt ttl, writesBack s event = some (now, key, value) →
    lastGrant defaultTtl key value s.past = some (writtenAt, ttl) →
    0 < defaultTtl → now + defaultTtl < instantLimit → now + defaultTtl ≤ writtenAt + ttl

/-! ## One event -/

theorem defaultTtl_act (storage : MemoryStorage) (pass : Pass) (event : Event) :
    (act storage pass event).1.defaultTtl = storage.defaultTtl := by
  cases event with
  | remove key =>
    show (storage.remove key).2.defaultTtl = _
    unfold MemoryStorage.remove
    split <;> rfl
  | writeBack now =>
    simp only [act]
    split <;> rfl
  | _ => rfl

theorem defaultTtl_step (s : State) (event : Event) :
    (step s event).storage.defaultTtl = s.storage.defaultTtl := by
  unfold step
  split_ifs
  · exact defaultTtl_act s.storage s.pass event
  · rfl

section Step

variable {defaultTtl : Duration} {s : State} {event : Event} {now : Instant}

theorem lastGrant_concat_none {key : NodeId} {value : Value}
    (h : event.grant defaultTtl key value = none) :
    lastGrant defaultTtl key value (s.past ++ [event]) = lastGrant defaultTtl key value s.past := by
  rw [lastGrant, latest_concat, h]
  rfl

/-- An event that gives readers nothing new. -/
theorem Expires.of_reads (h : Expires defaultTtl s) {storage : MemoryStorage} (pass : Pass)
    (hnow : s.clock ≤ now)
    (hget : ∀ t key value, storage.get t key = .ok value → s.storage.get t key = .ok value)
    (hgrant : ∀ key value, event.grant defaultTtl key value = none) :
    Expires defaultTtl
      { storage := storage, pass := pass, clock := now, past := s.past ++ [event] } := by
  intro key value writtenAt ttl hlast t ht hdeadline hvalue
  have hlast' : lastGrant defaultTtl key value s.past = some (writtenAt, ttl) :=
    (lastGrant_concat_none (hgrant key value)).symm.trans hlast
  exact h key value writtenAt ttl hlast' t (Nat.le_trans hnow ht) hdeadline
    (hget t key value hvalue)

/-- An event that leaves the entries. -/
theorem Expires.of_same (h : Expires defaultTtl s) (pass : Pass) (hnow : s.clock ≤ now)
    (hgrant : ∀ key value, event.grant defaultTtl key value = none) :
    Expires defaultTtl
      { storage := s.storage, pass := pass, clock := now, past := s.past ++ [event] } := by
  apply h.of_reads pass hnow _ hgrant
  intro t key value hget
  exact hget

/-- A write of an entry, by a client or by a pass.  All is well when it is for the value
written, since no other value can be read for that key. -/
theorem Expires.of_write (h : Expires defaultTtl s) {key : NodeId} {value : Value}
    {ttl : Duration} (pass : Pass) (hnow : s.clock ≤ now)
    (hgrant : ∀ key' value', key' ≠ key → event.grant defaultTtl key' value' = none)
    (hself : ∀ writtenAt ttl',
      lastGrant defaultTtl key value (s.past ++ [event]) = some (writtenAt, ttl') →
      ∀ t, now ≤ t → writtenAt + ttl' ≤ t → now + ttl < instantLimit → ¬ t < now + ttl) :
    Expires defaultTtl
      { storage := (s.storage.storeWithTtl now key value ttl).2, pass := pass, clock := now,
        past := s.past ++ [event] } := by
  intro key' value' writtenAt ttl' hlast t ht hdeadline hvalue
  by_cases hkey : key' = key
  · subst hkey
    obtain ⟨rfl, hfits, hlt⟩ := MemoryStorage.get_storeWithTtl_self_eq_ok_iff.mp hvalue
    exact hself writtenAt ttl' hlast t ht hdeadline hfits hlt
  · have hold : s.storage.get t key' = .ok value' :=
      (MemoryStorage.get_storeWithTtl_ne s.storage now t value ttl hkey).symm.trans hvalue
    have hlast' : lastGrant defaultTtl key' value' s.past = some (writtenAt, ttl') :=
      (lastGrant_concat_none (hgrant key' value' hkey)).symm.trans hlast
    exact h key' value' writtenAt ttl' hlast' t (Nat.le_trans hnow ht) hdeadline hold

/-- A client's write grants the time to live it uses. -/
theorem Expires.of_client (h : Expires defaultTtl s) {key : NodeId} {value : Value}
    {ttl : Duration} (pass : Pass) (hnow : s.clock ≤ now)
    (hgrant : ∀ key' value', event.grant defaultTtl key' value' =
      if key = key' ∧ value = value' then some (now, ttl) else none) :
    Expires defaultTtl
      { storage := (s.storage.storeWithTtl now key value ttl).2, pass := pass, clock := now,
        past := s.past ++ [event] } := by
  apply h.of_write pass hnow
  · intro key' value' hkey
    rw [hgrant, if_neg (fun hboth => hkey hboth.1.symm)]
  · intro writtenAt ttl' hlast t _ hdeadline _
    have hnew : lastGrant defaultTtl key value (s.past ++ [event]) = some (now, ttl) := by
      rw [lastGrant, latest_concat, hgrant, if_pos ⟨rfl, rfl⟩]
      rfl
    rw [hnew] at hlast
    cases hlast
    exact Nat.not_lt.mpr hdeadline

/-- A write-back does no harm exactly when it stays within the grant of its value. -/
theorem expires_writeBack_iff (h : Expires defaultTtl s) {key : NodeId} {value : Value}
    (pass : Pass) (hnow : s.clock ≤ now) :
    Expires defaultTtl
        { storage := (s.storage.storeWithTtl now key value defaultTtl).2, pass := pass, clock := now,
          past := s.past ++ [.writeBack now] } ↔
      ∀ writtenAt ttl, lastGrant defaultTtl key value s.past = some (writtenAt, ttl) →
        0 < defaultTtl → now + defaultTtl < instantLimit → now + defaultTtl ≤ writtenAt + ttl := by
  have hlast : ∀ value', lastGrant defaultTtl key value' (s.past ++ [.writeBack now]) =
      lastGrant defaultTtl key value' s.past := fun value' => lastGrant_concat_none rfl
  constructor
  · intro hafter writtenAt ttl hgrant hpos hfits
    -- The later of the reading and the granted deadline is a time at which the value is read.
    by_contra hlate
    have hread : (s.storage.storeWithTtl now key value defaultTtl).2.get
        (max now (writtenAt + ttl)) key = .ok value := by
      apply MemoryStorage.get_storeWithTtl_self_eq_ok_iff.mpr
      refine ⟨rfl, hfits, ?_⟩
      exact Nat.max_lt.mpr ⟨Nat.lt_add_of_pos_right hpos, Nat.not_le.mp hlate⟩
    exact hafter key value writtenAt ttl ((hlast value).trans hgrant) _ (Nat.le_max_left _ _)
      (Nat.le_max_right _ _) hread
  · intro hwithin
    apply h.of_write pass hnow
    · intro key' value' _
      rfl
    · intro writtenAt ttl hgrant t ht hdeadline hfits hlt
      rw [hlast] at hgrant
      have hpos : 0 < defaultTtl := Nat.pos_of_lt_add_right (Nat.lt_of_le_of_lt ht hlt)
      have hle := hwithin writtenAt ttl hgrant hpos hfits
      exact absurd (Nat.lt_of_lt_of_le hlt hle) (Nat.not_lt.mpr hdeadline)

theorem withinGrant_of_writesBack (h : writesBack s event = none) :
    WithinGrant defaultTtl s event := by
  intro now key value writtenAt ttl hwrites
  rw [h] at hwrites
  cases hwrites

theorem writesBack_of_not_timely (h : ¬ s.timely event = true) : writesBack s event = none := by
  unfold writesBack
  split
  · rw [if_neg h]
  · rfl

theorem expires_step_iff (httl : s.storage.defaultTtl = defaultTtl) (h : Expires defaultTtl s) :
    Expires defaultTtl (step s event) ↔ WithinGrant defaultTtl s event := by
  by_cases htimely : s.timely event = true
  · have hclock : s.clock ≤ event.time.getD s.clock := of_decide_eq_true htimely
    unfold step
    rw [if_pos htimely]
    cases event with
    | store now key value =>
      refine iff_of_true ?_ (withinGrant_of_writesBack rfl)
      show Expires defaultTtl { storage := (s.storage.storeWithTtl now key value _).2, .. }
      rw [httl]
      exact h.of_client s.pass hclock fun key' value' => rfl
    | storeWithTtl now key value ttl =>
      refine iff_of_true ?_ (withinGrant_of_writesBack rfl)
      exact h.of_client s.pass hclock fun key' value' => rfl
    | remove key =>
      refine iff_of_true ?_ (withinGrant_of_writesBack rfl)
      apply h.of_reads s.pass hclock _ fun _ _ => rfl
      intro t key' value hget
      exact MemoryStorage.get_of_get_remove hget
    | snapshot now keys =>
      refine iff_of_true ?_ (withinGrant_of_writesBack rfl)
      exact h.of_same _ hclock fun _ _ => rfl
    | cleanup now =>
      refine iff_of_true ?_ (withinGrant_of_writesBack rfl)
      apply h.of_reads s.pass hclock _ fun _ _ => rfl
      intro t key' value hget
      exact MemoryStorage.get_of_get_cleanup hget
    | writeBack now =>
      cases hpass : s.pass with
      | writing items =>
        cases items with
        | nil =>
          refine iff_of_true (h.of_same _ hclock fun _ _ => rfl) (withinGrant_of_writesBack ?_)
          simp only [writesBack, hpass]
        | cons pair items =>
          obtain ⟨key, value⟩ := pair
          have hwrites : writesBack s (.writeBack now) = some (now, key, value) := by
            simp only [writesBack, hpass, htimely, if_true]
          show Expires defaultTtl { storage := (s.storage.storeWithTtl now key value _).2, .. } ↔ _
          rw [httl]
          refine (expires_writeBack_iff h (.writing items) hclock).trans ?_
          constructor
          · intro hwithin now' key' value' writtenAt ttl hwrites'
            rw [hwrites] at hwrites'
            cases hwrites'
            exact hwithin writtenAt ttl
          · intro hwithin writtenAt ttl
            exact hwithin now key value writtenAt ttl hwrites
      | waiting =>
        refine iff_of_true (h.of_same _ hclock fun _ _ => rfl) (withinGrant_of_writesBack ?_)
        simp only [writesBack, hpass]
      | panicked =>
        refine iff_of_true (h.of_same _ hclock fun _ _ => rfl) (withinGrant_of_writesBack ?_)
        simp only [writesBack, hpass]
  · have hstep : step s event = s := if_neg htimely
    rw [hstep]
    exact iff_of_true h (withinGrant_of_writesBack (writesBack_of_not_timely htimely))

end Step

/-! ## Whole runs -/

theorem expires_start (defaultTtl : Duration) : Expires defaultTtl (start defaultTtl) := by
  intro key value writtenAt ttl hlast
  cases hlast

/-- Values expire throughout a run exactly when no write-back gives its value a later
deadline than the last client write of it did. -/
theorem expires_throughout_iff (defaultTtl : Duration) (events : List Event) :
    Throughout step (Expires defaultTtl) (start defaultTtl) events ↔
      Meets step (WithinGrant defaultTtl) (start defaultTtl) events := by
  apply throughout_iff_meets (I := fun s => s.storage.defaultTtl = defaultTtl)
  · intro s event httl
    exact (defaultTtl_step s event).trans httl
  · intro s event httl h
    exact expires_step_iff httl h
  · rfl
  · exact expires_start defaultTtl

/-- A client stores a value a second after the start, and the pass of the next day stores it
again. -/
def nextDay : List Event :=
  [.store (Duration.fromSecs 1) (NodeId.fromBytes [7]) [1],
    .snapshot (Duration.fromSecs 86400) [NodeId.fromBytes [7]],
    .writeBack (Duration.fromSecs 86400)]

/-- The value is still read a day after it was stored. -/
theorem republished_value_outlives_ttl :
    ¬ ∀ (defaultTtl : Duration) (events : List Event),
      Throughout step (Expires defaultTtl) (start defaultTtl) events := by
  intro h
  have hlast := (h defaultTtl nextDay).last (NodeId.fromBytes [7]) [1] (Duration.fromSecs 1)
    defaultTtl (by decide +kernel) (Duration.fromSecs 86401) (by decide +kernel) (by decide)
  exact hlast (by decide +kernel)

end Maintenance

end Kademlia
