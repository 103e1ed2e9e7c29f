import Kademlia.Lib.Run
import Kademlia.Storage.Memory

/-!
# Republishing stored values

A pass of the republish task reads all pairs of the storage under one lock and then
stores them again one by one, each under a lock of its own.  Clients write and remove
keys in between.  A run is an interleaving of these critical sections.

The pass writes values from before it began, so a pair can be out of date when its
turn comes.  `Settled` describes the interleavings after which this has done no harm,
and `Current` those in which it never did any.
-/

namespace Kademlia

open Lib

namespace Republish

/-- The state of a pass: before its snapshot, with pairs left to write, or ended by a
panic in the snapshot. -/
inductive Pass where
  | waiting
  | writing (items : List (NodeId × Value))
  | panicked
deriving DecidableEq

structure State where
  storage : MemoryStorage
  pass : Pass

/-- The critical sections on one storage.  `snapshot` comes with the order in which the
hash map yields its keys. -/
inductive Event where
  | snapshot (now : Instant) (keys : List NodeId)
  | writeBack (now : Instant)
  | storeValue (now : Instant) (key : NodeId) (value : Value)
  | handleStore (now : Instant) (key : NodeId) (value : Value)
  | remove (key : NodeId)

def start (storage : MemoryStorage) : State := { storage := storage, pass := .waiting }

/-- The loop of the snapshot over the keys.  An `Err` of `get` is skipped, and a panic
in it ends the task. -/
def snapshotPairs (storage : MemoryStorage) (now : Instant) :
    List NodeId → Outcome (List (NodeId × Value))
  | [] => .ok []
  | key :: keys =>
    match storage.get now key with
    | .error (.err _) => snapshotPairs storage now keys
    | .error fault => .error fault
    | .ok value =>
      match snapshotPairs storage now keys with
      | .error fault => .error fault
      | .ok pairs => .ok ((key, value) :: pairs)

/-- An event that is not enabled leaves the state as it is. -/
def step (s : State) : Event → State
  | .snapshot now keys =>
    match s.pass with
    | .waiting =>
      if keys.Perm s.storage.keys then
        match snapshotPairs s.storage now keys with
        | .error _ => { s with pass := .panicked }
        | .ok pairs => { s with pass := .writing pairs }
      else s
    | _ => s
  | .writeBack now =>
    match s.pass with
    | .writing ((key, value) :: items) =>
      { storage := (s.storage.store now key value).2, pass := .writing items }
    | _ => s
  | .storeValue now key value => { s with storage := (s.storage.store now key value).2 }
  | .handleStore now key value => { s with storage := (s.storage.store now key value).2 }
  | .remove key => { s with storage := (s.storage.remove key).2 }

/-- What a client operation makes of `key`: a value, or its absence. -/
def Event.client (key : NodeId) : Event → Option (Option Value)
  | .storeValue _ key' value => if key' = key then some (some value) else none
  | .handleStore _ key' value => if key' = key then some (some value) else none
  | .remove key' => if key' = key then some none else none
  | _ => none

/-- What the last client operation on `key` made of it. -/
def lastClient (key : NodeId) (events : List Event) : Option (Option Value) :=
  events.reverse.findSome? (Event.client key)

/-- Every key holds what its last client operation left, or what it held at the start. -/
def Faithful (s : State) (events : List Event) : Prop :=
  ∀ key, (run step s events).storage.held key = (lastClient key events).getD (s.storage.held key)

/-- The pair that an event writes back. -/
def writesBack (s : State) : Event → Option (NodeId × Value)
  | .writeBack _ =>
    match s.pass with
    | .writing (pair :: _) => some pair
    | _ => none
  | _ => none

/-- A write-back that finds its value still held. -/
def Current (s : State) (event : Event) : Prop :=
  ∀ key value, writesBack s event = some (key, value) → s.storage.held key = some value

/-- Every write-back finds its value still held, or a client operation on its key follows. -/
def Settled : State → List Event → Prop
  | _, [] => True
  | s, event :: rest =>
    (∀ key value, writesBack s event = some (key, value) →
      s.storage.held key = some value ∨ ∃ later ∈ rest, later.client key ≠ none) ∧
    Settled (step s event) rest

/-! ## One event -/

theorem lastClient_cons (key : NodeId) (event : Event) (rest : List Event) :
    lastClient key (event :: rest) = (lastClient key rest).or (event.client key) := by
  rw [lastClient, List.reverse_cons, List.findSome?_append, lastClient]
  congr 1
  rw [List.findSome?_cons, List.findSome?_nil]
  cases event.client key <;> rfl

theorem lastClient_eq_none_iff {key : NodeId} {events : List Event} :
    lastClient key events = none ↔ ∀ event ∈ events, event.client key = none := by
  simp [lastClient, List.findSome?_eq_none_iff]

/-- An event that writes nothing back does to the storage what the client does. -/
theorem held_step_of_client {s : State} {event : Event} (h : writesBack s event = none)
    (key : NodeId) :
    (step s event).storage.held key = (event.client key).getD (s.storage.held key) := by
  cases event with
  | snapshot now keys =>
    simp only [step, Event.client, Option.getD_none]
    split
    · split_ifs
      · split <;> rfl
      · rfl
    · rfl
  | writeBack now =>
    simp only [writesBack] at h
    simp only [step, Event.client, Option.getD_none]
    split at h
    · cases h
    · rename_i hpass
      split
      · rename_i heq
        exact absurd heq (hpass _ _)
      · rfl
  | storeValue now key' value =>
    simp only [step, Event.client, MemoryStorage.held_store]
    split <;> rfl
  | handleStore now key' value =>
    simp only [step, Event.client, MemoryStorage.held_store]
    split <;> rfl
  | remove key' =>
    simp only [step, Event.client, MemoryStorage.held_remove]
    split <;> rfl

/-- A write-back takes the first pair left and stores it. -/
theorem step_of_writesBack {s : State} {event : Event} {key : NodeId} {value : Value}
    (h : writesBack s event = some (key, value)) :
    ∃ now items, event = .writeBack now ∧ s.pass = .writing ((key, value) :: items) ∧
      step s event =
        { storage := (s.storage.store now key value).2, pass := .writing items } := by
  cases event with
  | writeBack now =>
    simp only [writesBack] at h
    split at h
    · rename_i pair items hpass
      obtain rfl := Option.some.inj h
      exact ⟨now, items, rfl, hpass, by simp only [step, hpass]⟩
    · cases h
  | _ => cases h

theorem held_step_of_writesBack {s : State} {event : Event} {key : NodeId} {value : Value}
    (h : writesBack s event = some (key, value)) (key' : NodeId) :
    event.client key' = none ∧ (step s event).storage.held key' =
      if key = key' then some value else s.storage.held key' := by
  obtain ⟨now, items, rfl, -, hstep⟩ := step_of_writesBack h
  rw [hstep]
  exact ⟨rfl, MemoryStorage.held_store _ _ _ _ _⟩

/-- A run that starts with an event is faithful exactly when the rest is, provided the
event leaves no key, untouched by later clients, with another value than the client's. -/
theorem faithful_cons_iff {s : State} {event : Event} {rest : List Event}
    (h : ∀ key, lastClient key rest = none →
      (step s event).storage.held key = (event.client key).getD (s.storage.held key)) :
    Faithful s (event :: rest) ↔ Faithful (step s event) rest := by
  apply forall_congr'
  intro key
  rw [run_cons, lastClient_cons]
  rcases hlast : lastClient key rest with _ | last
  · rw [Option.none_or, Option.getD_none, h key hlast]
  · rfl

/-! ## Pairs that are written once -/

/-- No key is left to be written twice. -/
def Pass.Distinct : Pass → Prop
  | .writing items => (items.map Prod.fst).Nodup
  | _ => True

/-- The pass will not write `key` any more. -/
def Pass.Spent (key : NodeId) : Pass → Prop
  | .waiting => False
  | .writing items => key ∉ items.map Prod.fst
  | .panicked => True

theorem snapshotPairs_sublist {storage : MemoryStorage} {now : Instant} {keys : List NodeId}
    {pairs : List (NodeId × Value)} (h : snapshotPairs storage now keys = .ok pairs) :
    (pairs.map Prod.fst).Sublist keys := by
  induction keys generalizing pairs with
  | nil =>
    obtain rfl := Except.ok.inj h
    exact List.Sublist.slnil
  | cons key keys ih =>
    unfold snapshotPairs at h
    split at h
    · exact (ih h).cons key
    · cases h
    · split at h
      · cases h
      · rename_i pairs' hpairs
        obtain rfl := Except.ok.inj h
        exact (ih hpairs).cons_cons key

theorem distinct_step {s : State} (h : s.pass.Distinct) (event : Event) :
    (step s event).pass.Distinct := by
  cases event with
  | snapshot now keys =>
    rw [step]
    split
    · split_ifs with hperm
      · split
        · trivial
        · rename_i pairs hpairs
          have hkeys : keys.Nodup := hperm.nodup_iff.mpr s.storage.storage.nodupKeys
          exact hkeys.sublist (snapshotPairs_sublist hpairs)
      · exact h
    · exact h
  | writeBack now =>
    rw [step]
    split
    · rename_i key value items hpass
      rw [hpass] at h
      exact (List.nodup_cons.mp h).2
    · exact h
  | storeValue _ _ _ => exact h
  | handleStore _ _ _ => exact h
  | remove _ => exact h

theorem spent_step {s : State} {key : NodeId} (h : s.pass.Spent key) (event : Event) :
    (step s event).pass.Spent key := by
  cases event with
  | snapshot now keys =>
    rw [step]
    split
    · rename_i hpass
      rw [hpass] at h
      exact absurd h id
    · exact h
  | writeBack now =>
    rw [step]
    split
    · rename_i key' value items hpass
      rw [hpass] at h
      exact fun hmem => h (List.mem_cons_of_mem _ hmem)
    · exact h
  | storeValue _ _ _ => exact h
  | handleStore _ _ _ => exact h
  | remove _ => exact h

/-- A key that is neither left to be written nor touched by a client keeps its value. -/
theorem held_step_of_spent {s : State} {key : NodeId} (h : s.pass.Spent key) {event : Event}
    (hclient : event.client key = none) : (step s event).storage.held key = s.storage.held key := by
  rcases hwrites : writesBack s event with _ | ⟨key', value⟩
  · rw [held_step_of_client hwrites, hclient]
    rfl
  · obtain ⟨now, items, -, hpass, -⟩ := step_of_writesBack hwrites
    have hne : key' ≠ key := by
      rintro rfl
      rw [hpass] at h
      exact h List.mem_cons_self
    rw [(held_step_of_writesBack hwrites key).2, if_neg hne]

theorem held_run_of_spent {s : State} {key : NodeId} {events : List Event}
    (h : s.pass.Spent key) (hclient : lastClient key events = none) :
    (run step s events).storage.held key = s.storage.held key := by
  rw [lastClient_eq_none_iff] at hclient
  induction events generalizing s with
  | nil => rfl
  | cons event rest ih =>
    rw [run_cons, ih (spent_step h event) fun e he => hclient e (List.mem_cons_of_mem _ he)]
    exact held_step_of_spent h (hclient event List.mem_cons_self)

/-! ## Interleavings that lose no update -/

/-- The condition of `faithful_cons_iff` for a write-back. -/
theorem held_step_of_settled {s : State} {event : Event} {rest : List Event}
    (h : ∀ key value, writesBack s event = some (key, value) →
      s.storage.held key = some value ∨ ∃ later ∈ rest, later.client key ≠ none)
    (key : NodeId) (hlast : lastClient key rest = none) :
    (step s event).storage.held key = (event.client key).getD (s.storage.held key) := by
  rcases hwrites : writesBack s event with _ | ⟨key', value⟩
  · exact held_step_of_client hwrites key
  · obtain ⟨hnone, hheld⟩ := held_step_of_writesBack hwrites key
    rw [hnone, hheld, Option.getD_none]
    by_cases hkey : key' = key
    · subst hkey
      rw [if_pos rfl]
      rcases h key' value hwrites with hcurrent | ⟨later, hlater, hne⟩
      · exact hcurrent.symm
      · exact absurd (lastClient_eq_none_iff.mp hlast later hlater) hne
    · rw [if_neg hkey]

theorem faithful_iff_settled {s : State} {events : List Event} (hdistinct : s.pass.Distinct) :
    Faithful s events ↔ Settled s events := by
  induction events generalizing s with
  | nil => exact ⟨fun _ => trivial, fun _ _ => rfl⟩
  | cons event rest ih =>
    have hrest := ih (distinct_step hdistinct event)
    constructor
    · intro h
      have hguard : ∀ key value, writesBack s event = some (key, value) →
          s.storage.held key = some value ∨ ∃ later ∈ rest, later.client key ≠ none := by
        intro key value hwrites
        rcases hlast : lastClient key rest with _ | last
        · -- Nothing touches the key after the write-back, so its value is the final one.
          refine .inl ?_
          obtain ⟨now, items, -, hpass, hstep⟩ := step_of_writesBack hwrites
          obtain ⟨hnone, hheld⟩ := held_step_of_writesBack hwrites key
          have hspent : (step s event).pass.Spent key := by
            rw [hpass] at hdistinct
            rw [hstep]
            exact (List.nodup_cons.mp hdistinct).1
          have hfinal := h key
          rw [run_cons, held_run_of_spent hspent hlast, hheld, if_pos rfl, lastClient_cons, hlast,
            hnone] at hfinal
          exact hfinal.symm
        · refine .inr ?_
          by_contra hnone
          push Not at hnone
          rw [lastClient_eq_none_iff.mpr hnone] at hlast
          cases hlast
      exact ⟨hguard, hrest.mp ((faithful_cons_iff (held_step_of_settled hguard)).mp h)⟩
    · rintro ⟨hguard, hsettled⟩
      exact (faithful_cons_iff (held_step_of_settled hguard)).mpr (hrest.mpr hsettled)

theorem faithful_prefix_iff_current {s : State} {events : List Event} :
    (∀ done, done <+: events → Faithful s done) ↔ Meets step Current s events := by
  induction events generalizing s with
  | nil =>
    refine ⟨fun _ => trivial, fun _ done hdone => ?_⟩
    rw [List.prefix_nil.mp hdone]
    exact fun _ => rfl
  | cons event rest ih =>
    constructor
    · intro h
      have hone : ∀ key, (step s event).storage.held key =
          (event.client key).getD (s.storage.held key) := by
        intro key
        have hfaithful := h [event] (List.prefix_append [event] rest) key
        rwa [run_cons, run_nil, lastClient_cons] at hfaithful
      refine ⟨fun key value hwrites => ?_, ih.mp fun done hdone => ?_⟩
      · obtain ⟨hnone, hheld⟩ := held_step_of_writesBack hwrites key
        have hkey := hone key
        rw [hheld, if_pos rfl, hnone, Option.getD_none] at hkey
        exact hkey.symm
      · refine (faithful_cons_iff fun key _ => hone key).mp (h (event :: done) ?_)
        exact List.cons_prefix_cons.mpr ⟨rfl, hdone⟩
    · rintro ⟨hcurrent, hrest⟩ done hdone
      cases done with
      | nil => exact fun _ => rfl
      | cons first done =>
        obtain ⟨rfl, htail⟩ := List.cons_prefix_cons.mp hdone
        refine (faithful_cons_iff (held_step_of_settled ?_)).mpr (ih.mpr hrest done htail)
        exact fun key value hwrites => .inl (hcurrent key value hwrites)

/-- An interleaving ends with the clients' values exactly when every write-back finds its
value still held or is followed by a client operation on its key.  It shows the clients'
values all along exactly when every write-back finds its value still held. -/
theorem republish_faithful_iff (storage : MemoryStorage) (events : List Event) :
    (Faithful (start storage) events ↔ Settled (start storage) events) ∧
    ((∀ done, done <+: events → Faithful (start storage) done) ↔
      Meets step Current (start storage) events) :=
  ⟨faithful_iff_settled trivial, faithful_prefix_iff_current⟩

/-- A client writes between the snapshot of a key and its write-back. -/
def staleWriteBack : List Event :=
  [.snapshot 1 [NodeId.fromBytes [7]], .storeValue 2 (NodeId.fromBytes [7]) [2], .writeBack 3]

/-- The pass has finished and the key holds the value from before the client's write. -/
theorem not_faithful_after_staleWriteBack :
    ¬ ∀ (storage : MemoryStorage) (events : List Event),
      (run step (start storage) events).pass = .writing [] → Faithful (start storage) events := by
  intro h
  have hfinished : (run step (start (MemoryStorage.new.store 0 (NodeId.fromBytes [7]) [1]).2)
      staleWriteBack).pass = .writing [] := by
    decide +kernel
  have hfaithful := h _ staleWriteBack hfinished (NodeId.fromBytes [7])
  have hheld : (run step (start (MemoryStorage.new.store 0 (NodeId.fromBytes [7]) [1]).2)
      staleWriteBack).storage.held (NodeId.fromBytes [7]) = some [1] := by
    decide +kernel
  have hlast : lastClient (NodeId.fromBytes [7]) staleWriteBack = some (some [2]) := by
    decide +kernel
  rw [hheld, hlast] at hfaithful
  exact absurd hfaithful (by decide)

end Republish

end Kademlia
