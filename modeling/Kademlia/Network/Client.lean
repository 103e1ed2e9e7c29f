import Kademlia.Protocol.FindValue

/-!
# The operations of an application

An application stores and gets values under byte strings of any length.  `from_bytes`
makes an identifier of a key: it takes the first twenty bytes and pads a shorter key with
zeros.  Two keys share an entry of the storage exactly when they agree there, and
`get_after_stores_iff` says what this means for two stores.
-/

namespace Kademlia

open Lib

namespace NodeId

/-- The keys agree on their first twenty bytes, where a byte past the end counts as zero. -/
def Collide (key key' : List UInt8) : Prop := ∀ i < keyLengthBytes, key.getD i 0 = key'.getD i 0

instance (key key' : List UInt8) : Decidable (Collide key key') :=
  inferInstanceAs (Decidable (∀ i < keyLengthBytes, key.getD i 0 = key'.getD i 0))

theorem bytes_getElem_fromBytes (key : List UInt8) {i : Nat} (h : i < keyLengthBytes) :
    (fromBytes key).bytes[i] = key.getD i 0 := by
  unfold fromBytes
  rw [Vector.getElem_ofFn]

theorem fromBytes_eq_iff (key key' : List UInt8) :
    fromBytes key = fromBytes key' ↔ Collide key key' := by
  constructor
  · intro h i hi
    rw [← bytes_getElem_fromBytes key hi, ← bytes_getElem_fromBytes key' hi, h]
  · intro h
    rw [mk.injEq]
    apply Vector.ext
    intro i hi
    rw [bytes_getElem_fromBytes key hi, bytes_getElem_fromBytes key' hi]
    exact h i hi

end NodeId

namespace Client

structure State where
  nodeId : NodeId
  table : RoutingTable
  storage : MemoryStorage

/-- A `STORE` request goes to every node but the own one.  `bookkeeping` are the operations on
the table that the request to a node makes, and none where the caller cuts it off. -/
def State.sendStores (s : State) (nodes : List Node) (bookkeeping : Node → List TableOp) : State :=
  { s with
    table := nodes.foldl (fun t node =>
      if node.id = s.nodeId then t else run RoutingTable.step t (bookkeeping node)) s.table }

/-- The value goes into the storage and then to the nodes closest to the key. -/
def State.storeValue (s : State) (now : Instant) (key : NodeId) (value : Value)
    (bookkeeping : Node → List TableOp) : Outcome Unit × State :=
  match s.storage.store now key value with
  | (.error fault, storage) => (.error fault, { s with storage := storage })
  | (.ok _, storage) =>
    (.ok (), { s with storage := storage }.sendStores (FindValue.firstNodes s.table key)
      bookkeeping)

/-- `Node::store`, which sends the value once more to all nodes of the table. -/
def State.store (s : State) (now : Instant) (key : List UInt8) (value : Value)
    (bookkeeping direct : Node → List TableOp) : Outcome Unit × State :=
  let keyId := NodeId.fromBytes key
  let (result, s) := s.storeValue now keyId value bookkeeping
  (result, s.sendStores s.table.getAllNodes direct)

/-- The result of `Node::get` when its lookup has ended. -/
def result : FindValue.Phase → Option (Outcome Value)
  | .finished (.ok (some value)) => some (.ok value)
  | .finished (.error (.panic message)) => some (.error (.panic message))
  | .finished _ => some (.error (.err .valueNotFound))
  | _ => none

/-- `Node::get` with the steps of the lookup after its local check. -/
def State.get (s : State) (now : Instant) (key : List UInt8) (steps : List FindValue.Step) :
    Option (Outcome Value) :=
  let keyId := NodeId.fromBytes key
  let lookup := run FindValue.State.advance (FindValue.start s.nodeId keyId s.table s.storage)
    (.check now :: steps)
  result lookup.phase

theorem store_storage (s : State) (now : Instant) (key : List UInt8) (value : Value)
    (bookkeeping direct : Node → List TableOp) :
    (s.store now key value bookkeeping direct).2.storage =
      (s.storage.store now (NodeId.fromBytes key) value).2 := rfl

/-- A lookup that has ended stays as it is. -/
theorem finished_run {s : FindValue.State} {outcome : Outcome (Option Value)}
    (h : s.phase = .finished outcome) (steps : List FindValue.Step) :
    (run FindValue.State.advance s steps).phase = .finished outcome := by
  have hstep : ∀ st, s.advance st = s := by
    intro st
    cases st <;> simp only [FindValue.State.advance, h]
  induction steps with
  | nil => exact h
  | cons st rest ih =>
    rw [run_cons, hstep]
    exact ih

/-- A value in the storage is returned without a search. -/
theorem get_of_storage {s : State} {now : Instant} {key : List UInt8} {value : Value}
    (h : s.storage.get now (NodeId.fromBytes key) = .ok value) (steps : List FindValue.Step) :
    s.get now key steps = some (.ok value) := by
  have hfinished : ((FindValue.start s.nodeId (NodeId.fromBytes key) s.table s.storage).advance
      (.check now)).phase = .finished (.ok (some value)) := by
    simp only [FindValue.start, FindValue.State.advance, h]
  simp only [State.get, run_cons]
  rw [finished_run hfinished]
  rfl

/-- After two stores a `get` of the first key within the time to live returns the first
value if and only if the keys differ in their first twenty bytes, padded with zeros, or the
values are the same. -/
theorem get_after_stores_iff (s : State) (key₁ key₂ : List UInt8) (value₁ value₂ : Value)
    (t₁ t₂ now : Instant) (bookkeeping₁ direct₁ bookkeeping₂ direct₂ : Node → List TableOp)
    (steps : List FindValue.Step) (hstores : t₁ ≤ t₂) (hlive : now < t₁ + s.storage.defaultTtl)
    (hfits : t₂ + s.storage.defaultTtl < instantLimit) :
    ((s.store t₁ key₁ value₁ bookkeeping₁ direct₁).2.store t₂ key₂ value₂ bookkeeping₂ direct₂).2.get
        now key₁ steps = some (.ok value₁) ↔
      ¬ NodeId.Collide key₁ key₂ ∨ value₁ = value₂ := by
  have hdeadline : t₁ + s.storage.defaultTtl ≤ t₂ + s.storage.defaultTtl :=
    Nat.add_le_add_right hstores _
  have hstorage : ((s.store t₁ key₁ value₁ bookkeeping₁ direct₁).2.store t₂ key₂ value₂ bookkeeping₂
      direct₂).2.storage = ((s.storage.store t₁ (NodeId.fromBytes key₁) value₁).2.store t₂
      (NodeId.fromBytes key₂) value₂).2 := by
    rw [store_storage _ t₂, store_storage s]
  by_cases hcollide : NodeId.Collide key₁ key₂
  · have hid := (NodeId.fromBytes_eq_iff key₁ key₂).mpr hcollide
    have hget : ((s.store t₁ key₁ value₁ bookkeeping₁ direct₁).2.store t₂ key₂ value₂ bookkeeping₂
        direct₂).2.storage.get now (NodeId.fromBytes key₁) = .ok value₂ := by
      rw [hstorage, hid]
      exact MemoryStorage.get_storeWithTtl_self_eq_ok_iff.mpr
        ⟨rfl, hfits, Nat.lt_of_lt_of_le hlive hdeadline⟩
    rw [get_of_storage hget]
    simp [hcollide, eq_comm]
  · have hid : NodeId.fromBytes key₁ ≠ NodeId.fromBytes key₂ :=
      mt (NodeId.fromBytes_eq_iff key₁ key₂).mp hcollide
    have hget : ((s.store t₁ key₁ value₁ bookkeeping₁ direct₁).2.store t₂ key₂ value₂ bookkeeping₂
        direct₂).2.storage.get now (NodeId.fromBytes key₁) = .ok value₁ := by
      rw [hstorage, MemoryStorage.store, MemoryStorage.get_storeWithTtl_ne _ _ _ _ _ hid]
      exact MemoryStorage.get_storeWithTtl_self_eq_ok_iff.mpr
        ⟨rfl, Nat.lt_of_le_of_lt hdeadline hfits, hlive⟩
    rw [get_of_storage hget]
    simp [hcollide]

/-- A node that knows no other node. -/
def alone : State :=
  { nodeId := NodeId.fromBytes [0], table := .new (NodeId.fromBytes [0]), storage := .new }

theorem get_after_stores_alone :
    ((alone.store 1 [7] [1] (fun _ => []) (fun _ => [])).2.store 2 [8] [2] (fun _ => [])
      (fun _ => [])).2.get 3 [7] [] = some (.ok [1]) :=
  (get_after_stores_iff alone [7] [8] [1] [2] 1 2 3 _ _ _ _ [] (by decide) (by decide +kernel)
    (by decide +kernel)).mpr (.inl (by decide))

/-- The key `[7]` and the key `[7, 0]` are padded to the same identifier. -/
theorem padded_keys_interfere :
    ¬ ∀ (s : State) (key₁ key₂ : List UInt8) (value₁ value₂ : Value) (t₁ t₂ now : Instant)
      (bookkeeping₁ direct₁ bookkeeping₂ direct₂ : Node → List TableOp)
      (steps : List FindValue.Step), s.table.getAllNodes = [] → key₁ ≠ key₂ → t₁ ≤ t₂ → t₂ ≤ now →
      now < t₁ + s.storage.defaultTtl → t₂ + s.storage.defaultTtl < instantLimit →
      ((s.store t₁ key₁ value₁ bookkeeping₁ direct₁).2.store t₂ key₂ value₂ bookkeeping₂
        direct₂).2.get now key₁ steps = some (.ok value₁) := by
  intro h
  have hget := h alone [7] [7, 0] [1] [2] 1 2 3 (fun _ => []) (fun _ => []) (fun _ => [])
    (fun _ => []) [] (by decide +kernel) (by decide) (by decide) (by decide) (by decide +kernel)
    (by decide +kernel)
  revert hget
  decide +kernel

end Client

end Kademlia
