import Mathlib.Data.List.AList
import Kademlia.Lib.Run
import Kademlia.Lib.Slots
import Kademlia.Node

/-!
# The registry of in-memory transports

A process-wide map sends an address to a weak reference to its transport.  A transport lives
as long as there is a handle to it, and when the last handle goes its destructor takes the
address out of the map.

The destructor knows the address only.  `new` builds the transport before it looks for one
that is registered already, and when it finds one, the transport that it built is dropped
after the lock was released and takes the entry of the other one out.
-/

namespace Kademlia

open Lib

namespace SocketAddr

/-- `Ipv4Addr` as text. -/
def displayV4 (ip : BitVec 32) : String :=
  let octet (i : Nat) : String := toString ((ip.toNat / 256 ^ i) % 256)
  octet 3 ++ "." ++ octet 2 ++ "." ++ octet 1 ++ "." ++ octet 0

def segments (ip : BitVec 128) : List Nat :=
  [7, 6, 5, 4, 3, 2, 1, 0].map fun i => (ip.toNat / 65536 ^ i) % 65536

/-- The start and the length of the longest run of zeros, the first of them. -/
def longestZeros (segments : List Nat) : Nat × Nat :=
  let scan (acc : Nat × (Nat × Nat) × (Nat × Nat)) (segment : Nat) :
      Nat × (Nat × Nat) × (Nat × Nat) :=
    let (i, current, longest) := acc
    if segment = 0 then
      let current := (if current.2 = 0 then i else current.1, current.2 + 1)
      (i + 1, current, if longest.2 < current.2 then current else longest)
    else (i + 1, (0, 0), longest)
  (segments.foldl scan (0, (0, 0), (0, 0))).2.2

def displaySegments (segments : List Nat) : String :=
  ":".intercalate (segments.map fun segment => String.ofList (Nat.toDigits 16 segment))

/-- `Ipv6Addr` as text, with the longest run of two or more zero segments left out. -/
def displayV6 (ip : BitVec 128) : String :=
  if ip.toNat / 2 ^ 32 = 0xffff then "::ffff:" ++ displayV4 (ip.setWidth 32)
  else
    let zeros := longestZeros (segments ip)
    if 1 < zeros.2 then
      displaySegments ((segments ip).take zeros.1) ++ "::" ++
        displaySegments ((segments ip).drop (zeros.1 + zeros.2))
    else displaySegments (segments ip)

def display : SocketAddr → String
  | v4 ip port => displayV4 ip ++ ":" ++ toString port.toNat
  | v6 ip port _ scopeId =>
    let scope := if scopeId = 0 then "" else "%" ++ toString scopeId.toNat
    "[" ++ displayV6 ip ++ scope ++ "]:" ++ toString port.toNat

end SocketAddr

namespace InMemoryNetwork

/-- An `InMemoryNetworkInner` with the number of the `Arc`s that hold it. -/
structure Inner where
  addr : SocketAddr
  handles : Nat

/-- The transports that `new` returned, in the order of their creation, and the registry with
weak references to them. -/
structure State where
  inners : List Inner
  registry : AList fun _ : SocketAddr => Nat

def start : State := { inners := [], registry := ∅ }

/-- `Weak::upgrade` succeeds while there is a handle. -/
def State.alive (s : State) (i : Nat) : Bool :=
  match s.inners[i]? with
  | some inner => decide (0 < inner.handles)
  | none => false

/-- The destructor of a transport, which finds the lock free. -/
def State.dropInner (s : State) (addr : SocketAddr) : State :=
  { s with registry := s.registry.erase addr }

/-- `new` registers a transport and returns its number. -/
def State.new (s : State) (addr : SocketAddr) : Outcome Nat × State :=
  let register : Outcome Nat × State :=
    (.ok s.inners.length,
      { inners := s.inners ++ [{ addr := addr, handles := 1 }]
        registry := s.registry.insert addr s.inners.length })
  match s.registry.lookup addr with
  | some existing =>
    if s.alive existing then
      -- The guard is dropped first, and then the transport that was built.
      (.error (.err (.network ("Address " ++ addr.display ++ " already registered"))),
        s.dropInner addr)
    else register
  | none => register

def State.setHandles (s : State) (i : Nat) (f : Nat → Nat) : State :=
  { s with inners := s.inners.modify i fun inner => { inner with handles := f inner.handles } }

/-- A clone of a handle, if there is one. -/
def State.clone (s : State) (i : Nat) : State := if s.alive i then s.setHandles i (· + 1) else s

/-- One handle goes, and with the last one the transport. -/
def State.drop (s : State) (i : Nat) : State :=
  match s.inners[i]? with
  | none => s
  | some inner =>
    if inner.handles = 0 then s
    else if inner.handles = 1 then (s.setHandles i (· - 1)).dropInner inner.addr
    else s.setHandles i (· - 1)

/-- `lookup` returns a handle of its own. -/
def State.lookup (s : State) (addr : SocketAddr) : Option Nat × State :=
  match s.registry.lookup addr with
  | some existing =>
    if s.alive existing then (some existing, s.setHandles existing (· + 1))
    else (none, { s with registry := s.registry.erase addr })
  | none => (none, s)

inductive Op where
  | new (addr : SocketAddr)
  | clone (i : Nat)
  | drop (i : Nat)
  | lookup (addr : SocketAddr)

def step (s : State) : Op → State
  | .new addr => (s.new addr).2
  | .clone i => s.clone i
  | .drop i => s.drop i
  | .lookup addr => (s.lookup addr).2

/-- The transport was the last one that `new` returned for the address. -/
def MostRecent (s : State) (addr : SocketAddr) (i : Nat) : Prop :=
  (∃ inner, s.inners[i]? = some inner ∧ inner.addr = addr) ∧
    ∀ j inner, s.inners[j]? = some inner → inner.addr = addr → j ≤ i

/-- `lookup` finds the most recent transport of an address while it has handles, and nothing
otherwise. -/
def Exact (s : State) : Prop :=
  ∀ addr i, (s.lookup addr).1 = some i ↔ MostRecent s addr i ∧ s.alive i = true

/-- The address of a new transport is not that of one that is alive and registered. -/
def FreeAddress (s : State) : Op → Prop
  | .new addr => ∀ i, s.registry.lookup addr = some i → s.alive i = false
  | _ => True

/-! ## What one operation does -/

variable {s s' : State} {op : Op}

theorem alive_iff {i : Nat} :
    s.alive i = true ↔ ∃ inner, s.inners[i]? = some inner ∧ 0 < inner.handles := by
  unfold State.alive
  cases s.inners[i]? with
  | none => simp
  | some inner => simp

theorem lookup_eq_some_iff {addr : SocketAddr} {i : Nat} :
    (s.lookup addr).1 = some i ↔ s.registry.lookup addr = some i ∧ s.alive i = true := by
  unfold State.lookup
  cases s.registry.lookup addr with
  | none => simp
  | some existing =>
    by_cases halive : s.alive existing = true
    · simp only [halive, if_true, Option.some.injEq]
      constructor
      · intro h
        subst h
        exact ⟨rfl, halive⟩
      · intro h
        exact h.1
    · simp only [halive, Option.some.injEq]
      constructor
      · intro h
        cases h
      · intro ⟨h, halive'⟩
        subst h
        exact absurd halive' halive

/-- The handles of one transport change, and no address does. -/
theorem getElem?_setHandles (s : State) (i : Nat) (f : Nat → Nat) (j : Nat) :
    (s.setHandles i f).inners[j]? = (s.inners[j]?).map fun inner =>
      { inner with handles := if i = j then f inner.handles else inner.handles } := by
  show (s.inners.modify i _)[j]? = _
  rw [List.getElem?_modify]
  cases s.inners[j]? with
  | none => rfl
  | some inner =>
    by_cases hij : i = j
    · simp [hij]
    · simp [hij]

theorem setHandles_cases {i j : Nat} {f : Nat → Nat} {inner : Inner}
    (h : (s.setHandles i f).inners[j]? = some inner) :
    ∃ old, s.inners[j]? = some old ∧ inner.addr = old.addr ∧
      inner.handles = if i = j then f old.handles else old.handles := by
  rw [getElem?_setHandles] at h
  obtain ⟨old, hold, rfl⟩ := Option.map_eq_some_iff.mp h
  exact ⟨old, hold, rfl, rfl⟩

/-- Where a change of handles brings nothing to life, what is alive was so before. -/
theorem live_of_setHandles {i j : Nat} {f : Nat → Nat} {inner : Inner}
    (hf : ∀ inner, s.inners[i]? = some inner → 0 < f inner.handles → 0 < inner.handles)
    (hinner : (s.setHandles i f).inners[j]? = some inner) (hpos : 0 < inner.handles) :
    ∃ old, s.inners[j]? = some old ∧ inner.addr = old.addr ∧ 0 < old.handles := by
  obtain ⟨old, hold, haddr, hhandles⟩ := setHandles_cases hinner
  refine ⟨old, hold, haddr, ?_⟩
  by_cases hij : i = j
  · subst hij
    rw [if_pos rfl] at hhandles
    exact hf old hold (hhandles ▸ hpos)
  · rw [if_neg hij] at hhandles
    exact hhandles ▸ hpos

/-- One constructor for each thing an operation can do. -/
inductive StepSpec (s : State) : Op → State → Prop where
  | registered {addr : SocketAddr}
      (hfree : ∀ i, s.registry.lookup addr = some i → s.alive i = false) :
      StepSpec s (.new addr)
        { inners := s.inners ++ [{ addr := addr, handles := 1 }]
          registry := s.registry.insert addr s.inners.length }
  | refused {addr : SocketAddr} {i : Nat} (hentry : s.registry.lookup addr = some i)
      (halive : s.alive i = true) : StepSpec s (.new addr) (s.dropInner addr)
  | idle {op : Op} (hop : ∀ addr, op ≠ .new addr) : StepSpec s op s
  | counted {op : Op} {i : Nat} {inner : Inner} {f : Nat → Nat} (hop : ∀ addr, op ≠ .new addr)
      (hinner : s.inners[i]? = some inner) (halive : 0 < inner.handles)
      (hpos : 0 < f inner.handles) : StepSpec s op (s.setHandles i f)
  | last {i : Nat} {inner : Inner} (hinner : s.inners[i]? = some inner)
      (hone : inner.handles = 1) :
      StepSpec s (.drop i) ((s.setHandles i (· - 1)).dropInner inner.addr)
  | forgotten {addr : SocketAddr} {i : Nat} (hentry : s.registry.lookup addr = some i)
      (hdead : s.alive i = false) : StepSpec s (.lookup addr) (s.dropInner addr)

theorem new_spec (s : State) (addr : SocketAddr) : StepSpec s (.new addr) (s.new addr).2 := by
  unfold State.new
  cases hentry : s.registry.lookup addr with
  | none =>
    refine .registered ?_
    intro i hi
    rw [hentry] at hi
    cases hi
  | some existing =>
    by_cases halive : s.alive existing = true
    · simp only [halive, if_true]
      exact .refused hentry halive
    · simp only [halive]
      refine .registered ?_
      intro i hi
      rw [hentry] at hi
      obtain rfl := Option.some.inj hi
      exact Bool.eq_false_iff.mpr halive

theorem clone_spec (s : State) (i : Nat) : StepSpec s (.clone i) (s.clone i) := by
  have hop : ∀ addr, Op.clone i ≠ .new addr := fun _ h => by cases h
  unfold State.clone
  by_cases halive : s.alive i = true
  · obtain ⟨inner, hinner, hpos⟩ := alive_iff.mp halive
    rw [if_pos halive]
    exact .counted hop hinner hpos (Nat.succ_pos _)
  · rw [if_neg halive]
    exact .idle hop

theorem drop_spec (s : State) (i : Nat) : StepSpec s (.drop i) (s.drop i) := by
  have hop : ∀ addr, Op.drop i ≠ .new addr := fun _ h => by cases h
  unfold State.drop
  cases hinner : s.inners[i]? with
  | none => exact .idle hop
  | some inner =>
    dsimp only
    by_cases hzero : inner.handles = 0
    · rw [if_pos hzero]
      exact .idle hop
    rw [if_neg hzero]
    by_cases hone : inner.handles = 1
    · rw [if_pos hone]
      exact .last hinner hone
    · rw [if_neg hone]
      have hmore : 0 < inner.handles - 1 := by omega
      exact .counted hop hinner (Nat.pos_of_ne_zero hzero) hmore

theorem lookup_spec (s : State) (addr : SocketAddr) :
    StepSpec s (.lookup addr) (s.lookup addr).2 := by
  have hop : ∀ addr', Op.lookup addr ≠ .new addr' := fun _ h => by cases h
  unfold State.lookup
  cases hentry : s.registry.lookup addr with
  | none => exact .idle hop
  | some existing =>
    by_cases halive : s.alive existing = true
    · obtain ⟨inner, hinner, hpos⟩ := alive_iff.mp halive
      simp only [halive, if_true]
      exact .counted hop hinner hpos (Nat.succ_pos _)
    · simp only [halive]
      exact .forgotten hentry (Bool.eq_false_iff.mpr halive)

theorem step_spec (s : State) (op : Op) : StepSpec s op (step s op) := by
  cases op with
  | new addr => exact new_spec s addr
  | clone i => exact clone_spec s i
  | drop i => exact drop_spec s i
  | lookup addr => exact lookup_spec s addr

/-! ## The registry and the live transports -/

/-- Entries lead to transports with their address, and a live transport is the most recent
one at its address. -/
structure Valid (s : State) : Prop where
  entries : ∀ addr i, s.registry.lookup addr = some i →
    ∃ inner, s.inners[i]? = some inner ∧ inner.addr = addr
  current : ∀ (i : Nat) (inner : Inner) (j : Nat) (other : Inner), s.inners[i]? = some inner →
    0 < inner.handles → s.inners[j]? = some other → other.addr = inner.addr → j ≤ i

/-- Every live transport is registered. -/
def Registered (s : State) : Prop :=
  ∀ (i : Nat) (inner : Inner), s.inners[i]? = some inner → 0 < inner.handles →
    s.registry.lookup inner.addr = some i

theorem Valid.exact_iff (h : Valid s) : Exact s ↔ Registered s := by
  constructor
  · intro hexact i inner hinner hpos
    have hrecent : MostRecent s inner.addr i := by
      refine ⟨⟨inner, hinner, rfl⟩, ?_⟩
      intro j other hother haddr
      exact h.current i inner j other hinner hpos hother haddr
    have hfound := (hexact inner.addr i).mpr ⟨hrecent, alive_iff.mpr ⟨inner, hinner, hpos⟩⟩
    exact (lookup_eq_some_iff.mp hfound).1
  · intro hregistered addr i
    rw [lookup_eq_some_iff]
    constructor
    · intro ⟨hentry, halive⟩
      obtain ⟨inner, hinner, haddr⟩ := h.entries addr i hentry
      obtain ⟨inner', hinner', hpos⟩ := alive_iff.mp halive
      obtain rfl : inner = inner' := Option.some.inj (hinner.symm.trans hinner')
      refine ⟨⟨⟨inner, hinner, haddr⟩, ?_⟩, halive⟩
      intro j other hother hsame
      exact h.current i inner j other hinner hpos hother (hsame.trans haddr.symm)
    · intro ⟨⟨⟨inner, hinner, haddr⟩, _⟩, halive⟩
      obtain ⟨inner', hinner', hpos⟩ := alive_iff.mp halive
      obtain rfl : inner = inner' := Option.some.inj (hinner.symm.trans hinner')
      rw [← haddr]
      exact ⟨hregistered i inner hinner hpos, halive⟩

/-- The address of a live transport is not free. -/
theorem Registered.addr_ne (h : Registered s) {addr : SocketAddr}
    (hfree : ∀ i, s.registry.lookup addr = some i → s.alive i = false) {i : Nat} {inner : Inner}
    (hinner : s.inners[i]? = some inner) (hpos : 0 < inner.handles) : inner.addr ≠ addr := by
  intro haddr
  have hentry := h i inner hinner hpos
  rw [haddr] at hentry
  have hdead := hfree i hentry
  rw [alive_iff.mpr ⟨inner, hinner, hpos⟩] at hdead
  cases hdead

theorem lookup_dropInner_eq_some {addr addr' : SocketAddr} {i : Nat}
    (h : (s.dropInner addr).registry.lookup addr' = some i) :
    s.registry.lookup addr' = some i := by
  unfold State.dropInner at h
  by_cases haddr : addr' = addr
  · subst haddr
    simp at h
  · rwa [AList.lookup_erase_ne haddr] at h

theorem Valid.dropInner (h : Valid s) (addr : SocketAddr) : Valid (s.dropInner addr) :=
  ⟨fun addr' i hentry => h.entries addr' i (lookup_dropInner_eq_some hentry), h.current⟩

theorem Valid.setHandles (h : Valid s) {i : Nat} {f : Nat → Nat}
    (hf : ∀ inner, s.inners[i]? = some inner → 0 < f inner.handles → 0 < inner.handles) :
    Valid (s.setHandles i f) := by
  constructor
  · intro addr j hentry
    obtain ⟨inner, hinner, haddr⟩ := h.entries addr j hentry
    rw [getElem?_setHandles, hinner]
    exact ⟨_, rfl, haddr⟩
  · intro j inner k other hinner hpos hother hsame
    obtain ⟨old, hold, haddr, hlive⟩ := live_of_setHandles hf hinner hpos
    obtain ⟨old', hold', haddr', -⟩ := setHandles_cases hother
    exact h.current j old k old' hold hlive hold' (by rw [← haddr', ← haddr, hsame])

theorem Valid.register (h : Valid s) (hregistered : Registered s) {addr : SocketAddr}
    (hfree : ∀ i, s.registry.lookup addr = some i → s.alive i = false) :
    Valid { inners := s.inners ++ [{ addr := addr, handles := 1 }]
            registry := s.registry.insert addr s.inners.length } := by
  constructor
  · intro addr' i hentry
    by_cases haddr : addr' = addr
    · subst haddr
      rw [AList.lookup_insert] at hentry
      rw [← Option.some.inj hentry]
      exact ⟨_, List.getElem?_concat_length, rfl⟩
    · rw [AList.lookup_insert_ne haddr] at hentry
      obtain ⟨inner, hinner, hinnerAddr⟩ := h.entries addr' i hentry
      exact ⟨inner, getElem?_concat_of_some hinner _, hinnerAddr⟩
  · intro i inner j other hinner hpos hother hsame
    rcases getElem?_concat_slot hinner with hinner | ⟨rfl, rfl⟩
    · rcases getElem?_concat_slot hother with hother | ⟨rfl, rfl⟩
      · exact h.current i inner j other hinner hpos hother hsame
      · exact absurd hsame.symm (hregistered.addr_ne hfree hinner hpos)
    · have hlt := (List.getElem?_eq_some_iff.mp hother).1
      rw [List.length_append, List.length_singleton] at hlt
      exact Nat.le_of_lt_succ hlt

theorem Valid.step (h : Valid s) (hregistered : Registered s) (op : Op) : Valid (step s op) := by
  have hspec := step_spec s op
  generalize InMemoryNetwork.step s op = s' at hspec ⊢
  cases hspec with
  | @registered addr hfree => exact h.register hregistered hfree
  | refused _ _ => exact h.dropInner _
  | idle _ => exact h
  | counted _ hinner halive _ =>
    refine h.setHandles ?_
    intro inner' hinner' _
    rw [hinner] at hinner'
    exact Option.some.inj hinner' ▸ halive
  | last hinner hone =>
    refine (h.setHandles ?_).dropInner _
    intro inner' _ hpos
    omega
  | forgotten _ _ => exact h.dropInner _

/-- The entry of an address without a live transport can go. -/
theorem Registered.dropInner (h : Registered s) {addr : SocketAddr}
    (hfree : ∀ (i : Nat) (inner : Inner), s.inners[i]? = some inner → 0 < inner.handles →
      inner.addr ≠ addr) :
    Registered (s.dropInner addr) := by
  intro i inner hinner hpos
  show (s.registry.erase addr).lookup inner.addr = some i
  rw [AList.lookup_erase_ne (hfree i inner hinner hpos)]
  exact h i inner hinner hpos

theorem Registered.setHandles (h : Registered s) {i : Nat} {f : Nat → Nat}
    (hf : ∀ inner, s.inners[i]? = some inner → 0 < f inner.handles → 0 < inner.handles) :
    Registered (s.setHandles i f) := by
  intro j inner hinner hpos
  obtain ⟨old, hold, haddr, hlive⟩ := live_of_setHandles hf hinner hpos
  rw [haddr]
  exact h j old hold hlive

theorem freeAddress_of_ne_new (hop : ∀ addr, op ≠ .new addr) : FreeAddress s op := by
  cases op with
  | new addr => exact absurd rfl (hop addr)
  | clone i => trivial
  | drop i => trivial
  | lookup addr => trivial

/-- An operation keeps every live transport registered exactly when it is not a `new` for
the address of one. -/
theorem registered_step_iff (hvalid : Valid s) (h : Registered s) (op : Op) :
    Registered (step s op) ↔ FreeAddress s op := by
  have hspec := step_spec s op
  generalize InMemoryNetwork.step s op = s' at hspec ⊢
  cases hspec with
  | @registered addr hfree =>
    refine iff_of_true ?_ hfree
    intro i inner hinner hpos
    rcases getElem?_concat_slot hinner with hinner | ⟨rfl, rfl⟩
    · have hne := h.addr_ne hfree hinner hpos
      show (s.registry.insert addr s.inners.length).lookup inner.addr = some i
      rw [AList.lookup_insert_ne hne]
      exact h i inner hinner hpos
    · exact AList.lookup_insert _
  | @refused addr i hentry halive =>
    refine iff_of_false ?_ ?_
    · intro hregistered
      obtain ⟨inner, hinner, haddr⟩ := hvalid.entries addr i hentry
      obtain ⟨inner', hinner', hpos⟩ := alive_iff.mp halive
      obtain rfl : inner = inner' := Option.some.inj (hinner.symm.trans hinner')
      have hgone : (s.registry.erase addr).lookup inner.addr = some i :=
        hregistered i inner hinner hpos
      rw [haddr, AList.lookup_erase] at hgone
      cases hgone
    · intro hfree
      rw [hfree i hentry] at halive
      cases halive
  | idle hop => exact iff_of_true h (freeAddress_of_ne_new hop)
  | counted hop hinner halive _ =>
    refine iff_of_true (h.setHandles ?_) (freeAddress_of_ne_new hop)
    intro inner' hinner' _
    rw [hinner] at hinner'
    exact Option.some.inj hinner' ▸ halive
  | @last i inner hinner hone =>
    have hdies : ∀ inner', s.inners[i]? = some inner' → 0 < inner'.handles - 1 →
        0 < inner'.handles := by
      intro inner' _ hpos
      omega
    refine iff_of_true (Registered.dropInner (h.setHandles hdies) ?_) trivial
    -- Another live transport is registered at another address, and this one is alive no more.
    intro j other hother hpos haddr
    obtain ⟨old, hold, holdAddr, hlive⟩ := live_of_setHandles hdies hother hpos
    have hfirst := h i inner hinner (by omega)
    have hsecond := h j old hold hlive
    rw [← holdAddr, haddr, hfirst] at hsecond
    obtain rfl := Option.some.inj hsecond
    obtain ⟨old', hold', -, hhandles⟩ := setHandles_cases hother
    obtain rfl : inner = old' := Option.some.inj (hinner.symm.trans hold')
    rw [if_pos rfl] at hhandles
    omega
  | forgotten hentry hdead =>
    refine iff_of_true (Registered.dropInner h ?_) trivial
    intro i inner hinner hpos
    refine h.addr_ne ?_ hinner hpos
    intro j hj
    rw [hentry] at hj
    exact Option.some.inj hj ▸ hdead

theorem valid_start : Valid start where
  entries := fun _ _ h => nomatch h
  current := fun _ _ _ _ h => nomatch h

/-- The registry tracks the live transports throughout a run exactly when no `new` of it is
called for the address of a transport that is alive and registered. -/
theorem registry_exact_iff (ops : List Op) :
    Throughout step Exact start ops ↔ Meets step FreeAddress start ops := by
  refine throughout_iff_meets_of_throughout (I := Valid) ?_ ?_ valid_start ?_
  · intro s op hvalid hexact
    exact hvalid.step (hvalid.exact_iff.mp hexact) op
  · intro s op hvalid hexact
    have hregistered := hvalid.exact_iff.mp hexact
    rw [(hvalid.step hregistered op).exact_iff]
    exact registered_step_iff hvalid hregistered op
  · exact valid_start.exact_iff.mpr fun _ _ h => nomatch h

/-- Two transports for one address. -/
def takenAddress : List Op := [.new (.v4 0x7f000001#32 8000), .new (.v4 0x7f000001#32 8000)]

/-- The second transport is refused, and the first one is not found any more. -/
theorem refused_new_unregisters : ¬ ∀ ops : List Op, Throughout step Exact start ops := by
  intro h
  have hexact := (h takenAddress).last
  have hinners : (run step start takenAddress).inners =
      [{ addr := .v4 0x7f000001#32 8000, handles := 1 }] := rfl
  have hrecent : MostRecent (run step start takenAddress) (.v4 0x7f000001#32 8000) 0 := by
    rw [MostRecent, hinners]
    refine ⟨⟨_, rfl, rfl⟩, ?_⟩
    intro j inner hinner _
    have hlt := (List.getElem?_eq_some_iff.mp hinner).1
    exact Nat.le_of_lt_succ hlt
  have hfound := (hexact (.v4 0x7f000001#32 8000) 0).mpr ⟨hrecent, rfl⟩
  have hnone : ((run step start takenAddress).lookup (.v4 0x7f000001#32 8000)).1 = none := rfl
  rw [hnone] at hfound
  cases hfound

end InMemoryNetwork

end Kademlia
