import Mathlib.Algebra.Group.Nat.Even
import Kademlia.Protocol.HealthCheck

/-!
# Chains of health checks

The handlers that wait for each other's replies form a chain.  Can a chain come back to
where it started?  It can, but not soon.  All nodes of a chain agree up to one bit position
and alternate at it, and a handler never checks the node it was asked by, so that a chain
from one node to another returns to the same two nodes after four, six, eight, ... checks
at the earliest.
-/

namespace Kademlia

open Lib

namespace HealthCheck

/-- Message `q` was caused by message `p` through so many health checks. -/
inductive Chain (routes : List Route) : Nat → Nat → Nat → Prop where
  | refl (p : Nat) : Chain routes 0 p p
  | next {j p q r : Nat} (hchain : Chain routes j p q)
      (hcause : routes[r]?.bind Route.cause = some q) : Chain routes (j + 1) p r

section Chain

variable {nodes : List Node} {routes : List Route} {j p q r : Nat}

theorem Chain.first (h : Chain routes (j + 1) p q) :
    ∃ r, routes[r]?.bind Route.cause = some p ∧ Chain routes j r q := by
  induction j generalizing q with
  | zero =>
    cases h with
    | next hchain hcause =>
      cases hchain
      exact ⟨q, hcause, .refl q⟩
  | succ j ih =>
    cases h with
    | next hchain hcause =>
      obtain ⟨r, hr, hrest⟩ := ih hchain
      exact ⟨r, hr, .next hrest hcause⟩

theorem Linked.of_cause (h : Linked nodes routes) (hcause : routes[r]?.bind Route.cause = some q) :
    ∃ before after, routes[q]? = some before ∧ routes[r]? = some after ∧ after.cause = some q ∧
      Link nodes before after := by
  obtain ⟨after, hafter, hq⟩ := Option.bind_eq_some_iff.mp hcause
  obtain ⟨before, hbefore, hlink⟩ := h r after q hafter hq
  exact ⟨before, after, hbefore, hafter, hq, hlink⟩

/-- The two nodes at the start of a chain are different. -/
theorem Chain.bucketIndex (hlinked : Linked nodes routes) (h : Chain routes j p q) (hj : 0 < j)
    {first : Route} (hfirst : routes[p]? = some first) {m n : NodeId}
    (hm : first.sourceId nodes = some m) (hn : first.targetId nodes = some n) :
    ∃ i, m.bucketIndex n = some i := by
  obtain ⟨j, rfl⟩ : ∃ k, j = k + 1 := ⟨j - 1, by omega⟩
  obtain ⟨r, hr, -⟩ := h.first
  obtain ⟨before, after, hbefore, -, -, here, there, index, hhere, hthere, -, hindex, -⟩ :=
    hlinked.of_cause hr
  obtain rfl := Option.some.inj (hfirst.symm.trans hbefore)
  obtain rfl := Option.some.inj (hn.symm.trans hhere)
  obtain rfl := Option.some.inj (hm.symm.trans hthere)
  rw [NodeId.bucketIndex_comm]
  exact ⟨index, hindex⟩

/-- The nodes of a chain agree up to position `i` and alternate at it. -/
theorem Chain.alternates (hlinked : Linked nodes routes)
    (hnamed : ∀ route ∈ routes, ∀ p, route.cause = some p → Names nodes route.target)
    (h : Chain routes j p q) {first : Route} (hfirst : routes[p]? = some first) {m n : NodeId}
    (hm : first.sourceId nodes = some m) (hn : first.targetId nodes = some n) {i : Nat}
    (hi : m.bucketIndex n = some i) :
    ∀ {last : Route} {a b : NodeId}, routes[q]? = some last → last.sourceId nodes = some a →
      last.targetId nodes = some b →
      a.bucketIndex b = some i ∧ (a.bitAt i = m.bitAt i ↔ Even j) := by
  induction h with
  | refl p =>
    intro last a b hlast ha hb
    obtain rfl := Option.some.inj (hfirst.symm.trans hlast)
    obtain rfl := Option.some.inj (hm.symm.trans ha)
    obtain rfl := Option.some.inj (hn.symm.trans hb)
    exact ⟨hi, iff_of_true rfl Even.zero⟩
  | @next j p q r hchain hcause ih =>
    intro last a b hlast ha hb
    obtain ⟨before, after, hbefore, hafter, hq, hlink⟩ := hlinked.of_cause hcause
    obtain rfl := Option.some.inj (hafter.symm.trans hlast)
    obtain ⟨here, there, index, hhere, hthere, ha', hindex, htarget, -⟩ := hlink
    obtain rfl := Option.some.inj (ha'.symm.trans ha)
    obtain ⟨hbucket, hbit⟩ := ih hfirst hbefore hthere hhere
    rw [NodeId.bucketIndex_comm, hindex] at hbucket
    obtain rfl := Option.some.inj hbucket
    have hb' : b = after.target.id := (hnamed after (List.mem_of_getElem? hafter) q hq).targetId hb
    have hne := (NodeId.bucketIndex_eq_some_iff.mp hindex).2.1
    refine ⟨hb' ▸ htarget, ?_⟩
    rw [Nat.even_add_one, ← hbit]
    revert hne
    cases here.bitAt index <;> cases there.bitAt index <;> cases m.bitAt index <;> simp

end Chain

/-- The second health check of a chain is not sent by the node that started it. -/
theorem Chain.two_ne {nodes : List Node} {routes : List Route} (hlinked : Linked nodes routes)
    (hnamed : ∀ route ∈ routes, ∀ p, route.cause = some p → Names nodes route.target) {p q : Nat}
    (h : Chain routes 2 p q) {first last : Route} (hfirst : routes[p]? = some first)
    (hlast : routes[q]? = some last) : last.sourceId nodes ≠ first.sourceId nodes := by
  obtain ⟨r, hr, hrest⟩ := h.first
  obtain ⟨q', hq', hend⟩ := hrest.first
  cases hend
  obtain ⟨first', middle, hfirst', hmiddle, hp, here, there, -, -, hthere, -, -, -, hne⟩ :=
    hlinked.of_cause hr
  obtain ⟨middle', last', hmiddle', hlast', -, here', -, -, hhere', -, hsource, -⟩ :=
    hlinked.of_cause hq'
  obtain rfl := Option.some.inj (hfirst.symm.trans hfirst')
  obtain rfl := Option.some.inj (hlast.symm.trans hlast')
  obtain rfl := Option.some.inj (hmiddle.symm.trans hmiddle')
  have hnames := hnamed middle (List.mem_of_getElem? hmiddle) p hp
  rw [hsource, hthere, hnames.targetId hhere']
  exact fun h => hne (Option.some.inj h)

/-- The first health check of a chain is not sent by the node that started it. -/
theorem Chain.one_ne {nodes : List Node} {routes : List Route} (hlinked : Linked nodes routes)
    {p q : Nat} (h : Chain routes 1 p q) {first last : Route} (hfirst : routes[p]? = some first)
    (hlast : routes[q]? = some last) : last.sourceId nodes ≠ first.sourceId nodes := by
  obtain ⟨r, hr, hend⟩ := h.first
  cases hend
  obtain ⟨first', last', hfirst', hlast', -, here, there, index, -, hthere, hsource, hindex, -⟩ :=
    hlinked.of_cause hr
  obtain rfl := Option.some.inj (hfirst.symm.trans hfirst')
  obtain rfl := Option.some.inj (hlast.symm.trans hlast')
  rw [hsource, hthere]
  exact fun h => NodeId.ne_of_bucketIndex hindex (Option.some.inj h).symm

/-! ## Circles -/

/-- A message from one node to another is never caused by an earlier message between the
same nodes through one health check.  Where the entries of the tables carry the address
of the node they name, the number of health checks is even and at least four. -/
theorem circle_length (peers : List Peer) (events : List Event) (j p q : Nat) (m n : NodeId)
    (hj : 0 < j) (hchain : Chain (run step (start peers) events).routes j p q)
    (hp : (run step (start peers) events).Between p m n)
    (hq : (run step (start peers) events).Between q m n) :
    2 ≤ j ∧ (Addressed (start peers).nodes peers → Even j ∧ 4 ≤ j) := by
  have hlinked := linked_run peers events
  have hchecked : Addressed (start peers).nodes peers → Checked (run step (start peers) events) :=
    fun h => checked_run h events
  generalize run step (start peers) events = s at hchain hp hq hlinked hchecked
  obtain ⟨first, hfirst, hm⟩ := Option.bind_eq_some_iff.mp hp.1
  obtain ⟨last, hlast, hm'⟩ := Option.bind_eq_some_iff.mp hq.1
  have hn : first.targetId s.nodes = some n := by
    have hn := hp.2
    rwa [hfirst, Option.bind_some] at hn
  have hn' : last.targetId s.nodes = some n := by
    have hn' := hq.2
    rwa [hlast, Option.bind_some] at hn'
  have hsource : last.sourceId s.nodes = first.sourceId s.nodes := hm'.trans hm.symm
  have hone : j ≠ 1 := by
    rintro rfl
    exact hchain.one_ne hlinked hfirst hlast hsource
  refine ⟨by omega, fun haddressed => ?_⟩
  have hnamed := (hchecked haddressed).2
  have htwo : j ≠ 2 := by
    rintro rfl
    exact hchain.two_ne hlinked hnamed hfirst hlast hsource
  have heven : Even j := by
    obtain ⟨i, hi⟩ := hchain.bucketIndex hlinked hj hfirst hm hn
    exact (hchain.alternates hlinked hnamed hfirst hm hn hi hlast hm' hn').2.mp rfl
  refine ⟨heven, ?_⟩
  obtain ⟨half, rfl⟩ := heven
  omega

/-- A node that knows one other node. -/
def knowing (node contact : Node) : Peer :=
  { node := node
    table := (RoutingTable.withK node.id 1).step (.update (.at 0) contact)
    placed := (RoutingTable.placed_withK node.id 1).step _
    local_eq := ((RoutingTable.placed_withK node.id 1).step_spec _).params.1 }

def host (byte : UInt8) (port : UInt16) : Node :=
  Node.new (NodeId.fromBytes [byte]) (.v4 0x7f000001#32 port)

/-- Four nodes, each of which knows only the next one. -/
def circle : List Peer :=
  [knowing (host 0x00 8000) (host 0x80 8001), knowing (host 0x80 8001) (host 0x40 8002),
    knowing (host 0x40 8002) (host 0xC0 8003), knowing (host 0xC0 8003) (host 0x00 8000)]

/-- The first node asks the second, and each handler checks the node it knows. -/
def circleEvents : List Event :=
  [.send 0 (host 0x80 8001), .step 0 (.contact (.at 1)), .step 1 (.contact (.at 1)),
    .step 2 (.contact (.at 1)), .step 3 (.contact (.at 1))]

theorem circle_addressed : Addressed (start circle).nodes circle := by
  have hentries : ∀ peer ∈ circle, Names (start circle).nodes peer.node ∧
      ∀ n ∈ peer.table.entries, Names (start circle).nodes n := by
    decide +kernel
  intro peer hpeer
  exact ⟨(hentries peer hpeer).1, RoutingTable.allEntries_of_entries (hentries peer hpeer).2⟩

def circleRoutes : List Route :=
  [{ source := 0, target := host 0x80 8001, cause := none },
    { source := 1, target := (host 0x40 8002).updateLastSeen (.at 0), cause := some 0 },
    { source := 2, target := (host 0xC0 8003).updateLastSeen (.at 0), cause := some 1 },
    { source := 3, target := (host 0x00 8000).updateLastSeen (.at 0), cause := some 2 },
    { source := 0, target := (host 0x80 8001).updateLastSeen (.at 0), cause := some 3 }]

theorem circle_routes : (run step (start circle) circleEvents).routes = circleRoutes := by
  decide +kernel

theorem circle_chain : Chain (run step (start circle) circleEvents).routes 4 0 4 := by
  rw [circle_routes]
  have hone : Chain circleRoutes 1 0 1 := .next (.refl 0) rfl
  have htwo : Chain circleRoutes 2 0 2 := .next hone rfl
  have hthree : Chain circleRoutes 3 0 3 := .next htwo rfl
  exact .next hthree rfl

theorem circle_between : ∀ p ∈ [0, 4],
    (run step (start circle) circleEvents).Between p (host 0x00 8000).id (host 0x80 8001).id := by
  unfold State.Between
  rw [circle_routes, nodes_run]
  decide +kernel

theorem circle_length_four :
    Chain (run step (start circle) circleEvents).routes 4 0 4 ∧ 2 ≤ 4 ∧ Even 4 ∧ 4 ≤ 4 := by
  have hlength := circle_length circle circleEvents 4 0 4 (host 0x00 8000).id (host 0x80 8001).id
    (by decide) circle_chain (circle_between 0 (by decide)) (circle_between 4 (by decide))
  exact ⟨circle_chain, hlength.1, hlength.2 circle_addressed⟩

/-- The event is not the end of a health check by a timeout or an error. -/
def Event.timely : Event → Bool
  | .step _ (.timeout _) | .step _ .error => false
  | _ => true

def State.unanswered (s : State) (p : Nat) : Bool :=
  s.messages[p]?.any fun message => !message.replied

theorem circle_closes :
    ¬ ∀ (peers : List Peer) (events : List Event), Addressed (start peers).nodes peers →
      (∀ e ∈ events, e.timely = true) → ∀ (j p q : Nat) (m n : NodeId), 0 < j →
      Chain (run step (start peers) events).routes j p q →
      (run step (start peers) events).Between p m n →
      (run step (start peers) events).unanswered p = true →
      ¬ (run step (start peers) events).Between q m n := by
  intro h
  exact h circle circleEvents circle_addressed (by decide) 4 0 4 (host 0x00 8000).id
    (host 0x80 8001).id (by decide) circle_chain (circle_between 0 (by decide)) (by decide +kernel)
    (circle_between 4 (by decide))

end HealthCheck

end Kademlia
