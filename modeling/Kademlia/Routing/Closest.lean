import Kademlia.Lib.Nearest
import Kademlia.NodeId.Metric
import Kademlia.Routing.RoutingTable

/-!
# The contacts closest to a target

Contacts are compared by their distance to the target.  The closest contacts of a table are
taken from all its buckets.
-/

namespace Kademlia

open Lib

namespace RoutingTable

def getClosest (t : RoutingTable) (target : NodeId) (count : Nat) : List Node :=
  nearest (fun node : Node => node.id.distance target) count t.getAllNodes

/-- The contacts found are the `count` closest ones, or all contacts when there are fewer. -/
theorem getClosest_spec (t : RoutingTable) (target : NodeId) (count : Nat) :
    Nearest (fun node : Node => node.id.distance target) t.getAllNodes count
      (t.getClosest target count) :=
  nearest_spec _ count t.getAllNodes

theorem nodup_distance {nodes : List Node} (target : NodeId) (h : (nodes.map Node.id).Nodup) :
    (nodes.map fun node => node.id.distance target).Nodup := by
  rw [List.Nodup, List.pairwise_map] at h ⊢
  refine h.imp ?_
  intro a b hne heq
  exact hne (NodeId.distance_inj heq)

theorem nodeCount_eq (t : RoutingTable) : t.nodeCount = t.getAllNodes.length := by
  rw [nodeCount, getAllNodes, List.length_flatMap]

theorem keyLT_distance_iff {target : NodeId} {a b : Node} :
    KeyLT (fun node : Node => node.id.distance target) a b ↔
      (a.id.distance target).toNat < (b.id.distance target).toNat := by
  rw [KeyLT, NodeId.compare_eq_compare_toNat, Nat.compare_eq_lt]

/-- The order of the buckets makes no difference to the contacts found. -/
theorem getClosest_eq_of_perm {t t' : RoutingTable} (h : (t.getAllNodes.map Node.id).Nodup)
    (hperm : t'.buckets.entries.Perm t.buckets.entries) (target : NodeId) (count : Nat) :
    t'.getClosest target count = t.getClosest target count := by
  have hnodes : t.getAllNodes.Perm t'.getAllNodes := hperm.symm.flatMap_right _
  rw [getClosest, getClosest, nearest, nearest,
    sortByKey_eq_of_perm (nodup_distance target h) hnodes]

/-- The contacts found are as many as asked for and as there are, strictly sorted by their
distances, and every other contact is farther away.  No order of the buckets changes them. -/
theorem getClosest_exact (t : RoutingTable) (h : (t.getAllNodes.map Node.id).Nodup)
    (target : NodeId) (count : Nat) :
    (∀ t' : RoutingTable, t'.buckets.entries.Perm t.buckets.entries →
      t'.getClosest target count = t.getClosest target count) ∧
    (t.getClosest target count).length = min count t.nodeCount ∧
    ((t.getClosest target count).Pairwise fun a b =>
      (a.id.distance target).toNat < (b.id.distance target).toNat) ∧
    ∃ others, (t.getClosest target count ++ others).Perm t.getAllNodes ∧
      ∀ a ∈ t.getClosest target count, ∀ b ∈ others,
        (a.id.distance target).toNat < (b.id.distance target).toNat := by
  have hspec := t.getClosest_spec target count
  obtain ⟨hsorted, others, hperm, hlt⟩ := hspec.strict (nodup_distance target h)
  refine ⟨?_, ?_, ?_, others, hperm, ?_⟩
  · intro t' hentries
    exact getClosest_eq_of_perm h hentries target count
  · rw [nodeCount_eq]
    exact hspec.length
  · exact hsorted.imp keyLT_distance_iff.mp
  · intro a ha b hb
    exact keyLT_distance_iff.mp (hlt a ha b hb)

/-- Two buckets in either order. -/
theorem getClosest_exact_two :
    ((RoutingTable.new (.fromBytes [0])).step (.update (.at 0) (Node.ofByte 0x80))
      |>.step (.update (.at 0) (Node.ofByte 0x10))).getClosest (.fromBytes [0x11]) 1 =
    ((RoutingTable.new (.fromBytes [0])).step (.update (.at 0) (Node.ofByte 0x10))
      |>.step (.update (.at 0) (Node.ofByte 0x80))).getClosest (.fromBytes [0x11]) 1 := by
  refine (getClosest_exact _ ?_ _ 1).1 _ ?_
  · decide +kernel
  · decide +kernel

example : ((RoutingTable.new (.fromBytes [0])).step (.update (.at 0) (Node.ofByte 0x80))
    |>.step (.update (.at 0) (Node.ofByte 0x10))).getClosest (.fromBytes [0x11]) 2 =
      [(Node.ofByte 0x10).updateLastSeen (.at 0), (Node.ofByte 0x80).updateLastSeen (.at 0)] := by
  decide +kernel

end RoutingTable

end Kademlia
