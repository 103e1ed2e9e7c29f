import Mathlib.Data.List.Basic

/-!
# Queues in the order of use

`touch` puts an entry at the back of a queue with a new stamp.  An entry with the key of
one that the queue has stands for that one, which moves.  Touching entries one after
another keeps the keys of a queue distinct, and it appends the entries exactly when no
key comes twice.
-/

namespace Kademlia
namespace Lib

variable {α κ ι : Type} [BEq κ] (key : α → κ) (stamp : ι → α → α)

def touch (xs : List α) (entry : ι × α) : List α :=
  xs.eraseP (fun y => key y == key entry.2) ++
    [stamp entry.1 ((xs.find? fun y => key y == key entry.2).getD entry.2)]

variable {key stamp}

theorem length_touch_le (xs : List α) (entry : ι × α) :
    (touch key stamp xs entry).length ≤ xs.length + 1 := by
  rw [touch, List.length_append, List.length_singleton]
  exact Nat.succ_le_succ (List.eraseP_sublist).length_le

theorem length_touches_le (entries : List (ι × α)) (xs : List α) :
    (entries.foldl (touch key stamp) xs).length ≤ xs.length + entries.length := by
  induction entries generalizing xs with
  | nil => exact Nat.le_refl _
  | cons entry rest ih =>
    have hstep : (touch key stamp xs entry).length ≤ xs.length + 1 := length_touch_le xs entry
    have hrest := ih (touch key stamp xs entry)
    rw [List.foldl_cons, List.length_cons]
    omega

variable [LawfulBEq κ]

theorem touch_of_new {xs : List α} {entry : ι × α} (hnew : ∀ y ∈ xs, key y ≠ key entry.2) :
    touch key stamp xs entry = xs ++ [stamp entry.1 entry.2] := by
  have hnot : ∀ y ∈ xs, ¬ (key y == key entry.2) = true := by
    simpa using hnew
  rw [touch, List.eraseP_of_forall_not hnot, List.find?_eq_none.mpr hnot, Option.getD_none]

/-- The entry with the key is found and moves to the back. -/
theorem touch_of_split {l r : List α} {x : α} {entry : ι × α} (hx : key x = key entry.2)
    (hbefore : ∀ y ∈ l, key y ≠ key entry.2) :
    touch key stamp (l ++ x :: r) entry = l ++ r ++ [stamp entry.1 x] := by
  have hnot : ∀ y ∈ l, ¬ (key y == key entry.2) = true := by
    simpa using hbefore
  rw [touch, List.eraseP_append_right _ hnot, List.find?_append, List.find?_eq_none.mpr hnot]
  simp [hx]

/-- A queue has no entry with the key, or it splits at its first one. -/
theorem new_or_split (xs : List α) (k : κ) :
    (∀ y ∈ xs, key y ≠ k) ∨
      ∃ l x r, xs = l ++ x :: r ∧ key x = k ∧ ∀ y ∈ l, key y ≠ k := by
  cases hfind : xs.find? fun y => key y == k with
  | none => exact .inl (by simpa using hfind)
  | some x =>
    obtain ⟨hx, l, r, hsplit, hbefore⟩ := List.find?_eq_some_iff_append.mp hfind
    exact .inr ⟨l, x, r, hsplit, beq_iff_eq.mp hx, by simpa using hbefore⟩

theorem nodup_touch (hstamp : ∀ (i : ι) (x : α), key (stamp i x) = key x) {xs : List α}
    (h : (xs.map key).Nodup) (entry : ι × α) : ((touch key stamp xs entry).map key).Nodup := by
  rcases new_or_split xs (key entry.2) with hnew | ⟨l, x, r, rfl, hx, hbefore⟩
  · have hnot : key entry.2 ∉ xs.map key := by
      simpa using hnew
    rw [touch_of_new hnew, List.map_append, List.map_singleton, hstamp]
    exact (List.perm_append_singleton _ _).nodup_iff.mpr (List.nodup_cons.mpr ⟨hnot, h⟩)
  · rw [touch_of_split hx hbefore, List.map_append, List.map_singleton, hstamp]
    refine (List.perm_append_singleton _ _).nodup_iff.mpr ?_
    rw [List.map_append, List.map_cons] at h
    rw [List.map_append]
    exact List.perm_middle.nodup_iff.mp h

theorem nodup_touches (hstamp : ∀ (i : ι) (x : α), key (stamp i x) = key x)
    (entries : List (ι × α)) {xs : List α} (h : (xs.map key).Nodup) :
    ((entries.foldl (touch key stamp) xs).map key).Nodup := by
  induction entries generalizing xs with
  | nil => exact h
  | cons entry rest ih => exact ih (nodup_touch hstamp h entry)

/-- Entries with keys of their own are appended in their order. -/
theorem touches_of_nodup (hstamp : ∀ (i : ι) (x : α), key (stamp i x) = key x)
    {entries : List (ι × α)} {xs : List α}
    (h : (xs.map key ++ entries.map fun entry => key entry.2).Nodup) :
    entries.foldl (touch key stamp) xs = xs ++ entries.map fun entry => stamp entry.1 entry.2 := by
  induction entries generalizing xs with
  | nil => simp
  | cons entry rest ih =>
    have hnew : ∀ y ∈ xs, key y ≠ key entry.2 := by
      intro y hy
      exact (List.nodup_append.mp h).2.2 _ (List.mem_map_of_mem hy) _ List.mem_cons_self
    have hrest : ((xs ++ [stamp entry.1 entry.2]).map key ++
        rest.map fun entry => key entry.2).Nodup := by
      simpa [hstamp] using h
    rw [List.foldl_cons, touch_of_new hnew, ih hrest, List.append_assoc]
    rfl

end Lib
end Kademlia
