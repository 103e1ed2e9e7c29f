import Mathlib.Algebra.Ring.Int.Defs
import Mathlib.Data.List.Basic

/-!
# Slots

The parties of a system are kept in a list and named by their position.  A step
overwrites one slot or opens a new one at the end.  The lemmas say what every position
holds afterwards.
-/

namespace Kademlia
namespace Lib

variable {α β : Type} {slots : List α} {i j : Nat} {a b new : α}

theorem getElem?_set_slot (h : slots[i]? = some a) (new : α) (j : Nat) :
    (slots.set i new)[j]? = if i = j then some new else slots[j]? := by
  obtain ⟨hlt, -⟩ := List.getElem?_eq_some_iff.mp h
  rw [List.getElem?_set]
  split_ifs with hij
  · rfl
  · rfl

/-- What is found after a slot was overwritten. -/
theorem getElem?_set_cases (h : (slots.set i new)[j]? = some a) :
    (i = j ∧ a = new) ∨ (i ≠ j ∧ slots[j]? = some a) := by
  rw [List.getElem?_set] at h
  split_ifs at h with hij hlt
  · exact .inl ⟨hij, (Option.some.inj h).symm⟩
  · exact .inr ⟨hij, h⟩

/-- Overwriting a slot keeps what the old and the new content agree on. -/
theorem map_set_slot (f : α → β) (h : slots[i]? = some b) (hf : f a = f b) :
    (slots.set i a).map f = slots.map f := by
  apply List.ext_getElem?
  intro j
  rw [List.getElem?_map, List.getElem?_map, getElem?_set_slot h]
  by_cases hij : i = j
  · subst hij
    rw [if_pos rfl, h, Option.map_some, Option.map_some, hf]
  · rw [if_neg hij]

/-- What the slots hold together after one was overwritten. -/
theorem sum_map_set (f : α → Int) (h : slots[i]? = some b) :
    ((slots.set i a).map f).sum + f b = (slots.map f).sum + f a := by
  induction slots generalizing i with
  | nil => cases h
  | cons first rest ih =>
    cases i with
    | zero =>
      obtain rfl := Option.some.inj h
      rw [List.set_cons_zero, List.map_cons, List.map_cons, List.sum_cons, List.sum_cons]
      omega
    | succ i =>
      have hrest := ih h
      rw [List.set_cons_succ, List.map_cons, List.map_cons, List.sum_cons, List.sum_cons]
      omega

theorem getElem?_concat_of_some (h : slots[i]? = some a) (new : α) :
    (slots ++ [new])[i]? = some a := by
  obtain ⟨hlt, -⟩ := List.getElem?_eq_some_iff.mp h
  rw [List.getElem?_append_left hlt, h]

theorem getElem?_concat_slot (h : (slots ++ [new])[i]? = some a) :
    slots[i]? = some a ∨ i = slots.length ∧ a = new := by
  rw [List.getElem?_append] at h
  split_ifs at h with hlt
  · exact .inl h
  · obtain ⟨hlast, rfl⟩ := List.getElem?_eq_some_iff.mp h
    rw [List.length_singleton] at hlast
    exact .inr ⟨by omega, List.getElem_singleton hlast⟩

theorem getElem?_concat_cases (h : (slots ++ [new])[i]? = some a) :
    slots[i]? = some a ∨ a = new := by
  rcases getElem?_concat_slot h with hold | ⟨-, hnew⟩
  · exact .inl hold
  · exact .inr hnew

/-- A property of every slot is one of every element. -/
theorem forall_mem_iff_slots {P : α → Prop} :
    (∀ a ∈ slots, P a) ↔ ∀ (i : Nat) (a : α), slots[i]? = some a → P a := by
  constructor
  · intro h i a ha
    exact h a (List.mem_of_getElem? ha)
  · intro h a ha
    obtain ⟨i, hi⟩ := List.mem_iff_getElem?.mp ha
    exact h i a hi

end Lib
end Kademlia
