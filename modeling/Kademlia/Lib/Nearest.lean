import Mathlib.Data.List.Sort

/-!
# The elements with the smallest keys

A list is sorted by a key, and its first elements are taken.  The sort is stable.
`Nearest` says what the selection is for, whatever the order of the list.
-/

namespace Kademlia
namespace Lib

variable {α κ : Type} [Ord κ] (key : α → κ)

def KeyLE (a b : α) : Prop := (compare (key a) (key b)).isLE = true

instance (a b : α) : Decidable (KeyLE key a b) :=
  inferInstanceAs (Decidable ((compare (key a) (key b)).isLE = true))

def KeyLT (a b : α) : Prop := compare (key a) (key b) = .lt

instance (a b : α) : Decidable (KeyLT key a b) :=
  inferInstanceAs (Decidable (compare (key a) (key b) = .lt))

def sortByKey (xs : List α) : List α := xs.insertionSort (KeyLE key)

def nearest (count : Nat) (xs : List α) : List α := (sortByKey key xs).take count

/-- The elements found are as many as asked for and as there are, in the order of their
keys, and no element left out has a smaller key. -/
structure Nearest (xs : List α) (count : Nat) (found : List α) : Prop where
  length : found.length = min count xs.length
  sorted : found.Pairwise (KeyLE key)
  least : ∃ others, (found ++ others).Perm xs ∧ ∀ a ∈ found, ∀ b ∈ others, KeyLE key a b

theorem sortByKey_perm (xs : List α) : (sortByKey key xs).Perm xs := List.perm_insertionSort _ xs

theorem Nearest.perm {key : α → κ} {xs ys : List α} {count : Nat} {found : List α}
    (h : Nearest key xs count found) (hperm : xs.Perm ys) : Nearest key ys count found := by
  obtain ⟨others, hall, hle⟩ := h.least
  exact ⟨by rw [h.length, hperm.length_eq], h.sorted, others, hall.trans hperm, hle⟩

theorem Nearest.map {β : Type} {key : β → κ} (f : α → β) {xs : List α} {count : Nat}
    {found : List α} (h : Nearest (fun a => key (f a)) xs count found) :
    Nearest key (xs.map f) count (found.map f) := by
  obtain ⟨others, hall, hle⟩ := h.least
  refine ⟨?_, List.pairwise_map.mpr h.sorted, others.map f, ?_, ?_⟩
  · rw [List.length_map, List.length_map, h.length]
  · rw [← List.map_append]
    exact hall.map f
  · intro a ha b hb
    obtain ⟨x, hx, rfl⟩ := List.mem_map.mp ha
    obtain ⟨y, hy, rfl⟩ := List.mem_map.mp hb
    exact hle x hx y hy

theorem KeyLT.le {key : α → κ} {a b : α} (h : KeyLT key a b) : KeyLE key a b := by
  unfold KeyLE
  rw [show compare (key a) (key b) = .lt from h]
  rfl

/-- The first element found has the smallest key. -/
theorem Nearest.head_le {key : α → κ} [Std.ReflOrd κ] {xs : List α} {count : Nat} {a x : α}
    {found : List α} (h : Nearest key xs count (a :: found)) (hx : x ∈ xs) : KeyLE key a x := by
  obtain ⟨others, hperm, hle⟩ := h.least
  rcases List.mem_append.mp (hperm.mem_iff.mpr hx) with hfound | hother
  · rcases List.mem_cons.mp hfound with rfl | hfound
    · exact Std.ReflCmp.isLE_rfl
    · exact (List.pairwise_cons.mp h.sorted).1 x hfound
  · exact hle a List.mem_cons_self x hother

theorem key_eq_of_keyLE {key : α → κ} [Std.LawfulEqOrd κ] {a b : α} (h : KeyLE key a b)
    (hnot : ¬ KeyLT key a b) : key a = key b := by
  unfold KeyLE at h
  unfold KeyLT at hnot
  cases hcompare : compare (key a) (key b) with
  | lt => exact absurd hcompare hnot
  | eq => exact Std.LawfulEqCmp.eq_of_compare hcompare
  | gt =>
    rw [hcompare] at h
    cases h

/-- A sorted list with different keys is strictly sorted. -/
theorem keyLT_of_sorted {key : α → κ} [Std.LawfulEqOrd κ] {xs : List α} (h : xs.Pairwise (KeyLE key))
    (hnodup : (xs.map key).Nodup) : xs.Pairwise (KeyLT key) := by
  have hne : xs.Pairwise fun a b => key a ≠ key b := List.pairwise_map.mp hnodup
  refine (h.and hne).imp ?_
  intro a b hab
  have hle : (compare (key a) (key b)).isLE = true := hab.1
  show compare (key a) (key b) = .lt
  cases hcompare : compare (key a) (key b) with
  | lt => rfl
  | eq => exact absurd (Std.LawfulEqCmp.eq_of_compare hcompare) hab.2
  | gt =>
    rw [hcompare] at hle
    cases hle

/-- With different keys, the elements found are strictly sorted, and those left out have
greater keys. -/
theorem Nearest.strict {key : α → κ} [Std.LawfulEqOrd κ] {xs : List α} {count : Nat}
    {found : List α} (h : Nearest key xs count found) (hnodup : (xs.map key).Nodup) :
    found.Pairwise (KeyLT key) ∧
      ∃ others, (found ++ others).Perm xs ∧ ∀ a ∈ found, ∀ b ∈ others, KeyLT key a b := by
  obtain ⟨others, hperm, hle⟩ := h.least
  have hkeys : (found.map key ++ others.map key).Nodup := by
    rw [← List.map_append]
    exact (hperm.map key).nodup_iff.mpr hnodup
  rw [List.nodup_append'] at hkeys
  obtain ⟨hfound, -, hapart⟩ := hkeys
  refine ⟨keyLT_of_sorted h.sorted hfound, others, hperm, ?_⟩
  intro a ha b hb
  by_contra hnot
  have hkey := key_eq_of_keyLE (hle a ha b hb) hnot
  exact hapart (List.mem_map_of_mem ha) (hkey ▸ List.mem_map_of_mem hb)

theorem sortByKey_append (xs ys : List α) :
    sortByKey key (xs ++ ys) = xs.foldr (List.orderedInsert (KeyLE key)) (sortByKey key ys) :=
  List.foldr_append

/-- Inserting into the first elements of a list changes its first elements alike. -/
theorem take_orderedInsert_take (key : α → κ) (a : α) (xs : List α) (count : Nat) :
    ((xs.take count).orderedInsert (KeyLE key) a).take count =
      (xs.orderedInsert (KeyLE key) a).take count := by
  induction xs generalizing count with
  | nil => rw [List.take_nil]
  | cons x xs ih =>
    cases count with
    | zero => rfl
    | succ count =>
      rw [List.take_succ_cons, List.orderedInsert_cons, List.orderedInsert_cons]
      split_ifs
      · have htake : x :: xs.take count = (x :: xs).take (count + 1) := rfl
        rw [List.take_succ_cons, List.take_succ_cons, htake, List.take_take,
          Nat.min_eq_left (Nat.le_succ count)]
      · rw [List.take_succ_cons, List.take_succ_cons, ih]

theorem take_foldr_orderedInsert (key : α → κ) (xs ys : List α) (count : Nat) :
    (ys.foldr (List.orderedInsert (KeyLE key)) (xs.take count)).take count =
      (ys.foldr (List.orderedInsert (KeyLE key)) xs).take count := by
  induction ys with
  | nil => rw [List.foldr_nil, List.foldr_nil, List.take_take, Nat.min_self]
  | cons y ys ih =>
    rw [List.foldr_cons, List.foldr_cons, ← take_orderedInsert_take, ih, take_orderedInsert_take]

variable [Std.TransOrd κ]

instance : IsTrans α (KeyLE key) := ⟨fun _ _ _ hab hbc => Std.TransCmp.isLE_trans hab hbc⟩

instance : Std.Total (KeyLE key) := by
  constructor
  intro a b
  have hswap : compare (key b) (key a) = (compare (key a) (key b)).swap := Std.OrientedCmp.eq_swap
  unfold KeyLE
  rw [hswap]
  cases compare (key a) (key b) <;> simp

theorem sortByKey_sorted (xs : List α) : (sortByKey key xs).Pairwise (KeyLE key) :=
  List.pairwise_insertionSort _ xs

theorem nearest_spec (count : Nat) (xs : List α) : Nearest key xs count (nearest key count xs) := by
  have hsorted : (sortByKey key xs).Pairwise (KeyLE key) := sortByKey_sorted key xs
  have hperm : (sortByKey key xs).Perm xs := sortByKey_perm key xs
  constructor
  · rw [nearest, List.length_take, hperm.length_eq]
  · exact hsorted.sublist (List.take_sublist _ _)
  · refine ⟨(sortByKey key xs).drop count, ?_, ?_⟩
    · rw [nearest, List.take_append_drop]
      exact hperm
    · intro a ha b hb
      rw [← List.take_append_drop count (sortByKey key xs)] at hsorted
      exact (List.pairwise_append.mp hsorted).2.2 a ha b hb

/-- An element that the selection leaves out comes after the elements selected, which are as
many as asked for. -/
theorem cut_of_not_mem_nearest {count : Nat} {xs : List α} {x : α} (hx : x ∈ xs)
    (h : x ∉ nearest key count xs) :
    x ∈ (sortByKey key xs).drop count ∧ ((sortByKey key xs).take count).length = count ∧
      ∀ other ∈ (sortByKey key xs).take count, KeyLE key other x := by
  have hsorted := sortByKey_sorted key xs
  have hmem : x ∈ sortByKey key xs := (sortByKey_perm key xs).mem_iff.mpr hx
  rw [← List.take_append_drop count (sortByKey key xs)] at hsorted hmem
  have hdrop : x ∈ (sortByKey key xs).drop count := (List.mem_append.mp hmem).resolve_left h
  have hlength := List.length_pos_of_mem hdrop
  rw [List.length_drop] at hlength
  refine ⟨hdrop, ?_, ?_⟩
  · rw [List.length_take]
    omega
  · intro other hother
    exact (List.pairwise_append.mp hsorted).2.2 other hother x hdrop

/-! ## Ranks

In a list that is strictly sorted by its keys, the number of elements with smaller keys is
the position of an element. -/

variable {key} {xs : List α} {x : α}

theorem not_keyLT_of_keyLE {a b : α} (h : KeyLE key a b) : ¬ KeyLT key b a := by
  intro hlt
  have hswap : compare (key a) (key b) = (compare (key b) (key a)).swap := Std.OrientedCmp.eq_swap
  rw [KeyLE, hswap, show compare (key b) (key a) = .lt from hlt] at h
  cases h

theorem KeyLT.trans {a b c : α} (hab : KeyLT key a b) (hbc : KeyLT key b c) : KeyLT key a c :=
  Std.TransCmp.lt_trans hab hbc

/-- The elements before an element of a strictly sorted list are those with smaller keys. -/
theorem countP_keyLT_split {before after : List α}
    (h : (before ++ x :: after).Pairwise (KeyLT key)) :
    (before ++ x :: after).countP (KeyLT key · x) = before.length := by
  obtain ⟨-, hafter, hcross⟩ := List.pairwise_append.mp h
  have hbefore : before.countP (KeyLT key · x) = before.length := by
    rw [List.countP_eq_length]
    intro a ha
    exact decide_eq_true (hcross a ha x List.mem_cons_self)
  have hrest : (x :: after).countP (KeyLT key · x) = 0 := by
    rw [List.countP_eq_zero]
    intro a ha hlt
    have hle : KeyLE key x a := by
      rcases List.mem_cons.mp ha with rfl | ha
      · exact Std.ReflCmp.isLE_rfl
      · exact ((List.pairwise_cons.mp hafter).1 a ha).le
    exact not_keyLT_of_keyLE hle (of_decide_eq_true hlt)
  rw [List.countP_append, hbefore, hrest, Nat.add_zero]

theorem countP_keyLT_of_getElem? {i : Nat} (h : xs.Pairwise (KeyLT key)) (hx : xs[i]? = some x) :
    xs.countP (KeyLT key · x) = i := by
  obtain ⟨hi, rfl⟩ := List.getElem?_eq_some_iff.mp hx
  have hsplit : xs = xs.take i ++ xs[i] :: xs.drop (i + 1) := by
    rw [List.getElem_cons_drop, List.take_append_drop]
  have hrank := countP_keyLT_split (hsplit ▸ h)
  rwa [← hsplit, List.length_take, Nat.min_eq_left (Nat.le_of_lt hi)] at hrank

theorem getElem?_countP_keyLT (h : xs.Pairwise (KeyLT key)) (hx : x ∈ xs) :
    xs[xs.countP (KeyLT key · x)]? = some x := by
  obtain ⟨before, after, rfl⟩ := List.append_of_mem hx
  rw [countP_keyLT_split h, List.getElem?_append_right (Nat.le_refl _), Nat.sub_self]
  rfl

/-- A prefix that is longer than the rank of an element holds it. -/
theorem mem_take_of_countP_keyLT {count : Nat} (h : xs.Pairwise (KeyLT key)) (hx : x ∈ xs)
    (hcount : xs.countP (KeyLT key · x) < count) : x ∈ xs.take count := by
  have hget := getElem?_countP_keyLT h hx
  rw [← List.getElem?_take_of_lt hcount] at hget
  exact List.mem_of_getElem? hget

/-- A prefix that holds an element keeps its rank. -/
theorem countP_keyLT_take {count : Nat} (h : xs.Pairwise (KeyLT key)) (hx : x ∈ xs.take count) :
    (xs.take count).countP (KeyLT key · x) = xs.countP (KeyLT key · x) := by
  rw [← List.take_append_drop count xs] at h
  have hrest : (xs.drop count).countP (KeyLT key · x) = 0 := by
    rw [List.countP_eq_zero]
    intro a ha hlt
    have hle : KeyLE key x a := ((List.pairwise_append.mp h).2.2 x hx a ha).le
    exact not_keyLT_of_keyLE hle (of_decide_eq_true hlt)
  calc (xs.take count).countP (KeyLT key · x)
      = (xs.take count).countP (KeyLT key · x) + (xs.drop count).countP (KeyLT key · x) := by
        rw [hrest, Nat.add_zero]
    _ = (xs.take count ++ xs.drop count).countP (KeyLT key · x) := List.countP_append.symm
    _ = xs.countP (KeyLT key · x) := by rw [List.take_append_drop]

/-! ## Selections of selections

When the keys are different, the elements that one selection leaves out are not missed by the
next one. -/

variable [Std.LawfulEqOrd κ] {ys : List α} {count : Nat}

theorem sortByKey_eq_of_perm (hnodup : (xs.map key).Nodup) (hperm : xs.Perm ys) :
    sortByKey key xs = sortByKey key ys := by
  have hperm' : (sortByKey key xs).Perm (sortByKey key ys) :=
    (sortByKey_perm key xs).trans (hperm.trans (sortByKey_perm key ys).symm)
  refine hperm'.eq_of_pairwise ?_ (sortByKey_sorted key xs) (sortByKey_sorted key ys)
  intro a b ha hb hab hba
  have hkey : key a = key b := Std.LawfulEqCmp.eq_of_compare (Std.OrientedCmp.isLE_antisymm hab hba)
  have ha' : a ∈ xs := (sortByKey_perm key xs).mem_iff.mp ha
  have hb' : b ∈ xs := hperm.mem_iff.mpr ((sortByKey_perm key ys).mem_iff.mp hb)
  exact List.inj_on_of_nodup_map hnodup ha' hb' hkey

/-- Elements can be added to a selection in place of the whole list. -/
theorem nearest_append_nearest (hnodup : ((xs ++ ys).map key).Nodup) :
    nearest key count (nearest key count xs ++ ys) = nearest key count (xs ++ ys) := by
  have hsub : (nearest key count xs ++ ys).Subperm (xs ++ ys) := by
    rw [List.subperm_append_right]
    exact (List.take_sublist _ _).subperm.trans (sortByKey_perm key xs).subperm
  have hnodup' : ((nearest key count xs ++ ys).map key).Nodup := by
    obtain ⟨zs, hperm, hsublist⟩ := hsub
    exact (hperm.map key).nodup_iff.mp (hnodup.sublist (hsublist.map key))
  have hsorted : sortByKey key (nearest key count xs) = nearest key count xs :=
    ((sortByKey_sorted key xs).sublist (List.take_sublist _ _)).insertionSort_eq
  calc nearest key count (nearest key count xs ++ ys)
      = (sortByKey key (ys ++ nearest key count xs)).take count := by
        rw [nearest, sortByKey_eq_of_perm hnodup' List.perm_append_comm]
    _ = (ys.foldr (List.orderedInsert (KeyLE key)) (nearest key count xs)).take count := by
        rw [sortByKey_append, hsorted]
    _ = (ys.foldr (List.orderedInsert (KeyLE key)) (sortByKey key xs)).take count :=
        take_foldr_orderedInsert key _ _ _
    _ = (sortByKey key (ys ++ xs)).take count := by
        rw [sortByKey_append]
    _ = nearest key count (xs ++ ys) := by
        rw [nearest, sortByKey_eq_of_perm hnodup List.perm_append_comm]

end Lib
end Kademlia
