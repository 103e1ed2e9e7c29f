import Mathlib.Data.List.Basic
import Mathlib.Data.List.FinRange

/-!
# Linear scans

Queues are lists with the front at the head.  A scan finds the first element that
passes a test, `removeAt` takes an element out by its position, and `retainM` keeps
the elements that pass.  The lemmas turn a position into a split of the queue around
the element found, which is the form the proofs about queues use.
-/

namespace Kademlia
namespace Lib

variable {α β ε : Type}

/-- The element at `pos` together with the queue without it, or `none` when `pos`
is out of bounds. -/
def removeAt (xs : List α) (pos : Nat) : Option (α × List α) :=
  xs[pos]?.map fun x => (x, xs.eraseIdx pos)

/-- The position of the first element whose test returns `true`.  The test may
fail, and the scan then fails with it. -/
def positionM (p : α → Except ε Bool) : List α → Except ε (Option Nat)
  | [] => .ok none
  | x :: xs =>
    match p x with
    | .error e => .error e
    | .ok true => .ok (some 0)
    | .ok false =>
      match positionM p xs with
      | .error e => .error e
      | .ok pos => .ok (pos.map (· + 1))

/-- The elements whose test returns `true`, in place.  When a test fails the scan ends
with its error, and the element and all after it stay. -/
def retainM (p : α → Except ε Bool) : List α → Except ε Unit × List α
  | [] => (.ok (), [])
  | x :: xs =>
    match p x with
    | .error e => (.error e, x :: xs)
    | .ok true => ((retainM p xs).1, x :: (retainM p xs).2)
    | .ok false => retainM p xs

theorem sublist_of_split (l r : List α) (x : α) : (l ++ r).Sublist (l ++ x :: r) :=
  List.Sublist.append_left (List.sublist_cons_self x r) l

theorem removeAt_cons_succ {xs ys : List α} {x y : α} {pos : Nat}
    (h : removeAt xs pos = some (x, ys)) : removeAt (y :: xs) (pos + 1) = some (x, y :: ys) := by
  obtain ⟨w, hw, hpair⟩ := Option.map_eq_some_iff.mp h
  simp only [Prod.mk.injEq] at hpair
  obtain ⟨rfl, hrest⟩ := hpair
  simp only [removeAt, List.getElem?_cons_succ, List.eraseIdx_cons_succ, hw, hrest, Option.map_some]

/-- A successful scan splits the queue at the element it found. -/
theorem findIdx?_split {p : α → Bool} {xs : List α} {pos : Nat} (h : xs.findIdx? p = some pos) :
    ∃ l x r, xs = l ++ x :: r ∧ p x = true ∧ (∀ y ∈ l, p y = false) ∧
      removeAt xs pos = some (x, l ++ r) := by
  induction xs generalizing pos with
  | nil => simp at h
  | cons y ys ih =>
    rw [List.findIdx?_cons] at h
    by_cases hy : p y = true
    · rw [if_pos hy] at h
      obtain rfl : 0 = pos := Option.some.inj h
      exact ⟨[], y, ys, rfl, hy, by simp, rfl⟩
    · rw [if_neg hy] at h
      obtain ⟨pos', hpos', rfl⟩ := Option.map_eq_some_iff.mp h
      obtain ⟨l, x, r, rfl, hx, hl, hrem⟩ := ih hpos'
      refine ⟨y :: l, x, r, rfl, hx, ?_, ?_⟩
      · intro z hz
        rcases List.mem_cons.mp hz with rfl | hz
        · exact Bool.eq_false_iff.mpr hy
        · exact hl z hz
      · exact removeAt_cons_succ hrem

theorem positionM_eq_none {p : α → Except ε Bool} {xs : List α}
    (h : positionM p xs = .ok none) : ∀ x ∈ xs, p x = .ok false := by
  induction xs with
  | nil => simp
  | cons y ys ih =>
    unfold positionM at h
    rcases hy : p y with e | b
    · simp [hy] at h
    · cases b with
      | true => simp [hy] at h
      | false =>
        rcases hys : positionM p ys with e | pos
        · simp [hy, hys] at h
        · cases pos with
          | some pos => simp [hy, hys] at h
          | none =>
            intro x hx
            rcases List.mem_cons.mp hx with rfl | hx
            · exact hy
            · exact ih hys x hx

theorem positionM_eq_error {p : α → Except ε Bool} {xs : List α} {e : ε}
    (h : positionM p xs = .error e) : ∃ x ∈ xs, p x = .error e := by
  induction xs with
  | nil => cases h
  | cons y ys ih =>
    unfold positionM at h
    rcases hy : p y with e' | b
    · simp only [hy, Except.error.injEq] at h
      exact ⟨y, List.mem_cons_self, h ▸ hy⟩
    · cases b with
      | true => simp [hy] at h
      | false =>
        rcases hys : positionM p ys with e' | pos
        · simp only [hy, hys, Except.error.injEq] at h
          obtain ⟨x, hx, hp⟩ := ih (h ▸ hys)
          exact ⟨x, List.mem_cons_of_mem y hx, hp⟩
        · simp [hy, hys] at h

theorem positionM_split {p : α → Except ε Bool} {xs : List α} {pos : Nat}
    (h : positionM p xs = .ok (some pos)) :
    ∃ l x r, xs = l ++ x :: r ∧ p x = .ok true ∧ (∀ y ∈ l, p y = .ok false) ∧
      removeAt xs pos = some (x, l ++ r) := by
  induction xs generalizing pos with
  | nil => simp [positionM] at h
  | cons y ys ih =>
    unfold positionM at h
    rcases hy : p y with e | b
    · simp [hy] at h
    · cases b with
      | true =>
        simp only [hy, Except.ok.injEq, Option.some.injEq] at h
        subst h
        exact ⟨[], y, ys, rfl, hy, by simp, rfl⟩
      | false =>
        rcases hys : positionM p ys with e | pos'
        · simp [hy, hys] at h
        · simp only [hy, hys, Except.ok.injEq] at h
          obtain ⟨q, rfl, rfl⟩ := Option.map_eq_some_iff.mp h
          obtain ⟨l, x, r, rfl, hx, hl, hrem⟩ := ih hys
          refine ⟨y :: l, x, r, rfl, hx, ?_, ?_⟩
          · intro z hz
            rcases List.mem_cons.mp hz with rfl | hz
            · exact hy
            · exact hl z hz
          · exact removeAt_cons_succ hrem

theorem retainM_sublist (p : α → Except ε Bool) (xs : List α) : (retainM p xs).2.Sublist xs := by
  induction xs with
  | nil => exact List.Sublist.slnil
  | cons x xs ih =>
    unfold retainM
    split
    · exact List.Sublist.refl _
    · exact ih.cons_cons x
    · exact ih.cons x

/-- What a scan takes out has failed its test. -/
theorem mem_retainM_or {p : α → Except ε Bool} {xs : List α} {x : α} (h : x ∈ xs) :
    x ∈ (retainM p xs).2 ∨ p x = .ok false := by
  induction xs with
  | nil => cases h
  | cons y ys ih =>
    unfold retainM
    split
    · exact .inl h
    · rcases List.mem_cons.mp h with rfl | h
      · exact .inl List.mem_cons_self
      · exact (ih h).imp_left (List.mem_cons_of_mem y)
    · rename_i hy
      rcases List.mem_cons.mp h with rfl | h
      · exact .inr hy
      · exact ih h

theorem retainM_eq_error {p : α → Except ε Bool} {xs : List α} {e : ε}
    (h : (retainM p xs).1 = .error e) : ∃ x ∈ xs, p x = .error e := by
  induction xs with
  | nil => cases h
  | cons x xs ih =>
    unfold retainM at h
    split at h
    · rename_i e' hx
      rw [Except.error.inj h] at hx
      exact ⟨x, List.mem_cons_self, hx⟩
    · obtain ⟨y, hy, hfails⟩ := ih h
      exact ⟨y, List.mem_cons_of_mem x hy, hfails⟩
    · obtain ⟨y, hy, hfails⟩ := ih h
      exact ⟨y, List.mem_cons_of_mem x hy, hfails⟩

/-- A scan that ends well has tested every element. -/
theorem ok_of_retainM_eq_ok {p : α → Except ε Bool} {xs : List α} (h : (retainM p xs).1 = .ok ())
    {x : α} (hx : x ∈ xs) : ∃ kept, p x = .ok kept := by
  induction xs with
  | nil => cases hx
  | cons y ys ih =>
    unfold retainM at h
    split at h
    · cases h
    · rename_i hy
      rcases List.mem_cons.mp hx with rfl | hx
      · exact ⟨true, hy⟩
      · exact ih h hx
    · rename_i hy
      rcases List.mem_cons.mp hx with rfl | hx
      · exact ⟨false, hy⟩
      · exact ih h hx

/-- Where no test fails, a scan is a filter. -/
theorem retainM_of_ok {p : α → Except ε Bool} {q : α → Bool} {xs : List α}
    (h : ∀ x ∈ xs, p x = .ok (q x)) : retainM p xs = (.ok (), xs.filter q) := by
  induction xs with
  | nil => rfl
  | cons x xs ih =>
    have hx := h x List.mem_cons_self
    have hxs := ih fun y hy => h y (List.mem_cons_of_mem x hy)
    cases hq : q x with
    | true => simp only [retainM, hx, hq, hxs, List.filter_cons_of_pos hq]
    | false => simp only [retainM, hx, hq, hxs, List.filter_cons, Bool.false_eq_true, if_false]

/-- A search over the indices below `n` in increasing order returns the result of
the first index that has one. -/
theorem findSome?_finRange_eq_some_iff {n : Nat} {f : Fin n → Option β} {b : β} :
    (List.finRange n).findSome? f = some b ↔ ∃ i, f i = some b ∧ ∀ j < i, f j = none := by
  induction n with
  | zero => simp
  | succ n ih =>
    rw [List.finRange_succ, List.findSome?_cons]
    rcases h0 : f 0 with _ | c
    · simp only [List.findSome?_map, ih, Function.comp]
      constructor
      · rintro ⟨i, hi, hlt⟩
        refine ⟨i.succ, hi, fun j hj => ?_⟩
        cases j using Fin.cases with
        | zero => exact h0
        | succ j => exact hlt j (Fin.succ_lt_succ_iff.mp hj)
      · rintro ⟨i, hi, hlt⟩
        cases i using Fin.cases with
        | zero => rw [h0] at hi; cases hi
        | succ i => exact ⟨i, hi, fun j hj => hlt j.succ (Fin.succ_lt_succ_iff.mpr hj)⟩
    · constructor
      · rintro hc
        exact ⟨0, h0.trans hc, fun j hj => absurd hj (Fin.not_lt_zero j)⟩
      · rintro ⟨i, hi, hlt⟩
        cases i using Fin.cases with
        | zero => exact h0.symm.trans hi
        | succ i =>
          have h := hlt 0 (Fin.succ_pos i)
          rw [h0] at h
          cases h

end Lib
end Kademlia
