import Mathlib.Data.Fintype.EquivFin
import Mathlib.Data.List.Perm.Subperm

/-!
# Loops that end

A loop takes its inputs from an endless sequence and goes on as long as its state satisfies
a condition.  It ends when every turn after which it goes on has added something new to a
growing collection, and there are finitely many things to add.
-/

namespace Kademlia
namespace Lib

variable {σ ι α : Type} (step : σ → ι → σ)

/-- The state after the first `n` inputs of a sequence. -/
def after (s : σ) (inputs : Nat → ι) : Nat → σ
  | 0 => s
  | n + 1 => step (after s inputs n) (inputs n)

/-- The loop makes `n` turns and stops. -/
structure Ends (goes : σ → Prop) (s : σ) (inputs : Nat → ι) (n : Nat) : Prop where
  turns : ∀ m < n, goes (after step s inputs m)
  stops : ¬ goes (after step s inputs n)

variable {step} {goes : σ → Prop} {s : σ} {inputs : Nat → ι}

theorem after_invariant {P : σ → Prop} (hstep : ∀ s i, P s → P (step s i)) (hs : P s) (n : Nat) :
    P (after step s inputs n) := by
  induction n with
  | zero => exact hs
  | succ n ih => exact hstep _ _ ih

/-- A property that the turns keep holds when the loop stops. -/
theorem Ends.invariant {P : Nat → σ → Prop} {n : Nat} (h : Ends step goes s inputs n)
    (hs : P 0 s) (hstep : ∀ m < n, goes (after step s inputs m) → P m (after step s inputs m) →
      P (m + 1) (after step s inputs (m + 1))) : P n (after step s inputs n) := by
  have hall : ∀ m ≤ n, P m (after step s inputs m) := by
    intro m
    induction m with
    | zero => exact fun _ => hs
    | succ m ih => exact fun hm => hstep m hm (h.turns m hm) (ih (Nat.le_of_succ_le hm))
  exact hall n (Nat.le_refl n)

/-- When every turn after which the loop goes on adds something new, what is new after some
turns is as much as the turns. -/
theorem exists_new {seen : σ → List α} (hgrows : ∀ s i, seen s ⊆ seen (step s i))
    (hnew : ∀ n, goes (after step s inputs n) → goes (after step s inputs (n + 1)) →
      ∃ a ∈ seen (after step s inputs (n + 1)), a ∉ seen (after step s inputs n))
    (n : Nat) (hgoes : ∀ m ≤ n, goes (after step s inputs m)) :
    ∃ new : List α, new.Nodup ∧ new.length = n ∧
      ∀ a ∈ new, a ∈ seen (after step s inputs n) ∧ a ∉ seen s := by
  induction n with
  | zero => exact ⟨[], List.nodup_nil, rfl, fun a ha => absurd ha List.not_mem_nil⟩
  | succ n ih =>
    obtain ⟨new, hnodup, hlength, hmem⟩ := ih fun m hm => hgoes m (Nat.le_succ_of_le hm)
    obtain ⟨a, ha, hfresh⟩ := hnew n (hgoes n (Nat.le_succ n)) (hgoes (n + 1) (Nat.le_refl _))
    have hstart : seen s ⊆ seen (after step s inputs n) :=
      after_invariant (P := fun s' => seen s ⊆ seen s')
        (fun s' i h => List.Subset.trans h (hgrows s' i)) (List.Subset.refl _) n
    refine ⟨a :: new, List.nodup_cons.mpr ⟨?_, hnodup⟩, by rw [List.length_cons, hlength], ?_⟩
    · exact fun hin => hfresh (hmem a hin).1
    · intro b hb
      rcases List.mem_cons.mp hb with rfl | hb
      · exact ⟨ha, fun hin => hfresh (hstart hin)⟩
      · exact ⟨hgrows _ _ (hmem b hb).1, (hmem b hb).2⟩

/-- With finitely many things to add, such a loop ends. -/
theorem exists_ends [Finite α] {seen : σ → List α} (hgrows : ∀ s i, seen s ⊆ seen (step s i))
    (hnew : ∀ n, goes (after step s inputs n) → goes (after step s inputs (n + 1)) →
      ∃ a ∈ seen (after step s inputs (n + 1)), a ∉ seen (after step s inputs n)) :
    ∃ n, Ends step goes s inputs n := by
  classical
  have hstops : ∃ n, ¬ goes (after step s inputs n) := by
    by_contra hall
    have hgoes : ∀ m, goes (after step s inputs m) := by
      intro m
      by_contra hnot
      exact hall ⟨m, hnot⟩
    have := Fintype.ofFinite α
    obtain ⟨new, hnodup, hlength, -⟩ :=
      exists_new hgrows hnew (Fintype.card α + 1) fun m _ => hgoes m
    have hcard := hnodup.length_le_card
    omega
  refine ⟨Nat.find hstops, fun m hm => ?_, Nat.find_spec hstops⟩
  exact not_not.mp (Nat.find_min hstops hm)

end Lib
end Kademlia
