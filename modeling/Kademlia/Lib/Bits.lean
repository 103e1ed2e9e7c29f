import Mathlib.Algebra.Group.Nat.Defs

/-!
# Numbers and their bits

The exclusive or of two numbers is at most their sum, which carries where the exclusive or
cancels.  A number of `width` bits is bounded on both sides by its first set bit.
-/

namespace Kademlia
namespace Lib
namespace Bits

theorem xor_div_two (m n : Nat) : (m ^^^ n) / 2 = m / 2 ^^^ n / 2 := by
  apply Nat.eq_of_testBit_eq
  intro i
  rw [Nat.testBit_xor, ← Nat.testBit_add_one, ← Nat.testBit_add_one, ← Nat.testBit_add_one,
    Nat.testBit_xor]

theorem xor_mod_two_le (m n : Nat) : (m ^^^ n) % 2 ≤ m % 2 + n % 2 := by
  have hbit : ∀ k : Nat, k % 2 = (k.testBit 0).toNat := by
    intro k
    rw [Nat.toNat_testBit, Nat.pow_zero, Nat.div_one]
  rw [hbit, hbit, hbit, Nat.testBit_xor]
  cases m.testBit 0 <;> cases n.testBit 0 <;> decide

theorem xor_le_add (m n : Nat) : m ^^^ n ≤ m + n := by
  induction m using Nat.strongRecOn generalizing n with
  | ind m ih =>
    by_cases hm : m = 0
    · subst hm
      simp only [Nat.zero_xor, Nat.zero_add, Nat.le_refl]
    · have hhalf := ih (m / 2) (by omega) (n / 2)
      have hdiv := xor_div_two m n
      have hmod := xor_mod_two_le m n
      omega

/-- The first set bit of a number tells its size. -/
theorem two_pow_le_and_lt {width i n : Nat} (hn : n < 2 ^ width) (hi : i < width)
    (hbit : n.testBit (width - 1 - i) = true)
    (hbefore : ∀ j < i, n.testBit (width - 1 - j) = false) :
    2 ^ (width - 1 - i) ≤ n ∧ n < 2 ^ (width - i) := by
  refine ⟨Nat.ge_two_pow_of_testBit hbit, ?_⟩
  apply Nat.lt_pow_two_of_testBit
  intro j hj
  rcases Nat.lt_or_ge j width with hlt | hge
  · have hpos : width - 1 - (width - 1 - j) = j := by omega
    rw [← hpos]
    exact hbefore _ (by omega)
  · exact Nat.testBit_lt_two_pow (Nat.lt_of_lt_of_le hn (Nat.pow_le_pow_right (by decide) hge))

end Bits
end Lib
end Kademlia
