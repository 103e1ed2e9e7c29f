import Mathlib.Logic.Function.Basic

/-!
# Maps with deadlines

An expiring map holds a value and a deadline for each of its keys, together with the
latest reading of the clock.  Reading a key at or after its deadline gives nothing.

`Covers` relates the map to one that may have dropped entries past their deadline.  As
long as the clock does not go back, no reader can tell the two apart.
-/

namespace Kademlia
namespace Lib

structure ExpiringMap (κ ν : Type) where
  entries : κ → Option (ν × Nat)
  clock : Nat

namespace ExpiringMap

variable {κ ν : Type}

def empty : ExpiringMap κ ν := { entries := fun _ => none, clock := 0 }

def advance (m : ExpiringMap κ ν) (now : Nat) : ExpiringMap κ ν := { m with clock := now }

/-- The value of an entry that is not past its deadline. -/
def readEntry (now : Nat) : Option (ν × Nat) → Option ν
  | none => none
  | some (value, deadline) => if now < deadline then some value else none

def read (m : ExpiringMap κ ν) (now : Nat) (key : κ) : Option ν := readEntry now (m.entries key)

/-- The entries `f`, but for some that are past their deadline. -/
def Covers (m : ExpiringMap κ ν) (f : κ → Option (ν × Nat)) : Prop :=
  ∀ key, f key = m.entries key ∨
    f key = none ∧ ∃ value deadline, m.entries key = some (value, deadline) ∧ deadline ≤ m.clock

theorem covers_self (m : ExpiringMap κ ν) : m.Covers m.entries := fun _ => .inl rfl

theorem readEntry_eq_some_iff {now : Nat} {entry : Option (ν × Nat)} {value : ν} :
    readEntry now entry = some value ↔
      ∃ deadline, entry = some (value, deadline) ∧ now < deadline := by
  cases entry with
  | none => simp [readEntry]
  | some entry =>
    obtain ⟨value', deadline⟩ := entry
    by_cases h : now < deadline
    · simp only [readEntry, h, if_true, Option.some.injEq, Prod.mk.injEq]
      constructor
      · intro hvalue
        exact ⟨deadline, ⟨hvalue, rfl⟩, h⟩
      · intro ⟨_, ⟨hvalue, _⟩, _⟩
        exact hvalue
    · simp only [readEntry, h, if_false, Option.some.injEq, Prod.mk.injEq]
      constructor
      · intro hnone
        cases hnone
      · intro ⟨deadline', ⟨_, hdeadline⟩, hnow⟩
        omega

variable {m : ExpiringMap κ ν} {f : κ → Option (ν × Nat)}

theorem Covers.advance (h : m.Covers f) {now : Nat} (hnow : m.clock ≤ now) :
    (m.advance now).Covers f := by
  intro key
  rcases h key with heq | ⟨hnone, value, deadline, hentry, hdeadline⟩
  · exact .inl heq
  · exact .inr ⟨hnone, value, deadline, hentry, Nat.le_trans hdeadline hnow⟩

/-- Readers see the same. -/
theorem Covers.read (h : m.Covers f) {now : Nat} (hnow : m.clock ≤ now) (key : κ) :
    readEntry now (f key) = m.read now key := by
  rcases h key with heq | ⟨hnone, value, deadline, hentry, hdeadline⟩
  · rw [heq, ExpiringMap.read]
  · have hlate : ¬ now < deadline := by omega
    rw [hnone, ExpiringMap.read, hentry]
    simp [readEntry, hlate]

section Update

variable [DecidableEq κ]

/-- `key` gets an entry, or loses it. -/
def put (m : ExpiringMap κ ν) (key : κ) (entry : Option (ν × Nat)) : ExpiringMap κ ν :=
  { m with entries := Function.update m.entries key entry }

theorem Covers.put (h : m.Covers f) (key : κ) (entry : Option (ν × Nat)) :
    (m.put key entry).Covers (Function.update f key entry) := by
  intro key'
  by_cases hkey : key' = key
  · subst hkey
    exact .inl (by simp [ExpiringMap.put])
  · simp only [ExpiringMap.put, Function.update_of_ne hkey]
    exact h key'

end Update

/-- Entries past their deadline are dropped. -/
theorem Covers.collect (h : m.Covers f) {g : κ → Option (ν × Nat)}
    (hg : ∀ key, g key = f key ∨
      g key = none ∧ ∃ value deadline, f key = some (value, deadline) ∧ deadline ≤ m.clock) :
    m.Covers g := by
  intro key
  rcases hg key with heq | ⟨hnone, value, deadline, hentry, hdeadline⟩
  · rw [heq]
    exact h key
  · rcases h key with heq | ⟨hfnone, -⟩
    · exact .inr ⟨hnone, value, deadline, heq.symm.trans hentry, hdeadline⟩
    · rw [hfnone] at hentry
      cases hentry

end ExpiringMap

end Lib
end Kademlia
