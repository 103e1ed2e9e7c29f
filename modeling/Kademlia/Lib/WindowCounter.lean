import Mathlib.Data.List.Induction
import Kademlia.Lib.Simulation

/-!
# Counting in windows

A counter admits at most `limit` events in a window of time.  A window starts with the first
event after the last one has lapsed, and lapses when more than `width` has gone by since its
start.  Windows are therefore apart by more than `width`, and an interval of this length
meets two of them at most.
-/

namespace Kademlia
namespace Lib

structure WindowCounter where
  start : Nat
  count : Nat

namespace WindowCounter

variable (width limit : Nat)

/-- The counter that an event at `now` is counted in. -/
def roll (now : Nat) : Option WindowCounter → WindowCounter
  | none => { start := now, count := 0 }
  | some c => if width < now - c.start then { start := now, count := 0 } else c

def admits (c : Option WindowCounter) (now : Nat) : Bool := decide ((roll width now c).count < limit)

def step (c : Option WindowCounter) (now : Nat) : Option WindowCounter :=
  let rolled := roll width now c
  some (if rolled.count < limit then { rolled with count := rolled.count + 1 } else rolled)

/-- The time of an event and whether it is admitted. -/
def decision (c : Option WindowCounter) (now : Nat) : List (Nat × Bool) :=
  [(now, admits width limit c now)]

/-- What became of the events at some times. -/
def decisions (c : Option WindowCounter) (times : List Nat) : List (Nat × Bool) :=
  outputs (step width limit) (decision width limit) c times

/-- Admitted, in a closed interval. -/
def admittedIn (lo hi : Nat) (d : Nat × Bool) : Bool := d.2 && decide (lo ≤ d.1 ∧ d.1 ≤ hi)

variable {width limit}

theorem decisions_cons (c : Option WindowCounter) (now : Nat) (rest : List Nat) :
    decisions width limit c (now :: rest) =
      (now, admits width limit c now) :: decisions width limit (step width limit c now) rest := rfl

/-! ## Two windows at most -/

/-- `admitted` events of the interval have been counted by `last`.  They are in the current
window, or in this one and the one before it, which has ended in the interval, or the
current window starts after the interval. -/
structure Within (width limit lo hi last admitted : Nat) (c : WindowCounter) : Prop where
  start_le : c.start ≤ last
  count_le : c.count ≤ limit
  reached : admitted = 0 ∨ lo ≤ last
  windows : admitted ≤ c.count ∨ lo ≤ c.start ∧ admitted ≤ limit + c.count ∨
    hi < c.start ∧ admitted ≤ 2 * limit

/-- The same before the first event. -/
def WithinFrom (width limit lo hi last admitted : Nat) : Option WindowCounter → Prop
  | none => admitted = 0
  | some c => Within width limit lo hi last admitted c

/-- An event at `now` starts a window, or goes to the one it finds. -/
theorem WithinFrom.roll {lo hi last admitted now : Nat} {c : Option WindowCounter}
    (hhi : hi ≤ lo + width) (h : WithinFrom width limit lo hi last admitted c)
    (hnow : last ≤ now) : Within width limit lo hi now admitted (roll width now c) := by
  cases c with
  | none =>
    obtain rfl : admitted = 0 := h
    exact ⟨Nat.le_refl now, Nat.zero_le limit, .inl rfl, .inl (Nat.zero_le _)⟩
  | some c =>
    obtain ⟨hstart, hcount, hreached, hwindows⟩ := h
    rw [WindowCounter.roll]
    by_cases hlapsed : width < now - c.start
    · rw [if_pos hlapsed]
      refine ⟨Nat.le_refl now, Nat.zero_le limit, by omega, ?_⟩
      show admitted ≤ 0 ∨ lo ≤ now ∧ admitted ≤ limit + 0 ∨ hi < now ∧ admitted ≤ 2 * limit
      omega
    · rw [if_neg hlapsed]
      exact ⟨by omega, hcount, by omega, hwindows⟩

theorem Within.count {lo hi now admitted : Nat} {c : WindowCounter}
    (h : Within width limit lo hi now admitted c) (hroom : c.count < limit) :
    Within width limit lo hi now
      (admitted + if lo ≤ now ∧ now ≤ hi then 1 else 0) { c with count := c.count + 1 } := by
  obtain ⟨hstart, hcount, hreached, hwindows⟩ := h
  by_cases hin : lo ≤ now ∧ now ≤ hi
  · rw [if_pos hin]
    refine ⟨hstart, hroom, by omega, ?_⟩
    show admitted + 1 ≤ c.count + 1 ∨ lo ≤ c.start ∧ admitted + 1 ≤ limit + (c.count + 1) ∨
      hi < c.start ∧ admitted + 1 ≤ 2 * limit
    omega
  · rw [if_neg hin]
    refine ⟨hstart, hroom, by omega, ?_⟩
    show admitted + 0 ≤ c.count + 1 ∨ lo ≤ c.start ∧ admitted + 0 ≤ limit + (c.count + 1) ∨
      hi < c.start ∧ admitted + 0 ≤ 2 * limit
    omega

theorem WithinFrom.step {lo hi last admitted now : Nat} {c : Option WindowCounter}
    (hhi : hi ≤ lo + width) (h : WithinFrom width limit lo hi last admitted c)
    (hnow : last ≤ now) :
    WithinFrom width limit lo hi now
      (admitted + if admittedIn lo hi (now, admits width limit c now) then 1 else 0)
      (step width limit c now) := by
  have hroll := h.roll hhi hnow
  unfold WindowCounter.step admits admittedIn
  by_cases hroom : (WindowCounter.roll width now c).count < limit
  · simp only [hroom, decide_true, Bool.true_and, if_true, decide_eq_true_eq]
    exact hroll.count hroom
  · simp only [hroom, decide_false, Bool.false_and, if_false, Bool.false_eq_true]
    exact hroll

theorem WithinFrom.admitted_le {lo hi last admitted : Nat} {c : Option WindowCounter}
    (h : WithinFrom width limit lo hi last admitted c) : admitted ≤ 2 * limit := by
  cases c with
  | none =>
    obtain rfl : admitted = 0 := h
    exact Nat.zero_le _
  | some c =>
    obtain ⟨-, hcount, -, hwindows⟩ := h
    omega

/-- Induction over the events to come, with the ones admitted so far. -/
theorem countP_admittedIn_add_le {lo hi : Nat} (hhi : hi ≤ lo + width) {last admitted : Nat}
    {c : Option WindowCounter} (h : WithinFrom width limit lo hi last admitted c)
    {times : List Nat} (htimes : (last :: times).Pairwise (· ≤ ·)) :
    admitted + (decisions width limit c times).countP (admittedIn lo hi) ≤ 2 * limit := by
  induction times generalizing last admitted c with
  | nil => exact h.admitted_le
  | cons now rest ih =>
    obtain ⟨hle, hrest⟩ := List.pairwise_cons.mp htimes
    have hstep := h.step hhi (hle now List.mem_cons_self)
    have hbound := ih hstep hrest
    rw [decisions_cons, List.countP_cons]
    omega

/-- In an interval no longer than a window at most two windows' worth is admitted. -/
theorem countP_admittedIn_le {times : List Nat} (htimes : times.Pairwise (· ≤ ·)) {lo hi : Nat}
    (hhi : hi ≤ lo + width) :
    (decisions width limit none times).countP (admittedIn lo hi) ≤ 2 * limit := by
  have hfrom : WithinFrom width limit lo hi 0 0 none := rfl
  have hzero : (0 :: times).Pairwise (· ≤ ·) :=
    List.pairwise_cons.mpr ⟨fun t _ => Nat.zero_le t, htimes⟩
  have hbound := countP_admittedIn_add_le hhi hfrom hzero
  omega

/-! ## Events that keep to the limit -/

/-- The number of events in the closed interval of a window's length from `lo`. -/
def eventsFrom (width lo : Nat) (times : List Nat) : Nat :=
  times.countP fun t => decide (lo ≤ t ∧ t ≤ lo + width)

/-- The window has started by `last`, and no more is counted than the events since then. -/
def Counted (last : Nat) (past : List Nat) : Option WindowCounter → Prop
  | none => True
  | some c => c.start ≤ last ∧ c.count ≤ past.countP fun t => decide (c.start ≤ t)

theorem Counted.roll {last now : Nat} {past : List Nat} {c : Option WindowCounter}
    (h : Counted last past c) (hnow : last ≤ now) :
    Counted now past (some (roll width now c)) := by
  cases c with
  | none => exact ⟨Nat.le_refl now, Nat.zero_le _⟩
  | some c =>
    obtain ⟨hstart, hcount⟩ := h
    rw [WindowCounter.roll]
    split
    · exact ⟨Nat.le_refl now, Nat.zero_le _⟩
    · exact ⟨Nat.le_trans hstart hnow, hcount⟩

/-- A window that is current at `now` ends no earlier than it. -/
theorem le_start_add_width (now : Nat) (c : Option WindowCounter) :
    now ≤ (roll width now c).start + width := by
  cases c with
  | none => exact Nat.le_add_right now width
  | some c =>
    rw [WindowCounter.roll]
    split
    · exact Nat.le_add_right now width
    · omega

/-- The events since the start of the current window lie in an interval of its length. -/
theorem Counted.count_lt {now : Nat} {past rest : List Nat} {c : WindowCounter}
    (h : Counted now past (some c)) (hend : now ≤ c.start + width) (hpast : ∀ t ∈ past, t ≤ now)
    (hlimit : eventsFrom width c.start (past ++ now :: rest) ≤ limit) : c.count < limit := by
  obtain ⟨hstart, hcount⟩ := h
  have hevents : past.countP (fun t => decide (c.start ≤ t)) =
      past.countP (fun t => decide (c.start ≤ t ∧ t ≤ c.start + width)) := by
    apply List.countP_congr
    intro t ht
    have hle := hpast t ht
    simp only [decide_eq_true_eq]
    omega
  have hnow : decide (c.start ≤ now ∧ now ≤ c.start + width) = true :=
    decide_eq_true ⟨hstart, hend⟩
  rw [eventsFrom, List.countP_append, List.countP_cons, if_pos hnow] at hlimit
  omega

theorem Counted.step {last now : Nat} {past : List Nat} {c : Option WindowCounter}
    (h : Counted last past c) (hnow : last ≤ now) :
    Counted now (past ++ [now]) (step width limit c now) := by
  have hroll : Counted now past (some (WindowCounter.roll width now c)) := h.roll hnow
  obtain ⟨hstart, hcount⟩ := hroll
  have hlast : (past ++ [now]).countP (fun t => decide ((WindowCounter.roll width now c).start ≤ t)) =
      past.countP (fun t => decide ((WindowCounter.roll width now c).start ≤ t)) + 1 := by
    rw [List.countP_append, List.countP_singleton, if_pos (decide_eq_true hstart)]
  unfold WindowCounter.step
  by_cases hroom : (WindowCounter.roll width now c).count < limit
  · simp only [hroom, if_true]
    refine ⟨hstart, ?_⟩
    rw [hlast]
    exact Nat.succ_le_succ hcount
  · simp only [hroom, if_false]
    refine ⟨hstart, ?_⟩
    rw [hlast]
    exact Nat.le_succ_of_le hcount

/-- Events that keep to the limit in every interval of a window's length are all admitted.
Induction over the events to come, with those that have been. -/
theorem admitted_of_eventsFrom_le {past : List Nat} {times : List Nat} {last : Nat}
    {c : Option WindowCounter} (h : Counted last past c) (hpast : ∀ t ∈ past, t ≤ last)
    (htimes : (last :: times).Pairwise (· ≤ ·))
    (hlimit : ∀ lo, eventsFrom width lo (past ++ times) ≤ limit) :
    ∀ d ∈ decisions width limit c times, d.2 = true := by
  induction times generalizing past last c with
  | nil =>
    intro d hd
    cases hd
  | cons now rest ih =>
    obtain ⟨hle, hrest⟩ := List.pairwise_cons.mp htimes
    have hnow : last ≤ now := hle now List.mem_cons_self
    have hpast' : ∀ t ∈ past, t ≤ now := fun t ht => Nat.le_trans (hpast t ht) hnow
    have hroom : (WindowCounter.roll width now c).count < limit :=
      (h.roll hnow).count_lt (le_start_add_width now c) hpast' (hlimit _)
    intro d hd
    rw [decisions_cons] at hd
    rcases List.mem_cons.mp hd with rfl | hd
    · exact decide_eq_true hroom
    · refine ih (h.step hnow) ?_ hrest ?_ d hd
      · intro t ht
        rcases List.mem_append.mp ht with ht | ht
        · exact hpast' t ht
        · exact Nat.le_of_eq (List.mem_singleton.mp ht)
      · intro lo
        rw [List.append_assoc]
        exact hlimit lo

theorem all_admitted {times : List Nat} (htimes : times.Pairwise (· ≤ ·))
    (hlimit : ∀ lo, eventsFrom width lo times ≤ limit) :
    ∀ d ∈ decisions width limit none times, d.2 = true := by
  have hcounted : Counted 0 [] none := trivial
  have hzero : (0 :: times).Pairwise (· ≤ ·) :=
    List.pairwise_cons.mpr ⟨fun t _ => Nat.zero_le t, htimes⟩
  exact admitted_of_eventsFrom_le hcounted (fun t ht => by cases ht) hzero hlimit

end WindowCounter

end Lib
end Kademlia
