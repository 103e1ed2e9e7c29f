import Mathlib.Algebra.GroupWithZero.Nat
import Mathlib.Data.List.Basic

/-!
# Runs of a deterministic system

A run applies a list of inputs one after another.  `Throughout P` says that `P`
holds in every state of the run, the first and the last included, and `Meets ok`
that every input satisfies `ok` in the state it is applied to.

`throughout_iff_meets` is the rule for invariants with an exact guard: when a step
keeps `P` if and only if its guard holds, `P` holds throughout a run exactly when
every step meets the guard.
-/

namespace Kademlia
namespace Lib

variable {σ ι : Type} (step : σ → ι → σ)

def run (s : σ) (inputs : List ι) : σ := inputs.foldl step s

def Throughout (P : σ → Prop) : σ → List ι → Prop
  | s, [] => P s
  | s, i :: rest => P s ∧ Throughout P (step s i) rest

def Meets (ok : σ → ι → Prop) : σ → List ι → Prop
  | _, [] => True
  | s, i :: rest => ok s i ∧ Meets ok (step s i) rest

instance decidableThroughout (P : σ → Prop) [DecidablePred P] :
    (s : σ) → (inputs : List ι) → Decidable (Throughout step P s inputs)
  | s, [] => inferInstanceAs (Decidable (P s))
  | s, i :: rest =>
    have := decidableThroughout P (step s i) rest
    inferInstanceAs (Decidable (P s ∧ Throughout step P (step s i) rest))

instance decidableMeets (ok : σ → ι → Prop) [∀ s i, Decidable (ok s i)] :
    (s : σ) → (inputs : List ι) → Decidable (Meets step ok s inputs)
  | _, [] => .isTrue trivial
  | s, i :: rest =>
    have := decidableMeets ok (step s i) rest
    inferInstanceAs (Decidable (ok s i ∧ Meets step ok (step s i) rest))

/-- What the last input says for which `f` says anything. -/
def latest {α : Type} (f : ι → Option α) (inputs : List ι) : Option α :=
  inputs.reverse.findSome? f

variable {step}

@[simp] theorem run_nil (s : σ) : run step s [] = s := rfl

@[simp] theorem run_cons (s : σ) (i : ι) (rest : List ι) :
    run step s (i :: rest) = run step (step s i) rest := rfl

theorem run_append (s : σ) (first second : List ι) :
    run step s (first ++ second) = run step (run step s first) second :=
  List.foldl_append

theorem run_concat (s : σ) (inputs : List ι) (i : ι) :
    run step s (inputs ++ [i]) = step (run step s inputs) i := by
  rw [run_append]
  rfl

theorem latest_concat {α : Type} (f : ι → Option α) (inputs : List ι) (i : ι) :
    latest f (inputs ++ [i]) = (f i).or (latest f inputs) := by
  rw [latest, List.reverse_concat, List.findSome?_cons, latest]
  cases f i <;> rfl

/-- Inputs that are passed on in another form. -/
theorem latest_filterMap {α κ : Type} (f : κ → Option α) (g : ι → Option κ) (inputs : List ι) :
    latest f (inputs.filterMap g) = latest (fun i => (g i).bind f) inputs := by
  rw [latest, latest, ← List.filterMap_reverse, ← List.head?_filterMap, ← List.head?_filterMap,
    List.filterMap_filterMap]

theorem latest_map {α β : Type} (f : ι → Option α) (g : α → β) (inputs : List ι) :
    latest (fun i => (f i).map g) inputs = (latest f inputs).map g := by
  rw [latest, latest, List.map_findSome?]
  rfl

theorem meets_append {ok : σ → ι → Prop} {s : σ} {first second : List ι} :
    Meets step ok s (first ++ second) ↔
      Meets step ok s first ∧ Meets step ok (run step s first) second := by
  induction first generalizing s with
  | nil => simp [Meets]
  | cons i rest ih => simp only [List.cons_append, Meets, run_cons, ih, and_assoc]

theorem meets_of_forall {ok : σ → ι → Prop} {s : σ} {inputs : List ι}
    (h : ∀ s, ∀ i ∈ inputs, ok s i) : Meets step ok s inputs := by
  induction inputs generalizing s with
  | nil => trivial
  | cons i rest ih =>
    exact ⟨h s i List.mem_cons_self, ih fun s j hj => h s j (List.mem_cons_of_mem i hj)⟩

/-- A condition that does not look at the state. -/
theorem meets_iff_forall {ok : ι → Prop} {s : σ} {inputs : List ι} :
    Meets step (fun _ i => ok i) s inputs ↔ ∀ i ∈ inputs, ok i := by
  induction inputs generalizing s with
  | nil => simp [Meets]
  | cons i rest ih => rw [Meets, ih, List.forall_mem_cons]

/-- A condition is met when each input satisfies it after those before it. -/
theorem meets_of_split {ok : σ → ι → Prop} {s : σ} {inputs : List ι}
    (h : ∀ before i rest, inputs = before ++ i :: rest → ok (run step s before) i) :
    Meets step ok s inputs := by
  induction inputs generalizing s with
  | nil => trivial
  | cons i rest ih =>
    refine ⟨h [] i rest rfl, ih fun before j rest' hsplit => ?_⟩
    exact h (i :: before) j rest' (congrArg (i :: ·) hsplit)

theorem meets_iff_split {ok : σ → ι → Prop} {s : σ} {inputs : List ι} :
    Meets step ok s inputs ↔
      ∀ before i rest, inputs = before ++ i :: rest → ok (run step s before) i := by
  constructor
  · rintro h before i rest rfl
    exact (meets_append.mp h).2.1
  · exact meets_of_split

theorem Throughout.last {P : σ → Prop} {s : σ} {inputs : List ι}
    (h : Throughout step P s inputs) : P (run step s inputs) := by
  induction inputs generalizing s with
  | nil => exact h
  | cons i rest ih => exact ih h.2

/-- A property that holds at the start and is kept by every step that meets the guard
holds throughout a run whose steps all meet it. -/
theorem throughout_of_meets {P : σ → Prop} {ok : σ → ι → Prop}
    (hstep : ∀ s i, P s → ok s i → P (step s i)) {s : σ} {inputs : List ι} (hs : P s)
    (hok : Meets step ok s inputs) : Throughout step P s inputs := by
  induction inputs generalizing s with
  | nil => exact hs
  | cons i rest ih => exact ⟨hs, ih (hstep s i hs hok.1) hok.2⟩

theorem invariant_of_meets {P : σ → Prop} {ok : σ → ι → Prop}
    (hstep : ∀ s i, P s → ok s i → P (step s i)) {s : σ} {inputs : List ι} (hs : P s)
    (hok : Meets step ok s inputs) : P (run step s inputs) :=
  (throughout_of_meets hstep hs hok).last

/-- A condition that follows from an invariant is met by every input. -/
theorem meets_of_invariant {I : σ → Prop} {ok allowed : σ → ι → Prop}
    (hI : ∀ s i, I s → allowed s i → I (step s i)) (hok : ∀ s i, I s → allowed s i → ok s i)
    {s : σ} {inputs : List ι} (hs : I s) (hallowed : Meets step allowed s inputs) :
    Meets step ok s inputs := by
  induction inputs generalizing s with
  | nil => trivial
  | cons i rest ih =>
    exact ⟨hok s i hs hallowed.1, ih (hI s i hs hallowed.1) hallowed.2⟩

theorem invariant {P : σ → Prop} (hstep : ∀ s i, P s → P (step s i)) {s : σ} (hs : P s)
    (inputs : List ι) : P (run step s inputs) := by
  have hok : Meets step (fun _ _ => True) s inputs := meets_of_forall fun _ _ _ => trivial
  exact invariant_of_meets (fun s i h _ => hstep s i h) hs hok

/-- The rule for an exact guard.  `I` is an invariant that the property keeps without the
guard, and that may be assumed when the two are compared.  The inputs may be restricted. -/
theorem throughout_iff_meets_of_meets {I P : σ → Prop} {ok allowed : σ → ι → Prop}
    (hI : ∀ s i, I s → allowed s i → P s → I (step s i))
    (hguard : ∀ s i, I s → allowed s i → P s → (P (step s i) ↔ ok s i)) {s : σ} {inputs : List ι}
    (hIs : I s) (hs : P s) (hallowed : Meets step allowed s inputs) :
    Throughout step P s inputs ↔ Meets step ok s inputs := by
  induction inputs generalizing s with
  | nil => exact ⟨fun _ => trivial, fun _ => hs⟩
  | cons i rest ih =>
    obtain ⟨hi, hrestAllowed⟩ := hallowed
    constructor
    · rintro ⟨-, hrest⟩
      have hPi : P (step s i) := by
        cases rest with
        | nil => exact hrest
        | cons j rest => exact hrest.1
      exact ⟨(hguard s i hIs hi hs).mp hPi, (ih (hI s i hIs hi hs) hPi hrestAllowed).mp hrest⟩
    · rintro ⟨hok, hrest⟩
      have hPi : P (step s i) := (hguard s i hIs hi hs).mpr hok
      exact ⟨hs, (ih (hI s i hIs hi hs) hPi hrestAllowed).mpr hrest⟩

/-- The same for all inputs. -/
theorem throughout_iff_meets_of_throughout {I P : σ → Prop} {ok : σ → ι → Prop}
    (hI : ∀ s i, I s → P s → I (step s i))
    (hguard : ∀ s i, I s → P s → (P (step s i) ↔ ok s i)) {s : σ} {inputs : List ι}
    (hIs : I s) (hs : P s) : Throughout step P s inputs ↔ Meets step ok s inputs := by
  have hallowed : Meets step (fun _ _ => True) s inputs := meets_of_forall fun _ _ _ => trivial
  exact throughout_iff_meets_of_meets (fun s i h _ => hI s i h) (fun s i h _ => hguard s i h) hIs hs
    hallowed

theorem throughout_iff_meets {I P : σ → Prop} {ok : σ → ι → Prop}
    (hI : ∀ s i, I s → I (step s i))
    (hguard : ∀ s i, I s → P s → (P (step s i) ↔ ok s i)) {s : σ} {inputs : List ι}
    (hIs : I s) (hs : P s) : Throughout step P s inputs ↔ Meets step ok s inputs :=
  throughout_iff_meets_of_throughout (fun s i h _ => hI s i h) hguard hIs hs

/-- Two conditions on the inputs that agree wherever the invariant of the runs that meet
the second one holds. -/
theorem meets_iff_meets_of_meets {I : σ → Prop} {ok ok' allowed : σ → ι → Prop}
    (hI : ∀ s i, I s → allowed s i → ok' s i → I (step s i))
    (hguard : ∀ s i, I s → allowed s i → (ok s i ↔ ok' s i)) {s : σ} {inputs : List ι}
    (hs : I s) (hallowed : Meets step allowed s inputs) :
    Meets step ok s inputs ↔ Meets step ok' s inputs := by
  induction inputs generalizing s with
  | nil => exact Iff.rfl
  | cons i rest ih =>
    obtain ⟨hi, hrest⟩ := hallowed
    have hiff := hguard s i hs hi
    constructor
    · intro ⟨hok, hmeets⟩
      exact ⟨hiff.mp hok, (ih (hI s i hs hi (hiff.mp hok)) hrest).mp hmeets⟩
    · intro ⟨hok', hmeets⟩
      exact ⟨hiff.mpr hok', (ih (hI s i hs hi hok') hrest).mpr hmeets⟩

theorem meets_iff_meets {I : σ → Prop} {ok ok' : σ → ι → Prop} (hI : ∀ s i, I s → I (step s i))
    (hguard : ∀ s i, I s → (ok s i ↔ ok' s i)) {s : σ} (hs : I s) (inputs : List ι) :
    Meets step ok s inputs ↔ Meets step ok' s inputs := by
  have hallowed : Meets step (fun _ _ => True) s inputs := meets_of_forall fun _ _ _ => trivial
  exact meets_iff_meets_of_meets (fun s i h _ _ => hI s i h) (fun s i h _ => hguard s i h) hs
    hallowed

/-! ## Runs that keep their inputs -/

/-- The step of a system that is run together with the inputs so far. -/
def logged (step : σ → ι → σ) (s : σ × List ι) (i : ι) : σ × List ι := (step s.1 i, s.2 ++ [i])

theorem meets_logged {ok : σ → ι → Prop} {s : σ} {log inputs : List ι} :
    Meets (logged step) (fun s i => ok s.1 i) (s, log) inputs ↔ Meets step ok s inputs := by
  induction inputs generalizing s log with
  | nil => exact Iff.rfl
  | cons i rest ih => exact and_congr_right fun _ => ih

theorem run_logged (s : σ) (log inputs : List ι) :
    run (logged step) (s, log) inputs = (run step s inputs, log ++ inputs) := by
  induction inputs generalizing s log with
  | nil => rw [List.append_nil]; rfl
  | cons i rest ih =>
    rw [run_cons, logged, ih, List.append_assoc]
    rfl

/-- A condition on the inputs so far and the next one. -/
theorem meets_logged_iff_split {ok : List ι → ι → Prop} {s : σ} {inputs : List ι} :
    Meets (logged step) (fun s i => ok s.2 i) (s, []) inputs ↔
      ∀ before i rest, inputs = before ++ i :: rest → ok before i := by
  rw [meets_iff_split]
  simp only [run_logged, List.nil_append]

/-! ## What runs cost -/

/-- The sum of the prices of the inputs, each in the state that it finds. -/
def cost (step : σ → ι → σ) (price : σ → ι → Nat) : σ → List ι → Nat
  | _, [] => 0
  | s, i :: rest => price s i + cost step price (step s i) rest

/-- Prices that depend on the input alone. -/
theorem cost_eq_sum {price : σ → ι → Nat} {fixed : ι → Nat} (h : ∀ s i, price s i = fixed i)
    (s : σ) (inputs : List ι) : cost step price s inputs = (inputs.map fixed).sum := by
  induction inputs generalizing s with
  | nil => rfl
  | cons i rest ih => rw [cost, h, ih, List.map_cons, List.sum_cons]

/-- What every step lowers by its price, as long as there is any, a run lowers by its cost. -/
theorem rank_run_le {rank : σ → Nat} {price : σ → ι → Nat}
    (h : ∀ s i, rank (step s i) ≤ rank s - price s i) (s : σ) (inputs : List ι) :
    rank (run step s inputs) ≤ rank s - cost step price s inputs := by
  induction inputs generalizing s with
  | nil => exact Nat.le_refl _
  | cons i rest ih =>
    have hstep := h s i
    have hrest := ih (step s i)
    rw [run_cons, cost]
    omega

/-- What a step raises by its price at most, a run raises by its cost at most. -/
theorem run_le_add_cost {f : σ → Int} {price : σ → ι → Nat} {inputs : List ι}
    (h : ∀ i ∈ inputs, ∀ s, f (step s i) ≤ f s + price s i) (s : σ) :
    f (run step s inputs) ≤ f s + cost step price s inputs := by
  induction inputs generalizing s with
  | nil => exact Int.le_of_eq (Int.add_zero _).symm
  | cons i rest ih =>
    have hstep := h i List.mem_cons_self s
    have hrest := ih (fun j hj => h j (List.mem_cons_of_mem i hj)) (step s i)
    rw [run_cons, cost]
    omega

end Lib
end Kademlia
