import Kademlia.Lib.Run

/-!
# Two systems side by side

A relation between the states of two systems that every pair of steps keeps relates
their states at the end of a run.  `pairStep` makes one system of two that take inputs of
their own, so that its guards may look at both.  For two systems that take the same
inputs, `refines_of_meets` relates the states and `outputs_eq_of_meets` the outputs.
`outputs_filter` is for a system with independent parts, and `outputs_pool` for one that
puts things aside and takes them up in any order.
-/

namespace Kademlia
namespace Lib

variable {σ τ ι κ ω : Type} (step : σ → ι → σ) (step' : τ → κ → τ)

/-- The outputs of a run, in order. -/
def outputs (out : σ → ι → List ω) : σ → List ι → List ω
  | _, [] => []
  | s, i :: rest => out s i ++ outputs out (step s i) rest

/-- Both systems take a step. -/
def pairStep (s : σ × τ) (i : ι × κ) : σ × τ := (step s.1 i.1, step' s.2 i.2)

variable {step step'}

section SameInputs

variable {next : τ → ι → τ} {R : σ → τ → Prop} {ok : τ → ι → Prop}
  (hstep : ∀ s t i, R s t → ok t i → R (step s i) (next t i))

include hstep

/-- Refinement along a run of the same inputs. -/
theorem refines_of_meets {s : σ} {t : τ} {inputs : List ι} (hR : R s t)
    (hok : Meets next ok t inputs) : R (run step s inputs) (run next t inputs) := by
  induction inputs generalizing s t with
  | nil => exact hR
  | cons i rest ih => exact ih (hstep s t i hR hok.1) hok.2

theorem outputs_eq_of_meets {out : σ → ι → List ω} {out' : τ → ι → List ω}
    (hout : ∀ s t i, R s t → ok t i → out s i = out' t i) {s : σ} {t : τ} {inputs : List ι}
    (hR : R s t) (hok : Meets next ok t inputs) :
    outputs step out s inputs = outputs next out' t inputs := by
  induction inputs generalizing s t with
  | nil => rfl
  | cons i rest ih =>
    show out s i ++ outputs step out (step s i) rest = out' t i ++ outputs next out' (next t i) rest
    rw [hout s t i hR hok.1, ih (hstep s t i hR hok.1) hok.2]

end SameInputs

theorem outputs_append (out : σ → ι → List ω) (s : σ) (first second : List ι) :
    outputs step out s (first ++ second) =
      outputs step out s first ++ outputs step out (run step s first) second := by
  induction first generalizing s with
  | nil => rfl
  | cons i rest ih =>
    show out s i ++ outputs step out (step s i) (rest ++ second) = _
    rw [ih, ← List.append_assoc]
    rfl

theorem filterMap_outputs {κ : Type} (f : ω → Option κ) (out : σ → ι → List ω) (s : σ)
    (inputs : List ι) :
    (outputs step out s inputs).filterMap f =
      outputs step (fun s i => (out s i).filterMap f) s inputs := by
  induction inputs generalizing s with
  | nil => rfl
  | cons i rest ih =>
    show (out s i ++ outputs step out (step s i) rest).filterMap f = _
    rw [List.filterMap_append, ih]
    rfl

/-- Two systems whose steps have as many outputs as each other: a run has the same outputs if
and only if every step has. -/
theorem outputs_eq_iff_meets {next : τ → ι → τ} {out : σ → ι → List ω} {out' : τ → ι → List ω}
    (hlength : ∀ s t i, (out s i).length = (out' t i).length) {s : σ} {t : τ} {inputs : List ι} :
    outputs step out s inputs = outputs next out' t inputs ↔
      Meets (fun p i => (step p.1 i, next p.2 i)) (fun p i => out p.1 i = out' p.2 i) (s, t)
        inputs := by
  induction inputs generalizing s t with
  | nil => exact ⟨fun _ => trivial, fun _ => rfl⟩
  | cons i rest ih =>
    constructor
    · intro h
      obtain ⟨hout, hrest⟩ := List.append_inj h (hlength s t i)
      exact ⟨hout, ih.mp hrest⟩
    · intro h
      exact congrArg₂ (· ++ ·) h.1 (ih.mpr h.2)

/-- Inputs that a system takes in another form. -/
theorem outputs_map (f : κ → ι) (out : σ → ι → List ω) (s : σ) (inputs : List κ) :
    outputs (fun s i => step s (f i)) (fun s i => out s (f i)) s inputs =
      outputs step out s (inputs.map f) := by
  induction inputs generalizing s with
  | nil => rfl
  | cons i rest ih => exact congrArg (out s (f i) ++ ·) (ih (step s (f i)))

/-- A part of a system that some of the inputs go to and no other input changes.  Its outputs
are those of the part alone, run on its own inputs. -/
theorem outputs_filter {next : τ → ι → τ} (part : σ → τ) {own : ι → Bool}
    {out : σ → ι → List ω} {out' : τ → ι → List ω}
    (hown : ∀ s i, own i = true → part (step s i) = next (part s) i ∧ out s i = out' (part s) i)
    (hother : ∀ s i, own i = false → part (step s i) = part s ∧ out s i = []) (s : σ)
    (inputs : List ι) :
    outputs step out s inputs = outputs next out' (part s) (inputs.filter own) := by
  induction inputs generalizing s with
  | nil => rfl
  | cons i rest ih =>
    show out s i ++ outputs step out (step s i) rest = _
    rw [ih]
    cases hi : own i with
    | true =>
      obtain ⟨hpart, hout⟩ := hown s i hi
      rw [List.filter_cons_of_pos hi, hpart, hout]
      rfl
    | false =>
      obtain ⟨hpart, hout⟩ := hother s i hi
      rw [List.filter_cons_of_neg (by simp [hi]), hpart, hout]
      rfl

/-- A part that takes its inputs in another form. -/
theorem run_filterMap {next : τ → κ → τ} (part : σ → τ) {own : ι → Option κ}
    (hown : ∀ s i k, own i = some k → part (step s i) = next (part s) k)
    (hother : ∀ s i, own i = none → part (step s i) = part s) (s : σ) (inputs : List ι) :
    part (run step s inputs) = run next (part s) (inputs.filterMap own) := by
  induction inputs generalizing s with
  | nil => rfl
  | cons i rest ih =>
    rw [run_cons, ih]
    cases hi : own i with
    | none => rw [hother s i hi, List.filterMap_cons_none hi]
    | some k => rw [hown s i k hi, List.filterMap_cons_some hi, run_cons]

/-- A pool that every step keeps the balance of: what was taken out and what is left is what
was there and what was put in. -/
theorem outputs_pool {pool : σ → List ω} {put take : σ → ι → List ω}
    (h : ∀ s i, (take s i ++ pool (step s i)).Perm (pool s ++ put s i)) (s : σ)
    (inputs : List ι) :
    (outputs step take s inputs ++ pool (run step s inputs)).Perm
      (pool s ++ outputs step put s inputs) := by
  induction inputs generalizing s with
  | nil => exact (List.append_nil _).symm ▸ .refl _
  | cons i rest ih =>
    show (take s i ++ outputs step take (step s i) rest ++ pool (run step (step s i) rest)).Perm
      (pool s ++ (put s i ++ outputs step put (step s i) rest))
    rw [List.append_assoc, ← List.append_assoc (pool s)]
    refine ((ih (step s i)).append_left (take s i)).trans ?_
    rw [← List.append_assoc]
    exact (h s i).append_right _

end Lib
end Kademlia
