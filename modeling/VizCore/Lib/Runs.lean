import Mathlib.Data.List.Induction
import VizCore.Lib.Walk

/-!
# Runs of a machine that takes steps

A machine is a step function on states and actions.  `run` takes a list of actions, a guarded
run is one whose actions meet a condition in the states that they find, and an invariant is
what every such step keeps.

* `run_invariant`: what every step keeps holds after a run;
* `run_history`: the same for what also depends on the actions taken so far.
-/

namespace VizCore.Lib

variable {σ α : Type} (step : σ → α → σ) (ok : σ → α → Prop)

def run (s : σ) (acts : List α) : σ := acts.foldl step s

variable {step ok}

@[simp] theorem run_nil (s : σ) : run step s [] = s := rfl

@[simp] theorem run_cons (s : σ) (a : α) (acts : List α) :
    run step s (a :: acts) = run step (step s a) acts := rfl

theorem run_append (s : σ) (acts acts' : List α) :
    run step s (acts ++ acts') = run step (run step s acts) acts' :=
  List.foldl_append

@[simp] theorem run_snoc (s : σ) (acts : List α) (a : α) :
    run step s (acts ++ [a]) = step (run step s acts) a := by
  rw [run_append]
  rfl

theorem guarded_append {s : σ} {acts acts' : List α} :
    Guarded step ok s (acts ++ acts') ↔
      Guarded step ok s acts ∧ Guarded step ok (run step s acts) acts' := by
  induction acts generalizing s with
  | nil =>
    show _ ↔ True ∧ _
    rw [true_and]
    rfl
  | cons a acts ih =>
    show ok s a ∧ Guarded step ok (step s a) (acts ++ acts') ↔ _
    rw [ih]
    exact and_assoc.symm

theorem guarded_snoc {s : σ} {acts : List α} {a : α} :
    Guarded step ok s (acts ++ [a]) ↔ Guarded step ok s acts ∧ ok (run step s acts) a := by
  rw [guarded_append]
  show _ ∧ ok _ a ∧ True ↔ _
  rw [and_true]

/-- What holds at the start and is kept by every step holds after a run. -/
theorem run_invariant {I : σ → Prop} {s : σ} {acts : List α} (hstart : I s)
    (hstep : ∀ s a, I s → ok s a → I (step s a)) (hguarded : Guarded step ok s acts) :
    I (run step s acts) := by
  induction acts generalizing s with
  | nil => exact hstart
  | cons a acts ih => exact ih (hstep s a hstart hguarded.1) hguarded.2

/-- The same where no step asks for anything. -/
theorem run_always {I : σ → Prop} {s : σ} (hstart : I s) (hstep : ∀ s a, I s → I (step s a))
    (acts : List α) : I (run step s acts) := by
  induction acts generalizing s with
  | nil => exact hstart
  | cons a acts ih => exact ih (hstep s a hstart)

/-- What may also speak of the actions that were taken. -/
theorem run_history {P : List α → Prop} {s : σ} {acts : List α} (hstart : P [])
    (hstep : ∀ acts a, P acts → ok (run step s acts) a → P (acts ++ [a]))
    (hguarded : Guarded step ok s acts) : P acts := by
  induction acts using List.reverseRecOn with
  | nil => exact hstart
  | append_singleton acts a ih =>
    obtain ⟨hacts, hok⟩ := guarded_snoc.1 hguarded
    exact hstep acts a (ih hacts) hok

end VizCore.Lib
