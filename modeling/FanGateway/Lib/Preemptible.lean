import Mathlib.Data.List.Induction
import Mathlib.Logic.Function.Iterate

/-!
# Computations that handlers may interrupt

A computation advances in steps, and a handler may run to completion between any
two of them. If every handler leaves alone what the computation can see, then the
computation cannot tell whether it was interrupted: what it sees after a run is
what it would see after the same number of its own steps.
-/

namespace Lib

/-- A computation on states `σ` that sees a `τ` of them, and handlers `η` that
leave it alone in the states that are ready for them. -/
structure Preemptible (σ η τ : Type*) where
  step : σ → σ
  handle : η → σ → σ
  view : σ → τ
  /-- What a step does to what the computation sees. -/
  next : τ → τ
  Ready : σ → Prop
  view_step : ∀ s, view (step s) = next (view s)
  view_handle : ∀ h s, Ready s → view (handle h s) = view s
  ready_step : ∀ s, Ready s → Ready (step s)
  ready_handle : ∀ h s, Ready s → Ready (handle h s)

/-- Whose turn it is. -/
inductive Turn (η : Type*)
  | step
  | handler (h : η)

namespace Turn

variable {η : Type*}

def isStep : Turn η → Bool
  | step => true
  | handler _ => false

/-- The steps of the computation in a schedule. -/
def steps (turns : List (Turn η)) : ℕ := turns.countP isStep

end Turn

namespace Preemptible

variable {σ η τ : Type*} (p : Preemptible σ η τ)

def turn (s : σ) : Turn η → σ
  | .step => p.step s
  | .handler h => p.handle h s

def run (s : σ) (turns : List (Turn η)) : σ := turns.foldl p.turn s

variable {s : σ}

theorem run_append_singleton (turns : List (Turn η)) (t : Turn η) :
    p.run s (turns ++ [t]) = p.turn (p.run s turns) t := by simp [run]

theorem ready_run (h : p.Ready s) (turns : List (Turn η)) : p.Ready (p.run s turns) := by
  induction turns using List.reverseRecOn with
  | nil => exact h
  | append_singleton turns t ih =>
    rw [run_append_singleton]
    cases t with
    | step => exact p.ready_step _ ih
    | handler i => exact p.ready_handle i _ ih

/-- **Preemption.** The computation sees what it would have seen without handlers. -/
theorem view_run (h : p.Ready s) (turns : List (Turn η)) :
    p.view (p.run s turns) = p.next^[Turn.steps turns] (p.view s) := by
  -- induction on the turns; only those of the computation are counted
  induction turns using List.reverseRecOn with
  | nil => rfl
  | append_singleton turns t ih =>
    rw [run_append_singleton, Turn.steps, List.countP_append]
    cases t with
    | step =>
      have hcount : [(Turn.step : Turn η)].countP Turn.isStep = 1 := rfl
      rw [hcount, Function.iterate_succ_apply', turn, p.view_step, ih]
      rfl
    | handler i =>
      have hcount : [Turn.handler i].countP Turn.isStep = 0 := rfl
      rw [hcount, turn, p.view_handle i _ (p.ready_run h turns), ih]
      rfl

end Preemptible

end Lib
