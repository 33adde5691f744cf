import Mathlib.Logic.Function.Iterate

/-!
Simulation of a partial step function over events by a total one, with stuttering.

A step of the implementation either matches one step of the specification or is
silent; silent steps use up a credit, so a run of the implementation makes all
but a bounded number of its steps on the specification as well.
-/

namespace StutterRun

variable {γ ε α : Type}

def run (step : γ → ε → Option γ) : γ → List ε → Option γ
  | state, [] => some state
  | state, event :: rest =>
      match step state event with
      | none => none
      | some next => run step next rest

structure Simulation (step : γ → ε → Option γ) (next : α → α) (related : γ → α → Prop)
    (credit : γ → Nat) : Prop where
  each : ∀ state spec event after, related state spec → step state event = some after →
    (related after (next spec) ∧ credit after ≤ credit state) ∨
      (related after spec ∧ credit after < credit state)

theorem Simulation.follows {step : γ → ε → Option γ} {next : α → α} {related : γ → α → Prop}
    {credit : γ → Nat} (simulation : Simulation step next related credit) (state after : γ)
    (spec : α) (events : List ε) (start : related state spec)
    (ran : run step state events = some after) :
    ∃ count, related after (next^[count] spec) ∧
      events.length + credit after ≤ count + credit state := by
  induction events generalizing state spec with
  | nil =>
      cases ran
      exact ⟨0, start, Nat.le_refl _⟩
  | cons event rest ih =>
      simp only [run] at ran
      split at ran
      · cases ran
      · rename_i middle stepped
        rcases simulation.each state spec event middle start stepped with matched | silent
        · obtain ⟨count, last, bound⟩ := ih middle (next spec) matched.1 ran
          refine ⟨count + 1, last, ?_⟩
          have kept := matched.2
          rw [List.length_cons]
          omega
        · obtain ⟨count, last, bound⟩ := ih middle spec silent.1 ran
          refine ⟨count, last, ?_⟩
          have spent := silent.2
          rw [List.length_cons]
          omega

end StutterRun
