import Mathlib.Init

/-!
# Runs of a machine

A machine starts in one of its initial states and reacts to events; an event
that is not enabled has no successor.  `Reachable allowed` are the states of
the runs whose every event was `allowed` in the state it was taken in, so that
an assumption on runs is an assumption on their steps.
-/

namespace Transition

variable {σ τ ε : Type}

/-- A deterministic machine; choices of its environment are part of the
events. -/
structure Machine (σ ε : Type) where
  init : σ → Prop
  step : σ → ε → Option σ

variable {m : Machine σ ε} {allowed stricter : σ → ε → Prop}

/-- The states of the runs whose events are all allowed. -/
inductive Reachable (m : Machine σ ε) (allowed : σ → ε → Prop) : σ → Prop
  | start {s : σ} : m.init s → Reachable m allowed s
  | next {s s' : σ} {e : ε} : Reachable m allowed s → allowed s e →
      m.step s e = some s' → Reachable m allowed s'

/-- What holds initially and is kept by every allowed step holds in every
reachable state.  A step may use that its source is reachable. -/
theorem Reachable.invariant {P : σ → Prop}
    (initial : ∀ s, m.init s → P s)
    (preserved : ∀ s e s', Reachable m allowed s → P s → allowed s e →
      m.step s e = some s' → P s')
    {s : σ} (reachable : Reachable m allowed s) : P s := by
  induction reachable with
  | start isInitial => exact initial _ isInitial
  | next before isAllowed step ih => exact preserved _ _ _ before ih isAllowed step

/-- The same machine, started in one state: its reachable states are those that come
later. -/
def Machine.startingAt (m : Machine σ ε) (s : σ) : Machine σ ε := { m with init := (· = s) }

theorem Reachable.later {s s' : σ} (reachable : Reachable m allowed s)
    (weaker : ∀ s e, stricter s e → allowed s e)
    (run : Reachable (m.startingAt s) stricter s') : Reachable m allowed s' := by
  induction run with
  | start isInitial => exact isInitial ▸ reachable
  | next _ isAllowed step ih => exact .next ih (weaker _ _ isAllowed) step

/-- A condition that holds on every step of a run can be assumed of the run. -/
theorem Reachable.strengthen
    (holds : ∀ s e, Reachable m stricter s → allowed s e → stricter s e)
    {s : σ} (reachable : Reachable m allowed s) : Reachable m stricter s := by
  induction reachable with
  | start isInitial => exact .start isInitial
  | next before isAllowed step ih => exact .next ih (holds _ _ ih isAllowed) step

/-- Run a list of events, as long as each is allowed. -/
def Machine.run (m : Machine σ ε) (allowed : σ → ε → Prop) [∀ s e, Decidable (allowed s e)] :
    σ → List ε → Option σ
  | s, [] => some s
  | s, e :: events =>
      if allowed s e then (m.step s e).bind fun s' => m.run allowed s' events else none

theorem Reachable.run [∀ s e, Decidable (allowed s e)] {s s' : σ} {events : List ε}
    (reachable : Reachable m allowed s) (ran : m.run allowed s events = some s') :
    Reachable m allowed s' := by
  induction events generalizing s with
  | nil =>
      cases ran
      exact reachable
  | cons e events ih =>
      simp only [Machine.run, Option.ite_none_right_eq_some] at ran
      obtain ⟨isAllowed, ran⟩ := ran
      obtain ⟨middle, step, rest⟩ := Option.bind_eq_some_iff.mp ran
      exact ih (.next reachable isAllowed step) rest

/-- A state with a decidable property, found by running a list of events. -/
theorem exists_reachable_of_run [∀ s e, Decidable (allowed s e)] {s : σ} {P : σ → Prop}
    [DecidablePred P] (events : List ε) (initial : m.init s)
    (found : (m.run allowed s events).any (fun s' => decide (P s')) = true) :
    ∃ s', Reachable m allowed s' ∧ P s' := by
  cases ran : m.run allowed s events with
  | none => simp [ran] at found
  | some s' =>
      rw [ran] at found
      exact ⟨s', (Reachable.start initial).run ran, of_decide_eq_true found⟩

end Transition
