import Mathlib.Data.List.Basic

/-!
# Runs of a step function

A run is a step for each of its events.
-/

namespace CommonMeasure

variable {σ ε : Type*}

def runWith (step : σ → ε → σ) (s : σ) (events : List ε) : σ := events.foldl step s

def AlongRun (step : σ → ε → σ) (condition : σ → ε → Prop) : σ → List ε → Prop
  | _, [] => True
  | s, event :: events => condition s event ∧ AlongRun step condition (step s event) events

def AlongRun.decide (step : σ → ε → σ) (condition : σ → ε → Prop) (each : ∀ s event, Decidable (condition s event)) :
    ∀ (s : σ) (events : List ε), Decidable (AlongRun step condition s events)
  | _, [] => .isTrue trivial
  | s, event :: events =>
    have := each s event
    have := AlongRun.decide step condition each (step s event) events
    inferInstanceAs (Decidable (condition s event ∧ AlongRun step condition (step s event) events))

instance (step : σ → ε → σ) (condition : σ → ε → Prop) [each : ∀ s event, Decidable (condition s event)] (s : σ)
    (events : List ε) : Decidable (AlongRun step condition s events) := AlongRun.decide step condition each s events

variable {step : σ → ε → σ} {condition : σ → ε → Prop} {I : σ → Prop}

@[simp] theorem runWith_nil (s : σ) : runWith step s [] = s := rfl

@[simp] theorem runWith_cons (s : σ) (event : ε) (events : List ε) :
    runWith step s (event :: events) = runWith step (step s event) events := rfl

theorem runWith_append (s : σ) (events more : List ε) :
    runWith step s (events ++ more) = runWith step (runWith step s events) more := List.foldl_append

theorem runWith_keeps (keeps : ∀ s event, I s → condition s event → I (step s event)) {s : σ} (start : I s)
    {events : List ε} (along : AlongRun step condition s events) : I (runWith step s events) := by
  induction events generalizing s with
  | nil => exact start
  | cons event events ih => exact ih (keeps s event start along.1) along.2

theorem runWith_invariant (keeps : ∀ s event, I s → I (step s event)) {s : σ} (start : I s) (events : List ε) :
    I (runWith step s events) := by
  induction events generalizing s with
  | nil => exact start
  | cons event events ih => exact ih (keeps s event start)

theorem AlongRun.of_forall (all : ∀ s event, condition s event) (s : σ) (events : List ε) :
    AlongRun step condition s events := by
  induction events generalizing s with
  | nil => trivial
  | cons event events ih => exact ⟨all s event, ih _⟩

theorem AlongRun.append {s : σ} {events more : List ε} :
    AlongRun step condition s (events ++ more) ↔
      AlongRun step condition s events ∧ AlongRun step condition (runWith step s events) more := by
  induction events generalizing s with
  | nil => simp [AlongRun]
  | cons event events ih => simp [AlongRun, ih, and_assoc]

theorem AlongRun.snoc {s : σ} {events : List ε} {event : ε} :
    AlongRun step condition s (events ++ [event]) ↔
      AlongRun step condition s events ∧ condition (runWith step s events) event := by
  simp [AlongRun.append, AlongRun]

theorem AlongRun.congr {next : σ → ε → σ} {holds : σ → ε → Prop}
    (same : ∀ s event, condition s event → holds s event ∧ step s event = next s event) {s : σ} {events : List ε}
    (along : AlongRun step condition s events) :
    AlongRun next holds s events ∧ runWith step s events = runWith next s events := by
  induction events generalizing s with
  | nil => exact ⟨trivial, rfl⟩
  | cons event events ih =>
    obtain ⟨here, along⟩ := along
    obtain ⟨held, stepped⟩ := same s event here
    rw [stepped] at along
    obtain ⟨along, ran⟩ := ih along
    rw [runWith_cons, runWith_cons, stepped]
    exact ⟨⟨held, along⟩, ran⟩

end CommonMeasure
