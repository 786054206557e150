import Mathlib.Data.List.Infix

/-!
# Programs that leave a trace

A program reads what has happened and adds to it.
-/

namespace CommonMeasure.Foundation

def Traced (E α : Type) : Type := List E → α × List E

namespace Traced

variable {E α β : Type}

instance : Monad (Traced E) where
  pure a := fun trace => (a, trace)
  bind program next := fun trace => next (program trace).1 (program trace).2

def emit (event : E) : Traced E Unit := fun trace => ((), trace ++ [event])

def consult (answer : List E → α) : Traced E α := fun trace => (answer trace, trace)

def Permitted (permits : List E → E → Prop) (trace : List E) : Prop :=
  ∀ before event after, trace = before ++ event :: after → permits before event

variable {permits : List E → E → Prop}

theorem permitted_nil : Permitted permits [] := by
  intro before event after is
  cases before <;> cases is

theorem permitted_append {trace : List E} {event : E} (permitted : Permitted permits trace) (permits_ : permits trace event) :
    Permitted permits (trace ++ [event]) := by
  intro before other after is
  cases after using List.reverseRecOn with
  | nil =>
    obtain ⟨rfl, same⟩ := List.append_inj' is rfl
    cases same
    exact permits_
  | append_singleton rest last _ =>
    rw [show before ++ other :: (rest ++ [last]) = (before ++ other :: rest) ++ [last] by simp] at is
    exact permitted before other rest (List.append_inj' is rfl).1

def Stable (holds : List E → Prop) : Prop := ∀ trace more, holds trace → holds (trace ++ more)

theorem stable_mem (event : E) : Stable (event ∈ ·) := fun _ _ member => List.mem_append_left _ member

theorem Stable.and {first second : List E → Prop} (one : Stable first) (other : Stable second) :
    Stable fun trace => first trace ∧ second trace :=
  fun trace more ⟨here, there⟩ => ⟨one trace more here, other trace more there⟩

theorem Stable.later {holds : List E → Prop} (stable : Stable holds) {trace later : List E} (extends_ : trace <+: later)
    (here : holds trace) : holds later := by
  obtain ⟨more, rfl⟩ := extends_
  exact stable trace more here

def Runs (permits : List E → E → Prop) (before : List E → Prop) (program : Traced E α) (after : α → List E → Prop) : Prop :=
  ∀ trace, Permitted permits trace → before trace →
    Permitted permits (program trace).2 ∧ trace <+: (program trace).2 ∧ after (program trace).1 (program trace).2

variable {before before' : List E → Prop} {program : Traced E α} {after after' : α → List E → Prop}

namespace Runs

theorem weaken (runs : Runs permits before program after) (stronger : ∀ trace, before' trace → before trace)
    (weaker : ∀ value trace, after value trace → after' value trace) : Runs permits before' program after' := by
  intro trace permitted holds
  obtain ⟨still, extends_, left⟩ := runs trace permitted (stronger trace holds)
  exact ⟨still, extends_, weaker _ _ left⟩

theorem pure {value : α} (left : ∀ trace, before trace → after value trace) :
    Runs permits before (Pure.pure value : Traced E α) after :=
  fun trace permitted holds => ⟨permitted, List.prefix_refl _, left trace holds⟩

theorem bind {next : α → Traced E β} {last : β → List E → Prop} (runs : Runs permits before program after)
    (then_ : ∀ value, Runs permits (after value) (next value) last) : Runs permits before (program >>= next) last := by
  intro trace permitted holds
  obtain ⟨still, extends_, left⟩ := runs trace permitted holds
  obtain ⟨finally_, further, result⟩ := then_ _ _ still left
  exact ⟨finally_, extends_.trans further, result⟩

theorem emit {event : E} {left : List E → Prop} {next : Traced E β} {last : β → List E → Prop}
    (permits_ : ∀ trace, before trace → permits trace event) (leaves : ∀ trace, before trace → left (trace ++ [event]))
    (then_ : Runs permits left next last) : Runs permits before (Traced.emit event >>= fun _ => next) last :=
  fun trace permitted holds =>
    let ⟨still, extends_, result⟩ := then_ _ (permitted_append permitted (permits_ trace holds)) (leaves trace holds)
    ⟨still, (List.prefix_append _ _).trans extends_, result⟩

theorem consult {answer : List E → α} {next : α → Traced E β} {last : β → List E → Prop}
    (then_ : ∀ value, Runs permits before (next value) last) : Runs permits before (Traced.consult answer >>= next) last :=
  fun trace permitted holds => then_ _ trace permitted holds

theorem frame {holds : List E → Prop} (stable : Stable holds) (runs : Runs permits before program after) :
    Runs permits (fun trace => before trace ∧ holds trace) program fun value trace => after value trace ∧ holds trace := by
  intro trace permitted here
  obtain ⟨still, extends_, left⟩ := runs trace permitted here.1
  exact ⟨still, extends_, left, stable.later extends_ here.2⟩

theorem consulted {answer : List E → α} (left : ∀ value trace, before trace → after value trace) :
    Runs permits before (Traced.consult answer) after :=
  fun trace permitted holds => ⟨permitted, List.prefix_refl _, left _ trace holds⟩

theorem keep {holds : List E → Prop} (stable : Stable holds) (runs : Runs permits (fun _ => True) program fun _ _ => True) :
    Runs permits holds program fun _ => holds :=
  (runs.frame stable).weaken (fun _ here => ⟨trivial, here⟩) fun _ _ left => left.2

end Runs

inductive Asks (Q A α : Type) where
  | done (value : α)
  | ask (question : Q) (next : A → Asks Q A α)

def Asks.run {Q A : Type} (answer : Q → Traced E A) : Asks Q A α → Traced E α
  | .done value => Pure.pure value
  | .ask question next => answer question >>= fun answered => (next answered).run answer

theorem Asks.runs {Q A : Type} {answer : Q → Traced E A} {holds : List E → Prop}
    (answers : ∀ question, Runs permits holds (answer question) fun _ => holds) (asks : Asks Q A α) :
    Runs permits holds (asks.run answer) fun _ => holds := by
  induction asks with
  | done value => exact Runs.pure fun _ here => here
  | ask question next later => exact (answers question).bind later

end Traced

end CommonMeasure.Foundation
