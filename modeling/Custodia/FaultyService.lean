import Custodia.Interaction

/-! # FaultyService — services whose operations may fail

    A faulty service carries, beside its state, the faults that its next
    operations will meet. An operation that meets a fault is answered by it and
    has no effect; every other one is carried out. A property of every list of
    faults is a property of every way in which operations can fail.

    * `execFaulty_cases`: an operation failed without effect, or was carried out;
    * `execFaulty_invariant`, `execFaulty_alike`: what holds of the service holds
      of the faulty one. -/

namespace FaultyService

open Interaction

/-- A service and the faults to come: an entry for each turn, which fails it or
    lets it be served; where the list ends there are none. -/
structure Faulty (φ σ : Type) where
  state : σ
  faults : List (Option φ)

namespace Faulty

variable {φ σ : Type}

/-- The fault that the next operation meets. -/
def next (w : Faulty φ σ) : Option φ := w.faults.head?.join

@[simp] theorem next_nil (s : σ) : (⟨s, []⟩ : Faulty φ σ).next = none := rfl

@[simp] theorem next_cons (s : σ) (f : Option φ) (rest : List (Option φ)) :
    (⟨s, f :: rest⟩ : Faulty φ σ).next = f := rfl

end Faulty

variable {ε φ Op σ : Type} {Ans : Op → Type}

/-- One operation of a faulty service. -/
def execFaulty (exec : (o : Op) → σ → Except ε (Ans o) × σ) (fail : φ → ε) (o : Op)
    (w : Faulty φ σ) : Except ε (Ans o) × Faulty φ σ :=
  match w.next with
  | some f => (.error (fail f), ⟨w.state, w.faults.tail⟩)
  | none => ((exec o w.state).1, ⟨(exec o w.state).2, w.faults.tail⟩)

variable {exec : (o : Op) → σ → Except ε (Ans o) × σ} {fail : φ → ε} {o : Op}
  {w : Faulty φ σ}

/-- **A turn that is to fail does so and leaves the state alone.** -/
theorem execFaulty_fails {f : φ} (h : w.next = some f) :
    execFaulty exec fail o w = (.error (fail f), ⟨w.state, w.faults.tail⟩) := by
  simp only [execFaulty, h]

/-- **A turn that is not to fail is served** as it would be without faults. -/
theorem execFaulty_serves (h : w.next = none) :
    execFaulty exec fail o w = ((exec o w.state).1, ⟨(exec o w.state).2, w.faults.tail⟩) := by
  simp only [execFaulty, h]

/-- **An operation failed without effect, or was carried out**, and in either
    case one entry of the faults has been used up. -/
theorem execFaulty_cases (exec : (o : Op) → σ → Except ε (Ans o) × σ) (fail : φ → ε) (o : Op)
    (w : Faulty φ σ) :
    (∃ f, w.next = some f ∧ (execFaulty exec fail o w).1 = .error (fail f)
      ∧ (execFaulty exec fail o w).2 = ⟨w.state, w.faults.tail⟩)
    ∨ (w.next = none ∧ (execFaulty exec fail o w).1 = (exec o w.state).1
      ∧ (execFaulty exec fail o w).2 = ⟨(exec o w.state).2, w.faults.tail⟩) := by
  cases h : w.next with
  | none => exact Or.inr ⟨rfl, by rw [execFaulty_serves h], by rw [execFaulty_serves h]⟩
  | some f => exact Or.inl ⟨f, rfl, by rw [execFaulty_fails h], by rw [execFaulty_fails h]⟩

/-- A faulty service keeps what the service keeps. -/
theorem execFaulty_invariant {I : σ → Prop} (hstep : I w.state → I (exec o w.state).2)
    (h : I w.state) : I (execFaulty exec fail o w).2.state := by
  rcases execFaulty_cases exec fail o w with ⟨f, -, -, hs⟩ | ⟨-, -, hs⟩
  · rw [hs]
    exact h
  · rw [hs]
    exact hstep h

/-- The states of two faulty services are related, and they meet the same
    faults. -/
def Alike (R : σ → σ → Prop) (w w' : Faulty φ σ) : Prop :=
  R w.state w'.state ∧ w.faults = w'.faults

/-- States that answer alike do so under the same faults. -/
theorem execFaulty_alike {R : σ → σ → Prop}
    (hstep : ∀ s s', R s s' → (exec o s).1 = (exec o s').1 ∧ R (exec o s).2 (exec o s').2)
    {w' : Faulty φ σ} (h : Alike R w w') :
    (execFaulty exec fail o w).1 = (execFaulty exec fail o w').1
      ∧ Alike R (execFaulty exec fail o w).2 (execFaulty exec fail o w').2 := by
  obtain ⟨hstate, hfaults⟩ := h
  have hnext : w'.next = w.next := by rw [Faulty.next, Faulty.next, hfaults]
  cases hn : w.next with
  | some f =>
      rw [execFaulty_fails hn, execFaulty_fails (hnext.trans hn)]
      exact ⟨rfl, hstate, congrArg List.tail hfaults⟩
  | none =>
      obtain ⟨hsame, hkeep⟩ := hstep w.state w'.state hstate
      rw [execFaulty_serves hn, execFaulty_serves (hnext.trans hn)]
      exact ⟨hsame, hkeep, congrArg List.tail hfaults⟩

end FaultyService
