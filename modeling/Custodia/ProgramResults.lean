import Custodia.Interaction

/-! # ProgramResults — what a program can end with

    A postcondition for programs that call a service: one predicate for the
    value, one for the exception, under whatever the service replies as long as
    its own exceptions are of a kind.

    * `Yields`: the postcondition, with one rule for each way programs are put
      together;
    * `run_yields`: what it says of a run. -/

namespace Interaction.Prog

variable {ε Op : Type} {Ans : Op → Type} {α β σ : Type}

/-- The program returns only what satisfies `P` and raises only what satisfies
    `E`, if all the exceptions of its calls satisfy `Q`. -/
def Yields (Q : ε → Prop) (P : α → Prop) (E : ε → Prop) : Prog ε Op Ans α → Prop
  | ret a => P a
  | raise e => E e
  | call _ k => ∀ r, (∀ e, r = .error e → Q e) → (k r).Yields Q P E

variable {Q E F : ε → Prop} {P : α → Prop} {R : β → Prop}

/-- A result that is already known yields what it is. -/
theorem yields_ofExcept {r : Except ε α} (hok : ∀ a, r = .ok a → P a)
    (herror : ∀ e, r = .error e → E e) : (ofExcept r : Prog ε Op Ans α).Yields Q P E := by
  cases r with
  | ok a => exact hok a rfl
  | error e => exact herror e rfl

/-- An operation alone can answer anything. -/
theorem yields_perform (o : Op) (hQ : ∀ e, Q e → E e) :
    (perform o : Prog ε Op Ans (Ans o)).Yields Q (fun _ => True) E :=
  fun _ hr => yields_ofExcept (fun _ _ => trivial) (fun e he => hQ e (hr e he))

/-- **A sequence yields what its second part yields** of whatever the first one
    can return. -/
theorem yields_bind {p : Prog ε Op Ans α} {f : α → Prog ε Op Ans β} (hp : p.Yields Q P E)
    (hf : ∀ a, P a → (f a).Yields Q R E) : (p.bind f).Yields Q R E := by
  induction p with
  | ret a => exact hf a hp
  | raise e => exact hp
  | call o k ih => exact fun r hr => ih r (hp r hr)

/-- What is attempted is looked at whole. -/
theorem yields_attempt_bind {p : Prog ε Op Ans α} {f : Except ε α → Prog ε Op Ans β}
    (hp : p.Yields Q P F) (hok : ∀ a, P a → (f (.ok a)).Yields Q R E)
    (herror : ∀ e, F e → (f (.error e)).Yields Q R E) : (p.attempt.bind f).Yields Q R E := by
  induction p with
  | ret a => exact hok a hp
  | raise e => exact herror e hp
  | call o k ih => exact fun r hr => ih r (hp r hr)

/-- With a handler, a program yields what the handler makes of its exceptions. -/
theorem yields_catching {p : Prog ε Op Ans α} {h : ε → Prog ε Op Ans α} (hp : p.Yields Q P F)
    (hh : ∀ e, F e → (h e).Yields Q P E) : (p.catching h).Yields Q P E :=
  yields_attempt_bind hp (fun _ ha => ha) hh

/-- **A run ends as the program says**, over a service whose exceptions are of
    the kind. -/
theorem run_yields {exec : (o : Op) → σ → Except ε (Ans o) × σ}
    (hexec : ∀ o s e, (exec o s).1 = .error e → Q e) {p : Prog ε Op Ans α}
    (hp : p.Yields Q P E) (s : σ) :
    (∀ a, (p.run exec s).1 = .ok a → P a) ∧ ∀ e, (p.run exec s).1 = .error e → E e := by
  induction p generalizing s with
  | ret a =>
      refine ⟨fun a' h => ?_, fun e h => nomatch h⟩
      rw [← Except.ok.inj h]
      exact hp
  | raise e =>
      refine ⟨(fun a h => nomatch h), fun e' h => ?_⟩
      rw [← Except.error.inj h]
      exact hp
  | call o k ih => exact ih (exec o s).1 (hp _ (fun e he => hexec o s e he)) (exec o s).2

end Interaction.Prog
