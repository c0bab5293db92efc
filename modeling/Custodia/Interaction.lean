import Mathlib.Logic.Function.Basic

/-! # Interaction — programs that call a shared service

    A request handler is a program that computes locally and, now and then,
    makes ONE atomic call on a shared service. `Prog` is that shape: it
    returns, raises, or issues an operation and waits for the reply. The
    same program is read in three ways:

    * `run` executes it alone on a service state;
    * `OnlyIssues`, `AtMost`, `Raises` and `Ends` bound what it can issue, how
      often, what it can raise, and how it can end, whatever is replied;
    * the interleaved reading (the next file) schedules many at once.

    Nothing here knows which service is called. -/

namespace Interaction

/-- A program over the operations `Op`: every reply of an operation `o` is an
    answer of type `Ans o` or an exception of type `ε`. -/
inductive Prog (ε Op : Type) (Ans : Op → Type) (α : Type) : Type where
  | ret (a : α)
  | raise (e : ε)
  | call (o : Op) (k : Except ε (Ans o) → Prog ε Op Ans α)

namespace Prog

variable {ε Op : Type} {Ans : Op → Type} {α β σ : Type}

/-- Sequencing: an exception skips the rest. -/
def bind : Prog ε Op Ans α → (α → Prog ε Op Ans β) → Prog ε Op Ans β
  | ret a, f => f a
  | raise e, _ => raise e
  | call o k, f => call o (fun r => (k r).bind f)

instance : Monad (Prog ε Op Ans) where
  pure := ret
  bind := bind

/-- Turn an exception into a value. -/
def attempt : Prog ε Op Ans α → Prog ε Op Ans (Except ε α)
  | ret a => ret (.ok a)
  | raise e => ret (.error e)
  | call o k => call o (fun r => (k r).attempt)

/-- A computed value or exception, as a program that issues nothing. -/
def ofExcept : Except ε α → Prog ε Op Ans α
  | .ok a => ret a
  | .error e => raise e

/-- `try p except e: h e`. -/
def catching (p : Prog ε Op Ans α) (h : ε → Prog ε Op Ans α) : Prog ε Op Ans α :=
  p.attempt.bind (fun r => match r with
    | .ok a => ret a
    | .error e => h e)

/-- Issue one operation and pass its answer or exception on. -/
def perform (o : Op) : Prog ε Op Ans (Ans o) := call o ofExcept

@[simp] theorem pure_eq (a : α) : (pure a : Prog ε Op Ans α) = ret a := rfl
@[simp] theorem bind_eq (p : Prog ε Op Ans α) (f : α → Prog ε Op Ans β) :
    p >>= f = p.bind f := rfl
@[simp] theorem ret_bind (a : α) (f : α → Prog ε Op Ans β) : (ret a).bind f = f a := rfl
@[simp] theorem raise_bind (e : ε) (f : α → Prog ε Op Ans β) :
    (raise e : Prog ε Op Ans α).bind f = raise e := rfl
@[simp] theorem call_bind (o : Op) (k : Except ε (Ans o) → Prog ε Op Ans α)
    (f : α → Prog ε Op Ans β) :
    (call o k).bind f = call o (fun r => (k r).bind f) := rfl
@[simp] theorem attempt_ret (a : α) :
    (ret a : Prog ε Op Ans α).attempt = ret (.ok a) := rfl
@[simp] theorem attempt_raise (e : ε) :
    (raise e : Prog ε Op Ans α).attempt = ret (.error e) := rfl
@[simp] theorem attempt_call (o : Op) (k : Except ε (Ans o) → Prog ε Op Ans α) :
    (call o k).attempt = call o (fun r => (k r).attempt) := rfl
@[simp] theorem ofExcept_ok (a : α) : (ofExcept (.ok a) : Prog ε Op Ans α) = ret a := rfl
@[simp] theorem ofExcept_error (e : ε) :
    (ofExcept (.error e) : Prog ε Op Ans α) = raise e := rfl
@[simp] theorem catching_ret (a : α) (h : ε → Prog ε Op Ans α) :
    (ret a).catching h = ret a := rfl
@[simp] theorem catching_raise (e : ε) (h : ε → Prog ε Op Ans α) :
    (raise e).catching h = h e := rfl
@[simp] theorem catching_call (o : Op) (k : Except ε (Ans o) → Prog ε Op Ans α)
    (h : ε → Prog ε Op Ans α) :
    (call o k).catching h = call o (fun r => (k r).catching h) := rfl

/-! ## Sequencing laws -/

/-- **Sequencing is associative**: the continuations run one after the other,
    however they are grouped. By induction on the program that runs first. -/
theorem bind_assoc {γ : Type} (p : Prog ε Op Ans α) (f : α → Prog ε Op Ans β)
    (g : β → Prog ε Op Ans γ) : (p.bind f).bind g = p.bind (fun a => (f a).bind g) := by
  induction p with
  | ret a => rfl
  | raise e => rfl
  | call o k ih => exact congrArg (call o) (funext ih)

/-- Attempting a sequence is attempting its first part, then the rest. -/
theorem bind_attempt_bind {γ : Type} (p : Prog ε Op Ans α) (g : α → Prog ε Op Ans β)
    (f : Except ε β → Prog ε Op Ans γ) :
    (p.bind g).attempt.bind f = p.attempt.bind (fun r => match r with
      | .ok a => (g a).attempt.bind f
      | .error e => f (.error e)) := by
  induction p with
  | ret a => rfl
  | raise e => rfl
  | call o k ih => exact congrArg (call o) (funext ih)

/-! ## Running alone -/

/-- Execute a program alone: `exec` answers one operation and moves the
    service state. -/
def run (exec : (o : Op) → σ → Except ε (Ans o) × σ) :
    Prog ε Op Ans α → σ → Except ε α × σ
  | ret a, s => (.ok a, s)
  | raise e, s => (.error e, s)
  | call o k, s => (k (exec o s).1).run exec (exec o s).2

variable (exec : (o : Op) → σ → Except ε (Ans o) × σ)

@[simp] theorem run_ret (a : α) (s : σ) :
    (ret a : Prog ε Op Ans α).run exec s = (.ok a, s) := rfl
@[simp] theorem run_raise (e : ε) (s : σ) :
    (raise e : Prog ε Op Ans α).run exec s = (.error e, s) := rfl
@[simp] theorem run_call (o : Op) (k : Except ε (Ans o) → Prog ε Op Ans α) (s : σ) :
    (call o k).run exec s = (k (exec o s).1).run exec (exec o s).2 := rfl

/-- Running a sequence: the second program starts where the first ended. -/
theorem run_bind (p : Prog ε Op Ans α) (f : α → Prog ε Op Ans β) (s : σ) :
    (p.bind f).run exec s =
      match p.run exec s with
      | (.ok a, s') => (f a).run exec s'
      | (.error e, s') => (.error e, s') := by
  induction p generalizing s with
  | ret a => rfl
  | raise e => rfl
  | call o k ih => exact ih (exec o s).1 (exec o s).2

/-- Attempting a program never fails and leaves the same state. -/
theorem run_attempt (p : Prog ε Op Ans α) (s : σ) :
    p.attempt.run exec s = (.ok (p.run exec s).1, (p.run exec s).2) := by
  induction p generalizing s with
  | ret a => rfl
  | raise e => rfl
  | call o k ih => exact ih (exec o s).1 (exec o s).2

/-- A result that is already known is what its program runs to, and no state is
    touched. -/
theorem run_ofExcept (r : Except ε α) (s : σ) :
    (ofExcept r : Prog ε Op Ans α).run exec s = (r, s) := by
  cases r <;> rfl

/-- To perform one operation is to run it on the state. -/
@[simp] theorem run_perform (o : Op) (s : σ) :
    (perform o : Prog ε Op Ans (Ans o)).run exec s = exec o s :=
  run_ofExcept exec (exec o s).1 (exec o s).2

/-- The operations that a program issues when it is executed alone. -/
def trace (exec : (o : Op) → σ → Except ε (Ans o) × σ) : Prog ε Op Ans α → σ → List Op
  | ret _, _ => []
  | raise _, _ => []
  | call o k, s => o :: (k (exec o s).1).trace exec (exec o s).2

@[simp] theorem trace_ret (a : α) (s : σ) : (ret a : Prog ε Op Ans α).trace exec s = [] := rfl
@[simp] theorem trace_raise (e : ε) (s : σ) :
    (raise e : Prog ε Op Ans α).trace exec s = [] := rfl
@[simp] theorem trace_call (o : Op) (k : Except ε (Ans o) → Prog ε Op Ans α) (s : σ) :
    (call o k).trace exec s = o :: (k (exec o s).1).trace exec (exec o s).2 := rfl

/-! ## Which operations can be issued -/

/-- Every operation the program can issue, under any replies, satisfies `P`. -/
def OnlyIssues (P : Op → Prop) : Prog ε Op Ans α → Prop
  | ret _ => True
  | raise _ => True
  | call o k => P o ∧ ∀ r, (k r).OnlyIssues P

variable {P : Op → Prop}

/-- A sequence issues what its parts issue, whatever the first one returns. -/
theorem onlyIssues_bind {p : Prog ε Op Ans α} {f : α → Prog ε Op Ans β}
    (hp : p.OnlyIssues P) (hf : ∀ a, (f a).OnlyIssues P) :
    (p.bind f).OnlyIssues P := by
  induction p with
  | ret a => exact hf a
  | raise e => trivial
  | call o k ih => exact ⟨hp.1, fun r => ih r (hp.2 r)⟩

/-- Looking at the result of a program issues nothing more. -/
theorem onlyIssues_attempt {p : Prog ε Op Ans α} (hp : p.OnlyIssues P) :
    p.attempt.OnlyIssues P := by
  induction p with
  | ret a => trivial
  | raise e => trivial
  | call o k ih => exact ⟨hp.1, fun r => ih r (hp.2 r)⟩

/-- A program with a handler issues what it issues itself and what the handler
    does. -/
theorem onlyIssues_catching {p : Prog ε Op Ans α} {h : ε → Prog ε Op Ans α}
    (hp : p.OnlyIssues P) (hh : ∀ e, (h e).OnlyIssues P) :
    (p.catching h).OnlyIssues P :=
  onlyIssues_bind (onlyIssues_attempt hp) (fun r => by cases r <;> simp [hh, OnlyIssues])

/-- A result that is already known takes no operation. -/
theorem onlyIssues_ofExcept (r : Except ε α) :
    (ofExcept r : Prog ε Op Ans α).OnlyIssues P := by
  cases r <;> trivial

/-- To perform one operation issues just that one. -/
theorem onlyIssues_perform {o : Op} (ho : P o) :
    (perform o : Prog ε Op Ans (Ans o)).OnlyIssues P :=
  ⟨ho, fun r => onlyIssues_ofExcept r⟩

/-- What every operation it issues preserves, a program preserves. -/
theorem run_invariant {I : σ → Prop} (hstep : ∀ o, P o → ∀ s, I s → I (exec o s).2)
    {p : Prog ε Op Ans α} (hp : p.OnlyIssues P) {s : σ} (hs : I s) : I (p.run exec s).2 := by
  induction p generalizing s with
  | ret a => exact hs
  | raise e => exact hs
  | call o k ih => exact ih (exec o s).1 (hp.2 _) (hstep o hp.1 s hs)

/-- **Running alike**: from states that answer every operation it issues alike,
    a program ends alike. -/
theorem run_alike {R : σ → σ → Prop}
    (hstep : ∀ o, P o → ∀ s s', R s s' →
      (exec o s).1 = (exec o s').1 ∧ R (exec o s).2 (exec o s').2)
    {p : Prog ε Op Ans α} (hp : p.OnlyIssues P) {s s' : σ} (h : R s s') :
    (p.run exec s).1 = (p.run exec s').1 ∧ R (p.run exec s).2 (p.run exec s').2 := by
  induction p generalizing s s' with
  | ret a => exact ⟨rfl, h⟩
  | raise e => exact ⟨rfl, h⟩
  | call o k ih =>
      obtain ⟨hsame, hnext⟩ := hstep o hp.1 s s' h
      rw [run_call, run_call, hsame]
      exact ih (exec o s').1 (hp.2 _) hnext

/-- Under some replies, the program issues an operation that satisfies `P`. -/
def CanIssue (P : Op → Prop) : Prog ε Op Ans α → Prop
  | ret _ => False
  | raise _ => False
  | call o k => P o ∨ ∃ r, (k r).CanIssue P

/-- What only issues `P` can issue nothing else. -/
theorem of_canIssue {Q : Op → Prop} {p : Prog ε Op Ans α} (hp : p.OnlyIssues P)
    (hq : p.CanIssue Q) : ∃ o, P o ∧ Q o := by
  induction p with
  | ret a => exact absurd hq (fun h => h)
  | raise e => exact absurd hq (fun h => h)
  | call o k ih =>
      rcases hq with h | ⟨r, hr⟩
      · exact ⟨o, hp.1, h⟩
      · exact ih r (hp.2 r) hr

/-! ## Which exceptions can be raised -/

/-- Every exception the program raises satisfies `Q`, if all the exceptions of
    its calls do. -/
def Raises (Q : ε → Prop) : Prog ε Op Ans α → Prop
  | ret _ => True
  | raise e => Q e
  | call _ k => ∀ r, (∀ e, r = .error e → Q e) → (k r).Raises Q

variable {Q : ε → Prop}

/-- What is already known to have failed is raised as it is. -/
theorem raises_ofExcept {r : Except ε α} (h : ∀ e, r = .error e → Q e) :
    (ofExcept r : Prog ε Op Ans α).Raises Q := by
  cases r with
  | ok a => trivial
  | error e => exact h e rfl

/-- A single operation raises only what the state machine raises, and so never
    breaks a promise about the program itself. -/
theorem raises_perform (o : Op) : (perform o : Prog ε Op Ans (Ans o)).Raises Q :=
  fun _ h => raises_ofExcept h

/-- A sequence raises what its parts raise. -/
theorem raises_bind {p : Prog ε Op Ans α} {f : α → Prog ε Op Ans β} (hp : p.Raises Q)
    (hf : ∀ a, (f a).Raises Q) : (p.bind f).Raises Q := by
  induction p with
  | ret a => exact hf a
  | raise e => exact hp
  | call o k ih => exact fun r hr => ih r (hp r hr)

/-- Where the exceptions of a program are caught, only those of the handler
    are raised. -/
theorem raises_attempt_bind {p : Prog ε Op Ans α} {f : Except ε α → Prog ε Op Ans β}
    (hp : p.Raises Q) (hok : ∀ a, (f (.ok a)).Raises Q)
    (herror : ∀ e, Q e → (f (.error e)).Raises Q) : (p.attempt.bind f).Raises Q := by
  induction p with
  | ret a => exact hok a
  | raise e => exact herror e hp
  | call o k ih => exact fun r hr => ih r (hp r hr)

/-- With a handler, a program raises what the handler makes of its exceptions;
    the handler sees only those that were promised. -/
theorem raises_catching {p : Prog ε Op Ans α} {h : ε → Prog ε Op Ans α} (hp : p.Raises Q)
    (hh : ∀ e, Q e → (h e).Raises Q) : (p.catching h).Raises Q :=
  raises_attempt_bind hp (fun _ => trivial) hh

/-- A service whose exceptions satisfy `Q` lets nothing else through. -/
theorem run_raises (hexec : ∀ o s e, (exec o s).1 = .error e → Q e) {p : Prog ε Op Ans α}
    (hp : p.Raises Q) {s : σ} {e : ε} (h : (p.run exec s).1 = .error e) : Q e := by
  induction p generalizing s with
  | ret a => cases h
  | raise e' => exact Except.error.inj h ▸ hp
  | call o k ih => exact ih (exec o s).1 (hp _ (fun e he => hexec o s e he)) h

/-! ## How a program can end

    `Ends Q` constrains every finishing call: when the reply `r` of the
    operation `o` leads straight to the end `x` of the program, then
    `Q o r x`. -/

/-- How a program has ended, if it has. -/
def ended : Prog ε Op Ans α → Option (Except ε α)
  | ret a => some (.ok a)
  | raise e => some (.error e)
  | call _ _ => none

@[simp] theorem ended_ret (a : α) : (ret a : Prog ε Op Ans α).ended = some (.ok a) := rfl
@[simp] theorem ended_raise (e : ε) :
    (raise e : Prog ε Op Ans α).ended = some (.error e) := rfl
@[simp] theorem ended_call (o : Op) (k : Except ε (Ans o) → Prog ε Op Ans α) :
    (call o k).ended = none := rfl

/-- A result that is already known is one that has ended. -/
@[simp] theorem ended_ofExcept (r : Except ε α) :
    (ofExcept r : Prog ε Op Ans α).ended = some r := by
  cases r <;> rfl

/-- The operation a program issues next, unless it has ended. -/
def nextOp : Prog ε Op Ans α → Option Op
  | ret _ => none
  | raise _ => none
  | call o _ => some o

@[simp] theorem nextOp_ret (a : α) : (ret a : Prog ε Op Ans α).nextOp = none := rfl
@[simp] theorem nextOp_raise (e : ε) : (raise e : Prog ε Op Ans α).nextOp = none := rfl
@[simp] theorem nextOp_call (o : Op) (k : Except ε (Ans o) → Prog ε Op Ans α) :
    (call o k).nextOp = some o := rfl

/-- Every call that finishes the program does so as `Q` says. -/
def Ends (Q : (o : Op) → Except ε (Ans o) → Except ε α → Prop) : Prog ε Op Ans α → Prop
  | ret _ => True
  | raise _ => True
  | call o k => ∀ r, (∀ x, (k r).ended = some x → Q o r x) ∧ (k r).Ends Q

/-- A program that has ended without a call ends as promised, since the promise
    is about what follows a call. -/
theorem ends_of_ended {Q : (o : Op) → Except ε (Ans o) → Except ε α → Prop}
    {p : Prog ε Op Ans α} {x : Except ε α} (h : p.ended = some x) : p.Ends Q := by
  cases p with
  | ret a => trivial
  | raise e => trivial
  | call o k => exact nomatch h

/-- A promise that holds of everything is kept by every program. -/
theorem ends_of_forall {Q : (o : Op) → Except ε (Ans o) → Except ε α → Prop}
    (h : ∀ o r x, Q o r x) (p : Prog ε Op Ans α) : p.Ends Q := by
  induction p with
  | ret a => trivial
  | raise e => trivial
  | call o k ih => exact fun r => ⟨fun x _ => h o r x, ih r⟩

/-- The program makes at most `n` calls, whatever is replied. -/
def AtMost : Nat → Prog ε Op Ans α → Prop
  | _, ret _ => True
  | _, raise _ => True
  | 0, call _ _ => False
  | n + 1, call _ k => ∀ r, AtMost n (k r)

/-- A result that is already known takes no call, whatever number is allowed. -/
theorem atMost_ofExcept (n : Nat) (r : Except ε α) :
    AtMost n (ofExcept r : Prog ε Op Ans α) := by
  cases n <;> cases r <;> trivial

/-- What is done in so many calls is done in one more. -/
theorem atMost_succ {n : Nat} {p : Prog ε Op Ans α} (h : AtMost n p) : AtMost (n + 1) p := by
  induction p generalizing n with
  | ret a => trivial
  | raise e => trivial
  | call o k ih =>
      cases n with
      | zero => exact absurd h (fun h => h)
      | succ n => exact fun r => ih r (h r)

/-! ## Concluding: the end of a program as a value -/

/-- Turn the end of a program, returned or raised, into its value. -/
def conclude (p : Prog ε Op Ans α) (g : Except ε α → β) : Prog ε Op Ans β :=
  match p with
  | ret a => ret (g (.ok a))
  | raise e => ret (g (.error e))
  | call o k => call o (fun r => (k r).conclude g)

@[simp] theorem conclude_ret (a : α) (g : Except ε α → β) :
    (ret a : Prog ε Op Ans α).conclude g = ret (g (.ok a)) := rfl
@[simp] theorem conclude_raise (e : ε) (g : Except ε α → β) :
    (raise e : Prog ε Op Ans α).conclude g = ret (g (.error e)) := rfl
@[simp] theorem conclude_call (o : Op) (k : Except ε (Ans o) → Prog ε Op Ans α)
    (g : Except ε α → β) :
    (call o k).conclude g = call o (fun r => (k r).conclude g) := rfl

/-- Concluding a result that is already known is to apply the conclusion to it. -/
theorem conclude_ofExcept (x : Except ε α) (g : Except ε α → β) :
    (ofExcept x : Prog ε Op Ans α).conclude g = ret (g x) := by
  cases x <;> rfl

/-- Looking at the result and returning a function of it is to conclude with
    that function. -/
theorem attempt_bind_ret (p : Prog ε Op Ans α) (g : Except ε α → β) :
    p.attempt.bind (fun r => ret (g r)) = p.conclude g := by
  induction p with
  | ret a => rfl
  | raise e => rfl
  | call o k ih => exact congrArg (call o) (funext ih)

/-- Two conclusions in a row are one. -/
theorem conclude_bind_ret {γ : Type} (p : Prog ε Op Ans α) (g : Except ε α → β) (h : β → γ) :
    (p.conclude g).bind (fun b => ret (h b)) = p.conclude (fun r => h (g r)) := by
  induction p with
  | ret a => rfl
  | raise e => rfl
  | call o k ih => exact congrArg (call o) (funext ih)

/-- What a program is attempted for is only its end. -/
theorem conclude_attempt_bind {γ : Type} (p : Prog ε Op Ans α) (f : Except ε α → Except ε β)
    (g : Except ε β → γ) :
    (p.attempt.bind (fun r => ofExcept (f r))).conclude g = p.conclude (fun r => g (f r)) := by
  induction p with
  | ret a => exact conclude_ofExcept _ g
  | raise e => exact conclude_ofExcept _ g
  | call o k ih => exact congrArg (call o) (funext ih)

/-- **A concluded program always returns**: the conclusion of what the program
    runs to, on the same state. -/
theorem run_conclude (p : Prog ε Op Ans α) (g : Except ε α → β) (s : σ) :
    (p.conclude g).run exec s = (.ok (g (p.run exec s).1), (p.run exec s).2) := by
  induction p generalizing s with
  | ret a => rfl
  | raise e => rfl
  | call o k ih => exact ih (exec o s).1 (exec o s).2

/-- A conclusion issues nothing of its own. -/
theorem onlyIssues_conclude {p : Prog ε Op Ans α} (g : Except ε α → β)
    (hp : p.OnlyIssues P) : (p.conclude g).OnlyIssues P := by
  induction p with
  | ret a => trivial
  | raise e => trivial
  | call o k ih => exact ⟨hp.1, fun r => ih r (hp.2 r)⟩

/-- A conclusion takes no call of its own. -/
theorem atMost_conclude {n : Nat} {p : Prog ε Op Ans α} (g : Except ε α → β)
    (hp : AtMost n p) : AtMost n (p.conclude g) := by
  induction p generalizing n with
  | ret a => cases n <;> trivial
  | raise e => cases n <;> trivial
  | call o k ih =>
      cases n with
      | zero => exact absurd hp (fun h => h)
      | succ n => exact fun r => ih r (hp r)

/-- Where a concluded program has ended, the program itself has, and the
    conclusion was applied to its result. -/
theorem ended_conclude {p : Prog ε Op Ans α} {g : Except ε α → β} {y : Except ε β}
    (h : (p.conclude g).ended = some y) : ∃ x, p.ended = some x ∧ y = .ok (g x) := by
  cases p with
  | ret a => exact ⟨.ok a, rfl, (Option.some.inj h).symm⟩
  | raise e => exact ⟨.error e, rfl, (Option.some.inj h).symm⟩
  | call o k => exact nomatch h

/-- A concluded program ends as the program does. -/
theorem ends_conclude {Q : (o : Op) → Except ε (Ans o) → Except ε β → Prop}
    {p : Prog ε Op Ans α} (g : Except ε α → β)
    (hp : p.Ends (fun o r x => Q o r (.ok (g x)))) : (p.conclude g).Ends Q := by
  induction p with
  | ret a => trivial
  | raise e => trivial
  | call o k ih =>
      intro r
      refine ⟨?_, ih r (hp r).2⟩
      intro y hy
      obtain ⟨x, hx, rfl⟩ := ended_conclude hy
      exact (hp r).1 x hx

/-! ## Implementing the operations over other ones -/

variable {Op' : Type} {Ans' : Op' → Type}

/-- The program with every operation replaced by its implementation. -/
def through (impl : (o : Op) → Prog ε Op' Ans' (Ans o)) :
    Prog ε Op Ans α → Prog ε Op' Ans' α
  | ret a => ret a
  | raise e => raise e
  | call o k => (impl o).attempt.bind (fun r => (k r).through impl)

variable (impl : (o : Op) → Prog ε Op' Ans' (Ans o))

@[simp] theorem through_ret (a : α) :
    (ret a : Prog ε Op Ans α).through impl = ret a := rfl
@[simp] theorem through_raise (e : ε) :
    (raise e : Prog ε Op Ans α).through impl = raise e := rfl
@[simp] theorem through_call (o : Op) (k : Except ε (Ans o) → Prog ε Op Ans α) :
    (call o k).through impl = (impl o).attempt.bind (fun r => (k r).through impl) := rfl

/-- A known result is looked at without running anything. -/
theorem attempt_ofExcept_bind (r : Except ε α) (f : Except ε α → Prog ε Op Ans β) :
    (ofExcept r : Prog ε Op Ans α).attempt.bind f = f r := by
  cases r <;> rfl

/-- To look at a result and pass it on as it was is to do nothing. -/
theorem attempt_bind_ofExcept (p : Prog ε Op Ans α) : p.attempt.bind ofExcept = p := by
  induction p with
  | ret a => rfl
  | raise e => rfl
  | call o k ih => exact congrArg (call o) (funext ih)

/-- One operation is replaced by its implementation. -/
theorem perform_through (o : Op) :
    (perform o : Prog ε Op Ans (Ans o)).through impl = impl o := by
  have hrest : ∀ r : Except ε (Ans o),
      (ofExcept r : Prog ε Op Ans (Ans o)).through impl = ofExcept r := by
    intro r
    cases r <;> rfl
  show (impl o).attempt.bind (fun r => (ofExcept r).through impl) = impl o
  simp only [hrest]
  exact attempt_bind_ofExcept (impl o)

/-- A known result needs no implementation of the operations. -/
theorem ofExcept_through (r : Except ε α) :
    (ofExcept r : Prog ε Op Ans α).through impl = ofExcept r := by
  cases r <;> rfl

/-- An operation that is passed on stays a call. -/
theorem call_through {impl : (o : Op) → Prog ε Op Ans (Ans o)} {o : Op}
    (h : impl o = perform o) (k : Except ε (Ans o) → Prog ε Op Ans α) :
    (call o k).through impl = call o (fun r => (k r).through impl) := by
  show (impl o).attempt.bind _ = _
  rw [h]
  exact congrArg (call o) (funext fun r => attempt_ofExcept_bind r _)

/-- What is issued through implementations is issued by them. -/
theorem onlyIssues_through {P : Op → Prop} {P' : Op' → Prop} {p : Prog ε Op Ans α}
    (hp : p.OnlyIssues P) (himpl : ∀ o, P o → (impl o).OnlyIssues P') :
    (p.through impl).OnlyIssues P' := by
  induction p with
  | ret a => trivial
  | raise e => trivial
  | call o k ih =>
      exact onlyIssues_bind (onlyIssues_attempt (himpl o hp.1)) (fun r => ih r (hp.2 r))

/-- **Replacing the operations by programs keeps a bound on the exceptions**, if
    every replacement meets it. -/
theorem raises_through {Q : ε → Prop} {impl : (o : Op) → Prog ε Op' Ans' (Ans o)}
    {p : Prog ε Op Ans α} (hp : p.Raises Q) (himpl : ∀ o, (impl o).Raises Q) :
    (p.through impl).Raises Q := by
  induction p with
  | ret a => trivial
  | raise e => exact hp
  | call o k ih =>
      refine raises_attempt_bind (himpl o) (fun a => ih _ (hp _ ?_)) (fun e he => ih _ (hp _ ?_))
      · intro e h
        cases h
      · intro e' h
        rw [← Except.error.inj h]
        exact he

/-- One operation runs as its implementation, then the program goes on. -/
theorem run_call_through {o : Op} (k : Except ε (Ans o) → Prog ε Op Ans α)
    (exec : (o : Op') → σ → Except ε (Ans' o) × σ) (s : σ) :
    ((call o k).through impl).run exec s
      = ((k ((impl o).run exec s).1).through impl).run exec ((impl o).run exec s).2 := by
  rw [through_call, run_bind, run_attempt]

/-- Where every operation that is issued is passed on, nothing changes. -/
theorem through_of_onlyIssues {impl : (o : Op) → Prog ε Op Ans (Ans o)} {p : Prog ε Op Ans α}
    (h : p.OnlyIssues (fun o => impl o = perform o)) : p.through impl = p := by
  induction p with
  | ret a => rfl
  | raise e => rfl
  | call o k ih =>
      rw [call_through h.1]
      exact congrArg (call o) (funext fun r => ih r (h.2 r))

/-- Operations that are implemented by themselves are left as they are. -/
theorem through_perform (p : Prog ε Op Ans α) : p.through perform = p := by
  induction p with
  | ret a => rfl
  | raise e => rfl
  | call o k ih =>
      refine congrArg (call o) (funext fun r => ?_)
      rw [attempt_ofExcept_bind]
      exact ih r

/-- A conclusion can be drawn before or after the operations are replaced. -/
theorem through_conclude (p : Prog ε Op Ans α) (g : Except ε α → β) :
    (p.conclude g).through impl = (p.through impl).conclude g := by
  induction p with
  | ret a => rfl
  | raise e => rfl
  | call o k ih =>
      simp only [conclude_call, through_call, ih]
      generalize impl o = q
      induction q with
      | ret a => rfl
      | raise e => rfl
      | call o' k' ih' => exact congrArg (call o') (funext ih')

end Prog

end Interaction
