import Mathlib.Data.List.Basic
import Mathlib.Order.Defs.Unbundled

/-! # Stages — steps that may run out of fuel

    A stage works on a state and ends normally or with an exception; a stage
    that recurses may also run out of fuel and then has no result.

    * `Keeps`: an invariant, a relation between the states before and after,
      and a bound on the exceptions, for whatever a stage ends in;
    * `Refines`: more fuel gives no other result;
    * `Finishes`: below a bound on a measure of the state, a stage has a result;
    * `Leads`: a relation between the states before and after a normal end;
    * they all go through sequences and loops. -/

namespace Stages

variable {σ ε α : Type}

/-- A stage; `none` where the fuel has run out. -/
abbrev Stage (σ ε : Type) := σ → Option (Except ε Unit × σ)

/-- Nothing is left to do. -/
def done : Stage σ ε := fun s => some (.ok (), s)

/-- An exception ends the stage. -/
def raise (e : ε) : Stage σ ε := fun s => some (.error e, s)

/-- One stage after the other. -/
def andThen (a b : Stage σ ε) : Stage σ ε := fun s =>
  match a s with
  | none => none
  | some (.error e, s') => some (.error e, s')
  | some (.ok (), s') => b s'

/-- One stage for each element. -/
def each (f : α → Stage σ ε) : List α → Stage σ ε
  | [] => done
  | x :: xs => andThen (f x) (each f xs)

section Sequences

variable {a b : Stage σ ε} {s s' : σ} {r : Except ε Unit}

/-- Where the first stage ends with an exception, the second one never runs. -/
theorem andThen_error {e : ε} (h : a s = some (.error e, s')) :
    andThen a b s = some (.error e, s') := by
  rw [andThen, h]

/-- Where the first stage ends normally, the sequence is the second one from
    there on. -/
theorem andThen_ok (h : a s = some (.ok (), s')) : andThen a b s = b s' := by
  rw [andThen, h]

/-- A sequence ends in its first stage with an exception, or goes on. -/
theorem andThen_cases (h : andThen a b s = some (r, s')) :
    (∃ e, r = .error e ∧ a s = some (.error e, s'))
      ∨ ∃ s₁, a s = some (.ok (), s₁) ∧ b s₁ = some (r, s') := by
  cases ha : a s with
  | none =>
      rw [andThen, ha] at h
      cases h
  | some result =>
      obtain ⟨r₁, s₁⟩ := result
      cases r₁ with
      | error e =>
          rw [andThen_error ha] at h
          obtain ⟨rfl, rfl⟩ := Prod.mk.inj (Option.some.inj h)
          exact Or.inl ⟨e, rfl, rfl⟩
      | ok u =>
          rw [andThen_ok ha] at h
          exact Or.inr ⟨s₁, rfl, h⟩

end Sequences

/-! ## More fuel -/

/-- Where the first stage has a result, the second one has the same. -/
def Refines (a b : Stage σ ε) : Prop := ∀ s x, a s = some x → b s = some x

/-- Every stage has the results it has. -/
theorem refines_refl (a : Stage σ ε) : Refines a a := fun _ _ h => h

/-- A sequence has at least the results of its parts: what either does with
    little fuel it does with more. -/
theorem refines_andThen {a a' b b' : Stage σ ε} (ha : Refines a a') (hb : Refines b b') :
    Refines (andThen a b) (andThen a' b') := by
  rintro s ⟨r, s'⟩ h
  rcases andThen_cases h with ⟨e, rfl, hfirst⟩ | ⟨s₁, hfirst, hrest⟩
  · exact andThen_error (ha _ _ hfirst)
  · rw [andThen_ok (ha _ _ hfirst)]
    exact hb _ _ hrest

/-- A loop has at least the results that its steps have, element by element. -/
theorem refines_each {f g : α → Stage σ ε} {xs : List α} (hf : ∀ x ∈ xs, Refines (f x) (g x)) :
    Refines (each f xs) (each g xs) := by
  induction xs with
  | nil => exact refines_refl done
  | cons x xs ih =>
      exact refines_andThen (hf x List.mem_cons_self)
        (ih (fun y hy => hf y (List.mem_cons_of_mem x hy)))

/-! ## What a stage keeps -/

/-- Whatever the stage ends in: the invariant still holds, the state has moved
    along the relation, and the exception, if there is one, is one of these. -/
def Keeps (I : σ → Prop) (R : σ → σ → Prop) (E : ε → Prop) (a : Stage σ ε) : Prop :=
  ∀ s r s', I s → a s = some (r, s') → I s' ∧ R s s' ∧ ∀ e, r = .error e → E e

/-- Below the bound, the stage has a result. -/
def Finishes (I : σ → Prop) (measure : σ → Nat) (bound : Nat) (a : Stage σ ε) : Prop :=
  ∀ s, I s → measure s < bound → ∃ r s', a s = some (r, s')

section Rules

variable {I : σ → Prop} {R : σ → σ → Prop} [IsPreorder σ R] {E : ε → Prop} {measure : σ → Nat}
  {bound : Nat} {a b : Stage σ ε} {f : α → Stage σ ε} {xs : List α}

/-- Doing nothing keeps every invariant and goes nowhere. -/
theorem keeps_done : Keeps I R E (done : Stage σ ε) := by
  intro s r s' hs h
  obtain ⟨rfl, rfl⟩ := Prod.mk.inj (Option.some.inj h)
  exact ⟨hs, refl_of R s, fun e he => by cases he⟩

/-- An exception keeps every invariant, if it is one of those that are allowed. -/
theorem keeps_raise {e : ε} (he : E e) : Keeps I R E (raise e : Stage σ ε) := by
  intro s r s' hs h
  obtain ⟨rfl, rfl⟩ := Prod.mk.inj (Option.some.inj h)
  refine ⟨hs, refl_of R s, fun e' he' => ?_⟩
  rw [← Except.error.inj he']
  exact he

/-- **What both stages keep, their sequence keeps.** The relation of the states
    before and after is transitive, and so the two ways add up. -/
theorem keeps_andThen (ha : Keeps I R E a) (hb : Keeps I R E b) :
    Keeps I R E (andThen a b) := by
  intro s r s' hs h
  rcases andThen_cases h with ⟨e, rfl, hfirst⟩ | ⟨s₁, hfirst, hrest⟩
  · exact ha s _ s' hs hfirst
  · obtain ⟨hs₁, hmoved, -⟩ := ha s _ s₁ hs hfirst
    obtain ⟨hs', hrestMoved, hraised⟩ := hb s₁ r s' hs₁ hrest
    exact ⟨hs', trans_of R hmoved hrestMoved, hraised⟩

/-- What every step of a loop keeps, the loop keeps, by induction on the
    elements that are left. -/
theorem keeps_each (hf : ∀ x ∈ xs, Keeps I R E (f x)) : Keeps I R E (each f xs) := by
  induction xs with
  | nil => exact keeps_done
  | cons x xs ih =>
      exact keeps_andThen (hf x List.mem_cons_self)
        (ih (fun y hy => hf y (List.mem_cons_of_mem x hy)))

omit [IsPreorder σ R] in
/-- **A sequence of stages that finish finishes**: the first one does not raise
    the measure, so that it stays below the bound of the second. -/
theorem finishes_andThen (hmeasure : ∀ s s', R s s' → measure s' ≤ measure s)
    (hkeeps : Keeps I R E a) (ha : Finishes I measure bound a)
    (hb : Finishes I measure bound b) : Finishes I measure bound (andThen a b) := by
  intro s hs hbound
  obtain ⟨r, s₁, h⟩ := ha s hs hbound
  cases r with
  | error e => exact ⟨_, _, andThen_error h⟩
  | ok u =>
      obtain ⟨hs₁, hmoved, -⟩ := hkeeps s _ s₁ hs h
      rw [andThen_ok h]
      exact hb s₁ hs₁ (Nat.lt_of_le_of_lt (hmeasure s s₁ hmoved) hbound)

omit [IsPreorder σ R] in
/-- A loop finishes if each of its steps does, below the same bound. -/
theorem finishes_each (hmeasure : ∀ s s', R s s' → measure s' ≤ measure s)
    (hkeeps : ∀ x ∈ xs, Keeps I R E (f x)) (hf : ∀ x ∈ xs, Finishes I measure bound (f x)) :
    Finishes I measure bound (each f xs) := by
  induction xs with
  | nil => exact fun s _ _ => ⟨_, _, rfl⟩
  | cons x xs ih =>
      exact finishes_andThen hmeasure (hkeeps x List.mem_cons_self) (hf x List.mem_cons_self)
        (ih (fun y hy => hkeeps y (List.mem_cons_of_mem x hy))
          (fun y hy => hf y (List.mem_cons_of_mem x hy)))

/-- A loop that ends normally has ended normally for each element, in a state
    that leads to its last one. -/
theorem each_ok (hkeeps : ∀ x ∈ xs, Keeps I R E (f x)) {s s' : σ} (hs : I s)
    (h : each f xs s = some (.ok (), s')) :
    ∀ x ∈ xs, ∃ s₁ s₂, I s₁ ∧ f x s₁ = some (.ok (), s₂) ∧ R s₂ s' := by
  induction xs generalizing s with
  | nil => exact fun x hx => absurd hx List.not_mem_nil
  | cons x xs ih =>
      intro y hy
      rcases andThen_cases h with ⟨e, he, -⟩ | ⟨s₁, hfirst, hrest⟩
      · cases he
      · have htail : ∀ z ∈ xs, Keeps I R E (f z) :=
          fun z hz => hkeeps z (List.mem_cons_of_mem x hz)
        obtain ⟨hs₁, -, -⟩ := hkeeps x List.mem_cons_self s _ s₁ hs hfirst
        rcases List.mem_cons.mp hy with rfl | hy
        · obtain ⟨-, hmoved, -⟩ := keeps_each htail s₁ _ s' hs₁ hrest
          exact ⟨s, s₁, hs, hfirst, hmoved⟩
        · exact ih htail hs₁ hrest y hy

end Rules

/-! ## Where a stage leads -/

/-- Wherever the stage ends normally, the state has moved along the relation. -/
def Leads (R : σ → σ → Prop) (a : Stage σ ε) : Prop :=
  ∀ s s', a s = some (.ok (), s') → R s s'

section Leading

variable {R : σ → σ → Prop} [IsPreorder σ R] {a b : Stage σ ε} {f : α → Stage σ ε} {xs : List α}

/-- Doing nothing leads from a state to itself. -/
theorem leads_done : Leads R (done : Stage σ ε) := by
  intro s s' h
  obtain ⟨-, rfl⟩ := Prod.mk.inj (Option.some.inj h)
  exact refl_of R s

omit [IsPreorder σ R] in
/-- An exception is no normal end, and leads nowhere. -/
theorem leads_raise (e : ε) : Leads R (raise e : Stage σ ε) := by
  intro s s' h
  cases h

/-- A sequence leads where its second stage leads from where the first one has
    led. -/
theorem leads_andThen (ha : Leads R a) (hb : Leads R b) : Leads R (andThen a b) := by
  intro s s' h
  rcases andThen_cases h with ⟨e, he, -⟩ | ⟨s₁, hfirst, hrest⟩
  · cases he
  · exact trans_of R (ha s s₁ hfirst) (hb s₁ s' hrest)

/-- A loop leads where its steps lead one after the other. -/
theorem leads_each (hf : ∀ x ∈ xs, Leads R (f x)) : Leads R (each f xs) := by
  induction xs with
  | nil => exact leads_done
  | cons x xs ih =>
      exact leads_andThen (hf x List.mem_cons_self)
        (ih (fun y hy => hf y (List.mem_cons_of_mem x hy)))

/-- What each element leads to, if it stays so, holds where the loop ends. -/
theorem each_leads {P : α → σ → Prop} (hf : ∀ x ∈ xs, Leads R (f x))
    (hends : ∀ x ∈ xs, ∀ s s', f x s = some (.ok (), s') → P x s')
    (hstays : ∀ x s s', P x s → R s s' → P x s') {s s' : σ}
    (h : each f xs s = some (.ok (), s')) : ∀ x ∈ xs, P x s' := by
  induction xs generalizing s with
  | nil => exact fun x hx => absurd hx List.not_mem_nil
  | cons x xs ih =>
      have htail : ∀ y ∈ xs, Leads R (f y) := fun y hy => hf y (List.mem_cons_of_mem x hy)
      intro y hy
      rcases andThen_cases h with ⟨e, he, -⟩ | ⟨s₁, hfirst, hrest⟩
      · cases he
      · rcases List.mem_cons.mp hy with rfl | hy
        · exact hstays y s₁ s' (hends y List.mem_cons_self s s₁ hfirst)
            (leads_each htail s₁ s' hrest)
        · exact ih htail (fun z hz => hends z (List.mem_cons_of_mem x hz)) hrest y hy

end Leading

end Stages
