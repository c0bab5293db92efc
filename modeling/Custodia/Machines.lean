import Mathlib.Data.List.Basic
import Mathlib.Data.List.Forall2

/-! # Machines — operations answered one after another

    A machine answers an operation and moves. Two rules for whole runs: a
    machine that SIMULATES another step by step does so along every run, and
    a machine that UNWINDS for one party hides everything the others do.

    * `answers`, `after`: a run;
    * `simulates`: step by step, then along the run;
    * `answers_purge`: the answers to one party are those of the run in which
      nobody else ever asked. -/

namespace Machines

variable {Op σ Ans : Type}

/-- The answers of a run. -/
def answers (step : Op → σ → Ans × σ) : List Op → σ → List Ans
  | [], _ => []
  | op :: ops, s => (step op s).1 :: answers step ops (step op s).2

/-- The state after a run. -/
def after (step : Op → σ → Ans × σ) : List Op → σ → σ
  | [], s => s
  | op :: ops, s => after step ops (step op s).2

section Simulation

variable {Op' σ' Ans' : Type} {step : Op → σ → Ans × σ} {step' : Op' → σ' → Ans' × σ'}

/-- One machine does what another one does: related operations, from related
    states, are answered as `S` says and lead to related states. -/
def Simulates (step : Op → σ → Ans × σ) (step' : Op' → σ' → Ans' × σ') (R : σ → σ' → Prop)
    (M : Op → Op' → Prop) (S : Op → Op' → Ans → Ans' → Prop) : Prop :=
  ∀ op op' s s', M op op' → R s s' →
    S op op' (step op s).1 (step' op' s').1 ∧ R (step op s).2 (step' op' s').2

/-- The answers to related runs: the runs are as long as one another, and so are
    the answers, and at every place the relation holds of the two operations and
    their answers. -/
inductive Alike (S : Op → Op' → Ans → Ans' → Prop) :
    List Op → List Op' → List Ans → List Ans' → Prop where
  | nil : Alike S [] [] [] []
  | cons {op op' a a' ops ops' as as'} (head : S op op' a a') (tail : Alike S ops ops' as as') :
      Alike S (op :: ops) (op' :: ops') (a :: as) (a' :: as')

/-- **A simulation step by step is one along every run.** -/
theorem simulates {R : σ → σ' → Prop} {M : Op → Op' → Prop}
    {S : Op → Op' → Ans → Ans' → Prop} (h : Simulates step step' R M S) {ops : List Op}
    {ops' : List Op'} (hops : List.Forall₂ M ops ops') :
    ∀ {s : σ} {s' : σ'}, R s s' →
      Alike S ops ops' (answers step ops s) (answers step' ops' s')
        ∧ R (after step ops s) (after step' ops' s') := by
  induction hops with
  | nil => intro s s' hR; exact ⟨.nil, hR⟩
  | cons hhead _ ih =>
      intro s s' hR
      obtain ⟨hans, hnext⟩ := h _ _ s s' hhead hR
      obtain ⟨hrest, hend⟩ := ih hnext
      exact ⟨.cons hans hrest, hend⟩

end Simulation

section Unwinding

variable {step : Op → σ → Ans × σ}

/-- The machine unwinds for a party: the others do not change what the party
    sees, and its own operations depend on what it sees. -/
structure Unwinds (step : Op → σ → Ans × σ) (I : σ → Prop) (ok mine : Op → Prop)
    (view : σ → σ → Prop) : Prop where
  keeps : ∀ op s, ok op → I s → I (step op s).2
  hidden : ∀ op s s', ok op → ¬ mine op → I s → view s s' → view (step op s).2 s'
  same : ∀ op s s', ok op → mine op → I s → I s' → view s s' →
    (step op s).1 = (step op s').1 ∧ view (step op s).2 (step op s').2

/-- The answers to one party along a run. -/
def answersTo (step : Op → σ → Ans × σ) (mine : Op → Prop) [DecidablePred mine]
    (ops : List Op) (s : σ) : List Ans :=
  ((ops.zip (answers step ops s)).filter (fun x => decide (mine x.1))).map Prod.snd

theorem answersTo_cons (step : Op → σ → Ans × σ) (mine : Op → Prop) [DecidablePred mine]
    (op : Op) (ops : List Op) (s : σ) :
    answersTo step mine (op :: ops) s
      = if mine op then (step op s).1 :: answersTo step mine ops (step op s).2
        else answersTo step mine ops (step op s).2 := by
  rw [answersTo, answers, List.zip_cons_cons]
  split_ifs with h
  · rw [List.filter_cons_of_pos (by simpa using h)]
    rfl
  · rw [List.filter_cons_of_neg (by simpa using h)]
    rfl

/-- **What the others do cannot be told from the answers**: they are those of
    the run from which the others' operations are purged. -/
theorem answers_purge {I : σ → Prop} {ok mine : Op → Prop} [DecidablePred mine]
    {view : σ → σ → Prop} (h : Unwinds step I ok mine view) :
    ∀ (ops : List Op) {s s' : σ}, (∀ op ∈ ops, ok op) → I s → I s' → view s s' →
      answersTo step mine ops s = answers step (ops.filter (fun op => decide (mine op))) s'
        ∧ view (after step ops s)
            (after step (ops.filter (fun op => decide (mine op))) s') := by
  intro ops
  induction ops with
  | nil => intro s s' _ _ _ hview; exact ⟨rfl, hview⟩
  | cons op ops ih =>
      intro s s' hall hs hs' hview
      have hok : ok op := hall op List.mem_cons_self
      have hrest : ∀ op ∈ ops, ok op := fun o ho => hall o (List.mem_cons_of_mem op ho)
      have hnext : I (step op s).2 := h.keeps op s hok hs
      rw [answersTo_cons]
      by_cases hmine : mine op
      · obtain ⟨hans, hview'⟩ := h.same op s s' hok hmine hs hs' hview
        obtain ⟨htail, hend⟩ := ih hrest hnext (h.keeps op s' hok hs') hview'
        rw [if_pos hmine, List.filter_cons_of_pos (by simpa using hmine)]
        exact ⟨congrArg₂ List.cons hans htail, hend⟩
      · rw [if_neg hmine, List.filter_cons_of_neg (by simpa using hmine)]
        exact ih hrest hnext hs' (h.hidden op s s' hok hmine hs hview)

end Unwinding

end Machines
