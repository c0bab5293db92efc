import Mathlib.Logic.Function.Basic
import Mathlib.Data.List.Basic
import Custodia.Interaction

/-! # Interleaving — many programs on one service

    Any number of programs, indexed by `ι`, share one service state. A
    schedule is a list of indices; each turn lets that program make ONE call
    (a finished program spends its turn doing nothing). Everything that
    happens is in the visits: the configurations in which a turn was taken.

    The rules below are the ones a proof about all schedules uses: what one
    turn changes, invariants along a schedule, how programs end and that they
    do, and cells of the service that are never overwritten. -/

namespace Interleaving

open Interaction

variable {ι ε Op : Type} {Ans : Op → Type} {α σ : Type}

/-- All programs, and the state of the shared service. A process that has ended
    is a program that returns; the processes share nothing but the state, which
    is what forked request handlers share. -/
structure Config (ι ε Op : Type) (Ans : Op → Type) (α σ : Type) where
  procs : ι → Prog ε Op Ans α
  store : σ

variable [DecidableEq ι] (exec : (o : Op) → σ → Except ε (Ans o) × σ)

/-- One turn of program `i`. -/
def step (c : Config ι ε Op Ans α σ) (i : ι) : Config ι ε Op Ans α σ :=
  match c.procs i with
  | .call o k =>
      ⟨Function.update c.procs i (k (exec o c.store).1), (exec o c.store).2⟩
  | .ret _ => c
  | .raise _ => c

/-- Take the turns of a schedule, in order. -/
def runSched (c : Config ι ε Op Ans α σ) : List ι → Config ι ε Op Ans α σ
  | [] => c
  | i :: s => runSched (step exec c i) s

/-- The turns of a schedule, each with the configuration it was taken in. -/
def visits (c : Config ι ε Op Ans α σ) : List ι → List (Config ι ε Op Ans α σ × ι)
  | [] => []
  | i :: s => (c, i) :: visits (step exec c i) s

/-! ## One turn -/

/-- The turn of a program with a call makes that call, and moves this program
    on. -/
theorem step_call {c : Config ι ε Op Ans α σ} {i : ι} {o : Op}
    {k : Except ε (Ans o) → Prog ε Op Ans α} (h : c.procs i = .call o k) :
    step exec c i =
      ⟨Function.update c.procs i (k (exec o c.store).1), (exec o c.store).2⟩ := by
  simp only [step, h]

/-- A turn is one call of one program, or nothing at all. -/
theorem step_cases (c : Config ι ε Op Ans α σ) (i : ι) :
    (∃ o k, c.procs i = .call o k ∧ step exec c i =
      ⟨Function.update c.procs i (k (exec o c.store).1), (exec o c.store).2⟩)
    ∨ step exec c i = c := by
  cases h : c.procs i with
  | ret a => exact Or.inr (by simp only [step, h])
  | raise e => exact Or.inr (by simp only [step, h])
  | call o k => exact Or.inl ⟨o, k, rfl, step_call exec h⟩

/-- A turn leaves every other program where it was. -/
theorem step_procs_of_ne (c : Config ι ε Op Ans α σ) {i j : ι} (hj : j ≠ i) :
    (step exec c i).procs j = c.procs j := by
  rcases step_cases exec c i with ⟨o, k, -, hs⟩ | hs
  · rw [hs]
    exact Function.update_of_ne hj _ _
  · rw [hs]

/-- The program can make no further call. -/
def Finished (p : Prog ε Op Ans α) : Prop :=
  match p with
  | .call _ _ => False
  | .ret _ => True
  | .raise _ => True

/-- The turn of a finished program changes nothing. -/
theorem step_of_finished {c : Config ι ε Op Ans α σ} {i : ι}
    (h : Finished (c.procs i)) : step exec c i = c := by
  rcases step_cases exec c i with ⟨o, k, hp, -⟩ | hs
  · rw [hp] at h
    exact absurd h (fun h => h)
  · exact hs

/-! ## Along a schedule -/

/-- A schedule can be taken in two parts. -/
theorem runSched_append (c : Config ι ε Op Ans α σ) (s t : List ι) :
    runSched exec c (s ++ t) = runSched exec (runSched exec c s) t := by
  induction s generalizing c with
  | nil => rfl
  | cons i s ih => exact ih (step exec c i)

/-- The turns of a schedule are those of its first part, and those of its second
    in what that leaves. -/
theorem visits_append (c : Config ι ε Op Ans α σ) (s t : List ι) :
    visits exec c (s ++ t) = visits exec c s ++ visits exec (runSched exec c s) t := by
  induction s generalizing c with
  | nil => rfl
  | cons i s ih =>
      show (c, i) :: visits exec (step exec c i) (s ++ t) = _
      rw [ih (step exec c i)]
      rfl

/-- What every turn preserves holds in every configuration visited. -/
theorem visits_invariant {I : Config ι ε Op Ans α σ → Prop}
    (hstep : ∀ c i, I c → I (step exec c i)) :
    ∀ (s : List ι) (c : Config ι ε Op Ans α σ), I c →
      ∀ v ∈ visits exec c s, I v.1 := by
  intro s
  induction s with
  | nil => intro c _ v hv; exact nomatch hv
  | cons i s ih =>
      intro c hc v hv
      rcases List.mem_cons.mp hv with heq | hmem
      · rw [heq]; exact hc
      · exact ih (step exec c i) (hstep c i hc) v hmem

/-- What every turn preserves holds in the end. -/
theorem runSched_invariant {I : Config ι ε Op Ans α σ → Prop}
    (hstep : ∀ c i, I c → I (step exec c i)) :
    ∀ (s : List ι) (c : Config ι ε Op Ans α σ), I c → I (runSched exec c s) := by
  intro s
  induction s with
  | nil => intro c hc; exact hc
  | cons i s ih => intro c hc; exact ih (step exec c i) (hstep c i hc)

/-- What every turn preserves unless it is `bad` holds after a run without bad
    turns. -/
theorem runSched_invariant_avoiding {I : Config ι ε Op Ans α σ → Prop}
    {bad : Config ι ε Op Ans α σ × ι → Prop}
    (hstep : ∀ c i, I c → ¬ bad (c, i) → I (step exec c i)) :
    ∀ (s : List ι) (c : Config ι ε Op Ans α σ), I c →
      (∀ v ∈ visits exec c s, ¬ bad v) → I (runSched exec c s) := by
  intro s
  induction s with
  | nil => intro c hc _; exact hc
  | cons i s ih =>
      intro c hc hgood
      have hthis : ¬ bad (c, i) := hgood (c, i) List.mem_cons_self
      exact ih (step exec c i) (hstep c i hc hthis)
        (fun v hv => hgood v (List.mem_cons_of_mem _ hv))

/-- The same in every configuration that such a run visits. -/
theorem visits_invariant_avoiding {I : Config ι ε Op Ans α σ → Prop}
    {bad : Config ι ε Op Ans α σ × ι → Prop}
    (hstep : ∀ c i, I c → ¬ bad (c, i) → I (step exec c i)) :
    ∀ (s : List ι) (c : Config ι ε Op Ans α σ), I c →
      (∀ v ∈ visits exec c s, ¬ bad v) → ∀ v ∈ visits exec c s, I v.1 := by
  intro s
  induction s with
  | nil => intro c _ _ v hv; exact nomatch hv
  | cons i s ih =>
      intro c hc hgood v hv
      rcases List.mem_cons.mp hv with heq | hmem
      · rw [heq]
        exact hc
      · have hthis : ¬ bad (c, i) := hgood (c, i) List.mem_cons_self
        exact ih (step exec c i) (hstep c i hc hthis)
          (fun w hw => hgood w (List.mem_cons_of_mem _ hw)) v hmem

/-- A visit splits the schedule around its turn. -/
theorem visits_split {v : Config ι ε Op Ans α σ × ι} :
    ∀ {s : List ι} {c : Config ι ε Op Ans α σ}, v ∈ visits exec c s →
      ∃ p r, s = p ++ v.2 :: r ∧ v.1 = runSched exec c p := by
  intro s
  induction s with
  | nil => intro c hv; exact nomatch hv
  | cons i s ih =>
      intro c hv
      rcases List.mem_cons.mp hv with rfl | hmem
      · exact ⟨[], s, rfl, rfl⟩
      · obtain ⟨p, r, rfl, hv1⟩ := ih hmem
        exact ⟨i :: p, r, rfl, hv1⟩

/-! ## How programs end under any schedule -/

/-- The turn `v` ends its program with `x`. -/
def Answers (v : Config ι ε Op Ans α σ × ι) (x : Except ε α) : Prop :=
  (v.1.procs v.2).ended = none ∧ ((step exec v.1 v.2).procs v.2).ended = some x

/-- The programs still end as they were promised to end. -/
theorem ends_step {Q : ι → (o : Op) → Except ε (Ans o) → Except ε α → Prop}
    (c : Config ι ε Op Ans α σ) (i : ι) (h : ∀ j, (c.procs j).Ends (Q j)) :
    ∀ j, ((step exec c i).procs j).Ends (Q j) := by
  intro j
  by_cases hj : j = i
  · subst hj
    rcases step_cases exec c j with ⟨o, k, hp, hs⟩ | hs
    · rw [hs]
      show (Function.update c.procs j (k (exec o c.store).1) j).Ends (Q j)
      rw [Function.update_self]
      have hj := h j
      rw [hp] at hj
      exact (hj (exec o c.store).1).2
    · rw [hs]; exact h j
  · rw [step_procs_of_ne exec c hj]
    exact h j

/-- The programs still issue only what they were promised to issue. -/
theorem onlyIssues_step {P : Op → Prop} (c : Config ι ε Op Ans α σ) (i : ι)
    (h : ∀ j, (c.procs j).OnlyIssues P) : ∀ j, ((step exec c i).procs j).OnlyIssues P := by
  intro j
  by_cases hj : j = i
  · subst hj
    rcases step_cases exec c j with ⟨o, k, hp, hs⟩ | hs
    · rw [hs]
      show (Function.update c.procs j (k (exec o c.store).1) j).OnlyIssues P
      rw [Function.update_self]
      have hj := h j
      rw [hp] at hj
      exact hj.2 _
    · rw [hs]; exact h j
  · rw [step_procs_of_ne exec c hj]
    exact h j

/-- **An answer is explained by its last call**: the turn that ends a program
    was a call whose reply `Q` allows. -/
theorem answers_last_call (Q : ι → (o : Op) → Except ε (Ans o) → Except ε α → Prop)
    {v : Config ι ε Op Ans α σ × ι} {x : Except ε α}
    (hends : (v.1.procs v.2).Ends (Q v.2)) (hans : Answers exec v x) :
    ∃ o k, v.1.procs v.2 = .call o k ∧ Q v.2 o (exec o v.1.store).1 x
      ∧ (step exec v.1 v.2).store = (exec o v.1.store).2 := by
  obtain ⟨hnone, hsome⟩ := hans
  rcases step_cases exec v.1 v.2 with ⟨o, k, hp, hs⟩ | hs
  · refine ⟨o, k, hp, ?_, by rw [hs]⟩
    rw [hp] at hends
    refine (hends (exec o v.1.store).1).1 x ?_
    rw [hs] at hsome
    have hupd : (Function.update v.1.procs v.2 (k (exec o v.1.store).1) v.2).ended
        = some x := hsome
    rwa [Function.update_self] at hupd
  · rw [hs, hnone] at hsome
    exact nomatch hsome

/-- A program that has ended at the end of a schedule had ended before it, or
    was answered in one of its turns. -/
theorem answered_of_ended {i : ι} {x : Except ε α} :
    ∀ (s : List ι) (c : Config ι ε Op Ans α σ),
      ((runSched exec c s).procs i).ended = some x →
      (c.procs i).ended = some x ∨ ∃ v ∈ visits exec c s, v.2 = i ∧ Answers exec v x := by
  intro s
  induction s with
  | nil => intro c h; exact Or.inl h
  | cons j s ih =>
      intro c h
      rcases ih (step exec c j) h with hend | ⟨v, hv, hi, hans⟩
      · cases hc : (c.procs i).ended with
        | some y =>
            -- an ended program stays as it is
            by_cases hj : i = j
            · subst hj
              have hf : step exec c i = c := by
                rcases step_cases exec c i with ⟨o, k, hp, -⟩ | hs
                · rw [hp] at hc
                  exact nomatch hc
                · exact hs
              rw [hf, hc] at hend
              exact Or.inl hend
            · rw [step_procs_of_ne exec c hj, hc] at hend
              exact Or.inl hend
        | none =>
            by_cases hj : i = j
            · subst hj
              exact Or.inr ⟨(c, i), List.mem_cons_self, rfl, hc, hend⟩
            · rw [step_procs_of_ne exec c hj, hc] at hend
              exact nomatch hend
      · exact Or.inr ⟨v, List.mem_cons_of_mem _ hv, hi, hans⟩

/-! ## How programs end for sure

    A program that makes at most `n` calls is done after `n` turns of its
    own, and the turns of finished programs do not count. -/

/-- A program that may make no more calls has finished. -/
theorem finished_of_atMost_zero {p : Prog ε Op Ans α} (h : Prog.AtMost 0 p) : Finished p := by
  cases p with
  | ret a => trivial
  | raise e => trivial
  | call o k => exact h

/-- A turn uses up one of the calls the program may make. -/
theorem atMost_step {n : Nat} {c : Config ι ε Op Ans α σ} {i : ι}
    (hw : Prog.AtMost (n + 1) (c.procs i)) : Prog.AtMost n ((step exec c i).procs i) := by
  cases hp : c.procs i with
  | ret a => rw [step_of_finished exec (by rw [hp]; trivial), hp]; cases n <;> trivial
  | raise e => rw [step_of_finished exec (by rw [hp]; trivial), hp]; cases n <;> trivial
  | call o k =>
      rw [hp] at hw
      rw [step_call exec hp]
      show Prog.AtMost n (Function.update c.procs i (k (exec o c.store).1) i)
      rw [Function.update_self]
      exact hw (exec o c.store).1

/-- The turn of another program uses up none of the calls. -/
theorem atMost_step_of_ne {n : Nat} {c : Config ι ε Op Ans α σ} {i j : ι} (hj : j ≠ i)
    (hw : Prog.AtMost n (c.procs j)) : Prog.AtMost n ((step exec c i).procs j) := by
  rw [step_procs_of_ne exec c hj]
  exact hw

/-- A finished program stays as it is. -/
theorem runSched_procs_of_finished {i : ι} :
    ∀ (s : List ι) {c : Config ι ε Op Ans α σ}, Finished (c.procs i) →
      (runSched exec c s).procs i = c.procs i := by
  intro s
  induction s with
  | nil => intro c _; rfl
  | cons j s ih =>
      intro c hdone
      have hsame : (step exec c j).procs i = c.procs i := by
        by_cases hj : i = j
        · subst hj
          rw [step_of_finished exec hdone]
        · exact step_procs_of_ne exec c hj
      show (runSched exec (step exec c j) s).procs i = c.procs i
      rw [ih (by rw [hsame]; exact hdone), hsame]

/-- **Enough turns finish a program**, however they are placed: a program that
    makes at most so many calls has ended when its turn has come as often. -/
theorem finished_of_count {i : ι} :
    ∀ (s : List ι) {n : Nat} {c : Config ι ε Op Ans α σ}, Prog.AtMost n (c.procs i) →
      n ≤ s.count i → Finished ((runSched exec c s).procs i) := by
  intro s
  induction s with
  | nil =>
      intro n c hw hn
      obtain rfl : n = 0 := Nat.le_zero.mp hn
      exact finished_of_atMost_zero hw
  | cons j s ih =>
      intro n c hw hn
      by_cases hj : i = j
      · subst hj
        rw [List.count_cons_self] at hn
        cases n with
        | zero =>
            have hdone : Finished (c.procs i) := finished_of_atMost_zero hw
            refine ih (n := 0) ?_ (Nat.zero_le _)
            rw [step_of_finished exec hdone]
            exact hw
        | succ n => exact ih (atMost_step exec hw) (Nat.le_of_succ_le_succ hn)
      · rw [List.count_cons_of_ne (Ne.symm hj)] at hn
        exact ih (atMost_step_of_ne exec hj hw) hn

/-! ## Cells that are never overwritten

    `value` observes one cell of the service state. If a turn that does not
    remove the cell's value keeps it, then along any schedule without removals
    the cell is filled at most once and all observations of it agree. -/

section Cells

variable {υ : Type} {value : σ → Option υ} {removes : Config ι ε Op Ans α σ × ι → Prop}

/-- The turn `v` fills the empty cell with `x`. -/
def Fills (value : σ → Option υ) (v : Config ι ε Op Ans α σ × ι) (x : υ) : Prop :=
  value v.1.store = none ∧ value (step exec v.1 v.2).store = some x

variable (hkeep : ∀ (v : Config ι ε Op Ans α σ × ι) (x : υ),
  value v.1.store = some x → ¬ removes v → value (step exec v.1 v.2).store = some x)

include hkeep

/-- A filled cell stays as it is until a removal. -/
theorem cell_stable {x : υ} :
    ∀ (s : List ι) (c : Config ι ε Op Ans α σ),
      value c.store = some x → (∀ v ∈ visits exec c s, ¬ removes v) →
      (∀ v ∈ visits exec c s, value v.1.store = some x)
        ∧ value (runSched exec c s).store = some x := by
  intro s
  induction s with
  | nil => intro c hc _; exact ⟨(fun v hv => nomatch hv), hc⟩
  | cons i s ih =>
      intro c hc hrem
      have hnext : value (step exec c i).store = some x :=
        hkeep (c, i) x hc (hrem (c, i) List.mem_cons_self)
      obtain ⟨htail, hend⟩ := ih (step exec c i) hnext
        (fun v hv => hrem v (List.mem_cons_of_mem _ hv))
      refine ⟨?_, hend⟩
      intro v hv
      rcases List.mem_cons.mp hv with heq | hmem
      · rw [heq]; exact hc
      · exact htail v hmem

/-- **All observations agree** along a schedule without removals: what one
    program reads of the cell, every later one reads as well. -/
theorem cell_reads_agree :
    ∀ (s : List ι) (c : Config ι ε Op Ans α σ),
      (∀ v ∈ visits exec c s, ¬ removes v) →
      ∀ v ∈ visits exec c s, ∀ w ∈ visits exec c s, ∀ x y,
        value v.1.store = some x → value w.1.store = some y → x = y := by
  intro s
  induction s with
  | nil => intro c _ v hv; exact nomatch hv
  | cons i s ih =>
      intro c hrem v hv w hw x y hx hy
      have htail : ∀ v ∈ visits exec (step exec c i) s, ¬ removes v :=
        fun v hv => hrem v (List.mem_cons_of_mem _ hv)
      have hhead : ∀ z, value c.store = some z →
          ∀ u ∈ visits exec (step exec c i) s, value u.1.store = some z := by
        intro z hz u hu
        exact (cell_stable exec hkeep (i :: s) c hz hrem).1 u (List.mem_cons_of_mem _ hu)
      rcases List.mem_cons.mp hv with hvh | hvt <;> rcases List.mem_cons.mp hw with hwh | hwt
      · rw [hvh] at hx
        rw [hwh] at hy
        exact Option.some.inj (hx.symm.trans hy)
      · rw [hvh] at hx
        exact Option.some.inj ((hhead x hx w hwt).symm.trans hy)
      · rw [hwh] at hy
        exact (Option.some.inj ((hhead y hy v hvt).symm.trans hx)).symm
      · exact ih (step exec c i) htail v hvt w hwt x y hx hy

/-- **The filled value is the observed value** along a schedule without
    removals: nothing is observed before the filling turn. -/
theorem cell_reads_filled :
    ∀ (s : List ι) (c : Config ι ε Op Ans α σ),
      (∀ v ∈ visits exec c s, ¬ removes v) →
      ∀ v ∈ visits exec c s, ∀ x, Fills exec value v x →
      ∀ w ∈ visits exec c s, ∀ y, value w.1.store = some y → y = x := by
  intro s
  induction s with
  | nil => intro c _ v hv; exact nomatch hv
  | cons i s ih =>
      intro c hrem v hv x hfill w hw y hy
      have htail : ∀ v ∈ visits exec (step exec c i) s, ¬ removes v :=
        fun v hv => hrem v (List.mem_cons_of_mem _ hv)
      rcases List.mem_cons.mp hv with hvh | hvt
      · subst hvh
        rcases List.mem_cons.mp hw with hwh | hwt
        · rw [hwh, hfill.1] at hy
          exact nomatch hy
        · have hstay := (cell_stable exec hkeep s (step exec c i) hfill.2 htail).1 w hwt
          exact Option.some.inj (hy.symm.trans hstay)
      · rcases List.mem_cons.mp hw with hwh | hwt
        · -- observed before it is filled: it would still be there
          rw [hwh] at hy
          have hstay := (cell_stable exec hkeep (i :: s) c hy hrem).1 v
            (List.mem_cons_of_mem _ hvt)
          rw [hfill.1] at hstay
          exact nomatch hstay
        · exact ih (step exec c i) htail v hvt x hfill w hwt y hy

/-- **At most one turn fills the cell** along a schedule without removals, since
    what has been filled is never empty again. -/
theorem cell_filled_once :
    ∀ (s : List ι) (c : Config ι ε Op Ans α σ),
      (∀ v ∈ visits exec c s, ¬ removes v) →
      (visits exec c s).Pairwise (fun v w =>
        ¬ ((∃ x, Fills exec value v x) ∧ ∃ y, Fills exec value w y)) := by
  intro s
  induction s with
  | nil => intro c _; exact List.Pairwise.nil
  | cons i s ih =>
      intro c hrem
      have htail : ∀ v ∈ visits exec (step exec c i) s, ¬ removes v :=
        fun v hv => hrem v (List.mem_cons_of_mem _ hv)
      refine List.Pairwise.cons ?_ (ih (step exec c i) htail)
      rintro w hw ⟨⟨x, hx⟩, ⟨y, hy⟩⟩
      have hstay := (cell_stable exec hkeep s (step exec c i) hx.2 htail).1 w hw
      rw [hy.1] at hstay
      exact nomatch hstay

end Cells

end Interleaving
