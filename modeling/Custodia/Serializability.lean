import Custodia.Interleaving
import Custodia.Machines

/-! # Serializability — an interleaving as a serial run

    Programs that look first and act last can be interleaved freely as long as
    what they have looked at stays true. A configuration is CURRENT when each
    unfinished program, run on from here, ends as it would from its beginning;
    a run is QUIET when only the last call of a program moves the store. Then
    the interleaving is the serial run in the order of the last calls.

    * `endings`: that order;
    * `serial_of_current`: same answers, same store;
    * `endings_split`: the order respects real time. -/

namespace Serializability

open Interaction Interleaving Machines

variable {ι ε Op : Type} {Ans : Op → Type} {α σ : Type}

/-- Run one program alone, from its beginning. -/
def solo (exec : (o : Op) → σ → Except ε (Ans o) × σ) (progs : ι → Prog ε Op Ans α) :
    ι → σ → Except ε α × σ :=
  fun i s => (progs i).run exec s

variable [DecidableEq ι] (exec : (o : Op) → σ → Except ε (Ans o) × σ)

/-- The turn ends its program. -/
def Ending (c : Config ι ε Op Ans α σ) (i : ι) : Prop :=
  (c.procs i).ended.isNone = true ∧ ((step exec c i).procs i).ended.isSome = true

instance (c : Config ι ε Op Ans α σ) (i : ι) : Decidable (Ending exec c i) :=
  inferInstanceAs (Decidable (_ ∧ _))

/-- The programs in the order in which they end. -/
def endings (c : Config ι ε Op Ans α σ) : List ι → List ι
  | [] => []
  | i :: s =>
      if Ending exec c i then i :: endings (step exec c i) s else endings (step exec c i) s

/-- What is left of the program ends, from here, as the whole program would. -/
def CurrentFor (progs : ι → Prog ε Op Ans α) (c : Config ι ε Op Ans α σ) (i : ι) : Prop :=
  (c.procs i).ended = none → (c.procs i).run exec c.store = (progs i).run exec c.store

/-- A turn that does not end its program leaves the store as it is. -/
def QuietFor (c : Config ι ε Op Ans α σ) (i : ι) : Prop :=
  ((step exec c i).procs i).ended = none → (step exec c i).store = c.store

variable {exec}

/-! ## Programs that have ended -/

/-- A program that has ended makes no more calls. -/
theorem finished_of_ended {p : Prog ε Op Ans α} {x : Except ε α} (h : p.ended = some x) :
    Finished p := by
  cases p with
  | ret a => trivial
  | raise e => trivial
  | call o k => cases h

/-- A program that has ended runs to what it has ended in. -/
theorem run_of_ended {p : Prog ε Op Ans α} {x : Except ε α} (h : p.ended = some x) (s : σ) :
    p.run exec s = (x, s) := by
  cases p with
  | ret a => rw [← Option.some.inj h]; rfl
  | raise e => rw [← Option.some.inj h]; rfl
  | call o k => cases h

/-- What has ended stays as it is. -/
theorem ended_runSched {c : Config ι ε Op Ans α σ} {i : ι} {x : Except ε α}
    (h : (c.procs i).ended = some x) (s : List ι) :
    ((runSched exec c s).procs i).ended = some x := by
  rw [runSched_procs_of_finished exec s (finished_of_ended h)]
  exact h

/-- A turn that ends nothing is that of an unfinished program, or changes
    nothing. -/
theorem store_of_not_ending {c : Config ι ε Op Ans α σ} {i : ι} (hquiet : QuietFor exec c i)
    (h : ¬ Ending exec c i) : (step exec c i).store = c.store := by
  cases hstart : (c.procs i).ended with
  | some x => rw [step_of_finished exec (finished_of_ended hstart)]
  | none =>
      refine hquiet ?_
      cases hend : ((step exec c i).procs i).ended with
      | none => rfl
      | some x => exact absurd ⟨by rw [hstart]; rfl, by rw [hend]; rfl⟩ h

/-- The turn that ends a program runs it. -/
theorem run_of_ending {progs : ι → Prog ε Op Ans α} {c : Config ι ε Op Ans α σ} {i : ι}
    (hcurrent : CurrentFor exec progs c i) (h : Ending exec c i) :
    ∃ x, ((step exec c i).procs i).ended = some x
      ∧ solo exec progs i c.store = (x, (step exec c i).store) := by
  obtain ⟨hstart, hend⟩ := h
  obtain ⟨x, hx⟩ := Option.isSome_iff_exists.mp hend
  have hnone : (c.procs i).ended = none := Option.isNone_iff_eq_none.mp hstart
  refine ⟨x, hx, ?_⟩
  rw [solo, ← hcurrent hnone]
  rcases step_cases exec c i with ⟨o, k, hp, hs⟩ | hs
  · have hx' : (k (exec o c.store).1).ended = some x := by
      rw [hs] at hx
      have hupd : (Function.update c.procs i (k (exec o c.store).1) i).ended = some x := hx
      rwa [Function.update_self] at hupd
    rw [hp, Prog.run_call, run_of_ended hx', hs]
  · rw [hs, hnone] at hx
    cases hx

/-! ## The serial run -/

/-- **An interleaving of current programs is the serial run in the order of
    their last calls**: same answers, same store. -/
theorem serial_of_current (progs : ι → Prog ε Op Ans α) :
    ∀ (s : List ι) (c : Config ι ε Op Ans α σ),
      (∀ v ∈ visits exec c s, CurrentFor exec progs v.1 v.2 ∧ QuietFor exec v.1 v.2) →
      (endings exec c s).map (fun i => ((runSched exec c s).procs i).ended)
          = (answers (solo exec progs) (endings exec c s) c.store).map some
        ∧ (runSched exec c s).store
          = after (solo exec progs) (endings exec c s) c.store := by
  intro s
  induction s with
  | nil => intro c _; exact ⟨rfl, rfl⟩
  | cons i s ih =>
      intro c h
      obtain ⟨hcurrent, hquiet⟩ := h (c, i) List.mem_cons_self
      obtain ⟨hans, hstore⟩ := ih (step exec c i)
        (fun v hv => h v (List.mem_cons_of_mem _ hv))
      rw [endings, runSched]
      split_ifs with hending
      · obtain ⟨x, hx, hsolo⟩ := run_of_ending hcurrent hending
        rw [List.map_cons, answers, after, hsolo, List.map_cons, ended_runSched hx s]
        exact ⟨congrArg _ hans, hstore⟩
      · rw [store_of_not_ending hquiet hending] at hans hstore
        exact ⟨hans, hstore⟩

/-! ## The order -/

/-- The programs that end in a schedule are those that end in its first part,
    and those in its second. -/
theorem endings_append (s r : List ι) (c : Config ι ε Op Ans α σ) :
    endings exec c (s ++ r) = endings exec c s ++ endings exec (runSched exec c s) r := by
  induction s generalizing c with
  | nil => rfl
  | cons i s ih =>
      rw [List.cons_append, endings, endings, runSched, ih]
      split_ifs <;> rfl

/-- What is in the order has not ended before. -/
theorem not_ended_of_mem {i : ι} :
    ∀ (s : List ι) (c : Config ι ε Op Ans α σ), i ∈ endings exec c s →
      (c.procs i).ended = none := by
  intro s
  induction s with
  | nil => intro c h; exact absurd h List.not_mem_nil
  | cons j s ih =>
      intro c h
      rw [endings] at h
      have hlater : i ∈ endings exec (step exec c j) s → (c.procs i).ended = none := by
        intro hmem
        cases hc : (c.procs i).ended with
        | none => rfl
        | some x =>
            have hstay : ((step exec c j).procs i).ended = some x :=
              ended_runSched hc [j]
            rw [ih _ hmem] at hstay
            cases hstay
      split_ifs at h with hending
      · rcases List.mem_cons.mp h with rfl | hmem
        · exact Option.isNone_iff_eq_none.mp hending.1
        · exact hlater hmem
      · exact hlater h

/-- **The order holds every program that ends in the run, once.** -/
theorem mem_endings {i : ι} (s : List ι) (c : Config ι ε Op Ans α σ) :
    i ∈ endings exec c s ↔
      (c.procs i).ended = none ∧ ((runSched exec c s).procs i).ended ≠ none := by
  induction s generalizing c with
  | nil => exact iff_of_false List.not_mem_nil (fun h => h.2 h.1)
  | cons j s ih =>
      rw [endings, runSched]
      have hsame : i ≠ j → (step exec c j).procs i = c.procs i := step_procs_of_ne exec c
      by_cases hij : i = j
      · -- a turn of the program itself ends it, or leaves the rest of the schedule to do so
        subst hij
        split_ifs with hending
        · obtain ⟨hstart, hend⟩ := hending
          obtain ⟨x, hx⟩ := Option.isSome_iff_exists.mp hend
          refine iff_of_true List.mem_cons_self ⟨Option.isNone_iff_eq_none.mp hstart, ?_⟩
          rw [ended_runSched hx s]
          exact Option.some_ne_none x
        · rw [ih]
          refine and_congr_left (fun _ => ?_)
          cases hc : (c.procs i).ended with
          | some x => rw [step_of_finished exec (finished_of_ended hc), hc]
          | none =>
              cases hnext : ((step exec c i).procs i).ended with
              | none => exact Iff.rfl
              | some x => exact absurd ⟨by rw [hc]; rfl, by rw [hnext]; rfl⟩ hending
      · split_ifs
        · rw [List.mem_cons, ih, hsame hij]
          exact or_iff_right hij
        · rw [ih, hsame hij]

/-- **No program ends twice.** -/
theorem nodup_endings : ∀ (s : List ι) (c : Config ι ε Op Ans α σ),
    (endings exec c s).Nodup := by
  intro s
  induction s with
  | nil => intro c; exact List.nodup_nil
  | cons i s ih =>
      intro c
      rw [endings]
      split_ifs with hending
      · refine List.nodup_cons.mpr ⟨fun hmem => ?_, ih _⟩
        have hnone := not_ended_of_mem s _ hmem
        have hsome := hending.2
        rw [hnone] at hsome
        exact Bool.false_ne_true hsome
      · exact ih _

/-- **The order respects real time**: at any moment of the run, the programs
    that have ended by then come before those that end later. -/
theorem endings_split (s r : List ι) (c : Config ι ε Op Ans α σ) :
    ∃ early late, endings exec c (s ++ r) = early ++ late
      ∧ (∀ i ∈ early, ((runSched exec c s).procs i).ended ≠ none)
      ∧ ∀ i ∈ late, ((runSched exec c s).procs i).ended = none :=
  ⟨_, _, endings_append s r c, fun _ hi => ((mem_endings s c).mp hi).2,
    fun _ hi => not_ended_of_mem r _ hi⟩

end Serializability
