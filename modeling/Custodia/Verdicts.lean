import Mathlib.Data.List.Basic

/-! # Verdicts — chains of voters that may abstain

    A voter answers yes, no or nothing about a subject, and may add to the
    subject before the next voter sees it. A chain GRANTS when nobody says no
    and somebody says yes.

    * `votes_of_independent`: voters that do not influence each other all vote
      on the subject as it was;
    * `granted_perm`: so their order does not matter. -/

namespace Verdicts

variable {ρ : Type}

/-- A voter: its vote, and the subject it passes on. -/
abbrev Voter (ρ : Type) := ρ → Option Bool × ρ

/-- The votes of a chain, every voter seeing what the earlier ones added. -/
def votes : List (Voter ρ) → ρ → List (Option Bool)
  | [], _ => []
  | a :: l, r => (a r).1 :: votes l (a r).2

/-- The subject after the whole chain. -/
def after : List (Voter ρ) → ρ → ρ
  | [], r => r
  | a :: l, r => after l (a r).2

/-- Nobody says no and somebody says yes. -/
def Granted (vs : List (Option Bool)) : Prop := some false ∉ vs ∧ some true ∈ vs

/-- No voter's vote depends on what a voter of the chain has added. -/
def Independent (l : List (Voter ρ)) : Prop :=
  ∀ a ∈ l, ∀ b ∈ l, ∀ r, (a (b r).2).1 = (a r).1

theorem independent_tail {a : Voter ρ} {l : List (Voter ρ)} (h : Independent (a :: l)) :
    Independent l :=
  fun b hb c hc => h b (List.mem_cons_of_mem _ hb) c (List.mem_cons_of_mem _ hc)

theorem independent_perm {l l' : List (Voter ρ)} (hp : l.Perm l') (h : Independent l) :
    Independent l' :=
  fun a ha b hb => h a (hp.mem_iff.mpr ha) b (hp.mem_iff.mpr hb)

/-- Independent voters vote on the subject as it was. -/
theorem votes_of_independent :
    ∀ (l : List (Voter ρ)), Independent l → ∀ r, votes l r = l.map (fun a => (a r).1) := by
  intro l
  induction l with
  | nil => intro _ r; rfl
  | cons a l ih =>
      intro h r
      show (a r).1 :: votes l (a r).2 = (a r).1 :: l.map (fun b => (b r).1)
      rw [ih (independent_tail h)]
      refine congrArg ((a r).1 :: ·) (List.map_congr_left ?_)
      intro b hb
      exact h b (List.mem_cons_of_mem _ hb) a List.mem_cons_self r

/-- **The order of independent voters does not matter.** A request is granted by
    a list of them exactly if it is granted by any rearrangement of the list. -/
theorem granted_perm {l l' : List (Voter ρ)} (hp : l.Perm l') (h : Independent l) (r : ρ) :
    Granted (votes l r) ↔ Granted (votes l' r) := by
  rw [votes_of_independent l h, votes_of_independent l' (independent_perm hp h)]
  have hmap := hp.map (fun a => (a r).1)
  rw [Granted, Granted, hmap.mem_iff, hmap.mem_iff]

end Verdicts
