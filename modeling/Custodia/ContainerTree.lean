import Mathlib.Logic.Function.Basic
import Mathlib.Data.List.Basic
import Mathlib.Data.List.Infix

/-! # ContainerTree — entries that live in containers

    A map from paths to kinds of entries is CLOSED when every entry that is
    not at the top lies directly in an entry of the container kind. The
    library says what inserting an entry and removing one do to a closed
    map, in both directions: when they keep it closed and when they break it. -/

namespace ContainerTree

variable {α κ : Type}

/-- Entries by path. -/
abbrev Entries (α κ : Type) : Type := List α → Option κ

/-- Every entry below the top lies in a container. -/
def Closed (box : κ) (T : Entries α κ) : Prop :=
  ∀ q, 2 ≤ q.length → T q ≠ none → T q.dropLast = some box

/-- Some entry lies strictly below `p`. -/
def HasBelow (T : Entries α κ) (p : List α) : Prop :=
  ∃ tail, tail ≠ [] ∧ T (p ++ tail) ≠ none

variable {box : κ} {T : Entries α κ}

/-- Everything above an entry is a container. -/
theorem closed_above (hT : Closed box T) {p : List α} (hp : p ≠ []) :
    ∀ tail, tail ≠ [] → T (p ++ tail) ≠ none → T p = some box := by
  intro tail
  induction tail using List.reverseRecOn with
  | nil => intro h; exact absurd rfl h
  | append_singleton tail a ih =>
      intro _ hmem
      have hlen : 2 ≤ (p ++ (tail ++ [a])).length := by
        have := List.length_pos_iff.mpr hp
        simp only [List.length_append, List.length_singleton]
        omega
      have hup := hT _ hlen hmem
      rw [← List.append_assoc, List.dropLast_concat] at hup
      by_cases htail : tail = []
      · rw [htail, List.append_nil] at hup
        exact hup
      · exact ih htail (by rw [hup]; exact Option.some_ne_none box)

/-- Below what is no container there is nothing. -/
theorem nothing_below (hT : Closed box T) {p : List α} (hp : p ≠ [])
    (hbox : T p ≠ some box) : ¬ HasBelow T p := by
  rintro ⟨tail, hne, hmem⟩
  exact hbox (closed_above hT hp tail hne hmem)

/-- A path of two names is not empty. -/
theorem ne_nil_of_two_le {q : List α} (h : 2 ≤ q.length) : q ≠ [] := by
  rintro rfl
  exact absurd h (by simp)

/-- No path is its own container. -/
theorem dropLast_ne_self {q : List α} (hq : q ≠ []) : q.dropLast ≠ q := by
  intro h
  have hlen := congrArg List.length h
  rw [List.length_dropLast] at hlen
  have := List.length_pos_iff.mpr hq
  omega

/-- A path is its container and something below it. -/
theorem dropLast_append_getLast_tail {p q : List α} (hq : q ≠ []) (h : q.dropLast = p) :
    ∃ tail, tail ≠ [] ∧ q = p ++ tail :=
  ⟨[q.getLast hq], List.cons_ne_nil _ _, by rw [← h, List.dropLast_append_getLast hq]⟩

variable [DecidableEq α]

/-- **A new entry in a container** keeps the tree closed. -/
theorem closed_insert (hT : Closed box T) {p : List α} {k : κ} (hp : p ≠ [])
    (hnew : T p = none) (hparent : 2 ≤ p.length → T p.dropLast = some box) :
    Closed box (Function.update T p (some k)) := by
  intro q hlen hmem
  have hq : q ≠ [] := ne_nil_of_two_le hlen
  by_cases hqp : q = p
  · subst hqp
    rw [Function.update_of_ne (dropLast_ne_self hq)]
    exact hparent hlen
  · rw [Function.update_of_ne hqp] at hmem
    by_cases hdrop : q.dropLast = p
    · -- nothing was below the new entry
      obtain ⟨tail, hne, hsplit⟩ := dropLast_append_getLast_tail hq hdrop
      have hnone : T p ≠ some box := by rw [hnew]; exact Option.some_ne_none box |>.symm
      exact absurd ⟨tail, hne, hsplit ▸ hmem⟩ (nothing_below hT hp hnone)
    · rw [Function.update_of_ne hdrop]
      exact hT q hlen hmem

/-- A new entry anywhere else breaks it. -/
theorem not_closed_insert {p : List α} {k : κ} (hlen : 2 ≤ p.length)
    (hparent : T p.dropLast ≠ some box) : ¬ Closed box (Function.update T p (some k)) := by
  intro h
  have hp : p ≠ [] := ne_nil_of_two_le hlen
  have hup := h p hlen (by rw [Function.update_self]; exact Option.some_ne_none k)
  rw [Function.update_of_ne (dropLast_ne_self hp)] at hup
  exact hparent hup

/-- **Removing an entry** keeps the tree closed exactly when nothing lies
    below it. -/
theorem closed_remove_iff (hT : Closed box T) {p : List α} (hp : p ≠ []) :
    Closed box (Function.update T p none) ↔ ¬ HasBelow T p := by
  constructor
  · rintro h ⟨tail, hne, hmem⟩
    have hself : p ++ tail ≠ p := by
      intro heq
      exact hne (List.append_right_eq_self.mp heq)
    -- the container itself would still have to be there
    have habove := closed_above h hp tail hne (by rwa [Function.update_of_ne hself])
    rw [Function.update_self] at habove
    exact nomatch habove
  · intro hno q hlen hmem
    have hq : q ≠ [] := ne_nil_of_two_le hlen
    have hqp : q ≠ p := by
      rintro rfl
      exact hmem (Function.update_self _ _ _)
    rw [Function.update_of_ne hqp] at hmem
    have hdrop : q.dropLast ≠ p := by
      intro hdrop
      obtain ⟨tail, hne, hsplit⟩ := dropLast_append_getLast_tail hq hdrop
      exact hno ⟨tail, hne, hsplit ▸ hmem⟩
    rw [Function.update_of_ne hdrop]
    exact hT q hlen hmem

end ContainerTree
