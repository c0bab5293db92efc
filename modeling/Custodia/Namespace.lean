import Custodia.ContainerTree

/-! # Namespace — a tree of entries under its operations

    What a store of secrets is for, free of keys and tables: a map from paths
    to entries, some of them containers, that is read, listed, added to and
    removed from. An entry needs something at or below its parent; only a
    missing TOP container is made on the way, and only for its owner.

    * `act`: what each operation answers, and the tree it leaves;
    * `act_elsewhere`: an operation changes nothing outside its top name;
    * `act_agree`: it sees nothing outside its top name either. -/

namespace Namespace

open ContainerTree

variable {α κ : Type}

/-- The operations. `own` is the top name that belongs to the caller; a value
    that cannot be stored is `none`. -/
inductive Op (α κ : Type) where
  | read (p : List α)
  | list (p : List α)
  | store (own : Option α) (p : List α) (value : Option κ)
  | make (own : Option α) (p : List α)
  | remove (p : List α)
  | destroy (p : List α)
  | nothing

/-- The answers: what was found or listed, that it has been done, or why it has
    not. A message for a client is made of them elsewhere. -/
inductive Ans (α κ : Type) where
  | entry (found : Option κ)
  | listed (below : Entries α κ)
  | unknown
  | orphan
  | unstorable
  | taken
  | made
  | gone
  | occupied
  | nothing

/-- The top name an operation is about. -/
def Op.top : Op α κ → Option α
  | .read p => p.head?
  | .list p => p.head?
  | .store _ p _ => p.head?
  | .make _ p => p.head?
  | .remove p => p.head?
  | .destroy p => p.head?
  | .nothing => none

/-! ## The machine -/

/-- Something is at the path or below it. -/
def Present (T : Entries α κ) (p : List α) : Prop := T p ≠ none ∨ HasBelow T p

/-- What lies strictly below the path. -/
def under (T : Entries α κ) (p : List α) : Entries α κ :=
  fun tail => match tail with
    | [] => none
    | a :: rest => T (p ++ a :: rest)

section Machine

variable [DecidableEq α] (box : κ)

/-- Pass the check for a parent, perhaps by making the caller's top container. -/
noncomputable def grant (own : Option α) (p : List α) (T : Entries α κ) :
    Option (Entries α κ) :=
  open Classical in
  if Present T p.dropLast then some T
  else if p.length = 2 ∧ own = p.head? then some (Function.update T p.dropLast (some box))
  else none

/-- Add an entry where there is none. -/
noncomputable def add (p : List α) (v : κ) (T : Entries α κ) : Ans α κ × Entries α κ :=
  open Classical in
  if T p = none then (.made, Function.update T p (some v)) else (.taken, T)

/-- Take an entry away. -/
noncomputable def takeAway (p : List α) (T : Entries α κ) : Ans α κ × Entries α κ :=
  open Classical in
  if T p = none then (.unknown, T) else (.gone, Function.update T p none)

/-- One operation: its answer, and the tree after it. -/
noncomputable def act : Op α κ → Entries α κ → Ans α κ × Entries α κ
  | .read p, T => (.entry (T p), T)
  | .list p, T =>
      open Classical in
      if Present T p then (.listed (under T p), T) else (.unknown, T)
  | .store own p value, T =>
      match grant box own p T with
      | none => (.orphan, T)
      | some T' =>
          match value with
          | none => (.unstorable, T')
          | some v => add p v T'
  | .make own p, T =>
      if p.length ≤ 1 then add p box T
      else
        match grant box own p T with
        | none => (.orphan, T)
        | some T' => add p box T'
  | .remove p, T => takeAway p T
  | .destroy p, T =>
      open Classical in
      if HasBelow T p then (.occupied, T) else takeAway p T
  | .nothing, T => (.nothing, T)

end Machine

/-! ## Every top name for itself -/

/-- The operation is at the depth the parent check is for. -/
def Op.Deep : Op α κ → Prop
  | .store _ p _ => 2 ≤ p.length
  | .read _ => True
  | .list _ => True
  | .make _ _ => True
  | .remove _ => True
  | .destroy _ => True
  | .nothing => True

/-- The trees agree at and below the top name. -/
def AgreeUnder (n : α) (T T' : Entries α κ) : Prop :=
  ∀ p : List α, p.head? = some n → T p = T' p

variable {n : α} {T T' : Entries α κ} {p : List α}

/-- Where one tree agrees with another below a name, so does the other with it. -/
theorem AgreeUnder.symm (h : AgreeUnder n T T') : AgreeUnder n T' T :=
  fun p hp => (h p hp).symm

/-- Agreeing below a name goes from tree to tree. -/
theorem AgreeUnder.trans {T'' : Entries α κ} (h : AgreeUnder n T T') (h' : AgreeUnder n T' T'') :
    AgreeUnder n T T'' := fun p hp => (h p hp).trans (h' p hp)

/-- What is put behind a path does not change its first name. -/
theorem head_append {tail : List α} (hp : p.head? = some n) : (p ++ tail).head? = some n := by
  rw [List.head?_append, hp]
  rfl

/-- A parent that is no root has the same top name. -/
theorem head_dropLast (hlen : 2 ≤ p.length) : p.dropLast.head? = p.head? := by
  match p, hlen with
  | _ :: _ :: _, _ => rfl

/-- Trees that agree below a name have something below the same paths there. -/
theorem hasBelow_agree (h : AgreeUnder n T T') (hp : p.head? = some n) :
    HasBelow T p ↔ HasBelow T' p := by
  refine exists_congr (fun tail => and_congr_right (fun _ => ?_))
  rw [h _ (head_append hp)]

/-- Trees that agree below a name show the same paths there. -/
theorem present_agree (h : AgreeUnder n T T') (hp : p.head? = some n) :
    Present T p ↔ Present T' p := by
  rw [Present, Present, h p hp, hasBelow_agree h hp]

/-- Trees that agree below a name are the same tree below every path there. -/
theorem under_agree (h : AgreeUnder n T T') (hp : p.head? = some n) : under T p = under T' p := by
  funext tail
  cases tail with
  | nil => rfl
  | cons a rest => exact h _ (head_append hp)

section Locality

variable [DecidableEq α] {box : κ}

/-- A change elsewhere is not seen. -/
theorem update_elsewhere (hp : p.head? ≠ some n) (x : Option κ) :
    AgreeUnder n T (Function.update T p x) := by
  intro q hq
  rw [Function.update_of_ne]
  rintro rfl
  exact hp hq

/-- One entry that is changed alike in both keeps the trees in agreement. -/
theorem update_agree (h : AgreeUnder n T T') (x : Option κ) :
    AgreeUnder n (Function.update T p x) (Function.update T' p x) := by
  intro q hq
  by_cases heq : q = p
  · rw [heq, Function.update_self, Function.update_self]
  · rw [Function.update_of_ne heq, Function.update_of_ne heq, h q hq]

/-- Adding an entry elsewhere is not seen below the name. -/
theorem add_elsewhere (hp : p.head? ≠ some n) (v : κ) : AgreeUnder n T (add p v T).2 := by
  rw [add]
  split_ifs
  · exact update_elsewhere hp _
  · exact fun _ _ => rfl

/-- Taking an entry away elsewhere is not seen below the name. -/
theorem takeAway_elsewhere (hp : p.head? ≠ some n) : AgreeUnder n T (takeAway p T).2 := by
  rw [takeAway]
  split_ifs
  · exact fun _ _ => rfl
  · exact update_elsewhere hp _

/-- The parent that is granted to a path elsewhere is not seen below the name. -/
theorem grant_elsewhere {own : Option α} (hp : p.head? ≠ some n) (hlen : 2 ≤ p.length)
    (h : grant box own p T = some T') : AgreeUnder n T T' := by
  rw [grant] at h
  split_ifs at h
  · obtain rfl := Option.some.inj h
    exact fun _ _ => rfl
  · obtain rfl := Option.some.inj h
    refine update_elsewhere ?_ _
    rw [head_dropLast hlen]
    exact hp

/-- **An operation changes nothing outside its top name.** -/
theorem act_elsewhere {op : Op α κ} (hdeep : op.Deep) (hop : op.top ≠ some n) :
    AgreeUnder n T (act box op T).2 := by
  cases op with
  | read p => exact fun _ _ => rfl
  | list p =>
      rw [act]
      split_ifs <;> exact fun _ _ => rfl
  | store own p value =>
      rw [act]
      cases hgrant : grant box own p T with
      | none => exact fun _ _ => rfl
      | some T' =>
          have hmade : AgreeUnder n T T' := grant_elsewhere hop hdeep hgrant
          cases value with
          | none => exact hmade
          | some v => exact hmade.trans (add_elsewhere hop v)
  | make own p =>
      rw [act]
      split_ifs with hlen
      · exact add_elsewhere hop box
      · cases hgrant : grant box own p T with
        | none => exact fun _ _ => rfl
        | some T' =>
            have hmade : AgreeUnder n T T' := grant_elsewhere hop (by omega) hgrant
            exact hmade.trans (add_elsewhere hop box)
  | remove p => exact takeAway_elsewhere hop
  | destroy p =>
      rw [act]
      split_ifs
      · exact fun _ _ => rfl
      · exact takeAway_elsewhere hop
  | nothing => exact fun _ _ => rfl

/-- Adding an entry below the name gives the same answer in both trees, and
    keeps them in agreement. -/
theorem add_agree (h : AgreeUnder n T T') (hp : p.head? = some n) (v : κ) :
    (add p v T).1 = (add p v T').1 ∧ AgreeUnder n (add p v T).2 (add p v T').2 := by
  rw [add, add, h p hp]
  split_ifs
  · exact ⟨rfl, update_agree h _⟩
  · exact ⟨rfl, h⟩

/-- Taking an entry away below the name gives the same answer in both trees, and
    keeps them in agreement. -/
theorem takeAway_agree (h : AgreeUnder n T T') (hp : p.head? = some n) :
    (takeAway p T).1 = (takeAway p T').1
      ∧ AgreeUnder n (takeAway p T).2 (takeAway p T').2 := by
  rw [takeAway, takeAway, h p hp]
  split_ifs
  · exact ⟨rfl, h⟩
  · exact ⟨rfl, update_agree h _⟩

/-- The parent check passes in both trees or in neither. -/
theorem grant_agree (box : κ) (own : Option α) (h : AgreeUnder n T T') (hp : p.head? = some n)
    (hlen : 2 ≤ p.length) :
    (grant box own p T = none ∧ grant box own p T' = none)
    ∨ ∃ U U', grant box own p T = some U ∧ grant box own p T' = some U' ∧ AgreeUnder n U U' := by
  have hparent : p.dropLast.head? = some n := (head_dropLast hlen).trans hp
  rw [grant, grant, present_agree h hparent]
  split_ifs
  · exact Or.inr ⟨T, T', rfl, rfl, h⟩
  · exact Or.inr ⟨_, _, rfl, rfl, update_agree h _⟩
  · exact Or.inl ⟨rfl, rfl⟩

/-- **An operation sees nothing outside its top name**: from trees that agree
    there, it answers alike and leaves trees that agree there. -/
theorem act_agree (box : κ) {op : Op α κ} (hdeep : op.Deep) (hop : op.top = some n)
    (h : AgreeUnder n T T') :
    (act box op T).1 = (act box op T').1
      ∧ AgreeUnder n (act box op T).2 (act box op T').2 := by
  cases op with
  | read p => exact ⟨congrArg Ans.entry (h p hop), h⟩
  | list p =>
      rw [act, act, present_agree h hop, under_agree h hop]
      split_ifs <;> exact ⟨rfl, h⟩
  | store own p value =>
      rw [act, act]
      rcases grant_agree box own h hop hdeep with ⟨hl, hr⟩ |
        ⟨U, U', hl, hr, hagree⟩
      · rw [hl, hr]
        exact ⟨rfl, h⟩
      · rw [hl, hr]
        cases value with
        | none => exact ⟨rfl, hagree⟩
        | some v => exact add_agree hagree hop v
  | make own p =>
      rw [act, act]
      split_ifs with hlen
      · exact add_agree h hop box
      · have hdeeper : 2 ≤ p.length := by omega
        rcases grant_agree box own h hop hdeeper with ⟨hl, hr⟩ |
          ⟨U, U', hl, hr, hagree⟩
        · rw [hl, hr]
          exact ⟨rfl, h⟩
        · rw [hl, hr]
          exact add_agree hagree hop box
  | remove p => exact takeAway_agree h hop
  | destroy p =>
      rw [act, act, hasBelow_agree h hop]
      split_ifs
      · exact ⟨rfl, h⟩
      · exact takeAway_agree h hop
  | nothing => exact ⟨rfl, h⟩

end Locality

end Namespace
