import Custodia.PosixPath

/-! # PathAncestors — walking up a path

    `os.path.split` drops the last component of a path, and the slashes before
    it unless nothing else is left. Walking up with it visits the ancestors of
    a path: what stands before one of its runs of slashes, and at the end the
    leading slashes, WHICH IT NEVER LEAVES.

    * `path_shape`: what stands before the last component;
    * `ancestor_splitHead`: one step up leaves exactly the ancestors;
    * `splitHead_slashes_append`: the walk stays where only slashes are left. -/

namespace PosixPath

open SeparatedNames

/-- A run of slashes. -/
abbrev slashes (n : Nat) : Str := List.replicate n slash

/-- The leading slashes of a path. -/
def leading (p : Str) : Str := p.takeWhile (fun c => decide (c = slash))

/-- The ancestors of a path: its leading slashes, and whatever stands before a
    later run of slashes. -/
def Ancestor (a p : Str) : Prop :=
  a ≠ [] ∧ (a = leading p ∨ a.getLast? ≠ some slash ∧ a ++ [slash] <+: p)

instance (a p : Str) : Decidable (Ancestor a p) := inferInstanceAs (Decidable (_ ∧ _))

/-- What begins a text begins it with anything behind. -/
theorem prefix_append_append (a b c : Str) : a <+: a ++ b ++ c :=
  (List.prefix_append a b).trans (List.prefix_append _ c)

/-! ## Runs of slashes -/

/-- The leading slashes of a text end before its first other character. -/
theorem leading_slashes_append {n : Nat} {t : Str} (ht : t.head? ≠ some slash) :
    leading (slashes n ++ t) = slashes n := by
  rw [leading, List.takeWhile_append_of_pos (by simp)]
  cases t with
  | nil => simp
  | cons c t =>
      have hc : c ≠ slash := fun h => ht (congrArg some h)
      simp [hc]

/-- Every path is its leading slashes and a rest that begins otherwise. -/
theorem exists_leading (p : Str) :
    ∃ n t, p = slashes n ++ t ∧ t.head? ≠ some slash := by
  induction p with
  | nil => exact ⟨0, [], rfl, by simp⟩
  | cons c p ih =>
      by_cases hc : c = slash
      · obtain ⟨n, t, rfl, ht⟩ := ih
        exact ⟨n + 1, t, by rw [hc]; rfl, ht⟩
      · exact ⟨0, c :: p, rfl, by simpa using hc⟩

/-- Nothing is left of slashes alone. -/
theorem rstrip_slashes (n : Nat) : rstrip (slashes n) = [] := by
  induction n with
  | zero => rfl
  | succ n ih =>
      rw [slashes, List.replicate_succ', rstrip_concat]
      exact ih

/-- Slashes behind a text are stripped, all of them. -/
theorem rstrip_append_slashes {base : Str} (hend : base.getLast? ≠ some slash) (n : Nat) :
    rstrip (base ++ slashes n) = base := by
  induction n with
  | zero =>
      rw [slashes, List.replicate_zero, List.append_nil]
      exact (trimRight_eq_self_iff slash).mpr hend
  | succ n ih =>
      rw [slashes, List.replicate_succ', ← List.append_assoc, rstrip_concat]
      exact ih

/-- Everything up to the last slash, for a last component without one. -/
theorem upToSlash_append {head name : Str} (hname : slash ∉ name)
    (hhead : head = [] ∨ head.getLast? = some slash) :
    ((head ++ name).reverse.dropWhile (fun c => decide (c ≠ slash))).reverse = head := by
  have hall : ∀ c ∈ name.reverse, decide (c ≠ slash) = true := by
    intro c hc
    have hne : c ≠ slash := by
      rintro rfl
      exact hname (List.mem_reverse.mp hc)
    exact decide_eq_true hne
  rw [List.reverse_append, List.dropWhile_append_of_pos hall]
  rcases hhead with rfl | hlast
  · rfl
  · cases hrev : head.reverse with
    | nil => rw [List.reverse_eq_nil_iff.mp hrev] at hlast; cases hlast
    | cons c l =>
        have hc : c = slash := by
          rw [← List.head?_reverse, hrev] at hlast
          exact Option.some.inj hlast
        rw [List.dropWhile_cons_of_neg (by simp [hc]), ← hrev, List.reverse_reverse]

/-! ## One step up -/

/-- Where only slashes are left, a step up leads nowhere. -/
theorem splitHead_slashes_append {n : Nat} {name : Str} (hname : slash ∉ name) :
    splitHead (slashes n ++ name) = slashes n := by
  have hhead : slashes n = [] ∨ (slashes n).getLast? = some slash := by
    cases n with
    | zero => exact Or.inl rfl
    | succ n => exact Or.inr (by simp [List.getLast?_replicate])
  rw [splitHead, upToSlash_append hname hhead]
  exact if_pos (rstrip_slashes n)

/-- Otherwise the slashes before the last component go, too. -/
theorem splitHead_base {base name : Str} {n : Nat} (hne : base ≠ [])
    (hend : base.getLast? ≠ some slash) (hname : slash ∉ name) :
    splitHead (base ++ slashes (n + 1) ++ name) = base := by
  have hhead : (base ++ slashes (n + 1)).getLast? = some slash := by
    simp [List.getLast?_append, List.getLast?_replicate]
  rw [splitHead, upToSlash_append hname (Or.inr hhead), rstrip_append_slashes hend]
  exact if_neg hne

/-- **What stands before the last component** of a path: slashes only, or a
    shorter path and slashes. -/
theorem path_shape (p : Str) :
    (∃ n name, slash ∉ name ∧ p = slashes n ++ name)
    ∨ ∃ base n name, base ≠ [] ∧ base.getLast? ≠ some slash ∧ slash ∉ name
        ∧ p = base ++ slashes (n + 1) ++ name := by
  induction p using List.reverseRecOn with
  | nil => exact Or.inl ⟨0, [], List.not_mem_nil, rfl⟩
  | append_singleton p c ih =>
      by_cases hc : c = slash
      · subst hc
        obtain ⟨n, hn⟩ := trimRight_append slash p
        have hlast : (rstrip p).getLast? ≠ some slash := getLast?_trimRight slash p
        by_cases hnil : rstrip p = []
        · refine Or.inl ⟨n + 1, [], List.not_mem_nil, ?_⟩
          rw [hn, show trimRight slash p = [] from hnil, List.nil_append, List.append_nil,
            slashes, List.replicate_succ']
        · refine Or.inr ⟨rstrip p, n, [], hnil, hlast, List.not_mem_nil, ?_⟩
          rw [List.append_nil, slashes, List.replicate_succ', ← List.append_assoc]
          exact congrArg (· ++ [slash]) hn
      · -- the last component grows
        have hname {name : Str} (h : slash ∉ name) : slash ∉ name ++ [c] := by
          simpa [h] using fun h : slash = c => hc h.symm
        rcases ih with ⟨n, name, hfree, rfl⟩ | ⟨base, n, name, hne, hend, hfree, rfl⟩
        · exact Or.inl ⟨n, name ++ [c], hname hfree, by simp⟩
        · exact Or.inr ⟨base, n, name ++ [c], hne, hend, hname hfree, by simp⟩

/-! ## Ancestors -/

/-- Where only slashes are left, they are the only ancestor. -/
theorem ancestor_slashes {n : Nat} {name a : Str} (hname : slash ∉ name) :
    Ancestor a (slashes n ++ name) ↔ a ≠ [] ∧ a = slashes n := by
  have hlead : leading (slashes n ++ name) = slashes n := by
    refine leading_slashes_append ?_
    intro h
    cases name with
    | nil => cases h
    | cons c name => exact hname (Option.some.inj h ▸ List.mem_cons_self)
  rw [Ancestor, hlead]
  refine and_congr_right (fun hne => ⟨?_, Or.inl⟩)
  rintro (h | ⟨hend, hpre⟩)
  · exact h
  · -- a slash in front of the name follows slashes
    exfalso
    rcases Nat.lt_or_ge a.length n with hlt | hge
    · have ha : a <+: slashes n :=
        List.prefix_of_prefix_length_le ((List.prefix_append a [slash]).trans hpre)
          (List.prefix_append _ _) (by simpa using Nat.le_of_lt hlt)
      obtain ⟨k, -, rfl⟩ : ∃ k ≤ n, a = slashes k := by
        refine ⟨a.length, by omega, List.eq_replicate_of_mem ?_⟩
        intro c hc
        exact List.eq_of_mem_replicate (ha.subset hc)
      cases k with
      | zero => exact hne rfl
      | succ k => exact hend (by simp [List.getLast?_replicate])
    · obtain ⟨rest, hrest⟩ := hpre
      have ha : slashes n <+: a :=
        List.prefix_of_prefix_length_le (List.prefix_append _ _)
          ⟨[slash] ++ rest, by rw [← List.append_assoc]; exact hrest⟩ (by simpa using hge)
      obtain ⟨more, rfl⟩ := ha
      have hname' : more ++ [slash] ++ rest = name := by
        simpa [List.append_assoc] using hrest
      exact hname (hname' ▸ by simp)

/-- A longer path has its base as an ancestor, and the base's ancestors. -/
theorem ancestor_base {base name a : Str} {n : Nat} (hne : base ≠ [])
    (hend : base.getLast? ≠ some slash) (hname : slash ∉ name) :
    Ancestor a (base ++ slashes (n + 1) ++ name) ↔ a = base ∨ Ancestor a base := by
  obtain ⟨k, t, rfl, ht⟩ := exists_leading base
  have htne : t ≠ [] := by
    rintro rfl
    cases k with
    | zero => exact hne rfl
    | succ k => exact hend (by simp [List.getLast?_replicate])
  have hlead : leading (slashes k ++ t ++ slashes (n + 1) ++ name) = slashes k := by
    rw [List.append_assoc, List.append_assoc]
    refine leading_slashes_append ?_
    cases t with
    | nil => exact absurd rfl htne
    | cons c t => exact ht
  have hlead' : leading (slashes k ++ t) = slashes k := leading_slashes_append ht
  rw [Ancestor, Ancestor, hlead, hlead']
  constructor
  · rintro ⟨hane, hlead | ⟨haend, hpre⟩⟩
    · exact Or.inr ⟨hane, Or.inl hlead⟩
    · rcases Nat.lt_trichotomy a.length (slashes k ++ t).length with hlt | heq | hgt
      · refine Or.inr ⟨hane, Or.inr ⟨haend, ?_⟩⟩
        exact List.prefix_of_prefix_length_le hpre (prefix_append_append _ _ _)
          (by rw [List.length_append]; exact hlt)
      · refine Or.inl (List.IsPrefix.eq_of_length ?_ heq)
        exact List.prefix_of_prefix_length_le ((List.prefix_append a [slash]).trans hpre)
          (prefix_append_append _ _ _) (Nat.le_of_eq heq)
      · -- what reaches into the slashes or the name is no ancestor
        exfalso
        have hbase : slashes k ++ t <+: a :=
          List.prefix_of_prefix_length_le (prefix_append_append _ _ _)
            ((List.prefix_append a [slash]).trans hpre) (Nat.le_of_lt hgt)
        obtain ⟨more, rfl⟩ := hbase
        have hmore : more ≠ [] := by
          rintro rfl
          simp at hgt
        have hpre' : more ++ [slash] <+: slashes (n + 1) ++ name := by
          rw [List.append_assoc, List.append_assoc (slashes k ++ t)] at hpre
          exact (List.prefix_append_right_inj _).mp hpre
        have hanc : Ancestor more (slashes (n + 1) ++ name) := by
          refine ⟨hmore, Or.inr ⟨?_, hpre'⟩⟩
          intro hlast
          exact haend (by rw [List.getLast?_append_of_ne_nil _ hmore]; exact hlast)
        have hslashes := ((ancestor_slashes hname).mp hanc).2
        rw [hslashes] at haend
        exact haend (by simp [List.getLast?_append, List.getLast?_replicate])
  · rintro (rfl | ⟨hane, hlead | ⟨haend, hpre⟩⟩)
    · exact ⟨hne, Or.inr ⟨hend, slashes n ++ name, by simp [slashes, List.replicate_succ]⟩⟩
    · exact ⟨hane, Or.inl hlead⟩
    · exact ⟨hane, Or.inr ⟨haend, hpre.trans (prefix_append_append _ _ _)⟩⟩

/-- **One step up leaves exactly the ancestors**: the next one and its own. -/
theorem ancestor_splitHead (a p : Str) :
    Ancestor a p ↔ a ≠ [] ∧ (a = splitHead p ∨ Ancestor a (splitHead p)) := by
  rcases path_shape p with ⟨n, name, hname, rfl⟩ | ⟨base, n, name, hne, hend, hname, rfl⟩
  · rw [splitHead_slashes_append hname, ancestor_slashes hname]
    refine and_congr_right (fun ha => ⟨Or.inl, ?_⟩)
    rintro (h | h)
    · exact h
    · have h' : Ancestor a (slashes n ++ []) := by rwa [List.append_nil]
      exact ((ancestor_slashes List.not_mem_nil).mp h').2
  · rw [splitHead_base hne hend hname, ancestor_base hne hend hname]
    constructor
    · rintro (rfl | h)
      · exact ⟨hne, Or.inl rfl⟩
      · exact ⟨h.1, Or.inr h⟩
    · rintro ⟨-, h⟩
      exact h

/-- A step up shortens the path, until only slashes are left. -/
theorem splitHead_cases (p : Str) :
    (∃ n, p = slashes n) ∨ (splitHead p).length < p.length ∧ splitHead p <+: p := by
  rcases path_shape p with ⟨n, name, hname, rfl⟩ | ⟨base, n, name, hne, hend, hname, rfl⟩
  · rw [splitHead_slashes_append hname]
    cases name with
    | nil => exact Or.inl ⟨n, List.append_nil _⟩
    | cons c name => exact Or.inr ⟨by simp, List.prefix_append _ _⟩
  · rw [splitHead_base hne hend hname]
    refine Or.inr ⟨?_, prefix_append_append _ _ _⟩
    rw [List.length_append, List.length_append, slashes, List.length_replicate]
    omega

/-- Two leading slashes are never walked off. -/
theorem doubled_splitHead {p : Str} (h : slashes 2 <+: p) : slashes 2 <+: splitHead p := by
  rcases path_shape p with ⟨n, name, hname, rfl⟩ | ⟨base, n, name, hne, hend, hname, rfl⟩
  · rw [splitHead_slashes_append hname]
    match n, h with
    | 0, ⟨rest, hrest⟩ =>
        exact absurd (show slash ∈ name by rw [← show _ = name from hrest]; simp) hname
    | 1, ⟨rest, hrest⟩ =>
        have hrest : slash :: slash :: rest = slash :: name := hrest
        exact absurd (show slash ∈ name by rw [← (List.cons.inj hrest).2]; simp) hname
    | n + 2, _ => exact ⟨slashes n, rfl⟩
  · rw [splitHead_base hne hend hname]
    refine List.prefix_of_prefix_length_le h ⟨slashes (n + 1) ++ name, by simp⟩ ?_
    -- one character of the base cannot be a slash
    match base, hne, hend, h with
    | [c], _, hend, ⟨rest, hrest⟩ =>
        have hc : slash = c := (List.cons.inj hrest).1
        exact absurd (congrArg some hc.symm) hend
    | _ :: _ :: base, _, _, _ => simp [slashes]

end PosixPath
