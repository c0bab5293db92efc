import Custodia.SqliteStore

/-! # ContainerKeys — keys inside a container

    Which keys are beneath a container, and how keys that are joined from
    relative segments get there. Nothing is asked of the other segments: a
    container may be the root, or be reached through slashes.

    * `beneath_joinStep`: a name is joined beneath its container;
    * `upTo_join`: relative segments stay in the container;
    * `visible_up`: who sees a place in the container sees the container. -/

namespace ContainerKeys

open PosixPath PyValues SeparatedNames SqliteStore

/-! ## Keys in a container -/

/-- The key names something inside the container, at any depth. -/
def Beneath (path key : Str) : Prop :=
  key ≠ path ∧ key ≠ childPrefix path ∧ childPrefix path <+: key

/-- A parent check on this path succeeds: the container or something in it is
    stored. -/
def Visible (t : Table) (path : Str) : Prop := HasChild t path ∨ HasParent t path

variable {t : Table} {path key : Str}

/-- A key in the table that lies beneath a path is a child of it. -/
theorem hasChild_of_mem (hmem : key ∈ t) (h : Beneath path key) : HasChild t path :=
  ⟨key, hmem, h⟩

/-- A new row is the parent of the path that is its key, or that has its key
    with a slash behind it. -/
theorem hasParent_insert {v : SqlValue} :
    HasParent (t.insert key v) path ↔
      (path = key ∨ childPrefix path = key) ∨ HasParent t path := by
  rw [HasParent, HasParent, AList.mem_insert, AList.mem_insert]
  tauto

/-- A new row makes a child of every path that it lies beneath. -/
theorem hasChild_insert {v : SqlValue} :
    HasChild (t.insert key v) path ↔ Beneath path key ∨ HasChild t path := by
  constructor
  · rintro ⟨k, hk, hb⟩
    rcases (AList.mem_insert t).mp hk with rfl | hk
    · exact Or.inl hb
    · exact Or.inr ⟨k, hk, hb⟩
  · rintro (hb | ⟨k, hk, hb⟩)
    · exact ⟨key, (AList.mem_insert t).mpr (Or.inl rfl), hb⟩
    · exact ⟨k, (AList.mem_insert t).mpr (Or.inr hk), hb⟩

/-- No path lies beneath itself. -/
theorem not_beneath_self : ¬ Beneath path path := fun h => h.1 rfl

/-- Writing into a container does not make the container. -/
theorem hasParent_insert_beneath {v : SqlValue} (h : Beneath path key) :
    HasParent (t.insert key v) path ↔ HasParent t path := by
  rw [hasParent_insert]
  constructor
  · rintro ((rfl | rfl) | hp)
    · exact absurd rfl h.1
    · exact absurd rfl h.2.1
    · exact hp
  · exact Or.inr

/-- Removing the row of a container removes none of its children. -/
theorem hasChild_erase_self : HasChild (t.erase path) path ↔ HasChild t path := by
  constructor
  · rintro ⟨k, hk, hb⟩
    exact ⟨k, (AList.mem_erase.mp hk).2, hb⟩
  · rintro ⟨k, hk, hb⟩
    exact ⟨k, AList.mem_erase.mpr ⟨hb.1, hk⟩, hb⟩

/-! ## Keys along a trail -/

/-- A text is what is left without its trailing slashes, and the slashes. -/
theorem rstrip_spec (s : Str) : ∃ n, s = rstrip s ++ List.replicate n slash := by
  induction s using List.reverseRecOn with
  | nil => exact ⟨0, rfl⟩
  | append_singleton s c ih =>
      by_cases hc : c = slash
      · subst hc
        obtain ⟨n, hn⟩ := ih
        refine ⟨n + 1, ?_⟩
        rw [rstrip_concat, List.replicate_succ', ← List.append_assoc, ← hn]
      · refine ⟨0, ?_⟩
        have hself : rstrip (s ++ [c]) = s ++ [c] := by
          refine (trimRight_eq_self_iff slash).mpr ?_
          rw [List.getLast?_concat]
          exact fun h => hc (Option.some.inj h)
        rw [hself]
        simp

/-- A trailing empty segment adds no more than slashes. -/
theorem rstrip_joinStep_nil (path : Str) : rstrip (joinStep path []) = rstrip path := by
  cases hend : endsInSlash path with
  | true => rw [joinStep_closed rfl hend, List.append_nil]
  | false =>
      by_cases hne : path = []
      · subst hne
        rfl
      · rw [joinStep_inside rfl hne hend, rstrip_concat]

/-- What is left without trailing slashes ends in none. -/
theorem endsInSlash_rstrip (s : Str) : endsInSlash (rstrip s) = false := by
  cases h : endsInSlash (rstrip s) with
  | false => rfl
  | true => exact absurd (endsInSlash_iff.mp h) (getLast?_trimRight slash s)

/-- What follows a relative segment continues the container it is in. -/
theorem joinStep_below (path : Str) {s : Str} (hs : isAbsolute s = false) :
    ∃ rest, joinStep path s = childPrefix (rstrip path) ++ (rest ++ s) := by
  obtain ⟨n, hn⟩ := rstrip_spec path
  by_cases hroot : rstrip path = []
  · -- nothing but slashes: the root, which everything continues
    rw [hroot, List.nil_append] at hn
    refine ⟨path, ?_⟩
    rw [hroot, childPrefix, if_pos rfl, List.nil_append]
    cases n with
    | zero => rw [hn]; simp [joinStep, hs]
    | succ n =>
        refine joinStep_closed hs ?_
        rw [hn, List.replicate_succ']
        exact endsInSlash_concat _
  · rw [childPrefix, if_neg hroot]
    cases n with
    | zero =>
        have hself : path = rstrip path := by
          rw [List.replicate_zero, List.append_nil] at hn
          exact hn
        have hend : endsInSlash path = false := by rw [hself]; exact endsInSlash_rstrip path
        have hne : path ≠ [] := by rw [hself]; exact hroot
        refine ⟨[], ?_⟩
        rw [joinStep_inside hs hne hend, ← hself]
        simp
    | succ n =>
        have hend : endsInSlash path = true := by
          rw [hn, List.replicate_succ', ← List.append_assoc]
          exact endsInSlash_concat _
        refine ⟨List.replicate n slash, ?_⟩
        rw [joinStep_closed hs hend]
        calc path ++ s = rstrip path ++ List.replicate (n + 1) slash ++ s := by rw [← hn]
          _ = rstrip path ++ [slash] ++ (List.replicate n slash ++ s) := by
              rw [List.replicate_succ]
              simp

/-- The container, or a place in it. -/
def UpTo (path key : Str) : Prop := key = path ∨ childPrefix path <+: key

/-- What is at or below something is at or below whatever that is below. -/
theorem upTo_trans {a b key : Str} (hab : UpTo a b) (hb : UpTo b key) : UpTo a key := by
  rcases hab with rfl | hab
  · exact hb
  · rcases hb with rfl | hb
    · exact Or.inr hab
    · exact Or.inr ((hab.trans (prefix_childPrefix b)).trans hb)

/-- What is beneath a place in the container is beneath the container. -/
theorem beneath_of_upTo {a b key : Str} (hab : UpTo a b) (hb : Beneath b key) :
    Beneath a key := by
  rcases hab with rfl | hab
  · exact hb
  · obtain ⟨hne, hne', hpre⟩ := hb
    have hbkey : b <+: key := (prefix_childPrefix b).trans hpre
    have hlt : b.length < key.length := by
      refine lt_of_le_of_ne hbkey.length_le ?_
      intro hlen
      exact hne (hbkey.eq_of_length hlen).symm
    have hle : (childPrefix a).length ≤ b.length := hab.length_le
    have hle' : a.length ≤ (childPrefix a).length := (prefix_childPrefix a).length_le
    refine ⟨?_, ?_, hab.trans hbkey⟩
    · rintro rfl
      omega
    · rintro rfl
      omega

/-- **A path is visible exactly if a key lies at or below it**: `list` finds the
    row of the path itself, or one of its children. -/
theorem visible_iff {t : Table} {path : Str} : Visible t path ↔ ∃ key ∈ t, UpTo path key := by
  constructor
  · rintro (⟨key, hkey, -, -, hpre⟩ | hself | hslash)
    · exact ⟨key, hkey, Or.inr hpre⟩
    · exact ⟨path, hself, Or.inl rfl⟩
    · exact ⟨_, hslash, Or.inr (List.prefix_refl _)⟩
  · rintro ⟨key, hkey, hup⟩
    by_cases hpath : key = path
    · exact Or.inr (Or.inl (hpath ▸ hkey))
    by_cases hslash : key = childPrefix path
    · exact Or.inr (Or.inr (hslash ▸ hkey))
    · exact Or.inl ⟨key, hkey, hpath, hslash, hup.resolve_left hpath⟩

/-- **Who sees a place in the container sees the container**, since what is
    stored at or below the place is below the container. -/
theorem visible_up {t : Table} {a b : Str} (hab : UpTo a b) (h : Visible t b) : Visible t a := by
  obtain ⟨key, hkey, hup⟩ := visible_iff.mp h
  exact visible_iff.mpr ⟨key, hkey, upTo_trans hab hup⟩

/-- A name is joined beneath the container it is joined to, whether or not
    slashes are removed afterwards. -/
theorem beneath_joinStep (path : Str) {s : Str} (hs : isAbsolute s = false) (hne : s ≠ []) :
    Beneath (rstrip path) (joinStep path s) ∧ Beneath (rstrip path) (rstrip (joinStep path s)) := by
  obtain ⟨rest, hrest⟩ := joinStep_below path hs
  -- the name starts with a character that is not removed
  obtain ⟨a, s', rfl⟩ := List.exists_cons_of_ne_nil hne
  have ha : a ≠ slash := by
    rintro rfl
    exact absurd hs (by simp [isAbsolute])
  have hlonger : ∀ more,
      Beneath (rstrip path) (childPrefix (rstrip path) ++ (rest ++ a :: more)) := by
    intro more
    have hle : (rstrip path).length ≤ (childPrefix (rstrip path)).length :=
      (prefix_childPrefix _).length_le
    refine ⟨?_, ?_, List.prefix_append _ _⟩
    · intro h
      have hlen := congrArg List.length h
      simp only [List.length_append, List.length_cons] at hlen
      omega
    · intro h
      have hlen := congrArg List.length h
      simp only [List.length_append, List.length_cons] at hlen
      omega
  have hstrip : ∀ more : Str, ∃ more', rstrip (childPrefix (rstrip path) ++ (rest ++ a :: more))
      = childPrefix (rstrip path) ++ (rest ++ a :: more') := by
    intro more
    induction more using List.reverseRecOn with
    | nil =>
        refine ⟨[], (trimRight_eq_self_iff slash).mpr ?_⟩
        rw [← List.append_assoc, List.getLast?_concat]
        exact fun h => ha (Option.some.inj h)
    | append_singleton more c ih =>
        have hassoc : childPrefix (rstrip path) ++ (rest ++ a :: (more ++ [c]))
            = childPrefix (rstrip path) ++ (rest ++ a :: more) ++ [c] := by simp
        by_cases hc : c = slash
        · subst hc
          rw [hassoc, rstrip_concat]
          exact ih
        · refine ⟨more ++ [c], (trimRight_eq_self_iff slash).mpr ?_⟩
          rw [hassoc, List.getLast?_concat]
          exact fun h => hc (Option.some.inj h)
  rw [hrest]
  refine ⟨hlonger s', ?_⟩
  obtain ⟨more, hmore⟩ := hstrip s'
  rw [hmore]
  exact hlonger more

/-- Going down relative segments stays in the container. -/
theorem upTo_join :
    ∀ (p : List Str) (path : Str), (∀ s ∈ p, isAbsolute s = false) →
      UpTo (rstrip path) (rstrip (join path p)) := by
  intro p
  induction p with
  | nil => intro path _; exact Or.inl rfl
  | cons s p ih =>
      intro path hp
      have hrest := ih (joinStep path s) (fun s' hs' => hp s' (List.mem_cons_of_mem _ hs'))
      have hthis : UpTo (rstrip path) (rstrip (joinStep path s)) := by
        by_cases hne : s = []
        · subst hne
          exact Or.inl (rstrip_joinStep_nil path)
        · exact Or.inr (beneath_joinStep path (hp s List.mem_cons_self) hne).2.2.2
      exact upTo_trans hthis hrest

end ContainerKeys
