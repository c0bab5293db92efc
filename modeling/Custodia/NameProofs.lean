import Custodia.SecretsConsumer

/-! # NameProofs — the secrets a name stands for

    A request is signed and audited under the name of its trail, the segments
    joined by slashes. The store key is another join of the same segments:
    a segment that begins with a slash discards those before it, and an empty
    one may vanish.

    * `join_plain`: without doubled slashes, the two joins agree;
    * `joinSlash_absolute`: a trail of the name whose key is outside `keys`;
    * `identifies_one_iff`: which names have one key. -/

namespace NameProofs

open SeparatedNames PosixPath PyValues SecretsConsumer

/-- The trails that a name stands for, of two segments at least, as the consumer
    asks of every trail of a secret. The records quote the name and not the
    trail. -/
structure TrailOf (name : Str) (trail : List Str) : Prop where
  long : 2 ≤ trail.length
  name : joinSlash trail = name

/-- The name identifies a secret: its trails have one store key. -/
def IdentifiesOne (name : Str) : Prop :=
  ∀ trail other, TrailOf name trail → TrailOf name other → dbKey trail = dbKey other

/-- Two slashes in a row. -/
def doubled : Str := [slash, slash]

/-- No trail of the name has an absolute segment: the name has no doubled
    slash, and does not begin with a slash unless that is its only one. -/
structure Unmistakable (name : Str) : Prop where
  notDoubled : ¬ doubled <:+: name
  notRooted : isAbsolute name = true → name.count slash ≤ 1

/-! ## Names that identify -/

/-- A trail that has a name has two segments at least. -/
theorem TrailOf.ne_nil {name : Str} {trail : List Str} (h : TrailOf name trail) : trail ≠ [] := by
  rintro rfl
  exact nomatch h.long

/-- A trail that has a name has a key. -/
theorem TrailOf.dbKey_eq {name : Str} {trail : List Str} (h : TrailOf name trail) :
    dbKey trail = .ok (join "keys" trail) :=
  if_neg (Nat.not_lt.mpr h.long)

/-- An absolute segment puts two slashes into the name. -/
theorem doubled_of_absolute {b : Str} (t : Str) (h : isAbsolute b = true) :
    doubled <:+: slash :: (b ++ t) := by
  obtain ⟨r, rfl⟩ := isAbsolute_iff.mp h
  exact ⟨[], r ++ t, rfl⟩

/-- A segment that ends in a slash puts two slashes into the name, where another
    one follows. -/
theorem doubled_of_endsInSlash {b : Str} (t : Str) (h : endsInSlash (slash :: b) = true) :
    doubled <:+: slash :: (b ++ slash :: t) := by
  obtain ⟨init, hinit⟩ := List.getLast?_eq_some_iff.mp (endsInSlash_iff.mp h)
  refine ⟨init, t, ?_⟩
  calc init ++ doubled ++ t = (init ++ [slash]) ++ slash :: t := by simp [doubled]
    _ = (slash :: b) ++ slash :: t := by rw [hinit]

/-- A name ends as its last part does, if that is not empty. -/
theorem endsInSlash_append {path b : Str} (hne : b ≠ []) :
    endsInSlash (path ++ b) = endsInSlash b := by
  rw [endsInSlash, endsInSlash, List.getLast?_append_of_ne_nil path hne]

/-- **Without doubled slashes, joining is spelling.** Then the key of a trail
    can be cut at its slashes, and the name determines it. -/
theorem join_plain :
    ∀ (trail : List Str) (path : Str), trail ≠ [] → path ≠ [] → endsInSlash path = false →
      ¬ doubled <:+: slash :: joinSlash trail →
      join path trail = path ++ slash :: joinSlash trail := by
  intro trail
  induction trail with
  | nil => intro path hne; exact absurd rfl hne
  | cons b rest ih =>
      intro path _ hpath hend hplain
      have hrelative (t : Str) (h : ¬ doubled <:+: slash :: (b ++ t)) : isAbsolute b = false := by
        cases hb : isAbsolute b with
        | false => rfl
        | true => exact absurd (doubled_of_absolute t hb) h
      cases rest with
      | nil =>
          rw [show joinSlash [b] = b from spell_singleton slash b] at hplain ⊢
          exact joinStep_inside (hrelative [] (by rwa [List.append_nil])) hpath hend
      | cons c rest =>
          have hname : joinSlash (b :: c :: rest) = b ++ slash :: joinSlash (c :: rest) :=
            spell_cons slash b (List.cons_ne_nil c rest)
          rw [hname] at hplain ⊢
          have hopen : endsInSlash (path ++ slash :: b) = false := by
            rw [endsInSlash_append (List.cons_ne_nil slash b)]
            cases hb : endsInSlash (slash :: b) with
            | false => rfl
            | true => exact absurd (doubled_of_endsInSlash (joinSlash (c :: rest)) hb) hplain
          -- what follows the segment is no more doubled than the whole
          have hrest : ¬ doubled <:+: slash :: joinSlash (c :: rest) := by
            intro h
            exact hplain (h.trans (List.infix_append (slash :: b) _ [] |>.trans (by simp)))
          rw [join_cons, joinStep_inside (hrelative _ hplain) hpath hend,
            ih (path ++ slash :: b) (List.cons_ne_nil c rest) (by simp) hopen hrest]
          simp

/-- A name with one slash has one trail. -/
theorem trail_unique {name : Str} (hcount : name.count slash ≤ 1) {trail other : List Str}
    (h : TrailOf name trail) (h' : TrailOf name other) : trail = other := by
  have hfree {t : List Str} (ht : TrailOf name t) : ∀ s ∈ t, slash ∉ s := by
    refine free_of_count_spell slash ht.ne_nil ?_
    have hlong := ht.long
    rw [show spell slash t = name from ht.name]
    omega
  exact spell_inj slash h.ne_nil h'.ne_nil (hfree h) (hfree h') (h.name.trans h'.name.symm)

/-- **An unmistakable name identifies one entry**: its slashes are all
    separators, and so the trail can be read from it. -/
theorem identifiesOne_of_unmistakable {name : Str} (h : Unmistakable name) :
    IdentifiesOne name := by
  intro trail other ht ho
  by_cases hcount : name.count slash ≤ 1
  · -- there is only one way to cut the name
    rw [trail_unique hcount ht ho]
  · have hrelative : isAbsolute name = false := by
      cases habs : isAbsolute name with
      | false => rfl
      | true => exact absurd (h.notRooted habs) hcount
    -- the slash that is put before the name does not double another one
    have hplain : ¬ doubled <:+: slash :: name := by
      intro hdoubled
      rcases List.infix_cons_iff.mp hdoubled with hpre | hinfix
      · obtain ⟨r, hr⟩ := hpre
        have hname : name = slash :: r := (List.cons.inj hr).2.symm
        rw [isAbsolute_iff.mpr ⟨r, hname⟩] at hrelative
        exact nomatch hrelative
      · exact h.notDoubled hinfix
    have hkey {t : List Str} (h : TrailOf name t) :
        dbKey t = .ok ("keys" ++ slash :: name) := by
      rw [h.dbKey_eq, join_plain t "keys" h.ne_nil (List.cons_ne_nil _ _) rfl
        (by rwa [h.name]), h.name]
    rw [hkey ht, hkey ho]

/-! ## Names that do not -/

/-- **A mistakable name has a trail with an absolute segment**, which can be
    read off where its slashes are doubled, or at its beginning. -/
theorem absolute_trail {name : Str} (h : ¬ Unmistakable name) :
    ∃ trail, TrailOf name trail ∧ ∃ b ∈ trail, isAbsolute b = true := by
  by_cases hdoubled : doubled <:+: name
  · -- cut between the two slashes
    obtain ⟨u, v, rfl⟩ := hdoubled
    refine ⟨[u, slash :: v], ⟨Nat.le_refl 2, ?_⟩, slash :: v, by simp, rfl⟩
    show spell slash [u, slash :: v] = _
    rw [spell_cons slash u (List.cons_ne_nil _ _), spell_singleton]
    simp [doubled]
  · by_cases habs : isAbsolute name = true
    · have hcount : ¬ name.count slash ≤ 1 := fun hcount => h ⟨hdoubled, fun _ => hcount⟩
      obtain ⟨rest, rfl⟩ := isAbsolute_iff.mp habs
      have hmem : slash ∈ rest := by
        rw [← List.count_pos_iff]
        rw [List.count_cons_self] at hcount
        omega
      -- cut at the second slash
      obtain ⟨u, v, rfl⟩ := List.append_of_mem hmem
      refine ⟨[slash :: u, v], ⟨Nat.le_refl 2, ?_⟩, slash :: u, by simp, rfl⟩
      show spell slash [slash :: u, v] = _
      rw [spell_cons slash _ (List.cons_ne_nil _ _), spell_singleton]
      rfl
    · exact absurd ⟨hdoubled, fun h => absurd h habs⟩ h

/-- A name with a slash has a trail of plain segments. -/
theorem plain_trail {name : Str} (hmem : slash ∈ name) :
    ∃ trail, TrailOf name trail ∧ ∀ b ∈ trail, slash ∉ b := by
  obtain ⟨trail, hne, hfree, hname⟩ := exists_spell slash name
  have hcount := count_spell_of_free slash hne hfree
  have hpos := List.count_pos_iff.mpr hmem
  rw [hname] at hcount
  exact ⟨trail, ⟨by omega, hname⟩, hfree⟩

/-- The name of two segments holds a slash. -/
theorem slash_mem_name {name : Str} {trail : List Str} (h : TrailOf name trail) :
    slash ∈ name := by
  have hcount := count_spell slash h.ne_nil
  have hlong := h.long
  rw [show spell slash trail = name from h.name] at hcount
  exact List.count_pos_iff.mp (by omega)

/-- Plain segments stay below `keys`. -/
theorem join_plain_relative {trail : List Str} (h : ∀ b ∈ trail, slash ∉ b) :
    isAbsolute (join "keys" trail) = false := by
  have hpre := prefix_join trail "keys" (fun b hb => isAbsolute_of_not_mem (h b hb))
  obtain ⟨r, hr⟩ := hpre
  rw [← hr]
  rfl

/-- **HEADLINE — which names identify a secret**: exactly those none of whose
    trails has an absolute segment. -/
theorem identifies_one_iff (name : Str) : IdentifiesOne name ↔ Unmistakable name := by
  constructor
  · intro hone
    by_contra hbad
    obtain ⟨trail, ht, b, hb, habs⟩ := absolute_trail hbad
    -- the plain trail of the name has a key below `keys`, and the other has not
    obtain ⟨other, ho, hfree⟩ := plain_trail (slash_mem_name ht)
    have hkey : join "keys" trail = join "keys" other :=
      Except.ok.inj (ht.dbKey_eq.symm.trans ((hone trail other ht ho).trans ho.dbKey_eq))
    have hrelative := join_plain_relative hfree
    rw [← hkey, join_absolute hb habs] at hrelative
    exact nomatch hrelative
  · exact identifiesOne_of_unmistakable

/-- **Two secrets under one name**: `u//k` is the name of `keys/u/k` and of
    `/k`, which is not even below `keys`. -/
theorem two_secrets_one_name :
    joinSlash ["u", "", "k"] = joinSlash ["u", "/k"]
      ∧ dbKey ["u", "", "k"] = .ok "keys/u/k" ∧ dbKey ["u", "/k"] = .ok "/k"
      ∧ ¬ IdentifiesOne "u//k" := by
  refine ⟨rfl, rfl, rfl, fun hone => ?_⟩
  have hkey := hone ["u", "", "k"] ["u", "/k"] ⟨by decide, rfl⟩ ⟨by decide, rfl⟩
  exact absurd (Except.ok.inj hkey) (by decide)

end NameProofs
