import Custodia.SeparatedNames

/-! # PosixPath — the path operations of `os.path` on Python text

    Python text is a list of characters. Store keys are built by
    `os.path.join` over client-chosen segments, and the one rule that matters
    is that an ABSOLUTE segment discards everything before it.

    * `within_join`: relative segments never leave the subtree they start in;
    * `join_absolute`: one absolute segment makes the whole key absolute;
    * `join_proper`: on proper names, `join` is plain spelling. -/

namespace PosixPath

open SeparatedNames

/-- Python text. -/
abbrev Str := List Char

/-- Whether a text is one of some texts can be computed. -/
instance decidableMemText (s : Str) (texts : List Str) : Decidable (s ∈ texts) :=
  inferInstance

/-- `'/'`. -/
abbrev slash : Char := '/'

/-- `s.startswith('/')`. -/
def isAbsolute (s : Str) : Bool := s.head? == some slash

/-- `s.endswith('/')`. -/
def endsInSlash (s : Str) : Bool := s.getLast? == some slash

/-- One component of `posixpath.join`. -/
def joinStep (path b : Str) : Str :=
  if isAbsolute b then b
  else if path = [] ∨ endsInSlash path then path ++ b
  else path ++ slash :: b

/-- `os.path.join(a, *p)`. -/
def join (a : Str) (p : List Str) : Str := p.foldl joinStep a

/-- `s.rstrip('/')`. -/
def rstrip (s : Str) : Str := trimRight slash s

/-- `s.lstrip('/')`. -/
def lstrip (s : Str) : Str := trimLeft slash s

/-- `os.path.split(p)[0]`: everything up to the last slash, with trailing
    slashes removed unless the head consists of slashes only. -/
def splitHead (p : Str) : Str :=
  let head := (p.reverse.dropWhile (fun c => decide (c ≠ slash))).reverse
  if rstrip head = [] then head else rstrip head

@[simp] theorem join_nil (a : Str) : join a [] = a := rfl
@[simp] theorem join_cons (a b : Str) (p : List Str) :
    join a (b :: p) = join (joinStep a b) p := rfl

/-- Joining goes from left to right, so it can be done in two parts. -/
theorem join_append (a : Str) (p q : List Str) : join a (p ++ q) = join (join a p) q :=
  List.foldl_append

/-- An absolute part discards everything before it. -/
theorem joinStep_absolute {path b : Str} (h : isAbsolute b = true) : joinStep path b = b :=
  if_pos h

/-- A relative part is put behind a slash, where there is none yet. -/
theorem joinStep_inside {path b : Str} (h : isAbsolute b = false) (hne : path ≠ [])
    (hend : endsInSlash path = false) : joinStep path b = path ++ slash :: b := by
  rw [joinStep, if_neg (by rw [h]; exact Bool.false_ne_true)]
  exact if_neg (by simp [hne, hend])

/-- A relative part is put directly behind a slash. -/
theorem joinStep_closed {path b : Str} (h : isAbsolute b = false)
    (hend : endsInSlash path = true) : joinStep path b = path ++ b := by
  rw [joinStep, if_neg (by rw [h]; exact Bool.false_ne_true)]
  exact if_pos (Or.inr hend)

/-- An absolute path begins with a slash. -/
theorem isAbsolute_iff {s : Str} : isAbsolute s = true ↔ ∃ t, s = slash :: t := by
  cases s with
  | nil => simp [isAbsolute]
  | cons c t => simp [isAbsolute]

/-- A path that ends in a slash has it as its last character. -/
theorem endsInSlash_iff {s : Str} : endsInSlash s = true ↔ s.getLast? = some slash := by
  simp [endsInSlash]

/-- What begins with a slash still does so with something behind it. -/
theorem isAbsolute_append {s : Str} (t : Str) (h : isAbsolute s = true) :
    isAbsolute (s ++ t) = true := by
  obtain ⟨r, rfl⟩ := isAbsolute_iff.mp h
  exact isAbsolute_iff.mpr ⟨r ++ t, rfl⟩

/-- A name without slashes is not absolute. -/
theorem isAbsolute_of_not_mem {s : Str} (h : slash ∉ s) : isAbsolute s = false := by
  cases hs : isAbsolute s with
  | false => rfl
  | true =>
      obtain ⟨t, rfl⟩ := isAbsolute_iff.mp hs
      exact absurd List.mem_cons_self h

/-- A text with a slash behind it ends in a slash. -/
theorem endsInSlash_concat (s : Str) : endsInSlash (s ++ [slash]) = true := by
  simp [endsInSlash]

/-! ## Joining inside a subtree -/

/-- One relative component stays in the subtree. -/
theorem within_joinStep {base path b : Str} (hne : base ≠ [])
    (hend : endsInSlash base = false) (hb : isAbsolute b = false)
    (h : Within slash base path) : Within slash base (joinStep path b) := by
  rcases h with rfl | hpre
  · rw [joinStep_inside hb hne hend]
    exact Or.inr ⟨b, by simp⟩
  · have hpne : path ≠ [] := by
      rintro rfl
      exact absurd hpre (by simp)
    cases hp : endsInSlash path with
    | false =>
        rw [joinStep_inside hb hpne hp]
        exact within_append slash (slash :: b) hpre
    | true =>
        rw [joinStep_closed hb hp]
        exact within_append slash b hpre

/-- **Relative segments never leave the subtree they start in.** Only an
    absolute one does, as joining drops all that stands before it. -/
theorem within_join {base : Str} (hne : base ≠ []) (hend : endsInSlash base = false) :
    ∀ (p : List Str) (path : Str), (∀ b ∈ p, isAbsolute b = false) →
      Within slash base path → Within slash base (join path p) := by
  intro p
  induction p with
  | nil => intro path _ h; exact h
  | cons b p ih =>
      intro path hp h
      refine ih (joinStep path b) (fun c hc => hp c (List.mem_cons_of_mem _ hc)) ?_
      exact within_joinStep hne hend (hp b List.mem_cons_self) h

/-- Relative components only extend a path. -/
theorem prefix_joinStep {path b : Str} (hb : isAbsolute b = false) :
    path <+: joinStep path b := by
  rw [joinStep, if_neg (by rw [hb]; exact Bool.false_ne_true)]
  split_ifs
  · exact List.prefix_append path b
  · exact List.prefix_append path (slash :: b)

/-- Joining relative parts to a path only puts something behind it. -/
theorem prefix_join :
    ∀ (p : List Str) (path : Str), (∀ b ∈ p, isAbsolute b = false) → path <+: join path p := by
  intro p
  induction p with
  | nil => intro path _; exact List.prefix_refl path
  | cons b p ih =>
      intro path hp
      exact (prefix_joinStep (hp b List.mem_cons_self)).trans
        (ih (joinStep path b) (fun c hc => hp c (List.mem_cons_of_mem _ hc)))

/-- Removing trailing slashes does not leave a subtree. -/
theorem within_rstrip {base t : Str} (hend : endsInSlash base = false)
    (h : Within slash base t) : Within slash base (rstrip t) := by
  have hbase : rstrip base = base := by
    refine (trimRight_eq_self_iff slash).mpr ?_
    intro hlast
    rw [endsInSlash_iff.mpr hlast] at hend
    exact nomatch hend
  rcases h with rfl | ⟨rest, rfl⟩
  · rw [hbase]
    exact Or.inl rfl
  · induction rest using List.reverseRecOn with
    | nil =>
        rw [List.append_nil, show rstrip (base ++ [slash]) = rstrip base from
          trimRight_concat slash base, hbase]
        exact Or.inl rfl
    | append_singleton rest c ih =>
        by_cases hc : c = slash
        · subst hc
          rw [← List.append_assoc, show rstrip (base ++ [slash] ++ rest ++ [slash])
            = rstrip (base ++ [slash] ++ rest) from trimRight_concat slash _]
          exact ih
        · have hself : rstrip (base ++ [slash] ++ (rest ++ [c]))
              = base ++ [slash] ++ (rest ++ [c]) :=
            (trimRight_eq_self_iff slash).mpr (by
              rw [← List.append_assoc, List.getLast?_concat]
              exact fun h => hc (Option.some.inj h))
          rw [hself]
          exact Or.inr (List.prefix_append _ _)

/-- An absolute path stays absolute. -/
theorem isAbsolute_join :
    ∀ (p : List Str) (path : Str), isAbsolute path = true →
      isAbsolute (join path p) = true := by
  intro p
  induction p with
  | nil => intro path h; exact h
  | cons b p ih =>
      intro path h
      refine ih (joinStep path b) ?_
      rw [joinStep]
      split_ifs with hb hc
      · exact hb
      · exact isAbsolute_append b h
      · exact isAbsolute_append (slash :: b) h

/-- **One absolute segment makes the whole path absolute.** Whatever stands
    before it is dropped, the fixed root of the keys included. -/
theorem join_absolute {p : List Str} {b : Str} (hb : b ∈ p) (habs : isAbsolute b = true)
    (path : Str) : isAbsolute (join path p) = true := by
  obtain ⟨l, r, rfl⟩ := List.append_of_mem hb
  rw [join_append, join_cons, joinStep_absolute habs]
  exact isAbsolute_join r b habs

/-! ## Joining proper names -/

/-- A proper name is not absolute, as it holds no slash. -/
theorem proper_relative {s : Str} (h : Proper slash s) : isAbsolute s = false :=
  isAbsolute_of_not_mem h.2

/-- Proper names spell a text that is not empty. -/
theorem spell_ne_nil {names : List Str} (hn : names ≠ []) (h : ∀ s ∈ names, Proper slash s) :
    spell slash names ≠ [] := by
  cases names with
  | nil => exact absurd rfl hn
  | cons a names =>
      have ha := (h a List.mem_cons_self).1
      cases names with
      | nil => rw [spell_singleton]; exact ha
      | cons b names => rw [spell_cons slash a (List.cons_ne_nil b names)]; simp

/-- The last character of spelled proper names is one of the last name, and no
    slash. -/
theorem getLast?_spell {names : List Str} (hn : names ≠ []) (h : ∀ s ∈ names, Proper slash s) :
    (spell slash names).getLast? ≠ some slash := by
  induction names with
  | nil => exact absurd rfl hn
  | cons a names ih =>
      have ha := h a List.mem_cons_self
      cases names with
      | nil =>
          rw [spell_singleton]
          exact getLast?_ne_of_not_mem slash ha.2
      | cons b names =>
          have hrest : ∀ s ∈ b :: names, Proper slash s :=
            fun s hs => h s (List.mem_cons_of_mem _ hs)
          have hne := spell_ne_nil (List.cons_ne_nil b names) hrest
          rw [spell_cons slash a (List.cons_ne_nil b names), List.getLast?_append,
            List.getLast?_cons_of_ne_nil hne]
          intro heq
          cases hl : (spell slash (b :: names)).getLast? with
          | none => exact hne (List.getLast?_eq_none_iff.mp hl)
          | some c =>
              rw [hl] at heq
              exact ih (List.cons_ne_nil b names) hrest (hl.trans heq)

/-- Proper names spell a text that ends in no slash. -/
theorem endsInSlash_spell {names : List Str} (hn : names ≠ [])
    (h : ∀ s ∈ names, Proper slash s) : endsInSlash (spell slash names) = false := by
  cases hs : endsInSlash (spell slash names) with
  | false => rfl
  | true => exact absurd (endsInSlash_iff.mp hs) (getLast?_spell hn h)

/-- Joining a proper name to a spelled path spells the longer path. -/
theorem joinStep_spell {names : List Str} {s : Str} (hn : names ≠ [])
    (h : ∀ s ∈ names, Proper slash s) (hs : isAbsolute s = false) :
    joinStep (spell slash names) s = spell slash names ++ slash :: s :=
  joinStep_inside hs (spell_ne_nil hn h) (endsInSlash_spell hn h)

/-- **On proper names, `join` is spelling**, so that all that is known of
    spelled paths holds of the keys made by `os.path.join`. -/
theorem join_proper :
    ∀ (p names : List Str), names ≠ [] → (∀ s ∈ names, Proper slash s) →
      (∀ s ∈ p, Proper slash s) →
      join (spell slash names) p = spell slash (names ++ p) := by
  intro p
  induction p with
  | nil => intro names _ _ _; rw [join_nil, List.append_nil]
  | cons b p ih =>
      intro names hn h hp
      have hb := hp b List.mem_cons_self
      rw [join_cons, joinStep_spell hn h (proper_relative hb),
        show spell slash names ++ slash :: b = spell slash (names ++ [b]) from by
          rw [spell_append slash hn (List.cons_ne_nil b []), spell_singleton],
        ih (names ++ [b]) (by simp) ?_ (fun s hs => hp s (List.mem_cons_of_mem _ hs))]
      · simp
      · intro s hs
        rcases List.mem_append.mp hs with hs | hs
        · exact h s hs
        · rw [List.mem_singleton.mp hs]
          exact hb

/-- A trailing empty segment appends one slash to a spelled path. -/
theorem joinStep_spell_nil {names : List Str} (hn : names ≠ [])
    (h : ∀ s ∈ names, Proper slash s) :
    joinStep (spell slash names) [] = spell slash names ++ [slash] :=
  joinStep_spell hn h rfl

/-- There are no slashes to be stripped at the end of spelled proper names. -/
theorem rstrip_spell {names : List Str} (hn : names ≠ [])
    (h : ∀ s ∈ names, Proper slash s) : rstrip (spell slash names) = spell slash names :=
  (trimRight_eq_self_iff slash).mpr (getLast?_spell hn h)

/-- Stripping removes one slash like many. -/
theorem rstrip_concat (s : Str) : rstrip (s ++ [slash]) = rstrip s :=
  trimRight_concat slash s

end PosixPath
