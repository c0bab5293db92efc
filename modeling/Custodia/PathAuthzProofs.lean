import Custodia.PathAncestors
import Custodia.Authorizers

/-! # PathAuthzProofs — what the path authorizers decide

    `SimplePathAuthz` walks up the path of a request until an entry of its list
    turns up; `UserNameSpace` compares prefixes. Both are meant to judge whole
    path components.

    * `simplePath_granted`, `simplePath_none`, `simplePath_loops`: what the walk
      comes to, for every list and every path;
    * `simplePath_terminates_iff`: it ends unless it is caught in the leading
      slashes;
    * `simplePath_by_components`: where no segment is empty, whole components
      decide;
    * `judges_own_subtree_iff`: when `UserNameSpace` keeps to its subtree. -/

namespace PathAuthzProofs

open PosixPath SecretsConsumer Authorizers

/-! ## `SimplePathAuthz` -/

/-- `SimplePathAuthz.handle` with at most `fuel` steps of its walk; nothing is
    returned while it has not ended. -/
def simplePathWithin (paths : List Str) (fuel : Nat) (path : Str) : Option (Option Bool) :=
  if strictMatch paths path = true then some (some true) else pathWalk paths fuel path

/-- `handle` comes to an end. -/
def Terminates (paths : List Str) (path : Str) : Prop :=
  ∃ fuel verdict, simplePathWithin paths fuel path = some verdict

/-- The authorizer answers with the verdict of its walk, and passes the request
    on as it is. -/
theorem simplePathAuthz_handle (paths : List Str) (req : Request) :
    (simplePathAuthz paths).handle req
      = ((simplePathWithin paths (req.path.length + 2) req.path).getD none, req) := by
  rw [simplePathWithin]
  show (if strictMatch paths req.path = true then some true else _, req) = _
  by_cases hstrict : strictMatch paths req.path = true
  · rw [if_pos hstrict, if_pos hstrict]
    rfl
  · rw [if_neg hstrict, if_neg hstrict]

/-- An entry without its trailing dot. -/
def dropDot (entry : Str) : Str := if entry.getLast? = some '.' then entry.dropLast else entry

/-- The entry is compared with the whole path. -/
def StrictlyGrants (entry path : Str) : Prop := endsInSlash entry = false ∧ dropDot entry = path

/-- The walk up the path meets the entry. -/
def Visited (entry path : Str) : Prop := entry ≠ [] ∧ (entry = path ∨ Ancestor entry path)

/-- The entry grants the path. -/
def Grants (entry path : Str) : Prop :=
  StrictlyGrants entry path ∨ entry = path ∨ Ancestor entry path

instance (entry path : Str) : Decidable (StrictlyGrants entry path) :=
  inferInstanceAs (Decidable (_ ∧ _))

instance (entry path : Str) : Decidable (Grants entry path) :=
  inferInstanceAs (Decidable (_ ∨ _))

/-- A path matches strictly exactly if it is some entry, without the dot at its
    end, that does not end in a slash. -/
theorem strictMatch_iff {paths : List Str} {path : Str} :
    strictMatch paths path = true ↔ ∃ entry ∈ paths, StrictlyGrants entry path := by
  rw [strictMatch, List.any_eq_true]
  simp [StrictlyGrants, dropDot]

/-- Only the empty entry is granted strictly alone. -/
theorem grants_iff {entry path : Str} :
    Grants entry path ↔ StrictlyGrants entry path ∨ Visited entry path := by
  constructor
  · rintro (h | rfl | h)
    · exact Or.inl h
    · by_cases hne : entry = []
      · subst hne
        exact Or.inl ⟨rfl, rfl⟩
      · exact Or.inr ⟨hne, Or.inl rfl⟩
    · exact Or.inr ⟨h.1, Or.inr h⟩
  · rintro (h | ⟨-, h⟩)
    · exact Or.inl h
    · exact Or.inr h

/-- A step up loses the path itself, and nothing else. -/
theorem visited_splitHead {entry path : Str} (hne : entry ≠ path) :
    Visited entry path ↔ Visited entry (splitHead path) := by
  rw [Visited, Visited, ancestor_splitHead entry path]
  constructor
  · rintro ⟨hnil, h | ⟨-, h⟩⟩
    · exact absurd h hne
    · exact ⟨hnil, h⟩
  · rintro ⟨hnil, h⟩
    exact ⟨hnil, Or.inr ⟨hnil, h⟩⟩

/-- From a path of slashes alone the walk visits nothing but it. -/
theorem visited_slashes {entry : Str} {n : Nat} (h : Visited entry (slashes n)) :
    entry = slashes n := by
  rcases h.2 with rfl | hanc
  · rfl
  · have h' : Ancestor entry (slashes n ++ []) := by rwa [List.append_nil]
    exact ((ancestor_slashes List.not_mem_nil).mp h').2

section Walk

variable {paths : List Str}

/-- At the empty path the walk ends without a verdict. -/
theorem pathWalk_nil (fuel : Nat) : pathWalk paths (fuel + 1) [] = some none := if_pos rfl

/-- At an entry the walk ends with a yes. -/
theorem pathWalk_mem {fuel : Nat} {path : Str} (hne : path ≠ []) (hmem : path ∈ paths) :
    pathWalk paths (fuel + 1) path = some (some true) :=
  (if_neg hne).trans (if_pos hmem)

/-- From the root the walk goes to the empty path. -/
theorem pathWalk_root {fuel : Nat} (hmem : [slash] ∉ paths) :
    pathWalk paths (fuel + 1) [slash] = pathWalk paths fuel [] :=
  (if_neg (by simp)).trans ((if_neg hmem).trans (if_pos rfl))

/-- From any other path the walk goes to what is before its last slash. -/
theorem pathWalk_up {fuel : Nat} {path : Str} (hne : path ≠ []) (hmem : path ∉ paths)
    (hroot : path ≠ [slash]) :
    pathWalk paths (fuel + 1) path = pathWalk paths fuel (splitHead path) :=
  (if_neg hne).trans ((if_neg hmem).trans (if_neg hroot))

/-- What is met on the way up is granted. -/
theorem pathWalk_granted :
    ∀ (fuel : Nat) (path : Str), path.length + 1 ≤ fuel →
      (∃ entry ∈ paths, Visited entry path) → pathWalk paths fuel path = some (some true) := by
  intro fuel
  induction fuel with
  | zero => intro path hfuel; exact absurd hfuel (by omega)
  | succ fuel ih =>
      rintro path hfuel ⟨entry, hentry, hvisit⟩
      by_cases hmem : path ∈ paths
      · have hne : path ≠ [] := by
          rintro rfl
          exact hvisit.1 (visited_slashes (n := 0) hvisit)
        exact pathWalk_mem hne hmem
      · have hother : entry ≠ path := by
          rintro rfl
          exact hmem hentry
        rcases splitHead_cases path with ⟨n, rfl⟩ | ⟨hshort, -⟩
        · exact absurd (visited_slashes hvisit) hother
        · have hne : path ≠ [] := by
            rintro rfl
            exact absurd hshort (by decide)
          have hroot : path ≠ [slash] := by
            rintro rfl
            exact absurd hshort (by decide)
          rw [pathWalk_up hne hmem hroot]
          exact ih (splitHead path) (by omega)
            ⟨entry, hentry, (visited_splitHead hother).mp hvisit⟩

/-- A step up cannot meet what the whole walk does not meet. -/
theorem not_visited_splitHead {path : Str} (hmem : path ∉ paths)
    (h : ¬ ∃ entry ∈ paths, Visited entry path) :
    ¬ ∃ entry ∈ paths, Visited entry (splitHead path) := by
  rintro ⟨entry, hentry, hvisit⟩
  have hother : entry ≠ path := by
    rintro rfl
    exact hmem hentry
  exact h ⟨entry, hentry, (visited_splitHead hother).mpr hvisit⟩

/-- A path that begins with one slash at most is walked up to its end. -/
theorem pathWalk_none :
    ∀ (fuel : Nat) (path : Str), path.length + 1 ≤ fuel → ¬ slashes 2 <+: path →
      (¬ ∃ entry ∈ paths, Visited entry path) → pathWalk paths fuel path = some none := by
  intro fuel
  induction fuel with
  | zero => intro path hfuel; exact absurd hfuel (by omega)
  | succ fuel ih =>
      intro path hfuel hdouble hvisit
      by_cases hne : path = []
      · subst hne
        exact pathWalk_nil fuel
      · have hmem : path ∉ paths := fun hmem => hvisit ⟨path, hmem, hne, Or.inl rfl⟩
        rcases splitHead_cases path with ⟨n, rfl⟩ | ⟨hshort, hpre⟩
        · match n, hne, hdouble, hmem, hfuel with
          | 1, _, _, hmem, hfuel =>
              obtain ⟨k, rfl⟩ : ∃ k, fuel = k + 1 :=
                ⟨fuel - 1, by rw [slashes, List.length_replicate] at hfuel; omega⟩
              rw [show slashes 1 = [slash] from rfl, pathWalk_root hmem]
              exact pathWalk_nil k
          | n + 2, _, hdouble, _, _ => exact absurd ⟨slashes n, rfl⟩ hdouble
        · have hroot : path ≠ [slash] := by
            rintro rfl
            exact absurd hshort (by decide)
          rw [pathWalk_up hne hmem hroot]
          exact ih (splitHead path) (by omega) (fun h => hdouble (h.trans hpre))
            (not_visited_splitHead hmem hvisit)

/-- **A path that begins with two slashes is walked up for ever**, unless an
    entry is met. -/
theorem pathWalk_loops :
    ∀ (fuel : Nat) (path : Str), slashes 2 <+: path →
      (¬ ∃ entry ∈ paths, Visited entry path) → pathWalk paths fuel path = none := by
  intro fuel
  induction fuel with
  | zero => intro path _ _; rfl
  | succ fuel ih =>
      intro path hdouble hvisit
      have hne : path ≠ [] := by
        rintro rfl
        exact absurd hdouble (by decide)
      have hroot : path ≠ [slash] := by
        rintro rfl
        exact absurd hdouble (by decide)
      have hmem : path ∉ paths := fun hmem => hvisit ⟨path, hmem, hne, Or.inl rfl⟩
      rw [pathWalk_up hne hmem hroot]
      exact ih (splitHead path) (doubled_splitHead hdouble) (not_visited_splitHead hmem hvisit)

/-! ### What `handle` comes to -/

/-- A path with an entry that grants it is granted, within as many steps as it
    is long. -/
theorem simplePath_granted {path : Str} {fuel : Nat} (hfuel : path.length + 1 ≤ fuel)
    (h : ∃ entry ∈ paths, Grants entry path) :
    simplePathWithin paths fuel path = some (some true) := by
  rw [simplePathWithin]
  by_cases hstrict : strictMatch paths path = true
  · exact if_pos hstrict
  · rw [if_neg hstrict]
    obtain ⟨entry, hentry, hgrant⟩ := h
    rcases grants_iff.mp hgrant with hgrant | hvisit
    · exact absurd (strictMatch_iff.mpr ⟨entry, hentry, hgrant⟩) hstrict
    · exact pathWalk_granted fuel path hfuel ⟨entry, hentry, hvisit⟩

/-- Without an entry that grants the path, the verdict is that of the walk,
    which visits no entry. -/
theorem simplePathWithin_of_not_granted {path : Str} (fuel : Nat)
    (h : ¬ ∃ entry ∈ paths, Grants entry path) :
    simplePathWithin paths fuel path = pathWalk paths fuel path
      ∧ ¬ ∃ entry ∈ paths, Visited entry path := by
  refine ⟨if_neg ?_, ?_⟩
  · intro hstrict
    obtain ⟨entry, hentry, hgrant⟩ := strictMatch_iff.mp hstrict
    exact h ⟨entry, hentry, Or.inl hgrant⟩
  · rintro ⟨entry, hentry, hvisit⟩
    exact h ⟨entry, hentry, grants_iff.mpr (Or.inr hvisit)⟩

/-- Every other path that begins with one slash at most is left to others. -/
theorem simplePath_none {path : Str} {fuel : Nat} (hfuel : path.length + 1 ≤ fuel)
    (hdouble : ¬ slashes 2 <+: path) (h : ¬ ∃ entry ∈ paths, Grants entry path) :
    simplePathWithin paths fuel path = some none := by
  obtain ⟨heq, hvisit⟩ := simplePathWithin_of_not_granted fuel h
  rw [heq]
  exact pathWalk_none fuel path hfuel hdouble hvisit

/-- Every other path is never judged. -/
theorem simplePath_loops {path : Str} (hdouble : slashes 2 <+: path)
    (h : ¬ ∃ entry ∈ paths, Grants entry path) (fuel : Nat) :
    simplePathWithin paths fuel path = none := by
  obtain ⟨heq, hvisit⟩ := simplePathWithin_of_not_granted fuel h
  rw [heq]
  exact pathWalk_loops fuel path hdouble hvisit

end Walk

/-- **HEADLINE — when the walk ends**: unless the path begins with two slashes
    and no entry grants it. -/
theorem simplePath_terminates_iff (paths : List Str) (path : Str) :
    Terminates paths path ↔ ¬ slashes 2 <+: path ∨ ∃ entry ∈ paths, Grants entry path := by
  constructor
  · rintro ⟨fuel, verdict, hend⟩
    by_contra hcond
    obtain ⟨hdouble, hgrant⟩ := not_or.mp hcond
    have hloop := simplePath_loops (not_not.mp hdouble) hgrant fuel
    cases hloop.symm.trans hend
  · intro hcond
    by_cases hgrant : ∃ entry ∈ paths, Grants entry path
    · exact ⟨_, _, simplePath_granted (Nat.le_refl _) hgrant⟩
    · have hdouble : ¬ slashes 2 <+: path := hcond.resolve_right hgrant
      exact ⟨_, _, simplePath_none (Nat.le_refl _) hdouble hgrant⟩

/-- The path of an absolute-form request target is never judged, although the
    root of the consumer is granted. -/
theorem simplePath_loops_absolute_form : ¬ Terminates ["/secrets/".toList] "//x" := by
  rw [simplePath_terminates_iff]
  rintro (h | ⟨entry, hentry, hgrant⟩)
  · exact h (by decide)
  · obtain rfl := List.mem_singleton.mp hentry
    exact absurd hgrant (by decide)

/-! ## Whole components -/

/-- A proper ancestor of an absolute path: the root, or what stands before a
    slash, written without a trailing slash. -/
def ProperAncestor (a path : Str) : Prop :=
  a = [slash] ∧ path ≠ [slash] ∨ a ≠ [] ∧ endsInSlash a = false ∧ a ++ [slash] <+: path

/-- Without an empty segment, the ancestors are the proper ones. -/
theorem ancestor_iff_proper {a path : Str} (habs : isAbsolute path = true)
    (hinner : ¬ slashes 2 <:+: path) :
    a = path ∨ Ancestor a path ↔ a = path ∨ ProperAncestor a path := by
  obtain ⟨t, rfl⟩ := isAbsolute_iff.mp habs
  have hhead : t.head? ≠ some slash := by
    intro h
    cases t with
    | nil => cases h
    | cons c t =>
        obtain rfl := Option.some.inj h
        exact hinner ⟨[], t, rfl⟩
  have hlead : leading (slash :: t) = [slash] := leading_slashes_append (n := 1) hhead
  rw [Ancestor, ProperAncestor, hlead]
  constructor
  · rintro (h | ⟨hne, h | ⟨hend, hpre⟩⟩)
    · exact Or.inl h
    · by_cases hroot : slash :: t = [slash]
      · exact Or.inl (h.trans hroot.symm)
      · exact Or.inr (Or.inl ⟨h, hroot⟩)
    · refine Or.inr (Or.inr ⟨hne, ?_, hpre⟩)
      exact Bool.eq_false_iff.mpr (fun h => hend (endsInSlash_iff.mp h))
  · rintro (h | ⟨h, -⟩ | ⟨hne, hend, hpre⟩)
    · exact Or.inl h
    · exact Or.inr ⟨by rw [h]; simp, Or.inl h⟩
    · refine Or.inr ⟨hne, Or.inr ⟨fun h => ?_, hpre⟩⟩
      rw [endsInSlash_iff.mpr h] at hend
      cases hend

/-- The path is absolute and has no empty segment but perhaps the last, so that
    each step of the walk takes away one component. -/
structure PlainPath (path : Str) : Prop where
  rooted : isAbsolute path = true
  full : ¬ slashes 2 <:+: path

/-- For a plain path, the entries that grant it are the path itself, its proper
    ancestors, and those that it matches strictly. -/
theorem grants_iff_proper {entry path : Str} (h : PlainPath path) :
    Grants entry path ↔ StrictlyGrants entry path ∨ entry = path ∨ ProperAncestor entry path :=
  or_congr_right (ancestor_iff_proper h.rooted h.full)

/-- A plain path does not begin with two slashes. -/
theorem PlainPath.not_doubled {path : Str} (h : PlainPath path) : ¬ slashes 2 <+: path :=
  fun hpre => h.full hpre.isInfix

/-- `handle` on a plain path grants it or leaves it to others. -/
theorem handle_eq_some_true_iff {paths : List Str} {req : Request} (h : PlainPath req.path) :
    (((simplePathAuthz paths).handle req).1 = some true
        ↔ ∃ entry ∈ paths, Grants entry req.path)
    ∧ (((simplePathAuthz paths).handle req).1 ≠ some true
        → ((simplePathAuthz paths).handle req).1 = none) := by
  rw [simplePathAuthz_handle]
  by_cases hgrant : ∃ entry ∈ paths, Grants entry req.path
  · rw [simplePath_granted (by omega) hgrant]
    exact ⟨iff_of_true rfl hgrant, fun hne => absurd rfl hne⟩
  · rw [simplePath_none (by omega) h.not_doubled hgrant]
    exact ⟨iff_of_false (by simp) hgrant, fun _ => rfl⟩

/-- An entry does not grant a sibling that continues its name. -/
theorem not_grants_sibling {entry rest : Str} {c : Char} (hend : endsInSlash entry = false)
    (hc : c ≠ slash) : ¬ Grants entry (entry ++ c :: rest) := by
  have hlonger : ∀ t : Str, t.length ≤ entry.length → t ≠ entry ++ c :: rest := by
    rintro t ht rfl
    rw [List.length_append, List.length_cons] at ht
    omega
  rintro (⟨-, hstrict⟩ | hself | ⟨hne, hlead | ⟨-, hpre⟩⟩)
  · refine hlonger (dropDot entry) ?_ hstrict
    rw [dropDot]
    split_ifs
    · rw [List.length_dropLast]
      omega
    · exact Nat.le_refl _
  · exact hlonger entry (Nat.le_refl _) hself
  · -- leading slashes end in a slash
    have hall : ∀ d ∈ entry, d = slash := by
      intro d hd
      rw [hlead] at hd
      exact of_decide_eq_true (List.mem_takeWhile_imp (p := fun c => decide (c = slash)) hd)
    have hlast := List.getLast?_eq_getLast_of_ne_nil hne
    rw [hall _ (List.getLast_mem hne)] at hlast
    rw [endsInSlash_iff.mpr hlast] at hend
    cases hend
  · have hpre' := (List.prefix_append_right_inj entry).mp hpre
    exact hc (List.cons_prefix_cons.mp hpre').1.symm

/-- What is granted through an entry without dot and slash is granted with all
    that is below it. -/
theorem grants_descendant {entry path below : Str} (hend : endsInSlash entry = false)
    (hdot : entry.getLast? ≠ some '.') (hpath : PlainPath path) (h : Grants entry path)
    (hbelow : rstrip path ++ [slash] <+: below) : Grants entry below := by
  have hnil : entry ≠ [] := by
    rintro rfl
    rcases h with ⟨-, hself⟩ | hself | hanc
    · exact absurd (hself ▸ hpath.rooted) (by decide)
    · exact absurd (hself ▸ hpath.rooted) (by decide)
    · exact hanc.1 rfl
  have hlast : entry.getLast? ≠ some slash := by
    intro h
    rw [endsInSlash_iff.mpr h] at hend
    cases hend
  have hself : rstrip entry = entry := (SeparatedNames.trimRight_eq_self_iff slash).mpr hlast
  have hanc : entry ++ [slash] <+: rstrip path ++ [slash] := by
    rcases (grants_iff_proper hpath).mp h with ⟨-, hstrict⟩ | rfl | ⟨rfl, -⟩ | ⟨-, -, hpre⟩
    · rw [dropDot, if_neg hdot] at hstrict
      rw [← hstrict, hself]
    · rw [hself]
    · exact absurd rfl hlast
    · -- the ancestor stays when trailing slashes go
      have hwithin : SeparatedNames.Within slash entry (rstrip path) :=
        within_rstrip hend (Or.inr hpre)
      rcases hwithin with heq | hwithin
      · rw [heq]
      · exact hwithin.trans (List.prefix_append _ _)
  exact Or.inr (Or.inr ⟨hnil, Or.inr ⟨hlast, hanc.trans hbelow⟩⟩)

/-- **HEADLINE — whole components decide** on a path without empty segments:
    an entry without a trailing slash grants the path it spells, a trailing dot
    apart, and every entry grants itself and what is below it. No entry grants
    a sibling that continues its name, and below a path that is granted through
    an entry without dot and slash everything is granted. -/
theorem simplePath_by_components (paths : List Str) (req : Request) (h : PlainPath req.path) :
    Terminates paths req.path
    ∧ (((simplePathAuthz paths).handle req).1 = some true ↔
        (∃ entry ∈ paths, endsInSlash entry = false ∧ dropDot entry = req.path)
        ∨ ∃ entry ∈ paths, entry = req.path ∨ ProperAncestor entry req.path)
    ∧ (((simplePathAuthz paths).handle req).1 ≠ some true →
        ((simplePathAuthz paths).handle req).1 = none)
    ∧ (∀ entry c rest, endsInSlash entry = false → c ≠ slash → req.path = entry ++ c :: rest →
        ((simplePathAuthz [entry]).handle req).1 = none)
    ∧ (∀ entry ∈ paths, endsInSlash entry = false → entry.getLast? ≠ some '.' →
        ((simplePathAuthz [entry]).handle req).1 = some true →
        ∀ below : Request, PlainPath below.path → rstrip req.path ++ [slash] <+: below.path →
          ((simplePathAuthz paths).handle below).1 = some true) := by
  obtain ⟨hgrant, hnone⟩ := @handle_eq_some_true_iff paths req h
  refine ⟨(simplePath_terminates_iff _ _).mpr (Or.inl h.not_doubled), ?_, hnone, ?_, ?_⟩
  · rw [hgrant]
    simp only [grants_iff_proper h, StrictlyGrants]
    constructor
    · rintro ⟨entry, hentry, hstrict | hproper⟩
      · exact Or.inl ⟨entry, hentry, hstrict⟩
      · exact Or.inr ⟨entry, hentry, hproper⟩
    · rintro (⟨entry, hentry, hstrict⟩ | ⟨entry, hentry, hproper⟩)
      · exact ⟨entry, hentry, Or.inl hstrict⟩
      · exact ⟨entry, hentry, Or.inr hproper⟩
  · rintro entry c rest hend hc hpath
    obtain ⟨hiff, hone⟩ := @handle_eq_some_true_iff [entry] req h
    refine hone (fun htrue => ?_)
    obtain ⟨entry', hentry', hgrants⟩ := hiff.mp htrue
    obtain rfl := List.mem_singleton.mp hentry'
    rw [hpath] at hgrants
    exact not_grants_sibling hend hc hgrants
  · intro entry hentry hend hdot htrue below hplain hbelow
    obtain ⟨entry', hentry', hgrants⟩ := (handle_eq_some_true_iff h).1.mp htrue
    obtain rfl := List.mem_singleton.mp hentry'
    exact (handle_eq_some_true_iff hplain).1.mpr
      ⟨entry', hentry, grants_descendant hend hdot h hgrants hbelow⟩

/-- A path with a trailing slash, granted through its parent. -/
theorem simplePath_by_components_secrets :
    PlainPath "/secrets/u/".toList
    ∧ ((simplePathAuthz ["/secrets".toList]).handle (plainRequest "/secrets/u/" "u")).1
        = some true := by
  have hplain : PlainPath "/secrets/u/".toList := ⟨by decide, by decide⟩
  refine ⟨hplain, ?_⟩
  exact (simplePath_by_components ["/secrets".toList] (plainRequest "/secrets/u/" "u")
    hplain).2.1.mpr (Or.inr ⟨"/secrets", List.mem_cons_self, Or.inr (Or.inr (by decide))⟩)

/-! ## `UserNameSpace` -/

/-- The request path is the configured path, or lies below it. -/
def AtOrBelow (path p : Str) : Prop := p = path ∨ rstrip path ++ [slash] <+: p

instance (path p : Str) : Decidable (AtOrBelow path p) := inferInstanceAs (Decidable (_ ∨ _))

/-- The authorizer judges its own subtree only: outside it abstains, inside it
    grants what is in the user's namespace and refuses the rest, and a grant
    records that namespace in the request. -/
structure JudgesOwnSubtree (path name : Str) (req : Request) : Prop where
  silent : ¬ AtOrBelow path req.path → (userNameSpaceHandle path req).1 = none
  grants : (userNameSpaceHandle path req).1 = some true ↔ namespaceOf path name <+: req.path
  vetoes : (userNameSpaceHandle path req).1 = some false → AtOrBelow path req.path
  records : (userNameSpaceHandle path req).2
    = if (userNameSpaceHandle path req).1 = some true then
        { req with defaultNamespace := some name } else req

/-- The path continues the last name of the configured path. -/
def ContinuesName (path p : Str) : Prop :=
  endsInSlash path = false ∧ ∃ c rest, c ≠ slash ∧ p = path ++ c :: rest

/-- There is nothing to be stripped where a path ends in no slash. -/
theorem rstrip_of_not_endsInSlash {path : Str} (h : endsInSlash path = false) :
    rstrip path = path := by
  refine (SeparatedNames.trimRight_eq_self_iff slash).mpr (fun hlast => ?_)
  rw [endsInSlash_iff.mpr hlast] at h
  cases h

/-- What begins with the configured path is at or below it, or continues its
    last name. -/
theorem atOrBelow_of_prefix {path p : Str} (hpre : path <+: p) (h : ¬ ContinuesName path p) :
    AtOrBelow path p := by
  cases hend : endsInSlash path with
  | true =>
      obtain ⟨n, hn⟩ := SeparatedNames.trimRight_append slash path
      cases n with
      | zero =>
          exfalso
          rw [List.replicate_zero, List.append_nil] at hn
          exact (SeparatedNames.trimRight_eq_self_iff slash).mp hn.symm (endsInSlash_iff.mp hend)
      | succ n =>
          refine Or.inr (List.IsPrefix.trans ⟨slashes n, ?_⟩ hpre)
          rw [List.append_assoc]
          exact hn.symm
  | false =>
      obtain ⟨rest, rfl⟩ := hpre
      cases rest with
      | nil => exact Or.inl (List.append_nil path)
      | cons c rest =>
          by_cases hc : c = slash
          · rw [hc]
            refine Or.inr ⟨rest, ?_⟩
            rw [rstrip_of_not_endsInSlash hend]
            simp
          · exact absurd ⟨hend, c, rest, hc, rfl⟩ h

/-- The namespace begins with the configured path, unless that ends in two
    slashes. -/
theorem prefix_namespaceOf {path name : Str} (hname : name ≠ []) (hslash : slash ∉ name) :
    path <+: namespaceOf path name ↔ ¬ slashes 2 <:+ path := by
  obtain ⟨n, hn⟩ := SeparatedNames.trimRight_append slash path
  have hlast : (rstrip path).getLast? ≠ some slash := SeparatedNames.getLast?_trimRight slash path
  have hn : path = rstrip path ++ slashes n := hn
  have hspaced : namespaceOf path name = rstrip path ++ (slash :: (name ++ [slash])) := by
    rw [namespaceOf]
    simp
  rw [hspaced]
  conv_lhs => lhs; rw [hn]
  rw [List.prefix_append_right_inj]
  rcases n with _ | _ | k
  · refine iff_of_true ⟨_, List.nil_append _⟩ ?_
    rintro ⟨t, ht⟩
    rw [slashes, List.replicate_zero, List.append_nil] at hn
    rw [← hn, ← ht] at hlast
    exact hlast (by simp [List.getLast?_append, List.getLast?_replicate])
  · refine iff_of_true ⟨name ++ [slash], rfl⟩ ?_
    rintro ⟨t, ht⟩
    have heq : t ++ [slash] ++ [slash] = rstrip path ++ [slash] := by
      rw [List.append_assoc]
      exact ht.trans hn
    rw [← List.append_cancel_right heq] at hlast
    exact hlast (by simp)
  · refine iff_of_false ?_ (not_not.mpr ?_)
    · intro hpre
      have hpre' : slashes (k + 1) <+: name ++ [slash] := (List.cons_prefix_cons.mp hpre).2
      cases name with
      | nil => exact hname rfl
      | cons c name =>
          have hc : slash = c := (List.cons_prefix_cons.mp hpre').1
          exact hslash (hc ▸ List.mem_cons_self)
    · refine ⟨rstrip path ++ slashes k, ?_⟩
      rw [List.append_assoc]
      conv_rhs => rw [hn]
      rw [slashes, slashes, slashes, ← List.replicate_add]

section OwnSubtree

variable {path name : Str} {req : Request}

/-- A namespace is no beginning of its path. -/
theorem namespaceOf_longer (hname : name ≠ []) (hslash : slash ∉ name) :
    ¬ namespaceOf path name <+: path := by
  intro hge
  obtain ⟨n, hn⟩ := SeparatedNames.trimRight_append slash path
  have hn : path = rstrip path ++ slashes n := hn
  have hge : rstrip path ++ (slash :: (name ++ [slash])) <+: rstrip path ++ slashes n := by
    rw [← hn]
    simpa [namespaceOf] using hge
  have hmem := ((List.prefix_append_right_inj _).mp hge).subset
  cases name with
  | nil => exact hname rfl
  | cons c name =>
      have hc : c = slash := List.eq_of_mem_replicate (hmem (List.mem_cons_of_mem _ (by simp)))
      exact hslash (hc ▸ List.mem_cons_self)

/-- A sibling that continues the last name is judged, too. -/
theorem not_continues_of_judges (h : JudgesOwnSubtree path name req) :
    ¬ ContinuesName path req.path := by
  rintro ⟨hend, c, rest, hc, hpath⟩
  have hoff : ¬ rstrip path ++ [slash] <+: req.path := by
    rw [rstrip_of_not_endsInSlash hend, hpath, List.prefix_append_right_inj]
    exact fun hpre => hc (List.cons_prefix_cons.mp hpre).1.symm
  have hpre : path <+: req.path := ⟨c :: rest, hpath.symm⟩
  have hsilent := h.silent (by
    rintro (heq | hbelow)
    · rw [hpath] at heq
      simp at heq
    · exact hoff hbelow)
  rcases userNameSpaceHandle_cases path req with ⟨-, hno⟩ | ⟨hrun, -⟩ | ⟨_, _, _, _, hrun⟩
  · exact hno hpre
  · rw [hrun] at hsilent
    cases hsilent
  · rw [hrun] at hsilent
    cases hsilent

/-- Two slashes at the end of the path keep the user out of the namespace. -/
theorem not_doubled_of_judges (hname : name ≠ []) (hslash : slash ∉ name)
    (h : JudgesOwnSubtree path name req) :
    ¬ (slashes 2 <:+ path ∧ namespaceOf path name <+: req.path) := by
  rintro ⟨hdouble, hns⟩
  have htrue := h.grants.mpr hns
  rcases userNameSpaceHandle_cases path req with ⟨hrun, -⟩ | ⟨hrun, -⟩ | ⟨_, _, hpre, _, _⟩
  · rw [hrun] at htrue
    cases htrue
  · rw [hrun] at htrue
    cases htrue
  · -- both begin the same path, and the configured one is no longer
    refine (prefix_namespaceOf hname hslash).mp ?_ hdouble
    rcases List.prefix_or_prefix_of_prefix hpre hns with hle | hge
    · exact hle
    · exact absurd hge (namespaceOf_longer hname hslash)

/-- Everywhere else the verdict is that of the subtree. -/
theorem judges_of_not (hname : name ≠ []) (hslash : slash ∉ name)
    (huser : req.remoteUser = some name) (hname' : ¬ ContinuesName path req.path)
    (hdouble : ¬ (slashes 2 <:+ path ∧ namespaceOf path name <+: req.path)) :
    JudgesOwnSubtree path name req := by
  rcases userNameSpaceHandle_cases path req with ⟨hrun, hno⟩ | ⟨hrun, hpre⟩ |
    ⟨user, huser', hpre, hns, hrun⟩
  · have hout : ¬ namespaceOf path name <+: req.path := by
      intro hns
      by_cases hend : slashes 2 <:+ path
      · exact hdouble ⟨hend, hns⟩
      · exact hno (((prefix_namespaceOf hname hslash).mpr hend).trans hns)
    refine ⟨fun _ => by rw [hrun], by rw [hrun]; exact iff_of_false (by simp) hout, ?_,
      by rw [hrun]; rfl⟩
    intro h
    rw [hrun] at h
    cases h
  · have hbelow := atOrBelow_of_prefix hpre hname'
    have hout : ¬ namespaceOf path name <+: req.path := by
      intro hns
      rw [userNameSpaceHandle_accepts huser hpre hns] at hrun
      cases congrArg Prod.fst hrun
    exact ⟨fun h => absurd hbelow h, by rw [hrun]; exact iff_of_false (by simp) hout,
      fun _ => hbelow, by rw [hrun]; rfl⟩
  · rw [huser] at huser'
    obtain rfl := Option.some.inj huser'
    have hbelow := atOrBelow_of_prefix hpre hname'
    exact ⟨fun h => absurd hbelow h, by rw [hrun]; exact iff_of_true rfl hns,
      fun _ => hbelow, by rw [hrun]; rfl⟩

end OwnSubtree

/-- **HEADLINE — when `UserNameSpace` keeps to its own subtree**: unless the
    path continues the last name of the configured path, or that path ends in
    two slashes and the request is in the user's namespace. -/
theorem judges_own_subtree_iff {path name : Str} {req : Request} (hname : name ≠ [])
    (hslash : slash ∉ name) (huser : req.remoteUser = some name) :
    JudgesOwnSubtree path name req ↔
      ¬ ContinuesName path req.path
      ∧ ¬ (slashes 2 <:+ path ∧ namespaceOf path name <+: req.path) := by
  constructor
  · exact fun h => ⟨not_continues_of_judges h, not_doubled_of_judges hname hslash h⟩
  · exact fun h => judges_of_not hname hslash huser h.1 h.2

/-- `UserNameSpace` for `/secrets` vetoes requests for `/secretsX`. -/
theorem vetoes_sibling :
    ¬ JudgesOwnSubtree "/secrets" "u" (plainRequest "/secretsX/key" "u") := by
  intro h
  have hsilent := h.silent (by decide)
  exact absurd hsilent (by decide)

/-- With a trailing slash the sibling is left alone. -/
theorem judges_own_subtree_slash :
    JudgesOwnSubtree "/secrets/" "u" (plainRequest "/secretsX/key" "u") :=
  (judges_own_subtree_iff (by decide) (by decide) rfl).mpr
    ⟨fun h => absurd h.1 (by decide), fun h => absurd h.1 (by decide)⟩

end PathAuthzProofs
