import Custodia.SqliteStore

/-! # ListingProofs — what a listing holds

    `list` searches with `LIKE`, whose wild cards and letter case match more
    than is asked for, and a loop over the rows found drops the excess. This
    file says what is listed without either.

    * `listLoop_names`: what the loop collects;
    * `listing_specified`: the listing of a path is the sorted names of the
      keys below it;
    * `listing_congr`: no other key has a say. -/

namespace ListingProofs

open PosixPath PyValues SqliteStore

/-! ## The specification -/

/-- The key is the listed path or lies in its subtree. -/
def Concerns (path key : Str) : Prop := key = path ∨ path ++ [slash] <+: key

instance (path key : Str) : Decidable (Concerns path key) :=
  inferInstanceAs (Decidable (_ ∨ _))

/-- Some key of the table is the listed path or lies in its subtree. -/
def Known (t : Table) (path : Str) : Prop := ∃ key ∈ t, Concerns path key

/-- The rows whose key properly begins with the path and a slash. -/
def below (t : Table) (path : Str) : List (Str × SqlValue) :=
  (rows t).filter (fun row => decide (path ++ [slash] <+: row.1 ∧ row.1 ≠ path ++ [slash]))

/-- How a row is listed: the rest of its key without leading slashes, marked
    where the value counts as empty. -/
def listedName (empty : SqlValue → Bool) (path : Str) (row : Str × SqlValue) : Str :=
  let name := lstrip (row.1.drop (path ++ [slash]).length)
  if empty row.2 = true then name ++ [slash] else name

/-- The listing of a keyfilter meets its specification: `None` exactly when
    nothing is known of the path, else the sorted names of the rows below. -/
structure Specified (empty : SqlValue → Bool) (t : Table) (keyfilter : Str) : Prop where
  none_iff : listing t keyfilter = .ok none ↔ ¬ Known t (rstrip keyfilter)
  names : Known t (rstrip keyfilter) → ∃ names, listing t keyfilter = .ok (some names)
    ∧ names.Pairwise (· ≤ ·)
    ∧ names.Perm ((below t (rstrip keyfilter)).map (listedName empty (rstrip keyfilter)))

/-- The value is the empty text. -/
def isEmptyText (v : SqlValue) : Bool := decide (v = .text [])

/-! ## The loop -/

/-- **What the loop collects**: the names of the rows that properly continue
    the path. -/
theorem listLoop_names (path : Str) :
    ∀ (found : List (Str × SqlValue)) (b : Bool) (acc : List Str),
      (listLoop path found b acc).2 = acc ++ (found.filter (fun row =>
        decide ((row.1 ≠ path ∧ row.1 ≠ childPrefix path) ∧ childPrefix path <+: row.1))).map
          (childName path) := by
  intro found
  induction found with
  | nil => intro b acc; exact (List.append_nil acc).symm
  | cons row rest ih =>
      intro b acc
      rw [listLoop]
      by_cases hparent : row.1 = path ∨ row.1 = childPrefix path
      · have hno : ¬ ((row.1 ≠ path ∧ row.1 ≠ childPrefix path) ∧ childPrefix path <+: row.1) :=
          fun h => hparent.elim h.1.1 h.1.2
        rw [if_pos hparent, ih, List.filter_cons_of_neg (by simpa using hno)]
      · rw [if_neg hparent]
        obtain ⟨hpath, hprefix⟩ := not_or.mp hparent
        by_cases hbelow : childPrefix path <+: row.1
        · rw [if_neg (not_not.mpr hbelow), ih,
            List.filter_cons_of_pos (by simp [hpath, hprefix, hbelow])]
          simp
        · rw [if_pos hbelow, ih, List.filter_cons_of_neg (by simp [hbelow])]

/-- The rows that the search finds for a path. -/
def found (t : Table) (path : Str) : List (Str × SqlValue) :=
  (rows t).filter (fun row => like (cString (path ++ ['%'])) (cString row.1))

/-- The loop removes what `LIKE` finds in excess, and nothing else. -/
theorem filter_found {path : Str} (hne : path ≠ []) (t : Table) :
    (found t path).filter (fun row =>
        decide ((row.1 ≠ path ∧ row.1 ≠ childPrefix path) ∧ childPrefix path <+: row.1))
      = below t path := by
  have hchild : childPrefix path = path ++ [slash] := if_neg hne
  rw [found, below, List.filter_filter, hchild]
  refine List.filter_congr ?_
  intro row _
  by_cases hpre : path ++ [slash] <+: row.1
  · have hlike : like (cString (path ++ ['%'])) (cString row.1) = true :=
      like_of_prefix ((List.prefix_append path [slash]).trans hpre)
    have hlonger : row.1 ≠ path := by
      rintro heq
      have hlen := hpre.length_le
      rw [heq, List.length_append, List.length_singleton] at hlen
      omega
    simp [hlike, hpre, hlonger]
  · simp [hpre]

/-! ## The listing -/

/-- A container is known exactly if there is something below it, or a row of it. -/
theorem known_iff {t : Table} {path : Str} (hne : path ≠ []) :
    Known t path ↔ HasChild t path ∨ HasParent t path := by
  have hchild : childPrefix path = path ++ [slash] := if_neg hne
  rw [HasChild, HasParent, hchild]
  constructor
  · rintro ⟨key, hkey, rfl | hpre⟩
    · exact Or.inr (Or.inl hkey)
    · by_cases hself : key = path
      · exact Or.inr (Or.inl (hself ▸ hkey))
      · by_cases hslash : key = path ++ [slash]
        · exact Or.inr (Or.inr (hslash ▸ hkey))
        · exact Or.inl ⟨key, hkey, hself, hslash, hpre⟩
  · rintro (⟨key, hkey, -, -, hpre⟩ | hkey | hkey)
    · exact ⟨key, hkey, Or.inr hpre⟩
    · exact ⟨path, hkey, Or.inl rfl⟩
    · exact ⟨_, hkey, Or.inr (List.prefix_refl _)⟩

/-- Whatever is listed is what the loop has collected, sorted. -/
theorem names_of_listing {t : Table} {keyfilter : Str} {names : List Str}
    (h : listing t keyfilter = .ok (some names)) :
    names = sorted (listLoop (rstrip keyfilter) (found t (rstrip keyfilter)) false []).2 := by
  rw [listing] at h
  rw [found]
  simp only at h
  split_ifs at h with hlong hfound hcollected hparent hnil
  · exact (Option.some.inj (Except.ok.inj h)).symm
  · rw [not_not.mp hcollected]
    exact (Option.some.inj (Except.ok.inj h)).symm
  · cases (Except.ok.inj h)
  · rw [not_not.mp hfound]
    exact (Option.some.inj (Except.ok.inj h)).symm
  · cases (Except.ok.inj h)

/-- A filter that is too long for the database is an error. -/
theorem listing_tooLong {t : Table} {keyfilter : Str} (h : TooLong t keyfilter) :
    ∃ text, listing t keyfilter = .error (.py .csStoreError text) := ⟨_, if_pos h⟩

/-- The name that is listed for a row is the rest of its key, where the row is
    listed at all. -/
theorem childName_eq {path : Str} (hne : path ≠ []) :
    childName path = listedName SqlValue.falsy path := by
  funext row
  rw [childName, listedName, childPrefix, if_neg hne]

/-- A list that is returned holds the sorted names of the rows below. -/
theorem specified_of_some {t : Table} {keyfilter : Str} {names : List Str}
    (hne : rstrip keyfilter ≠ []) (hknown : Known t (rstrip keyfilter))
    (hlist : listing t keyfilter = .ok (some names)) :
    Specified SqlValue.falsy t keyfilter := by
  refine ⟨iff_of_false ?_ (not_not.mpr hknown), fun _ => ⟨names, hlist, ?_⟩⟩
  · rw [hlist]
    simp
  · rw [names_of_listing hlist, listLoop_names, List.nil_append, filter_found hne,
      childName_eq hne]
    exact ⟨List.pairwise_insertionSort _ _, List.perm_insertionSort _ _⟩

/-- **What `list` answers** for a pattern that can be compared: the loop over
    the rows collects exactly the names below the path. -/
theorem specified {t : Table} {keyfilter : Str} (hne : rstrip keyfilter ≠ [])
    (hshort : ¬ TooLong t keyfilter) : Specified SqlValue.falsy t keyfilter := by
  have hkey : keyfilter ≠ [] := by
    rintro rfl
    exact hne rfl
  rcases listing_cases t hkey with ⟨hlong, -⟩ | ⟨-, hchild, names, -, hlist⟩ |
    ⟨-, -, hparent, hlist⟩ | ⟨-, hnc, hnp, hlist⟩
  · exact absurd hlong hshort
  · exact specified_of_some hne ((known_iff hne).mpr (Or.inl hchild)) hlist
  · exact specified_of_some hne ((known_iff hne).mpr (Or.inr hparent)) hlist
  · have hno : ¬ Known t (rstrip keyfilter) := fun h => ((known_iff hne).mp h).elim hnc hnp
    exact ⟨iff_of_true hlist hno, fun h => absurd h hno⟩

/-! ## Keys that do not concern the path -/

/-- Both tables hold the same rows for the path and its subtree. -/
def AgreeOn (path : Str) (t t' : Table) : Prop :=
  ∀ row : Str × SqlValue, Concerns path row.1 → (row ∈ rows t ↔ row ∈ rows t')

/-- No row is there twice. -/
theorem nodup_rows (t : Table) : (rows t).Nodup := by
  refine List.Nodup.of_map Prod.fst ?_
  have hkeys : (rows t).map Prod.fst = t.keys := by
    rw [rows, List.map_map]
    rfl
  rw [hkeys]
  exact t.keys_nodup

/-- Whether a container is known depends only on the rows that concern it. -/
theorem known_congr {t t' : Table} {path : Str} (h : AgreeOn path t t')
    (hknown : Known t path) : Known t' path := by
  obtain ⟨key, hkey, hconcerns⟩ := hknown
  obtain ⟨v, hv⟩ := mem_rows.mpr hkey
  exact ⟨key, mem_rows.mp ⟨v, (h (key, v) hconcerns).mp hv⟩, hconcerns⟩

/-- What is below a container depends only on the rows that concern it. -/
theorem below_perm {t t' : Table} {path : Str} (h : AgreeOn path t t') :
    (below t path).Perm (below t' path) := by
  refine (List.perm_ext_iff_of_nodup ((nodup_rows t).filter _) ((nodup_rows t').filter _)).mpr ?_
  intro row
  show row ∈ (rows t).filter _ ↔ row ∈ (rows t').filter _
  rw [List.mem_filter, List.mem_filter]
  refine and_congr_left (fun hrow => h row (Or.inr ?_))
  exact (of_decide_eq_true hrow).1

/-- **No other key has a say** in what is listed: two tables that agree at and
    below the path have the same listing. -/
theorem listing_congr {t t' : Table} {keyfilter : Str} {empty : SqlValue → Bool}
    (h : AgreeOn (rstrip keyfilter) t t') (ht : Specified empty t keyfilter)
    (ht' : Specified empty t' keyfilter) : listing t keyfilter = listing t' keyfilter := by
  by_cases hknown : Known t (rstrip keyfilter)
  · obtain ⟨names, hlist, hsorted, hperm⟩ := ht.names hknown
    obtain ⟨names', hlist', hsorted', hperm'⟩ := ht'.names (known_congr h hknown)
    have hsame : names.Perm names' :=
      hperm.trans (((below_perm h).map _).trans hperm'.symm)
    rw [hlist, hlist', hsame.eq_of_pairwise' hsorted hsorted']
  · have hknown' : ¬ Known t' (rstrip keyfilter) :=
      fun hk => hknown (known_congr (fun row hc => (h row hc).symm) hk)
    rw [ht.none_iff.mpr hknown, ht'.none_iff.mpr hknown']

/-- **HEADLINE — a listing is what is specified**, for every table and every
    path whose pattern is compared: `None` if nothing is known of the path,
    else the sorted names of the keys below it. Keys that only the pattern
    matches change nothing. A pattern that is too long raises. -/
theorem listing_specified {t : Table} {keyfilter : Str} (hne : rstrip keyfilter ≠ []) :
    (¬ TooLong t keyfilter → Specified SqlValue.falsy t keyfilter
      ∧ ∀ t', AgreeOn (rstrip keyfilter) t t' → ¬ TooLong t' keyfilter →
        listing t' keyfilter = listing t keyfilter)
    ∧ (TooLong t keyfilter → ∃ text, listing t keyfilter = .error (.py .csStoreError text)) := by
  refine ⟨fun hshort => ⟨specified hne hshort, ?_⟩, fun hlong => listing_tooLong hlong⟩
  intro t' hagree hshort'
  exact (listing_congr hagree (specified hne hshort) (specified hne hshort')).symm

/-- A table with the number zero for a value. -/
def zeroTable : Table := (∅ : Table).insert "keys/u/n" (.integer 0)

/-- A path as long as the limit leaves no room for the wild card. -/
theorem tooLong_replicate {t : Table} {n : Nat} (hn : likePatternLimit ≤ n) (ht : rows t ≠ []) :
    TooLong t (List.replicate n 'k') := by
  have hpath : rstrip (List.replicate n 'k') = List.replicate n 'k' := by
    refine (SeparatedNames.trimRight_eq_self_iff slash).mpr (fun hlast => ?_)
    exact absurd (List.eq_of_mem_replicate (List.mem_of_getLast? hlast)) (by decide)
  have hlength : utf8Length (List.replicate n 'k' ++ ['%']) = n + 1 := by
    have hk : 'k'.utf8Size = 1 := by decide
    have hpercent : '%'.utf8Size = 1 := by decide
    simp [utf8Length, hk, hpercent]
  refine ⟨?_, ht⟩
  rw [hpath, hlength]
  exact Nat.lt_succ_of_le hn

/-- The number zero is marked like an empty value, and no listing is made for a
    path as long as the limit. -/
theorem listing_not_specified :
    ¬ Specified isEmptyText zeroTable "keys/u"
    ∧ ¬ Specified isEmptyText zeroTable (List.replicate likePatternLimit 'k') := by
  refine ⟨fun h => ?_, fun h => ?_⟩
  · obtain ⟨names, hlist, -, hperm⟩ := h.names ⟨"keys/u/n".toList, by decide, by decide⟩
    have hrun : listing zeroTable "keys/u" = .ok (some ["n/".toList]) := by decide
    obtain rfl := Option.some.inj (Except.ok.inj (hlist.symm.trans hrun))
    exact absurd (hperm.mem_iff (a := "n/".toList)) (by decide)
  · have hlong := tooLong_replicate (t := zeroTable) (Nat.le_refl likePatternLimit) (by decide)
    obtain ⟨text, herror⟩ := listing_tooLong hlong
    by_cases hknown : Known zeroTable (rstrip (List.replicate likePatternLimit 'k'))
    · obtain ⟨names, hlist, -⟩ := h.names hknown
      cases herror.symm.trans hlist
    · cases herror.symm.trans (h.none_iff.mpr hknown)

/-- A container with one secret and one container, among keys that only the
    pattern matches. -/
def mixedTable : Table :=
  let t : Table := (∅ : Table).insert "keys/u_/k" (.text "s")
  let t : Table := t.insert "keys/u_//c" (.text [])
  t.insert "KEYS/ux/other" (.text "s")

/-- In a table with secrets, containers and a row of another kind, the listing
    is as specified. -/
theorem listing_specified_mixed :
    rstrip "keys/u_/".toList ≠ [] ∧ ¬ TooLong mixedTable "keys/u_/"
    ∧ Specified SqlValue.falsy mixedTable "keys/u_/" := by
  have hshort : ¬ TooLong mixedTable "keys/u_/" := fun h => absurd h.1 (by decide)
  exact ⟨by decide, hshort, ((listing_specified (by decide)).1 hshort).1⟩

end ListingProofs
