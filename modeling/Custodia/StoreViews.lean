import Custodia.ContainerKeys
import Custodia.MappedValues
import Custodia.SecretsEffects

/-! # StoreViews — one set of entries under several encodings

    A table holds containers and secrets. A store may keep a secret as it is
    or as a token; only the row of a container is empty in every store. What
    the handlers do to keys they do to all such views alike.

    * `Entry`, `plainRow`, `sealedRow`: an entry and its two rows;
    * `respond_post_views` … `respond_delete_views`: the requests that never
      see a secret;
    * `listing_views`: a listing sees which children are empty, and no more. -/

namespace StoreViews

open PosixPath PyValues Messages SqliteStore SecretsConsumer SecretsCalls SecretsRequests
open SecretsRuns SecretsEffects ContainerKeys MappedValues

/-- An entry of the store: a container, or a secret with the token that stands
    for it in an encrypted store. -/
inductive Entry where
  | container
  | secret (value token : Str)

/-- What a table stands for: a secret or a container under each key, whatever
    the store writes for it. -/
abbrev Entries := AList (fun _ : Str => Entry)

/-- The row of an entry in a store without encryption. -/
def plainRow : Entry → SqlValue
  | .container => .text []
  | .secret value _ => .text value

/-- The row of an entry in an encrypted store. -/
def sealedRow : Entry → SqlValue
  | .container => .text []
  | .secret _ token => .text token

/-- A way to store entries: the row of a container is empty. -/
def IsView (f : Entry → SqlValue) : Prop := f .container = .text []

/-- A store without encryption shows the entries as they are. -/
theorem isView_plainRow : IsView plainRow := rfl
/-- A store that encrypts shows every secret sealed, and leaves the mark of a
    container alone. -/
theorem isView_sealedRow : IsView sealedRow := rfl

/-- Every secret of the second was there in the first. -/
def NoNewSecret (E E' : Entries) : Prop :=
  ∀ key value token, E'.lookup key = some (.secret value token) →
    E.lookup key = some (.secret value token)

variable {E : Entries} {path key : Str} {f : Entry → SqlValue}

/-- Nothing has happened, so no secret has appeared. -/
theorem noNewSecret_refl : NoNewSecret E E := fun _ _ _ h => h

/-- A new container is no secret. -/
theorem noNewSecret_insert : NoNewSecret E (E.insert key .container) := by
  intro k value token h
  by_cases hk : k = key
  · subst hk
    rw [AList.lookup_insert] at h
    exact nomatch h
  · rwa [AList.lookup_insert_ne hk] at h

/-- Where an entry is removed, no secret appears. -/
theorem noNewSecret_erase : NoNewSecret E (E.erase key) := by
  intro k value token h
  by_cases hk : k = key
  · subst hk
    rw [AList.lookup_erase] at h
    exact nomatch h
  · rwa [AList.lookup_erase_ne hk] at h

/-- Where two steps let no secret appear, both together do not either. -/
theorem NoNewSecret.trans {E₁ E₂ E₃ : Entries} (h : NoNewSecret E₁ E₂) (h' : NoNewSecret E₂ E₃) :
    NoNewSecret E₁ E₃ :=
  fun key value token hlook => h key value token (h' key value token hlook)

/-! ## What the keys decide -/

/-- What `list` raises on a pattern that is too long. -/
def listError : Exc := .py .csStoreError "Error occurred while trying to list keys"

/-- A filter that is longer than the database allows is an error, whatever the
    table holds. -/
theorem listing_long {t : Table} {keyfilter : Str} (h : TooLong t keyfilter) :
    listing t keyfilter = .error listError := if_pos h

/-- Every view of the entries has rows exactly if there are entries. -/
theorem rows_view_eq_nil (f : Entry → SqlValue) (E : Entries) :
    rows (mapValues f E) = [] ↔ E.entries = [] := by
  rw [rows, entries_mapValues, List.map_eq_nil_iff, List.map_eq_nil_iff]

/-- Whether a pattern is compared at all does not depend on the values. -/
theorem tooLong_views {g : Entry → SqlValue} {keyfilter : Str} :
    TooLong (mapValues f E) keyfilter ↔ TooLong (mapValues g E) keyfilter :=
  and_congr_right (fun _ => not_congr
    ((rows_view_eq_nil f E).trans (rows_view_eq_nil g E).symm))

/-- Whether something lies below a path is seen alike in every view. -/
theorem hasChild_view : HasChild (mapValues f E) path ↔ ∃ key ∈ E, Beneath path key := by
  constructor
  · rintro ⟨key, hmem, hb⟩
    exact ⟨key, (mem_mapValues f E).mp hmem, hb⟩
  · rintro ⟨key, hmem, hb⟩
    exact ⟨key, (mem_mapValues f E).mpr hmem, hb⟩

/-- Whether there is a row of the path itself is seen alike in every view. -/
theorem hasParent_view :
    HasParent (mapValues f E) path ↔ path ∈ E ∨ childPrefix path ∈ E := by
  rw [HasParent, mem_mapValues, mem_mapValues]

/-- Making a container in a view is to show the entries with that container: the
    mark of a container is the same in every view. -/
theorem insert_view (hf : IsView f) :
    (mapValues f E).insert key (.text []) = mapValues f (E.insert key .container) := by
  rw [mapValues_insert, hf]

/-- A `span` does the same to every view. -/
theorem exec_span_views (E : Entries) (key : Str) :
    ∃ r E', NoNewSecret E E' ∧
      ∀ f, IsView f → exec (.span key) (mapValues f E) = (r, mapValues f E') := by
  by_cases hmem : rstrip key ∈ E
  · refine ⟨.error keyExists, E, noNewSecret_refl, ?_⟩
    intro f hf
    exact exec_span_mem ((mem_mapValues f E).mpr hmem)
  · refine ⟨.ok (), E.insert (rstrip key) .container, noNewSecret_insert, ?_⟩
    intro f hf
    rw [exec_span_not_mem (fun h => hmem ((mem_mapValues f E).mp h)), insert_view hf]

/-- A `cut` does the same to every view. -/
theorem exec_cut_views (E : Entries) (key : Str) :
    ∃ r E', NoNewSecret E E' ∧
      ∀ f, IsView f → exec (.cut key) (mapValues f E) = (r, mapValues f E') := by
  by_cases hmem : key ∈ E
  · refine ⟨.ok true, E.erase key, noNewSecret_erase, ?_⟩
    intro f _
    rw [exec_cut_mem ((mem_mapValues f E).mpr hmem), mapValues_erase]
  · refine ⟨.ok false, E, noNewSecret_refl, ?_⟩
    intro f _
    exact exec_cut_not_mem (fun h => hmem ((mem_mapValues f E).mp h))

/-- A `set` of a value in one view and of its token in the other. -/
theorem exec_set_views (E : Entries) (key value token : Str) :
    ∃ r E', (∀ k v tok, E'.lookup k = some (.secret v tok) →
        E.lookup k = some (.secret v tok) ∨ k = key ∧ v = value ∧ tok = token)
      ∧ exec (.set key (.ofText value) false) (mapValues plainRow E)
          = (r, mapValues plainRow E')
      ∧ exec (.set key (.ofText token) false) (mapValues sealedRow E)
          = (r, mapValues sealedRow E') := by
  cases hslash : endsInSlash key with
  | true =>
      exact ⟨_, E, fun k v tok h => Or.inl h, if_pos hslash, if_pos hslash⟩
  | false =>
      by_cases hmem : key ∈ E
      · exact ⟨.error keyExists, E, fun k v tok h => Or.inl h,
          exec_set_mem hslash (bindValue_ofText _ _) ((mem_mapValues plainRow E).mpr hmem),
          exec_set_mem hslash (bindValue_ofText _ _) ((mem_mapValues sealedRow E).mpr hmem)⟩
      · have hfree : ∀ f : Entry → SqlValue, key ∉ mapValues f E :=
          fun f h => hmem ((mem_mapValues f E).mp h)
        refine ⟨.ok (), E.insert key (.secret value token), ?_, ?_, ?_⟩
        · intro k v tok h
          by_cases hk : k = key
          · subst hk
            rw [AList.lookup_insert] at h
            obtain ⟨rfl, rfl⟩ := Entry.secret.inj (Option.some.inj h)
            exact Or.inr ⟨rfl, rfl, rfl⟩
          · rw [AList.lookup_insert_ne hk] at h
            exact Or.inl h
        · rw [exec_set_not_mem hslash (bindValue_ofText _ _) (hfree plainRow), mapValues_insert]
          rfl
        · rw [exec_set_not_mem hslash (bindValue_ofText _ _) (hfree sealedRow), mapValues_insert]
          rfl

/-- **The parent check** takes the same way in every view, as it asks only which
    keys there are. -/
theorem parentCheck_views (E : Entries) (default : Option Str) (trail : List Str) :
    (∃ e, ∀ f, IsView f → parentCheck (mapValues f E) default trail = .error e)
    ∨ ∃ E', NoNewSecret E E' ∧
        ∀ f, IsView f → parentCheck (mapValues f E) default trail = .ok (mapValues f E') := by
  by_cases hlong : TooLong (mapValues plainRow E) (parentKey trail)
  · refine Or.inl ⟨.http 500 none, ?_⟩
    intro f _
    have hlong : TooLong (mapValues f E) (parentKey trail) := tooLong_views.mp hlong
    rcases parentCheck_cases (mapValues f E) default trail with ⟨-, h⟩ | ⟨hshort, -⟩ |
      ⟨hshort, -⟩ | ⟨hnc, hnp, hns, h⟩
    · exact h
    · exact absurd hlong hshort
    · exact absurd hlong hshort
    · rw [parentCheck, listing_long hlong]
      rfl
  have hshort : ∀ f : Entry → SqlValue, ¬ TooLong (mapValues f E) (parentKey trail) :=
    fun f h => hlong (tooLong_views.mp h)
  by_cases hthere : (∃ key ∈ E, Beneath (rstrip (parentKey trail)) key)
      ∨ rstrip (parentKey trail) ∈ E ∨ childPrefix (rstrip (parentKey trail)) ∈ E
  · refine Or.inr ⟨E, noNewSecret_refl, ?_⟩
    intro f _
    have hfound : HasChild (mapValues f E) (rstrip (parentKey trail))
        ∨ HasParent (mapValues f E) (rstrip (parentKey trail)) :=
      hthere.imp hasChild_view.mpr hasParent_view.mpr
    rcases parentCheck_cases (mapValues f E) default trail with ⟨h, -⟩ | ⟨-, -, h⟩ |
      ⟨-, hnc, hnp, -⟩ | ⟨hnc, hnp, -⟩
    · exact absurd h (hshort f)
    · exact h
    · exact absurd hfound (not_or.mpr ⟨hnc, hnp⟩)
    · exact absurd hfound (not_or.mpr ⟨hnc, hnp⟩)
  have hmissing : ∀ f : Entry → SqlValue, ¬ (HasChild (mapValues f E) (rstrip (parentKey trail))
      ∨ HasParent (mapValues f E) (rstrip (parentKey trail))) :=
    fun f h => hthere (h.imp hasChild_view.mp hasParent_view.mp)
  by_cases hns : onlyNamespaceMissing default trail
  · refine Or.inr ⟨E.insert (rstrip (parentKey trail)) .container, noNewSecret_insert, ?_⟩
    intro f hf
    rcases parentCheck_cases (mapValues f E) default trail with ⟨h, -⟩ | ⟨-, h, -⟩ |
      ⟨-, -, -, -, h⟩ | ⟨-, -, h, -⟩
    · exact absurd h (hshort f)
    · exact absurd h (hmissing f)
    · rw [h, insert_view hf]
    · exact absurd hns h
  · refine Or.inl ⟨.http 404 none, ?_⟩
    intro f _
    rcases parentCheck_cases (mapValues f E) default trail with ⟨h, -⟩ | ⟨-, h, -⟩ |
      ⟨-, -, -, h, -⟩ | ⟨-, -, -, h⟩
    · exact absurd h (hshort f)
    · exact absurd h (hmissing f)
    · exact absurd h hns
    · exact h

/-! ## Requests that see no secret -/

section Requests

variable {con : Secrets} {req : Request} {client : Str} {msg : Handler}

/-- **A POST acts on the entries**: in every view it has the same outcome, and
    what it leaves is a view of the same entries. -/
theorem respond_post_views (h : Posts con req msg) (E : Entries) :
    ∃ o E', NoNewSecret E E' ∧
      ∀ f, IsView f → respond con req (mapValues f E) = (o, mapValues f E') := by
  by_cases htop : (segments req).length = 2
  · obtain ⟨r, E', hnew, hspan⟩ := exec_span_views E (entryKey req)
    refine ⟨plain (spanFinish con msg r), E', hnew, ?_⟩
    intro f hf
    rw [respond_post_top h htop, hspan f hf]
  · have hdeep := h.deep
    have hlen : 2 < (segments req).length := by omega
    rcases parentCheck_views E req.defaultNamespace (segments req).dropLast with
      ⟨e, hcheck⟩ | ⟨E', hnew, hcheck⟩
    · refine ⟨plain (spanFinish con msg (.error e)), E, noNewSecret_refl, ?_⟩
      intro f hf
      rw [respond_post_below h hlen, hcheck f hf]
    · obtain ⟨r, E'', hnew', hspan⟩ := exec_span_views E' (entryKey req)
      refine ⟨plain (spanFinish con msg r), E'', hnew.trans hnew', ?_⟩
      intro f hf
      rw [respond_post_below h hlen, hcheck f hf]
      simp only [hspan f hf]

/-- **A DELETE of a container acts on the entries**, alike in every view. -/
theorem respond_destroy_views (h : Destroys con req msg) (E : Entries) :
    ∃ o E', NoNewSecret E E' ∧
      ∀ f, IsView f → respond con req (mapValues f E) = (o, mapValues f E') := by
  by_cases hlong : TooLong (mapValues plainRow E) (entryKey req)
  · refine ⟨plain (.error (storeError listError)), E, noNewSecret_refl, ?_⟩
    intro f _
    rw [respond_destroy h, listing_long (tooLong_views.mp hlong)]
  have hshort : ∀ f : Entry → SqlValue, ¬ TooLong (mapValues f E) (entryKey req) :=
    fun f h => hlong (tooLong_views.mp h)
  have hne := entryKey_ne_nil h.container
  by_cases hchild : ∃ key ∈ E, Beneath (rstrip (entryKey req)) key
  · refine ⟨plain (.error (.http 409 none)), E, noNewSecret_refl, ?_⟩
    intro f _
    rcases listing_cases (mapValues f E) hne with ⟨h', -⟩ | ⟨-, -, names, hnames, hlist⟩ |
      ⟨-, h', -⟩ | ⟨-, h', -⟩
    · exact absurd h' (hshort f)
    · obtain ⟨a, l, rfl⟩ := List.exists_cons_of_ne_nil hnames
      rw [respond_destroy h, hlist]
    · exact absurd (hasChild_view.mpr hchild) h'
    · exact absurd (hasChild_view.mpr hchild) h'
  by_cases hparent : rstrip (entryKey req) ∈ E ∨ childPrefix (rstrip (entryKey req)) ∈ E
  · obtain ⟨r, E', hnew, hcut⟩ := exec_cut_views E (rstrip (entryKey req))
    refine ⟨plain (cutFinish con msg r), E', hnew, ?_⟩
    intro f hf
    rcases listing_cases (mapValues f E) hne with ⟨h', -⟩ | ⟨-, h', -⟩ | ⟨-, -, -, hlist⟩ |
      ⟨-, -, h', -⟩
    · exact absurd h' (hshort f)
    · exact absurd (hasChild_view.mp h') hchild
    · rw [respond_destroy h, hlist]
      simp only [hcut f hf]
    · exact absurd (hasParent_view.mpr hparent) h'
  · refine ⟨plain (.error (.http 404 none)), E, noNewSecret_refl, ?_⟩
    intro f _
    rcases listing_cases (mapValues f E) hne with ⟨h', -⟩ | ⟨-, h', -⟩ | ⟨-, -, h', -⟩ |
      ⟨-, -, -, hlist⟩
    · exact absurd h' (hshort f)
    · exact absurd (hasChild_view.mp h') hchild
    · exact absurd (hasParent_view.mp h') hparent
    · rw [respond_destroy h, hlist]

/-- **A DELETE of a secret acts on the entries**, alike in every view; only
    their keys are looked at. -/
theorem respond_delete_views (h : Deletes con req client msg) (E : Entries) :
    ∃ o E', NoNewSecret E E' ∧
      ∀ f, IsView f → respond con req (mapValues f E) = (o, mapValues f E') := by
  obtain ⟨r, E', hnew, hcut⟩ := exec_cut_views E (entryKey req)
  refine ⟨recorded auditDelAllowed auditDelDenied client (segments req) (cutFinish con msg r), E',
    hnew, ?_⟩
  intro f hf
  rw [respond_delete h, hcut f hf]

end Requests

/-! ## Listings -/

/-- The loop of `list` sees of a child's row only whether it is empty. -/
theorem listLoop_views {f g : Entry → SqlValue} (path : Str) :
    ∀ (l : List (Str × Entry)) (found : Bool) (names : List Str),
      (∀ e ∈ l, Beneath path e.1 → (f e.2).falsy = (g e.2).falsy) →
      listLoop path (l.map (fun e => (e.1, f e.2))) found names
        = listLoop path (l.map (fun e => (e.1, g e.2))) found names := by
  intro l
  induction l with
  | nil => intro found names _; rfl
  | cons e l ih =>
      intro found names hagree
      have hrest := fun e' he' => hagree e' (List.mem_cons_of_mem e he')
      rw [List.map_cons, List.map_cons, listLoop, listLoop]
      by_cases hparent : e.1 = path ∨ e.1 = childPrefix path
      · rw [if_pos hparent, if_pos hparent]
        exact ih true names hrest
      · rw [if_neg hparent, if_neg hparent]
        by_cases hbelow : childPrefix path <+: e.1
        · have hb : Beneath path e.1 :=
            ⟨fun h => hparent (Or.inl h), fun h => hparent (Or.inr h), hbelow⟩
          have hname : childName path (e.1, f e.2) = childName path (e.1, g e.2) := by
            rw [childName, childName, hagree e List.mem_cons_self hb]
          rw [if_neg (not_not.mpr hbelow), if_neg (not_not.mpr hbelow), hname]
          exact ih found _ hrest
        · rw [if_pos hbelow, if_pos hbelow]
          exact ih found names hrest

/-- The rows of a view are those of the entries, in the same order, each with
    its value shown. -/
theorem rows_view (f : Entry → SqlValue) (E : Entries) :
    rows (mapValues f E) = (E.entries.map (fun e => (e.1, e.2))).map (fun e => (e.1, f e.2)) := by
  rw [rows, entries_mapValues, List.map_map, List.map_map]
  rfl

/-- **Two views are listed alike** where the same children are empty: only this
    decides which names end in a slash. -/
theorem listing_views {f g : Entry → SqlValue} {keyfilter : Str}
    (hagree : ∀ key e, E.lookup key = some e → Beneath (rstrip keyfilter) key →
      (f e).falsy = (g e).falsy) :
    listing (mapValues f E) keyfilter = listing (mapValues g E) keyfilter := by
  have hmem : ∀ e ∈ E.entries.map (fun e => (e.1, e.2)), E.lookup e.1 = some e.2 := by
    intro e he
    obtain ⟨e', he', rfl⟩ := List.mem_map.mp he
    exact AList.mem_lookup_iff.mpr he'
  -- the search looks at the keys alone
  have hfound : ∀ h : Entry → SqlValue, (rows (mapValues h E)).filter
        (fun row => like (cString (rstrip keyfilter ++ ['%'])) (cString row.1))
      = ((E.entries.map (fun e => (e.1, e.2))).filter
          (fun e => like (cString (rstrip keyfilter ++ ['%'])) (cString e.1))).map
            (fun e => (e.1, h e.2)) := by
    intro h
    rw [rows_view, List.filter_map]
    rfl
  have hloop := listLoop_views (f := f) (g := g) (rstrip keyfilter)
    ((E.entries.map (fun e => (e.1, e.2))).filter
      (fun e => like (cString (rstrip keyfilter ++ ['%'])) (cString e.1))) false []
    (fun e he => hagree e.1 e.2 (hmem e (List.mem_filter.mp he).1))
  simp only [listing, hfound f, hfound g, hloop, rows_view_eq_nil, ne_eq, List.map_eq_nil_iff]

end StoreViews
