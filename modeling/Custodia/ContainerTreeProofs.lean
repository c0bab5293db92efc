import Custodia.StoreTree

/-! # ContainerTreeProofs — every entry lies in a container

    Along any run of requests the table is a closed tree, unless a request
    places an entry below something that is no container, or deletes a
    container through the path of a key.

    * `keeps_tree`, `breaks_tree`: one request, in both directions;
    * `parented_run_iff`: a run from the empty store keeps the tree closed in
      every state exactly when no request of it is one of these. -/

namespace ContainerTreeProofs

open PosixPath SeparatedNames PyValues Messages SqliteStore SecretsConsumer SecretsCalls
open SecretsRequests SecretsRuns ContainerTree StoreTree

/-- What marks a container in the table. -/
def emptyValue : SqlValue := .text []

/-- Every entry with a parent has it in the table, and the parent is a
    container. -/
def Parented (t : Table) : Prop :=
  ∀ names, Plain names → 2 ≤ names.length → keyOf names ∈ t →
    t.lookup (keyOf names.dropLast) = some emptyValue

/-- Every entry of a table has its parent exactly if the tree is closed: the two
    are one statement about paths. -/
theorem parented_iff (t : Table) : Parented t ↔ Closed emptyValue (treeOf t) := by
  constructor
  · intro h q hlen hmem
    obtain ⟨hplain, hkey⟩ := treeOf_ne_none.mp hmem
    rw [treeOf_plain (plain_dropLast hplain)]
    exact h q hplain hlen hkey
  · intro h names hplain hlen hkey
    rw [← treeOf_plain (plain_dropLast hplain)]
    exact h names hlen (treeOf_ne_none.mpr ⟨hplain, hkey⟩)

/-- The tables of a run: every key spells a path, and the tree that the table
    stands for is closed, each entry lying in a container. The invariant of all
    runs that no request breaks. -/
structure Tree (t : Table) : Prop where
  spelled : Spelled t
  closed : Closed emptyValue (treeOf t)

/-- The empty table is a tree. -/
theorem tree_empty : Tree ∅ := by
  refine ⟨spelled_empty, ?_⟩
  intro q _ hmem
  exact absurd (treeOf_ne_none.mp hmem).2 (AList.notMem_empty _)

/-! ## Placing one entry -/

/-- The call stores at most the entry `names`, and nothing else. -/
def Places (c : Call) (names : List Str) : Prop :=
  ∀ t, (exec c t).2 = t ∨ ∃ v, keyOf names ∉ t ∧ (exec c t).2 = t.insert (keyOf names) v

/-- A `set` writes at the path of its key, or nowhere. -/
theorem places_set (names : List Str) (value : Json) :
    Places (.set (keyOf names) value false) names := by
  intro t
  rcases exec_cases (.set (keyOf names) value false) t with h |
    ⟨key, v, hfree, hins, ⟨_, hc, -⟩ | ⟨_, hc, -⟩⟩ | ⟨key, -, hc, -⟩ | ⟨key, _, hc⟩
  · exact Or.inl h
  · injection hc with hkey
    subst hkey
    exact Or.inr ⟨v, hfree, hins⟩
  · exact nomatch hc
  · exact nomatch hc
  · injection hc with _ _ hrep
    exact nomatch hrep

/-- A `span` writes at the path of its key without slashes, or nowhere. -/
theorem places_span {names : List Str} {key : Str} (hkey : rstrip key = keyOf names) :
    Places (.span key) names := by
  intro t
  by_cases hmem : rstrip key ∈ t
  · exact Or.inl (by rw [exec_span_mem hmem])
  · refine Or.inr ⟨.text [], hkey ▸ hmem, ?_⟩
    rw [exec_span_not_mem hmem, hkey]

/-- A call that writes at a proper path keeps the keys spelled. -/
theorem spelled_places {c : Call} {names : List Str} (hc : Places c names)
    (hp : Plain names) {t : Table} (ht : Spelled t) : Spelled (exec c t).2 := by
  rcases hc t with h | ⟨v, -, h⟩
  · rw [h]; exact ht
  · rw [h]; exact spelled_insert ht hp v

/-- An entry placed at the top, or in a container, keeps the tree. -/
theorem tree_places {c : Call} {names : List Str} (hc : Places c names) (hp : Plain names)
    (hne : names ≠ []) {t : Table} (ht : Tree t)
    (hparent : 2 ≤ names.length → treeOf t names.dropLast = some emptyValue) :
    Tree (exec c t).2 := by
  refine ⟨spelled_places hc hp ht.spelled, ?_⟩
  rcases hc t with h | ⟨v, hfree, h⟩
  · rw [h]; exact ht.closed
  · rw [h, treeOf_insert hp]
    refine closed_insert ht.closed hne ?_ hparent
    rw [treeOf_plain hp]
    exact AList.lookup_eq_none.mpr hfree

/-- A `cut` keeps the keys spelled. -/
theorem spelled_cut {t : Table} (ht : Spelled t) (key : Str) : Spelled (exec (.cut key) t).2 := by
  by_cases hmem : key ∈ t
  · rw [exec_cut_mem hmem]; exact spelled_erase ht key
  · rw [exec_cut_not_mem hmem]; exact ht

/-- Cutting an entry with nothing below it keeps the tree. -/
theorem tree_cut {names : List Str} (hp : Plain names) (hne : names ≠ []) {t : Table}
    (ht : Tree t) (hleaf : ¬ HasBelow (treeOf t) names) : Tree (exec (.cut (keyOf names)) t).2 := by
  refine ⟨spelled_cut ht.spelled _, ?_⟩
  by_cases hmem : keyOf names ∈ t
  · rw [exec_cut_mem hmem, treeOf_erase hp]
    exact (closed_remove_iff ht.closed hne).mpr hleaf
  · rw [exec_cut_not_mem hmem]
    exact ht.closed

/-! ## The parent check on a tree -/

/-- The parent check refuses, finds the parent, or makes the namespace. -/
theorem parentCheck_tree {t : Table} (ht : Tree t) {names : List Str} (hp : Plain names)
    (hlen : 2 ≤ names.length) (default : Option Str) :
    (∃ e, parentCheck t default names = .error e)
    ∨ (∃ w, treeOf t names.dropLast = some w ∧ ¬ TooLong t (parentKey names)
        ∧ parentCheck t default names = .ok t)
    ∨ ∃ t', Tree t' ∧ treeOf t' names.dropLast = some emptyValue
        ∧ parentCheck t default names = .ok t' := by
  have hp' := plain_dropLast hp
  have hne : names.dropLast ≠ [] := by
    intro h
    have := congrArg List.length h
    rw [List.length_dropLast, List.length_nil] at this
    omega
  rcases parentCheck_cases t default names with ⟨-, h⟩ | ⟨hshort, hfound, h⟩ |
    ⟨hshort, -, hnp, hns, h⟩ | ⟨-, -, -, h⟩
  · exact Or.inl ⟨_, h⟩
  · rw [rstrip_parentKey hp] at hfound
    refine Or.inr (Or.inl ?_)
    rcases hfound with hchild | hparent
    · obtain ⟨tail, htail, hmem⟩ := (hasChild_iff ht.spelled hp').mp hchild
      exact ⟨_, closed_above ht.closed hne tail htail hmem, hshort, h⟩
    · have hmem := (hasParent_iff ht.spelled hp').mp hparent
      obtain ⟨w, hw⟩ := Option.isSome_iff_exists.mp (AList.lookup_isSome.mpr hmem)
      exact ⟨w, by rw [treeOf_plain hp', hw], hshort, h⟩
  · -- only the namespace itself can be made, and it has no parent
    rw [rstrip_parentKey hp] at h hnp
    refine Or.inr (Or.inr ⟨_, ⟨spelled_insert ht.spelled hp' _, ?_⟩, ?_, h⟩)
    · rw [treeOf_insert hp']
      refine closed_insert ht.closed hne ?_ ?_
      · rw [treeOf_plain hp']
        exact AList.lookup_eq_none.mpr (fun hmem =>
          hnp ((hasParent_iff ht.spelled hp').mpr hmem))
      · intro hdeep
        rw [List.length_dropLast, hns.1] at hdeep
        exact absurd hdeep (by decide)
    · rw [treeOf_insert hp', Function.update_self]
      rfl
  · exact Or.inl ⟨_, h⟩

/-- With the parent in the table, the check lets the request pass. -/
theorem parentCheck_found {t : Table} (ht : Tree t) {names : List Str} (hp : Plain names)
    {w : SqlValue} (hw : treeOf t names.dropLast = some w) (hshort : ¬ TooLong t (parentKey names))
    (default : Option Str) : parentCheck t default names = .ok t := by
  have hp' := plain_dropLast hp
  have hmem : keyOf names.dropLast ∈ t :=
    (treeOf_ne_none.mp (by rw [hw]; exact Option.some_ne_none w)).2
  have hparent : HasParent t (rstrip (parentKey names)) := by
    rw [rstrip_parentKey hp]
    exact (hasParent_iff ht.spelled hp').mpr hmem
  rcases parentCheck_cases t default names with ⟨hlong, -⟩ | ⟨-, -, h⟩ | ⟨-, -, hnp, -⟩ |
    ⟨-, hnp, -⟩
  · exact absurd hlong hshort
  · exact h
  · exact absurd hparent hnp
  · exact absurd hparent hnp

/-! ## Requests that break the tree -/

/-- The parent of the path is in the table and is no container. -/
def BelowSecret (t : Table) (names : List Str) : Prop :=
  ¬ TooLong t (parentKey names) ∧ ∃ w, t.lookup (keyOf names.dropLast) = some w ∧ w ≠ emptyValue

/-- A PUT with a storable value or a POST directly below an entry that is no
    container, or a DELETE through a key path of an entry with entries below. -/
inductive Breaks (con : Secrets) (t : Table) (req : Request) : Prop where
  | put (client : Str) (msg : Handler) (v : SqlValue) (h : Puts con req client msg)
      (hvalue : bindValue setErrorText msg.payload = .ok v) (hbelow : BelowSecret t (segments req))
  | post (msg : Handler) (h : Posts con req msg) (hlen : 2 < (segments req).length)
      (hbelow : BelowSecret t (segments req).dropLast)
  | delete (client : Str) (msg : Handler) (h : Deletes con req client msg)
      (hbelow : HasChild t (entryKey req))

variable {con : Secrets} {req : Request} {names : List Str} {t : Table}

/-- What is placed below a secret breaks the tree: it was not there before. -/
theorem not_closed_places {c : Call} {v : SqlValue} (hp : Plain names) (hlen : 2 ≤ names.length)
    (ht : Tree t) (hbelow : BelowSecret t names)
    (hc : keyOf names ∉ t → (exec c t).2 = t.insert (keyOf names) v) :
    ¬ Closed emptyValue (treeOf (exec c t).2) := by
  obtain ⟨-, w, hw, hdiff⟩ := hbelow
  have hp' := plain_dropLast hp
  have hparent : treeOf t names.dropLast ≠ some emptyValue := by
    rw [treeOf_plain hp', hw]
    exact fun h => hdiff (Option.some.inj h)
  have hfree : keyOf names ∉ t := by
    intro hmem
    exact hparent (ht.closed names hlen (treeOf_ne_none.mpr ⟨hp, hmem⟩))
  rw [hc hfree, treeOf_insert hp]
  exact not_closed_insert hlen hparent

/-- **A request that breaks the tree breaks it for good**: in the table that it
    leaves, some entry has no parent that is a container. -/
theorem breaks_tree (ha : Addresses req names) (ht : Tree t) (hb : Breaks con t req) :
    ¬ Closed emptyValue (treeOf (respond con req t).2) := by
  cases hb with
  | put client msg v h hvalue hbelow =>
      have hseg := entry_segments ha h.entry
      have hkey := entryKey_entry ha h.entry
      have hlen := h.deep
      rw [hseg] at hbelow hlen
      obtain ⟨hshort, w, hw, hdiff⟩ := hbelow
      have hcheck := parentCheck_found ht ha.1
        (by rw [treeOf_plain (plain_dropLast ha.1), hw]) hshort req.defaultNamespace
      rw [respond_put h, hseg, hcheck, hkey]
      refine not_closed_places (v := v) ha.1 hlen ht ⟨hshort, w, hw, hdiff⟩ ?_
      intro hfree
      rw [exec_set_not_mem (endsInSlash_keyOf ha.1) hvalue hfree]
  | post msg h hlen hbelow =>
      have hseg := container_segments ha h.container
      have hstrip := rstrip_entryKey ha h.container
      have hdrop : (segments req).dropLast = names := by rw [hseg, List.dropLast_concat]
      have hdeep : 2 ≤ names.length := by
        rw [← hdrop, List.length_dropLast]
        omega
      rw [hdrop] at hbelow
      obtain ⟨hshort, w, hw, hdiff⟩ := hbelow
      have hcheck := parentCheck_found ht ha.1
        (by rw [treeOf_plain (plain_dropLast ha.1), hw]) hshort req.defaultNamespace
      rw [respond_post_below h hlen, hdrop, hcheck]
      refine not_closed_places (v := .text []) ha.1 hdeep ht ⟨hshort, w, hw, hdiff⟩ ?_
      intro hfree
      rw [exec_span_not_mem (by rw [hstrip]; exact hfree), hstrip]
  | delete client msg h hbelow =>
      have hkey := entryKey_entry ha h.entry
      have hdeep := h.deep
      rw [entry_segments ha h.entry] at hdeep
      have hne := ne_nil_of_two_le hdeep
      rw [hkey] at hbelow
      have hbelow := (hasChild_iff ht.spelled ha.1).mp hbelow
      obtain ⟨tail, htail, hmem⟩ := hbelow
      have hself := closed_above ht.closed hne tail htail hmem
      have hin : keyOf names ∈ t :=
        (treeOf_ne_none.mp (by rw [hself]; exact Option.some_ne_none _)).2
      rw [respond_delete h, hkey, exec_cut_mem hin, treeOf_erase ha.1]
      exact fun hclosed => (closed_remove_iff ht.closed hne).mp hclosed ⟨tail, htail, hmem⟩

/-! ## All other requests keep it -/

/-- After the parent check, the entry is placed in a container or not at all. -/
theorem tree_placed {c : Call} (hp : Plain names) (hlen : 2 ≤ names.length) (ht : Tree t)
    (hc : Places c names) (hbelow : BelowSecret t names → (exec c t).2 = t)
    {default : Option Str} {t' : Table} (hcheck : parentCheck t default names = .ok t') :
    Tree (exec c t').2 := by
  have hne := ne_nil_of_two_le hlen
  rcases parentCheck_tree ht hp hlen default with ⟨e, h⟩ | ⟨w, hw, hshort, h⟩ | ⟨t₁, ht₁, hbox, h⟩
  · rw [hcheck] at h
    exact nomatch h
  · obtain rfl := Except.ok.inj (hcheck.symm.trans h)
    by_cases hbox : w = emptyValue
    · exact tree_places hc hp hne ht (fun _ => by rw [hw, hbox])
    · rw [treeOf_plain (plain_dropLast hp)] at hw
      rw [hbelow ⟨hshort, w, hw, hbox⟩]
      exact ht
  · obtain rfl := Except.ok.inj (hcheck.symm.trans h)
    exact tree_places hc hp hne ht₁ (fun _ => hbox)

/-- A POST that does not break the tree keeps it: below a container there may be
    another one. -/
theorem post_keeps_tree {msg : Handler} (ha : Addresses req names) (ht : Tree t)
    (hb : ¬ Breaks con t req) (h : Posts con req msg) : Tree (respond con req t).2 := by
  have hseg := container_segments ha h.container
  have hstrip := rstrip_entryKey ha h.container
  have hdrop : (segments req).dropLast = names := by rw [hseg, List.dropLast_concat]
  have hplaces := places_span hstrip
  have hdeep := h.deep
  have hlen : (segments req).length = names.length + 1 := by
    rw [hseg, List.length_append, List.length_singleton]
  by_cases htop : (segments req).length = 2
  · rw [respond_post_top h htop]
    refine tree_places hplaces ha.1 ?_ ht (fun h2 => by omega)
    intro hnil
    rw [hnil] at hlen
    exact absurd hlen (by rw [htop]; decide)
  · have hbelow : 2 < (segments req).length := by omega
    rw [respond_post_below h hbelow, hdrop]
    cases hcheck : parentCheck t req.defaultNamespace names with
    | error e => exact ht
    | ok t' =>
        refine tree_placed ha.1 (by omega) ht hplaces ?_ hcheck
        intro hsecret
        exact absurd (.post msg h hbelow (hdrop ▸ hsecret)) hb

/-- A DELETE of a container keeps the tree, since only an empty one is removed. -/
theorem destroy_keeps_tree {msg : Handler} (ha : Addresses req names) (ht : Tree t)
    (h : Destroys con req msg) : Tree (respond con req t).2 := by
  have hstrip := rstrip_entryKey ha h.container
  have hne : names ≠ [] := by
    intro hnil
    have hdeep := h.deep
    rw [container_segments ha h.container, hnil] at hdeep
    exact absurd hdeep (by decide)
  have hkeyne : entryKey req ≠ [] := by
    rw [entryKey_container ha h.container]
    simp
  rw [respond_destroy h, hstrip]
  rcases listing_cases t hkeyne with ⟨-, text, hlist⟩ | ⟨-, -, found, hfound, hlist⟩ |
    ⟨-, hleaf, -, hlist⟩ | ⟨-, -, -, hlist⟩
  · rw [hlist]; exact ht
  · rw [hlist]
    cases found with
    | nil => exact absurd rfl hfound
    | cons a l => exact ht
  · -- only a container with nothing below it is cut
    rw [hlist]
    rw [hstrip, hasChild_iff ht.spelled ha.1] at hleaf
    exact tree_cut ha.1 hne ht hleaf
  · rw [hlist]; exact ht

/-- **Every other request keeps the tree**, by its kind: what is added has a
    container above it, and what is removed has nothing below. -/
theorem keeps_tree (ha : Addresses req names) (ht : Tree t) (hb : ¬ Breaks con t req) :
    Tree (respond con req t).2 := by
  cases request_kind con req with
  | get client msg h => rw [respond_get h]; exact ht
  | list key msg h => rw [respond_list h]; exact ht
  | refused o hrun h => rw [respond_refused hrun]; exact ht
  | put client msg h =>
      have hseg := entry_segments ha h.entry
      have hlen := h.deep
      rw [respond_put h, entryKey_entry ha h.entry, hseg]
      cases hcheck : parentCheck t req.defaultNamespace names with
      | error e => exact ht
      | ok t' =>
          refine tree_placed ha.1 (hseg ▸ hlen) ht (places_set names msg.payload) ?_ hcheck
          intro hbelow
          cases hvalue : bindValue setErrorText msg.payload with
          | error e => rw [exec_set_unbound (endsInSlash_keyOf ha.1) hvalue]
          | ok v => exact absurd (.put client msg v h hvalue (hseg ▸ hbelow)) hb
  | post msg h => exact post_keeps_tree ha ht hb h
  | destroy msg h => exact destroy_keeps_tree ha ht h
  | delete client msg h =>
      have hkey := entryKey_entry ha h.entry
      have hdeep := h.deep
      rw [entry_segments ha h.entry] at hdeep
      rw [respond_delete h, hkey]
      refine tree_cut ha.1 (ne_nil_of_two_le hdeep) ht ?_
      intro hbelow
      refine hb (.delete client msg h ?_)
      rw [hkey]
      exact (hasChild_iff ht.spelled ha.1).mpr hbelow

/-! ## Runs -/

/-- The segments of the request are proper names, the trailing empty one
    apart. -/
def WellFormed (req : Request) : Prop := ∃ names, Addresses req names

/-- A request with proper names keeps the tree exactly if it does not break it. -/
theorem tree_step_iff (hreq : WellFormed req) (ht : Tree t) :
    Tree (respond con req t).2 ↔ ¬ Breaks con t req := by
  obtain ⟨names, ha⟩ := hreq
  constructor
  · intro h hb
    exact breaks_tree ha ht hb h.closed
  · exact keeps_tree ha ht

/-- Keys stay spelled whatever is requested. -/
theorem spelled_step (hreq : WellFormed req) (ht : Spelled t) :
    Spelled (respond con req t).2 := by
  obtain ⟨names, ha⟩ := hreq
  have hcheck : ∀ default t', parentCheck t default names = .ok t' → Spelled t' := by
    intro default t' h
    rcases parentCheck_cases t default names with ⟨-, h'⟩ | ⟨-, -, h'⟩ | ⟨-, -, -, -, h'⟩ |
      ⟨-, -, -, h'⟩
    · exact nomatch h.symm.trans h'
    · obtain rfl := Except.ok.inj (h.symm.trans h')
      exact ht
    · obtain rfl := Except.ok.inj (h.symm.trans h')
      rw [rstrip_parentKey ha.1]
      exact spelled_insert ht (plain_dropLast ha.1) _
    · exact nomatch h.symm.trans h'
  cases request_kind con req with
  | get client msg h => rw [respond_get h]; exact ht
  | list key msg h => rw [respond_list h]; exact ht
  | refused o hrun h => rw [respond_refused hrun]; exact ht
  | put client msg h =>
      rw [respond_put h, entryKey_entry ha h.entry, entry_segments ha h.entry]
      cases hc : parentCheck t req.defaultNamespace names with
      | error e => exact ht
      | ok t' => exact spelled_places (places_set names msg.payload) ha.1 (hcheck _ _ hc)
  | post msg h =>
      have hplaces := places_span (rstrip_entryKey ha h.container)
      by_cases htop : (segments req).length = 2
      · rw [respond_post_top h htop]
        exact spelled_places hplaces ha.1 ht
      · have hdeep := h.deep
        rw [respond_post_below h (by omega), container_segments ha h.container,
          List.dropLast_concat]
        cases hc : parentCheck t req.defaultNamespace names with
        | error e => exact ht
        | ok t' => exact spelled_places hplaces ha.1 (hcheck _ _ hc)
  | destroy msg h =>
      rw [respond_destroy h]
      match listing t (entryKey req) with
      | .error e => exact ht
      | .ok none => exact ht
      | .ok (some []) => exact spelled_cut ht _
      | .ok (some (a :: l)) => exact ht
  | delete client msg h =>
      rw [respond_delete h]
      exact spelled_cut ht _

/-- **HEADLINE — the container tree.** In a run from the empty store, every
    entry of every state has its parent in the store as a container exactly
    when no request of the run is a PUT or POST directly below an entry that is
    no container, or a DELETE through a key path of an entry with entries
    below. -/
theorem parented_run_iff (vs : List Visit) (hreqs : ∀ v ∈ vs, WellFormed v.req) :
    (∀ s ∈ states vs ∅, Parented s)
      ↔ ∀ step ∈ steps vs ∅, ¬ Breaks step.2.con step.1 step.2.req := by
  have hspelled : ∀ s ∈ states vs ∅, Spelled s :=
    (states_invariant_iff (fun _ => True)
      (fun t v hreq ht => iff_of_true (spelled_step hreq ht) trivial)
      vs ∅ hreqs spelled_empty).mpr (fun _ _ => trivial)
  have htree := states_invariant_iff (fun step => ¬ Breaks step.2.con step.1 step.2.req)
    (fun t v hreq ht => tree_step_iff hreq ht) vs ∅ hreqs tree_empty
  rw [← htree]
  constructor
  · intro h s hs
    exact ⟨hspelled s hs, (parented_iff s).mp (h s hs)⟩
  · intro h s hs
    exact (parented_iff s).mpr (h s hs).closed

/-- A PUT of a secret, and one of an entry below it. -/
def putBelowSecret : List Visit :=
  [⟨simpleSecrets, putBytes "u" ["u", "k"] [65]⟩,
    ⟨simpleSecrets, putBytes "u" ["u", "k", "x"] [66]⟩]

/-- The second PUT goes below the secret that the first one has stored. -/
theorem entry_below_secret :
    (∀ v ∈ putBelowSecret, WellFormed v.req) ∧ ¬ ∀ s ∈ states putBelowSecret ∅, Parented s := by
  constructor
  · intro v hv
    rcases List.mem_cons.mp hv with rfl | hv
    · exact ⟨["u", "k"], by decide, Or.inl rfl⟩
    · obtain rfl := List.mem_singleton.mp hv
      exact ⟨["u", "k", "x"], by decide, Or.inl rfl⟩
  · intro h
    have hlast := h (tableAfter putBelowSecret ∅)
      (List.mem_cons_of_mem _ (List.mem_cons_of_mem _ List.mem_cons_self))
    exact absurd (hlast ["u", "k", "x"] (by decide) (by decide) (by decide)) (by decide)

/-- One PUT into the empty store meets the condition. -/
theorem parented_single_put :
    (tableAfter [⟨simpleSecrets, putBytes "u" ["u", "k"] [65]⟩] ∅).lookup "keys/u/k".toList
      = some (.text "QQ==".toList)
    ∧ ∀ s ∈ states [⟨simpleSecrets, putBytes "u" ["u", "k"] [65]⟩] ∅, Parented s := by
  refine ⟨by decide, (parented_run_iff _ ?_).mpr ?_⟩
  · intro v hv
    obtain rfl := List.mem_singleton.mp hv
    exact ⟨["u", "k"], by decide, Or.inl rfl⟩
  · intro step hstep hbreaks
    obtain rfl := List.mem_singleton.mp hstep
    cases hbreaks with
    | put client msg value h hvalue hbelow =>
        obtain ⟨-, w, hw, -⟩ := hbelow
        exact nomatch hw
    | post msg h => exact absurd h.command (by decide)
    | delete client msg h => exact absurd h.command (by decide)

end ContainerTreeProofs
