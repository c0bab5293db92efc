import Custodia.StoreAttachment

/-! # AttachmentProofs — every plugin is attached to its store

    Every nested call of `finalize_init` follows the first assignment of an
    attribute, so the second stage ends; what it has assigned it never assigns
    again, so the order in which it visits the plugins does not matter.

    * `sound_finalizeInit`: what finalizing keeps;
    * `ends_finalizeInit`: that it ends;
    * `served_finalizeInit`: what it has set up for IPA where it ends normally;
    * `attachment_of_order`: in whatever order the plugins are visited, they
      are all attached, or the stage reports why not. -/

namespace AttachmentProofs

open PosixPath PyValues Stages StoreAttachment

variable {ι : Type} [DecidableEq ι] (setup : Setup ι)

/-! ## What the stage keeps -/

omit [DecidableEq ι] in
/-- A plugin that is found under a name is one of its dictionary. -/
theorem mem_menu {κ : Type} [DecidableEq κ] [LE κ] [DecidableLE κ]
    {plugins : AList (fun _ : κ => ι)} {name : κ} {p : ι} (h : plugins.lookup name = some p) :
    p ∈ menu plugins := by
  refine List.mem_map.mpr ⟨⟨name, p⟩, ?_, rfl⟩
  rw [List.mem_insertionSort]
  exact AList.mem_lookup_iff.mp h

omit [DecidableEq ι] in
/-- A store that is found under a name is among the loaded plugins. -/
theorem mem_loaded_of_store {name : Str} {p : ι} (h : setup.stores.lookup name = some p) :
    p ∈ setup.loaded := List.mem_append_right _ (mem_menu h)

omit [DecidableEq ι] in
/-- An authenticator that is found under a name is among the loaded plugins. -/
theorem mem_loaded_of_authenticator {name : Str} {p : ι}
    (h : setup.authenticators.lookup name = some p) : p ∈ setup.loaded :=
  List.mem_append_left _ (List.mem_append_left _ (List.mem_append_left _ (mem_menu h)))

/-- Every attachment is made once, to the store that the plugin names, and only
    to plugins that have been loaded. An invariant of the stage, whatever the
    order and the errors. -/
structure Valid (s : Progress ι) : Prop where
  once : (s.stores.map Prod.fst).Nodup
  right : ∀ p q, (p, q) ∈ s.stores →
    p ∈ setup.loaded ∧ ∃ name, setup.storeName p = some name ∧ setup.stores.lookup name = some q

/-- More assignments have been made, behind those that were made before: nothing
    that has been assigned is ever assigned anew. -/
structure Extends (s s' : Progress ι) : Prop where
  stores : s.stores <:+ s'.stores
  ipas : s.ipas <:+ s'.ipas

instance : IsPreorder (Progress ι) Extends where
  refl _ := ⟨List.suffix_refl _, List.suffix_refl _⟩
  trans _ _ _ h h' := ⟨h.stores.trans h'.stores, h.ipas.trans h'.ipas⟩

/-- The exceptions of the parts that are not about stores: there is no plugin
    for IPA, its environment cannot be set up, or the connection for the vaults
    fails. -/
inductive IpaError (p : ι) : Exc → Prop where
  | missing (hclient : setup.pluginClass p = .ipaVault ∨ setup.pluginClass p = .ipaCertRequest)
      (hnone : setup.authenticators.lookup ("ipa" : Str) = none) : IpaError p noIpa
  | bootstrap (e : Exc) (hclass : setup.pluginClass p = .ipaInterface)
      (hfail : setup.bootstrap p = .error e) : IpaError p e
  | connect (e : Exc) (hclass : setup.pluginClass p = .ipaVault)
      (hfail : setup.connect p = .error e) : IpaError p e

/-- The exceptions of the stage: that of a plugin whose store is not configured,
    which names both, or one that is about IPA. It raises no other. -/
inductive Reported : Exc → Prop where
  | store (p : ι) (name : Str) (hp : p ∈ setup.loaded) (hname : setup.storeName p = some name)
      (hnone : setup.stores.lookup name = none) : Reported (missingStore setup p name)
  | ipa (p : ι) (e : Exc) (hp : p ∈ setup.loaded) (h : IpaError setup p e) : Reported e

/-- How many assignments can still be the first ones. -/
def pending (s : Progress ι) : Nat :=
  missing setup.loaded s.stores + missing setup.loaded s.ipas

/-- What the recursive calls of the stage keep. -/
abbrev Sound (step : Step ι) : Prop := Keeps (Valid setup) Extends (Reported setup) step

section Steps

variable {setup} {finalize : ι → Step ι} {p q : ι} {name : Str} {s s' : Progress ι} {fuel : Nat}

omit [DecidableEq ι] in
/-- At the start nothing is attached, so nothing is attached twice or wrongly. -/
theorem valid_start : Valid setup (start : Progress ι) :=
  ⟨List.nodup_nil, fun _ _ h => absurd h List.not_mem_nil⟩

/-- **The store of a plugin is the one it has been paired with**; a plugin is
    paired once at most. -/
theorem store_eq_some_iff (hs : Valid setup s) : s.store p = some q ↔ (p, q) ∈ s.stores :=
  ⟨mem_of_assigned, assigned_of_mem hs.once⟩

/-- An attachment that is made stays. -/
theorem store_of_extends (h : Extends s s') (hs' : Valid setup s') (hstore : s.store p = some q) :
    s'.store p = some q :=
  (store_eq_some_iff hs').mpr (h.stores.subset (mem_of_assigned hstore))

/-- What is still to be done only gets less, as long as nothing is taken back. -/
theorem pending_mono (h : Extends s s') : pending setup s' ≤ pending setup s :=
  Nat.add_le_add (missing_mono _ h.stores) (missing_mono _ h.ipas)

/-- Attaching the store that a plugin names, where none is attached yet, keeps
    the state valid. -/
theorem valid_attach (hs : Valid setup s) (hp : p ∈ setup.loaded)
    (hname : setup.storeName p = some name) (hstore : setup.stores.lookup name = some q)
    (hnone : s.store p = none) : Valid setup { s with stores := (p, q) :: s.stores } where
  once := List.nodup_cons.mpr ⟨assigned_eq_none_iff.mp hnone, hs.once⟩
  right := by
    intro p' q' hmem
    rcases List.mem_cons.mp hmem with heq | hmem
    · obtain ⟨rfl, rfl⟩ := Prod.mk.inj heq
      exact ⟨hp, name, hname, hstore⟩
    · exact hs.right p' q' hmem

omit [DecidableEq ι] in
/-- Attaching a store takes nothing back. -/
theorem extends_attach (s : Progress ι) (p q : ι) :
    Extends s { s with stores := (p, q) :: s.stores } :=
  ⟨List.suffix_cons _ _, List.suffix_refl _⟩

omit [DecidableEq ι] in
/-- Giving a plugin its IPA interface takes nothing back. -/
theorem extends_client (s : Progress ι) (p q : ι) :
    Extends s { s with ipas := (p, q) :: s.ipas } :=
  ⟨List.suffix_refl _, List.suffix_cons _ _⟩

omit [DecidableEq ι] in
/-- Giving a plugin its IPA interface says nothing about stores. -/
theorem valid_client (hs : Valid setup s) (p q : ι) :
    Valid setup { s with ipas := (p, q) :: s.ipas } := ⟨hs.once, hs.right⟩

/-- Attaching a plugin keeps what finalizing the stores keeps. -/
theorem sound_attachStore (hfinalize : ∀ q ∈ setup.loaded, Sound setup (finalize q))
    (hp : p ∈ setup.loaded) (hname : setup.storeName p = some name) :
    Sound setup (attachStore setup finalize p name) := by
  intro s r s' hs h
  rcases attachStore_cases setup p name s with ⟨-, -, hdone⟩ | ⟨hnone, hraise⟩ |
    ⟨q, hnone, hstore, hcall⟩
  · rw [hdone] at h
    exact keeps_done s r s' hs h
  · rw [hraise] at h
    exact keeps_raise (.store p name hp hname hnone) s r s' hs h
  · rw [hcall] at h
    obtain ⟨hs', hmoved, hraised⟩ := hfinalize q (mem_loaded_of_store setup hstore) _ r s'
      (valid_attach hs hp hname hstore hnone) h
    exact ⟨hs', trans_of Extends (extends_attach s p q) hmoved, hraised⟩

/-- The initialization of any plugin is sound, if that of the store it names is. -/
theorem sound_pluginInit (hfinalize : ∀ q ∈ setup.loaded, Sound setup (finalize q))
    (hp : p ∈ setup.loaded) : Sound setup (pluginInit setup finalize p) := by
  rw [pluginInit]
  cases hname : setup.storeName p with
  | none => exact keeps_done
  | some name => exact sound_attachStore hfinalize hp hname

/-- The initialization of the IPA interface is sound: it attaches nothing. -/
theorem sound_interfaceInit (hp : p ∈ setup.loaded) (hclass : setup.pluginClass p = .ipaInterface) :
    Sound setup (interfaceInit setup p) := by
  intro s r s' hs h
  rcases interfaceInit_cases setup p s with ⟨-, hdone⟩ | ⟨e, hfail, hraise⟩ | ⟨-, hset⟩
  · rw [hdone] at h
    exact keeps_done s r s' hs h
  · rw [hraise] at h
    exact keeps_raise (.ipa p e hp (.bootstrap e hclass hfail)) s r s' hs h
  · rw [hset] at h
    obtain ⟨rfl, rfl⟩ := Prod.mk.inj (Option.some.inj h)
    refine ⟨⟨hs.once, hs.right⟩, ⟨List.suffix_refl _, List.suffix_refl _⟩, fun e he => ?_⟩
    cases he

/-- The initialization of a client of the IPA server is sound: it is that of any
    plugin, then that of the interface, then its own. -/
theorem sound_clientInit (hfinalize : ∀ q ∈ setup.loaded, Sound setup (finalize q))
    (hp : p ∈ setup.loaded)
    (hclass : setup.pluginClass p = .ipaVault ∨ setup.pluginClass p = .ipaCertRequest)
    {more : Step ι} (hmore : Sound setup more) :
    Sound setup (clientInit setup finalize p more) := by
  intro s r s' hs h
  rcases clientInit_cases setup p more s with ⟨-, -, hdone⟩ | ⟨hnone, hraise⟩ |
    ⟨ipa, -, hipa, hcall⟩
  · rw [hdone] at h
    exact keeps_done s r s' hs h
  · rw [hraise] at h
    exact keeps_raise (.ipa p noIpa hp (.missing hclass hnone)) s r s' hs h
  · rw [hcall] at h
    have hsound := keeps_andThen (hfinalize ipa (mem_loaded_of_authenticator setup hipa)) hmore
    obtain ⟨hs', hmoved, hraised⟩ := hsound _ r s' (valid_client hs p ipa) h
    exact ⟨hs', trans_of Extends (extends_client s p ipa) hmoved, hraised⟩

omit [DecidableEq ι] in
/-- Connecting to the server changes no state, and fails with what the server
    raises. -/
theorem sound_connect (hp : p ∈ setup.loaded) (hclass : setup.pluginClass p = .ipaVault) :
    Sound setup (fun s => some (setup.connect p, s)) := by
  intro s r s' hs h
  obtain ⟨rfl, rfl⟩ := Prod.mk.inj (Option.some.inj h)
  exact ⟨hs, refl_of Extends s, fun e he => .ipa p e hp (.connect e hclass he)⟩

/-- Whatever class a plugin is of, its initialization is sound if that of the
    others is. -/
theorem sound_classInit (hfinalize : ∀ q ∈ setup.loaded, Sound setup (finalize q))
    (hp : p ∈ setup.loaded) : Sound setup (classInit setup finalize p) := by
  rw [classInit]
  cases hclass : setup.pluginClass p with
  | plugin => exact keeps_done
  | ipaInterface => exact sound_interfaceInit hp hclass
  | ipaVault => exact sound_clientInit hfinalize hp (Or.inl hclass) (sound_connect hp hclass)
  | ipaCertRequest => exact sound_clientInit hfinalize hp (Or.inr hclass) keeps_done

/-- **What finalizing keeps**, whatever the references between the plugins:
    attachments are made once and rightly, and none is lost. -/
theorem sound_finalizeInit : ∀ (fuel : Nat), ∀ p ∈ setup.loaded,
    Sound setup (finalizeInit setup fuel p) := by
  intro fuel
  induction fuel with
  | zero =>
      intro p _ s r s' _ h
      cases h
  | succ fuel ih =>
      intro p hp
      exact keeps_andThen (sound_pluginInit ih hp) (sound_classInit ih hp)

/-! ## The stage ends -/

/-- What finalizing a plugin needs of the stage below a bound on the pending
    assignments. -/
abbrev Ends (setup : Setup ι) (bound : Nat) (step : Step ι) : Prop :=
  Finishes (Valid setup) (pending setup) bound step

/-- Attaching a store that was not attached leaves less to be done. -/
theorem pending_attach_lt (hp : p ∈ setup.loaded) (hnone : s.store p = none) :
    pending setup { s with stores := (p, q) :: s.stores } < pending setup s :=
  Nat.add_lt_add_right (missing_cons_lt hp hnone) _

/-- Giving a plugin the interface that it did not have leaves less to be done. -/
theorem pending_client_lt (hp : p ∈ setup.loaded) (hnone : assigned s.ipas p = none) :
    pending setup { s with ipas := (p, q) :: s.ipas } < pending setup s :=
  Nat.add_lt_add_left (missing_cons_lt hp hnone) _

/-- Attaching a store ends: before it looks at the store, it has made what is
    left to be done smaller. -/
theorem ends_attachStore (hfinalize : ∀ q ∈ setup.loaded, Ends setup fuel (finalize q))
    (hp : p ∈ setup.loaded) (hname : setup.storeName p = some name) :
    Ends setup (fuel + 1) (attachStore setup finalize p name) := by
  intro s hs hbound
  rcases attachStore_cases setup p name s with ⟨-, -, hdone⟩ | ⟨-, hraise⟩ |
    ⟨q, hnone, hstore, hcall⟩
  · exact ⟨_, _, hdone finalize⟩
  · exact ⟨_, _, hraise finalize⟩
  · rw [hcall]
    refine hfinalize q (mem_loaded_of_store setup hstore) _
      (valid_attach hs hp hname hstore hnone) ?_
    -- the assignment was pending, so the call has fuel enough
    exact Nat.lt_of_lt_of_le (pending_attach_lt hp hnone) (Nat.lt_succ_iff.mp hbound)

/-- The initialization of any plugin ends, with one more unit of fuel than those
    of the others. -/
theorem ends_pluginInit (hfinalize : ∀ q ∈ setup.loaded, Ends setup fuel (finalize q))
    (hp : p ∈ setup.loaded) : Ends setup (fuel + 1) (pluginInit setup finalize p) := by
  rw [pluginInit]
  cases hname : setup.storeName p with
  | none => exact fun s _ _ => ⟨_, _, rfl⟩
  | some name => exact ends_attachStore hfinalize hp hname

/-- The initialization of a client of the IPA server ends: it marks the client
    before it goes on to the interface. -/
theorem ends_clientInit (hsound : ∀ q ∈ setup.loaded, Sound setup (finalize q))
    (hfinalize : ∀ q ∈ setup.loaded, Ends setup fuel (finalize q)) (hp : p ∈ setup.loaded)
    {more : Step ι} (hmore : Ends setup fuel more) :
    Ends setup (fuel + 1) (clientInit setup finalize p more) := by
  intro s hs hbound
  rcases clientInit_cases setup p more s with ⟨-, -, hdone⟩ | ⟨-, hraise⟩ |
    ⟨ipa, hnone, hipa, hcall⟩
  · exact ⟨_, _, hdone finalize⟩
  · exact ⟨_, _, hraise finalize⟩
  · rw [hcall]
    have hmem := mem_loaded_of_authenticator setup hipa
    refine finishes_andThen (fun s s' h => pending_mono h) (hsound ipa hmem)
      (hfinalize ipa hmem) hmore _ (valid_client hs p ipa) ?_
    exact Nat.lt_of_lt_of_le (pending_client_lt hp hnone) (Nat.lt_succ_iff.mp hbound)

/-- The initialization of the IPA interface calls no other. -/
theorem ends_interfaceInit (bound : Nat) (p : ι) : Ends setup bound (interfaceInit setup p) := by
  intro s _ _
  rcases interfaceInit_cases setup p s with ⟨-, hdone⟩ | ⟨e, -, hraise⟩ | ⟨-, hset⟩
  · exact ⟨_, _, hdone⟩
  · exact ⟨_, _, hraise⟩
  · exact ⟨_, _, hset⟩

/-- Whatever class a plugin is of, its initialization ends, with one more unit
    of fuel than those of the others. -/
theorem ends_classInit (hsound : ∀ q ∈ setup.loaded, Sound setup (finalize q))
    (hfinalize : ∀ q ∈ setup.loaded, Ends setup fuel (finalize q)) (hp : p ∈ setup.loaded) :
    Ends setup (fuel + 1) (classInit setup finalize p) := by
  rw [classInit]
  cases setup.pluginClass p with
  | plugin => exact fun s _ _ => ⟨_, _, rfl⟩
  | ipaInterface => exact ends_interfaceInit _ p
  | ipaVault => exact ends_clientInit hsound hfinalize hp (fun s _ _ => ⟨_, _, rfl⟩)
  | ipaCertRequest => exact ends_clientInit hsound hfinalize hp (fun s _ _ => ⟨_, _, rfl⟩)

/-- **Finalizing ends**: the calls are nested no deeper than there are
    assignments pending. -/
theorem ends_finalizeInit : ∀ (fuel : Nat), ∀ p ∈ setup.loaded,
    Ends setup fuel (finalizeInit setup fuel p) := by
  intro fuel
  induction fuel with
  | zero => exact fun p _ s _ hbound => absurd hbound (Nat.not_lt_zero _)
  | succ fuel ih =>
      intro p hp
      exact finishes_andThen (fun s s' h => pending_mono h)
        (sound_pluginInit (sound_finalizeInit fuel) hp) (ends_pluginInit ih hp)
        (ends_classInit (sound_finalizeInit fuel) ih hp)

/-! ### More fuel changes nothing -/

/-- More fuel for the store that is named gives attaching no other result. -/
theorem refines_attachStore {finalize' : ι → Step ι}
    (h : ∀ q, Refines (finalize q) (finalize' q)) :
    Refines (attachStore setup finalize p name) (attachStore setup finalize' p name) := by
  intro s x hx
  rcases attachStore_cases setup p name s with ⟨-, -, hdone⟩ | ⟨-, hraise⟩ | ⟨q, -, -, hcall⟩
  · rw [hdone] at hx ⊢
    exact hx
  · rw [hraise] at hx ⊢
    exact hx
  · rw [hcall] at hx ⊢
    exact h q _ x hx

/-- More fuel for the interface gives the initialization of its client no other
    result. -/
theorem refines_clientInit {finalize' : ι → Step ι} (more : Step ι)
    (h : ∀ q, Refines (finalize q) (finalize' q)) :
    Refines (clientInit setup finalize p more) (clientInit setup finalize' p more) := by
  intro s x hx
  rcases clientInit_cases setup p more s with ⟨-, -, hdone⟩ | ⟨-, hraise⟩ | ⟨ipa, -, -, hcall⟩
  · rw [hdone] at hx ⊢
    exact hx
  · rw [hraise] at hx ⊢
    exact hx
  · rw [hcall] at hx ⊢
    exact refines_andThen (h ipa) (refines_refl more) _ x hx

/-- **More fuel gives no other result**, by induction on the fuel. -/
theorem refines_finalizeInit : ∀ (fuel : Nat) (p : ι),
    Refines (finalizeInit setup fuel p) (finalizeInit setup (fuel + 1) p) := by
  intro fuel
  induction fuel with
  | zero =>
      intro p s x h
      cases h
  | succ fuel ih =>
      intro p
      refine refines_andThen ?_ ?_
      · rw [pluginInit, pluginInit]
        cases setup.storeName p with
        | none => exact refines_refl _
        | some name => exact refines_attachStore ih
      · rw [classInit, classInit]
        cases setup.pluginClass p with
        | plugin => exact refines_refl _
        | ipaInterface => exact refines_refl _
        | ipaVault => exact refines_clientInit _ ih
        | ipaCertRequest => exact refines_clientInit _ ih

/-! ## Every plugin is attached -/

/-- When attaching has ended normally, there is a store. -/
theorem attached_of_attachStore (hsound : ∀ q ∈ setup.loaded, Sound setup (finalize q))
    (hp : p ∈ setup.loaded) (hname : setup.storeName p = some name) (hs : Valid setup s)
    (h : attachStore setup finalize p name s = some (.ok (), s')) : ∃ q, s'.store p = some q := by
  rcases attachStore_cases setup p name s with ⟨q, hq, hdone⟩ | ⟨-, hraise⟩ |
    ⟨q, hnone, hstore, hcall⟩
  · obtain ⟨-, rfl⟩ := Prod.mk.inj (Option.some.inj ((hdone finalize).symm.trans h))
    exact ⟨q, hq⟩
  · cases (hraise finalize).symm.trans h
  · rw [hcall] at h
    obtain ⟨hs', hmoved, -⟩ := hsound q (mem_loaded_of_store setup hstore) _ _ s'
      (valid_attach hs hp hname hstore hnone) h
    refine ⟨q, store_of_extends hmoved hs' ?_⟩
    exact (assigned_cons _ _ _).trans (if_pos rfl)

/-- A plugin that is finalized is attached, if it names a store. -/
theorem attached_of_finalizeInit (hp : p ∈ setup.loaded) (hname : setup.storeName p = some name)
    (hs : Valid setup s) (h : finalizeInit setup fuel p s = some (.ok (), s')) :
    ∃ q, s'.store p = some q := by
  cases fuel with
  | zero => cases h
  | succ fuel =>
      have hsound : ∀ q ∈ setup.loaded, Sound setup (finalizeInit setup fuel q) :=
        sound_finalizeInit fuel
      rcases andThen_cases h with ⟨e, he, -⟩ | ⟨s₁, hfirst, hrest⟩
      · cases he
      · obtain ⟨hs₁, -, -⟩ := sound_pluginInit hsound hp s _ s₁ hs hfirst
        obtain ⟨hs', hmoved, -⟩ := sound_classInit hsound hp s₁ _ s' hs₁ hrest
        rw [pluginInit, hname] at hfirst
        obtain ⟨q, hq⟩ := attached_of_attachStore hsound hp hname hs hfirst
        exact ⟨q, store_of_extends hmoved hs' hq⟩

end Steps

/-! ## IPA, where nothing is raised -/

/-- What the plugins use of IPA raises nothing: the interface that they are
    given is configured, and a vault can connect. -/
structure Serves (p q : ι) : Prop where
  configured : setup.authenticators.lookup ("ipa" : Str) = some q
  connects : setup.pluginClass p = .ipaVault → setup.connect p = .ok ()

/-- Whatever else is set up for IPA between two moments has raised nothing: the
    interface that a plugin is given is the configured one, and a vault can
    connect. -/
structure Served (s s' : Progress ι) : Prop where
  ipas : s.ipas ⊆ s'.ipas
  principals : s.principals ⊆ s'.principals
  serves : ∀ p q, (p, q) ∈ s'.ipas → (p, q) ∈ s.ipas ∨ Serves setup p q
  bootstraps : ∀ p ∈ s'.principals, p ∈ s.principals ∨ setup.bootstrap p = .ok ()

instance : IsPreorder (Progress ι) (Served setup) where
  refl _ := ⟨List.Subset.refl _, List.Subset.refl _, fun _ _ h => Or.inl h, fun _ h => Or.inl h⟩
  trans _ _ _ h h' := by
    refine ⟨List.Subset.trans h.ipas h'.ipas, List.Subset.trans h.principals h'.principals,
      ?_, ?_⟩
    · intro p q hmem
      exact (h'.serves p q hmem).elim (h.serves p q) Or.inr
    · intro p hmem
      exact (h'.bootstraps p hmem).elim (h.bootstraps p) Or.inr

/-- What the plugin uses of IPA is set up: a store of vaults or certificates has
    its interface, and an interface knows its principal. -/
structure SetUp (p : ι) (s : Progress ι) : Prop where
  client : setup.pluginClass p = .ipaVault ∨ setup.pluginClass p = .ipaCertRequest →
    ∃ q, (p, q) ∈ s.ipas
  interface : setup.pluginClass p = .ipaInterface → p ∈ s.principals

section Serving

variable {setup} {finalize : ι → Step ι} {p : ι} {name : Str} {s s' : Progress ι} {fuel : Nat}

omit [DecidableEq ι] in
/-- What has been set up stays set up, whatever is served after it. -/
theorem SetUp.mono (h : SetUp setup p s) (hserved : Served setup s s') : SetUp setup p s' := by
  refine ⟨fun hclass => ?_, fun hclass => hserved.principals (h.interface hclass)⟩
  obtain ⟨q, hq⟩ := h.client hclass
  exact ⟨q, hserved.ipas hq⟩

/-- The initialization of any plugin only serves. -/
theorem leads_pluginInit (hfinalize : ∀ q, Leads (Served setup) (finalize q)) :
    Leads (Served setup) (pluginInit setup finalize p) := by
  rw [pluginInit]
  cases setup.storeName p with
  | none => exact leads_done
  | some name =>
      intro s s' h
      dsimp only at h
      rcases attachStore_cases setup p name s with ⟨-, -, hdone⟩ | ⟨-, hraise⟩ | ⟨q, -, -, hcall⟩
      · rw [hdone] at h
        exact leads_done s s' h
      · rw [hraise] at h
        exact leads_raise _ s s' h
      · rw [hcall] at h
        have hserved := hfinalize q _ s' h
        exact ⟨hserved.ipas, hserved.principals, hserved.serves, hserved.bootstraps⟩

/-- A client that is finalized has its interface, which is configured; and what
    it does then raises nothing. -/
theorem served_clientInit (hfinalize : ∀ q, Leads (Served setup) (finalize q)) {more : Step ι}
    (hmore : ∀ s s', more s = some (.ok (), s') → s' = s
      ∧ (setup.pluginClass p = .ipaVault → setup.connect p = .ok ()))
    (h : clientInit setup finalize p more s = some (.ok (), s')) :
    Served setup s s' ∧ ∃ q, (p, q) ∈ s'.ipas := by
  rcases clientInit_cases setup p more s with ⟨q, hq, hdone⟩ | ⟨-, hraise⟩ | ⟨ipa, -, hipa, hcall⟩
  · rw [hdone] at h
    obtain ⟨-, rfl⟩ := Prod.mk.inj (Option.some.inj h)
    exact ⟨refl_of (Served setup) s, q, mem_of_assigned hq⟩
  · rw [hraise] at h
    cases h
  · rw [hcall] at h
    rcases andThen_cases h with ⟨e, he, -⟩ | ⟨s₁, hfirst, hrest⟩
    · cases he
    · obtain ⟨rfl, hconnects⟩ := hmore s₁ s' hrest
      have hserved := hfinalize ipa _ _ hfirst
      refine ⟨⟨?_, hserved.principals, ?_, hserved.bootstraps⟩, ipa,
        hserved.ipas List.mem_cons_self⟩
      · exact fun a ha => hserved.ipas (List.mem_cons_of_mem _ ha)
      · intro x q hmem
        rcases hserved.serves x q hmem with hcons | hserves
        · rcases List.mem_cons.mp hcons with heq | hold
          · obtain ⟨rfl, rfl⟩ := Prod.mk.inj heq
            exact Or.inr ⟨hipa, hconnects⟩
          · exact Or.inl hold
        · exact Or.inr hserves

/-- When the interface has been initialized, it has its principal. -/
theorem served_interfaceInit (h : interfaceInit setup p s = some (.ok (), s')) :
    Served setup s s' ∧ p ∈ s'.principals := by
  rcases interfaceInit_cases setup p s with ⟨hset, hdone⟩ | ⟨e, -, hraise⟩ | ⟨hok, hset⟩
  · rw [hdone] at h
    obtain ⟨-, rfl⟩ := Prod.mk.inj (Option.some.inj h)
    exact ⟨refl_of (Served setup) s, hset⟩
  · rw [hraise] at h
    cases h
  · rw [hset] at h
    obtain ⟨-, rfl⟩ := Prod.mk.inj (Option.some.inj h)
    refine ⟨⟨List.Subset.refl _, List.subset_cons_self _ _, fun _ _ h => Or.inl h, ?_⟩,
      List.mem_cons_self⟩
    intro x hx
    rcases List.mem_cons.mp hx with rfl | hx
    · exact Or.inr hok
    · exact Or.inl hx

/-- **When a plugin has been initialized, it is set up**, whatever class it is
    of. -/
theorem served_classInit (hfinalize : ∀ q, Leads (Served setup) (finalize q))
    (h : classInit setup finalize p s = some (.ok (), s')) :
    Served setup s s' ∧ SetUp setup p s' := by
  rw [classInit] at h
  cases hclass : setup.pluginClass p with
  | plugin =>
      rw [hclass] at h
      refine ⟨leads_done s s' h, ⟨?_, ?_⟩⟩
      · rintro (heq | heq)
        · cases hclass.symm.trans heq
        · cases hclass.symm.trans heq
      · intro heq
        cases hclass.symm.trans heq
  | ipaInterface =>
      rw [hclass] at h
      obtain ⟨hserved, hmem⟩ := served_interfaceInit h
      refine ⟨hserved, ⟨?_, fun _ => hmem⟩⟩
      rintro (heq | heq)
      · cases hclass.symm.trans heq
      · cases hclass.symm.trans heq
  | ipaVault =>
      rw [hclass] at h
      obtain ⟨hserved, hmem⟩ := served_clientInit hfinalize (fun s s' hrun => by
        obtain ⟨hok, rfl⟩ := Prod.mk.inj (Option.some.inj hrun)
        exact ⟨rfl, fun _ => hok⟩) h
      refine ⟨hserved, ⟨fun _ => hmem, ?_⟩⟩
      intro heq
      cases hclass.symm.trans heq
  | ipaCertRequest =>
      rw [hclass] at h
      obtain ⟨hserved, hmem⟩ := served_clientInit hfinalize (fun s s' hrun => by
        obtain ⟨-, rfl⟩ := Prod.mk.inj (Option.some.inj hrun)
        refine ⟨rfl, fun heq => ?_⟩
        cases hclass.symm.trans heq) h
      refine ⟨hserved, ⟨fun _ => hmem, ?_⟩⟩
      intro heq
      cases hclass.symm.trans heq

/-- **A normal end has set up what the plugin uses of IPA**, and nothing of it
    has raised an exception. -/
theorem served_finalizeInit (fuel : Nat) (p : ι) (s s' : Progress ι)
    (h : finalizeInit setup fuel p s = some (.ok (), s')) :
    Served setup s s' ∧ SetUp setup p s' := by
  induction fuel generalizing p s s' with
  | zero => cases h
  | succ fuel ih =>
      have hleads : ∀ q, Leads (Served setup) (finalizeInit setup fuel q) :=
        fun q s s' h => (ih q s s' h).1
      rcases andThen_cases h with ⟨e, he, -⟩ | ⟨s₁, hfirst, hrest⟩
      · cases he
      · have hserved := leads_pluginInit hleads s s₁ hfirst
        obtain ⟨hserved', hsetup⟩ := served_classInit hleads hrest
        exact ⟨trans_of (Served setup) hserved hserved', hsetup⟩

/-- **Where the stage ends normally, IPA has nothing to report**, as every
    plugin that is about IPA has been initialized by then. -/
theorem not_ipaError_of_ok {order : List ι} (horder : order.Perm setup.loaded)
    (h : secondStage setup fuel order = some (.ok (), s)) :
    ∀ p ∈ setup.loaded, ∀ e, ¬ IpaError setup p e := by
  intro p hp e herror
  have hserved : Served setup start s :=
    leads_each (fun q _ s s' hq => (served_finalizeInit fuel q s s' hq).1) start s h
  have hsetup : SetUp setup p s :=
    each_leads (fun q _ s s' hq => (served_finalizeInit fuel q s s' hq).1)
      (fun q _ s s' hq => (served_finalizeInit fuel q s s' hq).2)
      (fun q s s' hq hmoved => SetUp.mono hq hmoved) h p (horder.mem_iff.mpr hp)
  have hserves : ∀ q, (p, q) ∈ s.ipas → Serves setup p q :=
    fun q hq => (hserved.serves p q hq).resolve_left List.not_mem_nil
  cases herror with
  | missing hclient hnone =>
      obtain ⟨q, hq⟩ := hsetup.client hclient
      cases hnone.symm.trans (hserves q hq).configured
  | bootstrap _ hclass hfail =>
      have hok := (hserved.bootstraps p (hsetup.interface hclass)).resolve_left List.not_mem_nil
      cases hfail.symm.trans hok
  | connect _ hclass hfail =>
      obtain ⟨q, hq⟩ := hsetup.client (Or.inl hclass)
      cases hfail.symm.trans ((hserves q hq).connects hclass)

end Serving

/-! ## The whole stage -/

/-- Every plugin that names a store is attached to the one that is configured
    under this name. -/
def Complete (s : Progress ι) : Prop :=
  ∀ p ∈ setup.loaded, ∀ name, setup.storeName p = some name →
    ∃ q, setup.stores.lookup name = some q ∧ s.store p = some q

/-- How the stage can end: complete, or with the exception of a plugin that
    names a store that is not there, or with one that is about IPA. -/
inductive Ended : Except Exc Unit → Progress ι → Prop where
  | complete (s : Progress ι) (h : Complete setup s) : Ended (.ok ()) s
  | missing (s : Progress ι) (p : ι) (name : Str) (hp : p ∈ setup.loaded)
      (hname : setup.storeName p = some name) (hnone : setup.stores.lookup name = none) :
      Ended (.error (missingStore setup p name)) s
  | ipa (s : Progress ι) (p : ι) (e : Exc) (hp : p ∈ setup.loaded) (h : IpaError setup p e) :
      Ended (.error e) s

section Whole

variable {setup} {order order' : List ι} {s s' : Progress ι} {r r' : Except Exc Unit}
  {fuel : Nat} {p : ι} {name : Str}

/-- The second stage is sound in every order of the plugins. -/
theorem sound_secondStage (horder : order.Perm setup.loaded) :
    Sound setup (each (finalizeInit setup fuel) order) :=
  keeps_each (fun p hp => sound_finalizeInit fuel p (horder.mem_iff.mp hp))

/-- At the start there are two things to be done for every plugin at most. -/
theorem pending_start : pending setup (start : Progress ι) ≤ 2 * setup.loaded.length := by
  have hstores := missing_le_length setup.loaded (start : Progress ι).stores
  have hipas := missing_le_length setup.loaded (start : Progress ι).ipas
  rw [pending]
  omega

/-- The stage ends, with one result for all fuel that is enough. -/
theorem secondStage_ends (horder : order.Perm setup.loaded) :
    ∃ r s, ∀ fuel, setup.depth ≤ fuel → secondStage setup fuel order = some (r, s) := by
  have hends : Ends setup setup.depth (each (finalizeInit setup setup.depth) order) :=
    finishes_each (fun s s' h => pending_mono h)
      (fun p hp => sound_finalizeInit _ p (horder.mem_iff.mp hp))
      (fun p hp => ends_finalizeInit _ p (horder.mem_iff.mp hp))
  obtain ⟨r, s, h⟩ := hends start valid_start (Nat.lt_succ_of_le pending_start)
  refine ⟨r, s, fun fuel hfuel => ?_⟩
  obtain ⟨more, rfl⟩ := Nat.exists_eq_add_of_le hfuel
  induction more with
  | zero => exact h
  | succ more ih =>
      have hmore := ih (Nat.le_add_right _ _)
      exact refines_each (fun p _ => refines_finalizeInit _ p) start (r, s) hmore

/-- The stage attaches every plugin, or reports why not. -/
theorem secondStage_ended (horder : order.Perm setup.loaded)
    (h : secondStage setup fuel order = some (r, s)) : Valid setup s ∧ Ended setup r s := by
  obtain ⟨hs, -, hraised⟩ := sound_secondStage horder start r s valid_start h
  refine ⟨hs, ?_⟩
  cases r with
  | error e =>
      cases hraised e rfl with
      | store p name hp hname hnone => exact .missing s p name hp hname hnone
      | ipa p e hp hipa => exact .ipa s p e hp hipa
  | ok u =>
      refine .complete s ?_
      intro p hp name hname
      obtain ⟨s₁, s₂, hs₁, hfinal, hmoved⟩ := each_ok
        (fun p hp => sound_finalizeInit fuel p (horder.mem_iff.mp hp)) valid_start h p
        (horder.mem_iff.mpr hp)
      obtain ⟨q, hq⟩ := attached_of_finalizeInit hp hname hs₁ hfinal
      have hstore := store_of_extends hmoved hs hq
      obtain ⟨-, name', hname', hlook⟩ := hs.right p q (mem_of_assigned hstore)
      obtain rfl := Option.some.inj (hname.symm.trans hname')
      exact ⟨q, hlook, hstore⟩

/-- Where a plugin names a store that is no section, no state is complete. -/
theorem not_complete (hp : p ∈ setup.loaded) (hname : setup.storeName p = some name)
    (hnone : setup.stores.lookup name = none) : ¬ Complete setup s := by
  intro h
  obtain ⟨q, hlook, -⟩ := h p hp name hname
  cases hnone.symm.trans hlook

/-- A plugin is attached to the store that it names, or it names none. -/
theorem store_of_complete (hs : Valid setup s) (h : Complete setup s) (p : ι) :
    s.store p = if p ∈ setup.loaded then (setup.storeName p).bind setup.stores.lookup
      else none := by
  have hnone : ¬ (∃ q, s.store p = some q) → s.store p = none :=
    fun hno => Option.eq_none_iff_forall_ne_some.mpr (fun q hq => hno ⟨q, hq⟩)
  split_ifs with hp
  · cases hname : setup.storeName p with
    | none =>
        refine hnone ?_
        rintro ⟨q, hq⟩
        obtain ⟨-, name, hname', -⟩ := hs.right p q (mem_of_assigned hq)
        cases hname.symm.trans hname'
    | some name =>
        obtain ⟨q, hlook, hstore⟩ := h p hp name hname
        exact hstore.trans hlook.symm
  · refine hnone ?_
    rintro ⟨q, hq⟩
    exact hp (hs.right p q (mem_of_assigned hq)).1

/-- Where one order attaches every plugin, IPA has nothing to report and every
    store is configured, so another order does not end in an exception. -/
theorem ok_of_ok (horder : order.Perm setup.loaded)
    (hrun : secondStage setup fuel order = some (.ok (), s)) (hcomplete : Complete setup s)
    (h' : Ended setup r' s') : r' = .ok () := by
  cases h' with
  | complete _ _ => rfl
  | missing _ p name hp hname hnone => exact absurd hcomplete (not_complete hp hname hnone)
  | ipa _ p e hp herror => exact absurd herror (not_ipaError_of_ok horder hrun p hp e)

/-- A second stage that has ended normally has left a complete state. -/
theorem complete_of_ended (h : Ended setup r s) (hr : r = .ok ()) : Complete setup s := by
  cases h with
  | complete _ hcomplete => exact hcomplete
  | missing _ p name hp hname hnone => cases hr
  | ipa _ p e hp herror => cases hr

end Whole

/-- **HEADLINE — the second stage ends and is complete**, in whatever order the
    plugins are visited; no attachment is made twice; and the order does not
    matter for whether the stage raises, nor for what it attaches. -/
theorem attachment_of_order {order order' : List ι} (horder : order.Perm setup.loaded)
    (horder' : order'.Perm setup.loaded) : ∃ r s r' s',
      (∀ fuel, setup.depth ≤ fuel → secondStage setup fuel order = some (r, s))
      ∧ (∀ fuel, setup.depth ≤ fuel → secondStage setup fuel order' = some (r', s'))
      ∧ (s.stores.map Prod.fst).Nodup ∧ Ended setup r s
      ∧ (r = .ok () ↔ r' = .ok ()) ∧ (r = .ok () → ∀ p, s.store p = s'.store p) := by
  obtain ⟨r, s, hrun⟩ := secondStage_ends horder
  obtain ⟨r', s', hrun'⟩ := secondStage_ends horder'
  have hone := hrun _ (Nat.le_refl _)
  have hone' := hrun' _ (Nat.le_refl _)
  obtain ⟨hs, hended⟩ := secondStage_ended horder hone
  obtain ⟨hs', hended'⟩ := secondStage_ended horder' hone'
  have halike : r = .ok () ↔ r' = .ok () := by
    constructor
    · rintro rfl
      exact ok_of_ok horder hone (complete_of_ended hended rfl) hended'
    · rintro rfl
      exact ok_of_ok horder' hone' (complete_of_ended hended' rfl) hended
  refine ⟨r, s, r', s', hrun, hrun', hs.once, hended, halike, fun hok p => ?_⟩
  rw [store_of_complete hs (complete_of_ended hended hok),
    store_of_complete hs' (complete_of_ended hended' (halike.mp hok))]

/-- A consumer on a store that is backed by a store that is backed by it. -/
def cyclic : Setup Nat where
  pluginClass := fun _ => .plugin
  sectionName := fun p => if p = 0 then "/" else if p = 1 then "store:a" else "store:b"
  storeName := fun p => if p = 1 then some "b" else some "a"
  authenticators := ∅
  authorizers := ∅
  consumers := (∅ : AList (fun _ : List Str => Nat)).insert [[]] 0
  stores := ((∅ : AList (fun _ : Str => Nat)).insert ("a" : Str) 1).insert ("b" : Str) 2
  bootstrap := fun _ => .ok ()
  connect := fun _ => .ok ()

/-- Two stores that name each other, and a consumer: either order attaches the
    same. -/
theorem attachment_of_order_cyclic : ∃ s s',
    secondStage cyclic cyclic.depth [0, 1, 2] = some (.ok (), s)
    ∧ secondStage cyclic cyclic.depth [2, 1, 0] = some (.ok (), s')
    ∧ ∀ p, s.store p = s'.store p := by
  have hloaded : cyclic.loaded = [0, 1, 2] := by decide
  have horder : List.Perm [0, 1, 2] cyclic.loaded := by rw [hloaded]
  have horder' : List.Perm [2, 1, 0] cyclic.loaded := by
    rw [hloaded]
    decide
  obtain ⟨r, s, r', s', hrun, hrun', -, -, halike, hsame⟩ :=
    attachment_of_order cyclic horder horder'
  have hevaluated : secondStage cyclic cyclic.depth [0, 1, 2]
      = some (.ok (), ⟨[(2, 1), (1, 2), (0, 1)], [], []⟩) := rfl
  have hone := hrun _ (Nat.le_refl _)
  obtain ⟨rfl, rfl⟩ := Prod.mk.inj (Option.some.inj (hevaluated.symm.trans hone))
  obtain rfl := halike.mp rfl
  exact ⟨_, s', hone, hrun' _ (Nat.le_refl _), hsame rfl⟩

/-- A vault on a server that has no IPA interface. -/
def vaultAlone : Setup Nat where
  pluginClass := fun _ => .ipaVault
  sectionName := fun _ => "store:vault"
  storeName := fun _ => none
  authenticators := ∅
  authorizers := ∅
  consumers := ∅
  stores := (∅ : AList (fun _ : Str => Nat)).insert ("vault" : Str) 0
  bootstrap := fun _ => .ok ()
  connect := fun _ => .ok ()

/-- Two consumers on two stores that are not configured. -/
def twoMissing : Setup Nat where
  pluginClass := fun _ => .plugin
  sectionName := fun p => if p = 0 then "/a" else "/b"
  storeName := fun p => if p = 0 then some "a" else some "b"
  authenticators := ∅
  authorizers := ∅
  consumers := ((∅ : AList (fun _ : List Str => Nat)).insert [[], ['a']] 0).insert [[], ['b']] 1
  stores := ∅
  bootstrap := fun _ => .ok ()
  connect := fun _ => .ok ()

/-- The stage can raise where no plugin names a store; and which store it
    reports depends on the order. -/
theorem not_attachment_vaultAlone_twoMissing :
    ((∀ p, vaultAlone.storeName p = none) ∧ vaultAlone.loaded = [0]
      ∧ ∀ fuel, vaultAlone.depth ≤ fuel →
        secondStage vaultAlone fuel vaultAlone.loaded = some (.error noIpa, start))
    ∧ secondStage twoMissing twoMissing.depth [0, 1]
        = some (.error (missingStore twoMissing 0 "a"), start)
    ∧ secondStage twoMissing twoMissing.depth [1, 0]
        = some (.error (missingStore twoMissing 1 "b"), start)
    ∧ missingStore twoMissing 0 "a" ≠ missingStore twoMissing 1 "b" := by
  have hloaded : vaultAlone.loaded = [0] := by decide
  refine ⟨⟨fun _ => rfl, hloaded, fun fuel hfuel => ?_⟩, rfl, rfl, fun h => ?_⟩
  · rw [hloaded]
    obtain ⟨more, rfl⟩ := Nat.exists_eq_add_of_le' (Nat.le_trans (Nat.le_add_left 1 _) hfuel)
    rfl
  · exact absurd (Exc.py.inj h).2 (by decide)

end AttachmentProofs
