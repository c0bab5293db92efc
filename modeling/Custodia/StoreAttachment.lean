import Mathlib.Data.Char
import Mathlib.Data.List.AList
import Mathlib.Data.List.Lex
import Mathlib.Data.List.Sort
import Custodia.PyValues
import Custodia.Stages

/-! # StoreAttachment — the second initialization stage

    After all plugins are made, each is finalized: a plugin that names a store
    is attached to it, and the store is finalized in turn. The references
    between plugins are arbitrary, so a plugin can be finalized while it is
    being finalized.

    * `finalizeInit`: the methods of the plugin classes, with fuel for their
      recursion;
    * `secondStage`: the loop of `_load_plugins`;
    * `missing_cons_lt`: a first assignment leaves fewer plugins without the
      attribute. -/

namespace StoreAttachment

open PosixPath PyValues Stages

/-! ## The plugins -/

/-- The `finalize_init` of a plugin: the inherited one, which attaches its
    store, or one of the three that do more, as they are about IPA. -/
inductive PluginClass where
  | plugin
  | ipaInterface
  | ipaVault
  | ipaCertRequest
  deriving DecidableEq

/-- The plugins after the first stage, known by their identity, and the server
    configuration that holds them. What becomes of a connection to IPA is in
    `bootstrap` and `connect`. -/
structure Setup (ι : Type) where
  pluginClass : ι → PluginClass
  sectionName : ι → Str
  storeName : ι → Option Str
  authenticators : AList (fun _ : Str => ι)
  authorizers : AList (fun _ : Str => ι)
  consumers : AList (fun _ : List Str => ι)
  stores : AList (fun _ : Str => ι)
  bootstrap : ι → Except Exc Unit
  connect : ι → Except Exc Unit

/-- The attributes that the stage sets, by all their assignments, the last one
    first: `self.store`, `self.ipa`, and whether `self.principal` is set. -/
structure Progress (ι : Type) where
  stores : List (ι × ι)
  ipas : List (ι × ι)
  principals : List ι

variable {ι : Type} [DecidableEq ι]

/-- The value of an attribute, `None` before its first assignment. -/
def assigned (assignments : List (ι × ι)) (p : ι) : Option ι :=
  (assignments.find? (fun a => decide (a.1 = p))).map Prod.snd

/-- `self.store`. -/
def Progress.store (s : Progress ι) (p : ι) : Option ι := assigned s.stores p

/-- No attribute is set. -/
def start : Progress ι := ⟨[], [], []⟩

abbrev Step (ι : Type) := Stage (Progress ι) Exc

variable (setup : Setup ι)

/-! ## Finalizing one plugin -/

/-- How a store that is not configured is reported. -/
def missingStore (p : ι) (name : Str) : Exc :=
  .py .valueError (("'" : Str) ++ setup.sectionName p ++ ("' references non-existing store '" : Str)
    ++ name ++ ("'" : Str))

/-- `_attach_store`: the store is assigned before it is finalized. -/
def attachStore (finalizeInit : ι → Step ι) (p : ι) (name : Str) : Step ι := fun s =>
  match s.store p with
  | some _ => done s
  | none =>
      match setup.stores.lookup name with
      | none => raise (missingStore setup p name) s
      | some store => finalizeInit store { s with stores := (p, store) :: s.stores }

/-- `CustodiaPlugin.finalize_init`. -/
def pluginInit (finalizeInit : ι → Step ι) (p : ι) : Step ι :=
  match setup.storeName p with
  | none => done
  | some name => attachStore setup finalizeInit p name

/-- What `IPAInterface.finalize_init` does more. -/
def interfaceInit (p : ι) : Step ι := fun s =>
  if p ∈ s.principals then done s
  else
    match setup.bootstrap p with
    | .error e => raise e s
    | .ok () => done { s with principals := p :: s.principals }

/-- `KeyError('ipa')`. -/
def noIpa : Exc := .py .other "'ipa'"

/-- What the plugins that use IPA do more: finalize the interface and go on. -/
def clientInit (finalizeInit : ι → Step ι) (p : ι) (more : Step ι) : Step ι := fun s =>
  match assigned s.ipas p with
  | some _ => done s
  | none =>
      match setup.authenticators.lookup ("ipa" : Str) with
      | none => raise noIpa s
      | some ipa => andThen (finalizeInit ipa) more { s with ipas := (p, ipa) :: s.ipas }

/-- What the `finalize_init` of each class does after the inherited one. -/
def classInit (finalizeInit : ι → Step ι) (p : ι) : Step ι :=
  match setup.pluginClass p with
  | .plugin => done
  | .ipaInterface => interfaceInit setup p
  | .ipaVault => clientInit setup finalizeInit p (fun s => some (setup.connect p, s))
  | .ipaCertRequest => clientInit setup finalizeInit p done

/-- `finalize_init`; the fuel bounds how deep the calls are nested. -/
def finalizeInit : Nat → ι → Step ι
  | 0, _ => fun _ => none
  | fuel + 1, p =>
      andThen (pluginInit setup (finalizeInit fuel) p) (classInit setup (finalizeInit fuel) p)

/-- What `_attach_store` does: nothing, or it raises, or it finalizes the store
    that it has assigned. -/
theorem attachStore_cases (p : ι) (name : Str) (s : Progress ι) :
    (∃ q, s.store p = some q ∧ ∀ finalize, attachStore setup finalize p name s = done s)
    ∨ (setup.stores.lookup name = none
      ∧ ∀ finalize, attachStore setup finalize p name s = raise (missingStore setup p name) s)
    ∨ ∃ q, s.store p = none ∧ setup.stores.lookup name = some q
      ∧ ∀ finalize, attachStore setup finalize p name s
        = finalize q { s with stores := (p, q) :: s.stores } := by
  cases hnone : s.store p with
  | some q => exact Or.inl ⟨q, rfl, fun finalize => by rw [attachStore, hnone]⟩
  | none =>
      cases hstore : setup.stores.lookup name with
      | none => exact Or.inr (Or.inl ⟨rfl, fun finalize => by rw [attachStore, hnone, hstore]⟩)
      | some q =>
          exact Or.inr (Or.inr ⟨q, rfl, rfl, fun finalize => by rw [attachStore, hnone, hstore]⟩)

/-- What a plugin that uses IPA does more: nothing, or it raises, or it
    finalizes the interface that it has assigned, and goes on. -/
theorem clientInit_cases (p : ι) (more : Step ι) (s : Progress ι) :
    (∃ q, assigned s.ipas p = some q ∧ ∀ finalize, clientInit setup finalize p more s = done s)
    ∨ (setup.authenticators.lookup ("ipa" : Str) = none
      ∧ ∀ finalize, clientInit setup finalize p more s = raise noIpa s)
    ∨ ∃ ipa, assigned s.ipas p = none ∧ setup.authenticators.lookup ("ipa" : Str) = some ipa
      ∧ ∀ finalize, clientInit setup finalize p more s
        = andThen (finalize ipa) more { s with ipas := (p, ipa) :: s.ipas } := by
  cases hnone : assigned s.ipas p with
  | some q => exact Or.inl ⟨q, rfl, fun finalize => by rw [clientInit, hnone]⟩
  | none =>
      cases hipa : setup.authenticators.lookup ("ipa" : Str) with
      | none => exact Or.inr (Or.inl ⟨rfl, fun finalize => by rw [clientInit, hnone, hipa]⟩)
      | some ipa =>
          exact Or.inr (Or.inr ⟨ipa, rfl, rfl, fun finalize => by rw [clientInit, hnone, hipa]⟩)

/-- What the interface does more: nothing, or it raises, or its principal is
    set. -/
theorem interfaceInit_cases (p : ι) (s : Progress ι) :
    (p ∈ s.principals ∧ interfaceInit setup p s = done s)
    ∨ (∃ e, setup.bootstrap p = .error e ∧ interfaceInit setup p s = raise e s)
    ∨ (setup.bootstrap p = .ok ()
      ∧ interfaceInit setup p s = done { s with principals := p :: s.principals }) := by
  by_cases hset : p ∈ s.principals
  · exact Or.inl ⟨hset, if_pos hset⟩
  · cases hanswer : setup.bootstrap p with
    | error e => exact Or.inr (Or.inl ⟨e, rfl, by rw [interfaceInit, if_neg hset, hanswer]⟩)
    | ok u => exact Or.inr (Or.inr ⟨rfl, by rw [interfaceInit, if_neg hset, hanswer]⟩)

/-! ## All plugins -/

/-- The plugins of one menu, by their sorted names. -/
def menu {κ : Type} [LE κ] [DecidableLE κ] (plugins : AList (fun _ : κ => ι)) : List ι :=
  (plugins.entries.insertionSort (fun a b => a.1 ≤ b.1)).map (fun e => e.2)

/-- All plugins, in the order of `_load_plugins`. -/
def Setup.loaded : List ι :=
  menu setup.authenticators ++ menu setup.authorizers ++ menu setup.consumers
    ++ menu setup.stores

/-- The second stage of `_load_plugins`, for plugins in this order. -/
def secondStage (fuel : Nat) (order : List ι) : Option (Except Exc Unit × Progress ι) :=
  each (finalizeInit setup fuel) order start

/-- How deep calls are nested at most: every nested call follows the first
    assignment of an attribute. -/
def Setup.depth : Nat := 2 * setup.loaded.length + 1

/-! ## Assignments -/

section Assignments

variable {assignments : List (ι × ι)} {p q x : ι}

theorem assigned_eq_none_iff : assigned assignments p = none ↔ p ∉ assignments.map Prod.fst := by
  rw [assigned, Option.map_eq_none_iff, List.find?_eq_none, List.mem_map]
  constructor
  · rintro h ⟨a, ha, rfl⟩
    exact h a ha (decide_eq_true rfl)
  · intro h a ha heq
    exact h ⟨a, ha, of_decide_eq_true heq⟩

theorem mem_of_assigned (h : assigned assignments p = some q) : (p, q) ∈ assignments := by
  rw [assigned, Option.map_eq_some_iff] at h
  obtain ⟨⟨p', q'⟩, hfind, rfl⟩ := h
  have hp := List.find?_some hfind
  obtain rfl : p' = p := of_decide_eq_true hp
  exact List.mem_of_find?_eq_some hfind

theorem assigned_cons (a : ι × ι) (assignments : List (ι × ι)) (x : ι) :
    assigned (a :: assignments) x = if a.1 = x then some a.2 else assigned assignments x := by
  rw [assigned, assigned, List.find?_cons]
  split_ifs with h
  · rw [decide_eq_true h]
    rfl
  · rw [decide_eq_false h]

/-- What is assigned once is assigned to what it was. -/
theorem assigned_of_mem (hnodup : (assignments.map Prod.fst).Nodup) (h : (p, q) ∈ assignments) :
    assigned assignments p = some q := by
  induction assignments with
  | nil => exact absurd h List.not_mem_nil
  | cons a assignments ih =>
      rw [List.map_cons, List.nodup_cons] at hnodup
      rw [assigned_cons]
      rcases List.mem_cons.mp h with rfl | hmem
      · exact if_pos rfl
      · have hne : a.1 ≠ p := by
          rintro rfl
          exact hnodup.1 (List.mem_map.mpr ⟨(a.1, q), hmem, rfl⟩)
        rw [if_neg hne]
        exact ih hnodup.2 hmem

/-- How many of these plugins do not have the attribute. -/
def missing (plugins : List ι) (assignments : List (ι × ι)) : Nat :=
  plugins.countP (fun p => decide (assigned assignments p = none))

theorem missing_le_length (plugins : List ι) (assignments : List (ι × ι)) :
    missing plugins assignments ≤ plugins.length := List.countP_le_length

/-- Assignments only fill what is missing. -/
theorem missing_mono (plugins : List ι) {more : List (ι × ι)} (h : assignments <:+ more) :
    missing plugins more ≤ missing plugins assignments := by
  refine List.countP_mono_left ?_
  intro x _ hx
  have hnone := assigned_eq_none_iff.mp (of_decide_eq_true hx)
  refine decide_eq_true (assigned_eq_none_iff.mpr ?_)
  intro hmem
  exact hnone ((h.map Prod.fst).subset hmem)

/-- The first assignment fills one. -/
theorem missing_cons_lt {plugins : List ι} (hp : p ∈ plugins)
    (hnone : assigned assignments p = none) :
    missing plugins ((p, q) :: assignments) < missing plugins assignments := by
  induction plugins with
  | nil => exact absurd hp List.not_mem_nil
  | cons x plugins ih =>
      have htail : missing plugins ((p, q) :: assignments) ≤ missing plugins assignments :=
        missing_mono plugins (List.suffix_cons _ _)
      simp only [missing] at ih htail ⊢
      rw [List.countP_cons, List.countP_cons, assigned_cons]
      by_cases hx : p = x
      · subst hx
        rw [if_pos rfl, hnone]
        simp only [reduceCtorEq, decide_false, decide_true, Bool.false_eq_true, if_false, if_true]
        omega
      · have hmem : p ∈ plugins := (List.mem_cons.mp hp).resolve_left hx
        have hlt := ih hmem
        rw [if_neg hx]
        omega

end Assignments

end StoreAttachment
