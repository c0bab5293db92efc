import Custodia.IpaVault

/-! # VaultNameProofs — when a key has a vault of its own

    `_mangle_key` refuses the keys that contain two underscores and spells
    every slash as two. A single underscore next to a slash passes the guard,
    and then the three underscores of the name can be read in two ways.

    * `decoded_iff`: `list` reads the name back as the key exactly if no
      underscore stands before a slash;
    * `reversible_iff`: the vault is the key's own, and no call for another key
      touches it, exactly if no slash stands next to an underscore or a slash. -/

namespace VaultNameProofs

open Interaction PosixPath PyValues FaultyService IpaVault Replacement

variable {key other : Str}

/-! ## The name of a key -/

/-- The key passes the guard of `_mangle_key`. -/
def Accepted (key : Str) : Prop := ¬ twoMarks <:+: key

instance (key : Str) : Decidable (Accepted key) := inferInstanceAs (Decidable (¬ _))

/-- The name of the vault of a key. -/
def vaultName (key : Str) : Str := Replacement.replace [slash] twoMarks key

/-- An accepted key is mangled to the name of its vault. -/
theorem mangleKey_ok (h : Accepted key) : mangleKey key = .ok (vaultName key) := if_neg h

/-- A key that is mangled was accepted. -/
theorem accepted_of_mangleKey {name : Str} (h : mangleKey key = .ok name) :
    Accepted key ∧ name = vaultName key := by
  rw [mangleKey] at h
  by_cases hmarks : twoMarks <:+: key
  · rw [if_pos hmarks] at h
    cases h
  · rw [if_neg hmarks] at h
    exact ⟨hmarks, (Except.ok.inj h).symm⟩

/-- The separator of keys is not the one of vaults. -/
theorem slash_ne_mark : slash ≠ '_' := by decide

/-- **What `list` reads** is the key exactly if no underscore stands before a
    slash. -/
theorem decoded_iff (h : Accepted key) :
    unmangled (vaultName key) = key ↔ ¬ ['_', slash] <:+: key :=
  halve_double_iff slash_ne_mark h

/-- The name belongs to one key exactly if the slashes of the key stand apart. -/
theorem unshared_iff (h : Accepted key) :
    (∀ other, Accepted other → vaultName other = vaultName key → other = key)
      ↔ Apart slash '_' key :=
  double_unique_iff slash_ne_mark h

/-! ## The calls about one key -/

/-- The calls of the store that are about one key, as opposed to `list` and
    `span`; the vault they work on is named after the key. -/
inductive KeyCall where
  | get (key : Str)
  | set (key : Str) (value : VaultValue) (replace : Bool)
  | cut (key : Str)

namespace KeyCall

/-- The key it is about. -/
def about : KeyCall → Str
  | get key => key
  | set key _ _ => key
  | cut key => key

/-- What the method returns. -/
@[reducible] def Ans : KeyCall → Type
  | get _ => Option (List Unquote.Byte)
  | set _ _ _ => Unit
  | cut _ => Bool

/-- The program of a call. -/
def prog : (call : KeyCall) → VaultProg call.Ans
  | get key => IpaVault.get key
  | set key value replace => IpaVault.set key value replace
  | cut key => IpaVault.cut key

/-- The call, on a server whose commands may fail. -/
def run (call : KeyCall) (w : Faulty Fault Vaults) :
    Except Exc call.Ans × Faulty Fault Vaults := call.prog.run command w

end KeyCall

/-- The command is about a vault, and not about this one. -/
def Elsewhere (name : Str) (o : VaultCommand) : Prop := ∃ n, o.name? = some n ∧ n ≠ name

/-- What is done after the key has been mangled. -/
theorem onlyIssues_mangled {α : Type} {P : VaultCommand → Prop} {f : Str → VaultProg α}
    (h : Accepted key → (f (vaultName key)).OnlyIssues P) :
    ((Prog.ofExcept (mangleKey key) : VaultProg Str).bind f).OnlyIssues P := by
  cases hm : mangleKey key with
  | error e => trivial
  | ok name =>
      obtain ⟨hkey, rfl⟩ := accepted_of_mangleKey hm
      exact h hkey

/-- **A call about one key issues commands about its vault only.** -/
theorem onlyIssues_call (call : KeyCall) :
    call.prog.OnlyIssues (fun o =>
      Accepted call.about ∧ o.name? = some (vaultName call.about)) := by
  cases call with
  | get key =>
      refine onlyIssues_mangled (fun hkey => Prog.onlyIssues_catching ?_ (fun e => ?_))
      · exact Prog.onlyIssues_bind (Prog.onlyIssues_perform ⟨hkey, rfl⟩) (fun data => trivial)
      · by_cases hnone : e.isA .notFound = true
        · rw [if_pos hnone]
          trivial
        · rw [if_neg hnone]
          trivial
  | set key value replace =>
      refine onlyIssues_mangled (fun hkey => ?_)
      refine Prog.onlyIssues_bind (Prog.onlyIssues_ofExcept (encoded value)) (fun data => ?_)
      refine Prog.onlyIssues_bind (Prog.onlyIssues_catching
        (Prog.onlyIssues_perform ⟨hkey, rfl⟩) (fun e => ?_)) (fun _ => ?_)
      · by_cases hdup : e.isA .duplicateEntry = true
        · rw [if_pos hdup]
          cases replace <;> trivial
        · rw [if_neg hdup]
          trivial
      · exact Prog.onlyIssues_catching (Prog.onlyIssues_perform ⟨hkey, rfl⟩)
          (fun e => trivial)
  | cut key =>
      refine onlyIssues_mangled (fun hkey => Prog.onlyIssues_catching ?_ (fun e => ?_))
      · exact Prog.onlyIssues_bind (Prog.onlyIssues_perform ⟨hkey, rfl⟩) (fun data => trivial)
      · by_cases hnone : e.isA .notFound = true
        · rw [if_pos hnone]
          trivial
        · rw [if_neg hnone]
          trivial

/-! ## Other vaults are left alone -/

/-- Two servers differ in one vault at most. -/
def SameElsewhere (name : Str) (vs vs' : Vaults) : Prop :=
  ∀ other, other ≠ name → vs.lookup other = vs'.lookup other

/-- The same vaults are there under other names. -/
theorem SameElsewhere.mem_iff {name n : Str} {vs vs' : Vaults} (h : SameElsewhere name vs vs')
    (hn : n ≠ name) : n ∈ vs ↔ n ∈ vs' := by
  rw [← AList.lookup_isSome, ← AList.lookup_isSome, h n hn]

/-- A change in another vault is the same change on both servers. -/
theorem SameElsewhere.insert {name n : Str} {vs vs' : Vaults} (h : SameElsewhere name vs vs')
    (content : Option (List Unquote.Byte)) :
    SameElsewhere name (vs.insert n content) (vs'.insert n content) := by
  intro other hother
  by_cases heq : other = n
  · subst heq
    rw [AList.lookup_insert, AList.lookup_insert]
  · rw [AList.lookup_insert_ne heq, AList.lookup_insert_ne heq, h other hother]

/-- Removing one vault from both leaves them the same elsewhere. -/
theorem SameElsewhere.erase {name n : Str} {vs vs' : Vaults} (h : SameElsewhere name vs vs') :
    SameElsewhere name (vs.erase n) (vs'.erase n) := by
  intro other hother
  by_cases heq : other = n
  · subst heq
    rw [AList.lookup_erase, AList.lookup_erase]
  · rw [AList.lookup_erase_ne heq, AList.lookup_erase_ne heq, h other hother]

/-- A command about another vault is answered alike. -/
theorem serve_alike {name : Str} {o : VaultCommand} (ho : Elsewhere name o) {vs vs' : Vaults}
    (h : SameElsewhere name vs vs') :
    (serve o vs).1 = (serve o vs').1 ∧ SameElsewhere name (serve o vs).2 (serve o vs').2 := by
  obtain ⟨n, hn, hne⟩ := ho
  have hmem := h.mem_iff hne
  cases o with
  | find => cases hn
  | add m =>
      obtain rfl := Option.some.inj hn
      by_cases hin : m ∈ vs'
      · rw [serve, serve, if_pos hin, if_pos (hmem.mpr hin)]
        exact ⟨rfl, h⟩
      · rw [serve, serve, if_neg hin, if_neg (fun hm => hin (hmem.mp hm))]
        exact ⟨rfl, h.insert none⟩
  | archive m data =>
      obtain rfl := Option.some.inj hn
      by_cases hin : m ∈ vs'
      · rw [serve, serve, if_pos hin, if_pos (hmem.mpr hin)]
        exact ⟨rfl, h.insert (some data)⟩
      · rw [serve, serve, if_neg hin, if_neg (fun hm => hin (hmem.mp hm))]
        exact ⟨rfl, h⟩
  | retrieve m =>
      obtain rfl := Option.some.inj hn
      rw [serve, serve, h m hne]
      cases vs'.lookup m with
      | none => exact ⟨rfl, h⟩
      | some content =>
          cases content with
          | none => exact ⟨rfl, h⟩
          | some data => exact ⟨rfl, h⟩
  | del m =>
      obtain rfl := Option.some.inj hn
      by_cases hin : m ∈ vs'
      · rw [serve, serve, if_pos hin, if_pos (hmem.mpr hin)]
        exact ⟨rfl, h.erase⟩
      · rw [serve, serve, if_neg hin, if_neg (fun hm => hin (hmem.mp hm))]
        exact ⟨rfl, h⟩

/-- The call neither changes the secret of a key nor depends on it, whatever
    commands fail. -/
structure LeavesAlone (call : KeyCall) (key : Str) : Prop where
  kept : ∀ w, (call.run w).2.state.lookup (vaultName key) = w.state.lookup (vaultName key)
  unread : ∀ w w', Alike (SameElsewhere (vaultName key)) w w' → (call.run w).1 = (call.run w').1

/-- A call about another name leaves the vault alone. -/
theorem leavesAlone_of_name {call : KeyCall}
    (hname : Accepted call.about → vaultName call.about ≠ vaultName key) :
    LeavesAlone call key := by
  refine ⟨fun w => ?_, fun w w' h => ?_⟩
  · refine Prog.run_invariant command
      (I := fun u => u.state.lookup (vaultName key) = w.state.lookup (vaultName key))
      ?_ (onlyIssues_call call) rfl
    rintro o ⟨hkey, ho⟩ u hu
    refine execFaulty_invariant
      (I := fun vs : Vaults => vs.lookup (vaultName key) = w.state.lookup (vaultName key)) ?_ hu
    intro hvs
    rw [serve_other ho (Ne.symm (hname hkey)), hvs]
  · refine (Prog.run_alike command (R := Alike (SameElsewhere (vaultName key)))
      ?_ (onlyIssues_call call) h).1
    rintro o ⟨hkey, ho⟩ u u' hu
    exact execFaulty_alike (fun _ _ hvs => serve_alike ⟨_, ho, hname hkey⟩ hvs) hu

/-! ## Reversible names -/

/-- The key can be read back from its vault, which is its own: no call about
    another key touches it. -/
structure Reversible (key : Str) : Prop where
  decoded : unmangled (vaultName key) = key
  unshared : ∀ other, Accepted other → vaultName other = vaultName key → other = key
  untouched : ∀ call : KeyCall, call.about ≠ key → LeavesAlone call key

/-- **HEADLINE — when the name of a vault is reversible**: nothing next to a
    slash of the key is an underscore or a slash. -/
theorem reversible_iff (hkey : Accepted key) : Reversible key ↔ Apart slash '_' key := by
  constructor
  · intro h
    exact (unshared_iff hkey).mp h.unshared
  · intro hapart
    have hunshared := (unshared_iff hkey).mpr hapart
    refine ⟨(decoded_iff hkey).mpr hapart.1, hunshared, fun call hcall => ?_⟩
    exact leavesAlone_of_name (fun hother hsame => hcall (hunshared call.about hother hsame))

/-- A key whose slashes stand apart. -/
theorem reversible_plain : Accepted "ns/a_b" ∧ Reversible "ns/a_b" := by
  have hkey : Accepted "ns/a_b" := by decide
  exact ⟨hkey, (reversible_iff hkey).mpr (by decide)⟩

/-- `a_/b` is listed as `a/_b`, and cutting the one removes the other. -/
theorem shared_vault :
    Accepted "a_/b" ∧ Accepted "a/_b"
    ∧ unmangled (vaultName "a_/b") = "a/_b".toList
    ∧ vaultName "a/_b" = vaultName "a_/b"
    ∧ ¬ LeavesAlone (.cut "a/_b") "a_/b"
    ∧ ¬ Reversible "a_/b" := by
  refine ⟨by decide, by decide, by decide, by decide, fun h => ?_, fun h => ?_⟩
  · exact absurd (h.kept ⟨(∅ : Vaults).insert "a___b" (some []), []⟩) (by decide)
  · exact absurd (h.unshared "a/_b" (by decide) (by decide)) (by decide)

end VaultNameProofs
