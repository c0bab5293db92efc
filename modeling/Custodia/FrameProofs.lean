import Custodia.SecretsEffects

/-! # FrameProofs — the bounded effect of a request

    All methods of the consumer write to one flat table, through keys that are
    normalised in different ways, and a PUT or a POST may make a container on
    the way. Whatever a request does, it does to the entries it names.

    * `Grows`, `Shrinks`: tables that differ in some rows only;
    * `admitted_grows`: what the parent check may add;
    * `bounded_effect`: the effect of every request on every table. -/

namespace FrameProofs

open PosixPath PyValues Messages SqliteStore SecretsConsumer SecretsCalls SecretsRequests
open SecretsRuns SecretsEffects

/-! ## Tables that differ in some rows -/

/-- All that is new in the second table are rows that satisfy `P`, at keys that
    were free. -/
def Grows (P : Str → SqlValue → Prop) (t t' : Table) : Prop :=
  ∀ key, t'.lookup key = t.lookup key
    ∨ t.lookup key = none ∧ ∃ v, t'.lookup key = some v ∧ P key v

/-- The second table lacks some rows whose keys satisfy `P`. -/
def Shrinks (P : Str → Prop) (t t' : Table) : Prop :=
  ∀ key, t'.lookup key = t.lookup key ∨ P key ∧ t'.lookup key = none

variable {P : Str → SqlValue → Prop} {t t' t'' : Table} {key : Str} {v : SqlValue}

/-- A table that stays as it is has grown by nothing. -/
theorem grows_refl (t : Table) : Grows P t t := fun _ => Or.inl rfl

/-- A row that is added to a grown table, at a free key. -/
theorem Grows.insert (h : Grows P t t') (hfree : key ∉ t') (hP : P key v) :
    Grows P t (t'.insert key v) := by
  intro k
  by_cases hk : k = key
  · subst hk
    have hnone : t'.lookup k = none := AList.lookup_eq_none.mpr hfree
    refine Or.inr ⟨?_, v, AList.lookup_insert t', hP⟩
    rcases h k with hsame | ⟨hwas, -⟩
    · exact hsame.symm.trans hnone
    · exact hwas
  · rw [AList.lookup_insert_ne hk]
    exact h k

/-- A table that stays as it is has lost nothing. -/
theorem shrinks_refl {P : Str → Prop} (t : Table) : Shrinks P t t := fun _ => Or.inl rfl

/-- Removing a row that may be lost loses only what may be lost. -/
theorem shrinks_erase {P : Str → Prop} (hP : P key) (t : Table) : Shrinks P t (t.erase key) := by
  intro k
  by_cases hk : k = key
  · subst hk
    exact Or.inr ⟨hP, AList.lookup_erase k t⟩
  · exact Or.inl (AList.lookup_erase_ne hk)

/-! ## What a request may touch -/

variable {con : Secrets} {req : Request} {client : Str} {msg : Handler}

/-- The request is a PUT directly in the default namespace, or a POST of a
    container directly in it. -/
def InDefaultNamespace (req : Request) (space : Str) : Prop :=
  req.defaultNamespace = some space ∧ (segments req).head? = some space
  ∧ (req.command = "PUT".toList ∧ (segments req).length = 2
    ∨ req.command = "POST".toList ∧ (segments req).length = 3)

/-- The row of a spaces container. -/
def namespaceRow (space : Str) : Str := rstrip (join "keys" [space, []])

/-- What a PUT or a POST may add: the entry it addresses, a container in the
    case of a POST, and the container of its default namespace. -/
def MayAdd (req : Request) (key : Str) (v : SqlValue) : Prop :=
  key = newEntry req ∧ (req.command = "POST".toList → v = .text [])
  ∨ ∃ space, InDefaultNamespace req space ∧ key = namespaceRow space
      ∧ v = .text []

/-- The entry that a DELETE addresses. -/
def oldEntry (req : Request) : Str :=
  if namesContainer (segments req) then rstrip (entryKey req) else entryKey req

/-- The parent check adds nothing but the container of the default
    namespace. -/
theorem admitted_grows {default : Option Str} {trail : List Str}
    (h : Admitted t default trail t')
    (hP : ∀ space, default = some space → trail.head? = some space →
      trail.length = 2 → P (namespaceRow space) (.text [])) : Grows P t t' := by
  cases h with
  | found => exact grows_refl t
  | made hmade =>
      obtain ⟨hlen, hdefault⟩ := hmade.only
      match trail, hlen, hmade, hdefault with
      | [a, b], _, hmade, hdefault =>
          exact (grows_refl t).insert hmade.fresh (hP a hdefault rfl rfl)

/-- The entry that a PUT adds has the key of the request. -/
theorem newEntry_put (h : req.command = "PUT".toList) : newEntry req = entryKey req := by
  rw [newEntry, h]
  exact if_neg (by decide)

/-- The entry that a POST adds has the key of the request without its slashes. -/
theorem newEntry_post (h : req.command = "POST".toList) :
    newEntry req = rstrip (entryKey req) := if_pos h

/-- **A PUT adds its entry and perhaps the missing namespace**, and changes no
    row. -/
theorem put_grows (h : Puts con req client msg) (t : Table) :
    Grows (MayAdd req) t (respond con req t).2 := by
  have hcheck : ∀ t', Admitted t req.defaultNamespace (segments req) t' →
      Grows (MayAdd req) t t' := by
    intro t' ha
    refine admitted_grows ha (fun ns hdefault hhead hlen => Or.inr ⟨ns, ?_, rfl, rfl⟩)
    exact ⟨hdefault, hhead, Or.inl ⟨h.command, hlen⟩⟩
  rcases put_cases h t with ⟨-, e, heq⟩ | ⟨t', ha, -, e, heq⟩ | ⟨t', v, ha, hstore, -, heq⟩
  · rw [heq]
    exact grows_refl t
  · rw [heq]
    exact hcheck t' ha
  · rw [heq]
    refine (hcheck t' ha).insert hstore.fresh (Or.inl ⟨(newEntry_put h.command).symm, ?_⟩)
    intro hpost
    exact absurd (h.command.symm.trans hpost) (by decide)

/-- **A POST adds its container and perhaps the missing namespace**, and changes
    no row. -/
theorem post_grows (h : Posts con req msg) (t : Table) :
    Grows (MayAdd req) t (respond con req t).2 := by
  have hcheck : ∀ t', PostAdmitted t req t' → Grows (MayAdd req) t t' := by
    rintro t' (⟨-, rfl⟩ | ⟨hlen, ha⟩)
    · exact grows_refl _
    · refine admitted_grows ha (fun ns hdefault hhead hlen' => Or.inr ⟨ns, ?_, rfl, rfl⟩)
      rw [List.length_dropLast] at hlen'
      have hthree : (segments req).length = 3 := by omega
      refine ⟨hdefault, ?_, Or.inr ⟨h.command, hthree⟩⟩
      match segments req, hthree, hhead with
      | [a, b, c], _, hhead => exact hhead
  rcases post_cases h t with ⟨-, e, heq⟩ | ⟨t', ha, -, heq⟩ | ⟨t', ha, hfree, heq⟩
  · rw [heq]
    exact grows_refl t
  · rw [heq]
    exact hcheck t' ha
  · rw [heq]
    exact (hcheck t' ha).insert hfree
      (Or.inl ⟨(newEntry_post h.command).symm, fun _ => rfl⟩)

/-- A DELETE of a container removes its row at most. -/
theorem destroy_shrinks (h : Destroys con req msg) (t : Table) :
    Shrinks (fun key => key = oldEntry req) t (respond con req t).2 := by
  rcases destroy_cases h t with ⟨-, e, heq⟩ | ⟨-, heq⟩
  · rw [heq]
    exact shrinks_refl t
  · rw [heq]
    have hkey : rstrip (entryKey req) = oldEntry req := (if_pos h.container).symm
    exact shrinks_erase (P := fun key => key = oldEntry req) hkey t

/-- A DELETE of a secret removes its row at most. -/
theorem delete_shrinks (h : Deletes con req client msg) (t : Table) :
    Shrinks (fun key => key = oldEntry req) t (respond con req t).2 := by
  rcases delete_cases h t with ⟨-, heq⟩ | ⟨-, heq⟩
  · rw [heq]
    exact shrinks_refl t
  · rw [heq]
    have hkey : entryKey req = oldEntry req := (if_neg h.entry).symm
    exact shrinks_erase (P := fun key => key = oldEntry req) hkey t

/-! ## Every request -/

/-- What a request leaves of a table: a PUT or a POST may add what it may add, a
    DELETE may remove the entry it addresses, but no container with entries
    below, and everything else leaves the table as it is. -/
structure Bounded (req : Request) (t t' : Table) : Prop where
  reads : req.command ≠ "PUT".toList → req.command ≠ "POST".toList →
    req.command ≠ "DELETE".toList → t' = t
  adds : req.command = "PUT".toList ∨ req.command = "POST".toList → Grows (MayAdd req) t t'
  removes : req.command = "DELETE".toList → Shrinks (fun key => key = oldEntry req) t t'
  keeps : req.command = "DELETE".toList → namesContainer (segments req) →
    HasChild t (rstrip (entryKey req)) → t' = t

/-- A table that is left alone is bounded by every request. -/
theorem bounded_refl (req : Request) (t : Table) : Bounded req t t :=
  ⟨fun _ _ _ => rfl, fun _ => grows_refl t, fun _ => shrinks_refl t, fun _ _ _ => rfl⟩

/-- What grows the table by what the request may add has a bounded effect. -/
theorem bounded_write (hwrite : req.command = "PUT".toList ∨ req.command = "POST".toList)
    (h : Grows (MayAdd req) t t') : Bounded req t t' := by
  have hdelete : req.command ≠ "DELETE".toList := by
    rcases hwrite with hput | hpost
    · rw [hput]
      decide
    · rw [hpost]
      decide
  exact ⟨fun hput hpost _ => (hwrite.elim hput hpost).elim, fun _ => h,
    fun hdel => absurd hdel hdelete, fun hdel => absurd hdel hdelete⟩

/-- What removes the entry of the request, and no container with something in
    it, has a bounded effect. -/
theorem bounded_delete (hdelete : req.command = "DELETE".toList)
    (h : Shrinks (fun key => key = oldEntry req) t t')
    (hkeeps : namesContainer (segments req) → HasChild t (rstrip (entryKey req)) → t' = t) :
    Bounded req t t' := by
  refine ⟨fun _ _ hno => absurd hdelete hno, ?_, fun _ => h, fun _ => hkeeps⟩
  rintro (hput | hpost)
  · exact absurd (hdelete.symm.trans hput) (by decide)
  · exact absurd (hdelete.symm.trans hpost) (by decide)

/-- **HEADLINE — the effect of every request is bounded**, on every table and
    at every exit. -/
theorem bounded_effect (con : Secrets) (req : Request) (t : Table) :
    Bounded req t (respond con req t).2 := by
  cases request_kind con req with
  | get client msg h =>
      rw [respond_get h]
      exact bounded_refl req t
  | list key msg h =>
      rw [respond_list h]
      exact bounded_refl req t
  | refused o hrun h =>
      rw [respond_refused hrun]
      exact bounded_refl req t
  | put client msg h => exact bounded_write (Or.inl h.command) (put_grows h t)
  | post msg h => exact bounded_write (Or.inr h.command) (post_grows h t)
  | destroy msg h =>
      refine bounded_delete h.command (destroy_shrinks h t) (fun _ hchild => ?_)
      rcases destroy_cases h t with ⟨-, e, heq⟩ | ⟨hremovable, -⟩
      · rw [heq]
      · exact absurd hchild hremovable.childless
  | delete client msg h =>
      exact bounded_delete h.command (delete_shrinks h t) (fun hcont => absurd hcont h.entry)

/-- A PUT in a namespace that is not there yet adds the namespace, too. -/
example : ((respond simpleSecrets (putBytes "u" ["u", "k"] []) ∅).2.keys)
    = ["keys/u/k".toList, "keys/u".toList] := by decide

end FrameProofs
