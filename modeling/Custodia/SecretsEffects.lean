import Custodia.SecretsRuns

/-! # SecretsEffects — what a request changes, and when

    For each kind of request that writes, the possible ends together with the
    state of the table that leads to them.

    * `Admitted`: the parent check lets the request pass, perhaps making the
      namespace;
    * `put_cases`, `post_cases`, `destroy_cases`, `delete_cases`: all ends;
    * `changedResponse_finish`: which messages cannot be answered. -/

namespace SecretsEffects

open PosixPath PyValues Messages SqliteStore SecretsConsumer SecretsCalls SecretsRequests
open SecretsRuns

/-! ## Passing the parent check -/

/-- The table with the namespace of the trail. -/
def withNamespace (t : Table) (trail : List Str) : Table :=
  t.insert (rstrip (parentKey trail)) (.text [])

/-- The parent check finds nothing at or below the parent, which is the caller's
    default namespace and no more, and so makes it before anything else is done. -/
structure NamespaceMade (t : Table) (default : Option Str) (trail : List Str) : Prop where
  short : ¬ TooLong t (parentKey trail)
  childless : ¬ HasChild t (rstrip (parentKey trail))
  missing : ¬ HasParent t (rstrip (parentKey trail))
  only : onlyNamespaceMissing default trail

/-- The parent check lets the request pass, with this table: the one it was
    given where the parent or something in it was found, or else the one with
    the default namespace in it. -/
inductive Admitted (t : Table) (default : Option Str) (trail : List Str) : Table → Prop where
  | found (short : ¬ TooLong t (parentKey trail))
      (there : HasChild t (rstrip (parentKey trail)) ∨ HasParent t (rstrip (parentKey trail))) :
      Admitted t default trail t
  | made (h : NamespaceMade t default trail) : Admitted t default trail (withNamespace t trail)

variable {t t' : Table} {default : Option Str} {trail : List Str}

/-- **The parent check lets a table pass, or makes the namespace**, and in no
    other way is a request admitted. -/
theorem parentCheck_iff : parentCheck t default trail = .ok t' ↔ Admitted t default trail t' := by
  rcases parentCheck_cases t default trail with ⟨hlong, h⟩ | ⟨hshort, hfound, h⟩ |
    ⟨hshort, hnc, hnp, hns, h⟩ | ⟨hnc, hnp, hns, h⟩
  · constructor
    · intro hok
      exact nomatch hok.symm.trans h
    · rintro (⟨hshort, -⟩ | hmade)
      · exact absurd hlong hshort
      · exact absurd hlong hmade.short
  · constructor
    · intro hok
      obtain rfl := Except.ok.inj (hok.symm.trans h)
      exact .found hshort hfound
    · rintro (⟨-, -⟩ | hmade)
      · exact h
      · rcases hfound with hc | hp
        · exact absurd hc hmade.childless
        · exact absurd hp hmade.missing
  · constructor
    · intro hok
      obtain rfl := Except.ok.inj (hok.symm.trans h)
      exact .made ⟨hshort, hnc, hnp, hns⟩
    · rintro (⟨-, hc | hp⟩ | -)
      · exact absurd hc hnc
      · exact absurd hp hnp
      · exact h
  · constructor
    · intro hok
      exact nomatch hok.symm.trans h
    · rintro (⟨-, hc | hp⟩ | hmade)
      · exact absurd hc hnc
      · exact absurd hp hnp
      · exact absurd hmade.only hns

/-- The check ends in one table only. -/
theorem Admitted.unique {t₁ t₂ : Table} (h₁ : Admitted t default trail t₁)
    (h₂ : Admitted t default trail t₂) : t₁ = t₂ :=
  Except.ok.inj ((parentCheck_iff.mpr h₁).symm.trans (parentCheck_iff.mpr h₂))

/-- A refused parent check is an `HTTPError`. -/
theorem parentCheck_error {e : Exc} (h : parentCheck t default trail = .error e) :
    ∃ code, e = .http code none := by
  rcases parentCheck_cases t default trail with ⟨-, h'⟩ | ⟨-, -, h'⟩ | ⟨-, -, -, -, h'⟩ |
    ⟨-, -, -, h'⟩
  · exact ⟨500, Except.error.inj (h.symm.trans h')⟩
  · exact nomatch h.symm.trans h'
  · exact nomatch h.symm.trans h'
  · exact ⟨404, Except.error.inj (h.symm.trans h')⟩

/-- A namespace is made only where there is none. -/
theorem NamespaceMade.fresh (h : NamespaceMade t default trail) :
    rstrip (parentKey trail) ∉ t := fun hmem => h.missing (Or.inl hmem)

/-- An inserted key that was not there changes the table. -/
theorem insert_ne_self {key : Str} (hfree : key ∉ t) (v : SqlValue) : t.insert key v ≠ t := by
  intro h
  have hmem : key ∈ t.insert key v := (AList.mem_insert t).mpr (Or.inl rfl)
  rw [h] at hmem
  exact hfree hmem

/-- Removing a row that is there changes the table. -/
theorem erase_ne_self {key : Str} (hmem : key ∈ t) : t.erase key ≠ t := by
  intro h
  rw [← h] at hmem
  exact (AList.mem_erase.mp hmem).1 rfl

/-- What was there stays there while the parent is checked. -/
theorem Admitted.kept (h : Admitted t default trail t') : ∀ key ∈ t, key ∈ t' := by
  intro key hmem
  cases h with
  | found => exact hmem
  | made => exact (AList.mem_insert t).mpr (Or.inr hmem)

/-- A new row in a table that has kept the old rows is a change. -/
theorem insert_ne_of_kept (hkept : ∀ key ∈ t, key ∈ t') {key : Str} (hfree : key ∉ t')
    (v : SqlValue) : t'.insert key v ≠ t := by
  intro heq
  have hmem : key ∈ t'.insert key v := (AList.mem_insert t').mpr (Or.inl rfl)
  rw [heq] at hmem
  exact hfree (hkept key hmem)

/-! ## The ends of a PUT -/

/-- `set` accepts the value under the key: the key does not end in a slash, the
    value can be bound to a column, and nothing is stored under the key yet. -/
structure Storable (t : Table) (key : Str) (value : Json) : Prop where
  open_end : endsInSlash key = false
  bound : ∃ v, bindValue setErrorText value = .ok v
  fresh : key ∉ t

/-- What `set` does with an acceptable value, and with any other. -/
theorem exec_set_storable (t : Table) (key : Str) (value : Json) :
    (∃ v, Storable t key value ∧ bindValue setErrorText value = .ok v
      ∧ exec (.set key value false) t = (.ok (), t.insert key v))
    ∨ (¬ Storable t key value ∧ ∃ e, exec (.set key value false) t = (.error e, t)) := by
  cases hend : endsInSlash key with
  | true =>
      obtain ⟨e, he, -⟩ := exec_set_slash hend value false t
      refine Or.inr ⟨?_, e, he⟩
      intro hs
      exact absurd (hend.symm.trans hs.open_end) (by decide)
  | false =>
      cases hbound : bindValue setErrorText value with
      | error e =>
          refine Or.inr ⟨?_, e, exec_set_unbound hend hbound false t⟩
          rintro ⟨-, ⟨v, hv⟩, -⟩
          exact nomatch hbound.symm.trans hv
      | ok v =>
          by_cases hmem : key ∈ t
          · exact Or.inr ⟨fun hs => hs.fresh hmem, _, exec_set_mem hend hbound hmem⟩
          · exact Or.inl ⟨v, ⟨hend, ⟨v, hbound⟩, hmem⟩, rfl, exec_set_not_mem hend hbound hmem⟩

variable {con : Secrets} {req : Request} {client : Str} {msg : Handler}

/-- **The ends of a PUT**: refused by the parent check, refused by `set` with
    what the check has done, or stored. -/
theorem put_cases (h : Puts con req client msg) (t : Table) :
    ((∀ t', ¬ Admitted t req.defaultNamespace (segments req) t')
      ∧ ∃ e, respond con req t = (recorded auditSetAllowed auditSetDenied client (segments req)
          (.error e), t))
    ∨ (∃ t', Admitted t req.defaultNamespace (segments req) t'
      ∧ ¬ Storable t' (entryKey req) msg.payload
      ∧ ∃ e, respond con req t = (recorded auditSetAllowed auditSetDenied client (segments req)
          (.error e), t'))
    ∨ ∃ t' v, Admitted t req.defaultNamespace (segments req) t'
      ∧ Storable t' (entryKey req) msg.payload ∧ bindValue setErrorText msg.payload = .ok v
      ∧ respond con req t = (recorded auditSetAllowed auditSetDenied client (segments req)
          (changedResponse con msg 201 201), t'.insert (entryKey req) v) := by
  rw [respond_put h]
  cases hcheck : parentCheck t req.defaultNamespace (segments req) with
  | error e =>
      refine Or.inl ⟨?_, _, rfl⟩
      intro t' ha
      exact nomatch hcheck.symm.trans (parentCheck_iff.mpr ha)
  | ok t' =>
      have ha := parentCheck_iff.mp hcheck
      refine Or.inr ?_
      rcases exec_set_storable t' (entryKey req) msg.payload with ⟨v, hs, hv, hset⟩ | ⟨hs, e, hset⟩
      · exact Or.inr ⟨t', v, ha, hs, hv, by simp only [hset, setFinish]⟩
      · exact Or.inl ⟨t', ha, hs, setError e, by simp only [hset, setFinish]⟩

/-! ## The ends of a POST -/

/-- The container of a POST may be made in this table: at the top at once,
    further down after the parent check. -/
def PostAdmitted (t : Table) (req : Request) (t' : Table) : Prop :=
  (segments req).length = 2 ∧ t' = t
  ∨ 2 < (segments req).length ∧ Admitted t req.defaultNamespace (segments req).dropLast t'

/-- Admitting a POST removes nothing. -/
theorem PostAdmitted.kept (h : PostAdmitted t req t') : ∀ key ∈ t, key ∈ t' := by
  intro key hmem
  rcases h with ⟨-, rfl⟩ | ⟨-, ha⟩
  · exact hmem
  · exact ha.kept key hmem

/-- A POST is admitted to one table at most. -/
theorem PostAdmitted.unique {t₁ t₂ : Table} (h₁ : PostAdmitted t req t₁)
    (h₂ : PostAdmitted t req t₂) : t₁ = t₂ := by
  rcases h₁ with ⟨htop, rfl⟩ | ⟨hlen, ha⟩ <;> rcases h₂ with ⟨htop', rfl⟩ | ⟨hlen', ha'⟩
  · rfl
  · omega
  · omega
  · exact ha.unique ha'

/-- **The ends of a POST**: refused by the parent check, found, or made. -/
theorem post_cases (h : Posts con req msg) (t : Table) :
    ((∀ t', ¬ PostAdmitted t req t') ∧ ∃ e, respond con req t = (plain (.error e), t))
    ∨ (∃ t', PostAdmitted t req t' ∧ rstrip (entryKey req) ∈ t'
      ∧ respond con req t = (plain (.ok ⟨some 200, none, .json .null⟩), t'))
    ∨ ∃ t', PostAdmitted t req t' ∧ rstrip (entryKey req) ∉ t'
      ∧ respond con req t = (plain (changedResponse con msg 201 201),
          t'.insert (rstrip (entryKey req)) (.text [])) := by
  have hspan : ∀ t', PostAdmitted t req t' →
      respond con req t = (plain (spanFinish con msg (exec (.span (entryKey req)) t').1),
        (exec (.span (entryKey req)) t').2) →
      (rstrip (entryKey req) ∈ t'
        ∧ respond con req t = (plain (.ok ⟨some 200, none, .json .null⟩), t'))
      ∨ (rstrip (entryKey req) ∉ t'
        ∧ respond con req t = (plain (changedResponse con msg 201 201),
            t'.insert (rstrip (entryKey req)) (.text []))) := by
    intro t' _ heq
    rw [heq]
    by_cases hmem : rstrip (entryKey req) ∈ t'
    · exact Or.inl ⟨hmem, by rw [exec_span_mem hmem]; rfl⟩
    · exact Or.inr ⟨hmem, by rw [exec_span_not_mem hmem]; rfl⟩
  by_cases htop : (segments req).length = 2
  · have ha : PostAdmitted t req t := Or.inl ⟨htop, rfl⟩
    rcases hspan t ha (respond_post_top h htop t) with ⟨hmem, heq⟩ | ⟨hmem, heq⟩
    · exact Or.inr (Or.inl ⟨t, ha, hmem, heq⟩)
    · exact Or.inr (Or.inr ⟨t, ha, hmem, heq⟩)
  · have hdeep := h.deep
    have hlen : 2 < (segments req).length := by omega
    cases hcheck : parentCheck t req.defaultNamespace (segments req).dropLast with
    | error e =>
        obtain ⟨code, rfl⟩ := parentCheck_error hcheck
        refine Or.inl ⟨?_, .http code none, by rw [respond_post_below h hlen, hcheck]; rfl⟩
        rintro t' (⟨htwo, -⟩ | ⟨-, ha⟩)
        · exact htop htwo
        · exact nomatch hcheck.symm.trans (parentCheck_iff.mpr ha)
    | ok t' =>
        have ha : PostAdmitted t req t' := Or.inr ⟨hlen, parentCheck_iff.mp hcheck⟩
        have heq := respond_post_below h hlen t
        rw [hcheck] at heq
        rcases hspan t' ha heq with ⟨hmem, heq⟩ | ⟨hmem, heq⟩
        · exact Or.inr (Or.inl ⟨t', ha, hmem, heq⟩)
        · exact Or.inr (Or.inr ⟨t', ha, hmem, heq⟩)

/-! ## The ends of a DELETE -/

/-- The key of a container is not empty. -/
theorem entryKey_ne_nil (h : namesContainer (segments req)) : entryKey req ≠ [] := by
  have hsplit : (segments req).dropLast ++ [[]] = segments req :=
    List.dropLast_append_getLast? [] h
  have hkey : entryKey req = parentKey (segments req) := by
    rw [parentKey, hsplit, entryKey]
  rw [hkey]
  exact parentKey_ne_nil _

/-- The container is cut: it can be listed, as its pattern is not too long, it
    has no child, and its own row is there. -/
structure Removable (t : Table) (key : Str) : Prop where
  short : ¬ TooLong t key
  childless : ¬ HasChild t (rstrip key)
  there : rstrip key ∈ t

/-- **The ends of a DELETE of a container**: refused, or cut. -/
theorem destroy_cases (h : Destroys con req msg) (t : Table) :
    (¬ Removable t (entryKey req) ∧ ∃ e, respond con req t = (plain (.error e), t))
    ∨ (Removable t (entryKey req)
      ∧ respond con req t = (plain (changedResponse con msg 200 204),
          t.erase (rstrip (entryKey req)))) := by
  rw [respond_destroy h]
  rcases listing_cases t (entryKey_ne_nil h.container) with ⟨hlong, text, hlist⟩ |
    ⟨-, hchild, names, hne, hlist⟩ | ⟨hshort, hleaf, -, hlist⟩ | ⟨-, -, hnp, hlist⟩
  · exact Or.inl ⟨fun hr => hr.short hlong, _, by rw [hlist]⟩
  · refine Or.inl ⟨fun hr => hr.childless hchild, ?_⟩
    cases names with
    | nil => exact absurd rfl hne
    | cons a l => exact ⟨_, by rw [hlist]⟩
  · rw [hlist]
    by_cases hmem : rstrip (entryKey req) ∈ t
    · exact Or.inr ⟨⟨hshort, hleaf, hmem⟩, by simp only [exec_cut_mem hmem, cutFinish]⟩
    · exact Or.inl ⟨fun hr => hmem hr.there, .http 404 none,
        by simp only [exec_cut_not_mem hmem, cutFinish]⟩
  · exact Or.inl ⟨fun hr => hnp (Or.inl hr.there), _, by rw [hlist]⟩

/-- **The ends of a DELETE of a key**: the row is removed, or nothing was there;
    in neither case does another row change. -/
theorem delete_cases (h : Deletes con req client msg) (t : Table) :
    (entryKey req ∉ t
      ∧ respond con req t = (recorded auditDelAllowed auditDelDenied client (segments req)
          (.error (.http 404 none)), t))
    ∨ (entryKey req ∈ t
      ∧ respond con req t = (recorded auditDelAllowed auditDelDenied client (segments req)
          (changedResponse con msg 200 204), t.erase (entryKey req))) := by
  rw [respond_delete h]
  by_cases hmem : entryKey req ∈ t
  · exact Or.inr ⟨hmem, by simp only [exec_cut_mem hmem, cutFinish]⟩
  · exact Or.inl ⟨hmem, by simp only [exec_cut_not_mem hmem, cutFinish]⟩

/-! ## Messages that cannot be answered -/

/-- The message is a `kem` message whose reply cannot be built: the client's
    encryption key is not an RSA key, the server keys or the algorithm are
    missing, or the token cannot be signed and encrypted. -/
inductive Unanswerable (rt : Runtime) : Handler → Prop where
  | keyType (name : Str) (payload : Json) (kk : KEMKeysStore) (encKey : Jwk)
      (h : encKey.keyType ≠ "RSA".toList) : Unanswerable rt (.kemHandler name payload kk encKey)
  | serverKeys (name : Str) (payload : Json) (kk : KEMKeysStore) (encKey : Jwk) (e : Exc)
      (h : kk.serverKeyPair rt = .error e) : Unanswerable rt (.kemHandler name payload kk encKey)
  | algorithm (name : Str) (payload : Json) (kk : KEMKeysStore) (encKey : Jwk) (e : Exc)
      (h : kk.alg rt = .error e) : Unanswerable rt (.kemHandler name payload kk encKey)
  | token (name : Str) (payload : Json) (kk : KEMKeysStore) (encKey : Jwk) (keys : Jwk × Jwk)
      (alg : Str) (e : Exc) (hkeys : kk.serverKeyPair rt = .ok keys) (halg : kk.alg rt = .ok alg)
      (h : makeEncKem rt name .null keys.1 alg encKey ("RSA-OAEP", "A256CBC-HS512") = .error e) :
      Unanswerable rt (.kemHandler name payload kk encKey)

/-- How the response after a change is built: no reply to a `simple` message,
    an encrypted one to a `kem` message. -/
theorem changedResponse_cases (con : Secrets) (msg : Handler) (withReply noReply : Nat) :
    (Unanswerable con.runtime msg ∧ ∃ e, changedResponse con msg withReply noReply = .error e)
    ∨ (¬ Unanswerable con.runtime msg
      ∧ (changedResponse con msg withReply noReply = .ok ⟨some noReply, none, .json .null⟩
        ∨ ∃ fields, changedResponse con msg withReply noReply
          = .ok ⟨some withReply, some jsonContentType, .json (.obj fields)⟩)) := by
  cases msg with
  | simpleKey name payload =>
      refine Or.inr ⟨?_, Or.inl rfl⟩
      intro h
      cases h
  | kemHandler name payload kk encKey =>
      unfold changedResponse Handler.reply kemReply
      by_cases hkey : encKey.keyType = "RSA".toList
      · simp only [if_pos hkey]
        cases hkeys : kk.serverKeyPair con.runtime with
        | error e => exact Or.inl ⟨.serverKeys name payload kk encKey e hkeys, e, rfl⟩
        | ok keys =>
            cases halg : kk.alg con.runtime with
            | error e => exact Or.inl ⟨.algorithm name payload kk encKey e halg, e, rfl⟩
            | ok alg =>
                cases htoken : makeEncKem con.runtime name .null keys.1 alg encKey
                    ("RSA-OAEP", "A256CBC-HS512") with
                | error e =>
                    refine Or.inl
                      ⟨.token name payload kk encKey keys alg e hkeys halg htoken, e, ?_⟩
                    show (makeEncKem _ _ _ _ _ _ _ >>= _) >>= _ = _
                    rw [htoken]
                    rfl
                | ok token =>
                    refine Or.inr ⟨?_, Or.inr ⟨[(.text "type", .ofText "kem"),
                      (.text "value", .ofText token)], ?_⟩⟩
                    · intro h
                      cases h with
                      | keyType _ _ _ _ h => exact h hkey
                      | serverKeys _ _ _ _ e h => exact nomatch hkeys.symm.trans h
                      | algorithm _ _ _ _ e h => exact nomatch halg.symm.trans h
                      | token _ _ _ _ keys' alg' e hkeys' halg' h =>
                          obtain rfl := Except.ok.inj (hkeys.symm.trans hkeys')
                          obtain rfl := Except.ok.inj (halg.symm.trans halg')
                          exact nomatch htoken.symm.trans h
                    · show (makeEncKem _ _ _ _ _ _ _ >>= _) >>= _ = _
                      rw [htoken]
                      rfl
      · simp only [if_neg hkey]
        exact Or.inl ⟨.keyType name payload kk encKey hkey, _, rfl⟩

/-- A response after a change is sent as it is built. -/
theorem changedResponse_finish (con : Secrets) (msg : Handler) (withReply noReply : Nat) :
    (∃ e, changedResponse con msg withReply noReply >>= finishResponse = .error e)
      ↔ Unanswerable con.runtime msg := by
  rcases changedResponse_cases con msg withReply noReply with ⟨hu, e, h⟩ | ⟨hu, h⟩
  · rw [h]
    exact iff_of_true ⟨e, rfl⟩ hu
  · refine iff_of_false ?_ hu
    rintro ⟨e, he⟩
    rcases h with h | ⟨fields, h⟩
    · rw [h] at he
      exact nomatch he
    · rw [h] at he
      exact nomatch he

/-- A change is answered 201 unless the message cannot be answered. -/
theorem created_answered {con : Secrets} {msg : Handler} {audit : List AuditRecord} :
    (⟨changedResponse con msg 201 201 >>= finishResponse, audit⟩ : Outcome).Answered 201
      ↔ ¬ Unanswerable con.runtime msg := by
  rcases changedResponse_cases con msg 201 201 with ⟨hu, e, h⟩ | ⟨hu, h | ⟨fields, h⟩⟩
  · rw [h]
    exact iff_of_false not_answered_error (not_not.mpr hu)
  · rw [h]
    exact iff_of_true ⟨_, rfl, rfl⟩ hu
  · rw [h]
    exact iff_of_true ⟨_, rfl, rfl⟩ hu

/-- After a change the client sees one of the codes of the change, or a 500 if
    the message cannot be answered. -/
theorem changed_status (con : Secrets) (msg : Handler) (withReply noReply : Nat)
    (audit : List AuditRecord) :
    (Unanswerable con.runtime msg
      ∧ (⟨changedResponse con msg withReply noReply >>= finishResponse, audit⟩ : Outcome).status
        = 500)
    ∨ (¬ Unanswerable con.runtime msg
      ∧ ((⟨changedResponse con msg withReply noReply >>= finishResponse, audit⟩ : Outcome).status
          = noReply
        ∨ (⟨changedResponse con msg withReply noReply >>= finishResponse, audit⟩ : Outcome).status
          = withReply)) := by
  rcases changedResponse_cases con msg withReply noReply with ⟨hu, e, h⟩ | ⟨hu, h | ⟨fields, h⟩⟩
  · have hpy : RaisesPy (changedResponse con msg withReply noReply) :=
      raisesPy_bind (raisesPy_reply _ _ _) (fun output => by cases output <;> exact raisesPy_ok _)
    obtain ⟨cls, text, rfl⟩ := hpy e h
    rw [h]
    exact Or.inl ⟨hu, rfl⟩
  · rw [h]
    exact Or.inr ⟨hu, Or.inl rfl⟩
  · rw [h]
    exact Or.inr ⟨hu, Or.inr rfl⟩

/-- What has been made is answered with 201, or the reply to it cannot be made. -/
theorem created_status (con : Secrets) (msg : Handler) (audit : List AuditRecord) :
    (⟨changedResponse con msg 201 201 >>= finishResponse, audit⟩ : Outcome).status = 201
    ∨ (⟨changedResponse con msg 201 201 >>= finishResponse, audit⟩ : Outcome).status = 500 := by
  rcases changed_status con msg 201 201 audit with ⟨-, h⟩ | ⟨-, h | h⟩
  · exact Or.inr h
  · exact Or.inl h
  · exact Or.inl h

/-- A removal is answered 204 only to a message that takes no reply. -/
theorem removed_answered {con : Secrets} {msg : Handler} {audit : List AuditRecord} :
    (⟨changedResponse con msg 200 204 >>= finishResponse, audit⟩ : Outcome).Answered 204
      ↔ ∃ name payload, msg = .simpleKey name payload := by
  cases msg with
  | simpleKey name payload => exact iff_of_true ⟨_, rfl, rfl⟩ ⟨name, payload, rfl⟩
  | kemHandler name payload kk encKey =>
      refine iff_of_false ?_ (fun h => by obtain ⟨_, _, h⟩ := h; exact nomatch h)
      rintro ⟨response, hok, hcode⟩
      obtain ⟨changed, hchanged, hfinish⟩ := bind_ok hok
      -- a `kem` message is always replied to
      obtain ⟨output, hreply, hresponse⟩ := bind_ok hchanged
      obtain ⟨fields, rfl⟩ : ∃ fields, output = .obj fields := kemReply_ok hreply
      obtain rfl := Except.ok.inj hresponse
      obtain rfl := Except.ok.inj hfinish
      have hcode : (200 : Nat) = 204 := hcode
      exact absurd hcode (by decide)

end SecretsEffects
