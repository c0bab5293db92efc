import Custodia.SecretsEffects
import Custodia.IpaVault
import Custodia.IpaCertRequest

/-! # DeleteProofs — when a DELETE tells whether something was there

    The consumer answers a DELETE by testing what `cut` of its store returns:
    `ret is False` is answered 404. Every store class has its own `cut`, and
    `IPACertRequest` returns a list of certificates where nothing was deleted,
    an empty one if there were none to revoke.

    * `CSStore.cut`: the `cut` of every store of the repository, stacked as
      configured;
    * `cut_spec`: what it returns, and that the entry is gone;
    * `delete_truthful_iff`: when the answer to a DELETE is the truth. -/

namespace DeleteProofs

open Interaction PosixPath PyValues Messages SqliteStore SecretsConsumer SecretsCalls
open SecretsRequests SecretsRuns SecretsEffects IpaVault IpaCertRequest

/-! ## The stores -/

/-- The stores of the repository, with what they are stacked on: three databases
    at the bottom, and two stores that pass calls on to the store below them. -/
inductive CSStore where
  | sqliteStore
  | encryptedStore
  | encryptedOverlay (store : CSStore)
  | ipaVault
  | ipaCertRequest (self : CertRequest) (store : CSStore)

/-- An operation of one of the backends, which are the SQLite database, the
    vaults of an IPA server and the certificates of one. Every store of a stack
    works on these alone. -/
inductive BackendOp where
  | db (c : Call)
  | vault (o : VaultCommand)
  | ipa (o : CertCommand)

/-- What an operation returns. -/
@[reducible] def BackendOp.Ans : BackendOp → Type
  | .db c => c.Ans
  | .vault o => o.Ans
  | .ipa o => o.Ans

abbrev BackendProg := Prog Exc BackendOp BackendOp.Ans

/-- The state of the backends. -/
structure Backend where
  table : Table
  vaults : Vaults
  certs : Certs

/-- An operation that is carried out. -/
def execBackend : (o : BackendOp) → Backend → Except Exc o.Ans × Backend
  | .db c, w => ((SqliteStore.exec c w.table).1, { w with table := (SqliteStore.exec c w.table).2 })
  | .vault o, w => ((serve o w.vaults).1, { w with vaults := (serve o w.vaults).2 })
  | .ipa o, w => ((certServe o w.certs).1, { w with certs := (certServe o w.certs).2 })

namespace CSStore

/-- `cut` of each store; `EncryptedStore` inherits that of `SqliteStore`, and
    `EncryptedOverlay` passes on what its store returns. -/
def cut : CSStore → Str → BackendProg CutResult
  | sqliteStore, key => do return .flag (← Prog.perform (BackendOp.db (.cut key)))
  | encryptedStore, key => do return .flag (← Prog.perform (BackendOp.db (.cut key)))
  | encryptedOverlay store, key => store.cut key
  | ipaVault, key => do
      return .flag (← (IpaVault.cut key).through (fun o => Prog.perform (BackendOp.vault o)))
  | ipaCertRequest self store, key =>
      cutOver self (fun o => Prog.perform (BackendOp.ipa o)) store.cut key

/-- The store accepts the key, and its backing store the key made of it. -/
def WellFormed : CSStore → Str → Prop
  | sqliteStore, _ => True
  | encryptedStore, _ => True
  | encryptedOverlay store, key => store.WellFormed key
  | ipaVault, key => ∃ name, mangleKey key = .ok name
  | ipaCertRequest self store, key =>
      ∃ parsed, parseKey self key = .ok parsed ∧ store.WellFormed parsed.key

/-- Something is there under the key: an entry, or an unrevoked certificate of
    the principal. -/
def Entry : CSStore → Backend → Str → Prop
  | sqliteStore, w, key => key ∈ w.table
  | encryptedStore, w, key => key ∈ w.table
  | encryptedOverlay store, w, key => store.Entry w key
  | ipaVault, w, key => ∃ name, mangleKey key = .ok name ∧ name ∈ w.vaults
  | ipaCertRequest self store, w, key =>
      ∃ parsed, parseKey self key = .ok parsed
        ∧ (store.Entry w parsed.key ∨ ∃ n, w.certs.lookup n = some ⟨parsed.principal, false⟩)

/-- There is an `IPACertRequest` in the stack. -/
def RequestsCerts : CSStore → Prop
  | sqliteStore => False
  | encryptedStore => False
  | encryptedOverlay store => store.RequestsCerts
  | ipaVault => False
  | ipaCertRequest _ _ => True

end CSStore

variable {store : CSStore} {key : Str} {w : Backend}

/-! ## Stores without certificates -/

/-- A cut that returns a boolean: it says whether the entry was there, and the
    entry is gone. -/
structure PlainCut (store : CSStore) (key : Str) (w : Backend) (b : Bool) (w' : Backend) :
    Prop where
  run : (store.cut key).run execBackend w = (.ok (.flag b), w')
  said : b = true ↔ store.Entry w key
  gone : ¬ store.Entry w' key
  certs : w'.certs = w.certs

/-- The cut of a table. -/
theorem table_cut (key : Str) (w : Backend) :
    ∃ b w', ((Prog.perform (BackendOp.db (.cut key))).bind
        (fun b => .ret (.flag b)) : BackendProg CutResult).run execBackend w = (.ok (.flag b), w')
      ∧ (b = true ↔ key ∈ w.table) ∧ key ∉ w'.table ∧ w'.certs = w.certs := by
  obtain ⟨b, hb, hsaid⟩ := exec_cut_answer key w.table
  refine ⟨b, { w with table := (SqliteStore.exec (.cut key) w.table).2 }, ?_, hsaid,
    exec_cut_gone key w.table, rfl⟩
  rw [Prog.run_bind, Prog.run_perform, execBackend, hb]
  rfl

/-- The cut of a vault. -/
theorem vault_cut {name : Str} (hname : mangleKey key = .ok name) (w : Backend) :
    ∃ b w', PlainCut .ipaVault key w b w' := by
  have hentry : ∀ u : Backend, CSStore.Entry .ipaVault u key ↔ name ∈ u.vaults := by
    intro u
    constructor
    · rintro ⟨other, hother, hmem⟩
      obtain rfl := Except.ok.inj (hname.symm.trans hother)
      exact hmem
    · exact fun hmem => ⟨name, hname, hmem⟩
  have hrun : (CSStore.cut .ipaVault key).run execBackend w
      = match IpaVault.cutFinish name (serve (.del name) w.vaults).1 with
        | .ok b => (.ok (.flag b), { w with vaults := (serve (.del name) w.vaults).2 })
        | .error e => (.error e, { w with vaults := (serve (.del name) w.vaults).2 }) := by
    show (((IpaVault.cut key).through _).bind _).run execBackend w = _
    rw [cut_eq hname, Prog.run_bind, Prog.run_call_through, Prog.run_perform,
      Prog.ofExcept_through, Prog.run_ofExcept, execBackend]
    cases IpaVault.cutFinish name (serve (.del name) w.vaults).1 <;> rfl
  by_cases hmem : name ∈ w.vaults
  · rw [serve, if_pos hmem] at hrun
    refine ⟨true, _, hrun, iff_of_true rfl ((hentry w).mpr hmem), ?_, rfl⟩
    rw [hentry]
    exact fun h => (AList.mem_erase.mp h).1 rfl
  · rw [serve, if_neg hmem] at hrun
    have hno : ¬ CSStore.Entry .ipaVault w key := fun h => hmem ((hentry w).mp h)
    exact ⟨false, _, hrun, iff_of_false Bool.false_ne_true hno, hno, rfl⟩

/-- **A store without certificates** says whether the entry was there. -/
theorem plain_cut (hplain : ¬ store.RequestsCerts) (hkey : store.WellFormed key) (w : Backend) :
    ∃ b w', PlainCut store key w b w' := by
  induction store with
  | sqliteStore =>
      obtain ⟨b, w', hrun, hsaid, hgone, hcerts⟩ := table_cut key w
      exact ⟨b, w', hrun, hsaid, hgone, hcerts⟩
  | encryptedStore =>
      obtain ⟨b, w', hrun, hsaid, hgone, hcerts⟩ := table_cut key w
      exact ⟨b, w', hrun, hsaid, hgone, hcerts⟩
  | encryptedOverlay store ih =>
      obtain ⟨b, w', h⟩ := ih hplain hkey
      exact ⟨b, w', h.run, h.said, h.gone, h.certs⟩
  | ipaVault =>
      obtain ⟨name, hname⟩ := hkey
      exact vault_cut hname w
  | ipaCertRequest self store ih => exact absurd trivial hplain

/-- The cached pairs of an `IPACertRequest` are not kept in another one. -/
theorem backing_plain {service hostname : Str}
    (h : store.WellFormed (cachedKey service hostname)) : ¬ store.RequestsCerts := by
  induction store with
  | sqliteStore => exact fun h => h
  | encryptedStore => exact fun h => h
  | encryptedOverlay store ih => exact ih h
  | ipaVault => exact fun h => h
  | ipaCertRequest self store ih =>
      obtain ⟨parsed, hparsed, -⟩ := h
      exact absurd hparsed (parseKey_cachedKey self parsed)

/-! ## The store of certificates -/

/-- The certificates after the loop of `_revoke_certs`. -/
def revokedAll (certs : Certs) (found : List FoundCert) : Certs :=
  found.foldl (fun certs cert => (certServe (.certRevoke cert.serialNumber) certs).2) certs

theorem revokedAll_lookup (certs : Certs) (found : List FoundCert) (n : Nat) :
    (revokedAll certs found).lookup n = (certs.lookup n).map (fun c =>
      if n ∈ found.map FoundCert.serialNumber then { c with revoked := true } else c) := by
  induction found generalizing certs with
  | nil => simp [revokedAll]
  | cons cert found ih =>
      show (revokedAll (certServe (.certRevoke cert.serialNumber) certs).2 found).lookup n = _
      rw [ih, certRevoke_lookup, Option.map_map]
      congr 1
      funext c
      by_cases hn : n = cert.serialNumber
      · simp [hn]
      · simp [hn]

/-- The loop revokes the certificates it is given, if they have been issued. -/
theorem revokeEach_run {found : List FoundCert} {w : Backend}
    (h : ∀ cert ∈ found, cert.serialNumber ∈ w.certs) :
    (revokeEach (fun o => Prog.perform (BackendOp.ipa o)) found : BackendProg Unit).run
        execBackend w
      = (.ok (), { w with certs := revokedAll w.certs found }) := by
  induction found generalizing w with
  | nil => rfl
  | cons cert found ih =>
      have hcert := certRevoke_ok (h cert List.mem_cons_self)
      show (Prog.bind (Prog.perform (BackendOp.ipa (.certRevoke cert.serialNumber))) _).run
        execBackend w = _
      rw [Prog.run_bind, Prog.run_perform, execBackend, hcert]
      refine ih ?_
      intro other hother
      have hmem := h other (List.mem_cons_of_mem _ hother)
      rw [← AList.lookup_isSome] at hmem ⊢
      show ((certServe (.certRevoke cert.serialNumber) w.certs).2.lookup _).isSome = true
      rw [certRevoke_lookup, Option.isSome_map]
      exact hmem

/-- `_revoke_certs` revokes what it finds unrevoked. -/
theorem revokeCerts_run (principal : Str) (w : Backend) :
    (revokeCerts (fun o => Prog.perform (BackendOp.ipa o)) principal :
        BackendProg (List FoundCert)).run execBackend w
      = (.ok (unrevoked (certsOf w.certs principal)),
          { w with certs := revokedAll w.certs (unrevoked (certsOf w.certs principal)) }) := by
  have hissued : ∀ cert ∈ unrevoked (certsOf w.certs principal),
      cert.serialNumber ∈ w.certs := by
    intro cert hcert
    rw [← AList.lookup_isSome, mem_certsOf.mp (List.mem_filter.mp hcert).1]
    rfl
  show (Prog.bind (revokeEach (fun o => Prog.perform (BackendOp.ipa o))
    (unrevoked (certsOf w.certs principal))) _).run execBackend w = _
  rw [Prog.run_bind, revokeEach_run hissued]
  rfl

/-- After the loop the principal has no unrevoked certificate. -/
theorem revokedAll_none (certs : Certs) (principal : Str) (n : Nat) :
    (revokedAll certs (unrevoked (certsOf certs principal))).lookup n
      ≠ some ⟨principal, false⟩ := by
  intro h
  rw [revokedAll_lookup, Option.map_eq_some_iff] at h
  obtain ⟨cert, hcert, hafter⟩ := h
  by_cases hn : n ∈ (unrevoked (certsOf certs principal)).map FoundCert.serialNumber
  · rw [if_pos hn] at hafter
    exact Bool.noConfusion (congrArg Certificate.revoked hafter)
  · rw [if_neg hn] at hafter
    rw [hafter] at hcert
    refine hn (List.mem_map.mpr ⟨⟨n, false⟩, ?_, rfl⟩)
    exact List.mem_filter.mpr ⟨mem_certsOf.mpr hcert, rfl⟩

/-- **The cut of certificates** never returns `False`. -/
theorem certs_cut {self : CertRequest} (hkey : (CSStore.ipaCertRequest self store).WellFormed key)
    (w : Backend) :
    ∃ r w', ((CSStore.ipaCertRequest self store).cut key).run execBackend w = (.ok r, w')
      ∧ r ≠ .flag false ∧ ¬ (CSStore.ipaCertRequest self store).Entry w' key := by
  obtain ⟨parsed, hparsed, hbacking⟩ := hkey
  obtain ⟨service, hostname, -, -, -, -, rfl⟩ := parseKey_ok hparsed
  have hplain := backing_plain hbacking
  obtain ⟨b, w', hcut⟩ := plain_cut hplain hbacking { w with
    certs := revokedAll w.certs
      (unrevoked (certsOf w.certs (self.principalName service hostname))) }
  refine ⟨cutOr (.flag b)
    (unrevoked (certsOf w.certs (self.principalName service hostname))), w', ?_, ?_, ?_⟩
  · show (cutOver self _ store.cut key).run execBackend w = _
    rw [cutOver, hparsed]
    show (Prog.bind (revokeCerts _ _) (fun certs => Prog.bind (store.cut _)
      (fun deleted => .ret (cutOr deleted certs)))).run execBackend w = _
    rw [Prog.run_bind, revokeCerts_run]
    show (Prog.bind (store.cut _) _).run execBackend _ = _
    rw [Prog.run_bind, hcut.run]
    rfl
  · cases b with
    | true => exact fun h => Bool.noConfusion (CutResult.flag.inj h)
    | false => exact fun h => CutResult.noConfusion h
  · rintro ⟨parsed', hparsed', hentry⟩
    obtain rfl := Except.ok.inj (hparsed.symm.trans hparsed')
    rcases hentry with hentry | ⟨n, hn⟩
    · exact hcut.gone hentry
    · rw [hcut.certs] at hn
      exact revokedAll_none w.certs _ n hn

/-! ## Every store -/

/-- **What `cut` returns**: `False` exactly if nothing was there and there are
    no certificates in the stack; afterwards nothing is there. -/
theorem cut_spec (hkey : store.WellFormed key) (w : Backend) :
    ∃ r w', (store.cut key).run execBackend w = (.ok r, w')
      ∧ (r = .flag false ↔ ¬ store.Entry w key ∧ ¬ store.RequestsCerts)
      ∧ ¬ store.Entry w' key := by
  by_cases hplain : store.RequestsCerts
  · obtain ⟨r, w', hrun, hr, hgone⟩ : ∃ r w', (store.cut key).run execBackend w = (.ok r, w')
        ∧ r ≠ .flag false ∧ ¬ store.Entry w' key := by
      induction store with
      | sqliteStore => exact absurd hplain (fun h => h)
      | encryptedStore => exact absurd hplain (fun h => h)
      | encryptedOverlay store ih => exact ih hkey hplain
      | ipaVault => exact absurd hplain (fun h => h)
      | ipaCertRequest self store ih => exact certs_cut hkey w
    exact ⟨r, w', hrun, iff_of_false hr (fun h => h.2 hplain), hgone⟩
  · obtain ⟨b, w', h⟩ := plain_cut hplain hkey w
    refine ⟨.flag b, w', h.run, ?_, h.gone⟩
    constructor
    · intro hfalse
      obtain rfl := CutResult.flag.inj hfalse
      exact ⟨fun hentry => Bool.false_ne_true (h.said.mpr hentry), hplain⟩
    · rintro ⟨hno, -⟩
      cases b with
      | true => exact absurd (h.said.mp rfl) hno
      | false => rfl

/-! ## The consumer -/

/-- `ret is not False`. -/
def notFalse (r : CutResult) : Bool := decide (r ≠ .flag false)

/-- The methods of the store, as the consumer sees them; it calls those other
    than `cut` for other requests. -/
def methods (store : CSStore) (others : (c : Call) → BackendProg c.Ans) :
    (c : Call) → BackendProg c.Ans
  | .cut key => (store.cut key).bind (fun r => .ret (notFalse r))
  | .get key => others (.get key)
  | .set key value replace => others (.set key value replace)
  | .span key => others (.span key)
  | .list keyfilter => others (.list keyfilter)

/-- Handle one request alone, over the backends of a store. -/
def respondOver (con : Secrets) (store : CSStore) (others : (c : Call) → BackendProg c.Ans)
    (req : Request) (w : Backend) : Outcome × Backend :=
  match ((handle con req).through (methods store others)).run execBackend w with
  | (.ok o, w') => (o, w')
  | (.error e, w') => (⟨.error e, []⟩, w')

variable {con : Secrets} {req : Request} {client : Str} {msg : Handler}
  {others : (c : Call) → BackendProg c.Ans}

/-- A DELETE of a key is one `cut`. -/
theorem respondOver_delete (h : Deletes con req client msg) {r : CutResult} {w' : Backend}
    (hcut : (store.cut (entryKey req)).run execBackend w = (.ok r, w')) :
    respondOver con store others req w
      = (recorded auditDelAllowed auditDelDenied client (segments req)
          (SecretsCalls.cutFinish con msg (.ok (notFalse r))), w') := by
  have hmethod : (methods store others (.cut (entryKey req))).run execBackend w
      = (.ok (notFalse r), w') := by
    rw [methods, Prog.run_bind, hcut]
    rfl
  rw [respondOver, handle_delete h, Prog.through_conclude, Prog.run_conclude,
    Prog.run_call_through, hmethod, Prog.ofExcept_through, Prog.run_ofExcept]

/-- The answer is 404 exactly if nothing was there; otherwise it is a success,
    and the entry is gone. -/
structure Truthful (store : CSStore) (w : Backend) (key : Str) (o : Outcome) (w' : Backend) :
    Prop where
  notFound : o.status = 404 ↔ ¬ store.Entry w key
  deleted : store.Entry w key → (200 ≤ o.status ∧ o.status < 300) ∧ ¬ store.Entry w' key

/-- **HEADLINE — when a DELETE is answered truthfully**: there was something
    to delete and the message can be answered, or there was nothing and no
    certificates are requested in the stack. -/
theorem delete_truthful_iff (h : Deletes con req client msg)
    (hkey : store.WellFormed (entryKey req)) (w : Backend) :
    Truthful store w (entryKey req) (respondOver con store others req w).1
        (respondOver con store others req w).2
      ↔ (store.Entry w (entryKey req) → ¬ Unanswerable con.runtime msg)
        ∧ (¬ store.Entry w (entryKey req) → ¬ store.RequestsCerts) := by
  obtain ⟨r, w', hcut, hr, hgone⟩ := cut_spec hkey w
  rw [respondOver_delete h hcut]
  by_cases hfalse : r = .flag false
  · -- nothing was there, and it is said
    obtain ⟨hno, hplain⟩ := hr.mp hfalse
    subst hfalse
    exact iff_of_true ⟨iff_of_true rfl hno, fun hentry => absurd hentry hno⟩
      ⟨fun hentry => absurd hentry hno, fun _ => hplain⟩
  · have hfinish : SecretsCalls.cutFinish con msg (.ok (notFalse r))
        = changedResponse con msg 200 204 := by
      rw [notFalse, decide_eq_true hfalse]
      rfl
    rw [hfinish]
    obtain ⟨audit, hrecorded⟩ : ∃ audit, recorded auditDelAllowed auditDelDenied client
        (segments req) (changedResponse con msg 200 204)
          = ⟨changedResponse con msg 200 204 >>= finishResponse, audit⟩ := ⟨_, rfl⟩
    rw [hrecorded]
    show Truthful store w (entryKey req)
      ⟨changedResponse con msg 200 204 >>= finishResponse, audit⟩ w' ↔ _
    rcases changed_status con msg 200 204 audit with ⟨hu, h500⟩ | ⟨hu, hcode⟩
    · refine iff_of_false ?_ ?_
      · rintro ⟨hnone, hsome⟩
        by_cases hentry : store.Entry w (entryKey req)
        · have hsuccess := (hsome hentry).1.2
          omega
        · have h404 := hnone.mpr hentry
          omega
      · rintro ⟨hanswer, hplain⟩
        by_cases hentry : store.Entry w (entryKey req)
        · exact hanswer hentry hu
        · exact hfalse (hr.mpr ⟨hentry, hplain hentry⟩)
    · constructor
      · rintro ⟨hnone, -⟩
        refine ⟨fun _ => hu, fun hentry => ?_⟩
        have h404 := hnone.mpr hentry
        omega
      · rintro ⟨-, hplain⟩
        have hentry : store.Entry w (entryKey req) := by
          by_contra hno
          exact hfalse (hr.mpr ⟨hno, hplain hno⟩)
        refine ⟨iff_of_false (by omega) (not_not.mpr hentry), fun _ => ⟨by omega, hgone⟩⟩

/-- Certificates cached in a table. -/
def certStore : CSStore := .ipaCertRequest httpCerts .sqliteStore

/-- The DELETE of the certificates of a host. -/
def deleteHost : Request := userRequest "DELETE" "HTTP" ["HTTP", "h"] [] none

/-- The methods that a DELETE of a key does not call. -/
def unused (c : Call) : BackendProg c.Ans := .raise (.py .csStoreUnsupported [])

/-- Nothing was cached or issued, and the DELETE is answered 204. -/
theorem nothing_deleted :
    (∃ client msg, Deletes simpleSecrets deleteHost client msg)
    ∧ certStore.WellFormed (entryKey deleteHost)
    ∧ ¬ certStore.Entry ⟨∅, ∅, ∅⟩ (entryKey deleteHost)
    ∧ (respondOver simpleSecrets certStore unused deleteHost ⟨∅, ∅, ∅⟩).1.status = 204
    ∧ ¬ Truthful certStore ⟨∅, ∅, ∅⟩ (entryKey deleteHost)
        (respondOver simpleSecrets certStore unused deleteHost ⟨∅, ∅, ∅⟩).1
        (respondOver simpleSecrets certStore unused deleteHost ⟨∅, ∅, ∅⟩).2 := by
  have hno : ¬ certStore.Entry ⟨∅, ∅, ∅⟩ (entryKey deleteHost) := by
    rintro ⟨parsed, -, hentry | ⟨n, hn⟩⟩
    · exact AList.notMem_empty _ hentry
    · cases hn
  have hstatus : (respondOver simpleSecrets certStore unused deleteHost ⟨∅, ∅, ∅⟩).1.status
      = 204 := by rfl
  refine ⟨⟨_, _, ⟨rfl, by decide, by decide, rfl, rfl⟩⟩, ⟨_, rfl, trivial⟩, hno, hstatus, ?_⟩
  intro h
  have h404 := h.notFound.mpr hno
  rw [hstatus] at h404
  exact absurd h404 (by decide)

/-- With a cached pair the same DELETE is answered truthfully. -/
theorem delete_truthful_cached :
    (∃ client msg, Deletes simpleSecrets deleteHost client msg)
    ∧ certStore.WellFormed (entryKey deleteHost)
    ∧ Truthful certStore ⟨(∅ : Table).insert "cert/HTTP/h" (.text "pem"), ∅, ∅⟩
        (entryKey deleteHost)
        (respondOver simpleSecrets certStore unused deleteHost
          ⟨(∅ : Table).insert "cert/HTTP/h" (.text "pem"), ∅, ∅⟩).1
        (respondOver simpleSecrets certStore unused deleteHost
          ⟨(∅ : Table).insert "cert/HTTP/h" (.text "pem"), ∅, ∅⟩).2 := by
  have hdelete : Deletes simpleSecrets deleteHost "HTTP"
      (.simpleKey (some "HTTP/h".toList) (.ofText [])) :=
    ⟨rfl, by decide, by decide, rfl, rfl⟩
  have hkey : certStore.WellFormed (entryKey deleteHost) := ⟨_, rfl, trivial⟩
  refine ⟨⟨_, _, hdelete⟩, hkey, (delete_truthful_iff hdelete hkey _).mpr ⟨?_, ?_⟩⟩
  · intro _ h
    cases h
  · intro hno
    exact absurd ⟨_, rfl, Or.inl (AList.mem_insert _ |>.mpr (Or.inl rfl))⟩ hno

end DeleteProofs
