import Custodia.PinningProofs
import Custodia.WriteOnceProofs

/-! # MigrationProofs — the hidden write of a GET

    In the mode `migrate` a GET that meets a token without a pin writes it
    back, over whatever is stored by then. Any number of requests run
    interleaved, one call of the database at a time.

    * `program_get`: a migrating GET as a tree of calls;
    * `phase_step`: what a request has in mind at every turn;
    * `write_back_keeps`: unless the secret is removed in between, a GET writes
      the value that is stored;
    * `deleted_secret_revived`: what happens if it is. -/

namespace MigrationProofs

open Interaction Interleaving PosixPath PyValues Messages SqliteStore SecretsConsumer SecretsCalls
open SecretsRequests EncryptedStores EncryptedStores.StorePlugin WriteOnceProofs

/-- The overlay that migrates, on a database. -/
abbrev migrating (jwe : Jwe) (enctype : Str) : StorePlugin :=
  .encryptedOverlay jwe enctype (some "migrate".toList) .sqlite

/-- The row holds this secret, in whatever mode it was encrypted. -/
def Reads (jwe : Jwe) (row : SqlValue) (s : Str) : Prop :=
  ∃ header, jwe.decrypt row = .ok (s, header)

/-- The secret is stored under the key. -/
def Holds (jwe : Jwe) (t : Table) (key s : Str) : Prop :=
  ∃ row, t.lookup key = some row ∧ Reads jwe row s

variable {jwe : Jwe} {enctype : Str} {job : Job} {client : Str} {msg : Handler}

theorem reads_unique {row : SqlValue} {s s' : Str} (h : Reads jwe row s) (h' : Reads jwe row s') :
    s = s' := by
  obtain ⟨header, h⟩ := h
  obtain ⟨header', h'⟩ := h'
  exact (Prod.mk.inj (Except.ok.inj (h.symm.trans h'))).1

theorem holds_unique {t : Table} {key s s' : Str} (h : Holds jwe t key s)
    (h' : Holds jwe t key s') : s = s' := by
  obtain ⟨row, hrow, h⟩ := h
  obtain ⟨row', hrow', h'⟩ := h'
  obtain rfl := Option.some.inj (hrow.symm.trans hrow')
  exact reads_unique h h'

/-! ## The programs -/

/-- A migrating GET: its `get`, then the check of the pin. -/
theorem program_get (h : Gets job.con job.req client msg) :
    job.program (migrating jwe enctype) =
      (Prog.call (Call.get (entryKey job.req)) (fun (r : Except Exc SqlValue) =>
        (.ofExcept r : StoreProg SqlValue).bind (overlayOpen jwe enctype (some "migrate".toList)
          job.nonce (entryKey job.req)))).conclude
        (fun r => recorded auditGetAllowed auditGetDenied client (segments job.req)
          (getFinish job.con job.req msg r)) := by
  have hlayer : (migrating jwe enctype).layer job.nonce (.get (entryKey job.req))
      = Prog.call (Call.get (entryKey job.req)) (fun (r : Except Exc SqlValue) =>
        (.ofExcept r : StoreProg SqlValue).bind (overlayOpen jwe enctype (some "migrate".toList)
          job.nonce (entryKey job.req))) := Prog.through_perform _
  rw [Job.program, handle_get h, Prog.through_conclude, Prog.through_call, hlayer]
  simp only [Prog.ofExcept_through]
  exact Prog.conclude_attempt_bind _ _ _

/-- Every other request overwrites nothing. -/
theorem onlyIssues_other (hget : ∀ client msg, ¬ Gets job.con job.req client msg) :
    (job.program (migrating jwe enctype)).OnlyIssues (fun c => c.replaces = false) := by
  refine Prog.onlyIssues_through (P := fun c => c.replaces = false ∧ ∀ key, c ≠ .get key) _
    (onlyIssues_handle_of (fun key => ⟨rfl, nofun⟩) (fun key => ⟨rfl, nofun⟩)
      (fun key => ⟨rfl, nofun⟩) (fun client msg h => absurd h (hget client msg))
      (fun client msg h => ⟨rfl, nofun⟩)) ?_
  rintro c ⟨hkeep, hno⟩
  cases c with
  | get key => exact absurd rfl (hno key)
  | set key value replace =>
      rw [layer_set]
      cases (migrating jwe enctype).encode job.nonce key value with
      | error e => trivial
      | ok encoded => exact Prog.onlyIssues_perform hkeep
  | span key =>
      rw [layer_span]
      exact Prog.onlyIssues_perform rfl
  | list keyfilter =>
      rw [layer_list]
      exact Prog.onlyIssues_perform rfl
  | cut key =>
      rw [layer_cut]
      exact Prog.onlyIssues_perform rfl

/-- **What the check of the pin does**: it ends, or writes back what the row
    holds under a fresh token. -/
theorem overlayOpen_cases (hopens : Opens jwe (overlayHeader enctype (some "migrate".toList) key))
    (nonce : Nat) (row : SqlValue) :
    (∃ x, overlayOpen jwe enctype (some "migrate".toList) nonce key row = .ofExcept x)
    ∨ ∃ s token k, row ≠ .null ∧ Reads jwe row s ∧ Reads jwe (.text token) s
        ∧ overlayOpen jwe enctype (some "migrate".toList) nonce key row
          = .call (.set key (.ofText token) true) k
        ∧ ∀ r, (k r).OnlyIssues (fun c => c.replaces = false) := by
  rw [overlayOpen]
  by_cases hnull : row = .null
  · exact Or.inl ⟨.ok .null, if_pos hnull⟩
  rw [if_neg hnull]
  cases hrow : jwe.decrypt row with
  | error f => exact Or.inl ⟨.error parseError, rfl⟩
  | ok token =>
      obtain ⟨s, header⟩ := token
      simp only [if_neg (show ¬ some "migrate".toList = some "encrypt".toList by decide)]
      cases Json.lookup header "custodia.key" with
      | some pinned =>
          -- a pin ends the check, right or wrong
          by_cases hpin : pinned.isText key = true
          · simp only [if_pos hpin]
            exact Or.inl ⟨.ok (.text s), rfl⟩
          · simp only [if_neg hpin]
            exact Or.inl ⟨.error _, rfl⟩
      | none =>
          -- without one, the plaintext is sealed again and written
          simp only [if_pos]
          rw [overlaySet]
          cases hseal : jwe.encrypt (.obj (overlayHeader enctype (some "migrate".toList) key))
              (.ofText s) nonce with
          | error f => exact Or.inl ⟨.error (.py f.cls f.text), rfl⟩
          | ok token =>
              obtain ⟨s', found, hs', hopen, -⟩ := hopens.opens _ _ _ hseal
              obtain rfl := PyStr.text.inj (Json.str.inj hs')
              refine Or.inr ⟨s, token, _, hnull, ⟨header, hrow⟩, ⟨found, hopen⟩, rfl, ?_⟩
              intro r
              cases r <;> trivial

/-! ## What a request has in mind -/

/-- The state of a request on a table: it overwrites nothing any more; it is a
    GET that has not read; or it is a GET about to write back a secret that is
    stored. -/
inductive Phase (jwe : Jwe) (enctype : Str) (job : Job) (t : Table) : StoreProg Outcome → Prop where
  | calm (q : StoreProg Outcome) (h : q.OnlyIssues (fun c => c.replaces = false)) :
      Phase jwe enctype job t q
  | reading (client : Str) (msg : Handler) (h : Gets job.con job.req client msg) :
      Phase jwe enctype job t (job.program (migrating jwe enctype))
  | pending (key s token : Str) (k : Except Exc Unit → StoreProg Outcome)
      (hrest : ∀ r, (k r).OnlyIssues (fun c => c.replaces = false)) (hstored : Holds jwe t key s)
      (htoken : Reads jwe (.text token) s) :
      Phase jwe enctype job t (.call (.set key (.ofText token) true) k)

theorem phase_start (jwe : Jwe) (enctype : Str) (job : Job) (t : Table) :
    Phase jwe enctype job t (job.program (migrating jwe enctype)) := by
  by_cases h : ∃ client msg, Gets job.con job.req client msg
  · obtain ⟨client, msg, h⟩ := h
    exact .reading client msg h
  · exact .calm _ (onlyIssues_other (fun client msg hg => h ⟨client, msg, hg⟩))

/-- A call of a request takes it to its next phase. -/
theorem phase_moves
    (hopens : ∀ key, Opens jwe (overlayHeader enctype (some "migrate".toList) key)) {t : Table}
    {q : StoreProg Outcome} (h : Phase jwe enctype job t q) {o : Call}
    {k : Except Exc o.Ans → StoreProg Outcome} (hq : q = .call o k) :
    Phase jwe enctype job (exec o t).2 (k (exec o t).1) := by
  cases h with
  | calm _ h =>
      rw [hq] at h
      exact .calm _ (h.2 _)
  | reading client msg h =>
      rw [program_get h] at hq
      injection hq with ho hk
      subst ho
      obtain rfl := eq_of_heq hk
      show Phase jwe enctype job t (((overlayOpen jwe enctype (some "migrate".toList) job.nonce
        (entryKey job.req) ((t.lookup (entryKey job.req)).getD .null))).conclude _)
      rcases overlayOpen_cases (hopens _) job.nonce
        ((t.lookup (entryKey job.req)).getD .null) with
        ⟨x, hopen⟩ | ⟨s, token, k, hnull, hrow, htoken, hopen, hrest⟩
      · rw [hopen, Prog.conclude_ofExcept]
        exact .calm _ trivial
      · rw [hopen]
        refine .pending _ s token _ (fun r => Prog.onlyIssues_conclude _ (hrest r)) ?_ htoken
        -- nothing has happened since the read, so the secret is the stored one
        cases hlook : t.lookup (entryKey job.req) with
        | none =>
            rw [hlook] at hnull
            exact absurd rfl hnull
        | some row =>
            rw [hlook] at hrow
            exact ⟨row, hlook, hrow⟩
  | pending key s token k' hrest hstored htoken =>
      injection hq with ho hk
      subst ho
      obtain rfl := eq_of_heq hk
      exact .calm _ (hrest _)

/-- A secret that is stored stays stored, unless it is cut, where requests only
    write back what they have read. -/
theorem holds_exec {t : Table} {q : StoreProg Outcome} (h : Phase jwe enctype job t q) {o : Call}
    {k : Except Exc o.Ans → StoreProg Outcome} (hq : q = .call o k) {key s : Str}
    (hstored : Holds jwe t key s) (hcut : o ≠ .cut key) : Holds jwe (exec o t).2 key s := by
  have hkept : o.replaces = false → Holds jwe (exec o t).2 key s := by
    intro hkeep
    obtain ⟨row, hrow, hreads⟩ := hstored
    exact ⟨row, exec_row hrow hcut hkeep, hreads⟩
  cases h with
  | calm _ h =>
      rw [hq] at h
      exact hkept h.1
  | reading client msg h =>
      rw [program_get h] at hq
      injection hq with ho hk
      subst ho
      exact hkept rfl
  | pending key' s' token k' hrest hstored' htoken =>
      injection hq with ho hk
      subst ho
      rcases PinningProofs.exec_set_text key' token true t with hset | ⟨e, hset⟩
      · rw [hset]
        by_cases hkey : key = key'
        · -- another GET of the same key: it has read the same secret
          subst hkey
          obtain rfl := holds_unique hstored hstored'
          exact ⟨.text token, AList.lookup_insert _, htoken⟩
        · obtain ⟨row, hrow, hreads⟩ := hstored
          exact ⟨row, (AList.lookup_insert_ne hkey).trans hrow, hreads⟩
      · rw [hset]
        exact hstored

/-! ## Interleaved runs -/

variable {ι : Type} [DecidableEq ι]

/-- The key of the row that the program is about to cut. -/
def cutsNext : StoreProg Outcome → Option Str
  | .call (.cut key) _ => some key
  | _ => none

/-- The key of the row that the program is about to write back. -/
def writesBackNext : StoreProg Outcome → Option Str
  | .call (.set key _ true) _ => some key
  | _ => none

/-- The turn cuts the row of a key while a GET is about to write it back. -/
def CutsPending (v : Turn ι) : Prop :=
  ∃ j, cutsNext (v.1.procs v.2) ≠ none ∧ cutsNext (v.1.procs v.2) = writesBackNext (v.1.procs j)

instance {n : Nat} (v : Turn (Fin n)) : Decidable (CutsPending v) :=
  inferInstanceAs (Decidable (∃ _, _))

/-- If the turn writes back, it puts a token over a row that holds the same
    secret: nothing comes back that was removed, nothing newer is lost. -/
def KeepsValue (jwe : Jwe) (v : Turn ι) : Prop :=
  ∀ key value k, v.1.procs v.2 = .call (.set key value true) k →
    ∃ s token, value = .ofText token ∧ Reads jwe (.text token) s ∧ Holds jwe v.1.store key s

/-- All requests are in some phase. -/
def InPhase (jwe : Jwe) (enctype : Str) (jobs : ι → Job)
    (c : Config ι Exc Call Call.Ans Outcome Table) : Prop :=
  ∀ i, Phase jwe enctype (jobs i) c.store (c.procs i)

/-- **Every turn keeps the phases** but one that cuts what is to be written
    back. -/
theorem phase_step
    (hopens : ∀ key, Opens jwe (overlayHeader enctype (some "migrate".toList) key))
    {jobs : ι → Job} (c : Config ι Exc Call Call.Ans Outcome Table) (i : ι)
    (h : InPhase jwe enctype jobs c) (hcut : ¬ CutsPending (c, i)) :
    InPhase jwe enctype jobs (step exec c i) := by
  rcases step_cases exec c i with ⟨o, k, hp, hs⟩ | hs
  · intro j
    by_cases hj : j = i
    · subst hj
      rw [hs]
      show Phase jwe enctype (jobs j) (exec o c.store).2
        (Function.update c.procs j (k (exec o c.store).1) j)
      rw [Function.update_self]
      exact phase_moves hopens (h j) hp
    · rw [step_procs_of_ne exec c hj, hs]
      generalize hq : c.procs j = q
      have hphase := h j
      rw [hq] at hphase
      cases hphase with
      | calm _ hcalm => exact .calm _ hcalm
      | reading client msg hg => exact .reading client msg hg
      | pending key s token k' hrest hstored htoken =>
          refine .pending key s token k' hrest (holds_exec (h i) hp hstored ?_) htoken
          -- a cut of the same key is what the condition excludes
          rintro rfl
          refine hcut ⟨j, ?_⟩
          show cutsNext (c.procs i) ≠ none ∧ cutsNext (c.procs i) = writesBackNext (c.procs j)
          rw [hp, hq]
          exact ⟨nofun, rfl⟩
  · rw [hs]
    exact h

omit [DecidableEq ι] in
theorem keepsValue_of_phase {jobs : ι → Job} {v : Turn ι} (h : InPhase jwe enctype jobs v.1) :
    KeepsValue jwe v := by
  intro key value k hp
  have hphase := h v.2
  rw [hp] at hphase
  generalize hq : (Prog.call (Call.set key value true) k : StoreProg Outcome) = q at hphase
  cases hphase with
  | calm _ hcalm =>
      rw [← hq] at hcalm
      exact nomatch hcalm.1
  | reading client msg hg =>
      rw [program_get hg] at hq
      exact nomatch hq
  | pending key' s token k' hrest hstored htoken =>
      injection hq with ho hk
      obtain ⟨rfl, rfl, -⟩ := Call.set.inj ho
      exact ⟨s, token, rfl, htoken, hstored⟩

/-- **HEADLINE — a GET writes back the value that is stored**, in every
    interleaving in which no row is cut between the read and the write of a
    migrating GET. -/
theorem write_back_keeps
    (hopens : ∀ key, Opens jwe (overlayHeader enctype (some "migrate".toList) key))
    (jobs : ι → Job) (t : Table) (sched : List ι)
    (hcut : ∀ v ∈ visits exec (start (migrating jwe enctype) jobs t) sched, ¬ CutsPending v) :
    ∀ v ∈ visits exec (start (migrating jwe enctype) jobs t) sched, KeepsValue jwe v := by
  intro v hv
  exact keepsValue_of_phase (visits_invariant_avoiding exec (phase_step hopens) sched _
    (fun i => phase_start jwe enctype (jobs i) t) hcut v hv)

/-! ### A secret comes back -/

/-- A database from before the pinning: one secret, without a pin. -/
def legacyTable : Table := (∅ : Table).insert "keys/u/k" (.text "uold".toList)

/-- A GET, a DELETE and a PUT of the secret. -/
def threeRequests : Fin 3 → Job
  | 0 => ⟨SecretsRuns.simpleSecrets, SecretsRuns.userRequest "GET" "u" ["u", "k"] [] none, 0⟩
  | 1 => ⟨SecretsRuns.simpleSecrets, SecretsRuns.userRequest "DELETE" "u" ["u", "k"] [] none, 1⟩
  | 2 => ⟨SecretsRuns.simpleSecrets, SecretsRuns.putBytes "u" ["u", "k"] [65], 2⟩

/-- All requests over the legacy database. -/
def legacyStart : Config (Fin 3) Exc Call Call.Ans Outcome Table :=
  start (migrating PinningProofs.spelledJwe "A256CBC-HS512") threeRequests legacyTable

/-- The GET writes back before the secret is removed. -/
theorem write_back_in_time :
    row "keys/u/k" (runSched exec legacyStart [0, 0]).store
      = some (.text "pppppppp.keys/u/kold".toList)
    ∧ ∀ v ∈ visits exec legacyStart [0, 0, 1], KeepsValue PinningProofs.spelledJwe v := by
  refine ⟨rfl, ?_⟩
  exact write_back_keeps (fun key => PinningProofs.spelledJwe_opens _ _ key) threeRequests
    legacyTable [0, 0, 1] (by decide)

/-- **A secret comes back, and an old value replaces a new one**: the GET
    writes after the DELETE has been answered 204, and after a PUT has then
    been answered 201. -/
theorem deleted_secret_revived :
    (∃ o, ((runSched exec legacyStart [0, 1]).procs 1).ended = some (.ok o) ∧ o.status = 204
      ∧ row "keys/u/k" (runSched exec legacyStart [0, 1]).store = none
      ∧ row "keys/u/k" (runSched exec legacyStart [0, 1, 0]).store
        = some (.text "pppppppp.keys/u/kold".toList)
      ∧ ¬ ∀ v ∈ visits exec legacyStart [0, 1, 0], KeepsValue PinningProofs.spelledJwe v)
    ∧ ∃ o, ((runSched exec legacyStart [0, 1, 2, 2, 2]).procs 2).ended = some (.ok o)
      ∧ o.status = 201
      ∧ row "keys/u/k" (runSched exec legacyStart [0, 1, 2, 2, 2]).store
        = some (.text "pppppppp.keys/u/kQQ==".toList)
      ∧ row "keys/u/k" (runSched exec legacyStart [0, 1, 2, 2, 2, 0]).store
        = some (.text "pppppppp.keys/u/kold".toList) := by
  refine ⟨⟨_, rfl, rfl, rfl, rfl, ?_⟩, _, rfl, rfl, rfl, rfl⟩
  intro hkeeps
  obtain ⟨s, token, -, -, row, hrow, -⟩ := hkeeps (runSched exec legacyStart [0, 1], 0)
    (List.mem_cons_of_mem _ (List.mem_cons_of_mem _ List.mem_cons_self)) _ _ _ rfl
  exact nomatch (show none = some row from hrow)

end MigrationProofs
