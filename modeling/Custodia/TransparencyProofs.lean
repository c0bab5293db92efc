import Custodia.StoreViews
import Custodia.WriteOnceProofs

/-! # TransparencyProofs — what encryption changes for the client

    The same requests are handled over an `EncryptedOverlay` on a database and
    over a database alone, both empty at first. The two tables stay two views
    of the same entries, and the clients see the same answers, but for two
    kinds of GET: of the key of a container, and of a listing that shows an
    empty secret.

    * `respondOver_put`, `respondOver_get`: a request over any store;
    * `twins_step`: the tables stay views of one set of entries;
    * `transparent`: the answers are the same. -/

namespace TransparencyProofs

open Interaction PosixPath PyValues Messages SqliteStore SecretsConsumer SecretsCalls
open SecretsRequests SecretsRuns EncryptedStores WriteOnceProofs ContainerKeys MappedValues
open StoreViews EncryptedStores.StorePlugin

/-! ## Requests over a configured store -/

/-- Handle one request over a store: how it ends, and the table it leaves. -/
def respondOver (plugin : StorePlugin) (job : Job) (t : Table) : Outcome × Table :=
  match (job.program plugin).run exec t with
  | (.ok o, t') => (o, t')
  | (.error e, t') => (⟨.error e, []⟩, t')

/-- Over a plain `SqliteStore`, a job is answered as its request is by the
    consumer. -/
theorem respondOver_sqlite (job : Job) (t : Table) :
    respondOver .sqlite job t = respond job.con job.req t := by
  have hprog : job.program .sqlite = handle job.con job.req := Prog.through_perform _
  rw [respondOver, hprog]
  rfl

section Respond

variable {plugin : StorePlugin} {job : Job} {client key : Str} {msg : Handler}

/-- A job whose program has a conclusion ends with that conclusion. -/
theorem respondOver_conclude {α : Type} {p : StoreProg α} {g : Except Exc α → Outcome}
    (h : job.program plugin = p.conclude g) (t : Table) :
    respondOver plugin job t = (g (p.run exec t).1, (p.run exec t).2) := by
  rw [respondOver, h, Prog.run_conclude]

/-- A request that neither reads nor writes a secret is not affected. -/
theorem respondOver_passed (plugin : StorePlugin)
    (hget : ∀ client msg, ¬ Gets job.con job.req client msg)
    (hput : ∀ client msg, ¬ Puts job.con job.req client msg) (t : Table) :
    respondOver plugin job t = respond job.con job.req t := by
  have hpassed : (handle job.con job.req).OnlyIssues
      (fun c => plugin.layer job.nonce c = Prog.perform c) :=
    onlyIssues_handle_of (plugin.layer_list _) (plugin.layer_span _) (plugin.layer_cut _)
      (fun client msg h => absurd h (hget client msg))
      (fun client msg h => absurd h (hput client msg))
  rw [respondOver, Job.program, Prog.through_of_onlyIssues hpassed]
  rfl

/-- A GET of a key decodes the row. -/
theorem respondOver_get (plugin : StorePlugin) (hmode : plugin.NotMigrating)
    (h : Gets job.con job.req client msg) (t : Table) :
    respondOver plugin job t =
      (recorded auditGetAllowed auditGetDenied client (segments job.req)
        (getFinish job.con job.req msg
          (plugin.decode (entryKey job.req) ((t.lookup (entryKey job.req)).getD .null))), t) := by
  have hprog : job.program plugin = (Prog.through (plugin.layer job.nonce)
      (.call (.get (entryKey job.req)) (fun (r : Except Exc SqlValue) =>
        .ofExcept (getFinish job.con job.req msg r)))).conclude
          (recorded auditGetAllowed auditGetDenied client (segments job.req)) := by
    rw [Job.program, handle_get h, Prog.through_conclude]
  rw [respondOver_conclude hprog, Prog.run_call_through, Prog.ofExcept_through,
    Prog.run_ofExcept, StorePlugin.layer_get hmode, Prog.run_call, exec_get, Prog.run_ofExcept]
  rfl

/-- A PUT encodes its value after the parent check. -/
theorem respondOver_put (plugin : StorePlugin) (h : Puts job.con job.req client msg) (t : Table) :
    respondOver plugin job t =
      match parentCheck t job.req.defaultNamespace (segments job.req) with
      | .error e => (recorded auditSetAllowed auditSetDenied client (segments job.req)
          (.error (setError e)), t)
      | .ok t' =>
          match plugin.encode job.nonce (entryKey job.req) msg.payload with
          | .error e => (recorded auditSetAllowed auditSetDenied client (segments job.req)
              (.error (setError e)), t')
          | .ok encoded => (recorded auditSetAllowed auditSetDenied client (segments job.req)
              (setFinish job.con msg (exec (.set (entryKey job.req) encoded false) t').1),
              (exec (.set (entryKey job.req) encoded false) t').2) := by
  have hprog : job.program plugin = (underParent job.req.defaultNamespace (segments job.req)
      (fun e => .raise (setError e))
      (match plugin.encode job.nonce (entryKey job.req) msg.payload with
        | .error e => .ofExcept (setFinish job.con msg (.error e))
        | .ok encoded => .call (.set (entryKey job.req) encoded false)
            (fun (r : Except Exc Unit) => .ofExcept (setFinish job.con msg r)))).conclude
      (recorded auditSetAllowed auditSetDenied client (segments job.req)) := by
    rw [Job.program, handle_put h, Prog.through_conclude,
      underParent_through (fun key => plugin.layer_list _ key) (fun key => plugin.layer_span _ key),
      set_through]
    rfl
  rw [respondOver_conclude hprog, run_underParent]
  cases parentCheck t job.req.defaultNamespace (segments job.req) with
  | error e => rfl
  | ok t' =>
      cases plugin.encode job.nonce (entryKey job.req) msg.payload with
      | error e => rfl
      | ok encoded => simp only [Prog.run_call, Prog.run_ofExcept]

end Respond

/-! ## What the client sees -/

/-- What is sent to the client: a response with its code, content type and
    output, or an error page. What is written to the logs of the server is not
    part of it. -/
inductive Seen where
  | response (code : Nat) (contentType : Option Str) (output : Output)
  | error (code : Nat) (mesg : Option Str)

/-- How `HTTPRequestHandler` sends an outcome; what is no `HTTPError` is a 500. -/
def Outcome.seen (o : Outcome) : Seen :=
  match o.result with
  | .ok response => .response (response.code.getD 200) response.contentType response.output
  | .error (.http code mesg) => .error code mesg
  | .error (.py _ _) => .error 500 none

/-- The status that is seen. -/
def Seen.code : Seen → Nat
  | .response code _ _ => code
  | .error code _ => code

/-- The answers to requests that are handled one after another. -/
def answers (plugin : StorePlugin) : List Job → Table → List Seen
  | [], _ => []
  | job :: jobs, t =>
      Outcome.seen (respondOver plugin job t).1 :: answers plugin jobs (respondOver plugin job t).2

/-- The requests, each with the tables it finds in two stores. -/
def steps (plugin plugin' : StorePlugin) : List Job → Table → Table → List (Job × Table × Table)
  | [], _, _ => []
  | job :: jobs, t, t' =>
      (job, t, t') :: steps plugin plugin' jobs (respondOver plugin job t).2
        (respondOver plugin' job t').2

/-- The overlay on a database. -/
abbrev overlay (jwe : Jwe) (enctype : Str) (protection : Option Str) : StorePlugin :=
  .encryptedOverlay jwe enctype protection .sqlite

/-- A cipher without flaws: what it has sealed opens again, every text can be
    sealed, and a string that cannot be encoded raises an exception of the
    library, which knows no exception of the store. -/
structure Ideal (jwe : Jwe) (enctype : Str) (protection : Option Str) : Prop where
  opens : ∀ key, Opens jwe (overlayHeader enctype protection key)
  seals : ∀ key s nonce, ∃ token,
    jwe.encrypt (.obj (overlayHeader enctype protection key)) (.ofText s) nonce = .ok token
  refuses : ∀ key units nonce, ∃ f,
    jwe.encrypt (.obj (overlayHeader enctype protection key)) (.str (.broken units)) nonce
      = .error f ∧ f.cls ≠ .csStoreExists ∧ f.cls ≠ .csStoreDenied ∧ f.cls ≠ .csStoreError
      ∧ f.cls ≠ .csStoreUnsupported

/-- If the request is a PUT, its value is a string. -/
def SetsString (job : Job) : Prop :=
  ∀ client msg, Puts job.con job.req client msg → ∃ s, msg.payload = .str s

/-- The two kinds of request that tell the stores apart, where `t` is the
    table without and `t'` the table with encryption. -/
inductive Differs (job : Job) (t t' : Table) : Prop where
  | container (client : Str) (msg : Handler) (h : Gets job.con job.req client msg)
      (hrow : t'.lookup (entryKey job.req) = some (.text []))
  | emptySecret (key name : Str) (msg : Handler) (h : Lists job.con job.req key msg)
      (short : ¬ TooLong t key) (below : Beneath (rstrip key) name)
      (empty : t.lookup name = some (.text [])) (token : t'.lookup name ≠ some (.text []))

/-! ## Two views of one set of entries -/

section Overlay

variable {jwe : Jwe} {enctype : Str} {protection : Option Str}

/-- Every token of the entries opens to its secret. -/
def Sealed (jwe : Jwe) (protection : Option Str) (E : Entries) : Prop :=
  ∀ key value token, E.lookup key = some (.secret value token) →
    openToken jwe protection key (.text token) = .ok (.text value)

/-- The tables hold the same entries, in the clear and as tokens: both are views
    of one map of entries, in which every token is one that the cipher has made
    of the secret. -/
structure Twins (jwe : Jwe) (protection : Option Str) (t t' : Table) : Prop where
  same : ∃ E : Entries, Sealed jwe protection E ∧ t = mapValues plainRow E
    ∧ t' = mapValues sealedRow E

/-- Two empty tables are twins. -/
theorem twins_empty : Twins jwe protection ∅ ∅ := by
  refine ⟨∅, ?_, rfl, rfl⟩
  intro key value token h
  rw [AList.lookup_empty] at h
  exact nomatch h

/-- Where no secret appears, whatever could be sealed still can. -/
theorem Sealed.of_noNewSecret {E E' : Entries} (h : Sealed jwe protection E)
    (hnew : NoNewSecret E E') : Sealed jwe protection E' :=
  fun key value token hlook => h key value token (hnew key value token hlook)

/-- A token is not empty. -/
theorem Sealed.token_ne_nil {E : Entries} (h : Sealed jwe protection E)
    (hempty : ∃ f, jwe.decrypt (.text []) = .error f) {key value token : Str}
    (hlook : E.lookup key = some (.secret value token)) : token ≠ [] := by
  rintro rfl
  exact nomatch (h key value [] hlook).symm.trans (openToken_empty hempty)

/-- The two views of one set of entries are twins. -/
theorem Twins.twin_views {E : Entries} (h : Sealed jwe protection E) :
    Twins jwe protection (mapValues plainRow E) (mapValues sealedRow E) := ⟨E, h, rfl, rfl⟩

/-- One request keeps the tables alike and is answered alike, unless it is one
    of those that differ. The step lemma of the simulation proves this of every
    kind of request. -/
structure Alike (jwe : Jwe) (enctype : Str) (protection : Option Str) (job : Job)
    (t t' : Table) : Prop where
  twins : Twins jwe protection (respondOver .sqlite job t).2
    (respondOver (overlay jwe enctype protection) job t').2
  seen : ¬ Differs job t t' → Outcome.seen (respondOver .sqlite job t).1
    = Outcome.seen (respondOver (overlay jwe enctype protection) job t').1

variable {job : Job} {E : Entries} {client key : Str} {msg : Handler}

/-- What sees no secret is handled alike. -/
theorem alike_of_views (hsealed : Sealed jwe protection E)
    (hget : ∀ client msg, ¬ Gets job.con job.req client msg)
    (hput : ∀ client msg, ¬ Puts job.con job.req client msg)
    (hviews : ∃ o E', NoNewSecret E E' ∧
      ∀ f, IsView f → respond job.con job.req (mapValues f E) = (o, mapValues f E')) :
    Alike jwe enctype protection job (mapValues plainRow E) (mapValues sealedRow E) := by
  obtain ⟨o, E', hnew, hviews⟩ := hviews
  have hplain := (respondOver_sqlite job _).trans (hviews plainRow isView_plainRow)
  have htoken := (respondOver_passed (overlay jwe enctype protection) hget hput _).trans
    (hviews sealedRow isView_sealedRow)
  refine ⟨?_, fun _ => ?_⟩
  · rw [hplain, htoken]
    exact Twins.twin_views (hsealed.of_noNewSecret hnew)
  · rw [hplain, htoken]

/-- A GET of a secret looks alike in both stores. -/
theorem alike_get (hmode : protection ≠ some "migrate".toList)
    (hsealed : Sealed jwe protection E) (h : Gets job.con job.req client msg) :
    Alike jwe enctype protection job (mapValues plainRow E) (mapValues sealedRow E) := by
  have hplain := respondOver_get .sqlite trivial h (mapValues plainRow E)
  have htoken := respondOver_get (overlay jwe enctype protection) ⟨hmode, trivial⟩ h
    (mapValues sealedRow E)
  refine ⟨?_, fun hsame => ?_⟩
  · rw [hplain, htoken]
    exact Twins.twin_views hsealed
  · rw [hplain, htoken, lookup_mapValues, lookup_mapValues]
    -- the row: none, a container's, or a secret's
    cases hlook : E.lookup (entryKey job.req) with
    | none => rfl
    | some e =>
        cases e with
        | container =>
            refine absurd (.container client msg h ?_) hsame
            rw [lookup_mapValues, hlook]
            rfl
        | secret value token =>
            have hopen : (overlay jwe enctype protection).decode (entryKey job.req) (.text token)
                = .ok (.text value) := hsealed _ _ _ hlook
            show Outcome.seen (recorded _ _ _ _ (getFinish _ _ _ (.ok (.text value)))) =
              Outcome.seen (recorded _ _ _ _ (getFinish _ _ _
                ((overlay jwe enctype protection).decode (entryKey job.req) (.text token))))
            rw [hopen]

/-- A GET of a container looks alike in both stores, where no text decrypts the
    mark of a container. -/
theorem alike_list (hempty : ∃ f, jwe.decrypt (.text []) = .error f)
    (hsealed : Sealed jwe protection E) (h : Lists job.con job.req key msg) :
    Alike jwe enctype protection job (mapValues plainRow E) (mapValues sealedRow E) := by
  have hplain := (respondOver_sqlite job _).trans (respond_list h (mapValues plainRow E))
  have hget : ∀ client msg, ¬ Gets job.con job.req client msg :=
    fun client msg hg => hg.entry (h.container.resolve_left (ne_nil_of_deep hg.deep))
  have hput : ∀ client msg, ¬ Puts job.con job.req client msg :=
    fun client msg hp => absurd (h.command.symm.trans hp.command) (by decide)
  have htoken := (respondOver_passed (overlay jwe enctype protection) hget hput
    (mapValues sealedRow E)).trans (respond_list h (mapValues sealedRow E))
  refine ⟨?_, fun hsame => ?_⟩
  · rw [hplain, htoken]
    exact Twins.twin_views hsealed
  · have hlisting : listing (mapValues plainRow E) key = listing (mapValues sealedRow E) key := by
      by_cases hlong : TooLong (mapValues plainRow E) key
      · rw [listing_long hlong, listing_long (tooLong_views.mp hlong)]
      refine listing_views ?_
      intro name e hlook hbelow
      cases e with
      | container => rfl
      | secret value token =>
          have htoken : token ≠ [] := hsealed.token_ne_nil hempty hlook
          have hvalue : value ≠ [] := by
            rintro rfl
            refine hsame (.emptySecret key name msg h hlong hbelow ?_ ?_)
            · rw [lookup_mapValues, hlook]
              rfl
            · rw [lookup_mapValues, hlook]
              exact fun hrow => htoken (SqlValue.text.inj (Option.some.inj hrow))
          show decide (value = []) = decide (token = [])
          rw [decide_eq_false hvalue, decide_eq_false htoken]
    rw [hplain, htoken, hlisting]

/-- A PUT that meets an error of a library is shown a 500. -/
theorem seen_setError {cls : ExcClass} {text : Str} {trail : List Str}
    (hexists : cls ≠ .csStoreExists) (hdenied : cls ≠ .csStoreDenied)
    (herror : cls ≠ .csStoreError) (hunsupported : cls ≠ .csStoreUnsupported) :
    Outcome.seen (recorded auditSetAllowed auditSetDenied client trail
      (.error (setError (.py cls text)))) = .error 500 none := by
  have hsame : setError (.py cls text) = .py cls text := by
    simp [setError, storeError, Exc.isA, hexists, hdenied, herror, hunsupported]
  rw [hsame]
  rfl

/-- A string is stored as it is in one table, and as its token in the other. -/
theorem alike_put_text {E' : Entries} {s : Str} (hideal : Ideal jwe enctype protection)
    (hsealed' : Sealed jwe protection E') (h : Puts job.con job.req client msg)
    (hcheck : parentCheck (mapValues plainRow E) job.req.defaultNamespace (segments job.req)
      = .ok (mapValues plainRow E'))
    (hcheck' : parentCheck (mapValues sealedRow E) job.req.defaultNamespace (segments job.req)
      = .ok (mapValues sealedRow E'))
    (hpayload : msg.payload = .str (.text s)) :
    Alike jwe enctype protection job (mapValues plainRow E) (mapValues sealedRow E) := by
  have hplain := respondOver_put .sqlite h (mapValues plainRow E)
  have htoken := respondOver_put (overlay jwe enctype protection) h (mapValues sealedRow E)
  rw [hcheck] at hplain
  rw [hcheck'] at htoken
  obtain ⟨token, hseal⟩ := hideal.seals (entryKey job.req) s job.nonce
  have hencode : (overlay jwe enctype protection).encode job.nonce (entryKey job.req)
      msg.payload = .ok (.ofText token) := by
    rw [hpayload]
    show (raised (jwe.encrypt _ (.ofText s) job.nonce) >>= _) = _
    rw [hseal]
    rfl
  have hsame : StorePlugin.sqlite.encode job.nonce (entryKey job.req) msg.payload
      = .ok (.ofText s) := by
    rw [hpayload]
    rfl
  obtain ⟨r, E'', hfrom, hset, hset'⟩ := exec_set_views E' (entryKey job.req) s token
  simp only [hsame, hset] at hplain
  simp only [hencode, hset'] at htoken
  refine ⟨?_, fun _ => ?_⟩
  · rw [hplain, htoken]
    refine Twins.twin_views ?_
    intro k value tok hlook
    rcases hfrom k value tok hlook with hold | ⟨rfl, rfl, rfl⟩
    · exact hsealed' k value tok hold
    · obtain ⟨s', hs', hopen⟩ := openToken_token (hideal.opens _) hseal
      obtain rfl := PyStr.text.inj (Json.str.inj hs')
      exact hopen
  · rw [hplain, htoken]

/-- A string that is no text is refused by both, after the parent check. -/
theorem alike_put_broken {E' : Entries} {units : List Nat} (hideal : Ideal jwe enctype protection)
    (hsealed' : Sealed jwe protection E') (h : Puts job.con job.req client msg)
    (hcheck : parentCheck (mapValues plainRow E) job.req.defaultNamespace (segments job.req)
      = .ok (mapValues plainRow E'))
    (hcheck' : parentCheck (mapValues sealedRow E) job.req.defaultNamespace (segments job.req)
      = .ok (mapValues sealedRow E'))
    (hpayload : msg.payload = .str (.broken units)) :
    Alike jwe enctype protection job (mapValues plainRow E) (mapValues sealedRow E) := by
  have hplain := respondOver_put .sqlite h (mapValues plainRow E)
  have htoken := respondOver_put (overlay jwe enctype protection) h (mapValues sealedRow E)
  rw [hcheck] at hplain
  rw [hcheck'] at htoken
  obtain ⟨fault, hrefuse, hexists, hdenied, herror, hunsupported⟩ :=
    hideal.refuses (entryKey job.req) units job.nonce
  have hencode : (overlay jwe enctype protection).encode job.nonce (entryKey job.req)
      msg.payload = .error (.py fault.cls fault.text) := by
    rw [hpayload]
    show (raised (jwe.encrypt _ (.str (.broken units)) job.nonce) >>= _) = _
    rw [hrefuse]
    rfl
  -- the string that cannot be encrypted cannot be bound either
  have hset : ∃ text, exec (.set (entryKey job.req) (.str (.broken units)) false)
      (mapValues plainRow E') = (.error (.py .valueError text), mapValues plainRow E') := by
    cases hslash : endsInSlash (entryKey job.req) with
    | true => exact ⟨_, if_pos hslash⟩
    | false => exact ⟨_, exec_set_unbound hslash rfl false _⟩
  obtain ⟨text, hset⟩ := hset
  have hsame : StorePlugin.sqlite.encode job.nonce (entryKey job.req) msg.payload
      = .ok (.str (.broken units)) := by
    rw [hpayload]
    rfl
  simp only [hsame, hset] at hplain
  simp only [hencode] at htoken
  refine ⟨?_, fun _ => ?_⟩
  · rw [hplain, htoken]
    exact Twins.twin_views hsealed'
  · rw [hplain, htoken]
    have hvalue : Outcome.seen (recorded auditSetAllowed auditSetDenied client
        (segments job.req) (.error (setError (.py .valueError text)))) = .error 500 none :=
      seen_setError nofun nofun nofun nofun
    exact hvalue.trans (seen_setError hexists hdenied herror hunsupported).symm

/-- A PUT of a string looks alike in both stores. -/
theorem alike_put (hideal : Ideal jwe enctype protection) (hstring : SetsString job)
    (hsealed : Sealed jwe protection E) (h : Puts job.con job.req client msg) :
    Alike jwe enctype protection job (mapValues plainRow E) (mapValues sealedRow E) := by
  -- the parent check reads and writes containers, which both tables show alike
  rcases parentCheck_views E job.req.defaultNamespace (segments job.req) with
    ⟨e, hcheck⟩ | ⟨E', hnew, hcheck⟩
  · have hplain := respondOver_put .sqlite h (mapValues plainRow E)
    have htoken := respondOver_put (overlay jwe enctype protection) h (mapValues sealedRow E)
    rw [hcheck plainRow isView_plainRow] at hplain
    rw [hcheck sealedRow isView_sealedRow] at htoken
    refine ⟨?_, fun _ => ?_⟩
    · rw [hplain, htoken]
      exact Twins.twin_views hsealed
    · rw [hplain, htoken]
  · have hsealed' := hsealed.of_noNewSecret hnew
    have hviews := hcheck plainRow isView_plainRow
    have hviews' := hcheck sealedRow isView_sealedRow
    obtain ⟨s, hpayload⟩ := hstring client msg h
    cases s with
    | text s => exact alike_put_text hideal hsealed' h hviews hviews' hpayload
    | broken units => exact alike_put_broken hideal hsealed' h hviews hviews' hpayload

/-- **Every request keeps the tables alike**, and is answered alike unless it
    is one of those that differ. -/
theorem alike_step (hmode : protection ≠ some "migrate".toList)
    (hideal : Ideal jwe enctype protection) (hstring : SetsString job) {t t' : Table}
    (htwins : Twins jwe protection t t') : Alike jwe enctype protection job t t' := by
  obtain ⟨E, hsealed, rfl, rfl⟩ := htwins.same
  cases request_kind job.con job.req with
  | get client msg h => exact alike_get hmode hsealed h
  | list key msg h => exact alike_list (hideal.opens []).empty hsealed h
  | put client msg h => exact alike_put hideal hstring hsealed h
  | post msg h =>
      exact alike_of_views hsealed
        (fun client msg hg => absurd (h.command.symm.trans hg.command) (by decide))
        (fun client msg hp => absurd (h.command.symm.trans hp.command) (by decide))
        (respond_post_views h E)
  | destroy msg h =>
      exact alike_of_views hsealed
        (fun client msg hg => absurd (h.command.symm.trans hg.command) (by decide))
        (fun client msg hp => absurd (h.command.symm.trans hp.command) (by decide))
        (respond_destroy_views h E)
  | delete client msg h =>
      exact alike_of_views hsealed
        (fun client msg hg => absurd (h.command.symm.trans hg.command) (by decide))
        (fun client msg hp => absurd (h.command.symm.trans hp.command) (by decide))
        (respond_delete_views h E)
  | refused o hrun h =>
      exact alike_of_views hsealed
        (fun client msg hg => nomatch hrun.symm.trans (handle_get hg))
        (fun client msg hp => nomatch hrun.symm.trans (handle_put hp))
        ⟨o, E, noNewSecret_refl, fun f _ => respond_refused hrun _⟩

/-- Along a run the answers are the same, from any two views of one set of
    entries. -/
theorem answers_alike (hmode : protection ≠ some "migrate".toList)
    (hideal : Ideal jwe enctype protection) :
    ∀ (jobs : List Job) (t t' : Table), (∀ job ∈ jobs, SetsString job) →
      Twins jwe protection t t' →
      (∀ v ∈ steps .sqlite (overlay jwe enctype protection) jobs t t',
        ¬ Differs v.1 v.2.1 v.2.2) →
      answers (overlay jwe enctype protection) jobs t' = answers .sqlite jobs t := by
  intro jobs
  induction jobs with
  | nil => intro t t' _ _ _; rfl
  | cons job jobs ih =>
      intro t t' hstrings htwins hsame
      have halike := alike_step hmode hideal (hstrings job List.mem_cons_self) htwins
      have hhead := halike.seen (hsame (job, t, t') List.mem_cons_self)
      have htail := ih _ _ (fun job' hmem => hstrings job' (List.mem_cons_of_mem job hmem))
        halike.twins (fun v hv => hsame v (List.mem_cons_of_mem _ hv))
      rw [answers, answers, hhead, htail]

/-- **HEADLINE — encryption is transparent** but for the GETs that differ: an
    overlay on an empty database answers every run of requests as the empty
    database itself does. -/
theorem transparent (hmode : protection ≠ some "migrate".toList)
    (hideal : Ideal jwe enctype protection) (jobs : List Job)
    (hstrings : ∀ job ∈ jobs, SetsString job)
    (hsame : ∀ v ∈ steps .sqlite (overlay jwe enctype protection) jobs ∅ ∅,
      ¬ Differs v.1 v.2.1 v.2.2) :
    answers (overlay jwe enctype protection) jobs ∅ = answers .sqlite jobs ∅ :=
  answers_alike hmode hideal jobs ∅ ∅ hstrings twins_empty hsame

end Overlay

/-! ### Two runs of `clearJwe` -/

/-- A GET of a trail. -/
def getOf (trail : List Str) : Job := ⟨simpleSecrets, userRequest "GET" "u" trail [] none, 0⟩

/-- The cipher of the demonstration is ideal, though it hides nothing. -/
theorem clearJwe_ideal : Ideal clearJwe "A256CBC-HS512" (some "pinning".toList) := by
  have hheader : ∀ key, overlayHeader "A256CBC-HS512" (some "pinning".toList) key
      = overlayHeader "A256CBC-HS512" none key := by
    intro key
    rw [overlayHeader, overlayHeader, if_neg (by decide), if_neg (by decide)]
  refine ⟨?_, ?_, ?_⟩
  · intro key
    rw [hheader]
    exact clearJwe_opens _ _
  · intro key s nonce
    exact ⟨clearToken key s, rfl⟩
  · intro key units nonce
    exact ⟨_, rfl, by decide, by decide, by decide, by decide⟩

/-- A secret is stored and read over both stores. -/
theorem transparent_put_then_get :
    answers (overlay clearJwe "A256CBC-HS512" (some "pinning".toList))
      [⟨simpleSecrets, putBytes "u" ["u", "k"] [65], 0⟩, getOf ["u", "k"]] ∅
      = answers .sqlite
        [⟨simpleSecrets, putBytes "u" ["u", "k"] [65], 0⟩, getOf ["u", "k"]] ∅ := by
  refine transparent (by decide) clearJwe_ideal _ ?_ ?_
  · intro job hmem client msg h
    rcases List.mem_cons.mp hmem with rfl | hmem
    · exact ⟨.text "QQ==", congrArg Handler.payload (Except.ok.inj h.message).symm⟩
    · obtain rfl := List.mem_singleton.mp hmem
      exact absurd h.command (by decide)
  · intro v hmem hdiffers
    rcases List.mem_cons.mp hmem with rfl | hmem
    · cases hdiffers with
      | container client msg h => exact absurd h.command (by decide)
      | emptySecret key name msg h => exact absurd h.command (by decide)
    · obtain rfl := List.mem_singleton.mp hmem
      cases hdiffers with
      | container client msg h hrow => exact absurd hrow (by decide)
      | emptySecret key name msg h => exact absurd h.container (by decide)

/-- **A container is no secret, and yet**: read through the overlay it is
    reported as a failure of the server. -/
theorem container_read_differs :
    Ideal clearJwe "A256CBC-HS512" (some "pinning".toList)
      ∧ (answers .sqlite [⟨simpleSecrets, userRequest "POST" "u" ["u", "c", []] [] none, 0⟩,
          getOf ["u", "c"]] ∅).map Seen.code = [201, 406]
      ∧ (answers (overlay clearJwe "A256CBC-HS512" (some "pinning".toList))
          [⟨simpleSecrets, userRequest "POST" "u" ["u", "c", []] [] none, 0⟩,
            getOf ["u", "c"]] ∅).map Seen.code = [201, 500] :=
  ⟨clearJwe_ideal, by decide, by decide⟩

end TransparencyProofs
