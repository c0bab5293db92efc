import Custodia.SecretsEffects

/-! # AuditProofs — what the audit log says

    Reads, writes and removals of secrets are on record as allowed, and what
    is on record as denied has not happened. Four kinds of requests break
    this: a secret removed as a container leaves no record, and three kinds of
    requests that fail late are recorded as denied.

    * `misaudited_not_truthful`, `truthful_of_not_misaudited`: the two directions;
    * `audit_truthful_iff`: exactly these requests. -/

namespace AuditProofs

open PosixPath PyValues Messages SqliteStore SecretsConsumer SecretsCalls SecretsRequests
open SecretsRuns SecretsEffects

/-! ## What is promised -/

/-- A value that makes its entry a secret. -/
def Secret (v : SqlValue) : Prop := v ≠ .text []

/-- The request is a GET of a secret's key, and a response is returned. -/
def ReturnsSecret (con : Secrets) (t : Table) (req : Request) : Prop :=
  req.command = "GET".toList ∧ ¬ (segments req = [] ∨ namesContainer (segments req))
  ∧ (∃ v, t.lookup (entryKey req) = some v ∧ Secret v)
  ∧ ∃ response, (respond con req t).1.result = .ok response

/-- The one record of the request has this action and the name of its key. -/
def Records (o : Outcome) (req : Request) (action : Nat) : Prop :=
  ∃ client, clientName req = .ok client
    ∧ o.audit = [keyAccess action client (joinSlash (segments req))]

/-- The record denies an access. -/
def Denies (r : AuditRecord) : Prop :=
  r.action = auditGetDenied ∨ r.action = auditSetDenied ∨ r.action = auditDelDenied

/-- **The audit log is complete and truthful** about one request: every secret
    that it touched is on record, and what is on record has happened. -/
structure Truthful (con : Secrets) (t : Table) (req : Request) : Prop where
  returned : ReturnsSecret con t req → Records (respond con req t).1 req auditGetAllowed
  stored : ∀ key v, t.lookup key ≠ some v → (respond con req t).2.lookup key = some v →
    Secret v → key = entryKey req ∧ Records (respond con req t).1 req auditSetAllowed
  removed : ∀ key v, t.lookup key = some v → key ∉ (respond con req t).2 →
    Secret v → key = entryKey req ∧ Records (respond con req t).1 req auditDelAllowed
  denied : ∀ r ∈ (respond con req t).1.audit, Denies r →
    ¬ ReturnsSecret con t req ∧ (respond con req t).2 = t

/-- The requests about which the log is wrong. -/
inductive Misaudited (con : Secrets) (t : Table) (req : Request) : Prop where
  /-- A DELETE of a container removes a secret. -/
  | destroyed (msg : Handler) (h : Destroys con req msg) (removable : Removable t (entryKey req))
      (v : SqlValue) (row : t.lookup (rstrip (entryKey req)) = some v) (secret : Secret v)
  /-- A PUT is denied after it has made the namespace. -/
  | namespaceLeft (client : Str) (msg : Handler) (h : Puts con req client msg)
      (made : NamespaceMade t req.defaultNamespace (segments req))
      (refused : ¬ Storable (withNamespace t (segments req)) (entryKey req) msg.payload)
  /-- A PUT is denied after it has stored its value: it cannot be answered. -/
  | put (client : Str) (msg : Handler) (h : Puts con req client msg)
      (unanswerable : Unanswerable con.runtime msg) (t' : Table)
      (admitted : Admitted t req.defaultNamespace (segments req) t')
      (stored : Storable t' (entryKey req) msg.payload)
  /-- A DELETE of a key is denied after the removal: it cannot be answered. -/
  | delete (client : Str) (msg : Handler) (h : Deletes con req client msg)
      (unanswerable : Unanswerable con.runtime msg) (there : entryKey req ∈ t)

variable {con : Secrets} {req : Request} {t : Table}

/-! ## Requests that break it -/

/-- A key with a value is in the table. -/
theorem mem_of_lookup {key : Str} {v : SqlValue} (h : t.lookup key = some v) : key ∈ t :=
  AList.lookup_isSome.mp (by rw [h]; rfl)

/-- A denial on record after a change. -/
theorem not_truthful_of_denied {r : AuditRecord} (hmem : r ∈ (respond con req t).1.audit)
    (hdenies : Denies r) (hchanged : (respond con req t).2 ≠ t) : ¬ Truthful con t req :=
  fun h => hchanged (h.denied r hmem hdenies).2

/-- A message that cannot be answered fails when the reply is made, whatever its
    status were. -/
theorem unanswerable_error {msg : Handler} {withReply noReply : Nat}
    (h : Unanswerable con.runtime msg) :
    ∃ e, changedResponse con msg withReply noReply = .error e := by
  rcases changedResponse_cases con msg withReply noReply with ⟨-, he⟩ | ⟨hno, -⟩
  · exact he
  · exact absurd h hno

/-- A message that can be answered gets its reply. -/
theorem answerable_ok {msg : Handler} {withReply noReply : Nat}
    (h : ¬ Unanswerable con.runtime msg) :
    ∃ response, changedResponse con msg withReply noReply = .ok response := by
  rcases changedResponse_cases con msg withReply noReply with ⟨hu, -⟩ | ⟨-, hok | ⟨fields, hok⟩⟩
  · exact absurd hu h
  · exact ⟨_, hok⟩
  · exact ⟨_, hok⟩

/-- **About these requests the log is wrong**: a change has no record, or a
    denial stands for a request that has changed the table. -/
theorem misaudited_not_truthful (h : Misaudited con t req) : ¬ Truthful con t req := by
  cases h with
  | destroyed msg hk removable v row secret =>
      intro htrue
      rcases destroy_cases hk t with ⟨hno, -⟩ | ⟨-, heq⟩
      · exact hno removable
      · have hgone : rstrip (entryKey req) ∉ (respond con req t).2 := by
          rw [heq]
          exact fun hmem => (AList.mem_erase.mp hmem).1 rfl
        obtain ⟨-, client, -, haudit⟩ := htrue.removed _ v row hgone secret
        rw [heq] at haudit
        exact nomatch haudit
  | namespaceLeft client msg hk made refused =>
      have hadmitted := Admitted.made made
      rcases put_cases hk t with ⟨hno, -⟩ | ⟨t', ha, -, e, heq⟩ | ⟨t', v, ha, hs, -, -⟩
      · exact absurd hadmitted (hno _)
      · obtain rfl := hadmitted.unique ha
        refine not_truthful_of_denied (by rw [heq]; exact List.mem_cons_self)
          (Or.inr (Or.inl rfl)) ?_
        rw [heq]
        exact insert_ne_self made.fresh _
      · obtain rfl := hadmitted.unique ha
        exact absurd hs refused
  | put client msg hk unanswerable t' admitted stored =>
      rcases put_cases hk t with ⟨hno, -⟩ | ⟨t₁, ha, hs, -⟩ | ⟨t₁, v, ha, hs, -, heq⟩
      · exact absurd admitted (hno _)
      · obtain rfl := admitted.unique ha
        exact absurd stored hs
      · obtain ⟨e, he⟩ := unanswerable_error unanswerable
        rw [he] at heq
        refine not_truthful_of_denied (by rw [heq]; exact List.mem_cons_self)
          (Or.inr (Or.inl rfl)) ?_
        rw [heq]
        exact insert_ne_of_kept ha.kept hs.fresh v
  | delete client msg hk unanswerable there =>
      rcases delete_cases hk t with ⟨hno, -⟩ | ⟨hmem, heq⟩
      · exact absurd there hno
      · obtain ⟨e, he⟩ := unanswerable_error unanswerable
        rw [he] at heq
        refine not_truthful_of_denied (by rw [heq]; exact List.mem_cons_self)
          (Or.inr (Or.inr rfl)) ?_
        rw [heq]
        exact erase_ne_self hmem

/-! ## All other requests keep it -/

/-- Only a GET returns a secret. -/
theorem not_returns_of_command {command : Str} (h : req.command = command)
    (hne : command ≠ "GET".toList) : ¬ ReturnsSecret con t req :=
  fun hr => hne (h.symm.trans hr.1)

/-- A request that leaves the table alone has only its return to account for. -/
theorem truthful_of_unchanged (hsame : (respond con req t).2 = t)
    (hreturned : ReturnsSecret con t req → Records (respond con req t).1 req auditGetAllowed)
    (hdenied : ∀ r ∈ (respond con req t).1.audit, Denies r → ¬ ReturnsSecret con t req) :
    Truthful con t req := by
  refine ⟨hreturned, ?_, ?_, fun r hr hd => ⟨hdenied r hr hd, hsame⟩⟩
  · intro key v hbefore hafter _
    rw [hsame] at hafter
    exact absurd hafter hbefore
  · intro key v hbefore hafter _
    rw [hsame] at hafter
    exact absurd (mem_of_lookup hbefore) hafter

/-- A record of an access that was allowed denies nothing. -/
theorem not_denies_allowed {action : Nat} {client key : Str}
    (h : action = auditGetAllowed ∨ action = auditSetAllowed ∨ action = auditDelAllowed) :
    ¬ Denies (keyAccess action client key) := by
  rcases h with rfl | rfl | rfl
  · show ¬ ((1 : Nat) = 2 ∨ (1 : Nat) = 4 ∨ (1 : Nat) = 6)
    decide
  · show ¬ ((3 : Nat) = 2 ∨ (3 : Nat) = 4 ∨ (3 : Nat) = 6)
    decide
  · show ¬ ((5 : Nat) = 2 ∨ (5 : Nat) = 4 ∨ (5 : Nat) = 6)
    decide

/-- A request that is no GET and is refused, on record or not, leaves nothing
    to account for. -/
theorem truthful_of_refused {o : Outcome} {command : Str} (hcommand : req.command = command)
    (hne : command ≠ "GET".toList) (heq : respond con req t = (o, t)) : Truthful con t req :=
  truthful_of_unchanged (by rw [heq])
    (fun hr => absurd hr (not_returns_of_command hcommand hne))
    (fun _ _ _ => not_returns_of_command hcommand hne)

/-- The rows that a parent check adds are no secrets. -/
theorem admitted_secret {default : Option Str} {trail : List Str} {t' : Table}
    (h : Admitted t default trail t') {key : Str} {v : SqlValue} (hv : Secret v)
    (hrow : t'.lookup key = some v) : t.lookup key = some v := by
  cases h with
  | found => exact hrow
  | made =>
      by_cases hkey : key = rstrip (parentKey trail)
      · rw [hkey, withNamespace, AList.lookup_insert] at hrow
        exact absurd (Option.some.inj hrow).symm hv
      · rwa [withNamespace, AList.lookup_insert_ne hkey] at hrow

/-- A GET of a secret is recorded truthfully. -/
theorem truthful_get {client : Str} {msg : Handler} (hk : Gets con req client msg) :
    Truthful con t req := by
  have heq := respond_get hk t
  refine truthful_of_unchanged (by rw [heq]) ?_ ?_
  · rintro ⟨-, -, -, response, hok⟩
    refine ⟨client, hk.named, ?_⟩
    rw [heq] at hok ⊢
    obtain ⟨built, hbuilt, -⟩ := bind_ok hok
    rw [hbuilt]
    rfl
  · intro r hr hdenies
    rw [heq] at hr
    obtain rfl := List.mem_singleton.mp hr
    rintro ⟨-, -, -, response, hok⟩
    rw [heq] at hok
    obtain ⟨built, hbuilt, -⟩ := bind_ok hok
    rw [hbuilt] at hdenies
    exact not_denies_allowed (Or.inl rfl) hdenies

/-- A PUT is recorded truthfully, unless it is denied after it has changed the
    table. -/
theorem truthful_put {client : Str} {msg : Handler} (hk : Puts con req client msg)
    (hgood : ¬ Misaudited con t req) : Truthful con t req := by
  have hne : "PUT".toList ≠ "GET".toList := by decide
  rcases put_cases hk t with ⟨-, e, heq⟩ | ⟨t', ha, hs, e, heq⟩ | ⟨t', v, ha, hs, -, heq⟩
  · exact truthful_of_refused hk.command hne heq
  · cases ha with
    | found => exact truthful_of_refused hk.command hne heq
    | made made => exact absurd (.namespaceLeft client msg hk made hs) hgood
  · have hanswer : ¬ Unanswerable con.runtime msg :=
      fun hu => hgood (.put client msg hk hu t' ha hs)
    obtain ⟨response, hok⟩ := answerable_ok hanswer
    rw [hok] at heq
    refine ⟨fun hr => absurd hr (not_returns_of_command hk.command hne), ?_, ?_, ?_⟩
    · intro key w hbefore hafter hw
      have hkey : key = entryKey req := by
        by_contra hdiff
        rw [heq, AList.lookup_insert_ne hdiff] at hafter
        exact hbefore (admitted_secret ha hw hafter)
      exact ⟨hkey, client, hk.named, by rw [heq]; rfl⟩
    · intro key w hbefore hafter _
      rw [heq] at hafter
      have hmem := ha.kept key (mem_of_lookup hbefore)
      exact absurd ((AList.mem_insert t').mpr (Or.inr hmem)) hafter
    · intro r hr hdenies
      rw [heq] at hr
      obtain rfl := List.mem_singleton.mp hr
      exact absurd hdenies (not_denies_allowed (Or.inr (Or.inl rfl)))

/-- A POST makes containers only, and keeps every entry. -/
theorem truthful_post {msg : Handler} (hk : Posts con req msg) : Truthful con t req := by
  have hne : "POST".toList ≠ "GET".toList := by decide
  have hlookup : ∀ {t' : Table}, PostAdmitted t req t' → ∀ {key : Str} {w : SqlValue},
      Secret w → t'.lookup key = some w → t.lookup key = some w := by
    rintro t' (⟨-, rfl⟩ | ⟨-, ha⟩) key w hw hrow
    · exact hrow
    · exact admitted_secret ha hw hrow
  have hreturns : ¬ ReturnsSecret con t req := not_returns_of_command hk.command hne
  rcases post_cases hk t with ⟨-, e, heq⟩ | ⟨t', ha, -, heq⟩ | ⟨t', ha, -, heq⟩
  · exact truthful_of_refused hk.command hne heq
  · refine ⟨fun hr => absurd hr hreturns, ?_, ?_, ?_⟩
    · intro key w hbefore hafter hw
      rw [heq] at hafter
      exact absurd (hlookup ha hw hafter) hbefore
    · intro key w hbefore hafter _
      rw [heq] at hafter
      exact absurd (ha.kept key (mem_of_lookup hbefore)) hafter
    · intro r hr
      rw [heq] at hr
      exact nomatch hr
  · refine ⟨fun hr => absurd hr hreturns, ?_, ?_, ?_⟩
    · intro key w hbefore hafter hw
      rw [heq] at hafter
      by_cases hkey : key = rstrip (entryKey req)
      · rw [hkey, AList.lookup_insert] at hafter
        exact absurd (Option.some.inj hafter).symm hw
      · rw [AList.lookup_insert_ne hkey] at hafter
        exact absurd (hlookup ha hw hafter) hbefore
    · intro key w hbefore hafter _
      rw [heq] at hafter
      have hmem := ha.kept key (mem_of_lookup hbefore)
      exact absurd ((AList.mem_insert t').mpr (Or.inr hmem)) hafter
    · intro r hr
      rw [heq] at hr
      exact nomatch hr

/-- An erased row is the only one that is gone, and none is new. -/
theorem erase_rows {t' : Table} {row : Str} (heq : t' = t.erase row) :
    (∀ key v, t'.lookup key = some v → t.lookup key = some v)
    ∧ ∀ key v, t.lookup key = some v → key ∉ t' → key = row := by
  subst heq
  constructor
  · intro key v hrow
    by_cases hkey : key = row
    · rw [hkey, AList.lookup_erase] at hrow
      exact nomatch hrow
    · rwa [AList.lookup_erase_ne hkey] at hrow
  · intro key v hrow hgone
    by_contra hkey
    exact hgone (AList.mem_erase.mpr ⟨hkey, mem_of_lookup hrow⟩)

/-- A DELETE of a container, which has no record, is treated truthfully unless
    it removes a secret. -/
theorem truthful_destroy {msg : Handler} (hk : Destroys con req msg)
    (hgood : ¬ Misaudited con t req) : Truthful con t req := by
  have hne : "DELETE".toList ≠ "GET".toList := by decide
  rcases destroy_cases hk t with ⟨-, e, heq⟩ | ⟨hr, heq⟩
  · exact truthful_of_refused hk.command hne heq
  · have htable : (respond con req t).2 = t.erase (rstrip (entryKey req)) := by rw [heq]
    obtain ⟨hold, hgone⟩ := erase_rows htable
    refine ⟨fun hret => absurd hret (not_returns_of_command hk.command hne), ?_, ?_, ?_⟩
    · intro key v hbefore hafter _
      exact absurd (hold key v hafter) hbefore
    · intro key v hbefore hafter hv
      obtain rfl := hgone key v hbefore hafter
      exact absurd (.destroyed msg hk hr v hbefore hv) hgood
    · intro r hmem
      rw [heq] at hmem
      exact nomatch hmem

/-- A DELETE of a secret is recorded truthfully, unless its reply cannot be
    made. -/
theorem truthful_delete {client : Str} {msg : Handler} (hk : Deletes con req client msg)
    (hgood : ¬ Misaudited con t req) : Truthful con t req := by
  have hne : "DELETE".toList ≠ "GET".toList := by decide
  rcases delete_cases hk t with ⟨-, heq⟩ | ⟨hmem, heq⟩
  · exact truthful_of_refused hk.command hne heq
  · have hanswer : ¬ Unanswerable con.runtime msg :=
      fun hu => hgood (.delete client msg hk hu hmem)
    obtain ⟨response, hok⟩ := answerable_ok hanswer
    rw [hok] at heq
    have htable : (respond con req t).2 = t.erase (entryKey req) := by rw [heq]
    obtain ⟨hold, hgone⟩ := erase_rows htable
    refine ⟨fun hret => absurd hret (not_returns_of_command hk.command hne), ?_, ?_, ?_⟩
    · intro key v hbefore hafter _
      exact absurd (hold key v hafter) hbefore
    · intro key v hbefore hafter _
      exact ⟨hgone key v hbefore hafter, client, hk.named, by rw [heq]; rfl⟩
    · intro r hr hdenies
      rw [heq] at hr
      obtain rfl := List.mem_singleton.mp hr
      exact absurd hdenies (not_denies_allowed (Or.inr (Or.inr rfl)))

/-- **Every other request is recorded truthfully**, by its kind: the record is
    written after the operation, with the verdict of its end. -/
theorem truthful_of_not_misaudited (hgood : ¬ Misaudited con t req) : Truthful con t req := by
  cases request_kind con req with
  | get client msg hk => exact truthful_get hk
  | put client msg hk => exact truthful_put hk hgood
  | post msg hk => exact truthful_post hk
  | destroy msg hk => exact truthful_destroy hk hgood
  | delete client msg hk => exact truthful_delete hk hgood
  | list key msg hk =>
      have heq := respond_list hk t
      refine truthful_of_unchanged (by rw [heq]) ?_ ?_
      · rintro ⟨-, hkey, -⟩
        exact absurd hk.container hkey
      · intro r hr
        rw [heq] at hr
        exact nomatch hr
  | refused o hrun hk =>
      have heq := respond_refused hrun t
      have hno : ¬ ReturnsSecret con t req := by
        rintro ⟨-, -, -, response, hok⟩
        obtain ⟨⟨e, he⟩, -⟩ := hk
        rw [heq, he] at hok
        exact nomatch hok
      exact truthful_of_unchanged (by rw [heq]) (fun hr => absurd hr hno) (fun _ _ _ => hno)

/-- **HEADLINE — audit completeness and truthfulness** hold of a request
    exactly when it is none of these: a DELETE of a container that removes a
    secret, a PUT that makes the namespace and cannot store its value, or a PUT
    or DELETE of a key that is carried out and cannot be answered. -/
theorem audit_truthful_iff (con : Secrets) (t : Table) (req : Request) :
    Truthful con t req ↔ ¬ Misaudited con t req :=
  ⟨fun h hbad => misaudited_not_truthful hbad h, truthful_of_not_misaudited⟩

/-- A DELETE of `u/k/` removes the secret `u/k`, and nothing is on record. -/
theorem secret_removed_unrecorded :
    ¬ Truthful simpleSecrets
      (respond simpleSecrets (putBytes "u" ["u", "k"] [65]) ∅).2
      (userRequest "DELETE" "u" ["u", "k", []] [] none) := by
  intro h
  obtain ⟨-, client, -, haudit⟩ := h.removed "keys/u/k" (.text "QQ==") (by decide) (by decide)
    (by rw [Secret]; decide)
  exact nomatch haudit

end AuditProofs
