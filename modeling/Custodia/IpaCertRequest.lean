import Custodia.SqliteStore

/-! # IpaCertRequest — certificates on demand, cached in another store

    `IPACertRequest` requests a certificate when a key is first read, and keeps
    the pair in a BACKING store. Deleting a key revokes the certificates of
    its principal one by one, and then deletes the cached pair.

    * `certServe`: the commands of the IPA server;
    * `get`, `set`, `span`, `list`, `cut`: the methods of the store, over those
      commands and the methods of the backing store;
    * `exec`: one operation, over a backing store; `Holding` says what is relied
      on of it, and `sqliteHolding` that a `SqliteStore` does it. -/

namespace IpaCertRequest

open Interaction SeparatedNames PosixPath PyValues SqliteStore

/-! ## The server -/

/-- What the server keeps of a certificate: the principal that it was issued to,
    and whether it has been revoked. It is known by its serial number. -/
structure Certificate where
  principal : Str
  revoked : Bool
  deriving DecidableEq

/-- The certificates that are valid by their dates, by serial number. The store
    never asks for others (`validnotafter_from` is now), and none runs out
    within a run. -/
abbrev Certs := AList (fun _ : Nat => Certificate)

/-- A certificate as `cert_find` reports it: its serial number, by which it can
    be revoked, and whether it has been revoked already. -/
structure FoundCert where
  serialNumber : Nat
  revoked : Bool
  deriving DecidableEq

/-- The commands the store issues. The profile, the chain and the reason of a
    revocation are the same in all of them, and `cert_find` is always asked for
    the certificates that are valid now. -/
inductive CertCommand where
  | certRequest (hostname principal : Str)
  | certFind (principal : Str)
  | certRevoke (serialNumber : Nat)

/-- What the store uses of the result: a new certificate is known by its
    serial number. -/
@[reducible] def CertCommand.Ans : CertCommand → Type
  | .certRequest _ _ => Nat
  | .certFind _ => List FoundCert
  | .certRevoke _ => Unit

/-- The next serial number. -/
def nextSerial (certs : Certs) : Nat := certs.keys.foldr max 0 + 1

/-- The certificates of a principal. -/
def certsOf (certs : Certs) (principal : Str) : List FoundCert :=
  (certs.entries.filter (fun e => decide (e.2.principal = principal))).map
    (fun e => ⟨e.1, e.2.revoked⟩)

/-- A command that is carried out. -/
def certServe : (o : CertCommand) → Certs → Except Exc o.Ans × Certs
  | .certRequest _ principal, certs =>
      (.ok (nextSerial certs), certs.insert (nextSerial certs) ⟨principal, false⟩)
  | .certFind principal, certs => (.ok (certsOf certs principal), certs)
  | .certRevoke serial, certs =>
      match certs.lookup serial with
      | none => (.error (.py .notFound "certificate not found"), certs)
      | some cert => (.ok (), certs.insert serial { cert with revoked := true })

/-! ## The store -/

/-- What `cut` of a store can return: a boolean, or a list of certificates. -/
inductive CutResult where
  | flag (b : Bool)
  | certs (found : List FoundCert)
  deriving DecidableEq

/-- `not result`. -/
def CutResult.falsy : CutResult → Bool
  | .flag b => !b
  | .certs found => found.isEmpty

/-- What the methods of the backing store return. -/
@[reducible] def BackingAns : Call → Type
  | .get _ => SqlValue
  | .set _ _ _ => Unit
  | .span _ => Unit
  | .list _ => Option (List Str)
  | .cut _ => CutResult

/-- The operations of the store: methods of the backing store and commands. -/
inductive CertOp where
  | store (c : Call)
  | ipa (o : CertCommand)

/-- What an operation returns. -/
@[reducible] def CertOp.Ans : CertOp → Type
  | .store c => BackingAns c
  | .ipa o => o.Ans

/-- A method of the store. -/
abbrev CertProg := Prog Exc CertOp CertOp.Ans

/-- The configured store: `allowed_services`, the principal of a service on a
    host in the configured realm, and the private key and the certificates of a
    new serial number as one text. -/
structure CertRequest where
  allowedServices : List Str
  principalName : Str → Str → Str
  pem : Nat → Str

/-- What `_parse_key` returns. -/
structure ParsedKey where
  key : Str
  hostname : Str
  principal : Str

section Methods

variable (self : CertRequest)

/-- `IPACertRequest._parse_key`. -/
def parseKey (key : Str) : Except Exc ParsedKey :=
  match key.splitOn slash with
  | [root, service, hostname] =>
      if root ≠ "keys".toList then
        .error (.py .csStoreDenied (("Invalid cert request key '" : Str) ++ key ++ ("'" : Str)))
      else if service ∉ self.allowedServices then
        .error (.py .csStoreDenied (("Invalid service '" : Str) ++ key ++ ("'" : Str)))
      else .ok ⟨("cert/" : Str) ++ service ++ ("/" : Str) ++ hostname, hostname,
        self.principalName service hostname⟩
  | _ => .error (.py .csStoreDenied (("Invalid cert request key '" : Str) ++ key ++ ("'" : Str)))

/-- `IPACertRequest._request_cert`. -/
def requestCert (hostname principal : Str) : CertProg Str := do
  let serial ← Prog.perform (CertOp.ipa (.certRequest hostname principal))
  return self.pem serial

/-- How `get` reports that no certificate could be requested. -/
def requestError (hostname principal : Str) (e : Exc) : Exc :=
  if e.isA .authorizationError then
    .py .csStoreDenied (("Unauthorized request for '" : Str) ++ hostname ++ ("' (" : Str)
      ++ principal ++ (")" : Str))
  else if e.isA .notFound then
    .py .csStoreDenied (("Host '" : Str) ++ hostname ++ ("' or principal '" : Str)
      ++ principal ++ ("' not found" : Str))
  else
    .py .csStoreError (("Failed to request cert '" : Str) ++ hostname ++ ("' (" : Str)
      ++ principal ++ (")" : Str))

/-- `IPACertRequest.get`. -/
def get (key : Str) : CertProg SqlValue := do
  let parsed ← Prog.ofExcept (parseKey self key)
  let value ← Prog.perform (CertOp.store (.get parsed.key))
  if value ≠ .null then return value
  else do
    -- no cached pair
    let data ← (requestCert self parsed.hostname parsed.principal).catching
      (fun e => .raise (requestError parsed.hostname parsed.principal e))
    Prog.perform (CertOp.store (.set parsed.key (.ofText data) true))
    return .text data

/-- `IPACertRequest.set`. -/
def set (key : Str) (value : Json) (replace : Bool) : CertProg Unit := do
  let parsed ← Prog.ofExcept (parseKey self key)
  Prog.perform (CertOp.store (.set parsed.key value replace))

/-- `IPACertRequest.span`. -/
def span (key : Str) : CertProg Unit := do
  let parsed ← Prog.ofExcept (parseKey self key)
  Prog.perform (CertOp.store (.span parsed.key))

/-- `IPACertRequest.list`: the filter is passed on as it is. -/
def list (keyfilter : Str) : CertProg (Option (List Str)) :=
  Prog.perform (CertOp.store (.list keyfilter))

end Methods

/-! ## `cut`

    It is written over any operations that offer the commands of the server
    and the `cut` of a backing store. -/

section Cut

variable {Op : Type} {Ans : Op → Type} (self : CertRequest)
  (command : (o : CertCommand) → Prog Exc Op Ans o.Ans)
  (storeCut : Str → Prog Exc Op Ans CutResult)

/-- The loop of `_revoke_certs`. -/
def revokeEach : List FoundCert → Prog Exc Op Ans Unit
  | [] => return ()
  | cert :: certs => do
      command (.certRevoke cert.serialNumber)
      revokeEach certs

/-- The certificates that `_revoke_certs` revokes. -/
def unrevoked (result : List FoundCert) : List FoundCert :=
  result.filter (fun cert => !cert.revoked)

/-- `IPACertRequest._revoke_certs`. -/
def revokeCerts (principal : Str) : Prog Exc Op Ans (List FoundCert) := do
  let result ← command (.certFind principal)
  revokeEach command (unrevoked result)
  return unrevoked result

/-- `self.store.cut(key) or certs`. -/
def cutOr (deleted : CutResult) (certs : List FoundCert) : CutResult :=
  if deleted.falsy then .certs certs else deleted

/-- `IPACertRequest.cut`. -/
def cutOver (key : Str) : Prog Exc Op Ans CutResult := do
  let parsed ← Prog.ofExcept (parseKey self key)
  let certs ← revokeCerts command parsed.principal
  let deleted ← storeCut parsed.key
  return cutOr deleted certs

end Cut

/-- `IPACertRequest.cut`, over the operations of the store. -/
def cut (self : CertRequest) (key : Str) : CertProg CutResult :=
  cutOver self (fun o => Prog.perform (CertOp.ipa o))
    (fun k => Prog.perform (CertOp.store (.cut k))) key

/-! ## Over a backing store -/

/-- A backing store: its state, and what each method answers and does to it. -/
structure BackingStore where
  State : Type
  exec : (c : Call) → State → Except Exc (BackingAns c) × State

/-- The server and the backing store. -/
structure CertWorld (B : BackingStore) where
  certs : Certs
  store : B.State

/-- One operation. -/
def exec (B : BackingStore) : (o : CertOp) → CertWorld B → Except Exc o.Ans × CertWorld B
  | .store c, w => ((B.exec c w.store).1, ⟨w.certs, (B.exec c w.store).2⟩)
  | .ipa o, w => ((certServe o w.certs).1, ⟨(certServe o w.certs).2, w.store⟩)

/-- What is relied on of a backing store that keeps cached pairs: a `get` tells
    what is HELD under its key, only a `set` makes the store hold something,
    which is its value under its key, and after a `cut` nothing is held under
    its key. -/
structure Holding (B : BackingStore) where
  held : B.State → Str → Option SqlValue
  get_held : ∀ {key t value}, (B.exec (.get key) t).1 = .ok value → value ≠ .null →
    held t key = some value
  get_keeps : ∀ {key t other value}, held (B.exec (.get key) t).2 other = some value →
    held t other = some value
  set_held : ∀ {key text t other value},
    held (B.exec (.set key (.ofText text) true) t).2 other = some value →
    held t other = some value ∨ (other = key ∧ value = .text text)
  cut_keeps : ∀ {key t other value}, held (B.exec (.cut key) t).2 other = some value →
    held t other = some value
  cut_gone : ∀ {key t result}, (B.exec (.cut key) t).1 = .ok result →
    held (B.exec (.cut key) t).2 key = none

/-- The methods of a `SqliteStore`, as a backing store. -/
def backing : (c : Call) → Table → Except Exc (BackingAns c) × Table
  | .get key, t => SqliteStore.exec (.get key) t
  | .set key value replace, t => SqliteStore.exec (.set key value replace) t
  | .span key, t => SqliteStore.exec (.span key) t
  | .list keyfilter, t => SqliteStore.exec (.list keyfilter) t
  | .cut key, t =>
      ((SqliteStore.exec (.cut key) t).1.map CutResult.flag, (SqliteStore.exec (.cut key) t).2)

abbrev sqliteBacking : BackingStore := ⟨Table, backing⟩

/-- A row after a replacing `set` of a text was there before, or is that text. -/
theorem set_text_row {key text other : Str} {t : Table} {value : SqlValue}
    (h : (SqliteStore.exec (.set key (.ofText text) true) t).2.lookup other = some value) :
    t.lookup other = some value ∨ (other = key ∧ value = .text text) := by
  by_cases hslash : endsInSlash key = true
  · rw [SqliteStore.exec, if_pos hslash] at h
    exact Or.inl h
  · have hset : SqliteStore.exec (.set key (.ofText text) true) t
        = (.ok (), t.insert key (.text text)) := by
      rw [SqliteStore.exec, if_neg hslash, bindValue_ofText]
      exact if_neg (fun h => Bool.noConfusion h.1)
    rw [hset] at h
    by_cases hother : other = key
    · subst hother
      have hrow := (AList.lookup_insert t).symm.trans h
      exact Or.inr ⟨rfl, (Option.some.inj hrow).symm⟩
    · exact Or.inl ((AList.lookup_insert_ne hother).symm.trans h)

/-- A table holds its rows. -/
def sqliteHolding : Holding sqliteBacking where
  held := fun t key => t.lookup key
  get_held := fun {key t value} h hvalue => by
    have hread : (t.lookup key).getD .null = value := Except.ok.inj h
    cases hrow : t.lookup key with
    | none =>
        rw [hrow] at hread
        exact absurd hread.symm hvalue
    | some v =>
        rw [hrow] at hread
        exact congrArg some hread
  get_keeps := fun h => h
  set_held := set_text_row
  cut_keeps := fun {key t other value} h => by
    have hrow := (exec_cut_lookup key other t).symm.trans h
    by_cases hother : other = key
    · rw [if_pos hother] at hrow
      cases hrow
    · rw [if_neg hother] at hrow
      exact hrow
  cut_gone := fun {key t result} _ => AList.lookup_eq_none.mpr (exec_cut_gone key t)

/-! ## The keys -/

/-- The key of a service on a host. -/
def requestKey (service hostname : Str) : Str :=
  ("keys/" : Str) ++ service ++ ("/" : Str) ++ hostname

/-- The key of its cached pair. -/
def cachedKey (service hostname : Str) : Str :=
  ("cert/" : Str) ++ service ++ ("/" : Str) ++ hostname

theorem spell_three (a service hostname : Str) :
    spell slash [a, service, hostname] = a ++ slash :: (service ++ slash :: hostname) := by
  rw [spell_cons slash _ (List.cons_ne_nil _ _), spell_cons slash _ (List.cons_ne_nil _ _),
    spell_singleton]

theorem requestKey_eq (service hostname : Str) :
    requestKey service hostname = spell slash ["keys".toList, service, hostname] := by
  have hroot : ("keys/" : Str) = "keys".toList ++ [slash] := by decide
  have hslash : ("/" : Str) = [slash] := by decide
  show ("keys/" : Str) ++ service ++ ("/" : Str) ++ hostname = _
  rw [hroot, hslash, spell_three]
  simp only [List.append_assoc, List.cons_append, List.nil_append]

theorem cachedKey_eq (service hostname : Str) :
    cachedKey service hostname = spell slash ["cert".toList, service, hostname] := by
  have hroot : ("cert/" : Str) = "cert".toList ++ [slash] := by decide
  have hslash : ("/" : Str) = [slash] := by decide
  show ("cert/" : Str) ++ service ++ ("/" : Str) ++ hostname = _
  rw [hroot, hslash, spell_three]
  simp only [List.append_assoc, List.cons_append, List.nil_append]

/-- **The keys that are accepted** name an allowed service and a host. -/
theorem parseKey_ok {self : CertRequest} {key : Str} {parsed : ParsedKey}
    (h : parseKey self key = .ok parsed) :
    ∃ service hostname, slash ∉ service ∧ slash ∉ hostname ∧ service ∈ self.allowedServices
      ∧ key = requestKey service hostname
      ∧ parsed = ⟨cachedKey service hostname, hostname, self.principalName service hostname⟩ := by
  obtain ⟨names, hne, hfree, rfl⟩ := exists_spell slash key
  rw [parseKey, splitOn_spell slash hne hfree] at h
  rcases names with _ | ⟨root, _ | ⟨service, _ | ⟨hostname, _ | ⟨more, rest⟩⟩⟩⟩
  · exact absurd rfl hne
  · cases h
  · cases h
  · simp only at h
    split_ifs at h with hroot hallowed
    obtain rfl := not_not.mp hroot
    exact ⟨service, hostname, hfree service (by simp), hfree hostname (by simp),
      hallowed, (requestKey_eq service hostname).symm, (Except.ok.inj h).symm⟩
  · cases h

theorem parseKey_requestKey {self : CertRequest} {service hostname : Str}
    (hservice : slash ∉ service) (hhost : slash ∉ hostname)
    (hallowed : service ∈ self.allowedServices) :
    parseKey self (requestKey service hostname)
      = .ok ⟨cachedKey service hostname, hostname, self.principalName service hostname⟩ := by
  have hfree : ∀ name ∈ ["keys".toList, service, hostname], slash ∉ name := by
    intro name hname
    simp only [List.mem_cons, List.not_mem_nil, or_false] at hname
    rcases hname with rfl | rfl | rfl
    · decide
    · exact hservice
    · exact hhost
  rw [parseKey, requestKey_eq, splitOn_spell slash (List.cons_ne_nil _ _) hfree]
  simp only
  rw [if_neg (not_not.mpr rfl), if_neg (not_not.mpr hallowed)]
  rfl

/-- The key of a cached pair is not itself one of a request. -/
theorem parseKey_cachedKey (self : CertRequest) {service hostname : Str} (parsed : ParsedKey) :
    parseKey self (cachedKey service hostname) ≠ .ok parsed := by
  intro h
  obtain ⟨service', hostname', -, -, -, hkey, -⟩ := parseKey_ok h
  rw [cachedKey_eq, requestKey_eq, spell_three, spell_three] at hkey
  have hhead := congrArg List.head? hkey
  simp at hhead

/-! ## What the server keeps -/

theorem le_foldr_max {n : Nat} {ns : List Nat} (h : n ∈ ns) : n ≤ ns.foldr max 0 := by
  induction ns with
  | nil => cases h
  | cons m ns ih =>
      rcases List.mem_cons.mp h with rfl | h
      · exact Nat.le_max_left _ _
      · exact Nat.le_trans (ih h) (Nat.le_max_right _ _)

/-- A new serial number has not been given yet. -/
theorem nextSerial_not_mem (certs : Certs) : nextSerial certs ∉ certs := by
  intro h
  have hle := le_foldr_max (AList.mem_keys.mp h)
  rw [nextSerial] at hle
  omega

theorem certRequest_lookup (certs : Certs) (hostname principal : Str) (n : Nat) :
    (certServe (.certRequest hostname principal) certs).2.lookup n
      = if n = nextSerial certs then some ⟨principal, false⟩ else certs.lookup n := by
  show (certs.insert (nextSerial certs) ⟨principal, false⟩).lookup n = _
  by_cases hn : n = nextSerial certs
  · subst hn
    rw [AList.lookup_insert, if_pos rfl]
  · rw [AList.lookup_insert_ne hn, if_neg hn]

/-- Revoking a certificate changes its flag only. -/
theorem certRevoke_lookup (certs : Certs) (serial n : Nat) :
    (certServe (.certRevoke serial) certs).2.lookup n
      = (certs.lookup n).map (fun c => if n = serial then { c with revoked := true } else c) := by
  rw [certServe]
  cases hserial : certs.lookup serial with
  | none =>
      by_cases hn : n = serial
      · subst hn
        rw [hserial]
        rfl
      · simp [hn]
  | some cert =>
      by_cases hn : n = serial
      · subst hn
        simp [hserial]
      · simp [hn, AList.lookup_insert_ne hn]

theorem certRevoke_ok {certs : Certs} {serial : Nat} (h : serial ∈ certs) :
    (certServe (.certRevoke serial) certs).1 = .ok () := by
  obtain ⟨cert, hcert⟩ := Option.isSome_iff_exists.mp (AList.lookup_isSome.mpr h)
  rw [certServe, hcert]

theorem certRevoke_missing {certs : Certs} {serial : Nat} (h : serial ∉ certs) :
    ∃ e, certServe (.certRevoke serial) certs = (.error e, certs) := by
  rw [← AList.lookup_eq_none] at h
  exact ⟨_, by rw [certServe, h]⟩

theorem mem_certsOf {certs : Certs} {principal : Str} {n : Nat} {revoked : Bool} :
    ⟨n, revoked⟩ ∈ certsOf certs principal ↔ certs.lookup n = some ⟨principal, revoked⟩ := by
  rw [certsOf, List.mem_map]
  constructor
  · rintro ⟨e, he, heq⟩
    obtain ⟨hmem, hprincipal⟩ := List.mem_filter.mp he
    obtain ⟨rfl, rfl⟩ := FoundCert.mk.inj heq
    rw [AList.mem_lookup_iff.mpr hmem, ← of_decide_eq_true hprincipal]
  · intro h
    refine ⟨⟨n, ⟨principal, revoked⟩⟩, List.mem_filter.mpr ⟨AList.mem_lookup_iff.mp h, ?_⟩, rfl⟩
    exact decide_eq_true rfl

/-- Certificates for `HTTP` on the hosts of a realm. -/
def httpCerts : CertRequest where
  allowedServices := ["HTTP"]
  principalName := fun service hostname =>
    service ++ ("/" : Str) ++ hostname ++ ("@REALM" : Str)
  pem := fun serial => ("Serial Number: " : Str) ++ decimal serial

end IpaCertRequest
