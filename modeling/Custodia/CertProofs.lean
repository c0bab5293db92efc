import Custodia.CertRuns

/-! # CertProofs — when a revoked certificate is not served

    A `cut` revokes certificates one by one and then deletes the cached pair; a
    `get` requests a certificate and then caches its pair. A pair that is
    cached after its certificate was revoked, or that stays behind when a
    `cut` fails, is served from then on.

    * `pending_move`: a cut that has revoked a certificate is still to delete
      its pair, or the pair is cached nowhere;
    * `innocent_move`: a call that starts then does not come to return it;
    * `revoked_not_served`: the runs in which no revoked pair is served. -/

namespace CertProofs

open Interaction Interleaving SeparatedNames PosixPath PyValues SqliteStore FaultyService
open IpaCertRequest CertRuns

variable {self : CertRequest} {B : BackingStore} {K : Holding B} {ι : Type}

/-! ## Keys, pairs and principals -/

/-- What the names and texts are relied on for: the text of a pair tells the
    serial number of its certificate, and a principal its service and host. -/
structure Distinct (store : CertRequest) : Prop where
  pem : Function.Injective store.pem
  principal : ∀ {service hostname service' hostname' : Str}, slash ∉ service →
    slash ∉ hostname → slash ∉ service' → slash ∉ hostname' →
    store.principalName service hostname = store.principalName service' hostname' →
    service = service' ∧ hostname = hostname'

/-- It is what `_parse_key` makes of some key. -/
def Parsed (self : CertRequest) (parsed : ParsedKey) : Prop :=
  ∃ key, parseKey self key = .ok parsed

theorem cachedKey_inj {service hostname service' hostname' : Str} (hs : slash ∉ service)
    (hh : slash ∉ hostname) (hs' : slash ∉ service') (hh' : slash ∉ hostname')
    (h : cachedKey service hostname = cachedKey service' hostname') :
    service = service' ∧ hostname = hostname' := by
  have hfree : ∀ {a b : Str}, slash ∉ a → slash ∉ b →
      ∀ name ∈ ["cert".toList, a, b], slash ∉ name := by
    intro a b ha hb name hname
    simp only [List.mem_cons, List.not_mem_nil, or_false] at hname
    rcases hname with rfl | rfl | rfl
    · decide
    · exact ha
    · exact hb
  rw [cachedKey_eq, cachedKey_eq] at h
  have hnames := spell_inj slash (List.cons_ne_nil _ _) (List.cons_ne_nil _ _) (hfree hs hh)
    (hfree hs' hh') h
  simpa using hnames

/-- Two keys with the same cached pair are the same. -/
theorem Parsed.eq_of_key {parsed parsed' : ParsedKey} (h : Parsed self parsed)
    (h' : Parsed self parsed') (hkey : parsed.key = parsed'.key) : parsed = parsed' := by
  obtain ⟨key, hparsed⟩ := h
  obtain ⟨key', hparsed'⟩ := h'
  obtain ⟨service, hostname, hs, hh, -, -, rfl⟩ := parseKey_ok hparsed
  obtain ⟨service', hostname', hs', hh', -, -, rfl⟩ := parseKey_ok hparsed'
  obtain ⟨rfl, rfl⟩ := cachedKey_inj hs hh hs' hh' hkey
  rfl

/-- Two keys of the same principal are the same. -/
theorem Parsed.eq_of_principal (hd : Distinct self) {parsed parsed' : ParsedKey}
    (h : Parsed self parsed) (h' : Parsed self parsed')
    (hprincipal : parsed.principal = parsed'.principal) : parsed = parsed' := by
  obtain ⟨key, hparsed⟩ := h
  obtain ⟨key', hparsed'⟩ := h'
  obtain ⟨service, hostname, hs, hh, -, -, rfl⟩ := parseKey_ok hparsed
  obtain ⟨service', hostname', hs', hh', -, -, rfl⟩ := parseKey_ok hparsed'
  obtain ⟨rfl, rfl⟩ := hd.principal hs hh hs' hh' hprincipal
  rfl

/-! ## Certificates -/

/-- The certificate has been issued to the principal. -/
def Issued (w : CertWorld B) (n : Nat) (principal : Str) : Prop :=
  ∃ revoked, w.certs.lookup n = some ⟨principal, revoked⟩

/-- The certificate is revoked. -/
def Revoked (w : CertWorld B) (n : Nat) : Prop :=
  ∃ principal, w.certs.lookup n = some ⟨principal, true⟩

/-- The pair of the certificate is cached under the key. -/
def Cached (self : CertRequest) (K : Holding B) (w : CertWorld B) (key : Str) (n : Nat) : Prop :=
  K.held w.store key = some (.text (self.pem n))

theorem Issued.principal_eq {w : CertWorld B} {n : Nat} {principal principal' : Str}
    (h : Issued w n principal) (h' : Issued w n principal') : principal = principal' := by
  obtain ⟨revoked, hn⟩ := h
  obtain ⟨revoked', hn'⟩ := h'
  exact congrArg Certificate.principal (Option.some.inj (hn.symm.trans hn'))

/-- Certificates stay issued, and stay revoked. -/
theorem moves_certs {place place' : Place} {w w' : World B} (h : Moves self place w place' w') :
    (∀ {n principal}, Issued w.state n principal → Issued w'.state n principal)
      ∧ ∀ {n}, Revoked w.state n → Revoked w'.state n := by
  cases h with
  | requests parsed =>
      have hkeep : ∀ n cert, w.state.certs.lookup n = some cert →
          (certServe (.certRequest parsed.hostname parsed.principal) w.state.certs).2.lookup n
            = some cert := by
        intro n cert hn
        have hold : n ≠ nextSerial w.state.certs := by
          rintro rfl
          refine nextSerial_not_mem w.state.certs (AList.lookup_isSome.mp ?_)
          rw [hn]
          rfl
        rw [certRequest_lookup, if_neg hold, hn]
      refine ⟨fun h => ?_, fun h => ?_⟩
      · obtain ⟨revoked, hn⟩ := h
        exact ⟨revoked, hkeep _ _ hn⟩
      · obtain ⟨principal, hn⟩ := h
        exact ⟨principal, hkeep _ _ hn⟩
  | revokes parsed found cert rest =>
      refine ⟨fun {n principal} h => ?_, fun {n} h => ?_⟩
      · obtain ⟨revoked, hn⟩ := h
        show ∃ revoked, (certServe _ _).2.lookup n = _
        rw [certRevoke_lookup, hn]
        by_cases hsame : n = cert.serialNumber
        · exact ⟨true, by simp [hsame]⟩
        · exact ⟨revoked, by simp [hsame]⟩
      · obtain ⟨principal, hn⟩ := h
        refine ⟨principal, ?_⟩
        show (certServe _ _).2.lookup n = _
        rw [certRevoke_lookup, hn]
        simp
  | rests x _ => exact ⟨fun h => h, fun h => h⟩
  | fails _ running _ f fault e => exact ⟨fun h => h, fun h => h⟩
  | hits parsed _ value got found => exact ⟨fun h => h, fun h => h⟩
  | misses parsed => exact ⟨fun h => h, fun h => h⟩
  | unread parsed _ e => exact ⟨fun h => h, fun h => h⟩
  | caches parsed serial _ served x result => exact ⟨fun h => h, fun h => h⟩
  | finds parsed => exact ⟨fun h => h, fun h => h⟩
  | unknown parsed found cert rest _ e missing => exact ⟨fun h => h, fun h => h⟩
  | deletes parsed found _ deleted done result => exact ⟨fun h => h, fun h => h⟩
  | undeleted parsed found _ served e raised => exact ⟨fun h => h, fun h => h⟩

/-! ## Where the pairs are -/

/-- **What is cached after a move** was cached before it, or is the pair that
    the move puts into the cache. -/
theorem moves_cached (hd : Distinct self) {place place' : Place} {w w' : World B}
    (h : Moves self place w place' w') {key : Str} {n : Nat} (hc : Cached self K w'.state key n) :
    Cached self K w.state key n
    ∨ ∃ parsed, place = .caching parsed n ∧ parsed.key = key ∧ w.next = none := by
  cases h with
  | caches parsed serial _ served x result =>
      rcases K.set_held hc with hold | ⟨rfl, hvalue⟩
      · exact Or.inl hold
      · obtain rfl := hd.pem (SqlValue.text.inj hvalue)
        exact Or.inr ⟨parsed, rfl, rfl, served⟩
  | hits parsed _ value got found => exact Or.inl (K.get_keeps hc)
  | misses parsed => exact Or.inl (K.get_keeps hc)
  | unread parsed _ e => exact Or.inl (K.get_keeps hc)
  | deletes parsed found _ deleted done result => exact Or.inl (K.cut_keeps hc)
  | undeleted parsed found _ served e raised => exact Or.inl (K.cut_keeps hc)
  | rests x _ => exact Or.inl hc
  | fails _ running _ f fault e => exact Or.inl hc
  | requests parsed => exact Or.inl hc
  | finds parsed => exact Or.inl hc
  | revokes parsed found cert rest => exact Or.inl hc
  | unknown parsed found cert rest _ e missing => exact Or.inl hc

/-! ## What holds at every place -/

/-- What a call knows at its place. -/
def Knows (self : CertRequest) (w : CertWorld B) : Place → Prop
  | .reading parsed => Parsed self parsed
  | .requesting parsed => Parsed self parsed
  | .caching parsed serial => Parsed self parsed ∧ Issued w serial parsed.principal
  | .finding parsed => Parsed self parsed
  | .revoking parsed found rest => Parsed self parsed ∧ (∃ done, found = done ++ rest)
      ∧ ∀ cert ∈ found, Issued w cert.serialNumber parsed.principal
  | .ended _ => True

/-- The calls are at their places, and only pairs of a key's own principal are
    cached under it. Every turn keeps this, and with it a cached pair can be
    traced to its certificate. -/
structure Tracks (store : CertRequest) (K : Holding B) (c : System B ι) (places : ι → Place) :
    Prop where
  procs : c.procs = fun i => (places i).prog store
  knows : ∀ i, Knows store c.store.state (places i)
  rows : ∀ {parsed n}, Parsed store parsed → Cached store K c.store.state parsed.key n →
    Issued c.store.state n parsed.principal

theorem knows_mono {w w' : CertWorld B}
    (h : ∀ {n principal}, Issued w n principal → Issued w' n principal) {place : Place}
    (hk : Knows self w place) : Knows self w' place := by
  cases place with
  | reading parsed => exact hk
  | requesting parsed => exact hk
  | caching parsed serial => exact ⟨hk.1, h hk.2⟩
  | finding parsed => exact hk
  | revoking parsed found rest => exact ⟨hk.1, hk.2.1, fun cert hcert => h (hk.2.2 cert hcert)⟩
  | ended x => trivial

/-- What a call knows after a move. -/
theorem knows_move {place place' : Place} {w w' : World B} (h : Moves self place w place' w')
    (hk : Knows self w.state place) : Knows self w'.state place' := by
  cases h with
  | rests x _ => trivial
  | fails _ running _ f fault e => trivial
  | hits parsed _ value got found => trivial
  | misses parsed => exact hk
  | unread parsed _ e => trivial
  | requests parsed =>
      refine ⟨hk, false, ?_⟩
      show (certServe _ _).2.lookup _ = _
      rw [certRequest_lookup, if_pos rfl]
  | caches parsed serial _ served x result => trivial
  | finds parsed =>
      refine ⟨hk, ⟨[], rfl⟩, fun cert hcert => ?_⟩
      exact ⟨cert.revoked, mem_certsOf.mp (List.mem_filter.mp hcert).1⟩
  | revokes parsed found cert rest =>
      obtain ⟨hparsed, ⟨done, hfound⟩, hissued⟩ := hk
      refine ⟨hparsed, ⟨done ++ [cert], by rw [hfound, List.append_assoc]; rfl⟩, ?_⟩
      have hmove : Moves self _ w _ _ := .revokes parsed found cert rest w
      exact fun other hother => (moves_certs hmove).1 (hissued other hother)
  | unknown parsed found cert rest _ e missing => trivial
  | deletes parsed found _ deleted done result => trivial
  | undeleted parsed found _ served e raised => trivial

variable [DecidableEq ι]

/-- **One turn**: the call makes a move, and everything is tracked again. -/
theorem tracks_step (hd : Distinct self) {c : System B ι} {places : ι → Place}
    (h : Tracks self K c places) (i : ι) :
    ∃ place w, Moves self (places i) c.store place w
      ∧ step operation c i = ⟨fun j => (Function.update places i place j).prog self, w⟩
      ∧ Tracks self K (step operation c i) (Function.update places i place) := by
  obtain ⟨place, w, hmove, hstep⟩ := turn_cases self h.procs i
  refine ⟨place, w, hmove, hstep, ?_⟩
  rw [hstep]
  refine ⟨rfl, fun j => ?_, fun {parsed n} hparsed hcached => ?_⟩
  · show Knows self w.state (Function.update places i place j)
    by_cases hj : j = i
    · subst hj
      rw [Function.update_self]
      exact knows_move hmove (h.knows j)
    · rw [Function.update_of_ne hj]
      exact knows_mono (moves_certs hmove).1 (h.knows j)
  · show Issued w.state n parsed.principal
    rcases moves_cached hd hmove hcached with hold | ⟨parsed', hplace, hkey, -⟩
    · exact (moves_certs hmove).1 (h.rows hparsed hold)
    · have hknows := h.knows i
      rw [hplace] at hknows
      obtain rfl := hknows.1.eq_of_key hparsed hkey
      exact (moves_certs hmove).1 hknows.2

/-- Every cached pair is that of a certificate of the key's principal. -/
def Sound (self : CertRequest) (K : Holding B) (w : CertWorld B) : Prop :=
  ∀ {parsed n}, Parsed self parsed → Cached self K w parsed.key n → Issued w n parsed.principal

omit [DecidableEq ι] in
theorem tracks_start {w : World B} (hw : Sound self K w.state) (calls : ι → CertCall) :
    Tracks self K (start self calls w) (fun i => (calls i).place self) := by
  refine ⟨funext fun i => prog_eq self (calls i), fun i => ?_, hw⟩
  show Knows self w.state ((calls i).place self)
  cases calls i with
  | get key =>
      rw [CertCall.place]
      cases hparsed : parseKey self key with
      | ok parsed => exact ⟨key, hparsed⟩
      | error e => trivial
  | cut key =>
      rw [CertCall.place]
      cases hparsed : parseKey self key with
      | ok parsed => exact ⟨key, hparsed⟩
      | error e => trivial

/-! ## What goes wrong -/

/-- The call puts the pair of a revoked certificate into the cache. -/
def CachesRevoked (self : CertRequest) (v : System B ι × ι) : Prop :=
  v.1.store.next = none ∧ ∃ key n, (v.1.procs v.2).nextOp
      = some (.store (.set key (.ofText (self.pem n)) true)) ∧ Revoked v.1.store.state n

/-- Call `i` is a `cut` of the key that has revoked the certificate of the
    cached pair, and still has to delete the pair. -/
def HalfDone (self : CertRequest) (K : Holding B) (c : System B ι) (i : ι) (key : Str) : Prop :=
  ∃ parsed done rest n, parsed.key = key ∧ c.procs i = revoking parsed (done ++ rest) rest
    ∧ n ∈ done.map FoundCert.serialNumber ∧ Cached self K c.store.state key n

/-- The next operation of the call raises. -/
def Raises (c : System B ι) (i : ι) : Prop :=
  ∃ o e, (c.procs i).nextOp = some o ∧ (operation o c.store).1 = .error e

omit [DecidableEq ι] in
theorem not_raises {c : System B ι} {i : ι} {o : CertOp} {a : o.Ans}
    (hop : (c.procs i).nextOp = some o) (hok : (operation o c.store).1 = .ok a) :
    ¬ Raises c i := by
  rintro ⟨o', e, hop', hraise⟩
  obtain rfl := Option.some.inj (hop.symm.trans hop')
  cases hok.symm.trans hraise

/-- A `cut` fails half done. -/
def StopsHalfDone (self : CertRequest) (K : Holding B) (v : System B ι × ι) : Prop :=
  Raises v.1 v.2 ∧ ∃ key, HalfDone self K v.1 v.2 key

/-- A call looks into the cache while a `cut` of the key is half done. -/
def ReadsHalfDone (self : CertRequest) (K : Holding B) (v : System B ι × ι) : Prop :=
  ∃ key, (v.1.procs v.2).nextOp = some (.store (.get key)) ∧ ∃ i, HalfDone self K v.1 i key

/-! ## After a revocation -/

/-- The call has revoked the certificate and is still to delete the pair. -/
def Pending (n : Nat) : Place → Prop
  | .revoking _ found rest => ∃ done, found = done ++ rest ∧ n ∈ done.map FoundCert.serialNumber
  | .reading _ => False
  | .requesting _ => False
  | .caching _ _ => False
  | .finding _ => False
  | .ended _ => False

/-- The pair of the certificate is cached nowhere. -/
def NotCached (self : CertRequest) (K : Holding B) (w : CertWorld B) (n : Nat) : Prop :=
  ∀ parsed, Parsed self parsed → ¬ Cached self K w parsed.key n

/-- The call will not return the pair, unless it still has to look for it. -/
def Innocent (self : CertRequest) (n : Nat) : Place → Prop
  | .caching _ serial => serial ≠ n
  | .ended x => x ≠ .ok (.pair (.text (self.pem n)))
  | .reading _ => True
  | .requesting _ => True
  | .finding _ => True
  | .revoking _ _ _ => True

variable {c : System B ι} {places : ι → Place} {i j : ι} {place : Place} {w : World B} {n : Nat}

omit [DecidableEq ι] in
/-- A pair that is cached nowhere is not cached again. -/
theorem notCached_move (hd : Distinct self) (h : Tracks self K c places)
    (hmove : Moves self (places i) c.store place w) (hrevoked : Revoked c.store.state n)
    (hgood : ¬ CachesRevoked self (c, i)) (hno : NotCached self K c.store.state n) :
    NotCached self K w.state n := by
  intro parsed hparsed hcached
  rcases moves_cached hd hmove hcached with hold | ⟨parsed', hplace, hkey, hserved⟩
  · exact hno parsed hparsed hold
  · refine hgood ⟨hserved, parsed'.key, n, ?_, hrevoked⟩
    show (c.procs i).nextOp = _
    rw [congrFun h.procs i, hplace]
    rfl

omit [DecidableEq ι] in
/-- The cut that revokes a certificate is that of its only key. -/
theorem notCached_of_key (hd : Distinct self) (h : Tracks self K c places) {parsed : ParsedKey}
    (hparsed : Parsed self parsed) (hissued : Issued c.store.state n parsed.principal)
    (hno : ¬ Cached self K c.store.state parsed.key n) : NotCached self K c.store.state n := by
  intro parsed' hparsed' hcached
  have hprincipal := hissued.principal_eq (h.rows hparsed' hcached)
  obtain rfl := hparsed.eq_of_principal hd hparsed' hprincipal
  exact hno hcached

theorem pending_place {place : Place} (h : Pending n place) :
    ∃ parsed done rest, place = .revoking parsed (done ++ rest) rest
      ∧ n ∈ done.map FoundCert.serialNumber := by
  cases place with
  | revoking parsed found rest =>
      obtain ⟨done, rfl, hn⟩ := h
      exact ⟨parsed, done, rest, rfl, hn⟩
  | reading parsed => exact absurd h (fun h => h)
  | requesting parsed => exact absurd h (fun h => h)
  | caching parsed serial => exact absurd h (fun h => h)
  | finding parsed => exact absurd h (fun h => h)
  | ended x => exact absurd h (fun h => h)

omit [DecidableEq ι] in
/-- A fault stops a `cut` wherever it is. -/
theorem raises_of_fault {parsed : ParsedKey} {found rest : List FoundCert} {f : Fault}
    (hprog : c.procs i = revoking parsed found rest) (hf : c.store.next = some f) :
    Raises c i := by
  cases rest with
  | nil =>
      refine ⟨.store (.cut parsed.key), failure f, by rw [hprog]; rfl, ?_⟩
      rw [operation, execFaulty_fails hf]
  | cons cert rest =>
      refine ⟨.ipa (.certRevoke cert.serialNumber), failure f, by rw [hprog]; rfl, ?_⟩
      rw [operation, execFaulty_fails hf]

/-- **A revoked pair is on its way out**: the cut that has revoked it is still
    to delete it, or it is cached nowhere. -/
theorem pending_move (hd : Distinct self) (h : Tracks self K c places)
    (hmove : Moves self (places j) c.store place w) (hrevoked : Revoked c.store.state n)
    (hcaches : ¬ CachesRevoked self (c, j)) (hstops : ¬ StopsHalfDone self K (c, j))
    (hi : Pending n (places i) ∨ NotCached self K c.store.state n) :
    Pending n (Function.update places j place i) ∨ NotCached self K w.state n := by
  rcases hi with hi | hno
  · by_cases hij : i = j
    · subst hij
      rw [Function.update_self]
      obtain ⟨parsed, done, rest, hplace, hn⟩ := pending_place hi
      have hprog : c.procs i = revoking parsed (done ++ rest) rest := by
        rw [congrFun h.procs i, hplace]
        rfl
      obtain ⟨hparsed, -, hissued⟩ : Knows self c.store.state (.revoking parsed (done ++ rest) rest)
        := hplace ▸ h.knows i
      obtain ⟨cert, hcert, rfl⟩ := List.mem_map.mp hn
      have hthis := hissued cert (List.mem_append_left rest hcert)
      rw [hplace] at hmove
      cases hmove with
      | fails _ running _ f fault e =>
          -- not while its own pair is cached
          refine Or.inr (notCached_of_key hd h hparsed hthis (fun hcached => hstops ?_))
          exact ⟨raises_of_fault hprog fault, parsed.key, parsed, done, rest, _, rfl, hprog, hn,
            hcached⟩
      | revokes _ _ next rest _ =>
          refine Or.inl ⟨done ++ [next], by rw [List.append_assoc]; rfl, ?_⟩
          rw [List.map_append]
          exact List.mem_append_left _ hn
      | unknown _ _ next rest _ e missing =>
          obtain ⟨revoked, hnext⟩ := hissued next (by simp)
          refine absurd (AList.lookup_isSome.mp ?_) missing
          rw [hnext]
          rfl
      | deletes _ _ _ deleted hdeleted result =>
          refine Or.inr (fun parsed' hparsed' hcached => ?_)
          have hprincipal := hthis.principal_eq (h.rows hparsed' (K.cut_keeps hcached))
          obtain rfl := hparsed.eq_of_principal hd hparsed' hprincipal
          cases (K.cut_gone hdeleted).symm.trans hcached
      | undeleted _ _ _ served e raised =>
          refine Or.inr (fun parsed' hparsed' hcached => ?_)
          refine notCached_of_key hd h hparsed hthis (fun hcached => hstops ?_) parsed' hparsed'
            (K.cut_keeps hcached)
          refine ⟨⟨.store (.cut parsed.key), e, by rw [hprog]; rfl, ?_⟩, parsed.key, parsed, done,
            [], _, rfl, hprog, hn, hcached⟩
          rw [operation, execFaulty_serves served]
          exact raised
    · rw [Function.update_of_ne hij]
      exact Or.inl hi
  · exact Or.inr (notCached_move hd h hmove hrevoked hcaches hno)

/-- **A call that does not find the pair in the cache** does not come to return
    it: a new certificate is another one. -/
theorem innocent_move (hd : Distinct self) {place place' : Place} {w w' : World B}
    (hmove : Moves self place w place' w') (hissued : Revoked w.state n)
    (hread : ∀ parsed, place = .reading parsed → ¬ Cached self K w.state parsed.key n)
    (h : Innocent self n place) : Innocent self n place' := by
  cases hmove with
  | rests x _ => exact h
  | fails _ running _ f fault e =>
      intro hpair
      cases hpair
  | hits parsed _ value got found =>
      intro hpair
      refine hread parsed rfl ?_
      obtain rfl := Reply.pair.inj (Except.ok.inj hpair)
      exact K.get_held got found
  | misses parsed _ => trivial
  | unread parsed _ e =>
      intro hpair
      cases hpair
  | requests parsed _ =>
      obtain ⟨principal, hn⟩ := hissued
      rintro rfl
      refine nextSerial_not_mem w.state.certs (AList.lookup_isSome.mp ?_)
      rw [hn]
      rfl
  | caches parsed serial _ served x result =>
      intro hpair
      exact h (hd.pem (SqlValue.text.inj (Reply.pair.inj (result _ hpair).symm)))
  | finds parsed _ => trivial
  | revokes parsed found cert rest _ => trivial
  | unknown parsed found cert rest _ e missing =>
      intro hpair
      cases hpair
  | deletes parsed found _ deleted done result =>
      intro hpair
      cases hpair
  | undeleted parsed found _ served e raised =>
      intro hpair
      cases hpair

/-! ## Runs -/

/-- What every move keeps along a run holds at its end; the calls without a
    turn are where they were. -/
theorem run_places (hd : Distinct self) {I : System B ι → (ι → Place) → Prop}
    {Q : System B ι × ι → Prop}
    (hstep : ∀ {c : System B ι} {places : ι → Place} {j : ι} {place : Place} {w : World B},
      Tracks self K c places → I c places → ¬ Q (c, j) → Moves self (places j) c.store place w →
      step operation c j = ⟨fun k => (Function.update places j place k).prog self, w⟩ →
      I (step operation c j) (Function.update places j place)) :
    ∀ (s : List ι) {c : System B ι} {places : ι → Place}, Tracks self K c places → I c places →
      (∀ v ∈ visits operation c s, ¬ Q v) →
      ∃ places', Tracks self K (runSched operation c s) places'
        ∧ I (runSched operation c s) places' ∧ ∀ k ∉ s, places' k = places k := by
  intro s
  induction s with
  | nil => exact fun h hI _ => ⟨_, h, hI, fun _ _ => rfl⟩
  | cons i s ih =>
      intro c places h hI hgood
      obtain ⟨place, w, hmove, hturn, htracks⟩ := tracks_step hd h i
      have hI' := hstep h hI (hgood (c, i) List.mem_cons_self) hmove hturn
      obtain ⟨places', htracks', hI'', hsame⟩ := ih htracks hI'
        (fun v hv => hgood v (List.mem_cons_of_mem _ hv))
      refine ⟨places', htracks', hI'', fun k hk => ?_⟩
      rw [hsame k (fun hmem => hk (List.mem_cons_of_mem _ hmem))]
      exact Function.update_of_ne (List.ne_of_not_mem_cons hk) _ _

/-- Call `i` revokes the certificate in its turn. -/
def Revokes (c : System B ι) (i : ι) (n : Nat) : Prop :=
  c.store.next = none ∧ (c.procs i).nextOp = some (.ipa (.certRevoke n))

omit [DecidableEq ι] in
/-- The turn of a call that revokes a certificate. -/
theorem revokes_place (h : Tracks self K c places) (hturn : Revokes c i n) :
    ∃ parsed found cert rest, places i = .revoking parsed found (cert :: rest)
      ∧ cert.serialNumber = n := by
  obtain ⟨-, hop⟩ := hturn
  rw [congrFun h.procs i] at hop
  cases hplace : places i with
  | revoking parsed found rest =>
      rw [hplace] at hop
      cases rest with
      | nil => cases hop
      | cons cert rest =>
          have hserial := CertCommand.certRevoke.inj (CertOp.ipa.inj (Option.some.inj hop))
          exact ⟨parsed, found, cert, rest, rfl, hserial⟩
  | reading parsed => rw [hplace] at hop; cases hop
  | requesting parsed => rw [hplace] at hop; cases hop
  | caching parsed serial => rw [hplace] at hop; cases hop
  | finding parsed => rw [hplace] at hop; cases hop
  | ended x =>
      rw [hplace] at hop
      cases x with
      | ok reply => cases hop
      | error e => cases hop

/-- After that turn the certificate is revoked, and its pair on its way out. -/
theorem revokes_step (hd : Distinct self) (h : Tracks self K c places) (hturn : Revokes c i n) :
    ∃ places', Tracks self K (step operation c i) places'
      ∧ Revoked (step operation c i).store.state n ∧ Pending n (places' i)
      ∧ ∀ k, k ≠ i → places' k = places k := by
  obtain ⟨parsed, found, cert, rest, hplace, rfl⟩ := revokes_place h hturn
  obtain ⟨place, w, hmove, hstep, htracks⟩ := tracks_step hd h i
  obtain ⟨-, ⟨done, hfound⟩, hissued⟩ : Knows self c.store.state
    (.revoking parsed found (cert :: rest)) := hplace ▸ h.knows i
  have hmem : cert ∈ found := by
    rw [hfound]
    exact List.mem_append_right done List.mem_cons_self
  obtain ⟨revoked, hcert⟩ := hissued cert hmem
  have hafter : Revoked w.state cert.serialNumber ∧ Pending cert.serialNumber place := by
    rw [hplace] at hmove
    cases hmove with
    | fails _ running _ f fault e => cases hturn.1.symm.trans fault
    | revokes _ _ _ _ _ =>
        refine ⟨⟨parsed.principal, ?_⟩, done ++ [cert], by rw [hfound, List.append_assoc]; rfl, ?_⟩
        · show (certServe _ _).2.lookup _ = _
          rw [certRevoke_lookup, hcert]
          simp
        · rw [List.map_append]
          exact List.mem_append_right _ List.mem_cons_self
    | unknown _ _ _ _ _ e missing =>
        refine absurd (AList.lookup_isSome.mp ?_) missing
        rw [hcert]
        rfl
  refine ⟨_, htracks, ?_, ?_, fun k hk => Function.update_of_ne hk _ _⟩
  · rw [hstep]
    exact hafter.1
  · rw [Function.update_self]
    exact hafter.2

/-! ## Calls that start after a revocation -/

/-- What a run knows of a certificate that call `i` has revoked. -/
def Leaving (self : CertRequest) (K : Holding B) (i : ι) (n : Nat) (c : System B ι)
    (places : ι → Place) : Prop :=
  Revoked c.store.state n ∧ (Pending n (places i) ∨ NotCached self K c.store.state n)

theorem leaving_step (hd : Distinct self) (h : Tracks self K c places)
    (hmove : Moves self (places j) c.store place w)
    (hstep : step operation c j = ⟨fun k => (Function.update places j place k).prog self, w⟩)
    (hcaches : ¬ CachesRevoked self (c, j)) (hstops : ¬ StopsHalfDone self K (c, j))
    (hi : Leaving self K i n c places) :
    Leaving self K i n (step operation c j) (Function.update places j place) := by
  rw [hstep]
  exact ⟨(moves_certs hmove).2 hi.1, pending_move hd h hmove hi.1 hcaches hstops hi.2⟩

omit [DecidableEq ι] in
/-- Whoever looks into the cache does not find the pair, unless the cut is half
    done. -/
theorem leaving_read (hd : Distinct self) (h : Tracks self K c places)
    (hi : Leaving self K i n c places) {parsed : ParsedKey} (hplace : places j = .reading parsed)
    (hreads : ¬ ReadsHalfDone self K (c, j)) : ¬ Cached self K c.store.state parsed.key n := by
  intro hcached
  have hparsed : Parsed self parsed := (hplace ▸ h.knows j : Knows self c.store.state (.reading _))
  rcases hi.2 with hpending | hno
  · obtain ⟨parsed', done, rest, hi', hn⟩ := pending_place hpending
    obtain ⟨hparsed', -, hissued⟩ : Knows self c.store.state
      (.revoking parsed' (done ++ rest) rest) := hi' ▸ h.knows i
    obtain ⟨cert, hcert, rfl⟩ := List.mem_map.mp hn
    have hprincipal := (hissued cert (List.mem_append_left rest hcert)).principal_eq
      (h.rows hparsed hcached)
    obtain rfl := hparsed'.eq_of_principal hd hparsed hprincipal
    refine hreads ⟨parsed'.key, ?_, i, parsed', done, rest, _, rfl, ?_, hn, hcached⟩
    · show (c.procs j).nextOp = _
      rw [congrFun h.procs j, hplace]
      rfl
    · show c.procs i = _
      rw [congrFun h.procs i, hi']
      rfl
  · exact hno parsed hparsed hcached

theorem innocent_step (hd : Distinct self) {k : ι}
    (hmove : Moves self (places k) c.store place w) (hrevoked : Revoked c.store.state n)
    (hread : ∀ parsed, places k = .reading parsed → ¬ Cached self K c.store.state parsed.key n)
    (hj : Innocent self n (places j)) :
    Innocent self n (Function.update places k place j) := by
  by_cases hjk : j = k
  · subst hjk
    rw [Function.update_self]
    exact innocent_move hd hmove hrevoked hread hj
  · rw [Function.update_of_ne hjk]
    exact hj

/-- A `get` that has not started has its pair still to look for. -/
theorem innocent_start {key : Str} {call : CertCall} (hcall : call = .get key) (n : Nat) :
    Innocent self n (call.place self) ∧ ¬ ∃ parsed found rest,
      call.place self = .revoking parsed found rest := by
  subst hcall
  rw [CertCall.place]
  cases parseKey self key with
  | ok parsed =>
      refine ⟨trivial, ?_⟩
      rintro ⟨_, _, _, h⟩
      cases h
  | error e =>
      refine ⟨fun h => ?_, ?_⟩
      · cases h
      · rintro ⟨_, _, _, h⟩
        cases h

/-- Call `j` returns the pair of the certificate. -/
def Serves (self : CertRequest) (c : System B ι) (j : ι) (n : Nat) : Prop :=
  (c.procs j).ended = some (.ok (.pair (.text (self.pem n))))

variable (self) in
/-- Once a `cut` that has revoked a certificate is over, completed or failed,
    no `get` that starts returns the pair. -/
def NotServedAfter (calls : ι → CertCall) (w : World B) (s : List ι) : Prop :=
  ∀ p i q r n, s = p ++ i :: q ++ r → Revokes (runSched operation (start self calls w) p) i n →
    ((runSched operation (start self calls w) (p ++ i :: q)).procs i).nextOp = none →
    ∀ j key, calls j = .get key → j ∉ p ++ i :: q →
      ¬ Serves self (runSched operation (start self calls w) s) j n

variable (self) in
/-- Once a `cut` has revoked a certificate, no `get` that starts returns the
    pair, even before the `cut` is over. -/
def NotServedSince (calls : ι → CertCall) (w : World B) (s : List ι) : Prop :=
  ∀ p i r n, s = p ++ i :: r → Revokes (runSched operation (start self calls w) p) i n →
    ∀ j key, calls j = .get key → j ∉ p →
      ¬ Serves self (runSched operation (start self calls w) s) j n

omit [DecidableEq ι] in
theorem not_serves_of_innocent (h : Tracks self K c places) (hj : Innocent self n (places j)) :
    ¬ Serves self c j n := by
  intro hserves
  rw [Serves, congrFun h.procs j] at hserves
  cases hplace : places j with
  | ended x =>
      rw [hplace] at hserves hj
      exact hj (Option.some.inj ((Prog.ended_ofExcept x).symm.trans hserves))
  | reading parsed => rw [hplace] at hserves; cases hserves
  | requesting parsed => rw [hplace] at hserves; cases hserves
  | caching parsed serial => rw [hplace] at hserves; cases hserves
  | finding parsed => rw [hplace] at hserves; cases hserves
  | revoking parsed found rest =>
      rw [hplace] at hserves
      cases rest with
      | nil => cases hserves
      | cons cert rest => cases hserves

/-- The turns of a part of a run are turns of the run. -/
theorem visits_parts {Q : System B ι × ι → Prop} {c₀ : System B ι} {p r : List ι} {i : ι}
    (h : ∀ v ∈ visits operation c₀ (p ++ i :: r), ¬ Q v) :
    ∀ v ∈ visits operation (step operation (runSched operation c₀ p) i) r, ¬ Q v := by
  intro v hv
  refine h v ?_
  rw [visits_append]
  exact List.mem_append_right _ (List.mem_cons_of_mem _ hv)

variable {calls : ι → CertCall} {s p q r : List ι}

/-- The turn that revokes, in a run from the start. -/
theorem revoked_at (hd : Distinct self) (hw : Sound self K w.state)
    (hturn : Revokes (runSched operation (start self calls w) p) i n) :
    ∃ places, Tracks self K (step operation (runSched operation (start self calls w) p) i) places
      ∧ Leaving self K i n (step operation (runSched operation (start self calls w) p) i) places
      ∧ ∀ k key, calls k = .get key → k ∉ p → k ≠ i ∧ places k = (calls k).place self := by
  obtain ⟨places, htracks, -, hstart⟩ := run_places hd (I := fun _ _ => True)
    (Q := fun _ => False) (fun _ _ _ _ _ => trivial) p (tracks_start hw calls) trivial
    (fun _ _ h => h)
  obtain ⟨places', htracks', hrevoked, hpending, hsame⟩ := revokes_step hd htracks hturn
  refine ⟨places', htracks', ⟨hrevoked, Or.inl hpending⟩, fun k key hk hnot => ?_⟩
  have hne : k ≠ i := by
    rintro rfl
    obtain ⟨parsed, found, cert, rest, hplace, -⟩ := revokes_place htracks hturn
    rw [hstart k hnot] at hplace
    exact (innocent_start hk n).2 ⟨_, _, _, hplace⟩
  exact ⟨hne, (hsame k hne).trans (hstart k hnot)⟩

/-- Even before the cut is over, the pair is not returned to a call that starts
    after the revocation, if none looks into the cache at the wrong time. -/
theorem not_served_since (hd : Distinct self) (hw : Sound self K w.state)
    (hgood : ∀ v ∈ visits operation (start self calls w) (p ++ i :: r),
      ¬ (CachesRevoked self v ∨ StopsHalfDone self K v ∨ ReadsHalfDone self K v))
    (hturn : Revokes (runSched operation (start self calls w) p) i n) {key : Str}
    (hcall : calls j = .get key) (hj : j ∉ p) :
    ¬ Serves self (runSched operation (start self calls w) (p ++ i :: r)) j n := by
  obtain ⟨places, htracks, hleaving, hplaces⟩ := revoked_at hd hw hturn
  have hinnocent : Innocent self n (places j) := by
    rw [(hplaces j key hcall hj).2]
    exact (innocent_start hcall n).1
  obtain ⟨places', htracks', ⟨-, hend⟩, -⟩ := run_places hd
    (I := fun c places => Leaving self K i n c places ∧ Innocent self n (places j))
    (fun {c places k place w} h hI hno hmove hstep => by
      rw [not_or, not_or] at hno
      exact ⟨leaving_step hd h hmove hstep hno.1 hno.2.1 hI.1, innocent_step hd hmove hI.1.1
        (fun parsed hplace => leaving_read hd h hI.1 hplace hno.2.2) hI.2⟩)
    r htracks ⟨hleaving, hinnocent⟩ (visits_parts hgood)
  rw [runSched_append]
  exact not_serves_of_innocent htracks' hend

omit [DecidableEq ι] in
/-- A cut that is over has nothing left to delete. -/
theorem Leaving.notCached (h : Tracks self K c places) (hi : Leaving self K i n c places)
    (hover : (c.procs i).nextOp = none) : NotCached self K c.store.state n := by
  refine hi.2.resolve_left (fun hpending => ?_)
  obtain ⟨parsed, done, rest, hplace, -⟩ := pending_place hpending
  rw [congrFun h.procs i, hplace] at hover
  cases rest with
  | nil => cases hover
  | cons cert rest => cases hover

/-- While the pair is cached nowhere, no call comes to return it. -/
theorem innocent_run (hd : Distinct self) (h : Tracks self K c places)
    (hrevoked : Revoked c.store.state n) (hno : NotCached self K c.store.state n)
    (hj : Innocent self n (places j)) (hgood : ∀ v ∈ visits operation c r, ¬ CachesRevoked self v) :
    ∃ places', Tracks self K (runSched operation c r) places' ∧ Innocent self n (places' j) := by
  obtain ⟨places', htracks, ⟨-, -, hend⟩, -⟩ := run_places hd
    (I := fun c places => Revoked c.store.state n ∧ NotCached self K c.store.state n
      ∧ Innocent self n (places j))
    (fun {c places k place w} h hI hgood hmove hstep => by
      have hread : ∀ parsed, places k = .reading parsed →
          ¬ Cached self K c.store.state parsed.key n := by
        intro parsed hplace
        have hknows := h.knows k
        rw [hplace] at hknows
        exact hI.2.1 parsed hknows
      have hnot := notCached_move hd h hmove hI.1 hgood hI.2.1
      have hkeep := innocent_step hd hmove hI.1 hread hI.2.2
      rw [hstep]
      exact ⟨(moves_certs hmove).2 hI.1, hnot, hkeep⟩)
    r h ⟨hrevoked, hno, hj⟩ hgood
  exact ⟨places', htracks, hend⟩

/-- After the cut is over, the pair is not returned to a call that starts. -/
theorem not_served_after (hd : Distinct self) (hw : Sound self K w.state)
    (hgood : ∀ v ∈ visits operation (start self calls w) (p ++ i :: q ++ r),
      ¬ (CachesRevoked self v ∨ StopsHalfDone self K v))
    (hturn : Revokes (runSched operation (start self calls w) p) i n)
    (hover : ((runSched operation (start self calls w) (p ++ i :: q)).procs i).nextOp = none)
    {key : Str} (hcall : calls j = .get key) (hj : j ∉ p ++ i :: q) :
    ¬ Serves self (runSched operation (start self calls w) (p ++ i :: q ++ r)) j n := by
  rw [visits_append] at hgood
  rw [runSched_append]
  obtain ⟨places, htracks, hleaving, hplaces⟩ := revoked_at hd hw hturn
  have hjp : j ∉ p := fun hmem => hj (List.mem_append_left _ hmem)
  have hjq : j ∉ q := fun hmem => hj (List.mem_append_right _ (List.mem_cons_of_mem _ hmem))
  -- until the cut is over
  obtain ⟨places', htracks', hleft, hsame⟩ := run_places hd (I := Leaving self K i n)
    (fun {c places k place w} h hI hno hmove hstep => by
      rw [not_or] at hno
      exact leaving_step hd h hmove hstep hno.1 hno.2 hI)
    q htracks hleaving (visits_parts (fun v hv => hgood v (List.mem_append_left _ hv)))
  have hrun : runSched operation (step operation (runSched operation (start self calls w) p) i) q
      = runSched operation (start self calls w) (p ++ i :: q) := by
    rw [runSched_append]
    rfl
  rw [hrun] at htracks' hleft
  have hinnocent : Innocent self n (places' j) := by
    rw [hsame j hjq, (hplaces j key hcall hjp).2]
    exact (innocent_start hcall n).1
  -- and afterwards
  obtain ⟨places'', htracks'', hend⟩ := innocent_run hd htracks' hleft.1
    (hleft.notCached htracks' hover) hinnocent
    (fun v hv => (not_or.mp (hgood v (List.mem_append_right _ hv))).1)
  exact not_serves_of_innocent htracks'' hend

/-- **HEADLINE — the runs in which no revoked pair is served**: no call caches
    the pair of a certificate that has been revoked, and no `cut` fails half
    done. Before the `cut` is over this needs that no call looks into the cache
    while it is half done. -/
theorem revoked_not_served (hd : Distinct self) {w : World B} (hw : Sound self K w.state)
    (calls : ι → CertCall) (s : List ι)
    (hgood : ∀ v ∈ visits operation (start self calls w) s,
      ¬ CachesRevoked self v ∧ ¬ StopsHalfDone self K v) :
    NotServedAfter self calls w s
    ∧ ((∀ v ∈ visits operation (start self calls w) s, ¬ ReadsHalfDone self K v) →
      NotServedSince self calls w s) := by
  constructor
  · rintro p i q r n rfl hturn hover j key hcall hj
    exact not_served_after hd hw (fun v hv => not_or.mpr (hgood v hv)) hturn hover hcall hj
  · rintro hreads p i r n rfl hturn j key hcall hj
    refine not_served_since hd hw (fun v hv => ?_) hturn hcall hj
    exact not_or.mpr ⟨(hgood v hv).1, not_or.mpr ⟨(hgood v hv).2, hreads v hv⟩⟩

/-! ## Runs that serve a revoked pair, and one that does not -/

theorem httpCerts_distinct : Distinct httpCerts := by
  refine ⟨fun m n h => ?_, fun {service hostname service' hostname'} hs hh hs' hh' h => ?_⟩
  · have hdigits : Nat.toDigits 10 m = Nat.toDigits 10 n := List.append_cancel_left h
    rw [← Nat.ofDigitChars_ten_toDigits (n := m), hdigits, Nat.ofDigitChars_ten_toDigits]
  · have hnames : cachedKey service hostname = cachedKey service' hostname' := by
      have hcut := List.append_cancel_right h
      show ("cert/" : Str) ++ service ++ ("/" : Str) ++ hostname
        = ("cert/" : Str) ++ service' ++ ("/" : Str) ++ hostname'
      simp only [List.append_assoc] at hcut ⊢
      rw [hcut]
    exact cachedKey_inj hs hh hs' hh' hnames

/-- The keys of a host are read, except by call `1`, which deletes them. -/
def hostCalls (i : ℕ) : CertCall :=
  if i = 1 then .cut "keys/HTTP/h" else .get "keys/HTTP/h"

/-- Nothing is issued or cached, and nothing fails. -/
def nothingIssued : World sqliteBacking := ⟨⟨∅, ∅⟩, []⟩

/-- A pair is cached, and the operations fail as listed. -/
def onePair (faults : List (Option Fault)) : World sqliteBacking :=
  ⟨⟨(∅ : Certs).insert 1 ⟨"HTTP/h@REALM", false⟩,
    (∅ : Table).insert "cert/HTTP/h" (.text "Serial Number: 1")⟩, faults⟩

/-- A pair is cached after its certificate was revoked, or stays when the
    deletion fails, and the next call returns it. -/
theorem revoked_served :
    ¬ NotServedAfter httpCerts hostCalls nothingIssued [0, 0, 1, 1, 1, 0, 2]
    ∧ ¬ NotServedAfter httpCerts hostCalls
        (onePair [none, none, some ⟨.csStoreError, "disk full"⟩]) [1, 1, 1, 0] := by
  constructor
  · intro h
    exact h [0, 0, 1] 1 [1] [0, 2] 1 rfl ⟨rfl, rfl⟩ rfl 2 _ rfl (by decide) rfl
  · intro h
    exact h [1] 1 [1] [0] 1 rfl ⟨rfl, rfl⟩ rfl 0 _ rfl (by decide) rfl

/-- Nothing but the pair of certificate `1` is cached, under the key of its host. -/
theorem onePair_sound (faults : List (Option Fault)) :
    Sound httpCerts sqliteHolding (onePair faults).state := by
  rintro parsed n ⟨key, hparsed⟩ hcached
  obtain ⟨service, hostname, hs, hh, -, -, rfl⟩ := parseKey_ok hparsed
  have hrow : (onePair faults).state.store.lookup (cachedKey service hostname)
      = some (.text (httpCerts.pem n)) := hcached
  by_cases hkey : cachedKey service hostname = cachedKey "HTTP" "h"
  · obtain ⟨rfl, rfl⟩ := cachedKey_inj hs hh (by decide) (by decide) hkey
    have hpem := SqlValue.text.inj (Option.some.inj ((AList.lookup_insert _).symm.trans hrow))
    obtain rfl : 1 = n := httpCerts_distinct.pem hpem
    exact ⟨false, rfl⟩
  · have hnone := (AList.lookup_insert_ne hkey).symm.trans hrow
    cases hnone

/-- A `cut` that is carried out, and a `get` that starts after it. -/
theorem revoked_not_served_cut :
    Distinct httpCerts ∧ Sound httpCerts sqliteHolding (onePair []).state
    ∧ NotServedAfter httpCerts hostCalls (onePair []) [1, 1, 1, 0]
    ∧ NotServedSince httpCerts hostCalls (onePair []) [1, 1, 1, 0] := by
  have hcuts : ∀ v ∈ visits operation (start httpCerts hostCalls (onePair [])) [1, 1, 1, 0],
      ¬ Raises v.1 v.2
      ∧ (∀ key value replace, (v.1.procs v.2).nextOp ≠ some (.store (.set key value replace)))
      ∧ ∀ key, (v.1.procs v.2).nextOp = some (.store (.get key)) →
        v.1.store.state.store.lookup key = none := by
    intro v hv
    simp only [visits, List.mem_cons, List.not_mem_nil, or_false] at hv
    rcases hv with rfl | rfl | rfl | rfl
    · refine ⟨not_raises rfl rfl, fun key value replace h => ?_, fun key h => ?_⟩ <;> cases h
    · refine ⟨not_raises rfl rfl, fun key value replace h => ?_, fun key h => ?_⟩ <;> cases h
    · refine ⟨not_raises rfl rfl, fun key value replace h => ?_, fun key h => ?_⟩ <;> cases h
    · refine ⟨not_raises rfl rfl, fun key value replace h => ?_, fun key h => ?_⟩
      · cases h
      · rfl
  have h := revoked_not_served httpCerts_distinct (onePair_sound []) hostCalls [1, 1, 1, 0]
    (fun v hv => by
      obtain ⟨hserved, hset, -⟩ := hcuts v hv
      refine ⟨?_, fun hstops => hserved hstops.1⟩
      rintro ⟨-, key, n, hop, -⟩
      exact hset _ _ _ hop)
  refine ⟨httpCerts_distinct, onePair_sound [], h.1, h.2 (fun v hv => ?_)⟩
  rintro ⟨key, hop, i, _, _, _, n, -, -, -, hcached⟩
  cases ((hcuts v hv).2.2 key hop).symm.trans hcached

end CertProofs
