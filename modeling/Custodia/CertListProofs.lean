import Custodia.ListingProofs
import Custodia.CertRuns

/-! # CertListProofs — the keys that a certificate store lists

    `get`, `set`, `span` and `cut` of `IPACertRequest` translate `keys/S/h` to
    `cert/S/h` before they reach the backing store. `list` passes its filter
    on as it is, and so looks where nothing is ever stored.

    * `keyed_history`: a history of calls leaves translated keys only;
    * `listing_foreign`: a listing of `keys/S/` then finds nothing;
    * `lists_iff`: the listing is right exactly if there is nothing to list. -/

namespace CertListProofs

open Interaction SeparatedNames PosixPath PyValues SqliteStore FaultyService IpaCertRequest
open CertRuns ListingProofs

/-! ## The calls -/

/-- The calls that access one key, and may leave a row of it in the backing
    store, or take it away. -/
inductive Access where
  | get (key : Str)
  | set (key : Str) (value : Json) (replace : Bool)
  | cut (key : Str)

namespace Access

/-- What the method returns. -/
@[reducible] def Ans : Access → Type
  | get _ => SqlValue
  | set _ _ _ => Unit
  | cut _ => CutResult

/-- The program of a call. -/
def prog (self : CertRequest) : (call : Access) → CertProg call.Ans
  | get key => IpaCertRequest.get self key
  | set key value replace => IpaCertRequest.set self key value replace
  | cut key => IpaCertRequest.cut self key

end Access

/-- The server and the table, whose next operations fail as listed. -/
abbrev TableWorld := World sqliteBacking

/-- The world after a history of calls. -/
def after (self : CertRequest) (calls : List Access) (w : TableWorld) : TableWorld :=
  calls.foldl (fun w call => ((call.prog self).run operation w).2) w

/-- `'keys/S/'`. -/
def serviceFilter (service : Str) : Str := requestKey service []

/-- A pair is cached for `keys/S/h`. -/
def CachedFor (self : CertRequest) (t : Table) (service hostname : Str) : Prop :=
  ∃ parsed v, parseKey self (requestKey service hostname) = .ok parsed
    ∧ t.lookup parsed.key = some v ∧ v ≠ .null

/-- The pair of an allowed service is cached under the translated key. -/
theorem cachedFor_iff {self : CertRequest} {t : Table} {service hostname : Str}
    (hservice : slash ∉ service) (hhost : slash ∉ hostname)
    (hallowed : service ∈ self.allowedServices) : CachedFor self t service hostname
      ↔ ∃ v, t.lookup (cachedKey service hostname) = some v ∧ v ≠ .null := by
  have hparse := parseKey_requestKey hservice hhost hallowed
  constructor
  · rintro ⟨parsed, v, hparsed, hrow, hv⟩
    obtain rfl := Except.ok.inj (hparse.symm.trans hparsed)
    exact ⟨v, hrow, hv⟩
  · rintro ⟨v, hrow, hv⟩
    exact ⟨_, v, hparse, hrow, hv⟩

/-- The listing of a service names the hosts for which a pair is cached. -/
def ListsCached (self : CertRequest) (w : CertWorld sqliteBacking) (service : Str) : Prop :=
  ∃ listed, ((IpaCertRequest.list (serviceFilter service)).run
      (IpaCertRequest.exec sqliteBacking) w).1 = .ok listed
    ∧ ∀ hostname, hostname ∈ listed.getD [] ↔ CachedFor self w.store service hostname

variable {self : CertRequest}

/-! ## Translated keys -/

/-- Every row of the table is that of a translated key. -/
def Keyed (t : Table) : Prop := ∀ key ∈ t, ∃ service hostname, key = cachedKey service hostname

/-- Commands of the server, and calls on the backing store that read or write
    under a translated key. -/
def Translated : CertOp → Prop
  | .store (.list _) => False
  | .store (.span _) => False
  | .store c => ∃ service hostname, c.key = cachedKey service hostname
  | .ipa _ => True

/-- What is there after a `set` is its key, or was there before. -/
theorem mem_of_mem_set {key other : Str} {value : Json} {replace : Bool} {t : Table}
    (h : other ∈ (SqliteStore.exec (.set key value replace) t).2) : other = key ∨ other ∈ t := by
  cases hslash : endsInSlash key with
  | true =>
      obtain ⟨e, he, -⟩ := exec_set_slash hslash value replace t
      rw [he] at h
      exact Or.inr h
  | false =>
      cases hb : bindValue setErrorText value with
      | error e =>
          rw [exec_set_unbound hslash hb] at h
          exact Or.inr h
      | ok v =>
          by_cases hmem : replace = false ∧ key ∈ t
          · rw [hmem.1, exec_set_mem hslash hb hmem.2] at h
            exact Or.inr h
          · rw [exec_set_done hslash hb hmem] at h
            exact (AList.mem_insert t).mp h

/-- In an empty store all keys are those of cached pairs. -/
theorem keyed_empty : Keyed ∅ := fun key hkey => absurd hkey (AList.notMem_empty key)

/-- **Operations under translated keys keep the table keyed.** -/
theorem keyed_step {o : CertOp} (ho : Translated o) {w : TableWorld} (h : Keyed w.state.store) :
    Keyed (operation o w).2.state.store := by
  refine execFaulty_invariant (I := fun w : CertWorld sqliteBacking => Keyed w.store)
    (fun h => ?_) h
  cases o with
  | ipa o => exact h
  | store c =>
      cases c with
      | get key => exact h
      | list keyfilter => exact absurd ho id
      | span key => exact absurd ho id
      | set key value replace =>
          intro other hother
          rcases mem_of_mem_set hother with rfl | hmem
          · exact ho
          · exact h other hmem
      | cut key =>
          intro other hother
          refine h other ?_
          have hrow := AList.lookup_isSome.mpr hother
          by_cases heq : other = key
          · subst heq
            exact absurd hother (exec_cut_gone other w.state.store)
          · have hcut :
                ((IpaCertRequest.exec sqliteBacking (.store (.cut key)) w.state).2.store).lookup
                  other = _ := exec_cut_lookup key other w.state.store
            rw [hcut, if_neg heq] at hrow
            exact AList.lookup_isSome.mp hrow

/-- A key that can be parsed is kept under the key of a cached pair. -/
theorem translated_parsed {key : Str} {parsed : ParsedKey} (h : parseKey self key = .ok parsed) :
    ∃ service hostname, parsed.key = cachedKey service hostname := by
  obtain ⟨service, hostname, -, -, -, -, rfl⟩ := parseKey_ok h
  exact ⟨service, hostname, rfl⟩

/-- A program that parses its key first issues what it issues with the parsed
    one. -/
theorem onlyIssues_parsed {α : Type} {key : Str} {f : ParsedKey → CertProg α}
    (h : ∀ parsed, (∃ service hostname, parsed.key = cachedKey service hostname) →
      (f parsed).OnlyIssues Translated) :
    ((Prog.ofExcept (parseKey self key) : CertProg ParsedKey).bind f).OnlyIssues Translated := by
  cases hparsed : parseKey self key with
  | error e => trivial
  | ok parsed => exact h parsed (translated_parsed hparsed)

/-- Revoking certificates issues no call of the backing store. -/
theorem onlyIssues_revokeEach (certs : List FoundCert) :
    (revokeEach (fun o => Prog.perform (CertOp.ipa o)) certs : CertProg Unit).OnlyIssues
      Translated := by
  induction certs with
  | nil => trivial
  | cons cert certs ih =>
      exact Prog.onlyIssues_bind (Prog.onlyIssues_perform trivial) (fun _ => ih)

/-- **Every access goes through the translation.** -/
theorem onlyIssues_access (call : Access) : (call.prog self).OnlyIssues Translated := by
  cases call with
  | get key =>
      refine onlyIssues_parsed (fun parsed hkey => ?_)
      refine Prog.onlyIssues_bind (Prog.onlyIssues_perform hkey) (fun value => ?_)
      by_cases hvalue : value ≠ .null
      · rw [if_pos hvalue]
        trivial
      · rw [if_neg hvalue]
        refine Prog.onlyIssues_bind (Prog.onlyIssues_catching ?_ (fun e => trivial))
          (fun data => ?_)
        · exact Prog.onlyIssues_bind (Prog.onlyIssues_perform trivial) (fun serial => trivial)
        · exact Prog.onlyIssues_bind (Prog.onlyIssues_perform hkey) (fun _ => trivial)
  | set key value replace =>
      exact onlyIssues_parsed (fun parsed hkey => Prog.onlyIssues_perform hkey)
  | cut key =>
      refine onlyIssues_parsed (fun parsed hkey => ?_)
      refine Prog.onlyIssues_bind ?_ (fun certs => ?_)
      · refine Prog.onlyIssues_bind (Prog.onlyIssues_perform trivial) (fun result => ?_)
        exact Prog.onlyIssues_bind (onlyIssues_revokeEach _) (fun _ => trivial)
      · exact Prog.onlyIssues_bind (Prog.onlyIssues_perform hkey) (fun deleted => trivial)

/-- **A history of calls leaves translated keys only.** -/
theorem keyed_history (calls : List Access) {w : TableWorld} (h : Keyed w.state.store) :
    Keyed (after self calls w).state.store := by
  induction calls generalizing w with
  | nil => exact h
  | cons call calls ih =>
      refine ih ?_
      exact Prog.run_invariant operation (I := fun w : TableWorld => Keyed w.state.store)
        (fun o ho w h => keyed_step ho h) (onlyIssues_access call) h

/-! ## The listing -/

/-- The listed path starts as the filter does. -/
theorem head?_rstrip_serviceFilter (service : Str) :
    (rstrip (serviceFilter service)).head? = some 'k' := by
  have hhead : (serviceFilter service).head? = some 'k' := rfl
  obtain ⟨n, hn⟩ := trimRight_append slash (serviceFilter service)
  cases hpath : rstrip (serviceFilter service) with
  | nil =>
      rw [show trimRight slash (serviceFilter service) = [] from hpath, List.nil_append] at hn
      rw [hn] at hhead
      exact absurd (List.eq_of_mem_replicate (List.mem_of_mem_head? hhead)) (by decide)
  | cons x path =>
      rw [show trimRight slash (serviceFilter service) = x :: path from hpath] at hn
      rw [hn] at hhead
      exact hhead

/-- **A listing of requested keys finds nothing**, among translated keys. -/
theorem listing_foreign {t : Table} (h : Keyed t) {service : Str}
    (hshort : ¬ TooLong t (serviceFilter service)) :
    listing t (serviceFilter service) = .ok none := by
  have hforeign : ∀ key ∈ t, ¬ rstrip (serviceFilter service) <+: key := by
    intro key hkey hpre
    obtain ⟨service', hostname, rfl⟩ := h key hkey
    obtain ⟨rest, hrest⟩ := hpre
    have hhead := head?_rstrip_serviceFilter service
    cases hpath : rstrip (serviceFilter service) with
    | nil =>
        rw [hpath] at hhead
        cases hhead
    | cons x path =>
        rw [hpath] at hhead hrest
        obtain rfl := Option.some.inj hhead
        have hfirst := congrArg List.head? hrest
        exact absurd (Option.some.inj hfirst) (by decide)
  have hne : serviceFilter service ≠ [] := by
    intro hnil
    cases (congrArg List.head? hnil)
  rcases listing_cases t hne with ⟨hlong, -⟩ | ⟨-, ⟨key, hkey, -, -, hpre⟩, -⟩ |
    ⟨-, -, hparent, -⟩ | ⟨-, -, -, hlist⟩
  · exact absurd hlong hshort
  · exact absurd ((prefix_childPrefix _).trans hpre) (hforeign key hkey)
  · rcases hparent with hkey | hkey
    · exact absurd (List.prefix_refl _) (hforeign _ hkey)
    · exact absurd (prefix_childPrefix _) (hforeign _ hkey)
  · exact hlist

/-- Where all keys are those of cached pairs, a service is listed correctly
    exactly if it has none, and its filter can be searched for. -/
theorem lists_iff_of_keyed {w : CertWorld sqliteBacking} (h : Keyed w.store) (service : Str) :
    ListsCached self w service ↔ (∀ hostname, ¬ CachedFor self w.store service hostname)
      ∧ ¬ TooLong w.store (serviceFilter service) := by
  have hrun : ((IpaCertRequest.list (serviceFilter service)).run
      (IpaCertRequest.exec sqliteBacking) w).1 = listing w.store (serviceFilter service) := by
    rw [IpaCertRequest.list, Prog.run_perform]
    rfl
  rw [ListsCached, hrun]
  constructor
  · rintro ⟨listed, hlist, hmem⟩
    have hshort : ¬ TooLong w.store (serviceFilter service) := by
      intro hlong
      obtain ⟨text, herror⟩ := listing_tooLong hlong
      cases hlist.symm.trans herror
    obtain rfl := Except.ok.inj (hlist.symm.trans (listing_foreign h hshort))
    exact ⟨fun hostname hcached => List.not_mem_nil ((hmem hostname).mpr hcached), hshort⟩
  · rintro ⟨hnone, hshort⟩
    refine ⟨none, listing_foreign h hshort, fun hostname => ?_⟩
    exact iff_of_false List.not_mem_nil (hnone hostname)

/-- **HEADLINE — what a certificate store lists.** After any history of calls
    on an empty store, whatever commands have failed, the listing of a service
    names the hosts with a cached pair exactly if no host has one, and the
    filter is no longer than `LIKE` allows. -/
theorem lists_iff (self : CertRequest) (calls : List Access) (certs : Certs)
    (faults : List (Option Fault)) (service : Str) :
    ListsCached self (after self calls ⟨⟨certs, (∅ : Table)⟩, faults⟩).state service
      ↔ (∀ hostname, ¬ CachedFor self
          (after self calls ⟨⟨certs, (∅ : Table)⟩, faults⟩).state.store service hostname)
        ∧ ¬ TooLong (after self calls ⟨⟨certs, (∅ : Table)⟩, faults⟩).state.store
          (serviceFilter service) :=
  lists_iff_of_keyed (keyed_history calls keyed_empty) service

/-- A new pair, and the listing of its service. -/
def firstPair : TableWorld := after httpCerts [.get "keys/HTTP/host"] ⟨⟨∅, (∅ : Table)⟩, []⟩

/-- The pair of `host` is cached and is not listed. -/
theorem not_lists_firstPair : ¬ ∀ (self : CertRequest) (calls : List Access) (certs : Certs)
    (faults : List (Option Fault)) (service : Str), service ∈ self.allowedServices →
      slash ∉ service →
      ListsCached self (after self calls ⟨⟨certs, (∅ : Table)⟩, faults⟩).state service := by
  intro hall
  have hlists := hall httpCerts [.get "keys/HTTP/host"] ∅ [] "HTTP" (by decide) (by decide)
  have hkeyed : Keyed firstPair.state.store := keyed_history _ keyed_empty
  have hservice : slash ∉ ("HTTP" : Str) := by decide
  have hhost : slash ∉ ("host" : Str) := by decide
  have hallowed : ("HTTP" : Str) ∈ httpCerts.allowedServices := by decide
  have hcached : CachedFor httpCerts firstPair.state.store "HTTP" "host" := by
    rw [cachedFor_iff hservice hhost hallowed]
    refine ⟨.text (httpCerts.pem 1), ?_, ?_⟩
    · decide
    · intro h
      cases h
  exact ((lists_iff_of_keyed hkeyed "HTTP").mp hlists).1 "host" hcached

end CertListProofs
