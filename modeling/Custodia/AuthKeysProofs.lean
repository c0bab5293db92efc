import Custodia.ExistsProofs
import Custodia.WriteOnceProofs

/-! # AuthKeysProofs — authentication by stored keys

    `SimpleAuthKeys` looks up the ID of a request in a namespace of the store
    and compares the value found with the KEY of the request. The table is
    shared with a secrets consumer, whose clients fill it.

    * `Reachable`: the tables that requests can lead to;
    * `plainKeys_of_reachable`: no key ends in a slash, whoever fills the table;
    * `handle_true_iff`: when a request is authenticated;
    * `auth_keys_sound_iff`: when an authentication can be trusted. -/

namespace AuthKeysProofs

open Interaction Interleaving PosixPath PyValues SqliteStore SecretsConsumer SecretsRuns
open ExistsProofs

/-! ## The authenticator -/

/-- `SimpleAuthKeys`: the names of the two headers, for the ID and for the KEY,
    and the namespace of the store in which the keys are kept. -/
structure SimpleAuthKeys where
  idHeader : Str
  keyHeader : Str
  storeNamespace : Str

namespace SimpleAuthKeys

/-- The options that are not configured. -/
def unconfigured : SimpleAuthKeys := ⟨"CUSTODIA_AUTH_ID", "CUSTODIA_AUTH_KEY", "custodiaSAK"⟩

/-- `_db_key`. -/
def dbKey (auth : SimpleAuthKeys) (name : Str) : Str := join auth.storeNamespace [name]

/-- `validated`: what the store answers is the KEY. A missing entry, one that
    is not text and a missing header are exceptions on the way there. -/
def validated (val : Except Exc SqlValue) (key : Option Str) : Bool :=
  match val, key with
  | .ok (.text val), some key => decide (val = key)
  | _, _ => false

/-- `handle`: its answer, and the request with what it adds to it. -/
def handle (auth : SimpleAuthKeys) (req : Request) : StoreProg (Option Bool × Request) :=
  match req.header auth.idHeader, req.header auth.keyHeader with
  | none, none => return (none, req)
  -- `None` cannot be joined
  | none, some _ => return (some false, req)
  | some name, key => do
      let val ← Prog.attempt (storeGet (auth.dbKey name))
      if validated val key = true then return (some true, { req with remoteUser := some name })
      else return (some false, req)

end SimpleAuthKeys

/-! ## What it should mean -/

/-- The key lies strictly below the namespace. -/
def InNamespace (ns key : Str) : Prop := ∃ rest, rest ≠ [] ∧ key = ns ++ slash :: rest

/-- The store holds a secret of the namespace that ends in the name. -/
def HoldsSecret (t : Table) (ns name value : Str) : Prop :=
  ∃ key, InNamespace ns key ∧ slash :: name <:+ key ∧ value ≠ []
    ∧ t.lookup key = some (.text value)

/-- An authentication proves that the user knows a secret of the namespace, and
    no entry outside is consulted: every key that is looked up and found lies
    below the namespace. -/
structure Sound (auth : SimpleAuthKeys) (t : Table) (req : Request) : Prop where
  authenticates : ∀ req', ((auth.handle req).run exec t).1 = .ok (some true, req') →
    ∃ name value, req.header auth.idHeader = some name
      ∧ req.header auth.keyHeader = some value ∧ req'.remoteUser = some name
      ∧ HoldsSecret t auth.storeNamespace name value
  consults : (auth.handle req).OnlyIssues
    (fun c => c.key ∈ t → InNamespace auth.storeNamespace c.key)

/-- What keeps the authenticator sound for an ID and a KEY. It is a condition on
    the two headers and on the table before the request, and nothing that the
    authenticator computes. -/
structure Guarded (auth : SimpleAuthKeys) (t : Table) (name : Str) (key : Option Str) : Prop where
  /-- An ID that is absolute, or a namespace that is not spelled plainly, leads
      to an entry of the namespace or to none. -/
  inside : isAbsolute name = true ∨ auth.storeNamespace = [] ∨
      endsInSlash auth.storeNamespace = true →
    auth.dbKey name ∈ t → InNamespace auth.storeNamespace (auth.dbKey name)
  /-- An empty KEY meets no empty entry. -/
  filled : key = some [] → t.lookup (auth.dbKey name) ≠ some (.text [])
  /-- What an absolute ID leads to is also what the plain ID leads to. -/
  absolute : isAbsolute name = true → ∀ value, key = some value →
    t.lookup (auth.dbKey name) = some (.text value) →
    HoldsSecret t auth.storeNamespace name value

/-! ## The tables -/

/-- The table that a list of calls leaves. -/
def filledBy (calls : List Call) : Table := calls.foldl (fun t c => (exec c t).2) ∅

/-- The tables that requests lead to, handled in any interleaving, where the
    store was filled by any calls before. -/
def Reachable (con : Secrets) (t : Table) : Prop :=
  ∃ (calls : List Call) (reqs : ℕ → Request) (s : List ℕ),
    (runSched exec (start con reqs (filledBy calls)) s).store = t

/-- No key ends in a slash. -/
def PlainKeys (t : Table) : Prop := ∀ key ∈ t, endsInSlash key = false

theorem plainKeys_insert {t : Table} (h : PlainKeys t) {key : Str} (v : SqlValue)
    (hkey : endsInSlash key = false) : PlainKeys (t.insert key v) := by
  intro k hk
  rcases (AList.mem_insert t).mp hk with rfl | hk
  · exact hkey
  · exact h k hk

/-- **No call stores a key that ends in a slash.** The database refuses such a
    key, and `span` strips it before it looks. -/
theorem plainKeys_exec {t : Table} (h : PlainKeys t) (c : Call) : PlainKeys (exec c t).2 := by
  cases c with
  | get key => exact h
  | list keyfilter => exact h
  | cut key =>
      rw [exec]
      split_ifs
      · exact fun k hk => h k (AList.mem_erase.mp hk).2
      · exact h
  | span key =>
      rw [exec]
      split_ifs
      · exact h
      · -- the slashes at the end are stripped before the row is made
        refine plainKeys_insert h _ ?_
        cases hs : endsInSlash (rstrip key) with
        | false => rfl
        | true =>
            exact absurd (endsInSlash_iff.mp hs) (SeparatedNames.getLast?_trimRight slash key)
  | set key value replace =>
      rw [exec]
      cases hkey : endsInSlash key with
      -- such a key is refused
      | true => exact h
      | false =>
          rw [if_neg Bool.false_ne_true]
          split
          · exact h
          · split_ifs
            · exact h
            · exact plainKeys_insert h _ hkey

theorem plainKeys_filledBy (calls : List Call) : PlainKeys (filledBy calls) := by
  have hfold : ∀ (calls : List Call) (t : Table), PlainKeys t →
      PlainKeys (calls.foldl (fun t c => (exec c t).2) t) := by
    intro calls
    induction calls with
    | nil => intro t h; exact h
    | cons c calls ih => intro t h; exact ih _ (plainKeys_exec h c)
  exact hfold calls ∅ (fun key hkey => absurd hkey (AList.notMem_empty key))

theorem plainKeys_of_reachable {con : Secrets} {t : Table} (h : Reachable con t) :
    PlainKeys t := by
  obtain ⟨calls, reqs, s, rfl⟩ := h
  refine runSched_invariant exec (I := fun c => PlainKeys c.store) ?_ s _
    (plainKeys_filledBy calls)
  intro c i hc
  rcases step_cases exec c i with ⟨o, k, -, hstep⟩ | hstep
  · rw [hstep]
    exact plainKeys_exec hc o
  · rw [hstep]
    exact hc

/-! ## The key that is looked up -/

/-- A plainly spelled namespace keeps every relative ID, unless it is empty. -/
theorem dbKey_plain {auth : SimpleAuthKeys} {name : Str} (hname : isAbsolute name = false)
    (hne : auth.storeNamespace ≠ []) (hend : endsInSlash auth.storeNamespace = false) :
    auth.dbKey name = auth.storeNamespace ++ slash :: name :=
  joinStep_inside hname hne hend

/-- A relative ID whose key is in the namespace is what the key ends in. -/
theorem suffix_of_inNamespace {auth : SimpleAuthKeys} {name : Str}
    (hname : isAbsolute name = false)
    (h : InNamespace auth.storeNamespace (auth.dbKey name)) :
    slash :: name <:+ auth.dbKey name := by
  by_cases hplain : auth.storeNamespace = [] ∨ endsInSlash auth.storeNamespace = true
  · -- the namespace and the name are put together without a slash
    have hkey : auth.dbKey name = auth.storeNamespace ++ name := by
      show joinStep auth.storeNamespace name = _
      rw [joinStep, if_neg (by rw [hname]; exact Bool.false_ne_true), if_pos hplain]
    obtain ⟨rest, -, hrest⟩ := h
    have hslash : name = slash :: rest :=
      List.append_cancel_left (hkey.symm.trans hrest)
    rw [isAbsolute_iff.mpr ⟨rest, hslash⟩] at hname
    cases hname
  · rw [not_or] at hplain
    rw [dbKey_plain hname hplain.1 (Bool.eq_false_iff.mpr hplain.2)]
    exact List.suffix_append _ _

/-- Guarded, the key is in the namespace wherever it is in the table. -/
theorem inNamespace_of_guarded {auth : SimpleAuthKeys} {t : Table} {name : Str}
    {key : Option Str} (ht : PlainKeys t) (h : Guarded auth t name key)
    (hmem : auth.dbKey name ∈ t) : InNamespace auth.storeNamespace (auth.dbKey name) := by
  by_cases hspecial : isAbsolute name = true ∨ auth.storeNamespace = [] ∨
      endsInSlash auth.storeNamespace = true
  · exact h.inside hspecial hmem
  · simp only [not_or, Bool.not_eq_true] at hspecial
    obtain ⟨hname, hne, hend⟩ := hspecial
    have hkey := dbKey_plain hname hne hend
    refine ⟨name, ?_, hkey⟩
    rintro rfl
    -- the empty ID leads to a key that no table has
    have hlast := ht _ hmem
    rw [hkey, endsInSlash_concat] at hlast
    exact nomatch hlast

/-! ## The authenticator on a table -/

section Handle

variable {auth : SimpleAuthKeys} {t : Table} {req : Request}

theorem validated_iff {v : Option SqlValue} {key : Option Str} :
    SimpleAuthKeys.validated (.ok (v.getD .null)) key = true
      ↔ ∃ value, v = some (.text value) ∧ key = some value := by
  cases v with
  | none => exact iff_of_false nofun (fun ⟨_, h, _⟩ => nomatch h)
  | some v =>
      cases v with
      | null => exact iff_of_false nofun (fun ⟨_, h, _⟩ => nomatch h)
      | integer n => exact iff_of_false nofun (fun ⟨_, h, _⟩ => nomatch h)
      | real x => exact iff_of_false nofun (fun ⟨_, h, _⟩ => nomatch h)
      | text value =>
          cases key with
          | none => exact iff_of_false nofun (fun ⟨_, _, h⟩ => nomatch h)
          | some key =>
              constructor
              · intro h
                exact ⟨value, rfl, congrArg some (of_decide_eq_true h).symm⟩
              · rintro ⟨value', h, h'⟩
                obtain rfl := SqlValue.text.inj (Option.some.inj h)
                exact decide_eq_true (Option.some.inj h').symm

theorem run_handle {name : Str} (hid : req.header auth.idHeader = some name) :
    (auth.handle req).run exec t =
      (.ok (if SimpleAuthKeys.validated (.ok ((t.lookup (auth.dbKey name)).getD .null))
          (req.header auth.keyHeader) = true
        then (some true, { req with remoteUser := some name }) else (some false, req)), t) := by
  rw [SimpleAuthKeys.handle]
  simp only [hid]
  show Prog.run exec (Prog.bind (Prog.attempt (.call (.get _) Prog.ofExcept)) _) t = _
  rw [Prog.attempt_call, Prog.call_bind, Prog.run_call, exec_get, Prog.ofExcept_ok,
    Prog.attempt_ret, Prog.ret_bind]
  split_ifs <;> rfl

/-- **When a request is authenticated**: the entry of its ID is its KEY. -/
theorem handle_true_iff {req' : Request} :
    ((auth.handle req).run exec t).1 = .ok (some true, req') ↔
      ∃ name value, req.header auth.idHeader = some name
        ∧ req.header auth.keyHeader = some value
        ∧ t.lookup (auth.dbKey name) = some (.text value)
        ∧ req' = { req with remoteUser := some name } := by
  cases hid : req.header auth.idHeader with
  | none =>
      refine iff_of_false (fun h => ?_) (fun ⟨_, _, h, _⟩ => nomatch h)
      rw [SimpleAuthKeys.handle] at h
      cases hkey : req.header auth.keyHeader with
      | none => simp only [hid, hkey] at h; exact nomatch h
      | some key => simp only [hid, hkey] at h; exact nomatch h
  | some name =>
      rw [run_handle hid]
      constructor
      · intro h
        replace h := Except.ok.inj h
        split_ifs at h with hvalid
        · obtain ⟨value, hfound, hkey⟩ := validated_iff.mp hvalid
          exact ⟨name, value, rfl, hkey, hfound, (Prod.mk.inj h).2.symm⟩
        · exact nomatch (Prod.mk.inj h).1
      · rintro ⟨name', value, hname, hkey, hfound, rfl⟩
        obtain rfl := Option.some.inj hname
        exact congrArg Except.ok (if_pos (validated_iff.mpr ⟨value, hfound, hkey⟩))

/-- **The only entry consulted** is that of the ID, whatever the KEY is; without
    an ID there is none. -/
theorem onlyIssues_handle_iff {P : Call → Prop} :
    (auth.handle req).OnlyIssues P ↔
      ∀ name, req.header auth.idHeader = some name → P (.get (auth.dbKey name)) := by
  rw [SimpleAuthKeys.handle]
  cases hid : req.header auth.idHeader with
  | none =>
      refine iff_of_true ?_ (fun name h => nomatch h)
      cases req.header auth.keyHeader with
      | none => trivial
      | some key => trivial
  | some name =>
      constructor
      · intro h name' hname
        obtain rfl := Option.some.inj hname
        exact h.1
      · intro h
        refine Prog.onlyIssues_bind
          (Prog.onlyIssues_attempt (Prog.onlyIssues_perform (h name rfl))) (fun val => ?_)
        split_ifs
        · trivial
        · trivial

end Handle

/-! ## Soundness -/

theorem guarded_of_sound {auth : SimpleAuthKeys} {t : Table} {req : Request} {name : Str}
    (h : Sound auth t req) (hid : req.header auth.idHeader = some name) :
    Guarded auth t name (req.header auth.keyHeader) := by
  -- an entry that is the KEY authenticates
  have hmatch : ∀ value, req.header auth.keyHeader = some value →
      t.lookup (auth.dbKey name) = some (.text value) →
      HoldsSecret t auth.storeNamespace name value := by
    intro value hkey hfound
    obtain ⟨name', value', hid', hkey', -, hsecret⟩ :=
      h.authenticates _ (handle_true_iff.mpr ⟨name, value, hid, hkey, hfound, rfl⟩)
    obtain rfl := Option.some.inj (hid.symm.trans hid')
    obtain rfl := Option.some.inj (hkey.symm.trans hkey')
    exact hsecret
  constructor
  · intro _ hmem
    exact onlyIssues_handle_iff.mp h.consults name hid hmem
  · -- a secret of the namespace is not empty
    intro hempty hfound
    obtain ⟨key, -, -, hne, -⟩ := hmatch [] hempty hfound
    exact hne rfl
  · intro _ value hkey hfound
    exact hmatch value hkey hfound

theorem sound_of_guarded {auth : SimpleAuthKeys} {t : Table} {req : Request} (ht : PlainKeys t)
    (h : ∀ name, req.header auth.idHeader = some name →
      Guarded auth t name (req.header auth.keyHeader)) : Sound auth t req := by
  constructor
  · intro req' htrue
    obtain ⟨name, value, hid, hkey, hfound, rfl⟩ := handle_true_iff.mp htrue
    have hguard := h name hid
    refine ⟨name, value, hid, hkey, rfl, ?_⟩
    cases hname : isAbsolute name with
    | true => exact hguard.absolute hname value hkey hfound
    | false =>
        have hmem : auth.dbKey name ∈ t :=
          AList.lookup_isSome.mp (by rw [hfound]; rfl)
        have hin := inNamespace_of_guarded ht hguard hmem
        refine ⟨auth.dbKey name, hin, suffix_of_inNamespace hname hin, ?_, hfound⟩
        rintro rfl
        exact hguard.filled hkey hfound
  · refine onlyIssues_handle_iff.mpr ?_
    intro name hid hmem
    exact inNamespace_of_guarded ht (h name hid) hmem

/-- **HEADLINE — when authentication by stored keys is sound**, in every table
    that requests can lead to and for all values of the two headers. -/
theorem auth_keys_sound_iff {con : Secrets} {t : Table} (h : Reachable con t)
    (auth : SimpleAuthKeys) (req : Request) :
    Sound auth t req ↔ ∀ name, req.header auth.idHeader = some name →
      Guarded auth t name (req.header auth.keyHeader) :=
  ⟨fun hsound _ hid => guarded_of_sound hsound hid,
    sound_of_guarded (plainKeys_of_reachable h)⟩

/-! ### Any user can register itself -/

/-- A request with an ID and a KEY. -/
def authRequest (name key : Str) : Request :=
  userRequest "GET" "u" [] [("CUSTODIA_AUTH_ID", name), ("CUSTODIA_AUTH_KEY", key)] none

/-- The user `u` stores a secret under `/root` and creates the container
    `/admin`, both by a name with an absolute segment. -/
def registrations : ℕ → Request
  | 0 => putBytes "u" ["u", "/root"] [115]
  | _ => userRequest "POST" "u" ["u", "/admin", []] [] none

/-- The table they leave. -/
def registered : Table :=
  (runSched exec (start simpleSecrets registrations ∅) [0, 0, 0, 1, 1]).store

theorem registered_reachable : Reachable simpleSecrets registered :=
  ⟨[], registrations, [0, 0, 0, 1, 1], rfl⟩

/-- **The user is then `/root`, with the KEY it has chosen, and `/admin`,
    without any.** -/
theorem self_registered :
    Reachable simpleSecrets registered
      ∧ ((SimpleAuthKeys.unconfigured.handle (authRequest "/root" "cw==")).run exec registered).1
        = .ok (some true, { authRequest "/root" "cw==" with remoteUser := some "/root" })
      ∧ ((SimpleAuthKeys.unconfigured.handle (authRequest "/admin" "")).run exec registered).1
        = .ok (some true, { authRequest "/admin" "" with remoteUser := some "/admin" })
      ∧ ¬ Sound .unconfigured registered (authRequest "/root" "cw==")
      ∧ ¬ Sound .unconfigured registered (authRequest "/admin" "") := by
  have hroot : WriteOnceProofs.row "/root" registered = some (.text "cw==") := by decide
  have hadmin : WriteOnceProofs.row "/admin" registered = some (.text []) := by decide
  have hentry {name value : Str} (h : WriteOnceProofs.row name registered = some (.text value)) :
      name ∈ registered :=
    AList.lookup_isSome.mp (Option.isSome_iff_exists.mpr ⟨_, h⟩)
  have houtside {name : Str} : ¬ InNamespace "custodiaSAK" (slash :: name) := by
    rintro ⟨rest, -, h⟩
    exact absurd (List.cons.inj h).1 (by decide)
  refine ⟨registered_reachable, ?_, ?_, ?_, ?_⟩
  · exact handle_true_iff.mpr ⟨"/root", "cw==", rfl, rfl, hroot, rfl⟩
  · exact handle_true_iff.mpr ⟨"/admin", [], rfl, rfl, hadmin, rfl⟩
  · intro hsound
    have hguard : Guarded .unconfigured registered "/root" _ := guarded_of_sound hsound rfl
    exact houtside (hguard.inside (Or.inl rfl) (hentry hroot))
  · intro hsound
    have hguard : Guarded .unconfigured registered "/admin" _ := guarded_of_sound hsound rfl
    exact houtside (hguard.inside (Or.inl rfl) (hentry hadmin))

/-- The same requests, in a store that has a key for `alice`. -/
def aliceRegistered : Table :=
  (runSched exec (start simpleSecrets registrations
    (filledBy [.set "custodiaSAK/alice" (.ofText "k") false])) [0, 0, 0, 1, 1]).store

/-- `alice` is authenticated by her key, and there this can be trusted. -/
theorem relative_id_sound :
    ((SimpleAuthKeys.unconfigured.handle (authRequest "alice" "k")).run exec aliceRegistered).1
        = .ok (some true, { authRequest "alice" "k" with remoteUser := some "alice" })
      ∧ Sound .unconfigured aliceRegistered (authRequest "alice" "k") := by
  have hreach : Reachable simpleSecrets aliceRegistered :=
    ⟨[.set "custodiaSAK/alice" (.ofText "k") false], registrations, [0, 0, 0, 1, 1], rfl⟩
  have halice : WriteOnceProofs.row "custodiaSAK/alice" aliceRegistered = some (.text "k") := by
    decide
  refine ⟨handle_true_iff.mpr ⟨"alice", "k", rfl, rfl, halice, rfl⟩,
    (auth_keys_sound_iff hreach _ _).mpr ?_⟩
  intro name hid
  obtain rfl : "alice".toList = name := Option.some.inj hid
  refine ⟨?_, nofun, nofun⟩
  rintro (habs | hempty | hend)
  · exact nomatch habs
  · exact nomatch hempty
  · exact nomatch hend

end AuthKeysProofs
