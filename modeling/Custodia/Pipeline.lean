import Custodia.SecretsConsumer
import Custodia.Verdicts

/-! # Pipeline — authentication, authorization and dispatch

    `HTTPRequestHandler.pipeline` runs all authenticators, then the
    authorizers, then walks up the path until a consumer is found.

    * `Mounts`: the consumers map as the plugin loader builds it, with no
      consumer at the empty chain;
    * `select_iff`: the walk finds the longest registered prefix;
    * `pipeline_iff`: the three loops together are an order-free condition. -/

namespace Pipeline

open PosixPath PyValues SecretsConsumer Verdicts

/-! ## The consumers map -/

/-- The chain under which the loader registers a section `[/a/b/]`: its
    components without one trailing empty one. -/
def mountOf (name : Str) : List Str :=
  let chain := name.splitOn slash
  if chain.getLast? = some [] then chain.dropLast else chain

/-- The consumers by their chains. No chain is empty, as the path of every
    consumer is absolute and so begins with an empty segment. -/
structure Mounts (β : Type) where
  map : AList (fun _ : List Str => β)
  proper : ∀ chain ∈ map, chain ≠ []

variable {β : Type}

theorem splitOn_absolute (rest : Str) :
    (slash :: rest).splitOn slash = [] :: rest.splitOn slash :=
  List.splitOn_append_cons_self [] rest

theorem mountOf_ne_nil {name : Str} (h : isAbsolute name = true) : mountOf name ≠ [] := by
  obtain ⟨rest, rfl⟩ := isAbsolute_iff.mp h
  rw [mountOf, splitOn_absolute]
  split_ifs
  · cases hr : rest.splitOn slash with
    | nil => exact absurd hr (List.splitOn_ne_nil slash rest)
    | cons a l => exact List.cons_ne_nil _ _
  · exact List.cons_ne_nil _ _

/-- No section loaded. -/
def Mounts.empty : Mounts β := ⟨∅, fun chain h => absurd h (AList.notMem_empty chain)⟩

/-- Register the consumer of one more section, as `_load_plugins` does for the
    sections that start with `'/'`. -/
def Mounts.load (m : Mounts β) (name : Str) (h : isAbsolute name = true) (con : β) :
    Mounts β where
  map := m.map.insert (mountOf name) con
  proper := by
    intro chain hmem
    rcases (AList.mem_insert m.map).mp hmem with rfl | hold
    · exact mountOf_ne_nil h
    · exact m.proper chain hold

/-! ## The pipeline -/

/-- The server configuration that `pipeline` reads. A missing list of plugins
    refuses every request; a plugin answers `True`, `False` or `None`, and may
    change the request. -/
structure HttpConfig (β : Type) where
  authenticators : Option (List (Voter Request))
  authorizers : Option (List (Voter Request))
  consumers : Mounts (Request → β)

/-- The loop over the authenticators: a `False` ends it. -/
def authenticate : List (Voter Request) → Bool → Request → Except Exc (Bool × Request)
  | [], validOnce, req => .ok (validOnce, req)
  | auth :: auths, validOnce, req =>
      match auth req with
      | (some false, _) => .error (.http 403 none)
      | (some true, req) => authenticate auths true req
      | (none, req) => authenticate auths validOnce req

/-- The loop over the authorizers: a `False` ends it. -/
def authorize : List (Voter Request) → Option Bool → Request → Option Bool × Request
  | [], authzOk, req => (authzOk, req)
  | authz :: authzs, authzOk, req =>
      match authz req with
      | (some true, req) => authorize authzs (some true) req
      | (some false, req) => (some false, req)
      | (none, req) => authorize authzs authzOk req

/-- The walk from the leaf to the root; the chain is read from its end. -/
def selectFrom (consumers : Mounts (Request → β)) :
    List Str → List Str → Option ((Request → β) × List Str)
  | [], _ => none
  | segment :: rest, trail =>
      match consumers.map.lookup (segment :: rest).reverse with
      | some con => some (con, trail)
      | none => selectFrom consumers rest (segment :: trail)

/-- The consumer of a path chain, and the trail below it. -/
def select (consumers : Mounts (Request → β)) (pathChain : List Str) :
    Option ((Request → β) × List Str) :=
  selectFrom consumers pathChain.reverse []

/-- `request['trail'] = trail`, unless there is none. -/
def withTrail (req : Request) (trail : List Str) : Request :=
  if trail = [] then req else { req with trail := some trail }

/-- `pipeline` from the authorizers on. -/
def authorizeAndSelect (config : HttpConfig β) (pathChain : List Str) (authed : Request) :
    Except Exc β :=
  match config.authorizers with
  | none => .error (.http 403 none)
  | some authzs =>
      match authorize authzs none authed with
      | (some true, granted) =>
          match select config.consumers pathChain with
          | none => .error (.http 404 none)
          | some (con, trail) => .ok (con (withTrail granted trail))
      | _ => .error (.http 403 none)

/-- `pipeline`: what the invoked consumer answers, or the error. -/
def pipeline (config : HttpConfig β) (req : Request) : Except Exc β :=
  if req.pathChain.head? ≠ some [] then .error (.http 400 none)
  else
    match config.authenticators with
    | none => .error (.http 403 none)
    | some auths =>
        match authenticate auths false req with
        | .error e => .error e
        | .ok (false, _) => .error (.http 403 none)
        | .ok (true, authed) => authorizeAndSelect config req.pathChain authed

/-! ## The loops -/

/-- The authenticators let a request pass exactly when they grant it. -/
theorem authenticate_iff :
    ∀ (auths : List (Voter Request)) (validOnce : Bool) (req authed : Request),
      authenticate auths validOnce req = .ok (true, authed) ↔
        some false ∉ votes auths req ∧ (validOnce = true ∨ some true ∈ votes auths req)
        ∧ authed = after auths req := by
  intro auths
  induction auths with
  | nil =>
      intro validOnce req authed
      simp [authenticate, votes, after, eq_comm]
  | cons auth auths ih =>
      intro validOnce req authed
      rw [authenticate, votes, after]
      match hv : auth req with
      | (some false, req') => simp
      | (some true, req') =>
          show authenticate auths true req' = _ ↔ _
          rw [ih]
          simp
      | (none, req') =>
          show authenticate auths validOnce req' = _ ↔ _
          rw [ih]
          simp

/-- The authorizers let a request pass exactly when they grant it. -/
theorem authorize_iff :
    ∀ (authzs : List (Voter Request)) (authzOk : Option Bool) (req granted : Request),
      authzOk ≠ some false →
      (authorize authzs authzOk req = (some true, granted) ↔
        some false ∉ votes authzs req ∧ (authzOk = some true ∨ some true ∈ votes authzs req)
        ∧ granted = after authzs req) := by
  intro authzs
  induction authzs with
  | nil =>
      intro authzOk req granted _
      simp [authorize, votes, after, eq_comm]
  | cons authz authzs ih =>
      intro authzOk req granted hok
      rw [authorize, votes, after]
      match hv : authz req with
      | (some false, req') => simp
      | (some true, req') =>
          show authorize authzs (some true) req' = _ ↔ _
          rw [ih _ _ _ (by simp)]
          simp
      | (none, req') =>
          show authorize authzs authzOk req' = _ ↔ _
          rw [ih _ _ _ hok]
          simp

/-! ## The walk -/

/-- `pre` is the longest registered prefix of the chain. -/
def LongestMount (consumers : Mounts (Request → β)) (chain pre : List Str)
    (con : Request → β) : Prop :=
  consumers.map.lookup pre = some con
  ∧ ∀ other, other <+: chain → other ∈ consumers.map → other.length ≤ pre.length

theorem lookup_ne_nil {consumers : Mounts (Request → β)} {chain : List Str}
    {con : Request → β} (h : consumers.map.lookup chain = some con) : chain ≠ [] := by
  refine consumers.proper chain (AList.lookup_isSome.mp ?_)
  rw [h]
  rfl

/-- The walk stops at the longest registered prefix of what it has left. -/
theorem selectFrom_iff (consumers : Mounts (Request → β)) :
    ∀ (rev trail : List Str) (con : Request → β) (found : List Str),
      selectFrom consumers rev trail = some (con, found) ↔
        ∃ pre rest, pre ++ rest = rev.reverse ∧ found = rest ++ trail
          ∧ LongestMount consumers rev.reverse pre con := by
  intro rev
  induction rev with
  | nil =>
      intro trail con found
      constructor
      · intro h
        exact nomatch h
      · rintro ⟨pre, rest, happ, -, hlook, -⟩
        exact absurd (List.append_eq_nil_iff.mp happ).1 (lookup_ne_nil hlook)
  | cons segment rest ih =>
      intro trail con found
      have hrev : (segment :: rest).reverse = rest.reverse ++ [segment] := List.reverse_cons
      rw [selectFrom]
      cases hlook : consumers.map.lookup (segment :: rest).reverse with
      | some con' =>
          constructor
          · intro h
            obtain ⟨rfl, rfl⟩ := Prod.mk.inj (Option.some.inj h)
            exact ⟨(segment :: rest).reverse, [], by simp, rfl, hlook,
              fun other hpre _ => hpre.length_le⟩
          · -- the whole chain is registered, so nothing shorter is the longest
            rintro ⟨pre, suf, happ, rfl, hpre, hmax⟩
            have hmem : (segment :: rest).reverse ∈ consumers.map :=
              AList.lookup_isSome.mp (by rw [hlook]; rfl)
            have hle := hmax _ (List.prefix_refl _) hmem
            have hlen := congrArg List.length happ
            rw [List.length_append] at hlen
            have hnil : suf = [] := List.length_eq_zero_iff.mp (by omega)
            subst hnil
            rw [List.append_nil] at happ
            rw [happ, hlook] at hpre
            rw [Option.some.inj hpre]
            rfl
      | none =>
          have hnot : (segment :: rest).reverse ∉ consumers.map :=
            AList.lookup_eq_none.mp hlook
          show selectFrom consumers rest (segment :: trail) = _ ↔ _
          rw [ih]
          constructor
          · rintro ⟨pre, suf, happ, rfl, hpre, hmax⟩
            refine ⟨pre, suf ++ [segment], ?_, by simp, hpre, ?_⟩
            · rw [hrev, ← happ, List.append_assoc]
            · intro other hother hmem
              rw [hrev] at hother
              rcases List.prefix_concat_iff.mp hother with heq | hshort
              · rw [hrev, ← heq] at hnot
                exact absurd hmem hnot
              · exact hmax other hshort hmem
          · rintro ⟨pre, suf, happ, rfl, hpre, hmax⟩
            have hmem : pre ∈ consumers.map :=
              AList.lookup_isSome.mp (by rw [hpre]; rfl)
            have hshort : pre <+: rest.reverse := by
              have hp : pre <+: rest.reverse ++ [segment] := by
                rw [← hrev, ← happ]
                exact List.prefix_append pre suf
              rcases List.prefix_concat_iff.mp hp with heq | hshort
              · rw [hrev, ← heq] at hnot
                exact absurd hmem hnot
              · exact hshort
            obtain ⟨more, hmore⟩ := hshort
            have hsuf : suf = more ++ [segment] := by
              rw [hrev, ← hmore, List.append_assoc] at happ
              exact List.append_cancel_left happ
            refine ⟨pre, more, hmore, by rw [hsuf]; simp, hpre, ?_⟩
            intro other hother hmem
            refine hmax other ?_ hmem
            rw [hrev]
            exact hother.trans (List.prefix_append _ _)

theorem select_iff (consumers : Mounts (Request → β)) (chain : List Str)
    (con : Request → β) (trail : List Str) :
    select consumers chain = some (con, trail) ↔
      ∃ pre, pre ++ trail = chain ∧ LongestMount consumers chain pre con := by
  rw [select, selectFrom_iff, List.reverse_reverse]
  constructor
  · rintro ⟨pre, rest, happ, rfl, hlongest⟩
    exact ⟨pre, by rw [List.append_nil]; exact happ, hlongest⟩
  · rintro ⟨pre, happ, hlongest⟩
    exact ⟨pre, trail, happ, by rw [List.append_nil], hlongest⟩

/-- Something is found exactly when some prefix is registered. -/
theorem select_isSome_iff (consumers : Mounts (Request → β)) :
    ∀ (chain : List Str), (∃ found, select consumers chain = some found) ↔
      ∃ pre, pre <+: chain ∧ pre ∈ consumers.map := by
  have hfrom : ∀ (rev trail : List Str),
      (∃ found, selectFrom consumers rev trail = some found) ↔
        ∃ pre, pre <+: rev.reverse ∧ pre ∈ consumers.map := by
    intro rev
    induction rev with
    | nil =>
        intro trail
        constructor
        · rintro ⟨found, h⟩
          exact nomatch h
        · rintro ⟨pre, hpre, hmem⟩
          exact absurd (List.prefix_nil.mp hpre) (consumers.proper pre hmem)
    | cons segment rest ih =>
        intro trail
        rw [selectFrom]
        cases hlook : consumers.map.lookup (segment :: rest).reverse with
        | some con =>
            refine ⟨fun _ => ⟨_, List.prefix_refl _, ?_⟩, fun _ => ⟨_, rfl⟩⟩
            exact AList.lookup_isSome.mp (by rw [hlook]; rfl)
        | none =>
            show (∃ found, selectFrom consumers rest (segment :: trail) = some found) ↔ _
            rw [ih]
            constructor
            · rintro ⟨pre, hpre, hmem⟩
              refine ⟨pre, ?_, hmem⟩
              rw [List.reverse_cons]
              exact hpre.trans (List.prefix_append _ _)
            · rintro ⟨pre, hpre, hmem⟩
              refine ⟨pre, ?_, hmem⟩
              rw [List.reverse_cons] at hpre
              rcases List.prefix_concat_iff.mp hpre with heq | hshort
              · rw [List.reverse_cons, ← heq] at hlook
                exact absurd hmem (AList.lookup_eq_none.mp hlook)
              · exact hshort
  intro chain
  rw [select, hfrom, List.reverse_reverse]

/-! ## The gate -/

/-- The request passes authentication and authorization, and `granted` is the
    request with all attributes the plugins added. -/
def Passes (config : HttpConfig β) (req granted : Request) : Prop :=
  req.pathChain.head? = some []
  ∧ ∃ auths authzs, config.authenticators = some auths ∧ config.authorizers = some authzs
    ∧ Granted (votes auths req) ∧ Granted (votes authzs (after auths req))
    ∧ granted = after authzs (after auths req)

theorem authorizeAndSelect_iff (config : HttpConfig β) (pathChain : List Str)
    (authed : Request) (answer : β) :
    authorizeAndSelect config pathChain authed = .ok answer ↔
      ∃ authzs pre trail con, config.authorizers = some authzs
        ∧ Granted (votes authzs authed) ∧ pre ++ trail = pathChain
        ∧ LongestMount config.consumers pathChain pre con
        ∧ answer = con (withTrail (after authzs authed) trail) := by
  rw [authorizeAndSelect]
  cases hz : config.authorizers with
  | none =>
      constructor
      · intro h
        exact nomatch h
      · rintro ⟨authzs, pre, trail, con, h, -⟩
        exact nomatch h
  | some authzs =>
      constructor
      · intro h
        match hrun : authorize authzs none authed with
        | (none, granted) => simp only [hrun] at h; exact nomatch h
        | (some false, granted) => simp only [hrun] at h; exact nomatch h
        | (some true, granted) =>
            simp only [hrun] at h
            obtain ⟨hno, hyes, rfl⟩ := (authorize_iff authzs none _ granted (by simp)).mp hrun
            match hsel : select config.consumers pathChain with
            | none => rw [hsel] at h; exact nomatch h
            | some (con, trail) =>
                rw [hsel] at h
                obtain ⟨pre, happ, hlong⟩ := (select_iff _ _ _ _).mp hsel
                exact ⟨authzs, pre, trail, con, rfl, ⟨hno, hyes.resolve_left (by simp)⟩,
                  happ, hlong, (Except.ok.inj h).symm⟩
      · rintro ⟨authzs', pre, trail, con, h, ⟨hno, hyes⟩, happ, hlong, rfl⟩
        obtain rfl := Option.some.inj h
        have hrun := (authorize_iff authzs none authed _ (by simp)).mpr
          ⟨hno, Or.inr hyes, rfl⟩
        have hsel := (select_iff config.consumers _ con trail).mpr ⟨pre, happ, hlong⟩
        simp only [hrun, hsel]

/-- **The three loops are an order-free condition**: the consumer that is
    invoked, the trail it gets, and when. -/
theorem pipeline_iff (config : HttpConfig β) (req : Request) (answer : β) :
    pipeline config req = .ok answer ↔
      ∃ granted pre trail con, Passes config req granted
        ∧ pre ++ trail = req.pathChain
        ∧ LongestMount config.consumers req.pathChain pre con
        ∧ answer = con (withTrail granted trail) := by
  rw [pipeline]
  by_cases hroot : req.pathChain.head? = some []
  · rw [if_neg (not_not.mpr hroot)]
    cases ha : config.authenticators with
    | none =>
        constructor
        · intro h
          exact nomatch h
        · rintro ⟨granted, pre, trail, con, ⟨-, auths, authzs, h, -⟩, -⟩
          rw [ha] at h
          exact nomatch h
    | some auths =>
        constructor
        · intro h
          match hrun : authenticate auths false req with
          | .error e => simp only [hrun] at h; exact nomatch h
          | .ok (false, authed) => simp only [hrun] at h; exact nomatch h
          | .ok (true, authed) =>
              simp only [hrun] at h
              obtain ⟨hno, hyes, rfl⟩ := (authenticate_iff auths false req authed).mp hrun
              obtain ⟨authzs, pre, trail, con, hz, hgrant, happ, hlong, rfl⟩ :=
                (authorizeAndSelect_iff _ _ _ _).mp h
              exact ⟨_, pre, trail, con, ⟨hroot, auths, authzs, ha, hz,
                ⟨hno, hyes.resolve_left Bool.false_ne_true⟩, hgrant, rfl⟩, happ, hlong, rfl⟩
        · rintro ⟨granted, pre, trail, con, ⟨-, auths', authzs, h, hz, ⟨hno, hyes⟩,
            hgrant, rfl⟩, happ, hlong, rfl⟩
          rw [ha] at h
          obtain rfl := Option.some.inj h
          have hrun := (authenticate_iff auths false req _).mpr ⟨hno, Or.inr hyes, rfl⟩
          simp only [hrun]
          exact (authorizeAndSelect_iff _ _ _ _).mpr
            ⟨authzs, pre, trail, con, hz, hgrant, happ, hlong, rfl⟩
  · rw [if_pos hroot]
    constructor
    · intro h
      exact nomatch h
    · rintro ⟨granted, pre, trail, con, ⟨h, -⟩, -⟩
      exact absurd h hroot

theorem passes_iff (config : HttpConfig β) (req : Request) :
    (∃ granted, Passes config req granted) ↔
      req.pathChain.head? = some []
      ∧ ∃ auths authzs, config.authenticators = some auths ∧ config.authorizers = some authzs
        ∧ Granted (votes auths req) ∧ Granted (votes authzs (after auths req)) := by
  constructor
  · rintro ⟨granted, hroot, auths, authzs, ha, hz, hauth, hgrant, -⟩
    exact ⟨hroot, auths, authzs, ha, hz, hauth, hgrant⟩
  · rintro ⟨hroot, auths, authzs, ha, hz, hauth, hgrant⟩
    exact ⟨_, hroot, auths, authzs, ha, hz, hauth, hgrant, rfl⟩

/-- A consumer is invoked exactly when the request passes and some prefix of
    its path chain is registered. -/
theorem invoked_iff (config : HttpConfig β) (req : Request) :
    (∃ answer, pipeline config req = .ok answer) ↔
      (∃ granted, Passes config req granted)
      ∧ ∃ pre, pre <+: req.pathChain ∧ pre ∈ config.consumers.map := by
  constructor
  · rintro ⟨answer, h⟩
    obtain ⟨granted, pre, trail, con, hpass, happ, hlong, -⟩ :=
      (pipeline_iff config req answer).mp h
    refine ⟨⟨granted, hpass⟩, pre, ?_, AList.lookup_isSome.mp ?_⟩
    · rw [← happ]
      exact List.prefix_append pre trail
    · rw [hlong.1]
      rfl
  · rintro ⟨⟨granted, hpass⟩, hmount⟩
    obtain ⟨⟨con, trail⟩, hsel⟩ := (select_isSome_iff config.consumers _).mpr hmount
    obtain ⟨pre, happ, hlong⟩ := (select_iff _ _ _ _).mp hsel
    exact ⟨_, (pipeline_iff config req _).mpr
      ⟨granted, pre, trail, con, hpass, happ, hlong, rfl⟩⟩

/-- **HEADLINE — gate and selection.** A consumer is invoked exactly when the
    chain is absolute, both plugin chains are configured and grant, and some
    prefix is registered; it is the one of the longest registered prefix, and
    prefix and trail make up the chain; and independent authorizers decide the
    same in every order. -/
theorem pipeline_gate_and_selection (config : HttpConfig β) (req : Request) :
    ((∃ answer, pipeline config req = .ok answer) ↔
      (req.pathChain.head? = some []
        ∧ ∃ auths authzs, config.authenticators = some auths
          ∧ config.authorizers = some authzs
          ∧ Granted (votes auths req) ∧ Granted (votes authzs (after auths req)))
      ∧ ∃ pre, pre <+: req.pathChain ∧ pre ∈ config.consumers.map)
    ∧ (∀ answer, pipeline config req = .ok answer →
        ∃ granted pre trail con, Passes config req granted
          ∧ pre ++ trail = req.pathChain
          ∧ LongestMount config.consumers req.pathChain pre con
          ∧ answer = con (withTrail granted trail))
    ∧ ∀ authzs authzs', config.authorizers = some authzs → authzs.Perm authzs' →
        Independent authzs →
        ((∃ answer, pipeline config req = .ok answer) ↔
          ∃ answer, pipeline { config with authorizers := some authzs' } req = .ok answer) := by
  refine ⟨?_, fun answer h => (pipeline_iff config req answer).mp h, ?_⟩
  · rw [invoked_iff, passes_iff]
  · intro authzs authzs' hz hp hind
    rw [invoked_iff, invoked_iff, passes_iff, passes_iff]
    refine and_congr_left' (and_congr_right' ?_)
    constructor
    · rintro ⟨auths, zs, ha, hzs, hauth, hgrant⟩
      rw [hz] at hzs
      obtain rfl := Option.some.inj hzs
      exact ⟨auths, authzs', ha, rfl, hauth, (granted_perm hp hind _).mp hgrant⟩
    · rintro ⟨auths, zs, ha, hzs, hauth, hgrant⟩
      obtain rfl := Option.some.inj hzs
      exact ⟨auths, authzs, ha, hz, hauth, (granted_perm hp hind _).mpr hgrant⟩

end Pipeline
