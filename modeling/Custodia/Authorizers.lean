import Custodia.Pipeline

/-! # Authorizers — two views of one path

    The authorizers judge the RAW path of a request; the dispatcher walks the
    UNQUOTED path chain. This file models the two authorizers of the server
    and settles when the two views agree.

    * `trail_of_accepted`: what `UserNameSpace` accepts for a user is
      dispatched with the user's name at the head of the trail;
    * `authorization_agrees_iff`: the views agree at a mount point exactly
      when the raw path itself is below it, or the chain is not. -/

namespace Authorizers

open PosixPath PyValues Unquote SecretsConsumer Verdicts Pipeline

/-! ## Plugins -/

/-- An authorizer plugin: it votes, and may add attributes to the request, but
    it leaves the path and the user alone. -/
structure Authorizer where
  handle : Voter Request
  keepsPath : ∀ req, (handle req).2.path = req.path
  keepsUser : ∀ req, (handle req).2.remoteUser = req.remoteUser

/-- An authenticator plugin: it votes, and may set the user of the request, but
    it leaves the path alone. This is all that the dispatching of requests
    depends on. -/
structure Authenticator where
  handle : Voter Request
  keepsPath : ∀ req, (handle req).2.path = req.path

/-- `SimpleHeaderAuth`: the user is named by a request header. -/
def simpleHeaderAuth (header : Str) (allowed : Option (List Str)) : Authenticator where
  handle := fun req =>
    match req.header header with
    | none => (none, req)
    | some value =>
        if allowed.all (fun values => decide (value ∈ values)) then
          (some true, { req with remoteUser := some value })
        else (some false, req)
  keepsPath := by
    intro req
    cases req.header header with
    | none => rfl
    | some value =>
        show (if _ then _ else _ : Option Bool × Request).2.path = _
        split_ifs <;> rfl

/-- The strict entries of `SimplePathAuthz`: those not ending in `'/'` grant
    the whole path, one trailing dot apart. -/
def strictMatch (paths : List Str) (path : Str) : Bool :=
  paths.any (fun authz =>
    !endsInSlash authz
      && decide ((if authz.getLast? = some '.' then authz.dropLast else authz) = path))

/-- The walk of `SimplePathAuthz` up the path, at most `fuel` steps long;
    nothing is returned while it has not ended. -/
def pathWalk (paths : List Str) : Nat → Str → Option (Option Bool)
  | 0, _ => none
  | fuel + 1, path =>
      if path = [] then some none
      else if path ∈ paths then some (some true)
      else if path = [slash] then pathWalk paths fuel []
      else pathWalk paths fuel (splitHead path)

/-- `SimplePathAuthz`, where its walk ends. -/
def simplePathAuthz (paths : List Str) : Authorizer where
  handle := fun req =>
    (if strictMatch paths req.path = true then some true
      else (pathWalk paths (req.path.length + 2) req.path).getD none, req)
  keepsPath := fun _ => rfl
  keepsUser := fun _ => rfl

/-- The namespace of a user below the configured path. -/
def namespaceOf (path name : Str) : Str := rstrip path ++ slash :: name ++ [slash]

/-- `UserNameSpace.handle`. -/
def userNameSpaceHandle (path : Str) (req : Request) : Option Bool × Request :=
  if ¬ path <+: req.path then (none, req)
  else
    match req.remoteUser with
    | none => (some false, req)
    | some name =>
        if namespaceOf path name <+: req.path then
          (some true, { req with defaultNamespace := some name })
        else (some false, req)

/-- What `UserNameSpace` does to a request: nothing, or it records the
    namespace. -/
theorem userNameSpaceHandle_cases (path : Str) (req : Request) :
    (userNameSpaceHandle path req = (none, req) ∧ ¬ path <+: req.path)
    ∨ (userNameSpaceHandle path req = (some false, req) ∧ path <+: req.path)
    ∨ ∃ name, req.remoteUser = some name ∧ path <+: req.path
        ∧ namespaceOf path name <+: req.path
        ∧ userNameSpaceHandle path req
          = (some true, { req with defaultNamespace := some name }) := by
  rw [userNameSpaceHandle]
  by_cases hpre : path <+: req.path
  · rw [if_neg (not_not.mpr hpre)]
    cases hu : req.remoteUser with
    | none => exact Or.inr (Or.inl ⟨rfl, hpre⟩)
    | some name =>
        by_cases hns : namespaceOf path name <+: req.path
        · exact Or.inr (Or.inr ⟨name, rfl, hpre, hns, if_pos hns⟩)
        · exact Or.inr (Or.inl ⟨if_neg hns, hpre⟩)
  · exact Or.inl ⟨if_pos hpre, hpre⟩

theorem userNameSpaceHandle_accepts {path name : Str} {req : Request}
    (huser : req.remoteUser = some name) (hpre : path <+: req.path)
    (hns : namespaceOf path name <+: req.path) :
    userNameSpaceHandle path req = (some true, { req with defaultNamespace := some name }) := by
  rw [userNameSpaceHandle]
  rw [if_neg (not_not.mpr hpre), huser]
  exact if_pos hns

/-- The `UserNameSpace` authorizer. -/
def userNameSpace (path : Str) : Authorizer where
  handle := userNameSpaceHandle path
  keepsPath := by
    intro req
    rcases userNameSpaceHandle_cases path req with ⟨h, -⟩ | ⟨h, -⟩ | ⟨name, -, -, -, h⟩ <;>
      rw [h]
  keepsUser := by
    intro req
    rcases userNameSpaceHandle_cases path req with ⟨h, -⟩ | ⟨h, -⟩ | ⟨name, -, -, -, h⟩ <;>
      rw [h]

/-! ## What the chains of plugins keep -/

theorem after_authenticators_path (l : List Authenticator) (req : Request) :
    (after (l.map Authenticator.handle) req).path = req.path := by
  induction l generalizing req with
  | nil => rfl
  | cons a l ih => exact (ih (a.handle req).2).trans (a.keepsPath req)

/-- Every authorizer votes on the path and the user of the request. -/
theorem vote_of_mem {l : List Authorizer} {a : Authorizer} (ha : a ∈ l) (req : Request) :
    ∃ seen, seen.path = req.path ∧ seen.remoteUser = req.remoteUser
      ∧ (a.handle seen).1 ∈ votes (l.map Authorizer.handle) req := by
  induction l generalizing req with
  | nil => exact nomatch ha
  | cons b l ih =>
      rcases List.mem_cons.mp ha with rfl | hmem
      · exact ⟨req, rfl, rfl, List.mem_cons_self⟩
      · obtain ⟨seen, hpath, huser, hvote⟩ := ih hmem (b.handle req).2
        exact ⟨seen, hpath.trans (b.keepsPath req), huser.trans (b.keepsUser req),
          List.mem_cons_of_mem _ hvote⟩

/-- Below its path, `UserNameSpace` lets a chain of authorizers grant only the
    namespace of the user. -/
theorem namespace_of_granted {path : Str} {l : List Authorizer} {req : Request} {user : Str}
    (hmem : userNameSpace path ∈ l) (hpre : path <+: req.path)
    (huser : req.remoteUser = some user)
    (hgrant : Granted (votes (l.map Authorizer.handle) req)) :
    namespaceOf path user <+: req.path := by
  obtain ⟨seen, hpath, hseen, hvote⟩ := vote_of_mem hmem req
  rcases userNameSpaceHandle_cases path seen with ⟨-, hno⟩ | ⟨h, -⟩ | ⟨name, hname, -, hns, -⟩
  · rw [hpath] at hno
    exact absurd hpre hno
  · have hfalse : ((userNameSpace path).handle seen).1 = some false := by
      show (userNameSpaceHandle path seen).1 = some false
      rw [h]
    rw [hfalse] at hvote
    exact absurd hvote hgrant.1
  · rw [hseen, huser] at hname
    obtain rfl := Option.some.inj hname
    rwa [hpath] at hns

/-! ## Mount points and namespaces -/

/-- A user name that is one plain path component. -/
def PlainName (name : Str) : Prop := name ≠ [] ∧ slash ∉ name ∧ '%' ∉ name

/-- Without a trailing slash, the last component is not empty. -/
theorem getLast?_splitOn {t : Str} (hne : t ≠ []) (hend : t.getLast? ≠ some slash) :
    (t.splitOn slash).getLast? ≠ some [] := by
  intro hlast
  have hspell : SeparatedNames.spell slash (t.splitOn slash) = t :=
    List.intercalate_splitOn slash
  obtain ⟨init, hinit⟩ : ∃ init, t.splitOn slash = init ++ [[]] := by
    have hsplit := List.dropLast_append_getLast? [] hlast
    exact ⟨_, hsplit.symm⟩
  rw [hinit] at hspell
  cases init with
  | nil => exact hne hspell.symm
  | cons a init =>
      rw [SeparatedNames.spell_append slash (List.cons_ne_nil a init) (List.cons_ne_nil [] []),
        SeparatedNames.spell_singleton] at hspell
      rw [← hspell] at hend
      exact hend (by simp)

/-- A configured path under which some namespace can be accepted is registered
    under the components of its stripped form. -/
theorem mountOf_eq {path name : Str} (habs : isAbsolute path = true) (hname : name ≠ [])
    (hslash : slash ∉ name) {raw : Str} (hpre : path <+: raw)
    (hns : namespaceOf path name <+: raw) :
    mountOf path = (rstrip path).splitOn slash := by
  obtain ⟨n, hn⟩ := SeparatedNames.trimRight_append slash path
  have hn : path = rstrip path ++ List.replicate n slash := hn
  match n, hn with
  | 0, hn =>
      rw [List.replicate_zero, List.append_nil] at hn
      have hne : path ≠ [] := by
        rintro rfl
        exact Bool.false_ne_true habs
      have hend : path.getLast? ≠ some slash := by
        rw [hn]
        exact SeparatedNames.getLast?_trimRight slash path
      rw [mountOf, ← hn]
      exact if_neg (getLast?_splitOn hne hend)
  | 1, hn =>
      have hsplit : path.splitOn slash = (rstrip path).splitOn slash ++ [[]] := by
        conv_lhs => rw [hn]
        exact List.splitOn_append_cons_self (rstrip path) []
      rw [mountOf, hsplit]
      simp
  | k + 2, hn =>
      -- two slashes cannot be followed by the name
      obtain ⟨r, hr⟩ := hpre
      obtain ⟨r', hr'⟩ := hns
      have heq : rstrip path ++ List.replicate (k + 2) slash ++ r
          = rstrip path ++ (slash :: (name ++ [slash] ++ r')) := by
        rw [← hn, hr, ← hr', namespaceOf]
        simp
      rw [List.append_assoc, List.append_cancel_left_eq] at heq
      rw [List.replicate_succ, List.replicate_succ, List.cons_append, List.cons_append] at heq
      have htail := (List.cons.inj heq).2
      cases name with
      | nil => exact absurd rfl hname
      | cons c name =>
          have hc : slash = c := (List.cons.inj htail).1
          exact absurd (hc ▸ List.mem_cons_self) hslash

/-- **What is accepted for a user is dispatched under the user's name**, as far
    as decoding leaves the name alone. -/
theorem trail_of_accepted {path user raw : Str} {trail : List Str}
    (habs : isAbsolute path = true) (hne : user ≠ []) (hslash : slash ∉ user)
    (hpre : path <+: raw) (hns : namespaceOf path user <+: raw)
    (hmount : mountOf path ++ trail = parsePath raw) :
    ∃ rest, raw = namespaceOf path user ++ rest
      ∧ trail = unquote user :: parsePath rest := by
  obtain ⟨rest, hrest⟩ := hns
  refine ⟨rest, hrest.symm, ?_⟩
  have hchain : parsePath raw
      = parsePath (rstrip path) ++ (unquote user :: parsePath rest) := by
    rw [← hrest, namespaceOf, show rstrip path ++ slash :: user ++ [slash] ++ rest
        = rstrip path ++ slash :: (user ++ slash :: rest) from by simp,
      parsePath_append, parsePath_append, parsePath_of_not_mem hslash]
    rfl
  have hlen : (mountOf path).length = (parsePath (rstrip path)).length := by
    rw [mountOf_eq habs hne hslash hpre ⟨rest, hrest⟩, parsePath, List.length_map]
  rw [hchain] at hmount
  exact (List.append_inj hmount hlen).2

/-! ## Authorization and dispatch -/

/-- The server configuration made of plugins and a consumers map. -/
def serverConfig (authenticators : List Authenticator) (authorizers : List Authorizer)
    (consumers : Mounts (Request → StoreProg Outcome)) : HttpConfig (StoreProg Outcome) where
  authenticators := some (authenticators.map Authenticator.handle)
  authorizers := some (authorizers.map Authorizer.handle)
  consumers := consumers

/-- `pipeline` invokes the consumer at `mount` with `trail` below it. -/
def Dispatches {β : Type} (config : HttpConfig β) (req : Request) (mount trail : List Str) :
    Prop :=
  ∃ granted con, Passes config req granted ∧ mount ++ trail = req.pathChain
    ∧ LongestMount config.consumers req.pathChain mount con
    ∧ pipeline config req = .ok (con (withTrail granted trail))

/-- Whatever the plugins and the consumers, a request for `raw` that is
    dispatched at the consumer of `path` is dispatched under its user. -/
def DispatchedUnderUser (path raw : Str) : Prop :=
  ∀ (authenticators : List Authenticator) (authorizers : List Authorizer)
    (consumers : Mounts (Request → StoreProg Outcome)) (req : Request) (user : Str)
    (trail : List Str),
    userNameSpace path ∈ authorizers → req.path = raw → req.pathChain = parsePath raw →
    PlainName user →
    (after (authenticators.map Authenticator.handle) req).remoteUser = some user →
    Dispatches (serverConfig authenticators authorizers consumers) req (mountOf path) trail →
    trail.head? = some user

/-- An authorizer that grants everything, and an authenticator that lets the
    user of the request pass. -/
def grantAll : Authorizer := ⟨fun req => (some true, req), fun _ => rfl, fun _ => rfl⟩
def passAll : Authenticator := ⟨fun req => (some true, req), fun _ => rfl⟩

/-- The only registered consumer is the one of the longest prefix. -/
theorem longestMount_single {β : Type} {path : Str} (habs : isAbsolute path = true)
    (con : Request → β) (chain : List Str) :
    LongestMount (Mounts.empty.load path habs con) chain (mountOf path) con := by
  refine ⟨AList.lookup_insert _, ?_⟩
  intro other _ hmem
  rcases (AList.mem_insert _).mp hmem with rfl | hold
  · exact Nat.le_refl _
  · exact absurd hold (AList.notMem_empty other)

/-- If the raw path escapes `UserNameSpace` while its chain does not escape the
    mount point, the request reaches whatever it names. -/
theorem escapes {path raw : Str} (habs : isAbsolute path = true) (hpre : ¬ path <+: raw)
    {trail : List Str} (htrail : mountOf path ++ trail = parsePath raw)
    (con : Request → StoreProg Outcome) (req : Request) (hpath : req.path = raw)
    (hchain : req.pathChain = parsePath raw) (hroot : (parsePath raw).head? = some []) :
    Dispatches (serverConfig [passAll] [userNameSpace path, grantAll]
      (Mounts.empty.load path habs con)) req (mountOf path) trail := by
  have hlong := longestMount_single habs con req.pathChain
  have hvote : userNameSpaceHandle path req = (none, req) := by
    rw [userNameSpaceHandle, hpath]
    exact if_pos hpre
  have hpass : Passes (serverConfig [passAll] [userNameSpace path, grantAll]
      (Mounts.empty.load path habs con)) req req := by
    refine ⟨by rw [hchain]; exact hroot, _, _, rfl, rfl, ⟨by simp [votes, passAll],
      by simp [votes, passAll]⟩, ?_, ?_⟩
    · show Granted [(userNameSpaceHandle path req).1, some true]
      rw [hvote]
      exact ⟨by simp, by simp⟩
    · show req = (userNameSpaceHandle path req).2
      rw [hvote]
  refine ⟨req, con, hpass, htrail.trans hchain.symm, hlong, ?_⟩
  exact (pipeline_iff _ _ _).mpr ⟨req, mountOf path, trail, con, hpass,
    htrail.trans hchain.symm, hlong, rfl⟩

/-- A request with nothing but a path and a user. -/
def plainRequest (raw user : Str) : Request where
  command := "GET"
  path := raw
  pathChain := parsePath raw
  trail := none
  query := []
  headers := []
  body := none
  remoteUser := some user
  creds := .unknown
  defaultNamespace := none
  kemKeysStore := none

/-- **HEADLINE — when the two views agree.** Every dispatch at the consumer of
    `path` is under the user's own name exactly when the RAW path starts with
    `path`, or the unquoted chain does not start with the mount point. -/
theorem authorization_agrees_iff {path raw : Str} (habs : isAbsolute path = true) :
    DispatchedUnderUser path raw ↔ path <+: raw ∨ ¬ mountOf path <+: parsePath raw := by
  constructor
  · intro h
    by_contra hcond
    obtain ⟨hpre, hchain⟩ := not_or.mp hcond
    obtain ⟨trail, htrail⟩ := not_not.mp hchain
    have hroot : (parsePath raw).head? = some [] := by
      obtain ⟨rest, rfl⟩ := isAbsolute_iff.mp habs
      have hhead : (mountOf (slash :: rest)).head? = some [] := by
        have hne := mountOf_ne_nil habs
        rw [mountOf, splitOn_absolute] at hne ⊢
        split_ifs at hne ⊢ with hlast
        · cases hr : rest.splitOn slash with
          | nil => exact absurd hr (List.splitOn_ne_nil slash rest)
          | cons a l => rfl
        · rfl
      rw [← htrail]
      cases hm : mountOf (slash :: rest) with
      | nil => rw [hm] at hhead; cases hhead
      | cons a l => rw [hm] at hhead; exact hhead
    -- a user other than the one the trail names
    have hother : ∃ user, PlainName user ∧ trail.head? ≠ some user := by
      by_cases hu : trail.head? = some "u".toList
      · refine ⟨"v", ⟨by decide, by decide, by decide⟩, ?_⟩
        rw [hu]
        decide
      · exact ⟨"u", ⟨by decide, by decide, by decide⟩, hu⟩
    obtain ⟨user, hplain, hne⟩ := hother
    refine hne (h [passAll] [userNameSpace path, grantAll]
      (Mounts.empty.load path habs (fun _ => .ret ⟨.error (.http 501 none), []⟩))
      (plainRequest raw user) user trail List.mem_cons_self rfl rfl hplain rfl ?_)
    exact escapes habs hpre htrail _ (plainRequest raw user) rfl rfl hroot
  · rintro hcond authenticators authorizers consumers req user trail hmem hpath hchain
      hplain huser ⟨granted, con, ⟨-, auths, authzs, hauths, hauthzs, -, hgrant, -⟩, htrail, -, -⟩
    obtain rfl := Option.some.inj hauths
    obtain rfl := Option.some.inj hauthzs
    rw [hchain] at htrail
    have hpre : path <+: raw := by
      rcases hcond with hpre | hno
      · exact hpre
      · exact absurd ⟨trail, htrail⟩ hno
    have hauthed : (after (authenticators.map Authenticator.handle) req).path = raw :=
      (after_authenticators_path authenticators req).trans hpath
    have hns := namespace_of_granted hmem (by rw [hauthed]; exact hpre) huser hgrant
    rw [hauthed] at hns
    obtain ⟨rest, -, rfl⟩ := trail_of_accepted habs hplain.1 hplain.2.1 hpre hns htrail
    rw [unquote_of_not_mem hplain.2.2]
    rfl

/-- With all paths granted, as in the quick-start configuration, user `u`
    reaches the secret of user `v` by encoding one character of the mount
    point. -/
theorem authorization_escapes_encoded :
    ¬ DispatchedUnderUser "/secrets/" "/%73ecrets/v/key" := by
  intro h
  let req : Request :=
    { plainRequest "/%73ecrets/v/key" [] with
      headers := [("REMOTE_USER", "u")], remoteUser := none }
  let con : Secrets := ⟨default, .missing⟩
  have habs : isAbsolute "/secrets/".toList = true := by decide
  have hlong := longestMount_single habs (handle con) req.pathChain
  have hpass : Passes (serverConfig [simpleHeaderAuth "REMOTE_USER" none]
      [simplePathAuthz ["/", "/secrets/"], userNameSpace "/secrets/"]
      (Mounts.empty.load "/secrets/" habs (handle con))) req
      { req with remoteUser := some "u" } :=
    ⟨by decide, _, _, rfl, rfl, ⟨by decide, by decide⟩, ⟨by decide, by decide⟩, rfl⟩
  have hchain : mountOf "/secrets/" ++ ["v".toList, "key".toList] = req.pathChain := by decide
  have hhead := h _ _ (Mounts.empty.load "/secrets/" habs (handle con)) req "u" ["v", "key"]
    (List.mem_cons_of_mem _ List.mem_cons_self) rfl rfl
    ⟨by decide, by decide, by decide⟩ rfl
    ⟨_, handle con, hpass, hchain, hlong, (pipeline_iff _ _ _).mpr
      ⟨_, mountOf "/secrets/", _, handle con, hpass, hchain, hlong, rfl⟩⟩
  exact absurd hhead (by decide)

/-- The condition at work on an unencoded path. -/
theorem authorization_agrees_plain :
    DispatchedUnderUser "/secrets/" "/secrets/u/key" :=
  (authorization_agrees_iff (by decide)).mpr (Or.inl (by decide))

end Authorizers
