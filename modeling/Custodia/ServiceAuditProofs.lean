import Custodia.ServiceAudit

/-! # ServiceAuditProofs — what the service log tells

    The log of a request is a trail of PASS records, and a FAIL record at its
    end where the request is refused. Nothing else is in it, and one refusal
    is not: that of `SimpleCredsAuth` where the peer has no credentials.

    * `auth_recorded`, `authz_recorded`: one vote, one record;
    * `authenticate_ended`, `authorize_ended`: how the loops end;
    * `audit_trail`: the log of every request. -/

namespace ServiceAuditProofs

open PosixPath PyValues SqliteStore SecretsConsumer Verdicts Pipeline AuthKeysProofs ServiceAudit

variable {β : Type}

/-! ## The plugins as voters -/

/-- The vote of an authenticator, without its records. -/
def authVoter (peer : Peer) (auth : AuthPlugin) : Voter Request :=
  fun req => ((auth.handle peer req).verdict, (auth.handle peer req).request)

/-- The vote of an authorizer, without its records. -/
def authzVoter (peer : Peer) (authz : AuthzPlugin) : Voter Request :=
  fun req => ((authz.handle peer req).verdict, (authz.handle peer req).request)

/-- The configuration, without the log. -/
def unlogged (config : ServerPlugins β) (peer : Peer) : HttpConfig β where
  authenticators := config.authenticators.map (List.map (authVoter peer))
  authorizers := config.authorizers.map (List.map (authzVoter peer))
  consumers := config.consumers

section Voters

variable (peer : Peer) (sec : Str)

/-- Without its records, the authenticator is the one of the pipeline. -/
theorem authVoter_header (header : Str) (allowed : Option (List Str)) :
    authVoter peer (.header sec header allowed)
      = (Authorizers.simpleHeaderAuth header allowed).handle := by
  funext req
  show (Vote.verdict (simpleHeaderAuth _ _ _ _ _), Vote.request (simpleHeaderAuth _ _ _ _ _)) = _
  rw [simpleHeaderAuth]
  unfold Authorizers.simpleHeaderAuth
  dsimp only
  cases req.header header with
  | none => rfl
  | some value =>
      dsimp only
      split_ifs <;> rfl

/-- The store is read, and left as it is. -/
theorem authVoter_keys (auth : SimpleAuthKeys) (store : Table) (req : Request) :
    (auth.handle req).run exec store
      = (.ok (authVoter peer (.keys sec auth (fun key => (exec (.get key) store).1)) req),
        store) := by
  show _ = (Except.ok (Vote.verdict (simpleAuthKeys _ _ _ _ _),
    Vote.request (simpleAuthKeys _ _ _ _ _)), store)
  rw [SimpleAuthKeys.handle, simpleAuthKeys]
  cases req.header auth.idHeader with
  | none => cases req.header auth.keyHeader <;> rfl
  | some name =>
      have hread : (exec (.get (auth.dbKey name)) store).2 = store := rfl
      show (Interaction.Prog.bind (Interaction.Prog.attempt (storeGet (auth.dbKey name))) _).run _ _
        = _
      rw [Interaction.Prog.run_bind, Interaction.Prog.run_attempt, storeGet,
        Interaction.Prog.run_perform]
      dsimp only
      rw [hread]
      split_ifs <;> rfl

/-- The walk that remembers the path it comes to ends where the other one does,
    with the same verdict. -/
theorem walkMatch_isSome (paths : List Str) (fuel : Nat) (path : Str) :
    Authorizers.pathWalk paths fuel path
      = (walkMatch paths fuel path).map
          (fun found => if found.isSome then some true else none) := by
  induction fuel generalizing path with
  | zero => rfl
  | succ fuel ih =>
      rw [Authorizers.pathWalk, walkMatch]
      split_ifs
      · rfl
      · rfl
      · exact ih _
      · exact ih _

/-- Without its records, the authorizer of paths is the one of the pipeline. -/
theorem authzVoter_paths (paths : List Str) :
    authzVoter peer (.paths sec paths) = (Authorizers.simplePathAuthz paths).handle := by
  funext req
  show (Vote.verdict (simplePathVote _ _ _ _), Vote.request (simplePathVote _ _ _ _))
    = (if Authorizers.strictMatch paths req.path = true then some true
        else (Authorizers.pathWalk paths (req.path.length + 2) req.path).getD none, req)
  rw [simplePathVote, walkMatch_isSome]
  split_ifs with hstrict
  · rfl
  · cases walkMatch paths (req.path.length + 2) req.path with
    | none => rfl
    | some found => cases found <;> rfl

/-- Without its records, the authorizer of namespaces is the one of the
    pipeline. -/
theorem authzVoter_userNamespace (path : Str) :
    authzVoter peer (.userNamespace sec path) = (Authorizers.userNameSpace path).handle := by
  funext req
  show (Vote.verdict (userNameSpaceVote _ _ _ _), Vote.request (userNameSpaceVote _ _ _ _))
    = Authorizers.userNameSpaceHandle path req
  rw [userNameSpaceVote, Authorizers.userNameSpaceHandle]
  by_cases hpre : path <+: req.path
  · rw [if_neg (not_not.mpr hpre), if_neg (not_not.mpr hpre)]
    cases req.remoteUser with
    | none => rfl
    | some name =>
        dsimp only
        split_ifs <;> rfl
  · rw [if_pos hpre, if_pos hpre]

end Voters

/-! ## One vote, one record -/

/-- `SimpleCredsAuth` has nothing to say about a peer without credentials. -/
def Speechless (auth : AuthPlugin) (req : Request) : Prop :=
  match auth with
  | .creds _ _ _ => req.creds = .absent ∨ req.creds = .unknown
  | .header _ _ _ => False
  | .keys _ _ _ => False
  | .cert _ _ => False
  | .ipa _ => False

/-- The user that a record names: an authentication passed, other than that of
    `SimpleCredsAuth`. -/
def SvcRecord.user (r : SvcRecord) : Option Str :=
  if r.action = auditSvcAuthPass then
    match r.origin, r.name with
    | .plugin cls _, .text name => if cls = "SimpleCredsAuth" then none else some name
    | _, _ => none
  else none

/-- The user after the records: the one that is named last. -/
def userAfter (user : Option Str) (records : List SvcRecord) : Option Str :=
  records.foldl (fun user r => (SvcRecord.user r).or user) user

variable {peer : Peer} {req : Request}

/-- What an authenticator can do: abstain, refuse with or without a record, or
    pass the peer, perhaps under a name. -/
inductive AuthVote (auth : AuthPlugin) (req : Request) : Vote → Prop where
  | abstains : AuthVote auth req ⟨none, req, []⟩
  | speechless (h : Speechless auth req) : AuthVote auth req ⟨some false, req, []⟩
  | refuses {r} (h : ¬ Speechless auth req) (hr : r.action = auditSvcAuthFail) :
      AuthVote auth req ⟨some false, req, [r]⟩
  | passes {r} (hr : r.action = auditSvcAuthPass) (hnone : SvcRecord.user r = none) :
      AuthVote auth req ⟨some true, req, [r]⟩
  | names {r name} (hr : r.action = auditSvcAuthPass) (hname : SvcRecord.user r = some name) :
      AuthVote auth req ⟨some true, { req with remoteUser := some name }, [r]⟩

/-- **Every vote of an authenticator is on record**, with one exception. -/
theorem auth_vote (auth : AuthPlugin) (peer : Peer) (req : Request) :
    AuthVote auth req (auth.handle peer req) := by
  cases auth with
  | creds sec uid gid =>
      show AuthVote _ _ (simpleCredsAuth _ _ _ _ _)
      rw [simpleCredsAuth]
      cases hcreds : req.creds with
      -- a peer without credentials is refused before anything is recorded
      | absent => exact .speechless (Or.inl hcreds)
      | unknown => exact .speechless (Or.inr hcreds)
      | peer pid u g =>
          have hspeech : ¬ Speechless (.creds sec uid gid) req := by
            rintro (h | h) <;> rw [hcreds] at h <;> cases h
          dsimp only
          split_ifs
          · exact .passes rfl rfl
          · exact .refuses hspeech rfl
  | header sec name allowed =>
      show AuthVote _ _ (simpleHeaderAuth _ _ _ _ _)
      rw [simpleHeaderAuth]
      cases req.header name with
      | none => exact .abstains
      | some value =>
          dsimp only
          split_ifs
          · exact .names rfl rfl
          · exact .refuses id rfl
  | keys sec sak stored =>
      show AuthVote _ _ (simpleAuthKeys _ _ _ _ _)
      rw [simpleAuthKeys]
      cases req.header sak.idHeader with
      | none =>
          cases req.header sak.keyHeader with
          | none => exact .abstains
          -- a key without a name is refused
          | some key => exact .refuses id rfl
      | some name =>
          dsimp only
          split_ifs
          · exact .names rfl rfl
          · exact .refuses id rfl
  | cert sec name =>
      show AuthVote _ _ (simpleClientCertAuth _ _ _ _)
      rw [simpleClientCertAuth]
      cases peer.clientCert with
      | none => exact .abstains
      | some subject =>
          dsimp only
          split_ifs
          · cases (subjectLoop subject [] none).2 with
            | none => exact .refuses id rfl
            | some name =>
                cases name with
                -- a certificate without a common name names nobody
                | nil => exact .refuses id rfl
                | cons c name => exact .names rfl rfl
          · exact .abstains
  | ipa sec => exact .abstains

/-- The user that is known so far does not influence an authenticator. -/
theorem auth_asUser (auth : AuthPlugin) (peer : Peer) (req : Request) (user : Option Str) :
    (auth.handle peer { req with remoteUser := user }).verdict
      = (auth.handle peer req).verdict := by
  cases auth with
  | creds sec uid gid =>
      show (simpleCredsAuth _ _ _ _ _).verdict = (simpleCredsAuth _ _ _ _ _).verdict
      rw [simpleCredsAuth, simpleCredsAuth]
      cases req.creds with
      | absent => rfl
      | unknown => rfl
      | peer pid u g =>
          dsimp only
          split_ifs <;> rfl
  | header sec name allowed =>
      show (simpleHeaderAuth _ _ _ _ _).verdict = (simpleHeaderAuth _ _ _ _ _).verdict
      rw [simpleHeaderAuth, simpleHeaderAuth,
        show Request.header { req with remoteUser := user } name = req.header name from rfl]
      cases req.header name with
      | none => rfl
      | some value =>
          dsimp only
          split_ifs <;> rfl
  | keys sec sak stored =>
      show (simpleAuthKeys _ _ _ _ _).verdict = (simpleAuthKeys _ _ _ _ _).verdict
      rw [simpleAuthKeys, simpleAuthKeys,
        show Request.header { req with remoteUser := user } sak.idHeader
          = req.header sak.idHeader from rfl,
        show Request.header { req with remoteUser := user } sak.keyHeader
          = req.header sak.keyHeader from rfl]
      cases req.header sak.idHeader with
      | none => cases req.header sak.keyHeader <;> rfl
      | some name =>
          dsimp only
          split_ifs <;> rfl
  | cert sec name =>
      show (simpleClientCertAuth _ _ _ _).verdict = (simpleClientCertAuth _ _ _ _).verdict
      rw [simpleClientCertAuth, simpleClientCertAuth,
        show Request.header { req with remoteUser := user } name = req.header name from rfl]
      cases peer.clientCert with
      | none => rfl
      | some subject =>
          dsimp only
          split_ifs
          · cases (subjectLoop subject [] none).2 with
            | none => rfl
            | some name => cases name <;> rfl
          · rfl
  | ipa sec => rfl

/-- What an authorizer can do: abstain without a record, refuse with a FAIL, or
    let the request pass with a PASS. None of them changes the user. -/
inductive AuthzVote (req : Request) : Vote → Prop where
  | abstains : AuthzVote req ⟨none, req, []⟩
  | refuses {r} (hr : r.action = auditSvcAuthzFail) : AuthzVote req ⟨some false, req, [r]⟩
  | passes {r req'} (hr : r.action = auditSvcAuthzPass) (huser : req'.remoteUser = req.remoteUser) :
      AuthzVote req ⟨some true, req', [r]⟩

/-- The authorizer of paths passes a request with a record, or abstains; it
    refuses nobody. -/
theorem authzVote_paths (paths : List Str) (origin : Origin) (peer : Peer) (req : Request) :
    AuthzVote req (simplePathVote paths origin peer req) := by
  rw [simplePathVote]
  split_ifs
  · exact .passes rfl rfl
  · cases (walkMatch paths (req.path.length + 2) req.path).getD none with
    | none => exact .abstains
    | some path => exact .passes rfl rfl

/-- **Every vote of an authorizer is on record.** -/
theorem authz_vote (authz : AuthzPlugin) (peer : Peer) (req : Request) :
    AuthzVote req (authz.handle peer req) := by
  cases authz with
  | paths name entries => exact authzVote_paths entries _ peer req
  | userNamespace sec path =>
      show AuthzVote _ (userNameSpaceVote _ _ _ _)
      rw [userNameSpaceVote]
      split_ifs
      · cases huser : req.remoteUser with
        | none => exact .refuses rfl
        | some name =>
            dsimp only
            split_ifs
            · exact .passes rfl huser.symm
            · exact .refuses rfl
      · exact .abstains
  | kem name entries kk =>
      show AuthzVote _ (kemKeysVote _ _ _ _ _)
      -- the vote is that of the paths; only the key store is added to the request
      rw [kemKeysVote]
      generalize hinpath : simplePathVote entries _ peer req = inpath
      have hvote : AuthzVote req inpath := hinpath ▸ authzVote_paths entries _ peer req
      cases hvote with
      | abstains => exact .abstains
      | refuses hr => exact .refuses hr
      | passes hr huser => exact .passes hr huser

/-! ## The loops -/

/-- The first authenticator that says no. -/
def firstRefusal (peer : Peer) (auths : List AuthPlugin) (req : Request) : Option AuthPlugin :=
  auths.find? (fun auth => decide ((auth.handle peer req).verdict = some false))

/-- How the authenticators end: everybody who was asked has passed the peer or
    abstained, or the first one to refuse has left a FAIL behind the others, or
    has not been able to. -/
inductive Authenticated (peer : Peer) (auths : List AuthPlugin) (validOnce : Bool)
    (req : Request) : Except Exc (Bool × Request) × List SvcRecord → Prop where
  | passed {records} (hfirst : firstRefusal peer auths req = none)
      (hall : ∀ r ∈ records, r.action = auditSvcAuthPass) :
      Authenticated peer auths validOnce req
        (.ok (validOnce || !records.isEmpty,
          { req with remoteUser := userAfter req.remoteUser records }), records)
  | refused {auth records r} (hfirst : firstRefusal peer auths req = some auth)
      (hspeech : ¬ Speechless auth req) (hall : ∀ r ∈ records, r.action = auditSvcAuthPass)
      (hlast : r.action = auditSvcAuthFail) :
      Authenticated peer auths validOnce req (.error (.http 403 none), records ++ [r])
  | speechless {auth records} (hfirst : firstRefusal peer auths req = some auth)
      (hspeech : Speechless auth req) (hall : ∀ r ∈ records, r.action = auditSvcAuthPass) :
      Authenticated peer auths validOnce req (.error (.http 403 none), records)

/-- Who refuses first does not depend on the user that is known so far. -/
theorem firstRefusal_asUser (peer : Peer) (auths : List AuthPlugin) (req : Request)
    (user : Option Str) :
    firstRefusal peer auths { req with remoteUser := user } = firstRefusal peer auths req := by
  rw [firstRefusal, firstRefusal]
  refine congrArg (fun p => auths.find? p) (funext fun auth => ?_)
  rw [auth_asUser]

/-- Having nothing to say is about the peer, and not about the user that is
    known so far. -/
theorem speechless_asUser {auth : AuthPlugin} {user : Option Str} :
    Speechless auth { req with remoteUser := user } ↔ Speechless auth req := by
  cases auth <;> exact Iff.rfl

/-- An authenticator that does not refuse leaves the rest to the others. -/
theorem firstRefusal_cons {auth : AuthPlugin} {auths : List AuthPlugin}
    (h : (auth.handle peer req).verdict ≠ some false) :
    firstRefusal peer (auth :: auths) req = firstRefusal peer auths req :=
  List.find?_cons_of_neg (by simpa using h)

/-- An authenticator that says no at the head of the list is the first to do so. -/
theorem firstRefusal_self {auth : AuthPlugin} {auths : List AuthPlugin}
    (h : (auth.handle peer req).verdict = some false) :
    firstRefusal peer (auth :: auths) req = some auth :=
  List.find?_cons_of_pos (by simpa using h)

/-- The records of a passed authenticator come before those of the rest. -/
theorem authenticated_cons {auth : AuthPlugin} {auths : List AuthPlugin} {validOnce : Bool}
    {r : SvcRecord} (user : Option Str)
    (hpass : (auth.handle peer req).verdict ≠ some false) (hr : r.action = auditSvcAuthPass)
    (huser : user = (SvcRecord.user r).or req.remoteUser)
    {ended : Except Exc (Bool × Request) × List SvcRecord}
    (h : Authenticated peer auths true { req with remoteUser := user } ended) :
    Authenticated peer (auth :: auths) validOnce req (ended.1, r :: ended.2) := by
  have hcons {records : List SvcRecord} (hall : ∀ r ∈ records, r.action = auditSvcAuthPass) :
      ∀ x ∈ r :: records, x.action = auditSvcAuthPass :=
    List.forall_mem_cons.mpr ⟨hr, hall⟩
  -- the name it has set changes no later verdict
  have hfirst : firstRefusal peer (auth :: auths) req
      = firstRefusal peer auths { req with remoteUser := user } :=
    (firstRefusal_cons hpass).trans (firstRefusal_asUser peer auths req user).symm
  cases h with
  | @passed records hnone hall =>
      have hend : userAfter user records = userAfter req.remoteUser (r :: records) := by
        rw [huser]
        rfl
      have hpassed : Authenticated peer (auth :: auths) validOnce req (.ok (validOnce || true,
          { req with remoteUser := userAfter req.remoteUser (r :: records) }), r :: records) :=
        .passed (hfirst.trans hnone) (hcons hall)
      rw [← hend, Bool.or_true] at hpassed
      exact hpassed
  | refused hsome hspeech hall hlast =>
      rw [← List.cons_append]
      exact .refused (hfirst.trans hsome) (fun h => hspeech (speechless_asUser.mpr h))
        (hcons hall) hlast
  | speechless hsome hspeech hall =>
      exact .speechless (hfirst.trans hsome) (speechless_asUser.mp hspeech) (hcons hall)

/-- One that abstains leaves no trace. -/
theorem authenticated_skip {auth : AuthPlugin} {auths : List AuthPlugin} {validOnce : Bool}
    (hpass : (auth.handle peer req).verdict ≠ some false)
    {ended : Except Exc (Bool × Request) × List SvcRecord}
    (h : Authenticated peer auths validOnce req ended) :
    Authenticated peer (auth :: auths) validOnce req ended := by
  have hfirst : firstRefusal peer (auth :: auths) req = firstRefusal peer auths req :=
    firstRefusal_cons hpass
  cases h with
  | passed hnone hall => exact .passed (hfirst.trans hnone) hall
  | refused hsome hspeech hall hlast => exact .refused (hfirst.trans hsome) hspeech hall hlast
  | speechless hsome hspeech hall => exact .speechless (hfirst.trans hsome) hspeech hall

/-- **What the loop over the authenticators ends in**: a refusal by the first of
    them that says no, or the records of all that have passed the peer. -/
theorem authenticated (peer : Peer) (auths : List AuthPlugin) (validOnce : Bool) (req : Request) :
    Authenticated peer auths validOnce req (authenticateAudited peer auths validOnce req) := by
  induction auths generalizing validOnce req with
  | nil =>
      have hpassed : Authenticated peer [] validOnce req (.ok (validOnce || false, req), []) :=
        .passed rfl (fun r hr => absurd hr List.not_mem_nil)
      rw [Bool.or_false] at hpassed
      exact hpassed
  | cons auth auths ih =>
      -- what one of them does to the log decides how the rest goes on
      rw [authenticateAudited]
      have hvote := auth_vote auth peer req
      generalize hhandle : auth.handle peer req = vote at hvote ⊢
      have hverdict : (auth.handle peer req).verdict = vote.verdict := congrArg Vote.verdict hhandle
      cases hvote with
      | abstains =>
          have hpass : (auth.handle peer req).verdict ≠ some false := by
            rw [hverdict]
            exact fun h => by cases h
          exact authenticated_skip hpass (ih validOnce req)
      | speechless h =>
          exact .speechless (firstRefusal_self hverdict) h (fun r hr => absurd hr List.not_mem_nil)
      | @refuses r h hr =>
          have hrefused : Authenticated peer (auth :: auths) validOnce req
              (.error (.http 403 none), [] ++ [r]) :=
            .refused (firstRefusal_self hverdict) h (fun r hr => absurd hr List.not_mem_nil) hr
          exact hrefused
      | passes hr hnone =>
          refine authenticated_cons req.remoteUser ?_ hr ?_ (ih true req)
          · rw [hverdict]
            exact fun h => by cases h
          · rw [hnone]
            rfl
      | names hr hname =>
          refine authenticated_cons _ ?_ hr ?_ (ih true _)
          · rw [hverdict]
            exact fun h => by cases h
          · rw [hname]
            rfl

/-- How the authorizers end: with nothing but PASS on record, and a verdict if
    there is any, or with the FAIL of the one that has refused. -/
inductive Authorized (authzOk : Option Bool) (req : Request) :
    (Option Bool × Request) × List SvcRecord → Prop where
  | decided {records req'} (hall : ∀ r ∈ records, r.action = auditSvcAuthzPass)
      (huser : req'.remoteUser = req.remoteUser) :
      Authorized authzOk req ((if records = [] then authzOk else some true, req'), records)
  | refused {records r req'} (hall : ∀ r ∈ records, r.action = auditSvcAuthzPass)
      (hlast : r.action = auditSvcAuthzFail) :
      Authorized authzOk req ((some false, req'), records ++ [r])

/-- **What the loop over the authorizers ends in**: a refusal by one of them, or
    a decision, with a record of every one that has granted. -/
theorem authorized (peer : Peer) (authzs : List AuthzPlugin) (authzOk : Option Bool)
    (req : Request) : Authorized authzOk req (authorizeAudited peer authzs authzOk req) := by
  induction authzs generalizing authzOk req with
  | nil =>
      have hdecided : Authorized authzOk req
          ((if ([] : List SvcRecord) = [] then authzOk else some true, req), []) :=
        .decided (fun r hr => absurd hr List.not_mem_nil) rfl
      rw [if_pos rfl] at hdecided
      exact hdecided
  | cons authz authzs ih =>
      rw [authorizeAudited]
      have hvote := authz_vote authz peer req
      generalize authz.handle peer req = vote at hvote ⊢
      cases hvote with
      | abstains => exact ih authzOk req
      | @refuses r hr =>
          have hrefused : Authorized authzOk req ((some false, req), [] ++ [r]) :=
            .refused (fun r hr => absurd hr List.not_mem_nil) hr
          exact hrefused
      | @passes r req' hr huser =>
          have hcons {records : List SvcRecord}
              (hall : ∀ r ∈ records, r.action = auditSvcAuthzPass) :
              ∀ x ∈ r :: records, x.action = auditSvcAuthzPass :=
            List.forall_mem_cons.mpr ⟨hr, hall⟩
          dsimp only
          generalize hrest : authorizeAudited peer authzs (some true) req' = rest
          have hended : Authorized (some true) req' rest := hrest ▸ ih (some true) req'
          cases hended with
          | @decided records req'' hall huser' =>
              have hdecided : Authorized authzOk req
                  ((if r :: records = [] then authzOk else some true, req''), r :: records) :=
                .decided (hcons hall) (huser'.trans huser)
              rw [if_neg (List.cons_ne_nil r records)] at hdecided
              -- a `True` stands whatever it meets, so the value before it is forgotten
              rw [ite_self]
              exact hdecided
          | @refused records last req'' hall hlast =>
              have hrefused : Authorized authzOk req
                  ((some false, req''), (r :: records) ++ [last]) := .refused (hcons hall) hlast
              exact hrefused

/-! ## The log is only a log -/

/-- The log changes no verdict of the authenticators. -/
theorem authenticate_unlogged (peer : Peer) (auths : List AuthPlugin) (validOnce : Bool)
    (req : Request) :
    (authenticateAudited peer auths validOnce req).1
      = authenticate (auths.map (authVoter peer)) validOnce req := by
  induction auths generalizing validOnce req with
  | nil => rfl
  | cons auth auths ih =>
      rw [authenticateAudited, List.map_cons, authenticate, authVoter]
      cases (auth.handle peer req).verdict with
      | none => exact ih _ _
      | some valid =>
          cases valid with
          | false => rfl
          | true => exact ih _ _

/-- The log changes no verdict of the authorizers. -/
theorem authorize_unlogged (peer : Peer) (authzs : List AuthzPlugin) (authzOk : Option Bool)
    (req : Request) :
    (authorizeAudited peer authzs authzOk req).1
      = authorize (authzs.map (authzVoter peer)) authzOk req := by
  induction authzs generalizing authzOk req with
  | nil => rfl
  | cons authz authzs ih =>
      rw [authorizeAudited, List.map_cons, authorize, authzVoter]
      cases (authz.handle peer req).verdict with
      | none => exact ih _ _
      | some valid =>
          cases valid with
          | false => rfl
          | true => exact ih _ _

/-- The request passes when both loops end well. -/
theorem passes_iff_loops (config : ServerPlugins β) (granted : Request) :
    Passes (unlogged config peer) req granted ↔
      req.pathChain.head? = some []
      ∧ ∃ auths authzs authed, config.authenticators = some auths
        ∧ config.authorizers = some authzs
        ∧ (authenticateAudited peer auths false req).1 = .ok (true, authed)
        ∧ (authorizeAudited peer authzs none authed).1 = (some true, granted) := by
  refine and_congr_right (fun _ => ?_)
  constructor
  · rintro ⟨auths', authzs', hauths, hauthzs, hauth, hauthz, rfl⟩
    obtain ⟨auths, hsome, rfl⟩ := Option.map_eq_some_iff.mp hauths
    obtain ⟨authzs, hsome', rfl⟩ := Option.map_eq_some_iff.mp hauthzs
    refine ⟨auths, authzs, after (auths.map (authVoter peer)) req, hsome, hsome', ?_, ?_⟩
    · rw [authenticate_unlogged]
      exact (authenticate_iff _ false req _).mpr ⟨hauth.1, Or.inr hauth.2, rfl⟩
    · rw [authorize_unlogged]
      exact (authorize_iff _ none _ _ (by simp)).mpr ⟨hauthz.1, Or.inr hauthz.2, rfl⟩
  · rintro ⟨auths, authzs, authed, hsome, hsome', hauth, hauthz⟩
    rw [authenticate_unlogged] at hauth
    rw [authorize_unlogged] at hauthz
    obtain ⟨hno, hyes, rfl⟩ := (authenticate_iff _ false req _).mp hauth
    obtain ⟨hno', hyes', rfl⟩ := (authorize_iff _ none _ _ (by simp)).mp hauthz
    exact ⟨_, _, congrArg (Option.map _) hsome, congrArg (Option.map _) hsome',
      ⟨hno, hyes.resolve_left Bool.false_ne_true⟩, ⟨hno', hyes'.resolve_left (by simp)⟩, rfl⟩

/-- The log changes nothing from the authorizers on. -/
theorem dispatch_unlogged (config : ServerPlugins β) (pathChain : List Str) (authed : Request) :
    (dispatchAudited config peer pathChain authed).1
      = authorizeAndSelect (unlogged config peer) pathChain authed := by
  rw [dispatchAudited, authorizeAndSelect, unlogged]
  cases config.authorizers with
  | none => rfl
  | some authzs =>
      dsimp only [Option.map_some]
      rw [← authorize_unlogged]
      rcases authorizeAudited peer authzs none authed with ⟨⟨verdict, granted⟩, records⟩
      cases verdict with
      | none => rfl
      | some ok =>
          cases ok with
          | false => rfl
          | true =>
              dsimp only
              cases select config.consumers pathChain <;> rfl

/-- The result is that of the pipeline without a log. -/
theorem pipeline_unlogged (config : ServerPlugins β) (peer : Peer) (req : Request) :
    (auditedPipeline config peer req).1 = pipeline (unlogged config peer) req := by
  have hdispatch (authed : Request) : (dispatchAudited config peer req.pathChain authed).1
      = authorizeAndSelect (unlogged config peer) req.pathChain authed :=
    dispatch_unlogged config req.pathChain authed
  rw [auditedPipeline, pipeline]
  split_ifs
  · rfl
  · rw [show (unlogged config peer).authenticators
      = config.authenticators.map (List.map (authVoter peer)) from rfl]
    cases config.authenticators with
    | none => rfl
    | some auths =>
        dsimp only [Option.map_some]
        rw [← authenticate_unlogged]
        rcases authenticateAudited peer auths false req with ⟨result, records⟩
        cases result with
        | error e => rfl
        | ok authed =>
            obtain ⟨validOnce, authed⟩ := authed
            cases validOnce with
            | false => rfl
            | true => exact hdispatch authed

/-! ## The whole trail -/

/-- The record is a FAIL, of an authentication or of an authorization. -/
def Fails (r : SvcRecord) : Prop := r.action = auditSvcAuthFail ∨ r.action = auditSvcAuthzFail

/-- The refusals that are not on record: no authenticators or no authorizers are
    configured, or `SimpleCredsAuth` is the first to refuse and has no
    credentials to speak of. -/
inductive Unrecorded (config : ServerPlugins β) (peer : Peer) (req : Request) : Prop where
  | authenticators (h : config.authenticators = none)
  | authorizers {auths} (h : config.authenticators = some auths)
      (hauth : Granted (votes (auths.map (authVoter peer)) req)) (hnone : config.authorizers = none)
  | speechless {auths auth} (h : config.authenticators = some auths)
      (hfirst : firstRefusal peer auths req = some auth) (hspeech : Speechless auth req)

/-- The second record of a refusal by an authorizer. -/
def ByHandler (r : SvcRecord) : Prop := r.origin = .handler ∧ r.action = auditSvcAuthzFail

/-- What the log of a request tells: whether it has been refused, with the FAIL
    at the end, and if it has passed, a PASS of either kind and the user it is
    handled for. -/
structure Truthful (config : ServerPlugins β) (peer : Peer) (req : Request)
    (ended : Except Exc β × List SvcRecord) : Prop where
  refused_iff : (∃ r ∈ ended.2, Fails r)
    ↔ ended.1 = .error (.http 403 none) ∧ ¬ Unrecorded config peer req
  last : ∀ early r late, ended.2 = early ++ r :: late → Fails r →
    late = [] ∨ ∃ x, late = [x] ∧ ByHandler x
  passed : ∀ granted, Passes (unlogged config peer) req granted →
    (∃ r ∈ ended.2, r.action = auditSvcAuthPass) ∧ (∃ r ∈ ended.2, r.action = auditSvcAuthzPass)
      ∧ granted.remoteUser = userAfter req.remoteUser ended.2

section Trail

variable {config : ServerPlugins β} {records : List SvcRecord}

/-- No record tells of a refusal. -/
def Clean (records : List SvcRecord) : Prop :=
  ∀ r ∈ records, r.action = auditSvcAuthPass ∨ r.action = auditSvcAuthzPass

/-- A PASS is no FAIL. -/
theorem not_fails {r : SvcRecord} (h : r.action = auditSvcAuthPass ∨ r.action = auditSvcAuthzPass) :
    ¬ Fails r := by
  rintro (hfail | hfail) <;> rcases h with hpass | hpass <;>
    exact absurd (hpass.symm.trans hfail) (by decide)

/-- What fails stands behind what is clean. -/
theorem split_clean {tail early late : List SvcRecord} {r : SvcRecord} (hclean : Clean records)
    (hsplit : records ++ tail = early ++ r :: late) (hfail : Fails r) :
    ∃ front, tail = front ++ r :: late := by
  rcases List.append_eq_append_iff.mp hsplit with ⟨front, -, htail⟩ | ⟨rest, hrest, htail⟩
  · exact ⟨front, htail⟩
  · cases rest with
    | nil => exact ⟨[], htail.symm⟩
    | cons x rest =>
        have hmem : r ∈ records := by
          rw [hrest, (List.cons.inj htail).1]
          exact List.mem_append_right _ List.mem_cons_self
        exact absurd hfail (not_fails (hclean r hmem))

/-- A log that is clean up to a FAIL at its end is truthful about a refusal that
    has to be recorded. -/
theorem truthful_of_fail {tail : List SvcRecord} (hclean : Clean records)
    (htail : ∃ r, Fails r ∧ (tail = [r] ∨ ∃ x, tail = [r, x] ∧ ByHandler x))
    (hrecorded : ¬ Unrecorded config peer req)
    (hpasses : ∀ granted, ¬ Passes (unlogged config peer) req granted) :
    Truthful config peer req (.error (.http 403 none), records ++ tail) := by
  obtain ⟨r, hfail, htail⟩ := htail
  have hmem : r ∈ tail := by
    rcases htail with rfl | ⟨x, rfl, -⟩
    · exact List.mem_cons_self
    · exact List.mem_cons_self
  refine ⟨iff_of_true ⟨r, List.mem_append_right _ hmem, hfail⟩ ⟨rfl, hrecorded⟩,
    fun early y late hsplit hy => ?_, fun granted hgranted => absurd hgranted (hpasses granted)⟩
  -- any other failure would stand behind the clean records, so in the tail
  obtain ⟨front, hfront⟩ := split_clean hclean hsplit hy
  have hend {front : List SvcRecord} : [] ≠ front ++ y :: late := by
    intro h
    exact List.cons_ne_nil y late (List.append_eq_nil_iff.mp h.symm).2
  rcases htail with rfl | ⟨x, rfl, hhandler⟩
  · cases front with
    | nil => exact Or.inl (List.cons.inj hfront).2.symm
    | cons z front => exact absurd (List.cons.inj hfront).2 hend
  · cases front with
    | nil => exact Or.inr ⟨x, (List.cons.inj hfront).2.symm, hhandler⟩
    | cons z front =>
        have hrest : [x] = front ++ y :: late := (List.cons.inj hfront).2
        cases front with
        | nil => exact Or.inl (List.cons.inj hrest).2.symm
        | cons w front => exact absurd (List.cons.inj hrest).2 hend

/-- A clean log is truthful about a request that passes, and about a refusal
    that nobody records. -/
theorem truthful_of_clean {result : Except Exc β} (hclean : Clean records)
    (hresult : result = .error (.http 403 none) → Unrecorded config peer req)
    (hpasses : ∀ granted, Passes (unlogged config peer) req granted →
      (∃ r ∈ records, r.action = auditSvcAuthPass) ∧ (∃ r ∈ records, r.action = auditSvcAuthzPass)
        ∧ granted.remoteUser = userAfter req.remoteUser records) :
    Truthful config peer req (result, records) := by
  refine ⟨iff_of_false ?_ (fun h => h.2 (hresult h.1)), ?_, hpasses⟩
  · rintro ⟨r, hr, hfail⟩
    exact not_fails (hclean r hr) hfail
  · rintro early r late hsplit hfail
    have hmem : r ∈ records := by
      rw [show records = early ++ r :: late from hsplit]
      exact List.mem_append_right _ List.mem_cons_self
    exact absurd hfail (not_fails (hclean r hmem))

/-- Authorizers name nobody. -/
theorem userAfter_authz (user : Option Str) {more : List SvcRecord}
    (hall : ∀ r ∈ more, r.action = auditSvcAuthzPass) : userAfter user more = user := by
  induction more with
  | nil => rfl
  | cons r more ih =>
      have hnone : SvcRecord.user r = none := by
        rw [SvcRecord.user, hall r List.mem_cons_self]
        rfl
      have hrest := ih (fun x hx => hall x (List.mem_cons_of_mem r hx))
      rw [userAfter, List.foldl_cons, hnone]
      exact hrest

/-- The user that is named last after two parts of the log is the one after the
    second part, if it names one. -/
theorem userAfter_append (user : Option Str) (records more : List SvcRecord) :
    userAfter user (records ++ more) = userAfter (userAfter user records) more :=
  List.foldl_append

/-- The records of authenticators and authorizers that have let a request pass
    are clean together. -/
theorem clean_append {more : List SvcRecord} (hall : ∀ r ∈ records, r.action = auditSvcAuthPass)
    (hmore : ∀ r ∈ more, r.action = auditSvcAuthzPass) : Clean (records ++ more) := by
  intro r hr
  rcases List.mem_append.mp hr with hr | hr
  · exact Or.inl (hall r hr)
  · exact Or.inr (hmore r hr)

section Dispatch

variable {auths : List AuthPlugin} {authed : Request}

/-- What passes has been granted by the authorizers. -/
theorem granted_of_passes (hauths : config.authenticators = some auths)
    (hauth : authenticateAudited peer auths false req = (.ok (true, authed), records))
    {granted : Request} (hgranted : Passes (unlogged config peer) req granted) :
    ∃ authzs, config.authorizers = some authzs
      ∧ (authorizeAudited peer authzs none authed).1 = (some true, granted) := by
  obtain ⟨-, auths', authzs, authed', hauths', hauthzs, hrun, hgrant⟩ :=
    (passes_iff_loops config granted).mp hgranted
  obtain rfl := Option.some.inj (hauths.symm.trans hauths')
  rw [hauth] at hrun
  obtain ⟨-, rfl⟩ := Prod.mk.inj (Except.ok.inj hrun)
  exact ⟨authzs, hauthzs, hgrant⟩

/-- What the authorizers do not grant does not pass. -/
theorem not_passes_of_verdict (hauths : config.authenticators = some auths)
    (hauth : authenticateAudited peer auths false req = (.ok (true, authed), records))
    {authzs : List AuthzPlugin} (hauthzs : config.authorizers = some authzs)
    {verdict : Option Bool} (hverdict : verdict ≠ some true) {last : Request}
    (hrun : (authorizeAudited peer authzs none authed).1 = (verdict, last))
    (granted : Request) : ¬ Passes (unlogged config peer) req granted := by
  intro hgranted
  obtain ⟨authzs', hsome, hgrant⟩ := granted_of_passes hauths hauth hgranted
  obtain rfl := Option.some.inj (hauthzs.symm.trans hsome)
  rw [hrun] at hgrant
  exact hverdict (Prod.mk.inj hgrant).1

/-- After an authentication that nobody has refused, only a server without
    authorizers keeps silent. -/
theorem authorizers_of_unrecorded (hauths : config.authenticators = some auths)
    (hfirst : firstRefusal peer auths req = none) (h : Unrecorded config peer req) :
    config.authorizers = none := by
  cases h with
  | authenticators h => rw [hauths] at h; cases h
  | authorizers h hgrant hnone => exact hnone
  | speechless h hsome hspeech =>
      obtain rfl := Option.some.inj (hauths.symm.trans h)
      rw [hfirst] at hsome
      cases hsome

/-- Without authorizers the request is refused, and nothing is said. -/
theorem truthful_unauthorized (hauths : config.authenticators = some auths)
    (hall : ∀ r ∈ records, r.action = auditSvcAuthPass)
    (hauth : authenticateAudited peer auths false req = (.ok (true, authed), records))
    (hauthzs : config.authorizers = none) :
    Truthful config peer req (.error (.http 403 none), records ++ []) := by
  obtain ⟨hno, hyes, -⟩ := (authenticate_iff (auths.map (authVoter peer)) false req _).mp
    ((authenticate_unlogged peer auths false req).symm.trans (congrArg Prod.fst hauth))
  have hnobody : ∀ r ∈ ([] : List SvcRecord), r.action = auditSvcAuthzPass :=
    fun r hr => absurd hr List.not_mem_nil
  refine truthful_of_clean (clean_append hall hnobody) (fun _ => ?_) ?_
  · exact .authorizers hauths ⟨hno, hyes.resolve_left Bool.false_ne_true⟩ hauthzs
  · intro granted hgranted
    obtain ⟨authzs, hsome, -⟩ := granted_of_passes hauths hauth hgranted
    rw [hauthzs] at hsome
    cases hsome

/-- What a request that passes leaves behind. -/
theorem passed_trail (hauths : config.authenticators = some auths)
    (hauth : authenticateAudited peer auths false req = (.ok (true, authed), records))
    (hall : ∀ r ∈ records, r.action = auditSvcAuthPass) (hne : records ≠ [])
    {authzs : List AuthzPlugin} (hauthzs : config.authorizers = some authzs)
    {more : List SvcRecord} (hmore : ∀ r ∈ more, r.action = auditSvcAuthzPass) (hsome : more ≠ [])
    {last : Request} (hrun : authorizeAudited peer authzs none authed = ((some true, last), more))
    (huser : last.remoteUser = userAfter req.remoteUser records) {granted : Request}
    (hgranted : Passes (unlogged config peer) req granted) :
    (∃ r ∈ records ++ more, r.action = auditSvcAuthPass)
      ∧ (∃ r ∈ records ++ more, r.action = auditSvcAuthzPass)
      ∧ granted.remoteUser = userAfter req.remoteUser (records ++ more) := by
  obtain ⟨first, hfirst⟩ := List.exists_mem_of_ne_nil records hne
  obtain ⟨second, hsecond⟩ := List.exists_mem_of_ne_nil more hsome
  obtain ⟨authzs', hauthzs', hgrant⟩ := granted_of_passes hauths hauth hgranted
  obtain rfl := Option.some.inj (hauthzs.symm.trans hauthzs')
  rw [hrun] at hgrant
  obtain ⟨-, rfl⟩ := Prod.mk.inj hgrant
  refine ⟨⟨first, List.mem_append_left _ hfirst, hall first hfirst⟩,
    ⟨second, List.mem_append_right _ hsecond, hmore second hsecond⟩, ?_⟩
  rw [huser, userAfter_append, userAfter_authz _ hmore]

/-- An authenticated request and its authorization. -/
theorem truthful_dispatch (hauths : config.authenticators = some auths)
    (hfirst : firstRefusal peer auths req = none)
    (hall : ∀ r ∈ records, r.action = auditSvcAuthPass) (hne : records ≠ [])
    (hauth : authenticateAudited peer auths false req
      = (.ok (true, { req with remoteUser := userAfter req.remoteUser records }), records)) :
    Truthful config peer req
      ((dispatchAudited config peer req.pathChain
          { req with remoteUser := userAfter req.remoteUser records }).1,
        records ++ (dispatchAudited config peer req.pathChain
          { req with remoteUser := userAfter req.remoteUser records }).2) := by
  rw [dispatchAudited]
  cases hauthzs : config.authorizers with
  | none => exact truthful_unauthorized hauths hall hauth hauthzs
  | some authzs =>
      have hrecorded : ¬ Unrecorded config peer req := by
        intro h
        rw [authorizers_of_unrecorded hauths hfirst h] at hauthzs
        cases hauthzs
      dsimp only
      have hended := authorized peer authzs none
        { req with remoteUser := userAfter req.remoteUser records }
      generalize hrun : authorizeAudited peer authzs none
        { req with remoteUser := userAfter req.remoteUser records } = ended at hended ⊢
      cases hended with
      | @refused more r granted hmore hlast =>
          -- the authorizer has said so, and the handler says so again
          show Truthful config peer req (.error (.http 403 none),
            records ++ (more ++ [r] ++ [svcAccess .handler auditSvcAuthzFail _ _]))
          rw [List.append_assoc more, ← List.append_assoc]
          exact truthful_of_fail (clean_append hall hmore)
            ⟨r, Or.inr hlast, Or.inr ⟨_, rfl, rfl, rfl⟩⟩ hrecorded
            (not_passes_of_verdict hauths hauth hauthzs
              (show some false ≠ some true by decide) (congrArg Prod.fst hrun))
      | @decided more granted hmore huser =>
          by_cases hnone : more = []
          · -- nobody has granted, and the handler says so
            subst hnone
            have htrail : Truthful config peer req (.error (.http 403 none),
                (records ++ []) ++ [svcAccess .handler auditSvcAuthzFail peer.clientId
                  (.chain req.pathChain)]) :=
              truthful_of_fail (clean_append hall hmore) ⟨_, Or.inr rfl, Or.inl rfl⟩ hrecorded
                (not_passes_of_verdict hauths hauth hauthzs
                  (show none ≠ some true by decide) (congrArg Prod.fst hrun))
            rw [List.append_nil] at htrail
            exact htrail
          · rw [if_neg hnone] at hrun ⊢
            have hpasses (granted' : Request)
                (hgranted : Passes (unlogged config peer) req granted') :=
              passed_trail hauths hauth hall hne hauthzs hmore hnone hrun huser hgranted
            dsimp only
            cases select config.consumers req.pathChain with
            | none =>
                -- a request for nothing is granted, and ends in 404
                refine truthful_of_clean (clean_append hall hmore) (fun h => ?_) hpasses
                exact absurd (Exc.http.inj (Except.error.inj h)).1 (by decide)
            | some found =>
                exact truthful_of_clean (clean_append hall hmore) (fun h => by cases h) hpasses

end Dispatch

/-- Authentication that fails ends the request. -/
theorem not_passes {auths : List AuthPlugin} (hauths : config.authenticators = some auths)
    (hno : ∀ authed, (authenticateAudited peer auths false req).1 ≠ .ok (true, authed))
    (granted : Request) : ¬ Passes (unlogged config peer) req granted := by
  intro hgranted
  obtain ⟨-, auths', -, authed, hsome, -, hauth, -⟩ := (passes_iff_loops config granted).mp hgranted
  obtain rfl := Option.some.inj (hauths.symm.trans hsome)
  exact hno authed hauth

/-- With authenticators, a refusal is unrecorded after them or because of one
    that is speechless. -/
theorem unrecorded_cases {auths : List AuthPlugin} (hauths : config.authenticators = some auths)
    (h : Unrecorded config peer req) :
    (∃ authed, (authenticateAudited peer auths false req).1 = .ok (true, authed))
    ∨ ∃ auth, firstRefusal peer auths req = some auth ∧ Speechless auth req := by
  cases h with
  | authenticators h => rw [hauths] at h; cases h
  | authorizers h hgrant hnone =>
      obtain rfl := Option.some.inj (hauths.symm.trans h)
      refine Or.inl ⟨after (auths.map (authVoter peer)) req, ?_⟩
      rw [authenticate_unlogged]
      exact (authenticate_iff _ false req _).mpr ⟨hgrant.1, Or.inr hgrant.2, rfl⟩
  | speechless h hfirst hspeech =>
      obtain rfl := Option.some.inj (hauths.symm.trans h)
      exact Or.inr ⟨_, hfirst, hspeech⟩

end Trail

/-- **HEADLINE — the service log is a truthful trail**: a refusal leaves its
    FAIL at the end of the log, unless nothing is configured or the peer has no
    credentials to speak of; and a request that passes leaves a PASS of either
    kind, and is handled for the user that is named last. -/
theorem audit_trail (config : ServerPlugins β) (peer : Peer) (req : Request) :
    (auditedPipeline config peer req).1 = pipeline (unlogged config peer) req
    ∧ Truthful config peer req (auditedPipeline config peer req) := by
  refine ⟨pipeline_unlogged config peer req, ?_⟩
  have hempty : Clean [] := fun r hr => absurd hr List.not_mem_nil
  rw [auditedPipeline]
  by_cases hroot : req.pathChain.head? = some []
  · rw [if_neg (not_not.mpr hroot)]
    cases hauths : config.authenticators with
    | none =>
        refine truthful_of_clean hempty (fun _ => .authenticators hauths) ?_
        intro granted hgranted
        obtain ⟨-, auths, -, -, hsome, -⟩ := (passes_iff_loops config granted).mp hgranted
        rw [hauths] at hsome
        cases hsome
    | some auths =>
        have hpasses := @not_passes β peer req config auths hauths
        have hunrecorded := @unrecorded_cases β peer req config auths hauths
        have hended := authenticated peer auths false req
        dsimp only
        generalize hrun : authenticateAudited peer auths false req = ended at *
        cases hended with
        | @refused auth records r hfirst hspeech hall hlast =>
            have hrecorded : ¬ Unrecorded config peer req := by
              intro h
              rcases hunrecorded h with ⟨authed, hok⟩ | ⟨auth', hfirst', hspeech'⟩
              · cases hok
              · obtain rfl := Option.some.inj (hfirst.symm.trans hfirst')
                exact hspeech hspeech'
            exact truthful_of_fail (fun r hr => Or.inl (hall r hr)) ⟨r, Or.inl hlast, Or.inl rfl⟩
              hrecorded (hpasses (fun authed h => by cases h))
        | speechless hfirst hspeech hall =>
            refine truthful_of_clean (fun r hr => Or.inl (hall r hr))
              (fun _ => .speechless hauths hfirst hspeech) (fun granted hgranted => ?_)
            exact absurd hgranted (hpasses (fun authed h => by cases h) granted)
        | @passed records hfirst hall =>
            by_cases hnone : records = []
            · -- nobody has passed the peer, and the handler says so
              subst hnone
              have hrecorded : ¬ Unrecorded config peer req := by
                intro h
                rcases hunrecorded h with ⟨authed, hok⟩ | ⟨auth, hfirst', -⟩
                · cases hok
                · rw [hfirst] at hfirst'
                  cases hfirst'
              have htrail : Truthful config peer req (.error (.http 403 none),
                  [] ++ [svcAccess .handler auditSvcAuthFail peer.clientId (.text "No auth")]) :=
                truthful_of_fail hempty ⟨_, Or.inl rfl, Or.inl rfl⟩ hrecorded
                  (hpasses (fun authed h => by cases h))
              exact htrail
            · have hvalid : (false || !records.isEmpty) = true := by
                rw [Bool.false_or, List.isEmpty_eq_false_iff.mpr hnone]
                rfl
              rw [hvalid] at hrun ⊢
              exact truthful_dispatch hauths hfirst hall hnone hrun
  · rw [if_pos hroot]
    refine truthful_of_clean hempty (fun h => ?_) ?_
    · exact absurd (Exc.http.inj (Except.error.inj h)).1 (by decide)
    · exact fun granted hgranted => absurd hgranted.1 hroot

end ServiceAuditProofs
