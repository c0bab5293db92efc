import Custodia.AuthKeysProofs
import Custodia.PathAuthzProofs

/-! # ServiceAudit — the plugins of the pipeline and the records they leave

    Every authenticator and authorizer of the server writes to the audit log
    when it decides, and so does the handler when nobody does. This file
    models the plugins with all that they record, and the pipeline with its
    log.

    * `AuthPlugin`, `AuthzPlugin`: the plugins, with their votes;
    * `auditedPipeline`: the pipeline, its result and the log. -/

namespace ServiceAudit

open PosixPath PyValues Unquote Messages SqliteStore SecretsConsumer Verdicts Pipeline
open Authorizers AuthKeysProofs

/-! ## The log -/

def auditSvcAuthPass : Nat := 9
def auditSvcAuthFail : Nat := 10
def auditSvcAuthzPass : Nat := 11
def auditSvcAuthzFail : Nat := 12

/-- Who writes a record: a plugin, by its class and its section or by its
    facility name, or the request handler. -/
inductive Origin where
  | plugin (cls sec : Str)
  | facility (cls name : Str)
  | handler
  deriving DecidableEq

/-- What a record is about: a text, `None`, which is quoted as a word, or a path
    chain, which is quoted as a tuple. -/
inductive Subject where
  | text (s : Str)
  | missing
  | chain (segs : List Str)
  deriving DecidableEq

/-- A record of `svc_access`: who writes it, the number of the action, the
    client as it is known to the handler, and what it is about. -/
structure SvcRecord where
  origin : Origin
  action : Nat
  client : Str
  name : Subject
  deriving DecidableEq

/-- `AuditLog.svc_access`. -/
def svcAccess (origin : Origin) (action : Nat) (client : Str) (name : Subject) : SvcRecord :=
  ⟨origin, if action ≤ 8 ∨ 13 ≤ action then 0 else action, client, name⟩

/-- What the handler knows of the peer: `client_id` as it is printed, and the
    subject of the client certificate, if there is one. -/
structure Peer where
  clientId : Str
  clientCert : Option (List (List (Str × Str)))

/-- The vote of a plugin, the request it passes on, and what it records. A
    plugin that has no opinion answers `None` and records nothing. -/
structure Vote where
  verdict : Option Bool
  request : Request
  records : List SvcRecord

/-! ## Authenticators -/

/-- `SimpleCredsAuth.handle`. -/
def simpleCredsAuth (uid gid : Int) (origin : Origin) (peer : Peer) (req : Request) : Vote :=
  match req.creds with
  | .absent => ⟨some false, req, []⟩
  | .unknown => ⟨some false, req, []⟩
  | .peer _ u g =>
      let name : Subject := .text (decimalInt u ++ ((", " : Str) ++ decimalInt g))
      if (uid ≠ -1 ∧ uid = u) ∨ (gid ≠ -1 ∧ gid = g) then
        ⟨some true, req, [svcAccess origin auditSvcAuthPass peer.clientId name]⟩
      else ⟨some false, req, [svcAccess origin auditSvcAuthFail peer.clientId name]⟩

/-- `SimpleHeaderAuth.handle`. -/
def simpleHeaderAuth (header : Str) (allowed : Option (List Str)) (origin : Origin) (peer : Peer)
    (req : Request) : Vote :=
  match req.header header with
  | none => ⟨none, req, []⟩
  | some value =>
      if allowed.all (fun values => decide (value ∈ values)) then
        ⟨some true, { req with remoteUser := some value },
          [svcAccess origin auditSvcAuthPass peer.clientId (.text value)]⟩
      else ⟨some false, req, [svcAccess origin auditSvcAuthFail peer.clientId (.text value)]⟩

/-- `SimpleAuthKeys.handle`, over what its store answers to a `get`. -/
def simpleAuthKeys (auth : SimpleAuthKeys) (stored : Str → Except Exc SqlValue) (origin : Origin)
    (peer : Peer) (req : Request) : Vote :=
  match req.header auth.idHeader, req.header auth.keyHeader with
  | none, none => ⟨none, req, []⟩
  | none, some _ => ⟨some false, req, [svcAccess origin auditSvcAuthFail peer.clientId .missing]⟩
  | some name, key =>
      if SimpleAuthKeys.validated (stored (auth.dbKey name)) key = true then
        ⟨some true, { req with remoteUser := some name },
          [svcAccess origin auditSvcAuthPass peer.clientId (.text name)]⟩
      else ⟨some false, req, [svcAccess origin auditSvcAuthFail peer.clientId (.text name)]⟩

/-- `value.replace('"', r'\"')`. -/
def escapeQuotes (value : Str) : Str :=
  value.flatMap (fun c => if c = '"' then ['\\', '"'] else [c])

/-- The attributes of one relative name: what is appended to the text of the
    subject, and the name, where a common name ends the loop. -/
def rdnLoop : List (Str × Str) → List Str → Option Str → List Str × Option Str
  | [], dn, name => (dn, name)
  | (key, value) :: rest, dn, name =>
      let dn := dn ++ [key ++ ('=' :: '"' :: escapeQuotes value ++ ['"'])]
      if key = "commonName" then (dn, some value) else rdnLoop rest dn name

/-- The loop over the relative names of the subject. -/
def subjectLoop : List (List (Str × Str)) → List Str → Option Str → List Str × Option Str
  | [], dn, name => (dn, name)
  | rdn :: rest, dn, name => subjectLoop rest (rdnLoop rdn dn name).1 (rdnLoop rdn dn name).2

/-- `', '.join(dn)`. -/
def joinComma : List Str → Str
  | [] => []
  | [s] => s
  | s :: rest => s ++ ((", " : Str) ++ joinComma rest)

/-- The texts that turn `SimpleClientCertAuth` on. -/
def affirmative : List Str := (["1", "yes", "true", "on"] : List String).map String.toList

/-- `SimpleClientCertAuth.handle`. -/
def simpleClientCertAuth (header : Str) (origin : Origin) (peer : Peer) (req : Request) : Vote :=
  match peer.clientCert with
  | none => ⟨none, req, []⟩
  | some subject =>
      if lower ((req.header header).getD "false") ∉ affirmative then ⟨none, req, []⟩
      else
        let (dn, name) := subjectLoop subject [] none
        match name with
        | some (c :: name) =>
            ⟨some true, { req with remoteUser := some (c :: name) },
              [svcAccess origin auditSvcAuthPass peer.clientId (.text (c :: name))]⟩
        | _ =>
            ⟨some false, req,
              [svcAccess origin auditSvcAuthFail peer.clientId (.text (joinComma dn))]⟩

/-- `IPAInterface.handle` puts the plugin into the request, for stores that talk
    to an IPA server, and abstains. -/
def ipaInterface (req : Request) : Vote := ⟨none, req, []⟩

/-- The authenticators of the server, with their section and their options. The
    keys are looked up in a store of any kind, which may answer anything and may
    raise. -/
inductive AuthPlugin where
  | creds (sec : Str) (uid gid : Int)
  | header (sec header : Str) (allowed : Option (List Str))
  | keys (sec : Str) (auth : SimpleAuthKeys) (stored : Str → Except Exc SqlValue)
  | cert (sec header : Str)
  | ipa (sec : Str)

namespace AuthPlugin

/-- `self.origin`. -/
def origin : AuthPlugin → Origin
  | creds sec _ _ => .plugin "SimpleCredsAuth" sec
  | header sec _ _ => .plugin "SimpleHeaderAuth" sec
  | keys sec _ _ => .plugin "SimpleAuthKeys" sec
  | cert sec _ => .plugin "SimpleClientCertAuth" sec
  | ipa sec => .plugin "IPAInterface" sec

/-- `handle`. -/
def handle (auth : AuthPlugin) (peer : Peer) (req : Request) : Vote :=
  match auth with
  | creds _ uid gid => simpleCredsAuth uid gid auth.origin peer req
  | header _ name allowed => simpleHeaderAuth name allowed auth.origin peer req
  | keys _ sak stored => simpleAuthKeys sak stored auth.origin peer req
  | cert _ name => simpleClientCertAuth name auth.origin peer req
  | ipa _ => ipaInterface req

end AuthPlugin

/-! ## Authorizers -/

/-- The walk of `SimplePathAuthz`, with the path that it comes to; nothing is
    returned while it has not ended. -/
def walkMatch (paths : List Str) : Nat → Str → Option (Option Str)
  | 0, _ => none
  | fuel + 1, path =>
      if path = [] then some none
      else if path ∈ paths then some (some path)
      else if path = [slash] then walkMatch paths fuel []
      else walkMatch paths fuel (splitHead path)

/-- `SimplePathAuthz.handle`, where its walk ends. A walk that never does has
    no vote; it is written here as an abstention, and nothing is said of it. -/
def simplePathVote (paths : List Str) (origin : Origin) (peer : Peer) (req : Request) : Vote :=
  if strictMatch paths req.path = true then
    ⟨some true, req, [svcAccess origin auditSvcAuthzPass peer.clientId (.text req.path)]⟩
  else
    match (walkMatch paths (req.path.length + 2) req.path).getD none with
    | some path =>
        ⟨some true, req, [svcAccess origin auditSvcAuthzPass peer.clientId (.text path)]⟩
    | none => ⟨none, req, []⟩

/-- `UserNameSpace.handle`. -/
def userNameSpaceVote (path : Str) (origin : Origin) (peer : Peer) (req : Request) : Vote :=
  if ¬ path <+: req.path then ⟨none, req, []⟩
  else
    match req.remoteUser with
    | none =>
        ⟨some false, req, [svcAccess origin auditSvcAuthzFail peer.clientId (.text req.path)]⟩
    | some name =>
        if namespaceOf path name <+: req.path then
          ⟨some true, { req with defaultNamespace := some name },
            [svcAccess origin auditSvcAuthzPass peer.clientId (.text req.path)]⟩
        else
          ⟨some false, req, [svcAccess origin auditSvcAuthzFail peer.clientId (.text req.path)]⟩

/-- `KEMKeysStore.handle`. -/
def kemKeysVote (paths : List Str) (kk : KEMKeysStore) (origin : Origin) (peer : Peer)
    (req : Request) : Vote :=
  let inpath := simplePathVote paths origin peer req
  if inpath.verdict = some true then
    { inpath with request := { inpath.request with kemKeysStore := some kk } }
  else inpath

/-- The authorizers of the server, with what they are called in the log and with
    their options; the one for keys is a list of paths with a store of keys. -/
inductive AuthzPlugin where
  | paths (name : Str) (paths : List Str)
  | userNamespace (sec path : Str)
  | kem (name : Str) (paths : List Str) (kk : KEMKeysStore)

namespace AuthzPlugin

/-- `self.origin`. -/
def origin : AuthzPlugin → Origin
  | paths name _ => .facility "SimplePathAuthz" name
  | userNamespace sec _ => .plugin "UserNameSpace" sec
  | kem name _ _ => .facility "KEMKeysStore" name

/-- `handle`. -/
def handle (authz : AuthzPlugin) (peer : Peer) (req : Request) : Vote :=
  match authz with
  | paths _ entries => simplePathVote entries authz.origin peer req
  | userNamespace _ path => userNameSpaceVote path authz.origin peer req
  | kem _ entries kk => kemKeysVote entries kk authz.origin peer req

end AuthzPlugin

/-! ## The pipeline -/

/-- The configuration of a server with these plugins. A list that is missing is
    one that has never been configured, which is not the empty list. -/
structure ServerPlugins (β : Type) where
  authenticators : Option (List AuthPlugin)
  authorizers : Option (List AuthzPlugin)
  consumers : Mounts (Request → β)

variable {β : Type}

/-- The loop over the authenticators, and what they record. -/
def authenticateAudited (peer : Peer) : List AuthPlugin → Bool → Request →
    Except Exc (Bool × Request) × List SvcRecord
  | [], validOnce, req => (.ok (validOnce, req), [])
  | auth :: auths, validOnce, req =>
      let vote := auth.handle peer req
      match vote.verdict with
      | some false => (.error (.http 403 none), vote.records)
      | some true =>
          let (result, records) := authenticateAudited peer auths true vote.request
          (result, vote.records ++ records)
      | none =>
          let (result, records) := authenticateAudited peer auths validOnce vote.request
          (result, vote.records ++ records)

/-- The loop over the authorizers. -/
def authorizeAudited (peer : Peer) : List AuthzPlugin → Option Bool → Request →
    (Option Bool × Request) × List SvcRecord
  | [], authzOk, req => ((authzOk, req), [])
  | authz :: authzs, authzOk, req =>
      let vote := authz.handle peer req
      match vote.verdict with
      | some false => ((some false, vote.request), vote.records)
      | some true =>
          let (result, records) := authorizeAudited peer authzs (some true) vote.request
          (result, vote.records ++ records)
      | none =>
          let (result, records) := authorizeAudited peer authzs authzOk vote.request
          (result, vote.records ++ records)

/-- The pipeline from the authorizers on. -/
def dispatchAudited (config : ServerPlugins β) (peer : Peer) (pathChain : List Str)
    (authed : Request) : Except Exc β × List SvcRecord :=
  match config.authorizers with
  | none => (.error (.http 403 none), [])
  | some authzs =>
      match authorizeAudited peer authzs none authed with
      | ((some true, granted), records) =>
          match select config.consumers pathChain with
          | none => (.error (.http 404 none), records)
          | some (con, trail) => (.ok (con (withTrail granted trail)), records)
      | (_, records) =>
          (.error (.http 403 none),
            records ++ [svcAccess .handler auditSvcAuthzFail peer.clientId (.chain pathChain)])

/-- `pipeline`, with the log. -/
def auditedPipeline (config : ServerPlugins β) (peer : Peer) (req : Request) :
    Except Exc β × List SvcRecord :=
  if req.pathChain.head? ≠ some [] then (.error (.http 400 none), [])
  else
    match config.authenticators with
    | none => (.error (.http 403 none), [])
    | some auths =>
        match authenticateAudited peer auths false req with
        | (.error e, records) => (.error e, records)
        | (.ok (false, _), records) =>
            (.error (.http 403 none),
              records ++ [svcAccess .handler auditSvcAuthFail peer.clientId (.text "No auth")])
        | (.ok (true, authed), records) =>
            let (result, more) := dispatchAudited config peer req.pathChain authed
            (result, records ++ more)

end ServiceAudit
