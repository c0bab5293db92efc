import Custodia.Relays
import Custodia.SimpleClientProofs
import Custodia.StatusCodes
import Custodia.ForwardLoopProofs

/-! # RelayProofs — forwarding is transparent

    Each forwarder is in turn a client of the next server: what it sends is
    what a client would send that names the secret below the remote user. So a
    call through a chain of gateways is a call to the last server, and the
    client sees the namespace of that server, whatever lies between.

    * `clientOf`: the client that a forwarder is;
    * `upstreamRequest_eq`: what a forwarder sends is what this client sends;
    * `Relayed`: a call that is passed on along a chain of gateways, each of
      which announces itself and has not seen it before;
    * `askThrough_relayed`: it is a call to the service;
    * `relayed_namespace`: every run of calls. -/

namespace RelayProofs

open Interaction OrderedDicts SeparatedNames PosixPath PyValues SqliteStore SecretsConsumer
open SecretsRuns
open StoreTree ContainerTreeProofs Namespace NamespaceProofs Forwarding ForwardPathProofs
open ForwardLoopProofs Pipeline SimpleClient SimpleClientProofs StatusCodes Machines Relays

/-! ## The client that a forwarder is -/

/-- The client that a forwarder is to its upstream server. -/
def clientOf (fwd : Forwarder) (loop : Option Str) : CustodiaHTTPClient :=
  ⟨fwd.forwardUri, fwd.client.addHeaders (fwd.headersAfter loop)⟩

/-- A call with another name. -/
def rename (f : Str → Str) : Action → Action
  | .createContainer name => .createContainer (f name)
  | .deleteContainer name => .deleteContainer (f name)
  | .listContainer name => .listContainer (f name)
  | .getSecret name => .getSecret (f name)
  | .setSecret name value => .setSecret (f name) value
  | .delSecret name => .delSecret (f name)

/-- The call that a forwarder makes of a call of a user. -/
def forwardedCall (fwd : Forwarder) (user : Str) (a : Action) : Action :=
  if fwd.prefixRemoteUser = true then rename (fun name => rstrip user ++ slash :: name) a else a

/-- The trace that a call arrives with. -/
def loopOf (client : CustodiaHTTPClient) (endpoint : Endpoint) : Option Str :=
  ((client.addHeaders Dict.empty).transmitted endpoint.library).get? loopHeader

variable {lib : JsonLibrary} {client : CustodiaHTTPClient} {endpoint : Endpoint}
  {fwd : Forwarder} {user : Str} {own : Option Str} {a : Action}

/-- A client that has these headers sends them. -/
theorem headers_clientOf (loop : Option Str) :
    (clientOf fwd loop).addHeaders Dict.empty = fwd.client.addHeaders (fwd.headersAfter loop) :=
  update_empty _

/-- A forwarder puts itself before the trace. -/
theorem loopOf_clientOf (hannounces : fwd.Announces) (texts : List Str) (endpoint : Endpoint) :
    loopOf (clientOf fwd (headerOf texts)) endpoint = headerOf (fwd.uuid.val :: texts) := by
  rw [loopOf, headers_clientOf, Headers.get?_transmitted, sent_addHeaders,
    sent_headersAfter hannounces, Option.getD_some]
  exact (headerOf_cons fwd.uuid.val texts).symm

/-- A name that survives the way is not a lone slash. -/
theorem sentName_ne_slash (hsurvives : Survives (segmentsOf a)) :
    sentName a ≠ [slash] := by
  intro hname
  have hsegs : segmentsOf a = [[], []] := by
    rw [segmentsOf, hname]
    rfl
  have hfirst := hsurvives.first (by rw [hsegs]; rfl)
  rw [hsegs] at hfirst
  cases hfirst

/-- Putting a name before that of a call puts it before the name that is sent. -/
theorem sentName_rename (hsurvives : Survives (segmentsOf a)) (before : Str) :
    sentName (rename (fun name => before ++ slash :: name) a) = before ++ slash :: sentName a := by
  have hcontainer (name : Str) (hname : name ≠ []) :
      containerName (before ++ slash :: name) = before ++ slash :: containerName name := by
    -- what is put before a name does not change its end
    have hends : endsInSlash (before ++ slash :: name) = endsInSlash name := by
      have hcons : before ++ slash :: name = (before ++ [slash]) ++ name := by
        rw [List.append_assoc]
        rfl
      rw [hcons, ReadBackProofs.endsInSlash_append hname]
    rw [containerName, containerName, hends]
    split_ifs
    · rfl
    · rw [List.append_assoc]
      rfl
  have hne (name : Str) (h : containerName name ≠ [slash]) : name ≠ [] := by
    rintro rfl
    exact h rfl
  cases a with
  | createContainer name => exact hcontainer name (hne name (sentName_ne_slash hsurvives))
  | deleteContainer name => exact hcontainer name (hne name (sentName_ne_slash hsurvives))
  | listContainer name => exact hcontainer name (hne name (sentName_ne_slash hsurvives))
  | getSecret name => rfl
  | setSecret name value => rfl
  | delSecret name => rfl

/-! ## One gateway -/

section Gateway

variable {gateway : Gateway}

/-- **The forwarder asks for the name of the call**, below the user that it puts
    before it. -/
theorem path_granted (hsurvives : Survives (segmentsOf a)) :
    fwd.path (granted lib client endpoint user own a) = sentName (forwardedCall fwd user a) := by
  have htrail : joinSlash (segmentsOf a) = sentName a := joinSlash_segmentsOf a
  show joinSlash ((if fwd.prefixRemoteUser = true then [rstrip user] else []) ++ segmentsOf a) = _
  rw [forwardedCall]
  split_ifs
  · rw [sentName_rename hsurvives, ← htrail]
    exact spell_cons slash (rstrip user) (List.splitOn_ne_nil slash (sentName a))
  · exact htrail

/-- The forwarded call has the same method. -/
theorem method_forwardedCall : method (forwardedCall fwd user a) = method a := by
  rw [forwardedCall]
  split_ifs
  · cases a <;> rfl
  · rfl

/-- The forwarded call has the same body. -/
theorem body_forwardedCall : body lib (forwardedCall fwd user a) = body lib a := by
  rw [forwardedCall]
  split_ifs
  · cases a <;> rfl
  · rfl

/-- The forwarded call reads the same from its reply. -/
theorem read_forwardedCall : read lib (forwardedCall fwd user a) = read lib a := by
  rw [forwardedCall]
  split_ifs
  · cases a <;> rfl
  · rfl

/-- **What a forwarder sends is what a client would send** that names the same
    secret. -/
theorem upstreamRequest_eq (hsurvives : Survives (segmentsOf a)) :
    upstreamRequest fwd (granted lib client endpoint user own a)
      = requestOf lib (clientOf fwd (loopOf client endpoint)) (forwardedCall fwd user a) := by
  have hheaders : fwd.client.addHeaders (fwd.headers (granted lib client endpoint user own a))
      = (clientOf fwd (loopOf client endpoint)).addHeaders Dict.empty :=
    (headers_clientOf _).symm
  have hdata : sentBody (granted lib client endpoint user own a)
      = body lib (forwardedCall fwd user a) := by
    rw [body_forwardedCall]
    cases a <;> rfl
  rw [upstreamRequest, path_granted hsurvives, hheaders, hdata, requestOf, method_forwardedCall]
  rfl

/-- A reply that is done, or an error. -/
def Settled (reply : Reply) : Prop :=
  200 ≤ reply.statusCode ∧ reply.statusCode ≤ 299
    ∨ 400 ≤ reply.statusCode ∧ reply.statusCode < 600

/-- A forwarder supports the methods of all calls. -/
theorem supported_method (a : Action) : method a ∈ supportedCommands := by
  cases a with
  | createContainer name => exact (show ("POST" : Str) ∈ supportedCommands by decide)
  | deleteContainer name => exact (show ("DELETE" : Str) ∈ supportedCommands by decide)
  | listContainer name => exact (show ("GET" : Str) ∈ supportedCommands by decide)
  | getSecret name => exact (show ("GET" : Str) ∈ supportedCommands by decide)
  | setSecret name value => exact (show ("PUT" : Str) ∈ supportedCommands by decide)
  | delSecret name => exact (show ("DELETE" : Str) ∈ supportedCommands by decide)

/-- What a forwarder answers: the reply as it is, or its status. -/
theorem rendered_response (endpoint : Endpoint) {reply : Reply} (h : Settled reply) :
    ∃ reply', endpoint.rendered (Forwarder.response reply >>= finishResponse) = .ok reply'
      ∧ Settled reply' ∧ ∀ lib a, answered lib a (.ok reply') = answered lib a (.ok reply) := by
  rcases h with ⟨hlow, hhigh⟩ | ⟨hlow, hhigh⟩
  · have hdone : ¬ (reply.statusCode < 200 ∨ 299 < reply.statusCode) := by omega
    refine ⟨reply, ?_, Or.inl ⟨hlow, hhigh⟩, fun _ _ => rfl⟩
    rw [Forwarder.response, if_neg hdone]
    by_cases hempty : reply.content = []
    · rw [if_pos hempty]
      show (.ok ⟨reply.statusCode, []⟩ : Except Exc Reply) = .ok reply
      rw [← hempty]
    · rw [if_neg hempty]
      rfl
  · have hfailed : reply.statusCode < 200 ∨ 299 < reply.statusCode := by omega
    refine ⟨⟨reply.statusCode, endpoint.errorPage reply.statusCode none⟩, ?_,
      Or.inr ⟨hlow, hhigh⟩, fun lib a => ?_⟩
    · rw [Forwarder.response, if_pos hfailed]
      show endpoint.sendError reply.statusCode none = _
      rw [Endpoint.sendError, if_pos latin1_none]
    · rw [answered_failed reply ⟨hlow, hhigh⟩]
      exact answered_failed _ ⟨hlow, hhigh⟩

/-- **A gateway answers what the upstream server answers.** -/
theorem serve_gateway {σ : Type} {upstream : ClientRequest → σ → Except Exc Reply × σ}
    (hreaches : Reaches lib client gateway)
    (hpasses : Passes lib client gateway gateway.config fwd user own a)
    (hfresh : ¬ fwd.uuid.val <:+: (loopOf client gateway).getD []) {s s' : σ} {reply : Reply}
    (hup : upstream (requestOf lib (clientOf fwd (loopOf client gateway))
      (forwardedCall fwd user a)) s = (.ok reply, s')) (hsettled : Settled reply) :
    ∃ reply', gateway.serve upstream (requestOf lib client a) s = (.ok reply', s')
      ∧ Settled reply' ∧ ∀ lib a, answered lib a (.ok reply') = answered lib a (.ok reply) := by
  obtain ⟨reply', hrendered, hsettled', hsame⟩ := rendered_response gateway.toEndpoint hsettled
  refine ⟨reply', ?_, hsettled', hsame⟩
  -- the forwarder finds no loop, and makes the one call
  have hrun : (fwd.handle (granted lib client gateway user own a)).run upstream s
      = (Forwarder.response reply >>= finishResponse, s') := by
    have hcommand : (granted lib client gateway user own a).command ∈ supportedCommands :=
      supported_method a
    rw [handle_sent hcommand hfresh, Prog.run_call,
      upstreamRequest_eq hpasses.survives, hup, Prog.run_ofExcept]
    rfl
  rw [Gateway.serve, handleOneRequest_passed _ hreaches hpasses, hrun, ← hrendered]

end Gateway

/-! ## A chain of gateways -/

/-- A call that is passed on from gateway to gateway, none of whose forwarders
    has seen it, and the call that it is in the end. -/
inductive Relayed (lib : JsonLibrary) :
    List Uuid → List Gateway → CustodiaHTTPClient → Action → CustodiaHTTPClient → Action → Prop
  where
  | direct {visited : List Uuid} {client : CustodiaHTTPClient} {a : Action} :
      Relayed lib visited [] client a client a
  | hop {visited : List Uuid} {gateway : Gateway} {gateways : List Gateway}
      {client last : CustodiaHTTPClient} {a final : Action} {fwd : Forwarder} {user : Str}
      {own : Option Str} (hreaches : Reaches lib client gateway)
      (hpasses : Passes lib client gateway gateway.config fwd user own a)
      (hannounces : fwd.Announces) (hnew : fwd.uuid ∉ visited)
      (hrest : Relayed lib (fwd.uuid :: visited) gateways
        (clientOf fwd (headerOf (visited.map Subtype.val))) (forwardedCall fwd user a) last final) :
      Relayed lib visited (gateway :: gateways) client a last final

section Chain

variable {visited : List Uuid} {gateways : List Gateway} {last : CustodiaHTTPClient}
  {final : Action} {service : Service} {con : Secrets}

/-- What is read from the reply is the same before and after any number of
    forwarders. -/
theorem read_relayed (h : Relayed lib visited gateways client a last final) :
    read lib final = read lib a := by
  induction h with
  | direct => rfl
  | hop hreaches hpasses hannounces hnew hrest ih => exact ih.trans read_forwardedCall

/-- **A chain of gateways answers what the service answers** the last
    forwarder. -/
theorem serveThrough_relayed (h : Relayed lib visited gateways client a last final)
    (htrace : ∀ gateway ∈ gateways.head?,
      loopOf client gateway = headerOf (visited.map Subtype.val))
    {t t' : Table} {reply : Reply}
    (hservice : service.serve (requestOf lib last final) t = (.ok reply, t'))
    (hsettled : Settled reply) :
    ∃ reply', serveThrough service gateways (requestOf lib client a) t = (.ok reply', t')
      ∧ Settled reply' ∧ ∀ lib a, answered lib a (.ok reply') = answered lib a (.ok reply) := by
  induction h with
  | direct => exact ⟨reply, hservice, hsettled, fun _ _ => rfl⟩
  | @hop visited gateway gateways client last a final fwd user own hreaches hpasses hannounces hnew
      hrest ih =>
      have hloop := htrace gateway rfl
      have hnext : ∀ next ∈ gateways.head?,
          loopOf (clientOf fwd (headerOf (visited.map Subtype.val))) next
            = headerOf ((fwd.uuid :: visited).map Subtype.val) :=
        fun next _ => loopOf_clientOf hannounces _ next
      obtain ⟨middle, hmiddle, hsettled', hsame⟩ := ih hnext hservice
      -- the trace names the forwarders passed so far, and this one is none of them
      have hfresh : ¬ fwd.uuid.val <:+: (loopOf client gateway).getD [] := by
        rw [hloop, infix_headerOf]
        rintro ⟨text, htext, hinfix⟩
        obtain ⟨other, hother, rfl⟩ := List.mem_map.mp htext
        rw [(uuid_infix_iff fwd.uuid other).mp hinfix] at hnew
        exact hnew hother
      rw [← hloop] at hmiddle
      obtain ⟨reply', hreply, hsettled'', hsame'⟩ :=
        serve_gateway hreaches hpasses hfresh hmiddle hsettled'
      exact ⟨reply', hreply, hsettled'', fun lib a => (hsame' lib a).trans (hsame lib a)⟩

/-- A reply with one of the statuses is one that the HTTP library returns as it
    is, and does not follow further. -/
theorem settled_of_listed {endpoint : Endpoint} {reply : Reply} (h : Listed endpoint reply) :
    Settled reply := by
  rcases h with hdone | ⟨herror, -⟩
  · have hrange : ∀ code ∈ successCodes, 200 ≤ code ∧ code ≤ 299 := by decide
    exact Or.inl (hrange _ hdone)
  · have hrange : ∀ code ∈ errorCodes, 400 ≤ code ∧ code < 600 := by decide
    exact Or.inr (hrange _ herror)

/-- A method that is told anything has got a reply. -/
theorem not_sending_of_tells {ans : Ans Str SqlValue} {e : Exc}
    (h : Tells a ans (.error (.sending e))) : False := by
  cases h

/-- **A call through gateways is a call to the service**: it tells the client
    the same, and leaves the same table. -/
theorem askThrough_relayed (h : Relayed lib [] gateways client a last final)
    (hclean : ∀ gateway ∈ gateways.head?, loopOf client gateway = none)
    (hfits : Fits lib last service con) (hserved : Served lib last service con user own final)
    {t : Table} (ht : Spelled t) :
    askThrough lib client service gateways a t = ask lib last service final t := by
  -- the last forwarder is told something, so that there is a reply
  obtain ⟨htells, -⟩ := ask_simulates hfits final _ t (treeOf t) ⟨hserved, rfl⟩ ⟨ht, rfl⟩
  rw [ask, askOver_eq] at htells
  obtain ⟨reply, hreply, hlisted⟩ : ∃ reply,
      (service.serve (requestOf lib last final) t).1 = .ok reply ∧ Listed service reply := by
    rcases listed_of_told service.toEndpoint service.server.config
        (fun con req t => ((respond con req t).1.result, (respond con req t).2)) told_respond
        (requestOf lib last final) t with hlisted | ⟨haborted, -⟩
    · exact hlisted
    · have hserve : (service.serve (requestOf lib last final) t).1 = .error aborted := haborted
      rw [hserve] at htells
      exact (not_sending_of_tells htells).elim
  have hservice : service.serve (requestOf lib last final) t
      = (.ok reply, (service.serve (requestOf lib last final) t).2) := Prod.ext hreply rfl
  obtain ⟨reply', hthrough, -, hsame⟩ :=
    serveThrough_relayed h hclean hservice (settled_of_listed hlisted)
  -- a forwarded call reads from a reply what the call itself does
  have hread (r : Except Exc Reply) : answered lib final r = answered lib a r := by
    cases r with
    | error e => rfl
    | ok reply =>
        show (raiseForStatus reply >>= fun _ => read lib final reply) = _
        rw [read_relayed h]
        rfl
  rw [askThrough, askOver_eq, hthrough, ask, askOver_eq, hservice, hread, hsame lib a]

/-- What a call tells does not depend on the name it is about. -/
theorem tells_rename {f : Str → Str} {ans : Ans Str SqlValue} {told : Except Failure Json}
    (h : Tells (rename f a) ans told) : Tells a ans told := by
  cases a <;> cases h <;> constructor <;> assumption

/-- What a call tells is the same before and after any number of forwarders. -/
theorem tells_relayed (h : Relayed lib visited gateways client a last final)
    {ans : Ans Str SqlValue} {told : Except Failure Json} (htells : Tells final ans told) :
    Tells a ans told := by
  induction h with
  | direct => exact htells
  | hop hreaches hpasses hannounces hnew hrest ih =>
      have hnext := ih htells
      rw [forwardedCall] at hnext
      split_ifs at hnext
      · exact tells_rename hnext
      · exact hnext

end Chain

/-! ### A gateway before the user's namespace -/

/-- It names the user to the service. -/
def userForwarder : Forwarder :=
  { plainForwarder with
    forwardUri := upstream.text
    forwardHeaders := ⟨[("REMOTE_USER", some "u")], List.nodup_singleton _⟩ }

/-- The gateway that the user asks. -/
def front : Uri where
  origin := "http://front"
  path := upstream.path
  origin_open := by decide
  rooted := upstream.rooted
  plain := upstream.plain

/-- A gateway in front of the service. -/
def userGateway : Gateway where
  uri := front
  target := fun url _ => plainTarget front url
  library := ForwardBodyProofs.libraryHeaders
  parseQs := fun _ => []
  creds := .unknown
  dumps := shortDumps sentMessage
  errorPage := fun _ _ => []
  authenticators := some [(Authorizers.simpleHeaderAuth "REMOTE_USER" none).handle]
  authorizers := some [(Authorizers.simplePathAuthz ["/secrets"]).handle]
  forwarders := Mounts.empty.load "/secrets/" absolute_secrets userForwarder

/-- A client of the gateway, which knows nothing of the service behind it. -/
def frontClient : CustodiaHTTPClient :=
  ⟨front.text, userClient.headers⟩

/-- The client that the service sees. -/
def forwarderClient : CustodiaHTTPClient := clientOf userForwarder (headerOf [])

/-- The user leaves its name to the gateway. -/
def frontCalls : List Action :=
  [.setSecret "k" (.ofText "v"), .getSecret "k", .listContainer "c", .createContainer "c",
    .delSecret "k"]

/-- What the user sends to the gateway as headers. -/
theorem items_front :
    ((frontClient.addHeaders Dict.empty).transmitted userGateway.library).items = userHeaders := by
  decide +kernel

/-- What the gateway sends to the service. -/
def forwardedHeaders : List (Str × Str) :=
  [("Accept", "*/*"), ("User-Agent", "python-requests"), ("REMOTE_USER", "u"),
    ("X-LOOP-CUSTODIA", "00000000-0000-4000-8000-000000000000"),
    ("Content-Type", "application/json")]

/-- The headers that the service gets are those of the forwarder, with the loop
    header among them. -/
theorem items_forwarder :
    ((forwarderClient.addHeaders Dict.empty).transmitted userService.library).items
      = forwardedHeaders := by
  decide +kernel

/-- The client reaches the gateway. -/
theorem reaches_front : Reaches userLibrary frontClient userGateway where
  url := rfl
  host := by decide
  target _ hrooted _ hclean := plainTarget_clean front hrooted hclean
  noQuery := rfl
  written := shortDumps_ne_nil sentMessage

/-- What a call has to meet to be relayed. -/
theorem relayed_front {a : Action} (hsurvives : Survives (segmentsOf a))
    (hclean : Clean (userGateway.uri.base ++ slash :: sentName a))
    (hshort : (method a).length + (userGateway.uri.base ++ slash :: sentName a).length + 12
      ≤ maxRequestLine)
    (hsmall : ((body userLibrary a).getD []).length ≤ maxRequestSize)
    (hgrants : pipeline userGateway.config
        { arriving userLibrary frontClient userGateway a with headers := userHeaders }
      = .ok (userForwarder,
          { granted userLibrary frontClient userGateway "u" none a with
            headers := userHeaders })) :
    Relayed userLibrary [] [userGateway] frontClient a forwarderClient
      (forwardedCall userForwarder "u" a) := by
  have hline := (length_requestLine reaches_front hsurvives hclean).trans_le hshort
  have hgranted : pipeline userGateway.config (arriving userLibrary frontClient userGateway a)
      = .ok (userForwarder, granted userLibrary frontClient userGateway "u" none a) := by
    rw [granted, arriving, items_front]
    exact hgrants
  exact .hop reaches_front ⟨hsurvives, hclean, hline, hsmall, hgranted⟩ (by decide)
    List.not_mem_nil .direct

end RelayProofs
