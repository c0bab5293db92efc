import Custodia.ForwardPathProofs
import Custodia.StatusLineProofs

/-! # SimpleClient — the client that speaks `simple`, and the way to the server

    `CustodiaSimpleClient` offers a store of secrets as a few methods, each one
    request. The HTTP library puts the request on the wire, the handler of the
    server reads it, the pipeline finds the consumer, and what this answers is
    sent back.

    * `CustodiaSimpleClient`: its methods;
    * `Endpoint`: what is between a client and a server;
    * `Service.serve`: what `handle_one_request` makes of a request. -/

namespace SimpleClient

open Interaction OrderedDicts PosixPath PyValues Unquote SqliteStore SecretsConsumer SecretsRuns
open Forwarding ForwardPathProofs StatusLineProofs Pipeline

/-! ## The client -/

/-- Why a method raises: sending has failed, the status is an error, or the
    reply is not what it should be. -/
inductive Failure where
  | sending (e : Exc)
  | status (code : Nat)
  | notJson
  | notDict (typeName : Str)
  | keyType (ktype : Json)
  | noValue

/-- How the client writes and reads JSON. It is another library, or another
    version of it, than the server's, so nothing connects the two but what is
    said where it is relied on. -/
structure JsonLibrary where
  dumps : Json → List Byte
  loads : List Byte → Option Json

/-- `raise_for_status`. -/
def raiseForStatus (reply : Reply) : Except Failure Unit :=
  if 400 ≤ reply.statusCode ∧ reply.statusCode < 600 then .error (.status reply.statusCode)
  else .ok ()

/-- `r.json()`. -/
def replyJson (lib : JsonLibrary) (reply : Reply) : Except Failure Json :=
  match lib.loads reply.content with
  | none => .error .notJson
  | some value => .ok value

/-- `container_name`. -/
def containerName (name : Str) : Str := if endsInSlash name = true then name else name ++ [slash]

/-- `{"type": "simple", "value": value}`. -/
def simpleMessage (value : Json) : Json :=
  .obj [(.text "type", .ofText "simple"), (.text "value", value)]

/-- What `get_secret` reads from a reply. -/
def readSecret (lib : JsonLibrary) (reply : Reply) : Except Failure Json := do
  match ← replyJson lib reply with
  | .obj fields =>
      let ktype := (Json.lookup fields "type").getD .null
      if ktype.isText "simple" = false then .error (.keyType ktype)
      else
        match Json.lookup fields "value" with
        | some value => .ok value
        | none => .error .noValue
  | simple => .error (.notDict simple.typeName)

namespace CustodiaSimpleClient

variable (lib : JsonLibrary) (client : CustodiaHTTPClient)

/-- A request, its status, and what is read from the reply. -/
def call (cmd path : Str) (data : Option (List Byte)) (read : Reply → Except Failure Json) :
    ClientProg (Except Failure Json) :=
  (client.request cmd path [] Dict.empty data).conclude (fun sent =>
    match sent with
    | .error e => .error (.sending e)
    | .ok reply => do
        raiseForStatus reply
        read reply)

/-- `create_container`. -/
def createContainer (name : Str) : ClientProg (Except Failure Json) :=
  call client "POST" (containerName name) none (fun _ => .ok .null)

/-- `delete_container`. -/
def deleteContainer (name : Str) : ClientProg (Except Failure Json) :=
  call client "DELETE" (containerName name) none (fun _ => .ok .null)

/-- `list_container`. -/
def listContainer (name : Str) : ClientProg (Except Failure Json) :=
  call client "GET" (containerName name) none (replyJson lib)

/-- `get_secret`. -/
def getSecret (name : Str) : ClientProg (Except Failure Json) :=
  call client "GET" name none (readSecret lib)

/-- `set_secret`. -/
def setSecret (name : Str) (value : Json) : ClientProg (Except Failure Json) :=
  call client "PUT" name (some (lib.dumps (simpleMessage value))) (fun _ => .ok .null)

/-- `del_secret`. -/
def delSecret (name : Str) : ClientProg (Except Failure Json) :=
  call client "DELETE" name none (fun _ => .ok .null)

end CustodiaSimpleClient

/-- A call of one of the methods, as data: runs of a client are lists of these,
    and its program is `Action.prog`. -/
inductive Action where
  | createContainer (name : Str)
  | deleteContainer (name : Str)
  | listContainer (name : Str)
  | getSecret (name : Str)
  | setSecret (name : Str) (value : Json)
  | delSecret (name : Str)

/-- The method that is called. -/
def Action.prog (lib : JsonLibrary) (client : CustodiaHTTPClient) :
    Action → ClientProg (Except Failure Json)
  | .createContainer name => CustodiaSimpleClient.createContainer client name
  | .deleteContainer name => CustodiaSimpleClient.deleteContainer client name
  | .listContainer name => CustodiaSimpleClient.listContainer lib client name
  | .getSecret name => CustodiaSimpleClient.getSecret lib client name
  | .setSecret name value => CustodiaSimpleClient.setSecret lib client name value
  | .delSecret name => CustodiaSimpleClient.delSecret client name

/-! ## The server -/

/-- `MAX_REQUEST_SIZE`. -/
def maxRequestSize : Nat := 10 * 1024 * 1024

/-- The longest request line that is read. -/
def maxRequestLine : Nat := 65536

/-- `urlparse(target).query`. -/
def queryOf (target : Str) : Str :=
  ((target.takeWhile (fun c => decide (c ≠ '#'))).dropWhile (fun c => decide (c ≠ '?'))).drop 1

/-- A text that a status line can carry. -/
def Latin1 (text : Str) : Prop := ∀ c ∈ text, c.toNat < 256

instance (text : Str) : Decidable (Latin1 text) := List.decidableBAll _ text

/-- An error without a message can be written. -/
theorem latin1_none : Latin1 ((none : Option Str).getD []) := List.forall_mem_nil _

/-- The client finds the connection closed where it expects a reply. -/
def aborted : Exc := .py .other "Connection aborted."

/-- What is between a server and its client: the URL, what the HTTP library
    makes of a URL with its parameters and which headers it adds, `parse_qs`,
    the credentials of the socket, `json.dumps`, and the page that `send_error`
    writes. -/
structure Endpoint where
  uri : Uri
  target : Str → List (Str × List Str) → Str
  library : SentHeaders
  parseQs : Str → List (Str × List Str)
  creds : Creds
  dumps : Json → List Byte
  errorPage : Nat → Option Str → List Byte

namespace Endpoint

variable (endpoint : Endpoint)

/-- The target of a request. -/
def targetOf (sent : ClientRequest) : Str := endpoint.target sent.url sent.params

/-- The first line of a request, with its end. -/
def requestLine (sent : ClientRequest) : Str :=
  sent.method ++ ' ' :: (endpoint.targetOf sent ++ " HTTP/1.1\r\n".toList)

/-- The request dictionary of `handle_one_request`, after `parse_request` and
    `parse_body`; a target that cannot be read raises. The HTTP library names
    the length of the body, and none for an empty one. -/
def incoming (sent : ClientRequest) : Option Request :=
  (requestPath (endpoint.targetOf sent)).map (fun path => {
    command := sent.method
    path := path
    pathChain := parsePath path
    trail := none
    query := endpoint.parseQs (queryOf (endpoint.targetOf sent))
    headers := (sent.headers.transmitted endpoint.library).items
    body := if sent.data = some [] then none else sent.data
    remoteUser := none
    creds := endpoint.creds
    defaultNamespace := none
    kemKeysStore := none })

/-- The output of a response as it is written. -/
def written : Output → List Byte
  | .bytes data => data
  | .json .null => []
  | .json value => endpoint.dumps value

/-- `send_error`: a message that is no Latin-1 raises while the status line is
    written. -/
def sendError (code : Nat) (mesg : Option Str) : Except Exc Reply :=
  if Latin1 (mesg.getD []) then .ok ⟨code, endpoint.errorPage code mesg⟩ else .error aborted

/-- The reply, or what `send_error` makes of an exception. -/
def rendered : Except Exc Response → Except Exc Reply
  | .ok response => .ok ⟨response.code.getD 200, endpoint.written response.output⟩
  | .error (.http code mesg) => endpoint.sendError code mesg
  | .error (.py _ _) => endpoint.sendError 500 none

/-- What comes of a request that could be read: its body is too large, the
    pipeline refuses it, or the consumer answers as it does. -/
def decided {γ σ : Type} (config : HttpConfig (γ × Request))
    (answer : γ → Request → σ → Except Exc Response × σ) (sent : ClientRequest) (req : Request)
    (s : σ) : Except Exc Response × σ :=
  if maxRequestSize < (sent.data.getD []).length then (.error (.http 413 none), s)
  else
    match pipeline config req with
    | .error e => (.error e, s)
    | .ok (con, granted) => answer con granted s

/-- `handle_one_request`. -/
def handleOneRequest {γ σ : Type} (config : HttpConfig (γ × Request))
    (answer : γ → Request → σ → Except Exc Response × σ) (sent : ClientRequest) (s : σ) :
    Except Exc Reply × σ :=
  if maxRequestLine < (endpoint.requestLine sent).length then (endpoint.sendError 414 none, s)
  else
    match endpoint.incoming sent with
    | none => (.error aborted, s)
    | some req =>
        (endpoint.rendered (decided config answer sent req s).1,
          (decided config answer sent req s).2)

end Endpoint

/-- A server whose consumers keep secrets, at its endpoint: where it listens,
    what its libraries do, and its configuration. Its table is the state that a
    run goes over. -/
structure Service extends Endpoint where
  server : Server

instance : Coe Service Endpoint := ⟨Service.toEndpoint⟩

/-- `handle_one_request`, of such a server. -/
def Service.serve (service : Service) (sent : ClientRequest) (t : Table) :
    Except Exc Reply × Table :=
  service.handleOneRequest service.server.config
    (fun con req t => ((respond con req t).1.result, (respond con req t).2)) sent t

/-- A call of a method, all the way to a server and back. -/
def askOver {σ : Type} (lib : JsonLibrary) (client : CustodiaHTTPClient)
    (serve : ClientRequest → σ → Except Exc Reply × σ) (a : Action) (s : σ) :
    Except Failure Json × σ :=
  match (a.prog lib client).run serve s with
  | (.ok r, s') => (r, s')
  | (.error e, s') => (.error (.sending e), s')

/-- A call of a method, all the way to the table and back. -/
def ask (lib : JsonLibrary) (client : CustodiaHTTPClient) (service : Service) :
    Action → Table → Except Failure Json × Table :=
  askOver lib client service.serve

end SimpleClient
