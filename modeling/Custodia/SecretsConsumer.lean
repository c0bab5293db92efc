import Custodia.SqliteStore
import Custodia.Messages

/-! # SecretsConsumer — the request handlers over a store

    `Secrets` and the `HTTPConsumer` around it. Each method is a program that
    issues store calls one at a time, so that it can be run alone and
    interleaved with others. A handled request ends in an `Outcome`: the
    response or the exception, and the audit records it emitted. -/

namespace SecretsConsumer

open Interaction PosixPath PyValues Unquote Messages SqliteStore

/-- A program that calls the store. -/
abbrev StoreProg (α : Type) := Prog Exc Call Call.Ans α

/-! ## `self.root.store` -/

def storeGet (key : Str) : StoreProg SqlValue := Prog.perform (Call.get key)
def storeSet (key : Str) (value : Json) : StoreProg Unit :=
  Prog.perform (Call.set key value false)
def storeSpan (key : Str) : StoreProg Unit := Prog.perform (Call.span key)
def storeList (keyfilter : Str) : StoreProg (Option (List Str)) :=
  Prog.perform (Call.list keyfilter)
def storeCut (key : Str) : StoreProg Bool := Prog.perform (Call.cut key)

/-! ## Requests and responses -/

/-- The peer credentials in the request: no such entry, `None`, or known. A
    client that is not named by an authenticator is named by its process in the
    records, if it is known. -/
inductive Creds where
  | absent
  | unknown
  | peer (pid uid gid : Int)

/-- The request dictionary, as far as the handlers read it: what the client has
    sent, and what the pipeline has added, from the remote user to the default
    namespace and the trail below the mount point. -/
structure Request where
  command : Str
  path : Str
  pathChain : List Str
  trail : Option (List Str)
  query : List (Str × List Str)
  headers : List (Str × Str)
  body : Option (List Byte)
  remoteUser : Option Str
  creds : Creds
  defaultNamespace : Option Str
  kemKeysStore : Option KEMKeysStore

/-- `headers.get(name)`; header names are compared without case. -/
def Request.header (req : Request) (name : Str) : Option Str :=
  (req.headers.find? (fun h => decide (lower h.1 = lower name))).map Prod.snd

/-- What a method puts out: a Python object that is to be encoded, `null` for
    none, or raw bytes, which are sent as they are. -/
inductive Output where
  | json (value : Json)
  | bytes (data : List Byte)

/-- The response dictionary, with its code and content type where the method has
    set them; `handle` fills in what is missing. -/
structure Response where
  code : Option Nat
  contentType : Option Str
  output : Output

/-- The response a handler starts from. -/
def emptyResponse : Response := ⟨none, none, .json .null⟩

/-! ## The audit log -/

def auditGetAllowed : Nat := 1
def auditGetDenied : Nat := 2
def auditSetAllowed : Nat := 3
def auditSetDenied : Nat := 4
def auditDelAllowed : Nat := 5
def auditDelDenied : Nat := 6

/-- A record of `AuditLog.key_access`: the number of the action, the client and
    the key as they are quoted in its text. -/
structure AuditRecord where
  action : Nat
  client : Str
  key : Str
  deriving DecidableEq

/-- `AuditLog.key_access`: an action out of range is logged as a failure. -/
def keyAccess (action : Nat) (client key : Str) : AuditRecord :=
  ⟨if action = 0 ∨ 7 ≤ action then 0 else action, client, key⟩

/-- The text of a record, from `AUDIT_MESSAGES`. -/
def AuditRecord.text (r : AuditRecord) : Str :=
  let about (verdict verb : Str) : Str :=
    verdict ++ (": '" : Str) ++ r.client ++ ("' " : Str) ++ verb ++ (" key '" : Str) ++ r.key
      ++ ("'" : Str)
  match r.action with
  | 1 => about "ALLOWED" "requested"
  | 2 => about "DENIED" "requested"
  | 3 => about "ALLOWED" "stored"
  | 4 => about "DENIED" "stored"
  | 5 => about "ALLOWED" "deleted"
  | 6 => about "DENIED" "deleted"
  | _ => "AUDIT FAILURE"

/-- How a handled request ends: the response or the exception, and the records
    that were written on the way, in their order. -/
structure Outcome where
  result : Except Exc Response
  audit : List AuditRecord

/-- The status the client sees. -/
def Outcome.status (o : Outcome) : Nat :=
  match o.result with
  | .ok response => response.code.getD 200
  | .error (.http code _) => code
  | .error (.py _ _) => 500

/-- The request is answered by a response with this code. -/
def Outcome.Answered (o : Outcome) (code : Nat) : Prop :=
  ∃ response, o.result = .ok response ∧ response.code.getD 200 = code

/-! ## The consumer -/

/-- A configured `Secrets` consumer: what it takes from the runtime, the clock
    among it, and the message types it allows. The store is not in it; it is the
    service that its programs call. -/
structure Secrets where
  runtime : Runtime
  allowedKeytypes : KeyTypes

variable (self : Secrets)

/-- `_db_key`. -/
def dbKey (trail : List Str) : Except Exc Str :=
  if trail.length < 2 then .error (.http 403 none)
  else .ok (join "keys" trail)

/-- `_db_container_key`. -/
def dbContainerKey (default : Option Str) (trail : List Str) : Except Exc Str :=
  if 1 < trail.length then dbKey trail
  else if trail.length = 1 ∧ trail.head? ≠ some [] then .error (.http 403 none)
  else
    match default with
    | none => .error (.http 403 none)
    | some default => dbKey [default, []]

/-! ### Reading the message -/

/-- The message a request without one stands for. -/
def defaultMessage : Json :=
  .obj [(.text "type", .ofText "simple"), (.text "value", .ofText "")]

/-- `_parse`. -/
def parseMessage (req : Request) (msg : Json) (name : Str) : Except Exc Handler :=
  parse self.runtime self.allowedKeytypes req.kemKeysStore msg name

/-- `_parse_query`. -/
def parseQuery (req : Request) (name : Str) : Except Exc Handler :=
  if req.query = [] then parseMessage self req defaultMessage name
  else
    parseMessage self req
      (.obj (req.query.map (fun q => (.text q.1, .arr (q.2.map Json.ofText))))) name

/-- `_parse_bin_body`. -/
def parseBinBody (req : Request) (name : Str) : Except Exc Handler :=
  match req.body with
  | none => .error (.http 400 none)
  | some body =>
      parseMessage self req
        (.obj [(.text "type", .ofText "simple"), (.text "value", .ofText (b64encode body))]) name

/-- `_parse_body`. -/
def parseBody (req : Request) (name : Str) : Except Exc Handler :=
  match req.body with
  | none => .error (.http 400 none)
  | some body => do parseMessage self req (← raised (self.runtime.jsonLoads body)) name

/-- `_parse_maybe_body`. -/
def parseMaybeBody (req : Request) (name : Str) : Except Exc Handler :=
  match req.body with
  | none => parseMessage self req defaultMessage name
  | some body => do parseMessage self req (← raised (self.runtime.jsonLoads body)) name

/-- The content type of a request, without its parameters. -/
def contentTypeValue (req : Request) : Str :=
  strip (splitFirst ';' ((req.header "Content-Type").getD []))

/-- The message of a PUT, by content type. -/
def parseSetBody (req : Request) (name : Str) : Except Exc Handler :=
  if contentTypeValue req = "application/octet-stream" then parseBinBody self req name
  else if contentTypeValue req = "application/json" then parseBody self req name
  else .error (.py .valueError "Invalid Content-Type")

/-- How a PUT reports a message it cannot read. -/
def setParseError (e : Exc) : Exc :=
  if e.isA .unknownMessageType = true then .http 406 (some e.str)
  else if e.isA .unallowedMessage = true then .http 406 (some e.str)
  else .http 400 (some e.str)

/-! ### Store errors and replies -/

/-- The `except` clauses shared by all operations. -/
def storeError (e : Exc) : Exc :=
  if e.isA .csStoreDenied = true then .http 403 none
  else if e.isA .csStoreError = true then .http 500 none
  else if e.isA .csStoreUnsupported = true then .http 501 none
  else e

/-- The `except` clauses of a PUT, which also answers `CSStoreExists`. -/
def setError (e : Exc) : Exc :=
  if e.isA .csStoreExists = true then .http 409 none else storeError e

def jsonContentType : Str := "application/json; charset=utf-8"

/-- The response of an operation that changed the store: the reply if there is
    one, with the codes for the two cases. -/
def changedResponse (msg : Handler) (withReply noReply : Nat) : Except Exc Response := do
  match ← msg.reply self.runtime .null with
  | .null => return ⟨some noReply, none, .json .null⟩
  | output => return ⟨some withReply, some jsonContentType, .json output⟩

/-- The loop of `_format_reply` over the accepted types. -/
def acceptsBinary (binary : Bool) : List Str → Bool
  | [] => binary
  | t :: types =>
      if strip t = "application/json" then false
      else if strip t = "application/octet-stream" then acceptsBinary true types
      else acceptsBinary binary types

/-- `b64decode(reply['value'])`. -/
def decodeReplyValue (reply : Json) : Except Exc (List Byte) :=
  match reply with
  | .obj fields =>
      match Json.lookup fields "value" with
      | some (.str (.text s)) => b64decode s
      | _ => .error (.py .typeError "argument should be a bytes-like object or ASCII string")
  | _ => .error (.py .typeError "string indices must be integers")

/-- `_format_reply`. -/
def formatReply (req : Request) (handler : Handler) (output : Json) : Except Exc Response := do
  let reply ← handler.reply self.runtime output
  let binary := match req.header "Accept" with
    | none => false
    | some accept => acceptsBinary false (accept.splitOn ',')
  if handler.isSimple = true ∧ binary = true then
    return ⟨none, some "application/octet-stream", .bytes (← decodeReplyValue reply)⟩
  else
    match reply with
    | .null => return emptyResponse
    | reply => return ⟨none, some jsonContentType, .json reply⟩

/-! ### The operations -/

/-- `_parent_exists`; the trail is never empty. -/
def parentExists (default : Option Str) (trail : List Str) : StoreProg Bool :=
  match dbContainerKey trail.head? (trail.dropLast ++ [[]]) with
  | .error e => .raise e
  | .ok basename => do
      let keylist ← Prog.catching (storeList basename) (fun e =>
        .raise (if e.isA .csStoreError = true then .http 500 none else e))
      match keylist with
      | some _ => return true
      | none =>
          -- create default namespace if it is the only missing piece
          if trail.length = 2 ∧ default = trail.head? then
            match dbContainerKey default [] with
            | .error e => .raise e
            | .ok container => do
                storeSpan container
                return true
          else return false

/-- `_list`. -/
def listContainer (trail : List Str) (req : Request) : StoreProg Response :=
  match parseQuery self req (joinSlash trail) with
  | .error e => .raise (.http 406 (some e.str))
  | .ok msg =>
      match dbContainerKey req.defaultNamespace trail with
      | .error e => .raise e
      | .ok basename =>
          Prog.catching (do
              match ← storeList basename with
              | none => .raise (.http 404 none)
              | some keylist =>
                  let output ← Prog.ofExcept
                    (msg.reply self.runtime (.arr (keylist.map Json.ofText)))
                  return ⟨none, some jsonContentType, .json output⟩)
            (fun e => .raise (storeError e))

/-- `_create`. -/
def create (trail : List Str) (req : Request) : StoreProg Response :=
  match parseMaybeBody self req (joinSlash trail) with
  | .error e => .raise (.http 406 (some e.str))
  | .ok msg =>
      match dbContainerKey none trail with
      | .error e => .raise e
      | .ok basename => do
          let spanned ← Prog.attempt (do
            if 2 < trail.length then
              let ok ← parentExists req.defaultNamespace trail.dropLast
              if ok = true then storeSpan basename
              else .raise (.http 404 none)
            else storeSpan basename)
          match spanned with
          | .error e =>
              if e.isA .csStoreExists = true then return ⟨some 200, none, .json .null⟩
              else .raise (storeError e)
          | .ok () => Prog.ofExcept (changedResponse self msg 201 201)

/-- `_destroy`. -/
def destroy (trail : List Str) (req : Request) : StoreProg Response :=
  match parseMaybeBody self req (joinSlash trail) with
  | .error e => .raise (.http 406 (some e.str))
  | .ok msg =>
      match dbContainerKey none trail with
      | .error e => .raise e
      | .ok basename => do
          let ret ← Prog.catching (do
              match ← storeList basename with
              | none => .raise (.http 404 none)
              | some keylist =>
                  if keylist ≠ [] then .raise (.http 409 none)
                  else storeCut (rstrip basename))
            (fun e => .raise (storeError e))
          if ret = false then .raise (.http 404 none)
          else Prog.ofExcept (changedResponse self msg 200 204)

/-- `_int_get_key`. -/
def intGetKey (trail : List Str) (req : Request) : StoreProg Response :=
  match parseQuery self req (joinSlash trail) with
  | .error e => .raise (.http 406 (some e.str))
  | .ok handler =>
      match dbKey trail with
      | .error e => .raise e
      | .ok key =>
          Prog.catching (do
              let output ← storeGet key
              if output = .null then .raise (.http 404 none)
              else
                let length ← Prog.ofExcept output.len
                if length = 0 then .raise (.http 406 none)
                else Prog.ofExcept (formatReply self req handler output.toJson))
            (fun e => .raise (storeError e))

/-- `_int_set_key`. -/
def intSetKey (trail : List Str) (req : Request) : StoreProg Response :=
  match parseSetBody self req (joinSlash trail) with
  | .error e => .raise (setParseError e)
  | .ok msg =>
      match dbKey trail with
      | .error e => .raise e
      | .ok key => do
          Prog.catching (do
              let ok ← parentExists req.defaultNamespace trail
              if ok = true then storeSet key msg.payload
              else .raise (.http 404 none))
            (fun e => .raise (setError e))
          Prog.ofExcept (changedResponse self msg 201 201)

/-- `_int_del_key`. -/
def intDelKey (trail : List Str) (req : Request) : StoreProg Response :=
  match parseMaybeBody self req (joinSlash trail) with
  | .error e => .raise (.http 406 (some e.str))
  | .ok msg =>
      match dbKey trail with
      | .error e => .raise e
      | .ok key => do
          let ret ← Prog.catching (storeCut key) (fun e => .raise (storeError e))
          if ret = false then .raise (.http 404 none)
          else Prog.ofExcept (changedResponse self msg 200 204)

/-! ### Auditing and dispatch -/

/-- The decimal digits of an integer. -/
def decimalInt : Int → Str
  | .ofNat n => decimal n
  | .negSucc n => '-' :: decimal (n + 1)

/-- `_client_name`. -/
def clientName (req : Request) : Except Exc Str :=
  match req.remoteUser with
  | some user => .ok user
  | none =>
      match req.creds with
      | .absent => .ok "Unknown"
      | .unknown => .error (.py .typeError "argument after ** must be a mapping, not NoneType")
      | .peer pid uid gid =>
          .ok (("<pid=" : Str) ++ decimalInt pid ++ (" uid=" : Str) ++ decimalInt uid
            ++ (" gid=" : Str) ++ decimalInt gid ++ (">" : Str))

/-- `_audit`: the record is emitted whether `fn` returns or raises, but not
    when the client has no name. -/
def audited (ok fail : Nat) (fn : StoreProg Response) (trail : List Str) (req : Request) :
    StoreProg Outcome :=
  match clientName req with
  | .error e => return ⟨.error e, []⟩
  | .ok client => do
      let result ← fn.attempt
      let action := match result with
        | .ok _ => ok
        | .error _ => fail
      return ⟨result, [keyAccess action client (joinSlash trail)]⟩

/-- A method that emits no record. -/
def unaudited (fn : StoreProg Response) : StoreProg Outcome := do
  return ⟨← fn.attempt, []⟩

/-- The last segment is the empty one: the trail names a container. -/
def namesContainer (trail : List Str) : Prop := trail.getLast? = some []

instance (trail : List Str) : Decidable (namesContainer trail) :=
  inferInstanceAs (Decidable (_ = _))

/-- `GET`. -/
def methodGet (req : Request) : StoreProg Outcome :=
  let trail := req.trail.getD []
  if trail = [] ∨ namesContainer trail then unaudited (listContainer self trail req)
  else audited auditGetAllowed auditGetDenied (intGetKey self trail req) trail req

/-- `PUT`. -/
def methodPut (req : Request) : StoreProg Outcome :=
  let trail := req.trail.getD []
  if trail = [] ∨ namesContainer trail then return ⟨.error (.http 405 none), []⟩
  else audited auditSetAllowed auditSetDenied (intSetKey self trail req) trail req

/-- `DELETE`. -/
def methodDelete (req : Request) : StoreProg Outcome :=
  let trail := req.trail.getD []
  if trail = [] then return ⟨.error (.http 405 none), []⟩
  else if namesContainer trail then unaudited (destroy self trail req)
  else audited auditDelAllowed auditDelDenied (intDelKey self trail req) trail req

/-- `POST`. -/
def methodPost (req : Request) : StoreProg Outcome :=
  let trail := req.trail.getD []
  if namesContainer trail then unaudited (create self trail req)
  else return ⟨.error (.http 405 none), []⟩

/-- `DEFAULT_CTYPE`. -/
def defaultContentType : Str := "text/html; charset=utf-8"

/-- The end of `HTTPConsumer.handle`: objects are encoded if the response is
    JSON, and what is then not bytes is refused. -/
def finishResponse (response : Response) : Except Exc Response :=
  let contentType := response.contentType.getD defaultContentType
  let encodes := decide ("application/json".toList <:+: contentType)
  let finished := { response with contentType := some contentType }
  match response.output with
  | .bytes _ => .ok finished
  | .json .null => .ok finished
  | .json (.obj _) =>
      if encodes then .ok finished else .error (.py .typeError "Handler returned unsupported type")
  | .json (.arr _) =>
      if encodes then .ok finished else .error (.py .typeError "Handler returned unsupported type")
  | .json _ => .error (.py .typeError "Handler returned unsupported type")

/-- The handler that `_find_handler` finds; the consumer has no subs. -/
def method (req : Request) : StoreProg Outcome :=
  if req.command = "GET" then methodGet self req
  else if req.command = "PUT" then methodPut self req
  else if req.command = "POST" then methodPost self req
  else if req.command = "DELETE" then methodDelete self req
  else return ⟨.error (.http 501 none), []⟩

/-- `HTTPConsumer.handle`. -/
def handle (req : Request) : StoreProg Outcome := do
  let outcome ← method self req
  return { outcome with result := outcome.result >>= finishResponse }

end SecretsConsumer
