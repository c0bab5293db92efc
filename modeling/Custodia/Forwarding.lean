import Custodia.OrderedDicts
import Custodia.SecretsConsumer

/-! # Forwarding — requests answered by another server

    `Forwarder` is a consumer that sends each request on to an upstream server
    and answers what the server answers. The upstream server is the service
    its program calls: one operation is one request of the HTTP client, and
    the reply, or an exception of the HTTP library, comes back.

    * `Headers`, `SentHeaders`: the headers of a program, and those on the wire;
    * `CustodiaHTTPClient`: the URL and the headers of a client's requests;
    * `Forwarder.Announces`: its own loop header is the one that is sent;
    * `Forwarder.handle`: the consumer. -/

namespace Forwarding

open Interaction OrderedDicts PosixPath PyValues Unquote SecretsConsumer

/-! ## Header dictionaries -/

/-- A dictionary of headers. To the dictionary two spellings of a name are
    different; the HTTP library and the servers ignore the case of names. A
    value may be `None`, as options are read from JSON. -/
abbrev Headers := Dict (id : Str → Str) (Option Str)

/-- The headers of a request as it is sent: one for each name, however this is
    spelled. -/
abbrev SentHeaders := Dict lower Str

namespace Headers

/-- The value that counts under a name, if the name is there in any spelling:
    that of the last one, since the HTTP library copies the items in their
    order. -/
def sent (headers : Headers) (name : Str) : Option (Option Str) := last lower headers.items name

/-- What is sent: the headers of the HTTP library itself, then the others, and
    of all these none that is `None` in the end. -/
def transmitted (library : SentHeaders) (headers : Headers) : SentHeaders :=
  ((library.mapValues some).update headers.items).present

/-- What is sent under a name, however it is spelled, is what the headers say
    under it, where `None` is nothing, or else what the library sends. -/
@[simp] theorem get?_transmitted (library : SentHeaders) (headers : Headers) (name : Str) :
    (headers.transmitted library).get? name = (headers.sent name).getD (library.get? name) := by
  rw [transmitted, Dict.get?_present, get?_update, Dict.get?_mapValues]
  show ((headers.sent name).or _).join = _
  cases headers.sent name with
  | some value => rfl
  | none => cases library.get? name <;> rfl

/-- Setting a header leaves what is sent under other names as it was. -/
theorem sent_set_of_ne (headers : Headers) {name other : Str} (h : lower other ≠ lower name)
    (value : Option Str) : sent (headers.set other value) name = headers.sent name :=
  last_set_of_ne headers value (fun _ _ => congrArg lower) h

/-- What is set under a name is sent, if no other spelling stands behind it. -/
theorem sent_set_self (headers : Headers) {name : Str} (h : ¬ Hidden lower headers name)
    (value : Option Str) : sent (headers.set name value) name = some value :=
  last_set_self headers value (fun _ _ => congrArg lower) h

/-- **A hidden header is not sent.** Where another spelling stands behind it,
    setting it changes nothing on the wire. -/
theorem sent_set_of_hidden (headers : Headers) {name : Str} (h : Hidden lower headers name)
    (value : Option Str) : sent (headers.set name value) name = headers.sent name :=
  last_set_of_hidden headers value (fun _ _ => congrArg lower) h

end Headers

/-! ## The HTTP client -/

/-- A request that the HTTP library is asked to send. -/
structure ClientRequest where
  method : Str
  url : Str
  params : List (Str × List Str)
  headers : Headers
  data : Option (List Byte)

/-- The reply, as far as it is used. -/
structure Reply where
  statusCode : Nat
  content : List Byte

/-- Programs that send requests. -/
abbrev ClientProg (α : Type) := Prog Exc ClientRequest (fun _ => Reply) α

/-- `DEFAULT_HEADERS`. -/
def defaultHeaders : Headers :=
  ⟨[("Content-Type", some "application/json")], List.nodup_singleton _⟩

/-- `CustodiaHTTPClient`. -/
structure CustodiaHTTPClient where
  url : Str
  headers : Headers

namespace CustodiaHTTPClient

/-- `_join_url`. -/
def joinUrl (client : CustodiaHTTPClient) (path : Str) : Str :=
  rstrip client.url ++ slash :: lstrip path

/-- `_add_headers`. -/
def addHeaders (client : CustodiaHTTPClient) (headers : Headers) : Headers :=
  headers.update client.headers.items

/-- `_request`. -/
def request (client : CustodiaHTTPClient) (cmd path : Str) (params : List (Str × List Str))
    (headers : Headers) (data : Option (List Byte)) : ClientProg Reply :=
  Prog.perform ⟨cmd, client.joinUrl path, params, client.addHeaders headers, data⟩

end CustodiaHTTPClient

/-! ## The consumer -/

/-- The header that names the forwarders a request has passed. -/
def loopHeader : Str := "X-LOOP-CUSTODIA"

/-- `str(uuid.uuid4())`. -/
def Uuid : Type := { s : Str // s.length = 36 ∧ ∀ c ∈ s, c ∈ "0123456789abcdef-".toList }

/-- `Forwarder`: its options, and the identifier it gives itself. -/
structure Forwarder where
  forwardUri : Str
  forwardHeaders : Headers
  prefixRemoteUser : Bool
  uuid : Uuid

namespace Forwarder

variable (fwd : Forwarder) (req : Request)

/-- `self.client`. -/
def client : CustodiaHTTPClient := ⟨fwd.forwardUri, defaultHeaders⟩

/-- `self.forward_headers`, to which `__init__` adds the identifier. -/
def ownHeaders : Headers := fwd.forwardHeaders.set loopHeader (some fwd.uuid.val)

/-- What the forwarder sets under the name of the loop header is what is sent:
    in its options no other spelling of this name stands behind it. -/
def Announces : Prop := ¬ Hidden lower fwd.forwardHeaders loopHeader

instance : Decidable fwd.Announces := inferInstanceAs (Decidable (¬ _))

/-- `_path`. -/
def path : Str :=
  let trail := req.trail.getD []
  let pre := if fwd.prefixRemoteUser then [rstrip (req.remoteUser.getD "guest")] else []
  joinSlash (pre ++ trail)

/-- What `_headers` makes of the loop header of a request. -/
def headersAfter (loop : Option Str) : Headers :=
  match loop with
  | none => fwd.ownHeaders
  | some loop =>
      fwd.ownHeaders.set loopHeader
        (some ((fwd.ownHeaders.get? loopHeader).join.getD [] ++ (",".toList ++ loop)))

/-- `_headers`. -/
def headers : Headers := fwd.headersAfter (req.header loopHeader)

/-- `_response`. -/
def response (reply : Reply) : Except Exc Response :=
  if reply.statusCode < 200 ∨ 299 < reply.statusCode then .error (.http reply.statusCode none)
  else .ok ⟨some reply.statusCode, none,
    if reply.content = [] then .json .null else .bytes reply.content⟩

/-- The request has passed here before. -/
def DetectsLoop : Prop := fwd.uuid.val <:+: (req.header loopHeader).getD []

instance : Decidable (fwd.DetectsLoop req) := inferInstanceAs (Decidable (_ <:+: _))

/-- `_request`, with what the methods pass to it. -/
def request (cmd : Str) (data : Option (List Byte)) : ClientProg Response :=
  if fwd.DetectsLoop req then .raise (.http 502 (some "Loop detected"))
  else do
    let reply ← fwd.client.request cmd (fwd.path req) req.query (fwd.headers req) data
    Prog.ofExcept (response reply)

/-- `GET`. -/
def methodGet : ClientProg Response := fwd.request req "GET" none

/-- `PUT`. -/
def methodPut : ClientProg Response := fwd.request req "PUT" req.body

/-- `DELETE`. -/
def methodDelete : ClientProg Response := fwd.request req "DELETE" none

/-- `POST`. -/
def methodPost : ClientProg Response := fwd.request req "POST" req.body

/-- The handler that `_find_handler` finds; the consumer has no subs. -/
def method : ClientProg Response :=
  if req.command = "GET" then fwd.methodGet req
  else if req.command = "PUT" then fwd.methodPut req
  else if req.command = "POST" then fwd.methodPost req
  else if req.command = "DELETE" then fwd.methodDelete req
  else .raise (.http 501 none)

/-- `HTTPConsumer.handle`. -/
def handle : ClientProg Response := do
  Prog.ofExcept (finishResponse (← fwd.method req))

end Forwarder

/-! ## What is sent -/

/-- The commands that a consumer supports. -/
def supportedCommands : List Str :=
  (["GET", "PUT", "POST", "DELETE"] : List String).map String.toList

/-- The body that is sent on: that of a PUT or a POST. -/
def sentBody (req : Request) : Option (List Byte) :=
  if req.command ∈ (["PUT", "POST"] : List String).map String.toList then req.body else none

/-- The request that a forwarder sends upstream. -/
def upstreamRequest (fwd : Forwarder) (req : Request) : ClientRequest :=
  ⟨req.command, fwd.client.joinUrl (fwd.path req), req.query,
    fwd.client.addHeaders (fwd.headers req), sentBody req⟩

section Handle

variable {fwd : Forwarder} {req : Request}

/-- A request with a supported method is forwarded, with the body that this
    method sends. -/
theorem method_eq (h : req.command ∈ supportedCommands) :
    fwd.method req = fwd.request req req.command (sentBody req) := by
  obtain ⟨command, path, pathChain, trail, query, headers, body, user, creds, ns, kk⟩ := req
  simp only [supportedCommands, List.map_cons, List.map_nil, List.mem_cons, List.not_mem_nil,
    or_false] at h
  rcases h with rfl | rfl | rfl | rfl
  · rfl
  · rfl
  · rfl
  · rfl

/-- A request that comes back is refused. -/
theorem handle_detected (hcommand : req.command ∈ supportedCommands) (h : fwd.DetectsLoop req) :
    fwd.handle req = .raise (.http 502 (some "Loop detected")) := by
  rw [Forwarder.handle, method_eq hcommand, Forwarder.request, if_pos h]
  rfl

/-- Any other request is sent upstream, once. -/
theorem handle_sent (hcommand : req.command ∈ supportedCommands) (h : ¬ fwd.DetectsLoop req) :
    fwd.handle req = .call (upstreamRequest fwd req)
      (fun r => Prog.ofExcept
        (r >>= fun reply => Forwarder.response reply >>= finishResponse)) := by
  rw [Forwarder.handle, method_eq hcommand, Forwarder.request, if_neg h]
  refine congrArg (Prog.call _) (funext fun r => ?_)
  cases r with
  | error e => rfl
  | ok reply =>
      show Prog.bind (Prog.ofExcept (Forwarder.response reply)) _
        = Prog.ofExcept (Forwarder.response reply >>= finishResponse)
      cases Forwarder.response reply with
      | error e => rfl
      | ok response => rfl

/-- A request with any other method is refused, and nothing is sent. -/
theorem handle_unsupported (hcommand : req.command ∉ supportedCommands) :
    fwd.handle req = .raise (.http 501 none) := by
  have hne {c : String} (hc : c.toList ∈ supportedCommands) : req.command ≠ c.toList := by
    intro heq
    exact hcommand (heq ▸ hc)
  rw [Forwarder.handle, Forwarder.method, if_neg (hne (by decide)), if_neg (hne (by decide)),
    if_neg (hne (by decide)), if_neg (hne (by decide))]
  rfl

/-- The value that `_headers` puts under the name of the loop header. -/
theorem get?_ownHeaders : fwd.ownHeaders.get? loopHeader = some (some fwd.uuid.val) :=
  Dict.get?_set_self fwd.forwardHeaders loopHeader (some fwd.uuid.val)

/-- The client adds no loop header. -/
theorem sent_addHeaders (headers : Headers) :
    (fwd.client.addHeaders headers).sent loopHeader = headers.sent loopHeader :=
  Headers.sent_set_of_ne headers (by decide) _

/-- Where the forwarder announces itself, its identifier is sent before the
    trace. -/
theorem sent_headersAfter (h : fwd.Announces) (loop : Option Str) :
    (fwd.headersAfter loop).sent loopHeader = some (some (match loop with
      | none => fwd.uuid.val
      | some loop => fwd.uuid.val ++ ',' :: loop)) := by
  cases loop with
  | none => exact Headers.sent_set_self fwd.forwardHeaders h (some fwd.uuid.val)
  | some loop =>
      have hown : ¬ Hidden lower fwd.ownHeaders loopHeader := fun hhidden =>
        h ((hidden_set_iff fwd.forwardHeaders _ (fun _ _ => congrArg lower)).mp hhidden)
      show Headers.sent (fwd.ownHeaders.set loopHeader _) loopHeader = _
      rw [Headers.sent_set_self fwd.ownHeaders hown, get?_ownHeaders]
      rfl

/-- Where it does not, the other spelling is sent, without the trace. -/
theorem sent_headersAfter_hidden (h : ¬ fwd.Announces) (loop : Option Str) :
    (fwd.headersAfter loop).sent loopHeader = fwd.forwardHeaders.sent loopHeader := by
  have hhidden : Hidden lower fwd.forwardHeaders loopHeader := not_not.mp h
  have hown : fwd.ownHeaders.sent loopHeader = fwd.forwardHeaders.sent loopHeader :=
    Headers.sent_set_of_hidden fwd.forwardHeaders hhidden (some fwd.uuid.val)
  cases loop with
  | none => exact hown
  | some loop =>
      have hidden' : Hidden lower fwd.ownHeaders loopHeader :=
        (hidden_set_iff fwd.forwardHeaders _ (fun _ _ => congrArg lower)).mpr hhidden
      exact (Headers.sent_set_of_hidden fwd.ownHeaders hidden' _).trans hown

/-- **The header that goes upstream**: the identifier of the forwarder, before
    what the request carries. -/
theorem upstreamRequest_loop (h : fwd.Announces) :
    (upstreamRequest fwd req).headers.sent loopHeader = some (some (match req.header loopHeader with
      | none => fwd.uuid.val
      | some loop => fwd.uuid.val ++ ',' :: loop)) := by
  show (fwd.client.addHeaders (fwd.headers req)).sent loopHeader = _
  rw [sent_addHeaders, Forwarder.headers, sent_headersAfter h]

/-- Behind another spelling the identifier is not sent, and neither is what the
    request carries. -/
theorem upstreamRequest_hidden (h : ¬ fwd.Announces) :
    (upstreamRequest fwd req).headers.sent loopHeader = fwd.forwardHeaders.sent loopHeader := by
  show (fwd.client.addHeaders (fwd.headers req)).sent loopHeader = _
  rw [sent_addHeaders, Forwarder.headers, sent_headersAfter_hidden h]

end Handle

/-- A forwarder with the default options. -/
def plainForwarder : Forwarder where
  forwardUri := "http://localhost/secrets"
  forwardHeaders := Dict.empty
  prefixRemoteUser := true
  uuid := ⟨"00000000-0000-4000-8000-000000000000", by decide, by simp⟩

end Forwarding
