import Custodia.Forwarding
import Custodia.ReadBackProofs

/-! # ForwardBodyProofs — what a forwarded message means

    The meaning of a body depends on the Content-Type of the request, and the
    representation of a secret on its Accept header. A forwarder sends the
    body as it is, with headers of its own: those of its options, where the
    last spelling of a name is sent, and the content type of the client.

    * `Arrives`: the request that reaches the upstream consumer;
    * `MeaningKept`: it is read and answered like the original one;
    * `ReadAlike`: a body that means the same in two ways of reading it;
    * `meaning_kept_iff`: when a forwarded request keeps its meaning. -/

namespace ForwardBodyProofs

open OrderedDicts PosixPath PyValues Unquote Messages SecretsConsumer Forwarding ReadBackProofs

/-- A forwarded request at its upstream consumer. Where no header is given,
    the HTTP library may send one of its own; which trail, user and key store
    the request gets is for the upstream server to say. -/
structure Arrives (library : SentHeaders) (fwd : Forwarder) (orig up : Request) : Prop where
  command : up.command = orig.command
  query : up.query = orig.query
  body : up.body = sentBody orig
  header : ∀ name, up.header name
    = ((upstreamRequest fwd orig).headers.transmitted library).get? name

/-- The original request in the place of the forwarded one. -/
def inPlace (orig up : Request) : Request :=
  { up with query := orig.query, headers := orig.headers, body := orig.body }

/-- The status of a PUT whose message cannot be read. -/
def rejection (e : Exc) : Nat :=
  match setParseError e with
  | .http code _ => code
  | .py _ _ => 500

/-- What a PUT makes of its body: a message, or the status of the rejection. -/
def decoded (r : Except Exc Handler) : Except Nat Handler := r.mapError rejection

/-- The Accept header selects raw octets. -/
def selectsOctets (accept : Option Str) : Bool :=
  match accept with
  | none => false
  | some accept => acceptsBinary false (accept.splitOn ',')

/-- The forwarded request means what the original one means: the body of a PUT
    is the same message or the same rejection, and a secret is rendered
    alike. -/
structure MeaningKept (con : Secrets) (orig up : Request) (name : Str) : Prop where
  put : orig.command = "PUT".toList →
    decoded (parseSetBody con up name) = decoded (parseSetBody con (inPlace orig up) name)
  get : orig.command = "GET".toList → ∀ handler, parseQuery con up name = .ok handler →
    ∀ s : Str, s ≠ [] →
      formatReply con up handler (.ofText s)
        = formatReply con (inPlace orig up) handler (.ofText s)

/-- A JSON document of the shape of a message, of a type that the consumer does
    not take. -/
def OfOtherType (con : Secrets) (body : List Byte) : Prop :=
  ∃ document msgType msgValue, con.runtime.jsonLoads body = .ok document
    ∧ Envelope con.runtime document msgType msgValue
    ∧ (msgType = .ofText "simple" → con.allowedKeytypes.allows "simple" = false)
    ∧ (msgType = .ofText "kem" → con.allowedKeytypes.allows "kem" = false)

/-- No JSON document of the shape of a message, unless it is of a type that the
    consumer takes, with a value that is none: a `simple` value that is no
    text, or a `kem` value that its handler refuses. -/
def Malformed (con : Secrets) (kk : Option KEMKeysStore) (name : Str) (body : List Byte) : Prop :=
  ∀ document msgType msgValue, con.runtime.jsonLoads body = .ok document →
    Envelope con.runtime document msgType msgValue →
      msgType = .ofText "simple" ∧ con.allowedKeytypes.allows "simple" = true
          ∧ msgValue ≠ .null ∧ (∀ s, msgValue ≠ .str s)
        ∨ msgType = .ofText "kem" ∧ con.allowedKeytypes.allows "kem" = true
          ∧ ∀ handler, kemParse con.runtime kk msgValue name ≠ .ok handler

/-- How a PUT takes its body, by the content type: as octets, which are encoded,
    as a document, which is parsed, or not at all, which is a refusal. -/
inductive Reading where
  | octets
  | document
  | unknown
  deriving DecidableEq

/-- By the content type. -/
def reading (type : Str) : Reading :=
  if type = "application/octet-stream" then .octets
  else if type = "application/json" then .document
  else .unknown

/-- A body that is the same message in two readings, or the same rejection: it
    is refused in both with one status. -/
def ReadAlike (con : Secrets) (kk : Option KEMKeysStore) (name : Str) (body : List Byte) :
    Reading → Reading → Prop
  | .octets, .document => con.allowedKeytypes.allows "simple" = false ∧ OfOtherType con body
  | .document, .octets => con.allowedKeytypes.allows "simple" = false ∧ OfOtherType con body
  | .document, .unknown => Malformed con kk name body
  | .unknown, .document => Malformed con kk name body
  | .octets, .unknown => False
  | .unknown, .octets => False
  | .octets, .octets => True
  | .document, .document => True
  | .unknown, .unknown => True

/-- The content type that a forwarder sends: the client's own, unless another
    spelling of this header stands behind it in the options; that one may be
    `None`, and then there is no content type. -/
def typeSent (fwd : Forwarder) : Str :=
  if Hidden lower fwd.forwardHeaders "Content-Type".toList then
    strip (splitFirst ';' ((fwd.forwardHeaders.sent "Content-Type").join.getD []))
  else "application/json"

/-- When the meaning is kept: the content type of the request and the one that
    is sent read the body alike, and the two Accept headers select the same
    representation of a secret. -/
structure Agrees (con : Secrets) (library : SentHeaders) (fwd : Forwarder) (orig up : Request)
    (name : Str) : Prop where
  put : orig.command = "PUT".toList → ∀ body, orig.body = some body →
    ReadAlike con up.kemKeysStore name body (reading (contentTypeValue orig))
      (reading (typeSent fwd))
  get : orig.command = "GET".toList → ∀ handler, parseQuery con up name = .ok handler →
    handler.isSimple = true → selectsOctets (orig.header "Accept")
      = selectsOctets ((fwd.forwardHeaders.sent "Accept").getD (library.get? "Accept"))

/-- What is relied on of `json.loads`: its texts come from the document, and its
    exceptions are not those that the program defines. Both hold of every
    parser. -/
structure LoadsJson (rt : Runtime) : Prop where
  /-- A text of a document is shorter than the document. -/
  shorter : ∀ body fields s, rt.jsonLoads body = .ok (.obj fields) →
    Json.lookup fields "value" = some (.ofText s)
      ∨ Json.lookup fields "value" = some (.arr [.ofText s]) → s.length < body.length
  /-- Its exceptions are not those of the validator. -/
  foreign : ∀ body fault, rt.jsonLoads body = .error fault →
    fault.cls ≠ .unknownMessageType ∧ fault.cls ≠ .unallowedMessage

variable {con : Secrets} {library : SentHeaders} {fwd : Forwarder} {orig up : Request} {name : Str}

/-! ## The headers that arrive -/

/-- **A header that arrives** is the one that the forwarder sends, or else the
    library's. -/
theorem header_up (h : Arrives library fwd orig up) (name : Str) :
    up.header name = ((upstreamRequest fwd orig).headers.sent name).getD (library.get? name) := by
  rw [h.header, Headers.get?_transmitted]

/-- The headers of the options are sent, but for the two that are set. -/
theorem sent_headers {other : Str} (hloop : lower loopHeader ≠ lower other) :
    (fwd.headers orig).sent other = fwd.forwardHeaders.sent other
      ∧ (Hidden lower (fwd.headers orig) other ↔ Hidden lower fwd.forwardHeaders other) := by
  have hset (headers : Headers) (value : Option Str) :
      Headers.sent (headers.set loopHeader value) other = headers.sent other :=
    Headers.sent_set_of_ne headers hloop value
  have hidden (headers : Headers) (value : Option Str) :
      Hidden lower (headers.set loopHeader value) other ↔ Hidden lower headers other :=
    hidden_set_of_ne headers value (fun _ _ => congrArg lower) hloop
  rw [Forwarder.headers]
  cases orig.header loopHeader with
  | none => exact ⟨hset _ _, hidden _ _⟩
  | some loop => exact ⟨(hset _ _).trans (hset _ _), (hidden _ _).trans (hidden _ _)⟩

/-- The content type that arrives is the one that the forwarder sends. -/
theorem contentTypeValue_up (h : Arrives library fwd orig up) :
    contentTypeValue up = typeSent fwd := by
  obtain ⟨hsame, hiff⟩ : (fwd.headers orig).sent "Content-Type"
      = fwd.forwardHeaders.sent "Content-Type"
      ∧ (Hidden lower (fwd.headers orig) "Content-Type".toList
        ↔ Hidden lower fwd.forwardHeaders "Content-Type".toList) := sent_headers (by decide)
  have hsent : (upstreamRequest fwd orig).headers
      = (fwd.headers orig).set "Content-Type" (some "application/json".toList) := rfl
  rw [contentTypeValue, header_up h, hsent, typeSent]
  split_ifs with hidden
  · rw [Headers.sent_set_of_hidden _ (hiff.mpr hidden), hsame]
    -- what hides a name decides what is sent under it
    obtain ⟨-, i, hentry, -⟩ := hidden
    have hvalue : fwd.forwardHeaders.sent "Content-Type" = some i.2 :=
      congrArg (Option.map Prod.snd) hentry
    rw [hvalue]
    rfl
  · rw [Headers.sent_set_self _ (fun hsome => hidden (hiff.mp hsome))]
    show strip (splitFirst ';' "application/json".toList) = "application/json".toList
    decide

/-- The Accept header is that of the forwarder's options, or the library's. -/
theorem accept_up (h : Arrives library fwd orig up) :
    up.header "Accept" = (fwd.forwardHeaders.sent "Accept").getD (library.get? "Accept") := by
  have hclient : (upstreamRequest fwd orig).headers.sent "Accept"
      = (fwd.headers orig).sent "Accept" :=
    Headers.sent_set_of_ne (fwd.headers orig) (by decide) _
  rw [header_up h, hclient, (sent_headers (by decide)).1]

/-- Such a request exists. -/
theorem arrives_transmitted (library : SentHeaders) (fwd : Forwarder) (orig up : Request) :
    Arrives library fwd orig { up with
      command := orig.command
      query := orig.query
      headers := ((upstreamRequest fwd orig).headers.transmitted library).items
      body := sentBody orig } where
  command := rfl
  query := rfl
  body := rfl
  header _ := rfl

/-! ## How a body is refused -/

/-- Whatever the computation raises is answered with 400. -/
def Refuses {α : Type} (x : Except Exc α) : Prop := ∀ e, x = .error e → rejection e = 400

/-- An exception of Python is answered with 400, unless it is about the type of
    the message. -/
theorem rejection_py {cls : ExcClass} (hunknown : cls ≠ .unknownMessageType)
    (hunallowed : cls ≠ .unallowedMessage) (text : Str) : rejection (.py cls text) = 400 := by
  have hunknown' : (Exc.py cls text).isA .unknownMessageType = false := decide_eq_false hunknown
  have hunallowed' : (Exc.py cls text).isA .unallowedMessage = false := decide_eq_false hunallowed
  rw [rejection, setParseError, hunknown', hunallowed']
  rfl

/-- What succeeds raises nothing. -/
theorem refuses_ok {α : Type} (a : α) : Refuses (.ok a : Except Exc α) := fun _ h => nomatch h

/-- An exception of Python that is not about the type of the message is answered
    with 400. -/
theorem refuses_py {α : Type} {cls : ExcClass} (hunknown : cls ≠ .unknownMessageType)
    (hunallowed : cls ≠ .unallowedMessage) (text : Str) :
    Refuses (.error (.py cls text) : Except Exc α) := by
  intro e h
  obtain rfl := Except.error.inj h
  exact rejection_py hunknown hunallowed text

/-- A sequence fails with 400 if its parts do. -/
theorem refuses_bind {α β : Type} {x : Except Exc α} {f : α → Except Exc β} (hx : Refuses x)
    (hf : ∀ a, Refuses (f a)) : Refuses (x >>= f) := by
  intro e h
  cases x with
  | error e' => exact hx e (congrArg Except.error (Except.error.inj h))
  | ok a => exact hf a e h

/-- A message that is invalid is answered with 400. -/
theorem refuses_invalid {α : Type} (text : Str) :
    Refuses (.error (invalidMessage text) : Except Exc α) :=
  refuses_py (by decide) (by decide) text

/-- A `TypeError` is answered with 400. -/
theorem refuses_type {α : Type} (text : Str) :
    Refuses (.error (.py .typeError text) : Except Exc α) :=
  refuses_py (by decide) (by decide) text

/-- Looking for a claim fails with 400 at most. -/
theorem refuses_claim (claims : Json) (field : Str) : Refuses (claim claims field) := by
  unfold claim
  split
  · exact refuses_ok _
  · split_ifs
    · exact refuses_type _
    · exact refuses_ok _
  · split_ifs
    · exact refuses_type _
    · exact refuses_ok _
  · exact refuses_ok _
  · exact refuses_type _

/-- Checking the claims fails with 400 at most. -/
theorem refuses_checkKemClaims (rt : Runtime) (claims : Json) (name : Str) :
    Refuses (checkKemClaims rt claims name) := by
  refine refuses_bind (refuses_claim claims "sub") (fun found => ?_)
  cases found with
  | none => exact refuses_invalid _
  | some sub =>
      show Refuses (if sub.isText name = false then _ else _)
      split_ifs
      · exact refuses_invalid _
      · refine refuses_bind (refuses_claim claims "exp") (fun found => ?_)
        cases found with
        | none => exact refuses_invalid _
        | some exp =>
            dsimp only
            cases exp.number? with
            | none => exact refuses_type _
            | some x =>
                show Refuses (if (x.minus (10 * 60)).gt rt.now = true then _ else _)
                split_ifs
                · exact refuses_invalid _
                · exact refuses_invalid _
                · exact refuses_ok _

/-- **What is wrong with a `kem` value is never its type**: the handler raises
    exceptions of its own, or of the library, but not those of the validator. -/
theorem refuses_kemParse (rt : Runtime) (kk : Option KEMKeysStore) (msg : Json) (name : Str) :
    Refuses (kemParse rt kk msg name) := by
  unfold kemParse
  split
  · exact refuses_py (by decide) (by decide) _
  · split
    · exact refuses_invalid _
    · split
      · exact refuses_invalid _
      · exact refuses_bind (refuses_checkKemClaims rt _ name) (fun _ => refuses_ok _)

/-- Parsing a `simple` message fails with 400 at most. -/
theorem refuses_simpleParse (msg : Json) (name : Str) : Refuses (simpleParse msg name) := by
  unfold simpleParse
  split
  · exact refuses_ok _
  · exact refuses_ok _
  · exact refuses_invalid _

/-- A value is refused as that of a `simple` message exactly if it is no string,
    and there is one. -/
theorem simpleParse_refused_iff {msg : Json} {name : Str} :
    (∀ handler, simpleParse msg name ≠ .ok handler) ↔ msg ≠ .null ∧ ∀ s, msg ≠ .str s := by
  unfold simpleParse
  split
  · exact iff_of_false (fun h => h _ rfl) (fun h => h.1 rfl)
  · exact iff_of_false (fun h => h _ rfl) (fun h => h.2 _ rfl)
  · rename_i hnull hstr
    exact iff_of_true nofun ⟨hnull, hstr⟩

/-- What fails with 400 at most is never answered with 406, and with 400 exactly
    if there is no handler. -/
theorem decoded_of_refuses {x : Except Exc Handler} (h : Refuses x) :
    decoded x ≠ .error 406 ∧ (decoded x = .error 400 ↔ ∀ handler, x ≠ .ok handler) := by
  cases x with
  | ok handler => exact ⟨nofun, iff_of_false nofun (fun hne => hne handler rfl)⟩
  | error e =>
      have hcode : decoded (.error e) = .error 400 := congrArg Except.error (h e rfl)
      rw [hcode]
      exact ⟨fun h => absurd (Except.error.inj h) (by decide), iff_of_true rfl nofun⟩

/-- The two types of message are different. -/
theorem simple_ne_kem : Json.ofText "simple" ≠ Json.ofText "kem" := by
  intro h
  exact absurd (PyStr.text.inj (Json.str.inj h)) (by decide)

/-- The three ways of a message: its type is one of the two that are taken, or
    it is refused for its type. -/
theorem decoded_envelope {document msgType msgValue : Json}
    (h : Envelope con.runtime document msgType msgValue) (kk : Option KEMKeysStore) (name : Str) :
    msgType = .ofText "simple" ∧ con.allowedKeytypes.allows "simple" = true
        ∧ parse con.runtime con.allowedKeytypes kk document name = simpleParse msgValue name
      ∨ msgType = .ofText "kem" ∧ con.allowedKeytypes.allows "kem" = true
        ∧ parse con.runtime con.allowedKeytypes kk document name
          = kemParse con.runtime kk msgValue name
      ∨ (msgType = .ofText "simple" → con.allowedKeytypes.allows "simple" = false)
        ∧ (msgType = .ofText "kem" → con.allowedKeytypes.allows "kem" = false)
        ∧ decoded (parse con.runtime con.allowedKeytypes kk document name) = .error 406 := by
  rw [parse_of_envelope h]
  split_ifs with hsimple hallow hkem hallow
  · exact Or.inl ⟨Json.isText_iff.mp hsimple, hallow, rfl⟩
  · refine Or.inr (Or.inr ⟨fun _ => Bool.eq_false_of_not_eq_true hallow, fun hkem => ?_, rfl⟩)
    exact absurd ((Json.isText_iff.mp hsimple).symm.trans hkem) simple_ne_kem
  · exact Or.inr (Or.inl ⟨Json.isText_iff.mp hkem, hallow, rfl⟩)
  · exact Or.inr (Or.inr ⟨fun heq => absurd (Json.isText_iff.mpr heq) hsimple,
      fun _ => Bool.eq_false_of_not_eq_true hallow, rfl⟩)
  · exact Or.inr (Or.inr ⟨fun heq => absurd (Json.isText_iff.mpr heq) hsimple,
      fun heq => absurd (Json.isText_iff.mpr heq) hkem, rfl⟩)

section Refusals

variable {req : Request} {body : List Byte}

/-- A body that is read as a document is parsed as that document. -/
theorem parseBody_loaded (hbody : req.body = some body) {document : Json}
    (hload : con.runtime.jsonLoads body = .ok document) (name : Str) :
    parseBody con req name
      = parse con.runtime con.allowedKeytypes req.kemKeysStore document name := by
  rw [parseBody]
  rw [hbody]
  show (raised (con.runtime.jsonLoads body) >>= _) = _
  rw [hload]
  rfl

/-- What is no message is answered with 400. -/
theorem decoded_not_loaded (hloads : LoadsJson con.runtime) (hbody : req.body = some body)
    {fault : Fault} (hload : con.runtime.jsonLoads body = .error fault) (name : Str) :
    decoded (parseBody con req name) = .error 400 := by
  have hraised : parseBody con req name = .error (.py fault.cls fault.text) := by
    rw [parseBody]
    rw [hbody]
    show (raised (con.runtime.jsonLoads body) >>= _) = _
    rw [hload]
    rfl
  obtain ⟨hunknown, hunallowed⟩ := hloads.foreign body fault hload
  rw [hraised]
  exact congrArg Except.error (rejection_py hunknown hunallowed fault.text)

/-- **Which bodies are refused for their type**: documents that are messages of
    a type which the consumer does not allow. -/
theorem decoded_otherType_iff (hloads : LoadsJson con.runtime) (hbody : req.body = some body)
    (name : Str) : decoded (parseBody con req name) = .error 406 ↔ OfOtherType con body := by
  constructor
  · intro h
    cases hload : con.runtime.jsonLoads body with
    | error fault =>
        rw [decoded_not_loaded hloads hbody hload] at h
        exact absurd (Except.error.inj h) (by decide)
    | ok document =>
        rw [parseBody_loaded hbody hload] at h
        rcases envelope_or_invalid con.runtime con.allowedKeytypes req.kemKeysStore document name
          with ⟨msgType, msgValue, henvelope⟩ | ⟨text, hinvalid⟩
        · rcases decoded_envelope henvelope req.kemKeysStore name with
            ⟨-, -, hparse⟩ | ⟨-, -, hparse⟩ | ⟨hsimple, hkem, -⟩
          · rw [hparse] at h
            exact absurd h (decoded_of_refuses (refuses_simpleParse msgValue name)).1
          · rw [hparse] at h
            exact absurd h (decoded_of_refuses (refuses_kemParse _ _ msgValue name)).1
          · exact ⟨document, msgType, msgValue, hload, henvelope, hsimple, hkem⟩
        · rw [hinvalid] at h
          have hcode : (400 : Nat) = 406 := Except.error.inj h
          exact absurd hcode (by decide)
  · rintro ⟨document, msgType, msgValue, hload, henvelope, hsimple, hkem⟩
    rw [parseBody_loaded hbody hload]
    rcases decoded_envelope henvelope req.kemKeysStore name with
      ⟨htype, hallow, -⟩ | ⟨htype, hallow, -⟩ | ⟨-, -, hrefused⟩
    · exact absurd hallow (Bool.eq_false_iff.mp (hsimple htype))
    · exact absurd hallow (Bool.eq_false_iff.mp (hkem htype))
    · exact hrefused

/-- **Which bodies are refused for what they hold**: what is no message document
    at all, or is one of an allowed type with a value that its handler refuses. -/
theorem decoded_malformed_iff (hloads : LoadsJson con.runtime) (hbody : req.body = some body)
    (name : Str) : decoded (parseBody con req name) = .error 400
      ↔ Malformed con req.kemKeysStore name body := by
  have hsimpleRefused (msgValue : Json) :=
    (decoded_of_refuses (refuses_simpleParse msgValue name)).2
  have hkemRefused (msgValue : Json) :=
    (decoded_of_refuses (refuses_kemParse con.runtime req.kemKeysStore msgValue name)).2
  constructor
  · intro h document msgType msgValue hload henvelope
    rw [parseBody_loaded hbody hload] at h
    rcases decoded_envelope henvelope req.kemKeysStore name with
      ⟨htype, hallow, hparse⟩ | ⟨htype, hallow, hparse⟩ | ⟨-, -, hrefused⟩
    · rw [hparse] at h
      exact Or.inl ⟨htype, hallow, simpleParse_refused_iff.mp ((hsimpleRefused msgValue).mp h)⟩
    · rw [hparse] at h
      exact Or.inr ⟨htype, hallow, (hkemRefused msgValue).mp h⟩
    · rw [hrefused] at h
      exact absurd (Except.error.inj h) (by decide)
  · intro h
    cases hload : con.runtime.jsonLoads body with
    | error fault => exact decoded_not_loaded hloads hbody hload name
    | ok document =>
        rw [parseBody_loaded hbody hload]
        rcases envelope_or_invalid con.runtime con.allowedKeytypes req.kemKeysStore document name
          with ⟨msgType, msgValue, henvelope⟩ | ⟨text, hinvalid⟩
        · rcases decoded_envelope henvelope req.kemKeysStore name with
            ⟨htype, -, hparse⟩ | ⟨htype, -, hparse⟩ | ⟨hsimple, hkem, -⟩
          · rcases h document msgType msgValue hload henvelope with ⟨-, -, hvalue⟩ | ⟨hother, -⟩
            · rw [hparse]
              exact (hsimpleRefused msgValue).mpr (simpleParse_refused_iff.mpr hvalue)
            · exact absurd (htype.symm.trans hother) simple_ne_kem
          · rcases h document msgType msgValue hload henvelope with ⟨hother, -⟩ | ⟨-, -, hvalue⟩
            · exact absurd (hother.symm.trans htype) simple_ne_kem
            · rw [hparse]
              exact (hkemRefused msgValue).mpr hvalue
          · rcases h document msgType msgValue hload henvelope with
              ⟨htype, hallow, -⟩ | ⟨htype, hallow, -⟩
            · exact absurd hallow (Bool.eq_false_iff.mp (hsimple htype))
            · exact absurd hallow (Bool.eq_false_iff.mp (hkem htype))
        · rw [hinvalid]
          rfl

end Refusals

/-! ## Reading the body -/

/-- What a PUT makes of its body in one reading. -/
def readAs (con : Secrets) (req : Request) (name : Str) : Reading → Except Exc Handler
  | .octets => parseBinBody con req name
  | .document => parseBody con req name
  | .unknown => .error (.py .valueError "Invalid Content-Type")

/-- **A body is parsed by how its content type reads it.** -/
theorem parseSetBody_eq (con : Secrets) (req : Request) (name : Str) :
    parseSetBody con req name = readAs con req name (reading (contentTypeValue req)) := by
  rw [parseSetBody, reading]
  split_ifs <;> rfl

/-- A PUT is forwarded with its body. -/
theorem readAs_up (h : Arrives library fwd orig up) (hput : orig.command = "PUT".toList)
    (r : Reading) : readAs con up name r = readAs con (inPlace orig up) name r := by
  have hbody : up.body = orig.body := by
    rw [h.body, sentBody, if_pos (by rw [hput]; decide)]
  cases r with
  | octets =>
      show parseBinBody con up name = parseBinBody con (inPlace orig up) name
      unfold parseBinBody inPlace
      rw [hbody]
      rfl
  | document =>
      show parseBody con up name = parseBody con (inPlace orig up) name
      unfold parseBody inPlace
      rw [hbody]
      rfl
  | unknown => rfl

/-- A `simple` message with a text. -/
theorem parse_simple_text (rt : Runtime) (allowed : KeyTypes) (kk : Option KEMKeysStore)
    (value name : Str) :
    parse rt allowed kk (.obj [(.text "type", .ofText "simple"), (.text "value", .ofText value)])
        name
      = if allowed.allows "simple" = true then .ok (.simpleKey (some name) (.ofText value))
        else .error (.py .unallowedMessage "Message type 'simple' not allowed") := rfl

/-- Base 64 makes no data shorter. -/
theorem length_le_b64encode (data : List Byte) : data.length ≤ (b64encode data).length := by
  induction data using b64encode.induct with
  | case1 => exact Nat.le_refl _
  | case2 a => show 1 ≤ 4; omega
  | case3 a b => show 2 ≤ 4; omega
  | case4 a b c rest ih =>
      rw [b64encode]
      simp only [List.length_cons]
      omega

/-- A `simple` message holds the text that its document holds. -/
theorem text_of_parse_simple {rt : Runtime} {allowed : KeyTypes} {kk : Option KEMKeysStore}
    {document : Json} {s : Str}
    (h : parse rt allowed kk document name = .ok (.simpleKey (some name) (.ofText s))) :
    ∃ fields, document = .obj fields ∧ (Json.lookup fields "value" = some (.ofText s)
      ∨ Json.lookup fields "value" = some (.arr [.ofText s])) := by
  obtain ⟨fields, type, msgType, value, msgValue, rfl, -, -, hvalue, hlisted, hparsed⟩ :=
    parse_ok h
  refine ⟨fields, rfl, ?_⟩
  have htext : msgValue = .ofText s := by
    rcases hparsed with ⟨-, -, hsimple⟩ | ⟨-, -, hkem⟩
    · unfold simpleParse at hsimple
      cases msgValue with
      | str t => exact (Handler.simpleKey.inj (Except.ok.inj hsimple)).2
      | null => exact nomatch (Handler.simpleKey.inj (Except.ok.inj hsimple)).1
      | bool b => exact nomatch hsimple
      | int n => exact nomatch hsimple
      | float x => exact nomatch hsimple
      | arr items => exact nomatch hsimple
      | obj fields => exact nomatch hsimple
    · obtain ⟨payload, kk', encKey, heq⟩ := kemParse_kemHandler hkem
      exact nomatch heq
  subst htext
  rw [hvalue]
  unfold unlisted at hlisted
  split at hlisted
  · obtain rfl := Except.ok.inj hlisted
    exact Or.inr rfl
  · exact nomatch hlisted
  · obtain rfl := Except.ok.inj hlisted
    exact Or.inl rfl

/-- The two readings of a body are never the same message. -/
theorem parseBody_ne_octets (hloads : LoadsJson con.runtime) {req : Request} {body : List Byte}
    (hbody : req.body = some body) :
    parseBody con req name ≠ .ok (.simpleKey (some name) (.ofText (b64encode body))) := by
  intro h
  rw [parseBody] at h
  rw [hbody] at h
  obtain ⟨document, hload, h⟩ := bind_ok h
  obtain ⟨fields, rfl, hvalue⟩ := text_of_parse_simple h
  have hlength := hloads.shorter body fields _ (raised_ok hload) hvalue
  have hle := length_le_b64encode body
  omega

/-- What is answered with a handler was parsed to it. -/
theorem decoded_eq_ok {r : Except Exc Handler} {msg : Handler} (h : decoded r = .ok msg) :
    r = .ok msg := by
  cases r with
  | error e => exact nomatch h
  | ok msg' => exact congrArg _ (Except.ok.inj h)

/-- Raw bytes are parsed as a `simple` message of their base 64 text, where
    these are allowed. -/
theorem parseBinBody_eq {req : Request} {body : List Byte} (hbody : req.body = some body) :
    parseBinBody con req name
      = if con.allowedKeytypes.allows "simple" = true then
          .ok (.simpleKey (some name) (.ofText (b64encode body)))
        else .error (.py .unallowedMessage "Message type 'simple' not allowed") := by
  rw [parseBinBody]
  rw [hbody]
  exact parse_simple_text _ _ _ _ _

/-- Octets mean the same as a document only if they are refused. -/
theorem octets_kept_iff (hloads : LoadsJson con.runtime) {req : Request} {body : List Byte}
    (hbody : req.body = some body) :
    decoded (parseBody con req name) = decoded (parseBinBody con req name)
      ↔ con.allowedKeytypes.allows "simple" = false ∧ OfOtherType con body := by
  rw [parseBinBody_eq hbody, ← decoded_otherType_iff hloads hbody name]
  cases hallow : con.allowedKeytypes.allows "simple" with
  | true =>
      refine iff_of_false (fun heq => ?_) (fun h => Bool.noConfusion h.1)
      exact parseBody_ne_octets hloads hbody (decoded_eq_ok heq)
  | false => exact (and_iff_right rfl).symm

/-- They are taken, or refused for their type, which an unknown type is not. -/
theorem decoded_parseBinBody_ne {req : Request} {body : List Byte} (hbody : req.body = some body) :
    decoded (parseBinBody con req name) ≠ .error 400 := by
  rw [parseBinBody_eq hbody]
  split_ifs
  · exact fun h => by cases h
  · intro h
    have hcode : (406 : Nat) = 400 := Except.error.inj h
    exact absurd hcode (by decide)

/-- **The same body in two readings** is the same message, or the same
    rejection. -/
theorem decoded_readAs_iff (hloads : LoadsJson con.runtime) {req : Request} {body : List Byte}
    (hbody : req.body = some body) (r r' : Reading) :
    decoded (readAs con req name r) = decoded (readAs con req name r')
      ↔ ReadAlike con req.kemKeysStore name body r r' := by
  have hoctets : decoded (parseBody con req name) = decoded (parseBinBody con req name)
      ↔ con.allowedKeytypes.allows "simple" = false ∧ OfOtherType con body :=
    octets_kept_iff hloads hbody
  have hmalformed := decoded_malformed_iff hloads hbody name
  have hbin : decoded (parseBinBody con req name) ≠ .error 400 := decoded_parseBinBody_ne hbody
  cases r with
  | octets =>
      cases r' with
      | octets => exact iff_of_true rfl trivial
      | document => exact eq_comm.trans hoctets
      | unknown => exact iff_of_false hbin id
  | document =>
      cases r' with
      | octets => exact hoctets
      | document => exact iff_of_true rfl trivial
      | unknown => exact hmalformed
  | unknown =>
      cases r' with
      | octets => exact iff_of_false (Ne.symm hbin) id
      | document => exact eq_comm.trans hmalformed
      | unknown => exact iff_of_true rfl trivial

/-- Without a body, every reading is refused alike. -/
theorem decoded_readAs_none {req : Request} (hbody : req.body = none) (r : Reading) :
    decoded (readAs con req name r) = .error 400 := by
  cases r with
  | octets =>
      show decoded (parseBinBody con req name) = _
      rw [parseBinBody]
      rw [hbody]
      rfl
  | document =>
      show decoded (parseBody con req name) = _
      rw [parseBody]
      rw [hbody]
      rfl
  | unknown => rfl

/-- **The body of a PUT** means the same exactly if there is none, or the two
    content types read it alike. -/
theorem put_kept_iff (hloads : LoadsJson con.runtime) (h : Arrives library fwd orig up)
    (hput : orig.command = "PUT".toList) :
    decoded (parseSetBody con up name) = decoded (parseSetBody con (inPlace orig up) name)
      ↔ ∀ body, orig.body = some body →
        ReadAlike con up.kemKeysStore name body (reading (contentTypeValue orig))
          (reading (typeSent fwd)) := by
  have hread : parseSetBody con (inPlace orig up) name
      = readAs con (inPlace orig up) name (reading (contentTypeValue orig)) :=
    parseSetBody_eq con (inPlace orig up) name
  rw [hread, parseSetBody_eq, contentTypeValue_up h, readAs_up h hput, eq_comm]
  cases hbody : orig.body with
  | none =>
      have hnone : (inPlace orig up).body = none := hbody
      rw [decoded_readAs_none hnone, decoded_readAs_none hnone]
      exact iff_of_true rfl (fun body h => by cases h)
  | some body =>
      have hsome : (inPlace orig up).body = some body := hbody
      rw [decoded_readAs_iff hloads hsome]
      constructor
      · intro halike body' hbody'
        obtain rfl := Option.some.inj hbody'
        exact halike
      · exact fun halike => halike body rfl

/-! ## Rendering a secret -/

/-- The representation of a secret, by what the Accept header selects. -/
theorem formatReply_eq (con : Secrets) (req : Request) (handler : Handler) (output : Json) :
    formatReply con req handler output = (do
      let reply ← handler.reply con.runtime output
      if handler.isSimple = true ∧ selectsOctets (req.header "Accept") = true then
        return ⟨none, some "application/octet-stream", .bytes (← decodeReplyValue reply)⟩
      else
        match reply with
        | .null => return emptyResponse
        | reply => return ⟨none, some jsonContentType, .json reply⟩) := rfl

/-- A `simple` handler replies with some object, or with the text itself. -/
theorem simple_reply {handler : Handler} (hsimple : handler.isSimple = true) (rt : Runtime)
    (s : Str) : ∃ reply, handler.reply rt (.ofText s) = .ok reply ∧ reply ≠ .null := by
  cases handler with
  | kemHandler name payload kk encKey => exact nomatch hsimple
  | simpleKey name payload =>
      cases name with
      | none => exact nomatch hsimple
      | some name =>
          show ∃ reply, (if endsInSlash name then _ else _ : Except Exc Json) = .ok reply ∧ _
          split_ifs
          · exact ⟨_, rfl, nofun⟩
          · exact ⟨_, rfl, nofun⟩

/-- A `simple` reply is rendered differently in the two representations. -/
theorem formatReply_ne (req other : Request) {handler : Handler}
    (hsimple : handler.isSimple = true)
    (hreq : selectsOctets (req.header "Accept") = true)
    (hother : selectsOctets (other.header "Accept") = false) (s : Str) :
    formatReply con req handler (.ofText s) ≠ formatReply con other handler (.ofText s) := by
  obtain ⟨reply, hreply, hne⟩ := simple_reply hsimple con.runtime s
  have hoctets : formatReply con req handler (.ofText s) = (do
      return ⟨none, some "application/octet-stream", .bytes (← decodeReplyValue reply)⟩) := by
    rw [formatReply_eq, hreply]
    exact if_pos ⟨hsimple, hreq⟩
  have hjson : formatReply con other handler (.ofText s)
      = .ok ⟨none, some jsonContentType, .json reply⟩ := by
    rw [formatReply_eq, hreply]
    have hnot : ¬ (handler.isSimple = true ∧ selectsOctets (other.header "Accept") = true) := by
      rw [hother]
      exact fun h => nomatch h.2
    refine (if_neg hnot).trans ?_
    cases reply with
    | null => exact absurd rfl hne
    | bool b => rfl
    | int n => rfl
    | float x => rfl
    | str s => rfl
    | arr items => rfl
    | obj fields => rfl
  rw [hoctets, hjson]
  intro h
  obtain ⟨data, -, h⟩ := bind_ok h
  have htype : some "application/octet-stream".toList = some jsonContentType :=
    congrArg Response.contentType (Except.ok.inj h)
  exact absurd htype (by decide)

/-- **A secret** is rendered alike exactly if the two Accept headers select the
    same. -/
theorem get_kept_iff (h : Arrives library fwd orig up) (handler : Handler) :
    (∀ s : Str, s ≠ [] →
      formatReply con up handler (.ofText s)
        = formatReply con (inPlace orig up) handler (.ofText s))
      ↔ (handler.isSimple = true → selectsOctets (orig.header "Accept")
        = selectsOctets ((fwd.forwardHeaders.sent "Accept").getD (library.get? "Accept"))) := by
  rw [← accept_up h]
  constructor
  · intro hkept hsimple
    have hsame := hkept ['x'] (List.cons_ne_nil _ _)
    cases horig : selectsOctets (orig.header "Accept") with
    | true =>
        cases hup : selectsOctets (up.header "Accept") with
        | true => rfl
        | false =>
            exact absurd hsame.symm (formatReply_ne (inPlace orig up) up hsimple horig hup ['x'])
    | false =>
        cases hup : selectsOctets (up.header "Accept") with
        | true =>
            exact absurd hsame (formatReply_ne up (inPlace orig up) hsimple hup horig ['x'])
        | false => rfl
  · intro hsame s _
    rw [formatReply_eq, formatReply_eq]
    cases hsimple : handler.isSimple with
    | false => rfl
    | true =>
        have haccept : selectsOctets ((inPlace orig up).header "Accept")
            = selectsOctets (up.header "Accept") := hsame hsimple
        rw [haccept]

/-- What the HTTP library sends by itself. -/
def libraryHeaders : SentHeaders :=
  ⟨[("Accept", "*/*"), ("User-Agent", "python-requests")], by decide⟩

/-- The document of a `simple` message. -/
def document : Str := "\x7b\"type\": \"simple\", \"value\": \"s\"\x7d"

/-- A request of the user `u` for the secret `u/k`. -/
def request (command : Str) (headers : List (Str × Str)) (body : Option (List Byte)) : Request :=
  SecretsRuns.userRequest command "u" ["u", "k"] headers body

/-- The request as it arrives. -/
def forwarded (orig : Request) : Request :=
  { orig with
    headers := ((upstreamRequest plainForwarder orig).headers.transmitted libraryHeaders).items
    body := sentBody orig }

/-- The document is stored as octets. -/
def putOctets : Request :=
  request "PUT" [("Content-Type", "application/octet-stream")] (some (document.map Char.toNat))

/-- The secret is asked for as octets. -/
def getOctets : Request := request "GET" [("Accept", "application/octet-stream")] none

/-- What is in the document. -/
def documentFields : List (PyStr × Json) :=
  [(.text "type", .ofText "simple"), (.text "value", .ofText "s")]

/-- `json.loads`, as far as the document is concerned. -/
def readDocument (body : List Byte) : Except Fault Json :=
  if body = document.map Char.toNat then .ok (.obj documentFields)
  else .error ⟨.valueError, "Expecting value"⟩

/-- The document of the demonstration is read as its fields. -/
theorem readDocument_self : readDocument (document.map Char.toNat) = .ok (.obj documentFields) :=
  if_pos rfl

/-- A consumer that reads the document as JSON does. -/
def readsDocument : Secrets := ⟨{ (default : Runtime) with jsonLoads := readDocument }, .missing⟩

end ForwardBodyProofs
