import Custodia.PyValues

/-! # Messages — validating requests and building replies

    A request carries a message, `simple` or `kem`; the validator picks the
    handler, the handler parses the message and later wraps the reply. What
    `json`, `jwcrypto` and the clock answer is in `Runtime`: the handlers do
    not depend on how these work, and neither does anything proved here. -/

namespace Messages

open PosixPath PyValues Unquote

/-! ## What the handlers take from elsewhere -/

/-- A key of the JOSE library: `JWK`. Only its type and its identifier are
    looked at; the rest of it, private or public, is passed on to the library as
    it is. -/
structure Jwk where
  keyType : Str
  keyId : Json
  material : Json

/-- A token as the library has parsed it: encrypted, signed, with the header
    that names the key, or neither. The text in it is opaque to the program. -/
inductive Token where
  | jwe (data : Str)
  | jws (header : List (PyStr × Json)) (data : Str)
  | other

/-- The operations of `jwcrypto` that the handlers call. Nothing is assumed of
    them here; what signing and encrypting have to do with each other is said
    where it is relied on. -/
structure Jose where
  /-- `JWT(jwt=msg).token`. -/
  parseToken : Json → Except Fault Token
  /-- `JWK(**json_decode(key))`. -/
  jwk : Str → Except Fault Jwk
  /-- Decrypt a JWE and read its payload as a JWS. -/
  decrypt : Str → Jwk → Except Fault (List (PyStr × Json) × Str)
  /-- Verify a JWS and `json_decode` its payload. -/
  verify : Str → Jwk → Except Fault Json
  /-- `JWT(header, claims)`, signed and serialized. -/
  sign : Json → Json → Jwk → Except Fault Str
  /-- `JWE(plaintext, header)`, encrypted and serialized. -/
  encrypt : Str → Json → Jwk → Except Fault Str

/-- What the handlers take from the runtime: `json.loads` of a UTF-8 body, the
    text of a value that is not a string, the clock, and `jwcrypto`. -/
structure Runtime where
  jsonLoads : List Byte → Except Fault Json
  repr : Json → Str
  now : Int
  jose : Jose

/-- No token and no key is known. -/
instance : Inhabited Jose where
  default :=
    let unknown : Fault := ⟨.other, "Invalid JOSE object"⟩
    { parseToken := fun _ => .error unknown
      jwk := fun _ => .error unknown
      decrypt := fun _ _ => .error unknown
      verify := fun _ _ => .error unknown
      sign := fun _ _ _ => .error unknown
      encrypt := fun _ _ _ => .error unknown }

/-- No body is JSON. -/
instance : Inhabited Runtime where
  default :=
    { jsonLoads := fun _ => .error ⟨.valueError, "Expecting value"⟩
      repr := fun _ => []
      now := 0
      jose := default }

/-- `'%s' % value`. -/
def fmt (rt : Runtime) : Json → Str
  | .str (.text s) => s
  | value => rt.repr value

def invalidMessage (text : Str) : Exc := .py .invalidMessage text

/-! ## The KEM key store -/

/-- `KEMKeysStore`: the store of registered keys, `None` where there is none,
    and the options that name the server keys and the algorithm. -/
structure KEMKeysStore where
  storeGet : Str → Except Fault (Option Str)
  serverKeys : Option Str
  signingAlgorithm : Option Str

inductive KeyUsage where
  | sig
  | enc
  deriving DecidableEq

/-- `KEY_USAGE_MAP[usage]`. -/
def KeyUsage.name : KeyUsage → Str
  | .sig => "sig"
  | .enc => "enc"

namespace KEMKeysStore

/-- `KEMKeysStore._db_key`. -/
def dbKey (kid : Str) : Str := join "kemkeys" [kid]

/-- `find_key`. -/
def findKey (kk : KEMKeysStore) (kid : Str) (usage : KeyUsage) : Except Exc Str := do
  match ← raised (kk.storeGet (dbKey (usage.name ++ slash :: kid))) with
  | none => .error (.py .unknownPublicKey kid)
  | some pubkey => .ok pubkey

/-- The `server_keys` property: the signature key and the encryption key. -/
def serverKeyPair (kk : KEMKeysStore) (rt : Runtime) : Except Exc (Jwk × Jwk) := do
  match kk.serverKeys with
  | none => .error (.py .unknownPublicKey "Server Keys not defined")
  | some kid =>
      let skey ← kk.findKey kid .sig
      let ekey ← kk.findKey kid .enc
      return (← raised (rt.jose.jwk skey), ← raised (rt.jose.jwk ekey))

/-- The `alg` property. -/
def alg (kk : KEMKeysStore) (rt : Runtime) : Except Exc Str := do
  match kk.signingAlgorithm with
  | some alg => return alg
  | none =>
      let keys ← kk.serverKeyPair rt
      if keys.1.keyType = "RSA" then return "RS256"
      else if keys.1.keyType = "EC" then return "ES256"
      else .error (.py .valueError "Key type unsupported for signing")

end KEMKeysStore

/-! ## Handlers -/

/-- The handler of a parsed message. A `simple` message without a value
    leaves its handler without a name (and without a message type). -/
inductive Handler where
  | simpleKey (name : Option Str) (payload : Json)
  | kemHandler (name : Str) (payload : Json) (kk : KEMKeysStore) (encKey : Jwk)

/-- `handler.payload`. -/
def Handler.payload : Handler → Json
  | .simpleKey _ payload => payload
  | .kemHandler _ payload _ _ => payload

/-- `handler.msg_type == 'simple'`. -/
def Handler.isSimple : Handler → Bool
  | .simpleKey name _ => name.isSome
  | .kemHandler _ _ _ _ => false

/-- `SimpleKey.parse`. -/
def simpleParse (msg : Json) (name : Str) : Except Exc Handler :=
  match msg with
  | .null => .ok (.simpleKey none .null)
  | .str s => .ok (.simpleKey (some name) (.str s))
  | _ => .error (invalidMessage "The 'value' attribute is not a string")

/-- `claims[field]` of claims that are known to hold the field, where they are
    a `dict`. -/
def claim (claims : Json) (field : Str) : Except Exc (Option Json) :=
  match claims with
  | .obj fields => .ok (Json.lookup fields field)
  | .str (.text s) =>
      if field <:+: s then .error (.py .typeError "string indices must be integers")
      else .ok none
  | .arr items =>
      if items.any (fun item => item.isText field) then
        .error (.py .typeError "list indices must be integers or slices, not str")
      else .ok none
  | .str (.broken _) => .ok none
  | claims =>
      .error (.py .typeError ("argument of type '" ++ claims.typeName ++ "' is not iterable"))

/-- `check_kem_claims`. -/
def checkKemClaims (rt : Runtime) (claims : Json) (name : Str) : Except Exc Unit := do
  match ← claim claims "sub" with
  | none => .error (invalidMessage "Missing subject in payload")
  | some sub =>
      if sub.isText name = false then
        .error (invalidMessage
          ("Key name " ++ name ++ " does not match subject " ++ fmt rt sub))
      else
        match ← claim claims "exp" with
        | none => .error (invalidMessage "Missing expiration time in payload")
        | some exp =>
            match exp.number? with
            | none =>
                .error (.py .typeError
                  ("unsupported operand type(s) for -: '" ++ exp.typeName ++ "' and 'int'"))
            | some x =>
                if (x.minus (10 * 60)).gt rt.now then
                  .error (invalidMessage "Message expiration too far in the future")
                else if x.lt rt.now then .error (invalidMessage "Message Expired")
                else .ok ()

/-- `claims.get('value')`. -/
def claimValue : Json → Json
  | .obj fields => (Json.lookup fields "value").getD .null
  | _ => .null

/-- `KEMHandler._get_key`. -/
def getKey (rt : Runtime) (kk : KEMKeysStore) (header : List (PyStr × Json))
    (usage : KeyUsage) : Except Exc Jwk := do
  match Json.lookup header "kid" with
  | none => .error (invalidMessage "Missing key identifier")
  | some kid => raised (rt.jose.jwk (← kk.findKey (fmt rt kid) usage))

/-- The claims and the client keys of a token, as `KEMHandler.parse` finds
    them inside its second `try`. -/
def validate (rt : Runtime) (kk : KEMKeysStore) (token : Token) : Except Exc (Json × Jwk) := do
  let (header, data) ← match token with
    | .jwe data => do
        let keys ← kk.serverKeyPair rt
        raised (rt.jose.decrypt data keys.2)
    | .jws header data => pure (header, data)
    | .other => .error (.py .typeError "Invalid Token type")
  let sigKey ← getKey rt kk header .sig
  let encKey ← getKey rt kk header .enc
  return (← raised (rt.jose.verify data sigKey), encKey)

/-- `KEMHandler.parse`. -/
def kemParse (rt : Runtime) (kkstore : Option KEMKeysStore) (msg : Json) (name : Str) :
    Except Exc Handler :=
  match kkstore with
  | none => .error (.py .plain "KEM KeyStore not configured")
  | some kk =>
      match raised (rt.jose.parseToken msg) with
      | .error e => .error (invalidMessage ("Failed to parse message: " ++ e.str))
      | .ok token =>
          match validate rt kk token with
          | .error e => .error (invalidMessage ("Failed to validate message: " ++ e.str))
          | .ok (claims, encKey) => do
              checkKemClaims rt claims name
              return .kemHandler name (claimValue claims) kk encKey

/-! ## The validator -/

/-- The `allowed_keytypes` option: missing, it stays the text `'simple'`;
    given, it is a set of names, where no name at all means the defaults. -/
inductive KeyTypes where
  | missing
  | listed (names : List Str)

/-- `msg_type in self.allowed`. -/
def KeyTypes.allows (allowed : KeyTypes) (msgType : Str) : Bool :=
  match allowed with
  | .missing => decide (msgType <:+: "simple".toList)
  | .listed names =>
      if names = [] then decide (msgType ∈ ["simple".toList, "kem".toList])
      else decide (msgType ∈ names)

/-- One element out of its list; `what` is multivalued otherwise. -/
def unlisted (rt : Runtime) (what : Str) : Json → Except Exc Json
  | .arr [value] => .ok value
  | .arr items => .error (invalidMessage (what ++ " is multivalued: " ++ rt.repr (.arr items)))
  | value => .ok value

/-- `Validator.parse`. -/
def parse (rt : Runtime) (allowed : KeyTypes) (kkstore : Option KEMKeysStore) (msg : Json)
    (name : Str) : Except Exc Handler :=
  match msg with
  | .obj fields =>
      match Json.lookup fields "type" with
      | none => .error (invalidMessage "The type is missing")
      | some type => do
          let msgType ← unlisted rt "Type" type
          match Json.lookup fields "value" with
          | none => .error (invalidMessage "The value is missing")
          | some value => do
              let msgValue ← unlisted rt "Value" value
              if msgType.isText "simple" = true then
                if allowed.allows "simple" = true then simpleParse msgValue name
                else .error (.py .unallowedMessage "Message type 'simple' not allowed")
              else if msgType.isText "kem" = true then
                if allowed.allows "kem" = true then kemParse rt kkstore msgValue name
                else .error (.py .unallowedMessage "Message type 'kem' not allowed")
              else
                .error (.py .unknownMessageType ("Type '" ++ fmt rt msgType ++ "' is unknown"))
  | _ => .error (invalidMessage "The message must be a dict")

/-- A document of the shape of a message, with its type and its value, each
    out of its list. -/
def Envelope (rt : Runtime) (document msgType msgValue : Json) : Prop :=
  ∃ fields type value, document = .obj fields
    ∧ Json.lookup fields "type" = some type ∧ unlisted rt "Type" type = .ok msgType
    ∧ Json.lookup fields "value" = some value ∧ unlisted rt "Value" value = .ok msgValue

section Parse

variable {rt : Runtime} {allowed : KeyTypes} {kkstore : Option KEMKeysStore}
  {msg msgType msgValue : Json} {name : Str} {handler : Handler}

/-- Of a message, the type decides what becomes. -/
theorem parse_of_envelope (h : Envelope rt msg msgType msgValue) :
    parse rt allowed kkstore msg name =
      if msgType.isText "simple" = true then
        if allowed.allows "simple" = true then simpleParse msgValue name
        else .error (.py .unallowedMessage "Message type 'simple' not allowed")
      else if msgType.isText "kem" = true then
        if allowed.allows "kem" = true then kemParse rt kkstore msgValue name
        else .error (.py .unallowedMessage "Message type 'kem' not allowed")
      else .error (.py .unknownMessageType ("Type '" ++ fmt rt msgType ++ "' is unknown")) := by
  obtain ⟨fields, type, value, rfl, htype, hmsgType, hvalue, hmsgValue⟩ := h
  simp only [parse, htype, hmsgType, hvalue, hmsgValue]
  rfl

theorem unlisted_error {what : Str} {value : Json} {e : Exc}
    (h : unlisted rt what value = .error e) : ∃ text, e = invalidMessage text := by
  unfold unlisted at h
  split at h
  · exact nomatch h
  · exact ⟨_, (Except.error.inj h).symm⟩
  · exact nomatch h

/-- Any other document is invalid. -/
theorem envelope_or_invalid (rt : Runtime) (allowed : KeyTypes) (kkstore : Option KEMKeysStore)
    (msg : Json) (name : Str) : (∃ msgType msgValue, Envelope rt msg msgType msgValue)
      ∨ ∃ text, parse rt allowed kkstore msg name = .error (invalidMessage text) := by
  cases msg with
  | obj fields =>
      cases htype : Json.lookup fields "type" with
      | none => exact Or.inr ⟨"The type is missing", by simp only [parse, htype]⟩
      | some type =>
          cases hmsgType : unlisted rt "Type" type with
          | error e =>
              obtain ⟨text, rfl⟩ := unlisted_error hmsgType
              exact Or.inr ⟨text, by simp only [parse, htype, hmsgType]; rfl⟩
          | ok msgType =>
              cases hvalue : Json.lookup fields "value" with
              | none =>
                  exact Or.inr ⟨"The value is missing", by
                    simp only [parse, htype, hmsgType, hvalue]
                    rfl⟩
              | some value =>
                  cases hmsgValue : unlisted rt "Value" value with
                  | error e =>
                      obtain ⟨text, rfl⟩ := unlisted_error hmsgValue
                      exact Or.inr ⟨text, by
                        simp only [parse, htype, hmsgType, hvalue, hmsgValue]
                        rfl⟩
                  | ok msgValue =>
                      exact Or.inl ⟨msgType, msgValue, fields, type, value, rfl, htype, hmsgType,
                        hvalue, hmsgValue⟩
  | null => exact Or.inr ⟨_, rfl⟩
  | bool b => exact Or.inr ⟨_, rfl⟩
  | int n => exact Or.inr ⟨_, rfl⟩
  | float x => exact Or.inr ⟨_, rfl⟩
  | str s => exact Or.inr ⟨_, rfl⟩
  | arr items => exact Or.inr ⟨_, rfl⟩

/-- **What the validator lets through**: an object whose value, out of its
    list, the handler of an allowed type has parsed. -/
theorem parse_ok (h : parse rt allowed kkstore msg name = .ok handler) :
    ∃ fields type msgType value msgValue, msg = .obj fields
      ∧ Json.lookup fields "type" = some type ∧ unlisted rt "Type" type = .ok msgType
      ∧ Json.lookup fields "value" = some value ∧ unlisted rt "Value" value = .ok msgValue
      ∧ (msgType = .ofText "simple" ∧ allowed.allows "simple" = true
          ∧ simpleParse msgValue name = .ok handler
        ∨ msgType = .ofText "kem" ∧ allowed.allows "kem" = true
          ∧ kemParse rt kkstore msgValue name = .ok handler) := by
  rcases envelope_or_invalid rt allowed kkstore msg name with
    ⟨msgType, msgValue, henvelope⟩ | ⟨text, hinvalid⟩
  · rw [parse_of_envelope henvelope] at h
    obtain ⟨fields, type, value, rfl, htype, hmsgType, hvalue, hmsgValue⟩ := henvelope
    refine ⟨fields, type, msgType, value, msgValue, rfl, htype, hmsgType, hvalue, hmsgValue, ?_⟩
    -- the type decides the handler
    split_ifs at h with hsimple hallow hkem hallow
    · exact Or.inl ⟨Json.isText_iff.mp hsimple, hallow, h⟩
    · exact Or.inr ⟨Json.isText_iff.mp hkem, hallow, h⟩
  · exact nomatch hinvalid.symm.trans h

end Parse

/-! ## Replies -/

/-- `make_sig_kem`. -/
def makeSigKem (rt : Runtime) (name : Str) (value : Json) (key : Jwk) (alg : Str) :
    Except Exc Str :=
  let header := Json.obj [(.text "kid", key.keyId), (.text "alg", .ofText alg)]
  let claims := [(PyStr.text "sub", Json.ofText name), (.text "exp", .int (rt.now + 5 * 60))]
  let claims := match value with
    | .null => claims
    | value => claims ++ [(.text "value", value)]
  raised (rt.jose.sign header (.obj claims) key)

/-- `make_enc_kem`. -/
def makeEncKem (rt : Runtime) (name : Str) (value : Json) (sigKey : Jwk) (alg : Str)
    (encKey : Jwk) (enc : Str × Str) : Except Exc Str := do
  let plaintext ← makeSigKem rt name value sigKey alg
  raised (rt.jose.encrypt plaintext (.obj [(.text "kid", encKey.keyId),
    (.text "alg", .ofText enc.1), (.text "enc", .ofText enc.2)]) encKey)

/-- `KEMHandler.reply`: only RSA client keys can be answered. -/
def kemReply (rt : Runtime) (name : Str) (kk : KEMKeysStore) (encKey : Jwk) (output : Json) :
    Except Exc Json := do
  if encKey.keyType = "RSA" then
    let keys ← kk.serverKeyPair rt
    let alg ← kk.alg rt
    let value ← makeEncKem rt name output keys.1 alg encKey ("RSA-OAEP", "A256CBC-HS512")
    return .obj [(.text "type", .ofText "kem"), (.text "value", .ofText value)]
  else .error (.py .valueError ("'" ++ encKey.keyType ++ "' type not supported yet"))

/-- A reply to a `kem` message is an object. -/
theorem kemReply_ok {rt : Runtime} {name : Str} {kk : KEMKeysStore} {encKey : Jwk}
    {output reply : Json} (h : kemReply rt name kk encKey output = .ok reply) :
    ∃ fields, reply = .obj fields := by
  rw [kemReply] at h
  split_ifs at h
  obtain ⟨keys, -, h⟩ := bind_ok h
  obtain ⟨alg, -, h⟩ := bind_ok h
  obtain ⟨value, -, h⟩ := bind_ok h
  exact ⟨_, (Except.ok.inj h).symm⟩

/-- `SimpleKey.reply`. -/
def simpleReply (name : Option Str) (output : Json) : Except Exc Json :=
  match output with
  | .null => .ok .null
  | output =>
      match name with
      | none => .error (.py .plain "'NoneType' object has no attribute 'endswith'")
      | some name =>
          -- directory listings are passed through
          if endsInSlash name then .ok output
          else .ok (.obj [(.text "type", .ofText "simple"), (.text "value", output)])

/-- `handler.reply(output)`; no reply is `null`. -/
def Handler.reply (rt : Runtime) (output : Json) : Handler → Except Exc Json
  | .simpleKey name _ => simpleReply name output
  | .kemHandler name _ kk encKey => kemReply rt name kk encKey output

/-! ### Building a reply raises no `HTTPError` -/

theorem raisesPy_findKey (kk : KEMKeysStore) (kid : Str) (usage : KeyUsage) :
    RaisesPy (kk.findKey kid usage) := by
  refine raisesPy_bind (raisesPy_raised _) ?_
  intro found
  cases found with
  | none => exact raisesPy_py _ _
  | some pubkey => exact raisesPy_ok pubkey

theorem raisesPy_serverKeyPair (kk : KEMKeysStore) (rt : Runtime) :
    RaisesPy (kk.serverKeyPair rt) := by
  rw [KEMKeysStore.serverKeyPair]
  split
  · exact raisesPy_py _ _
  · refine raisesPy_bind (raisesPy_findKey kk _ _) (fun skey => ?_)
    refine raisesPy_bind (raisesPy_findKey kk _ _) (fun ekey => ?_)
    exact raisesPy_bind (raisesPy_raised _)
      (fun _ => raisesPy_bind (raisesPy_raised _) (fun _ => raisesPy_ok _))

theorem raisesPy_alg (kk : KEMKeysStore) (rt : Runtime) : RaisesPy (kk.alg rt) := by
  rw [KEMKeysStore.alg]
  split
  · exact raisesPy_ok _
  · refine raisesPy_bind (raisesPy_serverKeyPair kk rt) (fun keys => ?_)
    split_ifs
    · exact raisesPy_ok _
    · exact raisesPy_ok _
    · exact raisesPy_py _ _

theorem raisesPy_kemReply (rt : Runtime) (name : Str) (kk : KEMKeysStore) (encKey : Jwk)
    (output : Json) : RaisesPy (kemReply rt name kk encKey output) := by
  rw [kemReply]
  split_ifs
  · refine raisesPy_bind (raisesPy_serverKeyPair kk rt) (fun keys => ?_)
    refine raisesPy_bind (raisesPy_alg kk rt) (fun alg => ?_)
    refine raisesPy_bind ?_ (fun value => raisesPy_ok _)
    exact raisesPy_bind (raisesPy_raised _) (fun plaintext => raisesPy_raised _)
  · exact raisesPy_py _ _

theorem raisesPy_reply (rt : Runtime) (output : Json) (handler : Handler) :
    RaisesPy (handler.reply rt output) := by
  cases handler with
  | kemHandler name payload kk encKey => exact raisesPy_kemReply rt name kk encKey output
  | simpleKey name payload =>
      show RaisesPy (simpleReply name output)
      unfold simpleReply
      split
      · exact raisesPy_ok _
      · split
        · exact raisesPy_py _ _
        · split_ifs
          · exact raisesPy_ok _
          · exact raisesPy_ok _

end Messages
