import Custodia.Messages

/-! # KemClient — the two clients that speak `kem`

    `KEMClient` works on tokens alone; `CustodiaKEMClient` wraps and unwraps the
    messages it sends. Both build their tokens with the functions the server
    uses, and decode replies with `decode_enc_kem`. -/

namespace KemClient

open PosixPath PyValues Messages

/-- What the clients take from `jwcrypto`: `JWT(jwt=token, key=key)` opens a
    token and checks the claims it knows, against the clock. -/
structure JwtReader where
  /-- `JWT(jwt=message, key=key, expected_type="JWE").claims`. -/
  openJwe : Json → Jwk → Except Fault Str
  /-- `JWT(jwt=token, key=key, expected_type="JWS")`, and `json_decode` of its
      claims, at a time in whole seconds. -/
  openJws : Str → Jwk → Int → Except Fault Json

variable (rt : Runtime) (reader : JwtReader)

/-- `decode_enc_kem`. -/
def decodeEncKem (message : Json) (encKey sigKey : Jwk) : Except Exc Json := do
  let jwe ← raised (reader.openJwe message encKey)
  raised (reader.openJws jwe sigKey rt.now)

/-- `claims['value']`, and `message['value']`. -/
def requireValue (claims : Json) : Except Exc Json :=
  match claims with
  | .obj fields =>
      match Json.lookup fields "value" with
      | some value => .ok value
      | none => .error (.py .other "'value'")
  | _ => .error (.py .typeError "string indices must be integers")

/-! ## `KEMClient` -/

/-- `KEMClient`: the keys of the server and of the client, each time the one for
    signing first and the one for encrypting second. -/
structure KEMClient where
  serverKeys : Jwk × Jwk
  clientKeys : Jwk × Jwk

namespace KEMClient

/-- `make_request`. -/
def makeRequest (client : KEMClient) (name : Str) (value : Json) (alg : Str)
    (encalg : Option (Str × Str)) : Except Exc Str :=
  match encalg with
  | none => makeSigKem rt name value client.clientKeys.1 alg
  | some encalg =>
      makeEncKem rt name value client.clientKeys.1 alg client.serverKeys.2 encalg

/-- `parse_reply`. -/
def parseReply (client : KEMClient) (name : Str) (message : Json) : Except Exc Json := do
  let claims ← decodeEncKem rt reader message client.clientKeys.2 client.serverKeys.1
  checkKemClaims rt claims name
  requireValue claims

end KEMClient

/-! ## `CustodiaKEMClient` -/

/-- `CustodiaKEMClient`, as far as its tokens go: the four keys and the two
    algorithms, all of which may be missing; what is sent with the tokens is
    left out. -/
structure CustodiaKEMClient where
  cliSigningKey : Option Jwk
  cliDecryptionKey : Option Jwk
  srvVerifyingKey : Option Jwk
  srvEncryptionKey : Option Jwk
  sigAlg : Option Str
  encAlg : Option (Str × Str)

namespace CustodiaKEMClient

/-- `_signing_algorithm`. -/
def signingAlgorithm (client : CustodiaKEMClient) (key : Jwk) : Except Exc Str :=
  match client.sigAlg with
  | some alg => .ok alg
  | none =>
      if key.keyType = "RSA" then .ok "RS256"
      else if key.keyType = "EC" then .ok "ES256"
      else .error (.py .valueError "Unsupported key type")

/-- `_encryption_algorithm`. -/
def encryptionAlgorithm (client : CustodiaKEMClient) (key : Jwk) : Except Exc (Str × Str) :=
  match client.encAlg with
  | some alg => .ok alg
  | none =>
      if key.keyType = "RSA" then .ok ("RSA-OAEP", "A256CBC-HS512")
      else if key.keyType = "EC" then .ok ("ECDH-ES+A256KW", "A256CBC-HS512")
      else .error (.py .valueError "Unsupported key type")

/-- `_kem_wrap`. -/
def kemWrap (client : CustodiaKEMClient) (name : Str) (value : Json) : Except Exc Str :=
  match client.cliSigningKey, client.srvEncryptionKey with
  | none, _ => .error (.py .other "'Client Signing key is not available'")
  | some _, none => .error (.py .other "'Server Encryption key is not available'")
  | some signing, some encryption => do
      let sigAlg ← client.signingAlgorithm signing
      let encAlg ← client.encryptionAlgorithm encryption
      makeEncKem rt name value signing sigAlg encryption encAlg

/-- `_kem_unwrap`. -/
def kemUnwrap (client : CustodiaKEMClient) (name : Str) (message : Json) : Except Exc Json :=
  match message with
  | .obj fields =>
      let type := (Json.lookup fields "type").getD .null
      if type.isText "kem" = false then
        .error (.py .typeError
          (("Invalid token type, expected 'kem', got " : Str) ++ fmt rt type))
      else
        match client.cliDecryptionKey, client.srvVerifyingKey with
        | none, _ => .error (.py .other "'Client Decryption key is not available'")
        | some _, none => .error (.py .other "'Server Verifying key is not available'")
        | some decryption, some verifying => do
            let token ← requireValue message
            let claims ← decodeEncKem rt reader token decryption verifying
            checkKemClaims rt claims name
            return claims
  | message =>
      .error (.py .other
        (("'" : Str) ++ message.typeName ++ ("' object has no attribute 'get'" : Str)))

end CustodiaKEMClient

end KemClient
