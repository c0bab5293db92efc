import Custodia.JsonCodes
import Custodia.KemClient
import Custodia.KemProofs

/-! # KemRoundTrip — client and server understand each other

    A client and a server with RSA keys exchange one `kem` message and its
    reply, each by its own clock. A token lives for five minutes on either
    side of its making, and carries what was put into it.

    * `SignaturePair`, `EncryptionPair`: two keys that belong together;
    * `Parties`, `Ready`: who holds which of the eight keys;
    * `accepted_in_time`: when the server accepts a request;
    * `kem_round_trip`: request and reply. -/

namespace KemRoundTrip

open PosixPath PyValues Messages KemProofs KemClient

/-! ## Keys that belong together -/

/-- The signature algorithms of RSA keys. -/
def rsaSignatures : List Str := ["RS256", "RS384", "RS512", "PS256", "PS384", "PS512"]

/-- The key wrappings of RSA keys and the content encryptions. -/
def rsaEncryptions : List (Str × Str) :=
  (["RSA-OAEP", "RSA-OAEP-256"] : List String).flatMap (fun alg =>
    (["A128CBC-HS256", "A192CBC-HS384", "A256CBC-HS512", "A128GCM", "A192GCM", "A256GCM"]
      : List String).map (fun enc => (alg.toList, enc.toList)))

/-- What the program encrypts with by default is one of them. -/
theorem defaultEncryption_mem : ("RSA-OAEP".toList, "A256CBC-HS512".toList) ∈ rsaEncryptions := by
  decide

/-- The header of a signed token. -/
def signedHeader (kid : Json) (alg : Str) : List (PyStr × Json) :=
  [(.text "kid", kid), (.text "alg", .ofText alg)]

/-- The header of an encrypted token. -/
def encryptedHeader (kid : Json) (enc : Str × Str) : List (PyStr × Json) :=
  [(.text "kid", kid), (.text "alg", .ofText enc.1), (.text "enc", .ofText enc.2)]

/-- The claims of a token. -/
def kemClaims (name : Str) (exp : Int) (value : Json) : List (PyStr × Json) :=
  [(.text "sub", .ofText name), (.text "exp", .int exp)] ++
    (match value with
      | .null => []
      | value => [(.text "value", value)])

/-- What one RSA key signs, the other verifies, for every algorithm of such
    keys: the library gives back the claims that were signed, on the side of the
    client unless they have expired. The claims carry values that JSON can
    carry. -/
structure SignaturePair (jose : Jose) (reader : JwtReader) (signing verifying : Jwk) : Prop where
  kind : signing.keyType = "RSA".toList
  signs : ∀ alg name exp (value : JsonValue), alg ∈ rsaSignatures → ∃ token,
    jose.sign (.obj (signedHeader signing.keyId alg)) (.obj (kemClaims name exp value)) signing
      = .ok token
  verifies : ∀ alg name exp (value : JsonValue) token, alg ∈ rsaSignatures →
    jose.sign (.obj (signedHeader signing.keyId alg)) (.obj (kemClaims name exp value)) signing
      = .ok token →
    ∃ data, jose.parseToken (.ofText token) = .ok (.jws (signedHeader signing.keyId alg) data)
      ∧ jose.verify data verifying = .ok (.obj (kemClaims name exp value))
  opens : ∀ alg name exp (value : JsonValue) token now, alg ∈ rsaSignatures →
    jose.sign (.obj (signedHeader signing.keyId alg)) (.obj (kemClaims name exp value)) signing
      = .ok token →
    now ≤ exp → reader.openJws token verifying now = .ok (.obj (kemClaims name exp value))
  returns : ∀ alg name exp (value : JsonValue) token now claims, alg ∈ rsaSignatures →
    jose.sign (.obj (signedHeader signing.keyId alg)) (.obj (kemClaims name exp value)) signing
      = .ok token →
    reader.openJws token verifying now = .ok claims → claims = .obj (kemClaims name exp value)

/-- What is encrypted to one RSA key, the other decrypts, for every algorithm of
    such keys, whether the library reads the plaintext as a signed token, as the
    server does, or gives it back. -/
structure EncryptionPair (jose : Jose) (reader : JwtReader) (encrypting decrypting : Jwk) :
    Prop where
  kind : encrypting.keyType = "RSA".toList
  encrypts : ∀ enc plaintext, enc ∈ rsaEncryptions → ∃ token,
    jose.encrypt plaintext (.obj (encryptedHeader encrypting.keyId enc)) encrypting = .ok token
  decrypts : ∀ enc plaintext token, enc ∈ rsaEncryptions →
    jose.encrypt plaintext (.obj (encryptedHeader encrypting.keyId enc)) encrypting
      = .ok token →
    ∃ data, jose.parseToken (.ofText token) = .ok (.jwe data) ∧
      ∀ header inner, jose.parseToken (.ofText plaintext) = .ok (.jws header inner) →
        jose.decrypt data decrypting = .ok (header, inner)
  opens : ∀ enc plaintext token, enc ∈ rsaEncryptions →
    jose.encrypt plaintext (.obj (encryptedHeader encrypting.keyId enc)) encrypting
      = .ok token →
    reader.openJwe (.ofText token) decrypting = .ok plaintext

/-! ## The parties -/

/-- The eight keys of a client and a server, each pair for one purpose, and the
    identifiers under which the server finds those it needs. -/
structure Parties where
  clientKid : Str
  serverKid : Str
  clientSign : Jwk
  clientVerify : Jwk
  clientEncrypt : Jwk
  clientDecrypt : Jwk
  serverSign : Jwk
  serverVerify : Jwk
  serverEncrypt : Jwk
  serverDecrypt : Jwk

/-- The keys are registered under the identifier for both usages: the store of
    keys has their texts where `find_key` looks, and the library reads them. -/
structure Registered (jose : Jose) (kk : KEMKeysStore) (kid : Str) (sig enc : Jwk) : Prop where
  sig : ∃ text, kk.storeGet (("kemkeys/sig/" : Str) ++ kid) = .ok (some text)
    ∧ jose.jwk text = .ok sig
  enc : ∃ text, kk.storeGet (("kemkeys/enc/" : Str) ++ kid) = .ok (some text)
    ∧ jose.jwk text = .ok enc

/-- The parties can talk: their keys belong together, those the server needs are
    registered under the identifiers in the tokens, and the configured algorithm
    is one of RSA keys. -/
structure Parties.Ready (p : Parties) (jose : Jose) (reader : JwtReader) (kk : KEMKeysStore) :
    Prop where
  clientSigns : SignaturePair jose reader p.clientSign p.clientVerify
  clientReads : EncryptionPair jose reader p.clientEncrypt p.clientDecrypt
  serverSigns : SignaturePair jose reader p.serverSign p.serverVerify
  serverReads : EncryptionPair jose reader p.serverEncrypt p.serverDecrypt
  named : p.clientSign.keyId = .ofText p.clientKid
  client : Registered jose kk p.clientKid p.clientVerify p.clientEncrypt
  server : Registered jose kk p.serverKid p.serverSign p.serverDecrypt
  serverKeys : kk.serverKeys = some p.serverKid
  algorithm : ∀ alg, kk.signingAlgorithm = some alg → alg ∈ rsaSignatures

/-- The first client. -/
def Parties.kemClient (p : Parties) : KEMClient :=
  ⟨(p.serverVerify, p.serverEncrypt), (p.clientSign, p.clientDecrypt)⟩

/-- The second client, with the algorithms it is told to use. -/
def Parties.custodiaClient (p : Parties) (sigAlg : Option Str) (encAlg : Option (Str × Str)) :
    CustodiaKEMClient :=
  ⟨some p.clientSign, some p.clientDecrypt, some p.serverVerify, some p.serverEncrypt, sigAlg,
    encAlg⟩

/-- The runtime at another time. -/
def atTime (rt : Runtime) (now : Int) : Runtime := { rt with now := now }

/-- The clocks differ by five minutes at most. -/
def ClocksAgree (a b : Int) : Prop := |a - b| ≤ 300

/-- The call succeeds exactly under the condition, and then with a good result.
    Both directions are stated, so that a call which never returns a result is
    not called right. -/
structure SucceedsWhen {α : Type} (condition : Prop) (good : α → Prop) (x : Except Exc α) :
    Prop where
  iff : (∃ a, x = .ok a) ↔ condition
  result : ∀ a, x = .ok a → good a

/-- What follows a check succeeds under the condition of the check. -/
theorem succeedsWhen_checked {α : Type} {condition : Prop} {check : Except Exc Unit}
    {rest : Except Exc α} {a : α} (hcheck : check = .ok () ↔ condition) (hrest : rest = .ok a) :
    SucceedsWhen condition (fun x => x = a) (check >>= fun _ => rest) := by
  subst hrest
  cases check with
  | ok u => exact ⟨iff_of_true ⟨a, rfl⟩ (hcheck.mp rfl), fun x hok => (Except.ok.inj hok).symm⟩
  | error e =>
      refine ⟨iff_of_false ?_ (fun hc => nomatch hcheck.mpr hc), fun x hok => nomatch hok⟩
      rintro ⟨x, hok⟩
      exact nomatch hok

/-! ## The claims -/

section Claims

variable {value : Json}

/-- What a signed token is made of: the header with the identifier of the key,
    and the claims, valid for five minutes. -/
theorem makeSigKem_eq (rt : Runtime) (name : Str) (value : Json) (key : Jwk) (alg : Str) :
    makeSigKem rt name value key alg
      = raised (rt.jose.sign (.obj (signedHeader key.keyId alg))
          (.obj (kemClaims name (rt.now + 300) value)) key) := by
  cases value <;> rfl

/-- The claims hold the value that was sent, and nothing where nothing was sent. -/
theorem lookup_value (exp : Int) : claimValue (.obj (kemClaims name exp value)) = value := by
  cases value <;> rfl

/-- A value that is there is found by a client that requires one. -/
theorem requireValue_claims (exp : Int) (hvalue : value ≠ .null) :
    requireValue (.obj (kemClaims name exp value)) = .ok value := by
  cases value with
  | null => exact absurd rfl hvalue
  | bool b => rfl
  | int n => rfl
  | float x => rfl
  | str s => rfl
  | arr items => rfl
  | obj fields => rfl

/-- The clock conditions of making and of checking meet in the middle. -/
theorem clocksAgree_iff (a b : Int) :
    ClocksAgree a b ↔ (b : ℚ) ≤ ((a + 300 : Int) : ℚ) ∧ ((a + 300 : Int) : ℚ) ≤ b + 600 := by
  have hsum : (b : ℚ) + 600 = ((b + 600 : Int) : ℚ) := by push_cast; rfl
  rw [ClocksAgree, abs_le, hsum, Int.cast_le, Int.cast_le]
  omega

/-- **The claims of a token pass the checks** for its name, while the clocks
    agree. -/
theorem checkKemClaims_claims (rt : Runtime) (name : Str) (value : Json) (made : Int) :
    checkKemClaims rt (.obj (kemClaims name (made + 300) value)) name = .ok ()
      ↔ ClocksAgree made rt.now := by
  rw [checkKemClaims_ok, clocksAgree_iff]
  have hsub : Json.lookup (kemClaims name (made + 300) value) "sub" = some (.ofText name) := rfl
  have hexp : Json.lookup (kemClaims name (made + 300) value) "exp" = some (.int (made + 300)) :=
    rfl
  constructor
  · rintro ⟨fields, exp, x, hfields, -, hexp', hnumber, hlive⟩
    obtain rfl := Json.obj.inj hfields
    obtain rfl := Option.some.inj (hexp.symm.trans hexp')
    obtain rfl := Option.some.inj hnumber
    exact (unexpired_int _).mp hlive
  · intro hwindow
    exact ⟨_, _, _, rfl, hsub, hexp, rfl, (unexpired_int _).mpr hwindow⟩

end Claims

/-! ## The request -/

variable {rt : Runtime} {reader : JwtReader} {kk : KEMKeysStore} {p : Parties} {name : Str}
  {value : JsonValue}

/-- A library call that succeeds raises nothing. -/
theorem raised_of_ok {α : Type} {r : Except Fault α} {a : α} (h : r = .ok a) :
    raised r = .ok a := by
  rw [h]
  rfl

/-- A key that is stored is found. -/
theorem findKey_of_stored {kid text : Str} {usage : KeyUsage}
    (h : kk.storeGet (("kemkeys/" : Str) ++ usage.name ++ slash :: kid) = .ok (some text)) :
    kk.findKey kid usage = .ok text := by
  rw [← dbKey_usage] at h
  show raised (kk.storeGet (KEMKeysStore.dbKey (usage.name ++ slash :: kid))) >>= _ = _
  rw [raised_of_ok h]
  rfl

/-- The header of a token finds the signature key of its signer. -/
theorem getKey_sig {kid : Str} {sig enc : Jwk} (h : Registered rt.jose kk kid sig enc)
    (alg : Str) : getKey rt kk (signedHeader (.ofText kid) alg) .sig = .ok sig := by
  obtain ⟨text, hstored, hkey⟩ := h.sig
  show (kk.findKey kid .sig >>= fun key => raised (rt.jose.jwk key)) = _
  rw [findKey_of_stored hstored]
  exact raised_of_ok hkey

/-- The header of a token finds the encryption key of its signer. -/
theorem getKey_enc {kid : Str} {sig enc : Jwk} (h : Registered rt.jose kk kid sig enc)
    (alg : Str) : getKey rt kk (signedHeader (.ofText kid) alg) .enc = .ok enc := by
  obtain ⟨text, hstored, hkey⟩ := h.enc
  show (kk.findKey kid .enc >>= fun key => raised (rt.jose.jwk key)) = _
  rw [findKey_of_stored hstored]
  exact raised_of_ok hkey

/-- The server finds its own two keys. -/
theorem serverKeyPair_of_registered {kid : Str} {sig enc : Jwk} (hkid : kk.serverKeys = some kid)
    (h : Registered rt.jose kk kid sig enc) : kk.serverKeyPair rt = .ok (sig, enc) := by
  obtain ⟨sigText, hsig, hsigKey⟩ := h.sig
  obtain ⟨encText, henc, hencKey⟩ := h.enc
  rw [KEMKeysStore.serverKeyPair]
  simp only [hkid]
  rw [findKey_of_stored hsig]
  show (kk.findKey kid .enc >>= _) = _
  rw [findKey_of_stored henc]
  show (raised (rt.jose.jwk sigText) >>= _) = _
  rw [raised_of_ok hsigKey]
  show (raised (rt.jose.jwk encText) >>= _) = _
  rw [raised_of_ok hencKey]
  rfl

/-- A token that one of the two clients has built for the name and the value:
    signed only, signed and encrypted, or wrapped with the algorithms that its
    options or its keys name. -/
inductive Built (rt : Runtime) (p : Parties) (name : Str) (value : Json) (token : Str) : Prop where
  | signed (alg : Str) (halg : alg ∈ rsaSignatures)
      (h : p.kemClient.makeRequest rt name value alg none = .ok token)
  | encrypted (alg : Str) (enc : Str × Str) (halg : alg ∈ rsaSignatures)
      (henc : enc ∈ rsaEncryptions)
      (h : p.kemClient.makeRequest rt name value alg (some enc) = .ok token)
  | wrapped (sigAlg : Option Str) (encAlg : Option (Str × Str))
      (halg : ∀ alg, sigAlg = some alg → alg ∈ rsaSignatures)
      (henc : ∀ enc, encAlg = some enc → enc ∈ rsaEncryptions)
      (h : (p.custodiaClient sigAlg encAlg).kemWrap rt name value = .ok token)

/-- The server finds the claims and the key of the client. -/
def Validates (rt : Runtime) (kk : KEMKeysStore) (p : Parties) (claims : Json) (token : Str) :
    Prop :=
  ∃ t, rt.jose.parseToken (.ofText token) = .ok t
    ∧ validate rt kk t = .ok (claims, p.clientEncrypt)

/-- A signed token is validated with its claims, and with the key to answer it. -/
theorem validates_signed (rt : Runtime) (h : p.Ready rt.jose reader kk) {alg : Str}
    (halg : alg ∈ rsaSignatures) {exp : Int} {token : Str}
    (hsign : rt.jose.sign (.obj (signedHeader p.clientSign.keyId alg))
      (.obj (kemClaims name exp value)) p.clientSign = .ok token) :
    Validates rt kk p (.obj (kemClaims name exp value)) token := by
  obtain ⟨data, hparse, hverify⟩ := h.clientSigns.verifies _ _ _ _ _ halg hsign
  refine ⟨_, hparse, ?_⟩
  -- the identifier in the header finds both keys of the client
  show (getKey rt kk (signedHeader p.clientSign.keyId alg) .sig >>= _) = _
  rw [h.named, getKey_sig h.client]
  show (getKey rt kk (signedHeader (.ofText p.clientKid) alg) .enc >>= _) = _
  rw [getKey_enc h.client]
  show (raised (rt.jose.verify data p.clientVerify) >>= _) = _
  rw [raised_of_ok hverify]
  rfl

/-- An encrypted token is opened with the key of the server, and then validated
    like a signed one. -/
theorem validates_encrypted (rt : Runtime) (h : p.Ready rt.jose reader kk) {alg : Str}
    (halg : alg ∈ rsaSignatures) {enc : Str × Str} (henc : enc ∈ rsaEncryptions) {exp : Int}
    {plaintext token : Str}
    (hsign : rt.jose.sign (.obj (signedHeader p.clientSign.keyId alg))
      (.obj (kemClaims name exp value)) p.clientSign = .ok plaintext)
    (hencrypt : rt.jose.encrypt plaintext (.obj (encryptedHeader p.serverEncrypt.keyId enc))
      p.serverEncrypt = .ok token) :
    Validates rt kk p (.obj (kemClaims name exp value)) token := by
  obtain ⟨data, hparse, hverify⟩ := h.clientSigns.verifies _ _ _ _ _ halg hsign
  obtain ⟨outer, hparse', hdecrypt⟩ := h.serverReads.decrypts _ _ _ henc hencrypt
  refine ⟨_, hparse', ?_⟩
  -- the outer token is opened with the server's own key
  show (kk.serverKeyPair rt >>= _) = _
  rw [serverKeyPair_of_registered h.serverKeys h.server]
  show (raised (rt.jose.decrypt outer p.serverDecrypt) >>= _) = _
  rw [raised_of_ok (hdecrypt _ _ hparse)]
  -- from here on, as if the inner token had come alone
  show (getKey rt kk (signedHeader p.clientSign.keyId alg) .sig >>= _) = _
  rw [h.named, getKey_sig h.client]
  show (getKey rt kk (signedHeader (.ofText p.clientKid) alg) .enc >>= _) = _
  rw [getKey_enc h.client]
  show (raised (rt.jose.verify data p.clientVerify) >>= _) = _
  rw [raised_of_ok hverify]
  rfl

/-- The parts of an encrypted token. -/
theorem makeEncKem_ok {sigKey encKey : Jwk} {alg token : Str} {enc : Str × Str}
    (h : makeEncKem rt name value sigKey alg encKey enc = .ok token) :
    ∃ plaintext,
      rt.jose.sign (.obj (signedHeader sigKey.keyId alg))
        (.obj (kemClaims name (rt.now + 300) value)) sigKey = .ok plaintext
      ∧ rt.jose.encrypt plaintext (.obj (encryptedHeader encKey.keyId enc)) encKey
        = .ok token := by
  obtain ⟨plaintext, hsign, hencrypt⟩ := bind_ok h
  rw [makeSigKem_eq] at hsign
  exact ⟨plaintext, raised_ok hsign, raised_ok hencrypt⟩

/-- With keys that belong together, every value can be signed and encrypted. -/
theorem makeEncKem_of (name : Str) (value : JsonValue) {sigKey verifying encKey decrypting : Jwk}
    (hsig : SignaturePair rt.jose reader sigKey verifying)
    (hpair : EncryptionPair rt.jose reader encKey decrypting) {alg : Str}
    (halg : alg ∈ rsaSignatures) {enc : Str × Str} (henc : enc ∈ rsaEncryptions) :
    ∃ token, makeEncKem rt name value sigKey alg encKey enc = .ok token := by
  obtain ⟨plaintext, hsign⟩ := hsig.signs alg name (rt.now + 300) value halg
  obtain ⟨token, hencrypt⟩ := hpair.encrypts enc plaintext henc
  refine ⟨token, ?_⟩
  show (makeSigKem rt name value sigKey alg >>= _) = _
  rw [makeSigKem_eq, raised_of_ok hsign]
  exact raised_of_ok hencrypt

/-- The algorithms that the second client picks suit its keys. -/
theorem kemWrap_ok (rt' : Runtime) (name : Str) (value : Json) (h : p.Ready rt.jose reader kk)
    {sigAlg : Option Str} {encAlg : Option (Str × Str)}
    (halg : ∀ alg, sigAlg = some alg → alg ∈ rsaSignatures)
    (henc : ∀ enc, encAlg = some enc → enc ∈ rsaEncryptions) :
    ∃ alg ∈ rsaSignatures, ∃ enc ∈ rsaEncryptions,
      (p.custodiaClient sigAlg encAlg).kemWrap rt' name value
        = makeEncKem rt' name value p.clientSign alg p.serverEncrypt enc := by
  obtain ⟨alg, hmem, hsig⟩ : ∃ alg ∈ rsaSignatures,
      (p.custodiaClient sigAlg encAlg).signingAlgorithm p.clientSign = .ok alg := by
    cases sigAlg with
    | some alg => exact ⟨alg, halg alg rfl, rfl⟩
    -- the default depends on the kind of the key
    | none => exact ⟨"RS256".toList, List.mem_cons_self, if_pos h.clientSigns.kind⟩
  obtain ⟨enc, hmem', henc⟩ : ∃ enc ∈ rsaEncryptions,
      (p.custodiaClient sigAlg encAlg).encryptionAlgorithm p.serverEncrypt = .ok enc := by
    cases encAlg with
    | some enc => exact ⟨enc, henc enc rfl, rfl⟩
    | none =>
        exact ⟨_, defaultEncryption_mem, if_pos h.serverReads.kind⟩
  refine ⟨alg, hmem, enc, hmem', ?_⟩
  show ((p.custodiaClient sigAlg encAlg).signingAlgorithm p.clientSign >>= _) = _
  rw [hsig]
  show ((p.custodiaClient sigAlg encAlg).encryptionAlgorithm p.serverEncrypt >>= _) = _
  rw [henc]
  rfl

/-- **Every request can be built**, whether it is signed only, or encrypted as
    well, or wrapped by `_kem_wrap` with the algorithms that belong to the keys. -/
theorem built_of_ready (rt : Runtime) (name : Str) (value : JsonValue)
    (h : p.Ready rt.jose reader kk) :
    (∀ alg ∈ rsaSignatures,
      ∃ token, p.kemClient.makeRequest rt name value alg none = .ok token)
    ∧ (∀ alg ∈ rsaSignatures, ∀ enc ∈ rsaEncryptions,
      ∃ token, p.kemClient.makeRequest rt name value alg (some enc) = .ok token)
    ∧ ∃ token, (p.custodiaClient none none).kemWrap rt name value = .ok token := by
  refine ⟨?_, ?_, ?_⟩
  · intro alg halg
    obtain ⟨token, hsign⟩ := h.clientSigns.signs alg name (rt.now + 300) value halg
    refine ⟨token, ?_⟩
    show makeSigKem rt name value p.clientSign alg = _
    rw [makeSigKem_eq, raised_of_ok hsign]
  · intro alg halg enc henc
    exact makeEncKem_of name value h.clientSigns h.serverReads halg henc
  · obtain ⟨alg, halg, enc, henc, hwrap⟩ := kemWrap_ok rt name value h
      (fun alg (hnone : none = some alg) => nomatch hnone)
      (fun enc (hnone : none = some enc) => nomatch hnone)
    rw [hwrap]
    exact makeEncKem_of name value h.clientSigns h.serverReads halg henc

/-- **Whatever is built is validated**, with the claims that were put in. -/
theorem validates_of_built {made : Int} (now : Int) (h : p.Ready rt.jose reader kk) {token : Str}
    (hbuilt : Built (atTime rt made) p name value token) :
    Validates (atTime rt now) kk p (.obj (kemClaims name (made + 300) value)) token := by
  cases hbuilt with
  | signed alg halg hmake =>
      have hsign : raised (rt.jose.sign _ _ p.clientSign) = .ok token :=
        (makeSigKem_eq (atTime rt made) name value p.clientSign alg).symm.trans hmake
      exact validates_signed (atTime rt now) h halg (raised_ok hsign)
  | encrypted alg enc halg henc hmake =>
      obtain ⟨plaintext, hsign, hencrypt⟩ := makeEncKem_ok hmake
      exact validates_encrypted (atTime rt now) h halg henc hsign hencrypt
  | wrapped sigAlg encAlg halg henc hwrap =>
      obtain ⟨alg, hmem, enc, hmem', heq⟩ :=
        kemWrap_ok (atTime rt made) name value h halg henc
      obtain ⟨plaintext, hsign, hencrypt⟩ := makeEncKem_ok (heq.symm.trans hwrap)
      exact validates_encrypted (atTime rt now) h hmem hmem' hsign hencrypt

/-- **The server accepts a request while the clocks agree**, and finds the
    value that was sent. -/
theorem accepted_in_time {made : Int} (now : Int) (h : p.Ready rt.jose reader kk) {token : Str}
    (hbuilt : Built (atTime rt made) p name value token) :
    SucceedsWhen (ClocksAgree made now)
      (fun handler => handler = .kemHandler name value kk p.clientEncrypt)
      (kemParse (atTime rt now) (some kk) (.ofText token) name) := by
  obtain ⟨t, hparse, hvalid⟩ := validates_of_built now h hbuilt
  have hbind {check : Except Exc Unit} {handler : Handler} :
      check.map (fun _ => handler) = check >>= fun _ => .ok handler := by
    cases check <;> rfl
  rw [kemParse_of name hparse hvalid, lookup_value, hbind]
  exact succeedsWhen_checked (checkKemClaims_claims (atTime rt now) name value made) rfl

/-! ## The reply -/

/-- What a client makes of a reply that it can decrypt. -/
theorem decoded_in_time {α : Type} {made : Int} (now : Int) (h : p.Ready rt.jose reader kk)
    {alg : Str} (halg : alg ∈ rsaSignatures) {token : Str}
    (hmake : makeEncKem (atTime rt made) name value p.serverSign alg p.clientEncrypt
      ("RSA-OAEP".toList, "A256CBC-HS512".toList) = .ok token)
    (finish : Json → Except Exc α) {a : α}
    (hfinish : finish (.obj (kemClaims name (made + 300) value)) = .ok a) :
    SucceedsWhen (ClocksAgree made now) (fun x => x = a) (do
      let claims ← decodeEncKem (atTime rt now) reader (.ofText token) p.clientDecrypt
        p.serverVerify
      checkKemClaims (atTime rt now) claims name
      finish claims) := by
  obtain ⟨plaintext, hsign, hencrypt⟩ : ∃ plaintext,
      rt.jose.sign (.obj (signedHeader p.serverSign.keyId alg))
        (.obj (kemClaims name (made + 300) value)) p.serverSign = .ok plaintext ∧ _ :=
    makeEncKem_ok hmake
  -- the outer token has no claims, so no clock is asked
  have hopen := h.clientReads.opens _ _ _ defaultEncryption_mem hencrypt
  have hdecode : decodeEncKem (atTime rt now) reader (.ofText token) p.clientDecrypt p.serverVerify
      = raised (reader.openJws plaintext p.serverVerify now) := by
    show (raised (reader.openJwe (.ofText token) p.clientDecrypt) >>= _) = _
    rw [raised_of_ok hopen]
    rfl
  rw [hdecode]
  cases hjws : reader.openJws plaintext p.serverVerify now with
  | error f =>
      -- the library refuses only what has expired
      refine ⟨iff_of_false (fun hok => ?_) (fun hagree => ?_), fun x hok => nomatch hok⟩
      · obtain ⟨x, hok⟩ := hok
        exact nomatch hok
      · have hlive : now ≤ made + 300 := by
          rw [ClocksAgree, abs_le] at hagree
          omega
        exact nomatch hjws.symm.trans (h.serverSigns.opens _ _ _ _ _ _ halg hsign hlive)
  | ok claims =>
      obtain rfl := h.serverSigns.returns _ _ _ _ _ _ _ halg hsign hjws
      exact succeedsWhen_checked (checkKemClaims_claims (atTime rt now) name value made) hfinish

/-- The server signs its replies with an algorithm of its key. -/
theorem alg_of_ready (h : p.Ready rt.jose reader kk) :
    ∃ alg ∈ rsaSignatures, kk.alg rt = .ok alg := by
  rw [KEMKeysStore.alg]
  cases halg : kk.signingAlgorithm with
  | some alg => exact ⟨alg, h.algorithm alg halg, rfl⟩
  | none =>
      refine ⟨"RS256".toList, List.mem_cons_self, ?_⟩
      show (kk.serverKeyPair rt >>= _) = _
      rw [serverKeyPair_of_registered h.serverKeys h.server]
      exact if_pos h.serverSigns.kind

/-- **The reply is sent**: a token of the server's for the client, signed and
    encrypted with the keys that the server has found. -/
theorem reply_of_ready (h : p.Ready rt.jose reader kk) (output : JsonValue) :
    ∃ alg ∈ rsaSignatures, ∃ token,
      makeEncKem rt name output p.serverSign alg p.clientEncrypt
        ("RSA-OAEP".toList, "A256CBC-HS512".toList) = .ok token
      ∧ (Handler.kemHandler name value kk p.clientEncrypt).reply rt output
        = .ok (.obj [(.text "type", .ofText "kem"), (.text "value", .ofText token)]) := by
  obtain ⟨alg, hmem, halg⟩ := alg_of_ready h
  obtain ⟨token, hmake⟩ :=
    makeEncKem_of name output h.serverSigns h.clientReads hmem defaultEncryption_mem
  refine ⟨alg, hmem, token, hmake, ?_⟩
  show kemReply rt name kk p.clientEncrypt output = _
  rw [kemReply]
  rw [if_pos h.clientReads.kind, serverKeyPair_of_registered h.serverKeys h.server]
  show (kk.alg rt >>= _) = _
  rw [halg]
  show (makeEncKem rt name output p.serverSign alg p.clientEncrypt _ >>= _) = _
  rw [hmake]
  rfl

/-- The message of a reply. -/
def kemMessage (token : Str) : Json :=
  .obj [(.text "type", .ofText "kem"), (.text "value", .ofText token)]

/-- The reply to a request carries an output to both clients: it is sent, and
    read while the clocks of replying and of reading agree. -/
def ReplyCarries (rt : Runtime) (reader : JwtReader) (p : Parties) (name : Str)
    (handler : Handler) (output : Json) (replied read : Int) : Prop :=
  ∃ token, handler.reply (atTime rt replied) output = .ok (kemMessage token)
    ∧ SucceedsWhen (ClocksAgree replied read) (fun value => value = output)
        (p.kemClient.parseReply (atTime rt read) reader name (.ofText token))
    ∧ ∀ sigAlg encAlg, SucceedsWhen (ClocksAgree replied read)
        (fun claims => requireValue claims = .ok output)
        ((p.custodiaClient sigAlg encAlg).kemUnwrap (atTime rt read) reader name
          (kemMessage token))

/-- **A reply carries its output to either client**, while the clocks of
    replying and of reading agree. -/
theorem replyCarries_of_ready (h : p.Ready rt.jose reader kk) {output : JsonValue}
    (houtput : output.val ≠ .null) (replied read : Int) :
    ReplyCarries rt reader p name (.kemHandler name value kk p.clientEncrypt) output replied
      read := by
  obtain ⟨alg, hmem, token, hmake, hreply⟩ :
      ∃ alg ∈ rsaSignatures, ∃ token, makeEncKem (atTime rt replied) name output p.serverSign alg
          p.clientEncrypt ("RSA-OAEP".toList, "A256CBC-HS512".toList) = .ok token
        ∧ (Handler.kemHandler name value kk p.clientEncrypt).reply (atTime rt replied) output
          = .ok (kemMessage token) :=
    reply_of_ready (show p.Ready (atTime rt replied).jose reader kk from h) output
  refine ⟨token, hreply, ?_, ?_⟩
  · exact decoded_in_time read h hmem hmake requireValue (requireValue_claims _ houtput)
  · intro sigAlg encAlg
    have hunwrap : (p.custodiaClient sigAlg encAlg).kemUnwrap (atTime rt read) reader name
        (kemMessage token) = (do
          let claims ← decodeEncKem (atTime rt read) reader (.ofText token) p.clientDecrypt
            p.serverVerify
          checkKemClaims (atTime rt read) claims name
          .ok claims) := rfl
    have hdecoded := decoded_in_time read h hmem hmake Except.ok rfl
    rw [hunwrap]
    refine ⟨hdecoded.iff, fun claims hok => ?_⟩
    rw [hdecoded.result claims hok]
    exact requireValue_claims _ houtput

/-- What client and server can rely on, for one name and value, a request made
    at one time and read at another. -/
structure RoundTrips (rt : Runtime) (reader : JwtReader) (kk : KEMKeysStore) (p : Parties)
    (name : Str) (value : JsonValue) (made now : Int) : Prop where
  signed : ∀ alg ∈ rsaSignatures,
    ∃ token, p.kemClient.makeRequest (atTime rt made) name value alg none = .ok token
  encrypted : ∀ alg ∈ rsaSignatures, ∀ enc ∈ rsaEncryptions,
    ∃ token, p.kemClient.makeRequest (atTime rt made) name value alg (some enc) = .ok token
  wrapped : ∃ token, (p.custodiaClient none none).kemWrap (atTime rt made) name value = .ok token
  accepted : ∀ token, Built (atTime rt made) p name value token →
    SucceedsWhen (ClocksAgree made now)
      (fun handler => handler.payload = value.val ∧ ∀ output : JsonValue, output.val ≠ .null →
        ∀ replied read, ReplyCarries rt reader p name handler output replied read)
      (kemParse (atTime rt now) (some kk) (.ofText token) name)

/-- The key of a party: what is in it names the party. -/
def partyKey (party : Str) : Jwk := ⟨"RSA", .ofText party, .ofText party⟩

/-- The key belongs to the party that a token names. -/
def ownedBy (party : Json) (key : Jwk) : Bool :=
  decide (JsonCodes.encodeText party = JsonCodes.encodeText key.material)

/-- Every key belongs to the party that it names. -/
theorem ownedBy_self (key : Jwk) : ownedBy key.material key = true := decide_eq_true rfl

/-- What the library raises about a token that is none. -/
def refused : Fault := ⟨.other, "Invalid JOSE object"⟩

/-- The header, the claims and the signer of a signed token. -/
def openSigned (text : Str) : Except Fault (List (PyStr × Json) × Json × Json) :=
  match JsonCodes.decodeText text with
  | some (.arr [.obj header, claims, signer]) => .ok (header, claims, signer)
  | _ => .error refused

/-- The plaintext of an encrypted token and the party it is for. -/
def openEncrypted (text : Str) : Except Fault (Str × Json) :=
  match JsonCodes.decodeText text with
  | some (.arr [.str (.text plaintext), reader]) => .ok (plaintext, reader)
  | _ => .error refused

/-- A token is a signed one, or else an encrypted one. -/
def readToken (text : Str) : Except Fault Token :=
  match openSigned text with
  | .ok signed => .ok (.jws signed.1 text)
  | .error _ => (openEncrypted text).map (fun _ => .jwe text)

/-- The operations on such tokens. -/
def namingJose : Jose where
  parseToken
    | .str (.text text) => readToken text
    | _ => .error refused
  jwk text := .ok (partyKey text)
  decrypt data key := do
    let (plaintext, reader) ← openEncrypted data
    let (header, _) ← openSigned plaintext
    if ownedBy reader key = true then .ok (header, plaintext) else .error refused
  verify data key := do
    let (_, claims, signer) ← openSigned data
    if ownedBy signer key = true then .ok claims else .error refused
  sign header claims key := .ok (JsonCodes.encodeText (.arr [header, claims, key.material]))
  encrypt plaintext _ key := .ok (JsonCodes.encodeText (.arr [.ofText plaintext, key.material]))

/-- The claims, unless they have expired more than a minute ago. -/
def checkAge (claims : Json) (now : Int) : Except Fault Json :=
  match claims with
  | .obj fields =>
      match Json.lookup fields "exp" with
      | some (.int exp) => if exp < now - 60 then .error refused else .ok claims
      | _ => .error refused
  | _ => .error refused

/-- Reading the tokens. -/
def namingReader : JwtReader where
  openJwe
    | .str (.text text), key => do
        let (plaintext, reader) ← openEncrypted text
        if ownedBy reader key = true then .ok plaintext else .error refused
    | _, _ => .error refused
  openJws token key now := do
    let claims ← namingJose.verify token key
    checkAge claims now

/-- A signed token is opened to what it was made of. -/
theorem openSigned_encode (header : List (PyStr × Json)) (claims signer : Json) :
    openSigned (JsonCodes.encodeText (.arr [.obj header, claims, signer]))
      = .ok (header, claims, signer) := by
  rw [openSigned]
  rw [JsonCodes.decodeText_encodeText]

/-- An encrypted token is opened to what it was made of. -/
theorem openEncrypted_encode (plaintext : Str) (reader : Json) :
    openEncrypted (JsonCodes.encodeText (.arr [.ofText plaintext, reader]))
      = .ok (plaintext, reader) := by
  rw [openEncrypted]
  rw [JsonCodes.decodeText_encodeText]

/-- The signer of a token is the one whose key verifies it. -/
theorem verify_signed (header : List (PyStr × Json)) (claims : Json) (key : Jwk) :
    namingJose.verify (JsonCodes.encodeText (.arr [.obj header, claims, key.material])) key
      = .ok claims := by
  show (openSigned _ >>= _) = _
  rw [openSigned_encode]
  exact if_pos (ownedBy_self key)

/-- The claims of a token are refused once they have expired a minute ago. -/
theorem checkAge_claims (name : Str) (exp : Int) (value : Json) (now : Int) :
    checkAge (.obj (kemClaims name exp value)) now
      = if exp < now - 60 then .error refused else .ok (.obj (kemClaims name exp value)) := rfl

/-- What a signed token is read as, at any time. -/
theorem openJws_signed (header : List (PyStr × Json)) (name : Str) (exp : Int) (value : Json)
    (key : Jwk) (now : Int) :
    namingReader.openJws (JsonCodes.encodeText
        (.arr [.obj header, .obj (kemClaims name exp value), key.material])) key now
      = checkAge (.obj (kemClaims name exp value)) now := by
  show (namingJose.verify _ key >>= _) = _
  rw [verify_signed]
  rfl

/-- One key for both sides signs. -/
theorem signaturePair_self (party : Str) :
    SignaturePair namingJose namingReader (partyKey party) (partyKey party) where
  kind := rfl
  signs alg name exp value _ := ⟨_, rfl⟩
  verifies alg name exp value token _ hsign := by
    obtain rfl := Except.ok.inj hsign
    refine ⟨_, ?_, verify_signed (signedHeader (partyKey party).keyId alg) _ _⟩
    show readToken _ = _
    rw [readToken]
    rw [openSigned_encode]
  opens alg name exp value token now _ hsign hlive := by
    obtain rfl := Except.ok.inj hsign
    rw [openJws_signed, checkAge_claims]
    exact if_neg (by omega)
  returns alg name exp value token now claims _ hsign hopen := by
    obtain rfl := Except.ok.inj hsign
    rw [openJws_signed, checkAge_claims] at hopen
    split_ifs at hopen with hold
    exact (Except.ok.inj hopen).symm

/-- What a token is read as, where it is read as a signed one. -/
theorem openSigned_of_readToken {text inner : Str} {header : List (PyStr × Json)}
    (h : readToken text = .ok (.jws header inner)) :
    inner = text ∧ ∃ rest, openSigned text = .ok (header, rest) := by
  rw [readToken] at h
  cases hopen : openSigned text with
  | ok signed =>
      rw [hopen] at h
      obtain ⟨rfl, rfl⟩ := Token.jws.inj (Except.ok.inj h)
      exact ⟨rfl, signed.2, rfl⟩
  | error e =>
      rw [hopen] at h
      cases hread : openEncrypted text with
      | ok read => rw [hread] at h; exact nomatch h
      | error e => rw [hread] at h; exact nomatch h

/-- One key for both sides encrypts. -/
theorem encryptionPair_self (party : Str) :
    EncryptionPair namingJose namingReader (partyKey party) (partyKey party) where
  kind := rfl
  encrypts enc plaintext _ := ⟨_, rfl⟩
  decrypts enc plaintext token _ hencrypt := by
    obtain rfl := Except.ok.inj hencrypt
    refine ⟨JsonCodes.encodeText (.arr [.ofText plaintext, (partyKey party).material]), ?_, ?_⟩
    · show readToken _ = _
      unfold readToken openSigned
      rw [JsonCodes.decodeText_encodeText, openEncrypted_encode]
      rfl
    · intro header inner hparse
      obtain ⟨rfl, rest, hopen⟩ := openSigned_of_readToken hparse
      show (openEncrypted _ >>= _) = _
      rw [openEncrypted_encode]
      show (openSigned _ >>= _) = _
      rw [hopen]
      exact if_pos (ownedBy_self _)
  opens enc plaintext token _ hencrypt := by
    obtain rfl := Except.ok.inj hencrypt
    show (openEncrypted _ >>= _) = _
    rw [openEncrypted_encode]
    exact if_pos (ownedBy_self _)

/-- Alice and the server, each with one key for both sides. -/
def aliceAndServer : Parties where
  clientKid := "alice"
  serverKid := "server"
  clientSign := partyKey "alice"
  clientVerify := partyKey "alice"
  clientEncrypt := partyKey "alice"
  clientDecrypt := partyKey "alice"
  serverSign := partyKey "server"
  serverVerify := partyKey "server"
  serverEncrypt := partyKey "server"
  serverDecrypt := partyKey "server"

/-- Every key is stored under its party, whatever it is used for. -/
def twoPartyKeys : KEMKeysStore where
  storeGet key :=
    if key = "kemkeys/sig/alice" ∨ key = "kemkeys/enc/alice" then .ok (some "alice")
    else if key = "kemkeys/sig/server" ∨ key = "kemkeys/enc/server" then .ok (some "server")
    else .ok none
  serverKeys := some "server"
  signingAlgorithm := none

/-- The server with that library. -/
def namingRuntime : Runtime := { (default : Runtime) with jose := namingJose }

/-- Alice and the server can talk. -/
theorem aliceAndServer_ready :
    aliceAndServer.Ready namingRuntime.jose namingReader twoPartyKeys where
  clientSigns := signaturePair_self "alice"
  clientReads := encryptionPair_self "alice"
  serverSigns := signaturePair_self "server"
  serverReads := encryptionPair_self "server"
  named := rfl
  client := ⟨⟨"alice", rfl, rfl⟩, ⟨"alice", rfl, rfl⟩⟩
  server := ⟨⟨"server", rfl, rfl⟩, ⟨"server", rfl, rfl⟩⟩
  serverKeys := rfl
  algorithm _ h := nomatch h

/-- The value that Alice sends. -/
def aliceSecret : JsonValue := ⟨.ofText "s", .str _ (.text _)⟩

end KemRoundTrip
