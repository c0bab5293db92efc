import Custodia.QuotedText
import Custodia.Messages

/-! # MessageTexts — what the error of a message quotes

    The validator and the handlers put texts of the message, of the request and
    of other exceptions into their own exceptions. `Quotes` lists these texts;
    everything else in an exception is fixed.

    * `oneLine_validate_iff`: the exceptions of a token;
    * `oneLine_parse_iff`: the exception of a message is one line exactly when
      every text it quotes is. -/

namespace MessageTexts

open QuotedText PosixPath PyValues Unquote Messages

/-! ## Exceptions of one line -/

/-- If the computation raises an exception, its text is one line. -/
def OneLineError {α : Type} (x : Except Exc α) : Prop := ∀ e, x = .error e → OneLine e.str

section Errors

variable {α β : Type}

/-- What has not failed has no text to be quoted. -/
@[simp] theorem oneLineError_ok (a : α) : OneLineError (.ok a : Except Exc α) := by
  intro e h
  cases h

/-- What has failed is one line if its text is. -/
@[simp] theorem oneLineError_error (e : Exc) :
    OneLineError (.error e : Except Exc α) ↔ OneLine e.str := by
  constructor
  · intro h
    exact h e rfl
  · intro h e' heq
    rw [← Except.error.inj heq]
    exact h

/-- A sequence raises what its first part raises, or else what its second part
    does. -/
theorem oneLineError_bind (x : Except Exc α) (f : α → Except Exc β) :
    OneLineError (x >>= f) ↔ OneLineError x ∧ ∀ a, x = .ok a → OneLineError (f a) := by
  cases x with
  | error e =>
      constructor
      · intro h
        exact ⟨(oneLineError_error e).mpr (h e rfl), fun a ha => by cases ha⟩
      · rintro ⟨h, -⟩ e' heq
        rw [← Except.error.inj heq]
        exact h e rfl
  | ok a =>
      constructor
      · intro h
        refine ⟨oneLineError_ok a, fun a' ha => ?_⟩
        rw [← Except.ok.inj ha]
        exact h
      · rintro ⟨-, h⟩
        exact h a rfl

/-- What a library raises is one line if the text of its fault is. -/
theorem oneLineError_raised (r : Except Fault α) :
    OneLineError (raised r) ↔ ∀ f, r = .error f → OneLine f.text := by
  cases r with
  | ok a =>
      constructor
      · intro _ f h
        cases h
      · intro _ e h
        cases h
  | error f =>
      constructor
      · intro h f' heq
        rw [← Except.error.inj heq]
        exact h _ rfl
      · intro h e heq
        rw [← Except.error.inj heq]
        exact h f rfl

end Errors

/-! ## Keys -/

section Tokens

variable (rt : Runtime) (kk : KEMKeysStore)

/-- What the exception of `_get_key` quotes: the identifier of a key that is
    not registered, or what the store or the library says about it. -/
inductive QuotesKey (header : List (PyStr × Json)) (usage : KeyUsage) : Str → Prop where
  | unregistered (kid : Json) (hkid : Json.lookup header "kid" = some kid)
      (hstore : kk.storeGet (KEMKeysStore.dbKey (usage.name ++ slash :: fmt rt kid)) = .ok none) :
      QuotesKey header usage (fmt rt kid)
  | unavailable (kid : Json) (f : Fault) (hkid : Json.lookup header "kid" = some kid)
      (hstore : kk.storeGet (KEMKeysStore.dbKey (usage.name ++ slash :: fmt rt kid)) = .error f) :
      QuotesKey header usage f.text
  | unusable (kid : Json) (key : Str) (f : Fault) (hkid : Json.lookup header "kid" = some kid)
      (hstore : kk.storeGet (KEMKeysStore.dbKey (usage.name ++ slash :: fmt rt kid))
        = .ok (some key))
      (hjwk : rt.jose.jwk key = .error f) : QuotesKey header usage f.text

/-- A header with an identifier asks the store for the key of that identifier,
    and the library to read it. -/
theorem getKey_some {header : List (PyStr × Json)} {kid : Json} (usage : KeyUsage)
    (hkid : Json.lookup header "kid" = some kid) : getKey rt kk header usage = (do
      let key ← kk.findKey (fmt rt kid) usage
      raised (rt.jose.jwk key)) := by
  rw [getKey, hkid]

/-- A key is not found where the store fails or does not have it. -/
theorem oneLine_findKey_iff (kid : Str) (usage : KeyUsage) : OneLineError (kk.findKey kid usage)
    ↔ (∀ f, kk.storeGet (KEMKeysStore.dbKey (usage.name ++ slash :: kid)) = .error f →
        OneLine f.text)
      ∧ (kk.storeGet (KEMKeysStore.dbKey (usage.name ++ slash :: kid)) = .ok none →
        OneLine kid) := by
  rw [KEMKeysStore.findKey]
  rw [oneLineError_bind, oneLineError_raised]
  refine and_congr_right fun _ => ?_
  constructor
  · intro h hnone
    exact (oneLineError_error _).mp (h none (by rw [hnone]; rfl))
  · intro h found hfound
    cases found with
    | none => exact (oneLineError_error _).mpr (h (raised_ok hfound))
    | some key => exact oneLineError_ok key

/-- A key is found exactly if the store has a text for its name and usage. -/
theorem findKey_ok_iff (kid : Str) (usage : KeyUsage) (key : Str) :
    kk.findKey kid usage = .ok key
      ↔ kk.storeGet (KEMKeysStore.dbKey (usage.name ++ slash :: kid)) = .ok (some key) := by
  rw [KEMKeysStore.findKey]
  cases hget : kk.storeGet (KEMKeysStore.dbKey (usage.name ++ slash :: kid)) with
  | error f =>
      constructor
      · intro h
        cases h
      · intro h
        cases h
  | ok found =>
      cases found with
      | none =>
          constructor
          · intro h
            cases h
          · intro h
            cases h
      | some key' =>
          constructor
          · intro h
            rw [Except.ok.inj h]
          · intro h
            rw [Option.some.inj (Except.ok.inj h)]
            rfl

/-- **Looking for a key is reported in one line** exactly if every text that the
    report can quote is one line. -/
theorem oneLine_getKey_iff (header : List (PyStr × Json)) (usage : KeyUsage) :
    OneLineError (getKey rt kk header usage)
      ↔ ∀ text, QuotesKey rt kk header usage text → OneLine text := by
  cases hkid : Json.lookup header "kid" with
  | none =>
      have hmissing : getKey rt kk header usage
          = .error (invalidMessage "Missing key identifier") := by rw [getKey, hkid]
      rw [hmissing]
      constructor
      · intro _ text hquotes
        cases hquotes with
        | unregistered kid hk _ => cases hkid.symm.trans hk
        | unavailable kid f hk _ => cases hkid.symm.trans hk
        | unusable kid key f hk _ _ => cases hkid.symm.trans hk
      · intro _
        rw [oneLineError_error]
        decide
  | some kid =>
      rw [getKey_some rt kk usage hkid, oneLineError_bind, oneLine_findKey_iff]
      simp only [oneLineError_raised, findKey_ok_iff]
      constructor
      · rintro ⟨⟨hfault, hnone⟩, hkey⟩ text hquotes
        cases hquotes with
        | unregistered kid' hk hstore =>
            obtain rfl := Option.some.inj (hkid.symm.trans hk)
            exact hnone hstore
        | unavailable kid' f hk hstore =>
            obtain rfl := Option.some.inj (hkid.symm.trans hk)
            exact hfault f hstore
        | unusable kid' key f hk hstore hjwk =>
            obtain rfl := Option.some.inj (hkid.symm.trans hk)
            exact hkey key hstore f hjwk
      · intro h
        refine ⟨⟨fun f hstore => h _ (.unavailable kid f hkid hstore),
          fun hstore => h _ (.unregistered kid hkid hstore)⟩, ?_⟩
        exact fun key hstore f hjwk => h _ (.unusable kid key f hkid hstore hjwk)

/-! ## Tokens -/

/-- What the token says after the server has opened it. -/
def opened : Token → Except Exc (List (PyStr × Json) × Str)
  | .jwe data => do
      let keys ← kk.serverKeyPair rt
      raised (rt.jose.decrypt data keys.2)
  | .jws header data => .ok (header, data)
  | .other => .error (.py .typeError "Invalid Token type")

/-- Validating a token is to open it, to find both keys of its signer, and to
    verify it. -/
theorem validate_eq (token : Token) : validate rt kk token = (do
    let inner ← opened rt kk token
    let sigKey ← getKey rt kk inner.1 .sig
    let encKey ← getKey rt kk inner.1 .enc
    let claims ← raised (rt.jose.verify inner.2 sigKey)
    return (claims, encKey)) := by
  cases token with
  | jwe data =>
      rw [validate, opened]
      cases hkeys : kk.serverKeyPair rt with
      | error e => rfl
      | ok keys =>
          cases rt.jose.decrypt data keys.2 with
          | error f => rfl
          | ok inner => rfl
  | jws header data => rfl
  | other => rfl

/-- What the exception of a token quotes: what is said about the keys of the
    server, about an encrypted token, about the keys of the client and about
    the signature. -/
inductive QuotesToken (token : Token) : Str → Prop where
  | serverKeys (data : Str) (e : Exc) (htoken : token = .jwe data)
      (hkeys : kk.serverKeyPair rt = .error e) : QuotesToken token e.str
  | undecrypted (data : Str) (keys : Jwk × Jwk) (f : Fault) (htoken : token = .jwe data)
      (hkeys : kk.serverKeyPair rt = .ok keys) (hdecrypt : rt.jose.decrypt data keys.2 = .error f) :
      QuotesToken token f.text
  | sigKey (inner : List (PyStr × Json) × Str) (text : Str)
      (hopened : opened rt kk token = .ok inner) (hquotes : QuotesKey rt kk inner.1 .sig text) :
      QuotesToken token text
  | encKey (inner : List (PyStr × Json) × Str) (sigKey : Jwk) (text : Str)
      (hopened : opened rt kk token = .ok inner) (hsig : getKey rt kk inner.1 .sig = .ok sigKey)
      (hquotes : QuotesKey rt kk inner.1 .enc text) : QuotesToken token text
  | unverified (inner : List (PyStr × Json) × Str) (sigKey encKey : Jwk) (f : Fault)
      (hopened : opened rt kk token = .ok inner) (hsig : getKey rt kk inner.1 .sig = .ok sigKey)
      (henc : getKey rt kk inner.1 .enc = .ok encKey)
      (hverify : rt.jose.verify inner.2 sigKey = .error f) : QuotesToken token f.text

/-- A token is not opened where the server has no keys, or the library does not
    decrypt it. -/
theorem oneLine_opened_iff (token : Token) : OneLineError (opened rt kk token)
    ↔ (∀ data e, token = .jwe data → kk.serverKeyPair rt = .error e → OneLine e.str)
      ∧ ∀ data keys f, token = .jwe data → kk.serverKeyPair rt = .ok keys →
        rt.jose.decrypt data keys.2 = .error f → OneLine f.text := by
  cases token with
  | jwe data =>
      rw [opened, oneLineError_bind]
      refine and_congr ?_ ?_
      · constructor
        · intro h data' e _ hkeys
          exact h e hkeys
        · intro h e hkeys
          exact h data e rfl hkeys
      · simp only [oneLineError_raised]
        constructor
        · intro h data' keys f heq hkeys hdecrypt
          obtain rfl := Token.jwe.inj heq
          exact h keys hkeys f hdecrypt
        · intro h keys hkeys f hdecrypt
          exact h data keys f rfl hkeys hdecrypt
  | jws header data =>
      refine iff_of_true (oneLineError_ok _) ⟨fun data' e heq => ?_, fun data' keys f heq => ?_⟩
      · cases heq
      · cases heq
  | other =>
      have hfixed : OneLineError (opened rt kk .other) := by
        rw [opened, oneLineError_error]
        decide
      refine iff_of_true hfixed ⟨fun data' e heq => ?_, fun data' keys f heq => ?_⟩
      · cases heq
      · cases heq

/-- **Validating a token is reported in one line** exactly if every text that
    the report can quote is one line. -/
theorem oneLine_validate_iff (token : Token) : OneLineError (validate rt kk token)
    ↔ ∀ text, QuotesToken rt kk token text → OneLine text := by
  simp only [validate_eq, oneLineError_bind, oneLine_opened_iff, oneLine_getKey_iff,
    oneLineError_raised]
  constructor
  · rintro ⟨⟨hkeys, hdecrypt⟩, hrest⟩ text hquotes
    cases hquotes with
    | serverKeys data e htoken hfail => exact hkeys data e htoken hfail
    | undecrypted data keys f htoken hfound hfail => exact hdecrypt data keys f htoken hfound hfail
    | sigKey inner text hopened hquotes => exact (hrest inner hopened).1 text hquotes
    | encKey inner sigKey text hopened hsig hquotes =>
        exact ((hrest inner hopened).2 sigKey hsig).1 text hquotes
    | unverified inner sigKey encKey f hopened hsig henc hverify =>
        exact (((hrest inner hopened).2 sigKey hsig).2 encKey henc).1 f hverify
  · intro h
    refine ⟨⟨?_, ?_⟩, fun inner hopened => ⟨?_, fun sigKey hsig => ?_⟩⟩
    · exact fun data e htoken hkeys => h _ (.serverKeys data e htoken hkeys)
    · exact fun data keys f htoken hkeys hdecrypt =>
        h _ (.undecrypted data keys f htoken hkeys hdecrypt)
    · exact fun text hquotes => h text (.sigKey inner text hopened hquotes)
    · refine ⟨?_, fun encKey henc => ⟨?_, fun claims hclaims => oneLineError_ok _⟩⟩
      · exact fun text hquotes => h text (.encKey inner sigKey text hopened hsig hquotes)
      · exact fun f hverify => h _ (.unverified inner sigKey encKey f hopened hsig henc hverify)

end Tokens

/-! ## Claims -/

/-- The name of a type is one line. -/
theorem oneLine_typeName (value : Json) : OneLine value.typeName := by
  cases value with
  | null => exact (by decide : OneLine ("NoneType" : Str))
  | bool b => exact (by decide : OneLine ("bool" : Str))
  | int n => exact (by decide : OneLine ("int" : Str))
  | float x => exact (by decide : OneLine ("float" : Str))
  | str s => exact (by decide : OneLine ("str" : Str))
  | arr items => exact (by decide : OneLine ("list" : Str))
  | obj fields => exact (by decide : OneLine ("dict" : Str))

/-- Looking for a claim is reported in one line: it quotes the type of the
    claims at most. -/
theorem oneLineError_claim (claims : Json) (field : Str) : OneLineError (claim claims field) := by
  simp only [claim]
  split
  · exact oneLineError_ok _
  · split_ifs
    · rw [oneLineError_error]
      decide
    · exact oneLineError_ok _
  · split_ifs
    · rw [oneLineError_error]
      decide
    · exact oneLineError_ok _
  · exact oneLineError_ok _
  · rw [oneLineError_error]
    show OneLine (_ ++ _ ++ _)
    rw [oneLine_append, oneLine_append]
    exact ⟨⟨by decide, oneLine_typeName _⟩, by decide⟩

/-- The claims are about another key than the request. -/
def OtherSubject (claims : Json) (name : Str) (sub : Json) : Prop :=
  claim claims "sub" = .ok (some sub) ∧ sub.isText name = false

/-- The report about a wrong subject is one line exactly if both names are. -/
theorem oneLine_mismatch_iff (name sub : Str) :
    OneLine (("Key name " : Str) ++ name ++ (" does not match subject " : Str) ++ sub)
      ↔ OneLine name ∧ OneLine sub := by
  have hname : OneLine ("Key name " : Str) := by decide
  have hsub : OneLine (" does not match subject " : Str) := by decide
  rw [oneLine_append, oneLine_append, oneLine_append, and_iff_right hname, and_iff_left hsub]

/-- **Checking the claims is reported in one line** exactly if the names are,
    where the subject is another than the one asked for. -/
theorem oneLine_checkKemClaims_iff (rt : Runtime) (claims : Json) (name : Str) :
    OneLineError (checkKemClaims rt claims name)
      ↔ ∀ sub, OtherSubject claims name sub → OneLine name ∧ OneLine (fmt rt sub) := by
  rw [checkKemClaims]
  rw [oneLineError_bind]
  constructor
  · rintro ⟨-, h⟩ sub ⟨hsub, hother⟩
    have hmismatch := h (some sub) hsub
    dsimp only at hmismatch
    rw [if_pos hother, oneLineError_error] at hmismatch
    exact (oneLine_mismatch_iff name (fmt rt sub)).mp hmismatch
  · intro h
    refine ⟨oneLineError_claim claims "sub", ?_⟩
    intro found hfound
    cases found with
    | none =>
        rw [oneLineError_error]
        decide
    | some sub =>
        dsimp only
        split_ifs with hother
        · rw [oneLineError_error]
          exact (oneLine_mismatch_iff name (fmt rt sub)).mpr (h sub ⟨hfound, hother⟩)
        · rw [oneLineError_bind]
          refine ⟨oneLineError_claim claims "exp", ?_⟩
          intro found hfound
          cases found with
          | none =>
              rw [oneLineError_error]
              decide
          | some exp =>
              dsimp only
              split
              · rw [oneLineError_error]
                show OneLine (_ ++ _ ++ _)
                rw [oneLine_append, oneLine_append]
                exact ⟨⟨by decide, oneLine_typeName _⟩, by decide⟩
              · split_ifs
                · rw [oneLineError_error]
                  decide
                · rw [oneLineError_error]
                  decide
                · exact oneLineError_ok ()

/-! ## Messages -/

section Parse

variable (rt : Runtime) (allowed : KeyTypes) (kkstore : Option KEMKeysStore) (msg : Json)
  (name : Str)

/-- A `kem` message that reaches its handler. -/
structure Kem (value : Json) (kk : KEMKeysStore) : Prop where
  envelope : Envelope rt msg (.ofText "kem") value
  allows : allowed.allows "kem" = true
  store : kkstore = some kk

/-- What the exception of a message quotes. -/
inductive Quotes : Str → Prop where
  /-- A list of several types, or of none. -/
  | types (fields : List (PyStr × Json)) (items : List Json) (hmsg : msg = .obj fields)
      (htype : Json.lookup fields "type" = some (.arr items)) (hmany : items.length ≠ 1) :
      Quotes (rt.repr (.arr items))
  /-- A list of several values, or of none. -/
  | values (fields : List (PyStr × Json)) (type msgType : Json) (items : List Json)
      (hmsg : msg = .obj fields) (htype : Json.lookup fields "type" = some type)
      (hmsgType : unlisted rt "Type" type = .ok msgType)
      (hvalue : Json.lookup fields "value" = some (.arr items)) (hmany : items.length ≠ 1) :
      Quotes (rt.repr (.arr items))
  /-- A type that is unknown. -/
  | unknownType (msgType value : Json) (henvelope : Envelope rt msg msgType value)
      (hsimple : msgType.isText "simple" = false) (hkem : msgType.isText "kem" = false) :
      Quotes (fmt rt msgType)
  /-- What the library says about a value that is no token. -/
  | noToken (value : Json) (kk : KEMKeysStore) (f : Fault)
      (hkem : Kem rt allowed kkstore msg value kk) (htoken : rt.jose.parseToken value = .error f) :
      Quotes f.text
  /-- What is said about a token that is not valid. -/
  | invalid (value : Json) (kk : KEMKeysStore) (token : Token) (text : Str)
      (hkem : Kem rt allowed kkstore msg value kk) (htoken : rt.jose.parseToken value = .ok token)
      (hquotes : QuotesToken rt kk token text) : Quotes text
  /-- The name of the key, if the token is about another one. -/
  | name (value : Json) (kk : KEMKeysStore) (token : Token) (claims : Json) (key : Jwk) (sub : Json)
      (hkem : Kem rt allowed kkstore msg value kk) (htoken : rt.jose.parseToken value = .ok token)
      (hvalid : validate rt kk token = .ok (claims, key)) (hother : OtherSubject claims name sub) :
      Quotes name
  /-- The subject of the token, if it is not the name of the key. -/
  | subject (value : Json) (kk : KEMKeysStore) (token : Token) (claims : Json) (key : Jwk)
      (sub : Json) (hkem : Kem rt allowed kkstore msg value kk)
      (htoken : rt.jose.parseToken value = .ok token)
      (hvalid : validate rt kk token = .ok (claims, key)) (hother : OtherSubject claims name sub) :
      Quotes (fmt rt sub)

/-- A list in the place of a value is quoted as Python writes it. -/
theorem oneLine_unlisted_iff (what : Str) (hwhat : OneLine what) (value : Json) :
    OneLineError (unlisted rt what value)
      ↔ ∀ items, value = .arr items → items.length ≠ 1 → OneLine (rt.repr (.arr items)) := by
  have hfixed : OneLine (" is multivalued: " : Str) := by decide
  simp only [unlisted]
  split
  · rename_i value
    refine iff_of_true (oneLineError_ok value) ?_
    intro items heq hmany
    rw [← Json.arr.inj heq] at hmany
    exact absurd rfl hmany
  · rename_i items hmany
    rw [oneLineError_error]
    show OneLine (what ++ (" is multivalued: " : Str) ++ _) ↔ _
    rw [oneLine_append, oneLine_append, and_iff_right (⟨hwhat, hfixed⟩ : _ ∧ _)]
    constructor
    · intro h items' heq _
      rw [← Json.arr.inj heq]
      exact h
    · intro h
      refine h items rfl ?_
      intro hone
      obtain ⟨value, rfl⟩ := List.length_eq_one_iff.mp hone
      exact hmany value rfl
  · rename_i hsingle hlist
    refine iff_of_true (oneLineError_ok value) ?_
    intro items heq
    exact absurd heq (hlist items)

/-- A handler puts a fixed text before that of an exception. -/
def reraised {α : Type} (what : Str) (x : Except Exc α) : Except Exc α :=
  x.mapError (fun e => invalidMessage (what ++ e.str))

/-- An exception that is raised again with a text before it is one line where it
    was one before. -/
theorem oneLineError_reraised {α : Type} {what : Str} (hwhat : OneLine what) (x : Except Exc α) :
    OneLineError (reraised what x) ↔ OneLineError x := by
  cases x with
  | ok a => exact iff_of_true (oneLineError_ok a) (oneLineError_ok a)
  | error e =>
      show OneLineError (.error (invalidMessage (what ++ e.str)) : Except Exc α) ↔ _
      rw [oneLineError_error, oneLineError_error]
      show OneLine (what ++ e.str) ↔ _
      rw [oneLine_append, and_iff_right hwhat]

/-- What was raised again and succeeded has succeeded before. -/
theorem reraised_ok {α : Type} {what : Str} {x : Except Exc α} {a : α}
    (h : reraised what x = .ok a) : x = .ok a := by
  cases x with
  | error e => cases h
  | ok b => rw [Except.ok.inj h]

/-- What has not failed goes on as if nothing could be raised again. -/
theorem reraised_ok_bind {α β : Type} (what : Str) (a : α) (f : α → Except Exc β) :
    (reraised what (.ok a) >>= f) = f a := rfl

/-- Parsing a `kem` message is to parse the token, to validate it and to check
    its claims, where the first two raise their exceptions again. -/
theorem kemParse_eq (value : Json) (kk : KEMKeysStore) : kemParse rt (some kk) value name = (do
    let token ← reraised "Failed to parse message: " (raised (rt.jose.parseToken value))
    let valid ← reraised "Failed to validate message: " (validate rt kk token)
    checkKemClaims rt valid.1 name
    return .kemHandler name (claimValue valid.1) kk valid.2) := by
  rw [kemParse]
  cases rt.jose.parseToken value with
  | error f => rfl
  | ok token =>
      have hraised : raised (Except.ok token) = .ok token := rfl
      rw [hraised, reraised_ok_bind]
      dsimp only
      cases validate rt kk token with
      | error e => rfl
      | ok valid => rfl

/-- **Parsing a `kem` message is reported in one line** exactly if what the
    library says is, and every text that is quoted. -/
theorem oneLine_kemParse_iff (value : Json) (kk : KEMKeysStore) :
    OneLineError (kemParse rt (some kk) value name)
      ↔ (∀ f, rt.jose.parseToken value = .error f → OneLine f.text)
        ∧ ∀ token, rt.jose.parseToken value = .ok token →
          (∀ text, QuotesToken rt kk token text → OneLine text)
          ∧ ∀ claims key, validate rt kk token = .ok (claims, key) →
            ∀ sub, OtherSubject claims name sub → OneLine name ∧ OneLine (fmt rt sub) := by
  have hparse : OneLine ("Failed to parse message: " : Str) := by decide
  have hvalidate : OneLine ("Failed to validate message: " : Str) := by decide
  simp only [kemParse_eq, oneLineError_bind, oneLineError_reraised hparse,
    oneLineError_reraised hvalidate, oneLineError_raised, oneLine_validate_iff,
    oneLine_checkKemClaims_iff]
  constructor
  · rintro ⟨htoken, hrest⟩
    refine ⟨htoken, fun token heq => ?_⟩
    obtain ⟨hvalid, hclaims⟩ := hrest token (by rw [heq]; rfl)
    exact ⟨hvalid, fun claims key h => (hclaims (claims, key) (by rw [h]; rfl)).1⟩
  · rintro ⟨htoken, hrest⟩
    refine ⟨htoken, fun token heq => ?_⟩
    obtain ⟨hvalid, hclaims⟩ := hrest token (raised_ok (reraised_ok heq))
    refine ⟨hvalid, fun valid h => ⟨hclaims valid.1 valid.2 (reraised_ok h), ?_⟩⟩
    exact fun _ _ => oneLineError_ok _

/-- What the exception of a type that is known and allowed quotes. -/
theorem oneLine_simpleParse (value : Json) : OneLineError (simpleParse value name) := by
  simp only [simpleParse]
  split
  · exact oneLineError_ok _
  · exact oneLineError_ok _
  · rw [oneLineError_error]
    decide

section Steps

variable {rt allowed kkstore msg name} {fields : List (PyStr × Json)}
  {type value msgType msgValue : Json} {e : Exc} {kk : KEMKeysStore}

/-- Where the type of a message is a list of more than one, that is the error. -/
theorem parse_type_error (hmsg : msg = .obj fields)
    (htype : Json.lookup fields "type" = some type) (h : unlisted rt "Type" type = .error e) :
    parse rt allowed kkstore msg name = .error e := by
  subst hmsg
  simp only [parse, htype, h]
  rfl

/-- Where the value of a message is a list of more than one, that is the error. -/
theorem parse_value_error (hmsg : msg = .obj fields)
    (htype : Json.lookup fields "type" = some type)
    (hmsgType : unlisted rt "Type" type = .ok msgType)
    (hvalue : Json.lookup fields "value" = some value) (h : unlisted rt "Value" value = .error e) :
    parse rt allowed kkstore msg name = .error e := by
  subst hmsg
  simp only [parse, htype, hmsgType, hvalue, h]
  rfl

/-- A message of an unknown type is refused with that type in the text. -/
theorem parse_unknown (h : Envelope rt msg msgType msgValue)
    (hsimple : msgType.isText "simple" = false) (hkem : msgType.isText "kem" = false) :
    parse rt allowed kkstore msg name
      = .error (.py .unknownMessageType ("Type '" ++ fmt rt msgType ++ "' is unknown")) := by
  rw [parse_of_envelope h, hsimple, hkem]
  rfl

/-- A message of type `kem` is parsed by its handler. -/
theorem parse_kem (h : Kem rt allowed kkstore msg value kk) :
    parse rt allowed kkstore msg name = kemParse rt (some kk) value name := by
  rw [parse_of_envelope h.envelope, if_neg (by decide), if_pos (Json.isText_iff.mpr rfl),
    if_pos h.allows, h.store]

/-- The report about an unknown type is one line exactly if the type is. -/
theorem oneLine_unknown_iff (text : Str) :
    OneLine (("Type '" : Str) ++ text ++ ("' is unknown" : Str)) ↔ OneLine text := by
  have hbefore : OneLine ("Type '" : Str) := by decide
  have hafter : OneLine ("' is unknown" : Str) := by decide
  rw [oneLine_append, oneLine_append, and_iff_right hbefore, and_iff_left hafter]

/-- What an exception of one line quotes is one line. -/
theorem oneLine_of_quotes (h : OneLineError (parse rt allowed kkstore msg name)) {text : Str}
    (hquotes : Quotes rt allowed kkstore msg name text) : OneLine text := by
  have hkemParse : ∀ value kk, Kem rt allowed kkstore msg value kk →
      OneLineError (kemParse rt (some kk) value name) := by
    intro value kk hkem
    rw [← parse_kem hkem]
    exact h
  cases hquotes with
  | types fields items hmsg htype hmany =>
      refine (oneLine_unlisted_iff rt "Type" (by decide) (.arr items)).mp ?_ items rfl hmany
      exact fun e he => h e (parse_type_error hmsg htype he)
  | values fields type msgType items hmsg htype hmsgType hvalue hmany =>
      refine (oneLine_unlisted_iff rt "Value" (by decide) (.arr items)).mp ?_ items rfl hmany
      exact fun e he => h e (parse_value_error hmsg htype hmsgType hvalue he)
  | unknownType msgType value henvelope hsimple hkem =>
      exact (oneLine_unknown_iff _).mp (h _ (parse_unknown henvelope hsimple hkem))
  | noToken value kk f hkem htoken =>
      exact ((oneLine_kemParse_iff rt name value kk).mp (hkemParse value kk hkem)).1 f htoken
  | invalid value kk token text hkem htoken hquotes =>
      have hrest := ((oneLine_kemParse_iff rt name value kk).mp (hkemParse value kk hkem)).2
      exact (hrest token htoken).1 text hquotes
  | name value kk token claims key sub hkem htoken hvalid hother =>
      have hrest := ((oneLine_kemParse_iff rt name value kk).mp (hkemParse value kk hkem)).2
      exact ((hrest token htoken).2 claims key hvalid sub hother).1
  | subject value kk token claims key sub hkem htoken hvalid hother =>
      have hrest := ((oneLine_kemParse_iff rt name value kk).mp (hkemParse value kk hkem)).2
      exact ((hrest token htoken).2 claims key hvalid sub hother).2

/-- A message with its type and its value: the type decides what is quoted. -/
theorem oneLineError_envelope (henvelope : Envelope rt msg msgType msgValue)
    (h : ∀ text, Quotes rt allowed kkstore msg name text → OneLine text) :
    OneLineError (parse rt allowed kkstore msg name) := by
  rw [parse_of_envelope henvelope]
  split_ifs with hsimple hallow hkem hallow
  · exact oneLine_simpleParse name msgValue
  · rw [oneLineError_error]
    decide
  · cases hstore : kkstore with
    | none =>
        show OneLineError (.error (.py .plain "KEM KeyStore not configured") : Except Exc Handler)
        rw [oneLineError_error]
        decide
    | some kk =>
        obtain rfl := Json.isText_iff.mp hkem
        have hreached : Kem rt allowed kkstore msg msgValue kk := ⟨henvelope, hallow, hstore⟩
        rw [oneLine_kemParse_iff]
        refine ⟨fun f htoken => h _ (.noToken msgValue kk f hreached htoken), ?_⟩
        intro token htoken
        refine ⟨fun text ht => h _ (.invalid msgValue kk token text hreached htoken ht), ?_⟩
        intro claims key hvalid sub hother
        exact ⟨h _ (.name msgValue kk token claims key sub hreached htoken hvalid hother),
          h _ (.subject msgValue kk token claims key sub hreached htoken hvalid hother)⟩
  · rw [oneLineError_error]
    decide
  · rw [oneLineError_error]
    refine (oneLine_unknown_iff _).mpr (h _ ?_)
    exact .unknownType msgType msgValue henvelope (Bool.eq_false_of_not_eq_true hsimple)
      (Bool.eq_false_of_not_eq_true hkem)

/-- A document without type or value has nothing to quote but its lists. -/
theorem oneLineError_obj (hmsg : msg = .obj fields)
    (h : ∀ text, Quotes rt allowed kkstore msg name text → OneLine text) :
    OneLineError (parse rt allowed kkstore msg name) := by
  cases htype : Json.lookup fields "type" with
  | none =>
      subst hmsg
      simp only [parse, htype, oneLineError_error]
      decide
  | some type =>
      cases hmsgType : unlisted rt "Type" type with
      | error e =>
          rw [parse_type_error hmsg htype hmsgType, oneLineError_error]
          refine (oneLine_unlisted_iff rt "Type" (by decide) type).mpr ?_ e hmsgType
          rintro items rfl hmany
          exact h _ (.types fields items hmsg htype hmany)
      | ok msgType =>
          cases hvalue : Json.lookup fields "value" with
          | none =>
              subst hmsg
              simp only [parse, htype, hmsgType, hvalue]
              show OneLineError (.error (invalidMessage "The value is missing")
                : Except Exc Handler)
              rw [oneLineError_error]
              decide
          | some value =>
              cases hmsgValue : unlisted rt "Value" value with
              | error e =>
                  rw [parse_value_error hmsg htype hmsgType hvalue hmsgValue, oneLineError_error]
                  refine (oneLine_unlisted_iff rt "Value" (by decide) value).mpr ?_ e hmsgValue
                  rintro items rfl hmany
                  exact h _ (.values fields type msgType items hmsg htype hmsgType hvalue hmany)
              | ok msgValue =>
                  exact oneLineError_envelope ⟨fields, type, value, hmsg, htype, hmsgType, hvalue,
                    hmsgValue⟩ h

end Steps

/-- The report about a message that is no dictionary is one line. -/
theorem oneLine_noDict : OneLine (invalidMessage "The message must be a dict").str := by decide

/-- **HEADLINE — what the error of a message says.** It is one line exactly
    when all that it quotes is. -/
theorem oneLine_parse_iff : OneLineError (parse rt allowed kkstore msg name)
    ↔ ∀ text, Quotes rt allowed kkstore msg name text → OneLine text := by
  constructor
  · intro h text hquotes
    exact oneLine_of_quotes h hquotes
  · intro h
    cases hmsg : msg with
    | obj fields =>
        rw [← hmsg]
        exact oneLineError_obj hmsg h
    | null => exact (oneLineError_error _).mpr oneLine_noDict
    | bool b => exact (oneLineError_error _).mpr oneLine_noDict
    | int n => exact (oneLineError_error _).mpr oneLine_noDict
    | float x => exact (oneLineError_error _).mpr oneLine_noDict
    | str s => exact (oneLineError_error _).mpr oneLine_noDict
    | arr items => exact (oneLineError_error _).mpr oneLine_noDict

end Parse

end MessageTexts
