import Custodia.SecretsConsumer

/-! # EncryptedStores — stores that encrypt on the way

    `EncryptedStore` and `EncryptedOverlay` are implementations of the store
    methods over those of another store. Overlays can be stacked. Outside of
    the `migrate` mode every such stack is a codec: `set` encodes the value and
    makes ONE call, `get` makes ONE call and decodes the row.

    * `StorePlugin.layer`: the methods of a configured store;
    * `layer_set`, `layer_get`: the codec;
    * `decode_encode`: what is encoded is decoded, if the tokens can be opened. -/

namespace EncryptedStores

open Interaction PosixPath PyValues Messages SqliteStore SecretsConsumer

/-! ## The store plugins -/

/-- What the stores use of the JWE implementation with the master key: a token
    is made of a protected header, a value and fresh randomness; opening one
    gives the payload and the header. `str` is the text of a header value. -/
structure Jwe where
  encrypt : Json → Json → Nat → Except Fault Str
  decrypt : SqlValue → Except Fault (Str × List (PyStr × Json))
  str : Json → Str

/-- How an unreadable value is reported. -/
def parseError : Exc := .py .csStoreError "Error occurred while trying to parse key"

/-- The protected header of `EncryptedStore`. -/
def storeHeader (enctype : Str) : List (PyStr × Json) :=
  [(.text "alg", .ofText "dir"), (.text "enc", .ofText enctype)]

/-- `EncryptedStore.get` after the call of `SqliteStore.get`. -/
def storeOpen (jwe : Jwe) (value : SqlValue) : StoreProg SqlValue :=
  if value = .null then return .null
  else
    match jwe.decrypt value with
    | .error _ => .raise parseError
    | .ok (payload, _) => return .text payload

/-- `EncryptedStore`: the methods of `SqliteStore`, with `get` and `set`
    overridden. -/
def encryptedStore (jwe : Jwe) (enctype : Str) (nonce : Nat) : (o : Call) → StoreProg o.Ans
  | .get key => do storeOpen jwe (← storeGet key)
  | .set key value replace => do
      let cvalue ← Prog.ofExcept (raised (jwe.encrypt (.obj (storeHeader enctype)) value nonce))
      Prog.perform (Call.set key (.ofText cvalue) replace)
  | .span key => Prog.perform (Call.span key)
  | .list keyfilter => Prog.perform (Call.list keyfilter)
  | .cut key => Prog.perform (Call.cut key)

/-- The protected header of `EncryptedOverlay`: unless the protection is
    `'encrypt'` it pins the key. -/
def overlayHeader (enctype : Str) (protection : Option Str) (key : Str) : List (PyStr × Json) :=
  storeHeader enctype ++
    (if protection = some "encrypt".toList then [] else [(.text "custodia.key", .ofText key)])

/-- `EncryptedOverlay.set`, over the methods of the backing store. -/
def overlaySet (jwe : Jwe) (enctype : Str) (protection : Option Str) (nonce : Nat) (key : Str)
    (value : Json) (replace : Bool) : StoreProg Unit := do
  let cvalue ← Prog.ofExcept
    (raised (jwe.encrypt (.obj (overlayHeader enctype protection key)) value nonce))
  Prog.perform (Call.set key (.ofText cvalue) replace)

/-- How a failed pinning check is reported. -/
def pinningError (text : Str) : Exc :=
  .py .csStoreError ("Secret Pinning check failed!" ++ text)

/-- `EncryptedOverlay.get` after the call on the backing store. -/
def overlayOpen (jwe : Jwe) (enctype : Str) (protection : Option Str) (nonce : Nat) (key : Str)
    (value : SqlValue) : StoreProg SqlValue :=
  if value = .null then return .null
  else
    match jwe.decrypt value with
    | .error _ => .raise parseError
    | .ok (payload, header) =>
        if protection = some "encrypt".toList then return .text payload
        else
          match Json.lookup header "custodia.key" with
          | none =>
              if protection = some "migrate".toList then do
                overlaySet jwe enctype protection nonce key (.ofText payload) true
                return .text payload
              else .raise (pinningError "Missing custodia.key element")
          | some pinned =>
              if pinned.isText key = true then return .text payload
              else .raise (pinningError
                ((" Expected " : Str) ++ key ++ (" got " : Str) ++ jwe.str pinned))

/-- `EncryptedOverlay`; `secret_protection` is `False` unless it is given. -/
def encryptedOverlay (jwe : Jwe) (enctype : Str) (protection : Option Str) (nonce : Nat) :
    (o : Call) → StoreProg o.Ans
  | .get key => do overlayOpen jwe enctype protection nonce key (← storeGet key)
  | .set key value replace => overlaySet jwe enctype protection nonce key value replace
  | .span key => Prog.perform (Call.span key)
  | .list keyfilter => Prog.perform (Call.list keyfilter)
  | .cut key => Prog.perform (Call.cut key)

/-- A configured store: the database itself, or a stack over it. -/
inductive StorePlugin where
  | sqlite
  | encryptedStore (jwe : Jwe) (enctype : Str)
  | encryptedOverlay (jwe : Jwe) (enctype : Str) (protection : Option Str) (backing : StorePlugin)

namespace StorePlugin

/-- The methods of the store, over the calls of the database. -/
def layer (nonce : Nat) : StorePlugin → (o : Call) → StoreProg o.Ans
  | sqlite, o => Prog.perform o
  | encryptedStore jwe enctype, o => EncryptedStores.encryptedStore jwe enctype nonce o
  | encryptedOverlay jwe enctype protection backing, o =>
      (EncryptedStores.encryptedOverlay jwe enctype protection nonce o).through
        (backing.layer nonce)

/-- No overlay of the stack is in `migrate` mode. -/
def NotMigrating : StorePlugin → Prop
  | sqlite => True
  | encryptedStore _ _ => True
  | encryptedOverlay _ _ protection backing =>
      protection ≠ some "migrate".toList ∧ backing.NotMigrating

/-! ## The codec of a stack -/

/-- What `set` makes of a value before its call. -/
def encode (nonce : Nat) : StorePlugin → Str → Json → Except Exc Json
  | sqlite, _, value => .ok value
  | encryptedStore jwe enctype, _, value => do
      return .ofText (← raised (jwe.encrypt (.obj (storeHeader enctype)) value nonce))
  | encryptedOverlay jwe enctype protection backing, key, value => do
      let cvalue ← raised (jwe.encrypt (.obj (overlayHeader enctype protection key)) value nonce)
      backing.encode nonce key (.ofText cvalue)

/-- What opening a token gives, where a missing pin is an error. -/
def openToken (jwe : Jwe) (protection : Option Str) (key : Str) (value : SqlValue) :
    Except Exc SqlValue :=
  if value = .null then .ok .null
  else
    match jwe.decrypt value with
    | .error _ => .error parseError
    | .ok (payload, header) =>
        if protection = some "encrypt".toList then .ok (.text payload)
        else
          match Json.lookup header "custodia.key" with
          | none => .error (pinningError "Missing custodia.key element")
          | some pinned =>
              if pinned.isText key = true then .ok (.text payload)
              else .error (pinningError
                ((" Expected " : Str) ++ key ++ (" got " : Str) ++ jwe.str pinned))

/-- What `get` makes of a row after its call. -/
def decode : StorePlugin → Str → SqlValue → Except Exc SqlValue
  | sqlite, _, row => .ok row
  | encryptedStore jwe _, key, row => openToken jwe (some "encrypt".toList) key row
  | encryptedOverlay jwe _ protection backing, key, row => do
      openToken jwe protection key (← backing.decode key row)

theorem storeOpen_eq (jwe : Jwe) (key : Str) (value : SqlValue) :
    storeOpen jwe value = .ofExcept (openToken jwe (some "encrypt".toList) key value) := by
  unfold storeOpen openToken
  by_cases hnull : value = .null
  · rw [if_pos hnull, if_pos hnull]
    rfl
  · rw [if_neg hnull, if_neg hnull]
    cases jwe.decrypt value <;> rfl

theorem overlayOpen_eq {jwe : Jwe} {enctype : Str} {protection : Option Str} {nonce : Nat}
    (h : protection ≠ some "migrate".toList) (key : Str) (value : SqlValue) :
    overlayOpen jwe enctype protection nonce key value
      = .ofExcept (openToken jwe protection key value) := by
  unfold overlayOpen openToken
  by_cases hnull : value = .null
  · rw [if_pos hnull, if_pos hnull]
    rfl
  · rw [if_neg hnull, if_neg hnull]
    cases jwe.decrypt value with
    | error f => rfl
    | ok token =>
        obtain ⟨payload, header⟩ := token
        by_cases henc : protection = some "encrypt".toList
        · simp only [if_pos henc]
          rfl
        · simp only [if_neg henc]
          cases Json.lookup header "custodia.key" with
          | none =>
              simp only [if_neg h]
              rfl
          | some pinned =>
              by_cases hpin : pinned.isText key = true
              · simp only [if_pos hpin]
                rfl
              · simp only [if_neg hpin]
                rfl

/-- `list`, `span` and `cut` pass through every layer. -/
theorem layer_list (plugin : StorePlugin) (nonce : Nat) (keyfilter : Str) :
    plugin.layer nonce (.list keyfilter) = Prog.perform (Call.list keyfilter) := by
  induction plugin with
  | sqlite => rfl
  | encryptedStore jwe enctype => rfl
  | encryptedOverlay jwe enctype protection backing ih =>
      exact (Prog.perform_through (backing.layer nonce) (.list keyfilter)).trans ih

theorem layer_span (plugin : StorePlugin) (nonce : Nat) (key : Str) :
    plugin.layer nonce (.span key) = Prog.perform (Call.span key) := by
  induction plugin with
  | sqlite => rfl
  | encryptedStore jwe enctype => rfl
  | encryptedOverlay jwe enctype protection backing ih =>
      exact (Prog.perform_through (backing.layer nonce) (.span key)).trans ih

theorem layer_cut (plugin : StorePlugin) (nonce : Nat) (key : Str) :
    plugin.layer nonce (.cut key) = Prog.perform (Call.cut key) := by
  induction plugin with
  | sqlite => rfl
  | encryptedStore jwe enctype => rfl
  | encryptedOverlay jwe enctype protection backing ih =>
      exact (Prog.perform_through (backing.layer nonce) (.cut key)).trans ih

/-- **`set` encodes, then makes one call.** An overlay turns the value into a
    token and hands it on to the store below. -/
theorem layer_set (plugin : StorePlugin) (nonce : Nat) (key : Str) (value : Json)
    (replace : Bool) :
    plugin.layer nonce (.set key value replace) =
      match plugin.encode nonce key value with
      | .error e => .raise e
      | .ok encoded => Prog.perform (Call.set key encoded replace) := by
  induction plugin generalizing value with
  | sqlite => rfl
  | encryptedStore jwe enctype =>
      show (Prog.ofExcept (raised
        (jwe.encrypt (.obj (storeHeader enctype)) value nonce))).bind _ = _
      rw [encode]
      cases raised (jwe.encrypt (.obj (storeHeader enctype)) value nonce) <;> rfl
  | encryptedOverlay jwe enctype protection backing ih =>
      show ((Prog.ofExcept (raised
        (jwe.encrypt (.obj (overlayHeader enctype protection key)) value nonce))).bind _).through _
          = _
      rw [encode]
      cases raised (jwe.encrypt (.obj (overlayHeader enctype protection key)) value nonce) with
      | error e => rfl
      | ok cvalue =>
          exact (Prog.perform_through (backing.layer nonce) _).trans (ih (.ofText cvalue))

/-- **`get` makes one call, then decodes**, unless a layer migrates: then a
    second call writes the row back with its pin. -/
theorem layer_get {plugin : StorePlugin} (h : plugin.NotMigrating) (nonce : Nat) (key : Str) :
    plugin.layer nonce (.get key) =
      .call (.get key) (fun (r : Except Exc SqlValue) =>
        .ofExcept (r >>= plugin.decode key)) := by
  induction plugin with
  | sqlite =>
      refine congrArg (Prog.call _) (funext fun r => ?_)
      cases r <;> rfl
  | encryptedStore jwe enctype =>
      refine congrArg (Prog.call _) (funext fun r => ?_)
      cases r with
      | error e => rfl
      | ok row =>
          exact storeOpen_eq jwe key row
  | encryptedOverlay jwe enctype protection backing ih =>
      show (backing.layer nonce (.get key)).attempt.bind _ = _
      rw [ih h.2]
      refine congrArg (Prog.call _) (funext fun r => ?_)
      show (Prog.ofExcept (r >>= backing.decode key)).attempt.bind _ = _
      rw [Prog.attempt_ofExcept_bind]
      cases r with
      | error e => rfl
      | ok row =>
          show Prog.through _ _ = Prog.ofExcept (backing.decode key row >>= _)
          cases hdec : backing.decode key row with
          | error e =>
              show Prog.through _ ((Prog.ofExcept (backing.decode key row)).bind _) = _
              rw [hdec]
              rfl
          | ok value =>
              show Prog.through _ ((Prog.ofExcept (backing.decode key row)).bind _) = _
              rw [hdec]
              show (overlayOpen jwe enctype protection nonce key value).through _ = _
              rw [overlayOpen_eq h.1]
              exact Prog.ofExcept_through _ _

/-! ## What is encoded is decoded -/

/-- Tokens made with the header can be opened: only texts are encrypted, and
    decrypting gives the text and the pinned key back; an empty text is no
    token. -/
structure Opens (jwe : Jwe) (header : List (PyStr × Json)) : Prop where
  opens : ∀ value nonce token, jwe.encrypt (.obj header) value nonce = .ok token →
    ∃ s found, value = .ofText s ∧ jwe.decrypt (.text token) = .ok (s, found)
      ∧ Json.lookup found "custodia.key" = Json.lookup header "custodia.key"
  empty : ∃ f, jwe.decrypt (.text []) = .error f

/-- All tokens of the stack can be opened. -/
def RoundTrips : StorePlugin → Prop
  | sqlite => True
  | encryptedStore jwe enctype => Opens jwe (storeHeader enctype)
  | encryptedOverlay jwe enctype protection backing =>
      (∀ key, Opens jwe (overlayHeader enctype protection key)) ∧ backing.RoundTrips

theorem openToken_token {jwe : Jwe} {enctype : Str} {protection : Option Str} {key : Str}
    (h : Opens jwe (overlayHeader enctype protection key)) {value : Json} {nonce : Nat}
    {token : Str}
    (hseal : jwe.encrypt (.obj (overlayHeader enctype protection key)) value nonce = .ok token) :
    ∃ s, value = .ofText s ∧ openToken jwe protection key (.text token) = .ok (.text s) := by
  obtain ⟨s, found, hvalue, hopen, hpin⟩ := h.opens value nonce token hseal
  refine ⟨s, hvalue, ?_⟩
  rw [openToken, if_neg (by simp), hopen]
  by_cases henc : protection = some "encrypt".toList
  · exact if_pos henc
  · have hlook : Json.lookup found "custodia.key" = some (.ofText key) := by
      rw [hpin, overlayHeader, if_neg henc]
      rfl
    refine (if_neg henc).trans ?_
    rw [hlook]
    exact if_pos (Json.isText_iff.mpr rfl)

/-- `EncryptedStore` is an overlay in the mode `'encrypt'` as far as its tokens
    go. -/
theorem storeHeader_eq (enctype key : Str) :
    overlayHeader enctype (some "encrypt".toList) key = storeHeader enctype := by
  rw [overlayHeader, if_pos rfl, List.append_nil]

/-- **What is encoded is decoded**: the row of an encoded value reads as the
    value itself would. -/
theorem decode_encode {plugin : StorePlugin} (h : plugin.RoundTrips) {nonce : Nat} {key : Str}
    {value encoded : Json} {row : SqlValue} (henc : plugin.encode nonce key value = .ok encoded)
    (hrow : bindValue setErrorText encoded = .ok row) :
    ∃ v, bindValue setErrorText value = .ok v ∧ plugin.decode key row = .ok v := by
  induction plugin generalizing value encoded row with
  | sqlite =>
      obtain rfl := Except.ok.inj henc
      exact ⟨row, hrow, rfl⟩
  | encryptedStore jwe enctype =>
      obtain ⟨token, htoken, henc⟩ := bind_ok henc
      obtain rfl := Except.ok.inj henc
      obtain rfl := Except.ok.inj hrow
      have hopens : Opens jwe (overlayHeader enctype (some "encrypt".toList) key) := by
        rw [storeHeader_eq]
        exact h
      rw [← storeHeader_eq enctype key] at htoken
      obtain ⟨s, rfl, hopen⟩ := openToken_token hopens (raised_ok htoken)
      exact ⟨.text s, rfl, hopen⟩
  | encryptedOverlay jwe enctype protection backing ih =>
      obtain ⟨token, htoken, henc⟩ := bind_ok henc
      obtain ⟨v, hv, hdec⟩ := ih h.2 henc hrow
      obtain rfl := Except.ok.inj hv
      obtain ⟨s, rfl, hopen⟩ := openToken_token (h.1 key) (raised_ok htoken)
      refine ⟨.text s, rfl, ?_⟩
      show backing.decode key row >>= openToken jwe protection key = _
      rw [hdec]
      exact hopen

theorem openToken_empty {jwe : Jwe} {protection : Option Str} {key : Str}
    (h : ∃ f, jwe.decrypt (.text []) = .error f) :
    openToken jwe protection key (.text []) = .error parseError := by
  obtain ⟨f, hf⟩ := h
  rw [openToken, if_neg (by simp), hf]

/-- The empty value of a container is read as itself, or not at all. -/
theorem decode_empty {plugin : StorePlugin} (h : plugin.RoundTrips) {key : Str} {x : SqlValue}
    (hx : plugin.decode key (.text []) = .ok x) : x = .text [] := by
  induction plugin generalizing x with
  | sqlite => exact (Except.ok.inj hx).symm
  | encryptedStore jwe enctype =>
      have hno : openToken jwe (some "encrypt".toList) key (.text []) = .error parseError :=
        openToken_empty h.empty
      exact nomatch hno.symm.trans hx
  | encryptedOverlay jwe enctype protection backing ih =>
      obtain ⟨y, hy, hopen⟩ := bind_ok hx
      obtain rfl := ih h.2 hy
      exact nomatch (openToken_empty (h.1 key).empty).symm.trans hopen

end StorePlugin

end EncryptedStores
