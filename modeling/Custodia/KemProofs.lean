import Mathlib.Tactic.Linarith
import Custodia.Messages

/-! # KemProofs — which `kem` messages are accepted

    A `kem` message is a signed token, or an encrypted token around one. It is
    accepted for its claims, which are whatever `json_decode` makes of the
    signed payload.

    * `VerifiedClaims`: the claims of a message whose signature was verified;
    * `checkKemClaims_ok`: which claims pass the checks;
    * `acceptance_sound_iff`: when acceptance can be relied on. -/

namespace KemProofs

open PosixPath PyValues Messages

/-! ## Verified tokens -/

/-- The key of a stored key is made of its usage and its identifier. -/
theorem dbKey_usage (usage : KeyUsage) (kid : Str) :
    KEMKeysStore.dbKey (usage.name ++ slash :: kid)
      = ("kemkeys/" : Str) ++ usage.name ++ slash :: kid := by
  cases usage <;> rfl

/-- A key that is found was stored for its usage and identifier. -/
theorem findKey_ok {kk : KEMKeysStore} {kid pubkey : Str} {usage : KeyUsage}
    (h : kk.findKey kid usage = .ok pubkey) :
    kk.storeGet (("kemkeys/" : Str) ++ usage.name ++ slash :: kid) = .ok (some pubkey) := by
  obtain ⟨found, hfound, h⟩ := bind_ok h
  rw [dbKey_usage] at hfound
  cases found with
  | none => exact nomatch h
  | some key =>
      obtain rfl := Except.ok.inj h
      exact raised_ok hfound

/-- The innermost token of a message: the message itself where it is signed
    only, or what an encrypted message contains, opened with the server's key. -/
inductive Innermost (rt : Runtime) (kk : KEMKeysStore) (msg : Json)
    (header : List (PyStr × Json)) (data : Str) : Prop where
  | signed (h : rt.jose.parseToken msg = .ok (.jws header data))
  | nested (outer : Str) (keys : Jwk × Jwk) (h : rt.jose.parseToken msg = .ok (.jwe outer))
      (hkeys : kk.serverKeyPair rt = .ok keys)
      (hopen : rt.jose.decrypt outer keys.2 = .ok (header, data))

/-- The claims of a message: the payload of its innermost token, verified under
    the key stored for the key identifier of that token. -/
inductive VerifiedClaims (rt : Runtime) (kk : KEMKeysStore) (msg : Json) : Json → Prop where
  | intro (header : List (PyStr × Json)) (data : Str) (kid : Json) (pubkey : Str) (key : Jwk)
      (claims : Json) (hinner : Innermost rt kk msg header data)
      (hkid : Json.lookup header "kid" = some kid)
      (hstored : kk.storeGet (("kemkeys/sig/" : Str) ++ fmt rt kid) = .ok (some pubkey))
      (hkey : rt.jose.jwk pubkey = .ok key) (hverified : rt.jose.verify data key = .ok claims) :
      VerifiedClaims rt kk msg claims

variable {rt : Runtime} {kk : KEMKeysStore} {msg claims : Json} {name : Str}

/-- A message has one innermost token at most. -/
theorem innermost_unique {header header' : List (PyStr × Json)} {data data' : Str}
    (h : Innermost rt kk msg header data) (h' : Innermost rt kk msg header' data') :
    header = header' ∧ data = data' := by
  cases h with
  | signed h =>
      cases h' with
      | signed h' => exact Token.jws.inj (Except.ok.inj (h.symm.trans h'))
      | nested outer' keys' h' => exact nomatch Except.ok.inj (h.symm.trans h')
  | nested outer keys h hkeys hopen =>
      cases h' with
      | signed h' => exact nomatch Except.ok.inj (h.symm.trans h')
      | nested outer' keys' h' hkeys' hopen' =>
          obtain rfl := Token.jwe.inj (Except.ok.inj (h.symm.trans h'))
          obtain rfl := Except.ok.inj (hkeys.symm.trans hkeys')
          exact Prod.mk.inj (Except.ok.inj (hopen.symm.trans hopen'))

/-- A message has only one payload. -/
theorem verifiedClaims_unique {claims' : Json} (h : VerifiedClaims rt kk msg claims)
    (h' : VerifiedClaims rt kk msg claims') : claims = claims' := by
  obtain ⟨header, data, kid, pubkey, key, _, hinner, hkid, hstored, hkey, hverified⟩ := h
  obtain ⟨header', data', kid', pubkey', key', _, hinner', hkid', hstored', hkey', hverified'⟩ := h'
  obtain ⟨rfl, rfl⟩ := innermost_unique hinner hinner'
  obtain rfl := Option.some.inj (hkid.symm.trans hkid')
  obtain rfl := Option.some.inj (Except.ok.inj (hstored.symm.trans hstored'))
  obtain rfl := Except.ok.inj (hkey.symm.trans hkey')
  exact Except.ok.inj (hverified.symm.trans hverified')

/-- A key that is found for a header was stored for the identifier in it. -/
theorem getKey_ok {header : List (PyStr × Json)} {usage : KeyUsage} {key : Jwk}
    (h : getKey rt kk header usage = .ok key) :
    ∃ kid pubkey, Json.lookup header "kid" = some kid
      ∧ kk.storeGet (("kemkeys/" : Str) ++ usage.name ++ slash :: fmt rt kid) = .ok (some pubkey)
      ∧ rt.jose.jwk pubkey = .ok key := by
  rw [getKey] at h
  cases hkid : Json.lookup header "kid" with
  | none =>
      rw [hkid] at h
      exact nomatch h
  | some kid =>
      rw [hkid] at h
      obtain ⟨pubkey, hfound, hkey⟩ := bind_ok h
      exact ⟨kid, pubkey, rfl, findKey_ok hfound, raised_ok hkey⟩

/-- What `KEMHandler.parse` does with an innermost token. -/
theorem verified_of_innermost {header : List (PyStr × Json)} {data : Str} {encKey : Jwk}
    (hinner : Innermost rt kk msg header data)
    (h : (do
      let sigKey ← getKey rt kk header .sig
      let encKey ← getKey rt kk header .enc
      return (← raised (rt.jose.verify data sigKey), encKey) : Except Exc (Json × Jwk))
        = .ok (claims, encKey)) : VerifiedClaims rt kk msg claims := by
  obtain ⟨sigKey, hsig, h⟩ := bind_ok h
  obtain ⟨encKey', -, h⟩ := bind_ok h
  obtain ⟨claims', hverified, h⟩ := bind_ok h
  obtain ⟨rfl, -⟩ := Prod.mk.inj (Except.ok.inj h)
  obtain ⟨kid, pubkey, hkid, hstored, hkey⟩ := getKey_ok hsig
  exact .intro header data kid pubkey sigKey _ hinner hkid hstored hkey (raised_ok hverified)

/-- **What is validated is verified** under the key of its own identifier. -/
theorem validate_ok {token : Token} {encKey : Jwk} (htoken : rt.jose.parseToken msg = .ok token)
    (h : validate rt kk token = .ok (claims, encKey)) : VerifiedClaims rt kk msg claims := by
  cases token with
  | jwe outer =>
      obtain ⟨keys, hkeys, h⟩ := bind_ok h
      obtain ⟨⟨header, data⟩, hopen, h⟩ := bind_ok h
      exact verified_of_innermost (.nested outer keys htoken hkeys (raised_ok hopen)) h
  | jws header data => exact verified_of_innermost (.signed htoken) h
  | other => exact nomatch h

/-! ## The checks of the claims -/

/-- A claim of a dictionary is the value under its name. -/
theorem claim_obj (fields : List (PyStr × Json)) (field : Str) :
    claim (.obj fields) field = .ok (Json.lookup fields field) := rfl

/-- Only an object has fields. -/
theorem claim_some {field : Str} {value : Json} (h : claim claims field = .ok (some value)) :
    ∃ fields, claims = .obj fields ∧ Json.lookup fields field = some value := by
  cases claims with
  | obj fields => exact ⟨fields, rfl, Except.ok.inj h⟩
  | str s =>
      cases s with
      | text s =>
          unfold claim at h
          simp only at h
          split_ifs at h
          exact nomatch h
      | broken units => exact nomatch h
  | arr items =>
      unfold claim at h
      simp only at h
      split_ifs at h
      exact nomatch h
  | null => exact nomatch h
  | bool b => exact nomatch h
  | int n => exact nomatch h
  | float x => exact nomatch h

/-- The expiration time passes both comparisons. -/
def Unexpired (rt : Runtime) (x : PyNumber) : Prop :=
  (x.minus (10 * 60)).gt rt.now = false ∧ x.lt rt.now = false

/-- **Which claims pass the checks**: those that name the request and have an
    expiration time, which neither comparison takes for too late or too early. -/
theorem checkKemClaims_ok :
    checkKemClaims rt claims name = .ok () ↔
      ∃ fields exp x, claims = .obj fields ∧ Json.lookup fields "sub" = some (.ofText name)
        ∧ Json.lookup fields "exp" = some exp ∧ exp.number? = some x ∧ Unexpired rt x := by
  constructor
  · intro h
    obtain ⟨found, hsub, h⟩ := bind_ok h
    cases found with
    | none => cases h
    | some sub =>
        simp only at h
        split_ifs at h with hname
        obtain ⟨found, hexp, h⟩ := bind_ok h
        cases found with
        | none => cases h
        | some exp =>
            simp only at h
            cases hnumber : exp.number? with
            | none =>
                rw [hnumber] at h
                cases h
            | some x =>
                rw [hnumber] at h
                simp only at h
                split_ifs at h with hfuture hpast
                obtain ⟨fields, rfl, hfield⟩ := claim_some hsub
                rw [Json.isText_iff.mp (Bool.eq_true_of_not_eq_false hname)] at hfield
                exact ⟨fields, exp, x, rfl, hfield, Except.ok.inj hexp, hnumber,
                  Bool.eq_false_of_not_eq_true hfuture, Bool.eq_false_of_not_eq_true hpast⟩
  · rintro ⟨fields, exp, x, rfl, hsub, hexp, hnumber, hfuture, hpast⟩
    have hname : (Json.ofText name).isText name = true := Json.isText_iff.mpr rfl
    show (claim (.obj fields) "sub" >>= _) = _
    rw [claim_obj, hsub]
    show (if (Json.ofText name).isText name = false then _ else _ : Except Exc Unit) = _
    rw [if_neg (by rw [hname]; exact Bool.true_eq_false_eq_False.elim)]
    show (claim (.obj fields) "exp" >>= _) = _
    rw [claim_obj, hexp]
    simp only [bind, Except.bind, hnumber]
    show (if (x.minus (10 * 60)).gt rt.now = true then _ else _ : Except Exc Unit) = _
    rw [hfuture, if_neg Bool.false_ne_true, hpast, if_neg Bool.false_ne_true]

/-- The number is a time of the ten minutes to come. -/
def Timely (now : Int) (x : PyNumber) : Prop :=
  ∃ q : ℚ, x.exact = .finite q ∧ (now : ℚ) ≤ q ∧ q ≤ now + 600

/-- A float that is no time of these minutes, and is told so by neither
    comparison: NaN, or a later one that the subtraction rounds down to the
    clock. -/
inductive Slips (now : Int) : PyFloat → Prop where
  | nan : Slips now .nan
  | rounded (q : ℚ) (hlate : (now : ℚ) + 600 < q) (hround : Doubles.round (q - 600) ≤ now) :
      Slips now (.finite q)

/-- An expiry that slips through is not timely. -/
theorem not_timely_of_slips {now : Int} {x : PyFloat} (h : Slips now x) :
    ¬ Timely now (.float x) := by
  rintro ⟨q, hq, -, hupper⟩
  cases h with
  | nan => cases hq
  | rounded q' hlate hround =>
      obtain rfl : q' = q := PyFloat.finite.inj hq
      exact absurd hupper (not_le.mpr hlate)

/-- With a clock that is itself a double, and not before the epoch, only NaN
    slips through. -/
theorem slips_eq_nan {now : Int} (hpast : 0 ≤ now) (hbits : now < 2 ^ 53) {x : PyFloat}
    (hdouble : ∀ q, x = .finite q → Doubles.IsDouble q) (h : Slips now x) : x = .nan := by
  cases h with
  | nan => rfl
  | rounded q hlate hround =>
      have hten : ((8 * 75 : Int) : ℚ) = 600 := by norm_num
      have hlater := Doubles.lt_round_sub (k := 75) (hdouble q rfl) hpast hbits (by norm_num)
        (by rw [hten]; exact hlate)
      rw [hten] at hlater
      exact absurd hround (not_le.mpr hlater)

/-- With a clock of more bits another float does. -/
example : Slips (2 ^ 60 - 620) (.finite (2 ^ 60)) := .rounded _ (by norm_num) (by decide +kernel)

/-- An integer passes within ten minutes of the clock. -/
theorem unexpired_int (n : Int) :
    Unexpired rt (.int n) ↔ (rt.now : ℚ) ≤ n ∧ (n : ℚ) ≤ rt.now + 600 := by
  show decide ((rt.now : ℚ) < ((n - 10 * 60 : Int) : ℚ)) = false
    ∧ decide ((n : ℚ) < rt.now) = false ↔ _
  simp only [decide_eq_false_iff_not, not_lt]
  push_cast
  constructor
  · rintro ⟨hfuture, hpast⟩
    exact ⟨hpast, by linarith⟩
  · rintro ⟨hpast, hfuture⟩
    exact ⟨by linarith, hpast⟩

/-- And yet it passes the check. -/
theorem unexpired_of_slips {x : PyFloat} (h : Slips rt.now x) : Unexpired rt (.float x) := by
  cases h with
  | nan => exact ⟨rfl, rfl⟩
  | rounded q hlate hround =>
      have hten : ((10 * 60 : Int) : ℚ) = 600 := by norm_num
      constructor
      · refine decide_eq_false (not_lt.mpr ?_)
        rw [hten]
        exact hround
      · exact decide_eq_false (by linarith)

/-- **What passes the two comparisons**: a time of the ten minutes, or a float
    that slips through. An infinite time is too far in the future, or has
    passed. -/
theorem unexpired_cases {x : PyNumber} (h : Unexpired rt x) :
    Timely rt.now x ∨ ∃ y, x = .float y ∧ Slips rt.now y := by
  cases x with
  | int n => exact Or.inl ⟨n, rfl, (unexpired_int n).mp h⟩
  | float y =>
      obtain ⟨hfuture, hpast⟩ := h
      cases y with
      | nan => exact Or.inr ⟨.nan, rfl, .nan⟩
      | inf negative =>
          cases negative with
          | true => cases hpast
          | false => cases hfuture
      | finite q =>
          have hlow : (rt.now : ℚ) ≤ q := not_lt.mp (of_decide_eq_false hpast)
          rcases le_or_gt q ((rt.now : ℚ) + 600) with hhigh | hlate
          · exact Or.inl ⟨q, rfl, hlow, hhigh⟩
          · have hten : ((10 * 60 : Int) : ℚ) = 600 := by norm_num
            have hround := not_lt.mp (of_decide_eq_false hfuture)
            rw [hten] at hround
            exact Or.inr ⟨_, rfl, .rounded q hlate hround⟩

/-! ## Acceptance -/

/-- The expiration time is a number of the ten minutes to come. -/
def InWindow (now : Int) (exp : Json) : Prop := ∃ x, exp.number? = some x ∧ Timely now x

/-- What an accepted message promises: its claims are verified under the key
    registered for its identifier, they name the request, and their expiration
    time lies in the ten minutes from now. -/
inductive Reliable (rt : Runtime) (kkstore : Option KEMKeysStore) (msg : Json) (name : Str) :
    Prop where
  | intro (kk : KEMKeysStore) (fields : List (PyStr × Json)) (exp : Json)
      (hstore : kkstore = some kk) (hverified : VerifiedClaims rt kk msg (.obj fields))
      (hsub : Json.lookup fields "sub" = some (.ofText name))
      (hexp : Json.lookup fields "exp" = some exp) (hwindow : InWindow rt.now exp)

/-- The message can be validated, with claims that name the request and whose
    expiration time slips through. Exactly these messages are accepted without
    being reliable. -/
inductive ExpiresUnnoticed (rt : Runtime) (kkstore : Option KEMKeysStore) (msg : Json)
    (name : Str) : Prop where
  | intro (kk : KEMKeysStore) (token : Token) (fields : List (PyStr × Json)) (encKey : Jwk)
      (hstore : kkstore = some kk) (htoken : rt.jose.parseToken msg = .ok token)
      (hvalid : validate rt kk token = .ok (.obj fields, encKey))
      (hsub : Json.lookup fields "sub" = some (.ofText name))
      (x : PyFloat) (hexp : Json.lookup fields "exp" = some (.float x)) (hslips : Slips rt.now x)

variable {kkstore : Option KEMKeysStore}

/-- The ways a message is accepted. -/
theorem kemParse_ok {handler : Handler} (h : kemParse rt kkstore msg name = .ok handler) :
    ∃ kk token claims encKey, kkstore = some kk ∧ rt.jose.parseToken msg = .ok token
      ∧ validate rt kk token = .ok (claims, encKey) ∧ checkKemClaims rt claims name = .ok ()
      ∧ handler = .kemHandler name (claimValue claims) kk encKey := by
  unfold kemParse at h
  cases kkstore with
  | none => exact nomatch h
  | some kk =>
      simp only at h
      cases htoken : raised (rt.jose.parseToken msg) with
      | error e =>
          rw [htoken] at h
          exact nomatch h
      | ok token =>
          rw [htoken] at h
          simp only at h
          cases hvalid : validate rt kk token with
          | error e =>
              rw [hvalid] at h
              exact nomatch h
          | ok found =>
              obtain ⟨claims, encKey⟩ := found
              rw [hvalid] at h
              obtain ⟨u, hcheck, h⟩ := bind_ok h
              exact ⟨kk, token, claims, encKey, rfl, raised_ok htoken, hvalid, hcheck,
                (Except.ok.inj h).symm⟩

/-- A token that is validated is parsed exactly if its claims pass the checks. -/
theorem kemParse_of (name : Str) {token : Token} {encKey : Jwk}
    (htoken : rt.jose.parseToken msg = .ok token)
    (hvalid : validate rt kk token = .ok (claims, encKey)) :
    kemParse rt (some kk) msg name = (checkKemClaims rt claims name).map
      (fun _ => .kemHandler name (claimValue claims) kk encKey) := by
  rw [kemParse]
  have hraised : raised (rt.jose.parseToken msg) = .ok token := by
    rw [htoken]
    rfl
  simp only [hraised, hvalid]
  cases checkKemClaims rt claims name <;> rfl

/-- **HEADLINE — when acceptance is sound.** Whatever is accepted was
    verified, names the request and expires within ten minutes, if and only if
    the message does not expire at a float that slips through. -/
theorem acceptance_sound_iff (rt : Runtime) (kkstore : Option KEMKeysStore) (msg : Json)
    (name : Str) :
    (∀ handler, kemParse rt kkstore msg name = .ok handler → Reliable rt kkstore msg name)
      ↔ ¬ ExpiresUnnoticed rt kkstore msg name := by
  constructor
  · rintro hsound ⟨kk, token, fields, encKey, rfl, htoken, hvalid, hsub, x, hexp, hslips⟩
    have hcheck : checkKemClaims rt (.obj fields) name = .ok () :=
      checkKemClaims_ok.mpr ⟨fields, _, .float x, rfl, hsub, hexp, rfl, unexpired_of_slips hslips⟩
    have haccepted := kemParse_of name htoken hvalid
    rw [hcheck] at haccepted
    obtain ⟨kk', fields', exp, hstore, hverified, -, hexp', y, hy, htimely⟩ := hsound _ haccepted
    obtain rfl := Option.some.inj hstore
    -- a message has one payload, and its time is not in the window
    obtain rfl := Json.obj.inj (verifiedClaims_unique (validate_ok htoken hvalid) hverified)
    obtain rfl := Option.some.inj (hexp.symm.trans hexp')
    obtain rfl := Option.some.inj hy
    exact not_timely_of_slips hslips htimely
  · intro hnoticed handler h
    obtain ⟨kk, token, claims, encKey, rfl, htoken, hvalid, hcheck, -⟩ := kemParse_ok h
    obtain ⟨fields, exp, x, rfl, hsub, hexp, hnumber, hlive⟩ := checkKemClaims_ok.mp hcheck
    refine .intro kk fields exp rfl (validate_ok htoken hvalid) hsub hexp ?_
    rcases unexpired_cases hlive with htimely | ⟨y, rfl, hslips⟩
    · exact ⟨x, hnumber, htimely⟩
    · -- only a float slips through
      have hfloat : exp = .float y := by
        cases exp with
        | float x => exact congrArg Json.float (PyNumber.float.inj (Option.some.inj hnumber))
        | null => cases hnumber
        | bool b => cases hnumber
        | int n => cases hnumber
        | str s => cases hnumber
        | arr items => cases hnumber
        | obj fields => cases hnumber
      rw [hfloat] at hexp
      exact absurd (.intro kk token fields encKey rfl htoken hvalid hsub y hexp hslips) hnoticed

/-! ### A message that expires at NaN -/

/-- The claims of a message for one secret, as `{"sub": "u/k", "exp": NaN}` is
    decoded. -/
def nanClaims : List (PyStr × Json) :=
  [(.text "sub", .ofText "u/k"), (.text "exp", .float .nan)]

/-- One signed token is known, and one key. -/
def nanRuntime : Runtime :=
  { (default : Runtime) with
    now := 1000
    jose :=
      { (default : Jose) with
        parseToken := fun msg =>
          if msg.isText "token" = true then .ok (.jws [(.text "kid", .ofText "c")] "data")
          else .error ⟨.valueError, "Token format unrecognized"⟩
        jwk := fun _ => .ok ⟨"RSA", .ofText "c", .null⟩
        verify := fun data _ =>
          if data = "data".toList then .ok (.obj nanClaims)
          else .error ⟨.other, "Verification failed"⟩ } }

/-- One client is registered. -/
def oneClient : KEMKeysStore :=
  { storeGet := fun key =>
      .ok (if key = "kemkeys/sig/c".toList ∨ key = "kemkeys/enc/c".toList then some "{}" else none)
    serverKeys := none
    signingAlgorithm := none }

/-- **NaN never expires**: the message is accepted, and its expiration time is
    not a time. -/
theorem nan_accepted :
    (∃ handler, kemParse nanRuntime (some oneClient) (.ofText "token") "u/k" = .ok handler)
      ∧ ¬ Reliable nanRuntime (some oneClient) (.ofText "token") "u/k" := by
  have hverified : VerifiedClaims nanRuntime oneClient (.ofText "token") (.obj nanClaims) :=
    .intro _ _ (.ofText "c") "{}" ⟨"RSA", .ofText "c", .null⟩ _ (.signed rfl) rfl rfl rfl rfl
  refine ⟨⟨_, rfl⟩, ?_⟩
  rintro ⟨kk, fields, exp, hstore, hclaims, -, hexp, x, hx, htimely⟩
  obtain rfl := Option.some.inj hstore
  obtain rfl := Json.obj.inj (verifiedClaims_unique hverified hclaims)
  obtain rfl := Option.some.inj (show some (Json.float .nan) = some exp from hexp)
  obtain rfl := Option.some.inj hx
  exact not_timely_of_slips .nan htimely

end KemProofs
