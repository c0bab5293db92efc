import Custodia.EncryptedStores

/-! # PinningProofs — moved rows are noticed

    Secrets are set through the overlay, in any modes, and whoever holds the
    database may move, copy, delete and bring back rows. No row is ever made
    that a `set` has not made, so what a pinning `get` returns was set under
    the key it is asked for.

    * `Reached`: the tables that a history can lead to;
    * `genuine_of_reached`: where every row comes from;
    * `pinned_get`: what `get` returns. -/

namespace PinningProofs

open Interaction PosixPath PyValues SqliteStore SecretsConsumer EncryptedStores
open EncryptedStores.StorePlugin

/-! ## Histories -/

/-- A call of `set` on an overlay with the shared master key: the encryption,
    the pin and the randomness of the overlay that makes it, and the arguments
    of the call. -/
structure SetCall where
  enctype : Str
  protection : Option Str
  nonce : Nat
  key : Str
  value : Json
  replace : Bool

variable (jwe : Jwe)

/-- The call on a table. -/
def SetCall.run (c : SetCall) (t : Table) : Except Exc Unit × Table :=
  (overlaySet jwe c.enctype c.protection c.nonce c.key c.value c.replace).run exec t

/-- The `get` of an overlay on a table. -/
def getOn (enctype : Str) (protection : Option Str) (nonce : Nat) (key : Str) (t : Table) :
    Except Exc SqlValue :=
  ((encryptedOverlay jwe enctype protection nonce (.get key)).run exec t).1

/-- A history: the calls of `set` that succeeded, the tables so far, and the
    table now. Rows may be rearranged at any time: every row of the new table
    was somewhere in some table before. -/
inductive Reached : List SetCall → List Table → Table → Prop where
  | empty : Reached [] [] ∅
  | set {calls past t} (c : SetCall) (h : Reached calls past t)
      (hok : (c.run jwe t).1 = .ok ()) : Reached (c :: calls) (t :: past) (c.run jwe t).2
  | refused {calls past t} (c : SetCall) (e : Exc) (h : Reached calls past t)
      (herror : (c.run jwe t).1 = .error e) : Reached calls (t :: past) (c.run jwe t).2
  | span {calls past t} (key : Str) (h : Reached calls past t) :
      Reached calls (t :: past) (exec (.span key) t).2
  | rearranged {calls past t} (t' : Table) (h : Reached calls past t)
      (hrows : ∀ key row, t'.lookup key = some row →
        ∃ s ∈ t :: past, ∃ key', s.lookup key' = some row) : Reached calls (t :: past) t'

/-! ## Where rows come from -/

/-- The row is that of a container, or the token of one of the calls. It says
    nothing of the key under which the row is found, as rows may have been moved
    since. -/
inductive Genuine (calls : List SetCall) : SqlValue → Prop where
  | container : Genuine calls (.text [])
  | token (c : SetCall) (token : Str) (hmem : c ∈ calls)
      (hseal : jwe.encrypt (.obj (overlayHeader c.enctype c.protection c.key)) c.value c.nonce
        = .ok token) : Genuine calls (.text token)

variable {jwe} {calls : List SetCall} {past : List Table} {t : Table}

/-- What some call has sealed was sealed by one of more calls. -/
theorem Genuine.mono {row : SqlValue} (h : Genuine jwe calls row) (c : SetCall) :
    Genuine jwe (c :: calls) row := by
  cases h with
  | container => exact .container
  | token c' token hmem hseal => exact .token c' token (List.mem_cons_of_mem c hmem) hseal

/-- All rows of a table are genuine. -/
def AllGenuine (jwe : Jwe) (calls : List SetCall) (t : Table) : Prop :=
  ∀ key row, t.lookup key = some row → Genuine jwe calls row

/-- A genuine row keeps the table genuine. -/
theorem allGenuine_insert {key : Str} {row : SqlValue} (h : AllGenuine jwe calls t)
    (hrow : Genuine jwe calls row) : AllGenuine jwe calls (t.insert key row) := by
  intro k r hlook
  by_cases hk : k = key
  · subst hk
    rw [AList.lookup_insert] at hlook
    obtain rfl := Option.some.inj hlook
    exact hrow
  · rw [AList.lookup_insert_ne hk] at hlook
    exact h k r hlook

/-- A `set` of a text stores it, or fails and changes nothing. -/
theorem exec_set_text (key token : Str) (replace : Bool) (t : Table) :
    exec (.set key (.ofText token) replace) t = (.ok (), t.insert key (.text token))
    ∨ ∃ e, exec (.set key (.ofText token) replace) t = (.error e, t) := by
  cases hslash : endsInSlash key with
  | true => exact Or.inr ⟨_, if_pos hslash⟩
  | false =>
      rw [exec, if_neg (by rw [hslash]; exact Bool.false_ne_true), bindValue_ofText]
      by_cases hmem : replace = false ∧ key ∈ t
      · exact Or.inr ⟨_, if_pos hmem⟩
      · exact Or.inl (if_neg hmem)

/-- **What a `set` does**: it stores a fresh token, or fails and changes
    nothing. -/
theorem run_cases (c : SetCall) (t : Table) :
    (∃ token, jwe.encrypt (.obj (overlayHeader c.enctype c.protection c.key)) c.value c.nonce
        = .ok token ∧ c.run jwe t = (.ok (), t.insert c.key (.text token)))
    ∨ ∃ e, c.run jwe t = (.error e, t) := by
  unfold SetCall.run overlaySet
  cases hseal : jwe.encrypt (.obj (overlayHeader c.enctype c.protection c.key)) c.value c.nonce with
  | error f => exact Or.inr ⟨_, rfl⟩
  | ok token =>
      show (∃ token', Except.ok token = Except.ok token' ∧
          (Prog.perform (Call.set c.key (.ofText token) c.replace)).run exec t = _)
        ∨ ∃ e, (Prog.perform (Call.set c.key (.ofText token) c.replace)).run exec t = _
      rw [Prog.run_perform]
      rcases exec_set_text c.key token c.replace t with hset | ⟨e, hset⟩
      · exact Or.inl ⟨token, rfl, hset⟩
      · exact Or.inr ⟨e, hset⟩

/-- **No row is made but by `set` and `span`**, whatever is rearranged. -/
theorem genuine_of_reached (h : Reached jwe calls past t) :
    ∀ s ∈ t :: past, AllGenuine jwe calls s := by
  induction h with
  | empty =>
      intro s hs key row hlook
      obtain rfl := List.mem_singleton.mp hs
      rw [AList.lookup_empty] at hlook
      exact nomatch hlook
  | @set calls past t c h hok ih =>
      have hold : ∀ s ∈ t :: past, AllGenuine jwe (c :: calls) s :=
        fun s hs key row hlook => (ih s hs key row hlook).mono c
      intro s hs
      rcases List.mem_cons.mp hs with rfl | hs
      · rcases run_cases c t with ⟨token, hseal, hrun⟩ | ⟨e, hrun⟩
        · rw [hrun]
          exact allGenuine_insert (hold t List.mem_cons_self)
            (.token c token List.mem_cons_self hseal)
        · rw [hrun] at hok
          exact nomatch hok
      · exact hold s hs
  | @refused calls past t c e h herror ih =>
      intro s hs
      rcases List.mem_cons.mp hs with rfl | hs
      · rcases run_cases c t with ⟨token, -, hrun⟩ | ⟨e', hrun⟩
        · rw [hrun] at herror
          exact nomatch herror
        · rw [hrun]
          exact ih t List.mem_cons_self
      · exact ih s hs
  | @span calls past t key h ih =>
      intro s hs
      rcases List.mem_cons.mp hs with rfl | hs
      · by_cases hmem : rstrip key ∈ t
        · rw [exec_span_mem hmem]
          exact ih t List.mem_cons_self
        · rw [exec_span_not_mem hmem]
          exact allGenuine_insert (ih t List.mem_cons_self) .container
      · exact ih s hs
  | @rearranged calls past t t' h hrows ih =>
      intro s hs
      rcases List.mem_cons.mp hs with rfl | hs
      · -- a row is as genuine as it was in the table it was taken from
        intro key row hlook
        obtain ⟨s', hs', key', hlook'⟩ := hrows key row hlook
        exact ih s' hs' key' row hlook'
      · exact ih s hs

/-! ## What a pinning `get` returns -/

/-- The value was set under the key with its pin. -/
def SetPinned (calls : List SetCall) (key s : Str) : Prop :=
  ∃ c ∈ calls, c.key = key ∧ c.value = .ofText s ∧ c.protection ≠ some "encrypt".toList

/-- Opening a genuine row gives a value pinned to the key, or a `CSStoreError`. -/
theorem openToken_genuine
    (hideal : ∀ enctype protection key, Opens jwe (overlayHeader enctype protection key))
    {row : SqlValue} (hrow : Genuine jwe calls row) (key : Str) :
    (∃ text, openToken jwe (some "pinning".toList) key row = .error (.py .csStoreError text))
    ∨ ∃ s, openToken jwe (some "pinning".toList) key row = .ok (.text s)
        ∧ SetPinned calls key s := by
  cases hrow with
  | container => exact Or.inl ⟨_, openToken_empty (hideal [] none []).empty⟩
  | token c token hmem hseal =>
      obtain ⟨s, found, hvalue, hopen, hpin⟩ :=
        (hideal c.enctype c.protection c.key).opens c.value c.nonce token hseal
      rw [openToken, if_neg (by simp), hopen]
      simp only [if_neg (show ¬ some "pinning".toList = some "encrypt".toList by decide)]
      by_cases hmode : c.protection = some "encrypt".toList
      · -- a legacy token has no pin
        have hnone : Json.lookup found "custodia.key" = none := by
          rw [hpin, overlayHeader, if_pos hmode]
          rfl
        rw [hnone]
        exact Or.inl ⟨_, rfl⟩
      · have hsome : Json.lookup found "custodia.key" = some (.ofText c.key) := by
          rw [hpin, overlayHeader, if_neg hmode]
          rfl
        rw [hsome]
        by_cases hkey : c.key = key
        · -- the row is where it was put
          refine Or.inr ⟨s, if_pos ?_, c, hmem, hkey, hvalue, hmode⟩
          rw [hkey]
          exact Json.isText_iff.mpr rfl
        · refine Or.inl ⟨_, if_neg ?_⟩
          intro hpinned
          exact hkey (PyStr.text.inj (Json.str.inj (Json.isText_iff.mp hpinned)))

/-- A `get` that does not migrate opens the row of its key. -/
theorem getOn_eq {enctype : Str} {protection : Option Str} {nonce : Nat} {key : Str}
    (hmode : protection ≠ some "migrate".toList) (t : Table) :
    getOn jwe enctype protection nonce key t
      = openToken jwe protection key ((t.lookup key).getD .null) := by
  show ((overlayOpen jwe enctype protection nonce key ((t.lookup key).getD .null)).run exec t).1 = _
  rw [overlayOpen_eq hmode, Prog.run_ofExcept]

/-- **HEADLINE — pinning stops key swapping.** After any history, a pinning
    `get` returns `None`, raises `CSStoreError`, or returns a value that was
    set under this key with its pin. -/
theorem pinned_get
    (hideal : ∀ enctype protection key, Opens jwe (overlayHeader enctype protection key))
    (h : Reached jwe calls past t) (enctype : Str) (nonce : Nat) (key : Str) :
    getOn jwe enctype (some "pinning".toList) nonce key t = .ok .null
    ∨ (∃ text, getOn jwe enctype (some "pinning".toList) nonce key t
        = .error (.py .csStoreError text))
    ∨ ∃ s, getOn jwe enctype (some "pinning".toList) nonce key t = .ok (.text s)
        ∧ SetPinned calls key s := by
  rw [getOn_eq (by decide)]
  cases hlook : t.lookup key with
  | none => exact Or.inl rfl
  | some row =>
      exact Or.inr (openToken_genuine hideal
        (genuine_of_reached h t List.mem_cons_self key row hlook) key)

/-! ### A swap -/

/-- Tokens in the clear: `u` starts one without a pin; a pinned one spells the
    length of its key first. -/
def spelledJwe : Jwe where
  encrypt := fun header value _ =>
    match header, value with
    | .obj fields, .str (.text s) =>
        match Json.lookup fields "custodia.key" with
        | none => .ok ('u' :: s)
        | some (.str (.text key)) =>
            .ok (List.replicate key.length 'p' ++ '.' :: (key ++ s))
        | _ => .error ⟨.typeError, "unexpected pin"⟩
    | _, _ => .error ⟨.typeError, "plaintext must be a string"⟩
  decrypt := fun value =>
    match value with
    | .text (c :: s) =>
        if c = 'u' then .ok (s, [])
        else
          let n := ((c :: s).takeWhile (fun c => decide (c = 'p'))).length
          let rest := (c :: s).drop (n + 1)
          .ok (rest.drop n, [(.text "custodia.key", .ofText (rest.take n))])
    | _ => .error ⟨.other, "Invalid format"⟩
  str := fun _ => []

/-- The cipher of the demonstration opens a token to its text and its header. -/
theorem decrypt_pinned (key s : Str) :
    spelledJwe.decrypt (.text (List.replicate key.length 'p' ++ '.' :: (key ++ s)))
      = .ok (s, [(.text "custodia.key", .ofText key)]) := by
  obtain ⟨c, rest, htoken, hc⟩ : ∃ c rest,
      List.replicate key.length 'p' ++ '.' :: (key ++ s) = c :: rest ∧ c ≠ 'u' := by
    cases key with
    | nil => exact ⟨'.', _, rfl, by decide⟩
    | cons k key => exact ⟨'p', _, rfl, by decide⟩
  have hlen : ((c :: rest).takeWhile (fun c => decide (c = 'p'))).length = key.length := by
    rw [← htoken, List.takeWhile_append_of_pos (by
      intro c hc
      rw [List.eq_of_mem_replicate hc]
      rfl)]
    simp
  have hrest : (c :: rest).drop (key.length + 1) = key ++ s := by
    rw [← htoken, List.drop_append]
    simp
  rw [htoken]
  refine (if_neg hc).trans ?_
  show Except.ok (((c :: rest).drop _).drop _, [(_, Json.ofText (((c :: rest).drop _).take _))]) = _
  rw [hlen, hrest, List.drop_left, List.take_left]

/-- The cipher of the demonstration opens whatever it has sealed. -/
theorem spelledJwe_opens (enctype : Str) (protection : Option Str) (key : Str) :
    Opens spelledJwe (overlayHeader enctype protection key) := by
  refine ⟨?_, ⟨_, rfl⟩⟩
  intro value nonce token hseal
  obtain ⟨s, rfl⟩ : ∃ s, value = .ofText s := by
    cases value with
    | str s =>
        cases s with
        | text s => exact ⟨s, rfl⟩
        | broken units => exact nomatch hseal
    | null => exact nomatch hseal
    | bool b => exact nomatch hseal
    | int n => exact nomatch hseal
    | float x => exact nomatch hseal
    | arr items => exact nomatch hseal
    | obj fields => exact nomatch hseal
  by_cases hmode : protection = some "encrypt".toList
  · rw [overlayHeader, if_pos hmode] at hseal ⊢
    obtain rfl : 'u' :: s = token := Except.ok.inj hseal
    exact ⟨s, [], rfl, rfl, rfl⟩
  · rw [overlayHeader, if_neg hmode] at hseal ⊢
    obtain rfl := Except.ok.inj hseal
    exact ⟨s, _, rfl, decrypt_pinned key s, rfl⟩

/-- One key is set in `encrypt` mode, one is pinned. -/
def twoSets : List SetCall :=
  [⟨"A256CBC-HS512", some "pinning".toList, 1, "keys/u/b", .ofText "new", false⟩,
    ⟨"A256CBC-HS512", some "encrypt".toList, 0, "keys/u/a", .ofText "old", false⟩]

/-- The two rows are swapped; the pinned one is still found out. -/
theorem swapped_rows_noticed :
    ∃ past t, Reached spelledJwe twoSets past t
      ∧ t.lookup "keys/u/a".toList = some (.text "pppppppp.keys/u/bnew".toList)
      ∧ (getOn spelledJwe "A256CBC-HS512" (some "pinning".toList) 2 "keys/u/a" t = .ok .null
        ∨ (∃ text, getOn spelledJwe "A256CBC-HS512" (some "pinning".toList) 2 "keys/u/a" t
            = .error (.py .csStoreError text))
        ∨ ∃ s, getOn spelledJwe "A256CBC-HS512" (some "pinning".toList) 2 "keys/u/a" t
            = .ok (.text s) ∧ SetPinned twoSets "keys/u/a" s) := by
  have hone : Reached spelledJwe _ _ _ := Reached.set
    ⟨"A256CBC-HS512", some "encrypt".toList, 0, "keys/u/a", .ofText "old", false⟩ .empty rfl
  have htwo : Reached spelledJwe _ _ _ := Reached.set
    ⟨"A256CBC-HS512", some "pinning".toList, 1, "keys/u/b", .ofText "new", false⟩ hone rfl
  have hswapped := Reached.rearranged
    ((((∅ : Table).insert "keys/u/a".toList (.text "pppppppp.keys/u/bnew".toList))).insert
      "keys/u/b".toList (.text "uold".toList)) htwo (by
    intro key row hlook
    by_cases hb : key = "keys/u/b".toList
    · rw [hb, AList.lookup_insert] at hlook
      exact ⟨_, List.mem_cons_self, "keys/u/a".toList, hlook⟩
    · rw [AList.lookup_insert_ne hb] at hlook
      by_cases ha : key = "keys/u/a".toList
      · rw [ha, AList.lookup_insert] at hlook
        exact ⟨_, List.mem_cons_self, "keys/u/b".toList, hlook⟩
      · rw [AList.lookup_insert_ne ha, AList.lookup_empty] at hlook
        exact nomatch hlook)
  exact ⟨_, _, hswapped, rfl, pinned_get spelledJwe_opens hswapped "A256CBC-HS512" 2 "keys/u/a"⟩

end PinningProofs
