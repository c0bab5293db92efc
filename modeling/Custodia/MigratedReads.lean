import Custodia.PinningProofs

/-! # MigratedReads — secrets that are pinned when they are read

    In the mode `migrate` a `get` that meets a token without a pin writes the
    secret back under a token that pins the key. Here the calls of `get` come
    one after the other, over a table with tokens of every age.

    * `get_cases`: what one migrating `get` answers and writes;
    * `moved_run`: every row is as it was, or pinned, with its secret;
    * `migration_preserves`: what a sequence of calls returns, and what the
      modes `encrypt` and `pinning` return before and after it. -/

namespace MigratedReads

open Interaction PosixPath PyValues SqliteStore SecretsConsumer EncryptedStores
open EncryptedStores.StorePlugin PinningProofs

variable {jwe : Jwe} {enctype : Str} {key s : Str} {row : SqlValue} {t : Table}

/-! ## The rows -/

/-- The row is a token of the master key, with this secret and header. -/
def Token (jwe : Jwe) (row : SqlValue) (s : Str) (header : List (PyStr × Json)) : Prop :=
  row ≠ .null ∧ jwe.decrypt row = .ok (s, header)

/-- A token without a pin. -/
def Unpinned (jwe : Jwe) (row : SqlValue) (s : Str) : Prop :=
  ∃ header, Token jwe row s header ∧ Json.lookup header "custodia.key" = none

/-- A token that is pinned to the key. -/
def PinnedTo (jwe : Jwe) (key : Str) (row : SqlValue) (s : Str) : Prop :=
  ∃ header pinned, Token jwe row s header ∧ Json.lookup header "custodia.key" = some pinned
    ∧ pinned.isText key = true

/-- A token that is pinned to something else. -/
def PinnedAway (jwe : Jwe) (key : Str) (row : SqlValue) : Prop :=
  ∃ s header pinned, Token jwe row s header
    ∧ Json.lookup header "custodia.key" = some pinned ∧ pinned.isText key ≠ true

/-- Every row is a token of the master key. -/
def AllTokens (jwe : Jwe) (t : Table) : Prop :=
  ∀ key row, t.lookup key = some row → ∃ s header, Token jwe row s header

/-- The row of the key is pinned to something else. -/
def Swapped (jwe : Jwe) (t : Table) (key : Str) : Prop :=
  ∃ row, t.lookup key = some row ∧ PinnedAway jwe key row

/-- Every row without a pin has a key that the table accepts. -/
def Writable (jwe : Jwe) (t : Table) : Prop :=
  ∀ key row s, t.lookup key = some row → Unpinned jwe row s → endsInSlash key = false

/-! ## A migrating `get` -/

/-- `EncryptedOverlay.get` in the mode `migrate`. -/
def migratingGet (jwe : Jwe) (enctype : Str) (nonce : Nat) (key : Str) : StoreProg SqlValue :=
  encryptedOverlay jwe enctype (some "migrate".toList) nonce (.get key)

/-- A call of a sequence, with its key and the randomness that a new token would
    be made with. What it finds is up to the calls before it. -/
structure GetCall where
  key : Str
  nonce : Nat

/-- A call that has been made: on which table, what it answered, which calls it
    made on the table, and the table then. -/
structure Made where
  call : GetCall
  before : Table
  answer : Except Exc SqlValue
  issued : List Call
  after : Table

/-- Make one call. -/
def make (jwe : Jwe) (enctype : Str) (call : GetCall) (t : Table) : Made :=
  let prog := migratingGet jwe enctype call.nonce call.key
  ⟨call, t, (prog.run exec t).1, prog.trace exec t, (prog.run exec t).2⟩

/-- Make a sequence of calls. -/
def makeAll (jwe : Jwe) (enctype : Str) : List GetCall → Table → List Made
  | [], _ => []
  | call :: calls, t =>
      make jwe enctype call t :: makeAll jwe enctype calls (make jwe enctype call t).after

/-- The table after a sequence of calls. -/
def tableAfter (jwe : Jwe) (enctype : Str) (calls : List GetCall) (t : Table) : Table :=
  calls.foldl (fun t call => (make jwe enctype call t).after) t

/-- The keys whose rows a call has written. -/
def Made.rewritten (m : Made) : List Str :=
  m.issued.filterMap (fun c => match c with
    | .set key _ _ => some key
    | _ => none)

/-! ## What is to be preserved -/

/-- What a sequence of migrating calls does to the secrets of a table: which
    values are returned, which rows are written again and how often, what can be
    read afterwards, and what is refused. -/
structure Preserves (jwe : Jwe) (enctype : Str) (t : Table) (calls : List GetCall) : Prop where
  answers : ∀ m ∈ makeAll jwe enctype calls t, ¬ Swapped jwe t m.call.key → ∀ nonce,
    m.answer = getOn jwe enctype (some "encrypt".toList) nonce m.call.key t
  rewrites : ∀ m ∈ makeAll jwe enctype calls t,
    (∀ key ∈ m.rewritten, key = m.call.key
      ∧ ∃ row s, m.before.lookup key = some row ∧ Unpinned jwe row s)
    ∧ ∀ key, key ∉ m.rewritten → m.after.lookup key = m.before.lookup key
  once : ((makeAll jwe enctype calls t).flatMap Made.rewritten).Nodup
  pinning : ∀ call ∈ calls, ¬ Swapped jwe t call.key → ∀ nonce nonce',
    getOn jwe enctype (some "pinning".toList) nonce call.key (tableAfter jwe enctype calls t)
      = getOn jwe enctype (some "encrypt".toList) nonce' call.key t
  refused : ∀ m ∈ makeAll jwe enctype calls t, Swapped jwe t m.call.key →
    (∃ text, m.answer = .error (.py .csStoreError text)) ∧ m.rewritten = []
      ∧ (tableAfter jwe enctype calls t).lookup m.call.key = t.lookup m.call.key

/-! ## One call -/

/-- A row is a token for one text and one header at most. -/
theorem token_unique {header header' : List (PyStr × Json)} {s' : Str}
    (h : Token jwe row s header) (h' : Token jwe row s' header') : s = s' ∧ header = header' := by
  have heq := Except.ok.inj (h.2.symm.trans h'.2)
  exact ⟨(Prod.mk.inj heq).1, (Prod.mk.inj heq).2⟩

/-- What `get` makes of a missing row, in any mode. -/
theorem openToken_null (protection : Option Str) (key : Str) :
    openToken jwe protection key .null = .ok .null := if_pos rfl

/-- What `get` makes of a token, in the mode `encrypt`. -/
theorem openToken_encrypt {header : List (PyStr × Json)} (h : Token jwe row s header)
    (key : Str) : openToken jwe (some "encrypt".toList) key row = .ok (.text s) := by
  rw [openToken, if_neg h.1, h.2]
  exact if_pos rfl

/-- A token that is pinned to the key is opened by a store that insists on it. -/
theorem openToken_pinning (h : PinnedTo jwe key row s) :
    openToken jwe (some "pinning".toList) key row = .ok (.text s) := by
  obtain ⟨header, pinned, htoken, hpin, hkey⟩ := h
  rw [openToken, if_neg htoken.1, htoken.2]
  refine (if_neg (by decide)).trans ?_
  rw [hpin]
  exact if_pos hkey

/-- A `get` that writes nothing. -/
theorem overlayOpen_pinned (h : PinnedTo jwe key row s) (nonce : Nat) :
    overlayOpen jwe enctype (some "migrate".toList) nonce key row = .ret (.text s) := by
  obtain ⟨header, pinned, htoken, hpin, hkey⟩ := h
  rw [overlayOpen, if_neg htoken.1, htoken.2]
  refine (if_neg (by decide)).trans ?_
  rw [hpin]
  exact if_pos hkey

/-- A token that is pinned to another key is refused, also while migrating. -/
theorem overlayOpen_pinnedAway (h : PinnedAway jwe key row) (nonce : Nat) :
    ∃ text, overlayOpen jwe enctype (some "migrate".toList) nonce key row
      = .raise (.py .csStoreError text) := by
  obtain ⟨s, header, pinned, htoken, hpin, hkey⟩ := h
  refine ⟨"Secret Pinning check failed!" ++ (" Expected " : Str) ++ key ++ (" got " : Str)
    ++ jwe.str pinned, ?_⟩
  rw [overlayOpen, if_neg htoken.1, htoken.2]
  refine (if_neg (by decide)).trans ?_
  rw [hpin]
  exact if_neg hkey

/-- A `get` that writes the secret back. -/
theorem overlayOpen_unpinned (h : Unpinned jwe row s) {nonce : Nat} {token : Str}
    (hseal : jwe.encrypt (.obj (overlayHeader enctype (some "migrate".toList) key)) (.ofText s)
      nonce = .ok token) :
    overlayOpen jwe enctype (some "migrate".toList) nonce key row
      = .call (.set key (.ofText token) true) (fun (r : Except Exc Unit) =>
        (Prog.ofExcept r).bind (fun _ => .ret (.text s))) := by
  obtain ⟨header, htoken, hpin⟩ := h
  rw [overlayOpen, if_neg htoken.1, htoken.2]
  refine (if_neg (by decide)).trans ?_
  rw [hpin]
  refine (if_pos rfl).trans ?_
  rw [overlaySet, hseal]
  rfl

/-- A fresh token is pinned to its key. -/
theorem pinnedTo_fresh (hopens : Opens jwe (overlayHeader enctype (some "migrate".toList) key))
    {nonce : Nat} {token : Str}
    (hseal : jwe.encrypt (.obj (overlayHeader enctype (some "migrate".toList) key)) (.ofText s)
      nonce = .ok token) : PinnedTo jwe key (.text token) s := by
  obtain ⟨s', found, hs, hopen, hpin⟩ := hopens.opens _ nonce token hseal
  obtain rfl := PyStr.text.inj (Json.str.inj hs)
  refine ⟨found, .ofText key, ⟨by simp, hopen⟩, ?_, Json.isText_iff.mpr rfl⟩
  rw [hpin, overlayHeader, if_neg (by decide)]
  rfl

/-- A token has no pin, or its own, or another one. -/
theorem token_cases {header : List (PyStr × Json)} (h : Token jwe row s header) (key : Str) :
    Unpinned jwe row s ∨ PinnedTo jwe key row s ∨ PinnedAway jwe key row := by
  cases hpin : Json.lookup header "custodia.key" with
  | none => exact Or.inl ⟨header, h, hpin⟩
  | some pinned =>
      by_cases hkey : pinned.isText key = true
      · exact Or.inr (Or.inl ⟨header, pinned, h, hpin, hkey⟩)
      · exact Or.inr (Or.inr ⟨s, header, pinned, h, hpin, hkey⟩)

/-- A row that is pinned to its key is not unpinned. -/
theorem not_unpinned_of_pinnedTo {s' : Str} (h : PinnedTo jwe key row s) :
    ¬ Unpinned jwe row s' := by
  rintro ⟨header', htoken', hnone⟩
  obtain ⟨header, pinned, htoken, hpin, -⟩ := h
  rw [(token_unique htoken htoken').2, hnone] at hpin
  cases hpin

/-- A row that is pinned to another key is not unpinned. -/
theorem not_unpinned_of_pinnedAway (h : PinnedAway jwe key row) : ¬ Unpinned jwe row s := by
  rintro ⟨header', htoken', hnone⟩
  obtain ⟨s', header, pinned, htoken, hpin, -⟩ := h
  rw [(token_unique htoken htoken').2, hnone] at hpin
  cases hpin

/-- A row that is pinned to its key is not pinned to another one. -/
theorem not_pinnedAway_of_pinnedTo (h : PinnedTo jwe key row s) : ¬ PinnedAway jwe key row := by
  rintro ⟨s', header', pinned', htoken', hpin', haway⟩
  obtain ⟨header, pinned, htoken, hpin, hkey⟩ := h
  rw [(token_unique htoken htoken').2, hpin'] at hpin
  obtain rfl := Option.some.inj hpin
  exact haway hkey

/-- What one call does: it finds nothing, or a secret, or a token that is
    pinned away, and changes nothing; or it pins a token that has no pin. -/
inductive Does (jwe : Jwe) (t : Table) : Made → Prop where
  | nothing (call : GetCall) (missing : t.lookup call.key = none) :
      Does jwe t ⟨call, t, .ok .null, [.get call.key], t⟩
  | reads (call : GetCall) (row : SqlValue) (s : Str) (found : t.lookup call.key = some row)
      (pinned : PinnedTo jwe call.key row s) :
      Does jwe t ⟨call, t, .ok (.text s), [.get call.key], t⟩
  | refuses (call : GetCall) (row : SqlValue) (text : Str) (found : t.lookup call.key = some row)
      (away : PinnedAway jwe call.key row) :
      Does jwe t ⟨call, t, .error (.py .csStoreError text), [.get call.key], t⟩
  | pins (call : GetCall) (row : SqlValue) (s token : Str) (found : t.lookup call.key = some row)
      (unpinned : Unpinned jwe row s) (fresh : PinnedTo jwe call.key (.text token) s) :
      Does jwe t ⟨call, t, .ok (.text s), [.get call.key, .set call.key (.ofText token) true],
        t.insert call.key (.text token)⟩

/-- **What a migrating `get` does**: it finds nothing, or returns what it has
    found, or refuses it, or pins it and then returns it. -/
theorem make_does (hopens : ∀ key, Opens jwe (overlayHeader enctype (some "migrate".toList) key))
    (hseals : ∀ key s nonce, ∃ token,
      jwe.encrypt (.obj (overlayHeader enctype (some "migrate".toList) key)) (.ofText s) nonce
        = .ok token)
    (ht : AllTokens jwe t) (hw : Writable jwe t) (call : GetCall) :
    Does jwe t (make jwe enctype call t) := by
  -- after the call of the backing store, on the table as it is
  have hmake : make jwe enctype call t = ⟨call, t,
      ((overlayOpen jwe enctype (some "migrate".toList) call.nonce call.key
        ((t.lookup call.key).getD .null)).run exec t).1,
      .get call.key :: (overlayOpen jwe enctype (some "migrate".toList) call.nonce call.key
        ((t.lookup call.key).getD .null)).trace exec t,
      ((overlayOpen jwe enctype (some "migrate".toList) call.nonce call.key
        ((t.lookup call.key).getD .null)).run exec t).2⟩ := rfl
  rw [hmake]
  cases hrow : t.lookup call.key with
  | none => exact .nothing call hrow
  | some row =>
      rw [Option.getD_some]
      obtain ⟨s, header, htoken⟩ := ht call.key row hrow
      rcases token_cases htoken call.key with hun | hown | haway
      · obtain ⟨token, hseal⟩ := hseals call.key s call.nonce
        have hset : exec (.set call.key (.ofText token) true) t
            = (.ok (), t.insert call.key (.text token)) :=
          exec_set_done (hw call.key row s hrow hun) (bindValue_ofText _ _)
            (fun h => Bool.noConfusion h.1)
        rw [overlayOpen_unpinned hun hseal, Prog.run_call, Prog.trace_call, hset]
        exact .pins call row s token hrow hun (pinnedTo_fresh (hopens call.key) hseal)
      · rw [overlayOpen_pinned hown]
        exact .reads call row s hrow hown
      · obtain ⟨text, hraise⟩ : ∃ text, overlayOpen jwe enctype (some "migrate".toList) call.nonce
            call.key row = .raise (.py .csStoreError text) :=
          overlayOpen_pinnedAway haway call.nonce
        rw [hraise]
        exact .refuses call row text hrow haway

/-! ## A sequence of calls -/

/-- Every row is as it was, or it had no pin and is now pinned, with the same
    secret. -/
def Moved (jwe : Jwe) (t₀ t : Table) : Prop :=
  ∀ key, t.lookup key = t₀.lookup key
    ∨ ∃ row row' s, t₀.lookup key = some row ∧ Unpinned jwe row s
      ∧ t.lookup key = some row' ∧ PinnedTo jwe key row' s

/-- The key has a row without a pin. -/
def Bare (jwe : Jwe) (t : Table) (key : Str) : Prop :=
  ∃ row s, t.lookup key = some row ∧ Unpinned jwe row s

variable {t₀ : Table} {m : Made}

/-- A table that stays as it is has moved nowhere. -/
theorem moved_refl (t : Table) : Moved jwe t t := fun _ => Or.inl rfl

/-- Where all rows are tokens, they are after any migration. -/
theorem Moved.allTokens (h : Moved jwe t₀ t) (ht : AllTokens jwe t₀) : AllTokens jwe t := by
  intro key row hrow
  rcases h key with hsame | ⟨-, row', s, -, -, hrow', hpin⟩
  · exact ht key row (hsame ▸ hrow)
  · obtain rfl := Option.some.inj (hrow'.symm.trans hrow)
    obtain ⟨header, pinned, htoken, -⟩ := hpin
    exact ⟨s, header, htoken⟩

/-- A row that still has no pin is the row it always was. -/
theorem Moved.bare (h : Moved jwe t₀ t) {key : Str} (hbare : Bare jwe t key) :
    t.lookup key = t₀.lookup key := by
  rcases h key with hsame | ⟨-, row', s', -, -, hrow', hpin⟩
  · exact hsame
  · obtain ⟨row, s, hrow, hun⟩ := hbare
    obtain rfl := Option.some.inj (hrow'.symm.trans hrow)
    exact absurd hun (not_unpinned_of_pinnedTo hpin)

/-- What could be written before a migration can be written after it. -/
theorem Moved.writable (h : Moved jwe t₀ t) (hw : Writable jwe t₀) : Writable jwe t := by
  intro key row s hrow hun
  exact hw key row s (h.bare ⟨row, s, hrow, hun⟩ ▸ hrow) hun

/-- **A migration swaps no rows**: what was pinned to another key still is, and
    nothing else. -/
theorem Moved.swapped_iff (h : Moved jwe t₀ t) {key : Str} :
    Swapped jwe t key ↔ Swapped jwe t₀ key := by
  rcases h key with hsame | ⟨row, row', s, hrow, hun, hrow', hpin⟩
  · rw [Swapped, Swapped, hsame]
  · refine iff_of_false ?_ ?_
    · rintro ⟨row'', hrow'', haway⟩
      obtain rfl := Option.some.inj (hrow'.symm.trans hrow'')
      exact not_pinnedAway_of_pinnedTo hpin haway
    · rintro ⟨row'', hrow'', haway⟩
      obtain rfl := Option.some.inj (hrow.symm.trans hrow'')
      exact not_unpinned_of_pinnedAway haway hun

/-- The mode `encrypt` sees no difference. -/
theorem Moved.encrypt_eq (h : Moved jwe t₀ t) (nonce nonce' : Nat) (key : Str) :
    getOn jwe enctype (some "encrypt".toList) nonce key t
      = getOn jwe enctype (some "encrypt".toList) nonce' key t₀ := by
  rw [getOn_eq (by decide), getOn_eq (by decide)]
  rcases h key with hsame | ⟨row, row', s, hrow, ⟨header, htoken, -⟩, hrow', hpin⟩
  · rw [hsame]
  · obtain ⟨header', pinned, htoken', -⟩ := hpin
    rw [hrow, hrow', Option.getD_some, Option.getD_some, openToken_encrypt htoken,
      openToken_encrypt htoken']

/-- One call moves the table on, and only a call for a bare key writes. -/
theorem Does.moved (h : Moved jwe t₀ t) (hd : Does jwe t m) : Moved jwe t₀ m.after := by
  cases hd with
  | nothing call missing => exact h
  | reads call row s found pinned => exact h
  | refuses call row text found away => exact h
  | pins call row s token found unpinned fresh =>
      intro key
      by_cases hkey : key = call.key
      · subst hkey
        exact Or.inr ⟨row, .text token, s, (h.bare ⟨row, s, found, unpinned⟩).symm.trans found,
          unpinned, AList.lookup_insert t, fresh⟩
      · rw [show ((⟨call, t, _, _, t.insert call.key (.text token)⟩ : Made).after).lookup key
          = t.lookup key from AList.lookup_insert_ne hkey]
        exact h key

/-- After a call its key is not bare, and no other key has become so. -/
theorem Does.bare (hd : Does jwe t m) {key : Str} (h : Bare jwe m.after key) :
    Bare jwe t key ∧ key ≠ m.call.key := by
  cases hd with
  | nothing call missing =>
      refine ⟨h, ?_⟩
      rintro rfl
      obtain ⟨row, s, hrow, -⟩ := h
      cases missing.symm.trans hrow
  | reads call row s found pinned =>
      refine ⟨h, ?_⟩
      rintro rfl
      obtain ⟨row', s', hrow, hun⟩ := h
      obtain rfl := Option.some.inj (found.symm.trans hrow)
      exact not_unpinned_of_pinnedTo pinned hun
  | refuses call row text found away =>
      refine ⟨h, ?_⟩
      rintro rfl
      obtain ⟨row', s', hrow, hun⟩ := h
      obtain rfl := Option.some.inj (found.symm.trans hrow)
      exact not_unpinned_of_pinnedAway away hun
  | pins call row s token found unpinned fresh =>
      obtain ⟨row', s', hrow, hun⟩ := h
      by_cases hkey : key = call.key
      · subst hkey
        obtain rfl := Option.some.inj ((AList.lookup_insert t).symm.trans hrow)
        exact absurd hun (not_unpinned_of_pinnedTo fresh)
      · exact ⟨⟨row', s', (AList.lookup_insert_ne hkey).symm.trans hrow, hun⟩, hkey⟩

/-- A call writes the row of its key, and only if it is bare. -/
theorem Does.rewritten (hd : Does jwe t m) :
    m.rewritten = [] ∨ (m.rewritten = [m.call.key] ∧ Bare jwe t m.call.key) := by
  cases hd with
  | nothing call missing => exact Or.inl rfl
  | reads call row s found pinned => exact Or.inl rfl
  | refuses call row text found away => exact Or.inl rfl
  | pins call row s token found unpinned fresh => exact Or.inr ⟨rfl, row, s, found, unpinned⟩

/-- A move begins in the table that it is made in. -/
theorem Does.before_eq (hd : Does jwe t m) : m.before = t := by
  cases hd <;> rfl

/-- A move leaves every row alone but those that it rewrites. -/
theorem Does.frame (hd : Does jwe t m) {key : Str} (hkey : key ∉ m.rewritten) :
    m.after.lookup key = t.lookup key := by
  cases hd with
  | nothing call missing => rfl
  | reads call row s found pinned => rfl
  | refuses call row text found away => rfl
  | pins call row s token found unpinned fresh =>
      exact AList.lookup_insert_ne (fun heq => hkey (heq ▸ List.mem_cons_self))

/-- Unless the row is pinned away, the answer is that of the mode `encrypt`. -/
theorem Does.answer_eq (hd : Does jwe t m) (h : ¬ Swapped jwe t m.call.key) (nonce : Nat) :
    m.answer = getOn jwe enctype (some "encrypt".toList) nonce m.call.key t := by
  rw [getOn_eq (by decide)]
  cases hd with
  | nothing call missing => rw [missing, Option.getD_none, openToken_null]
  | reads call row s found pinned =>
      obtain ⟨header, -, htoken, -⟩ := pinned
      rw [found, Option.getD_some, openToken_encrypt htoken]
  | refuses call row text found away => exact absurd ⟨row, found, away⟩ h
  | pins call row s token found unpinned fresh =>
      obtain ⟨header, htoken, -⟩ := unpinned
      rw [found, Option.getD_some, openToken_encrypt htoken]

/-- Where the row is pinned to another key, the call is refused and nothing is
    rewritten. -/
theorem Does.refused (hd : Does jwe t m) (h : Swapped jwe t m.call.key) :
    (∃ text, m.answer = .error (.py .csStoreError text)) ∧ m.rewritten = [] := by
  obtain ⟨row, hrow, haway⟩ := h
  cases hd with
  | nothing call missing => cases missing.symm.trans hrow
  | reads call row' s found pinned =>
      obtain rfl := Option.some.inj (found.symm.trans hrow)
      exact absurd haway (not_pinnedAway_of_pinnedTo pinned)
  | refuses call row' text found away => exact ⟨⟨text, rfl⟩, rfl⟩
  | pins call row' s token found unpinned fresh =>
      obtain rfl := Option.some.inj (found.symm.trans hrow)
      exact absurd unpinned (not_unpinned_of_pinnedAway haway)

section Runs

variable (hopens : ∀ key, Opens jwe (overlayHeader enctype (some "migrate".toList) key))
  (hseals : ∀ key s nonce, ∃ token,
    jwe.encrypt (.obj (overlayHeader enctype (some "migrate".toList) key)) (.ofText s) nonce
      = .ok token)
  (ht : AllTokens jwe t₀) (hw : Writable jwe t₀)

include hopens hseals ht hw

/-- **Every call of a sequence** finds a table that has moved on, and leaves
    one. -/
theorem moved_run (calls : List GetCall) (h : Moved jwe t₀ t) :
    (∀ m ∈ makeAll jwe enctype calls t, ∃ t', Moved jwe t₀ t' ∧ Does jwe t' m)
      ∧ Moved jwe t₀ (tableAfter jwe enctype calls t) := by
  induction calls generalizing t with
  | nil => exact ⟨fun m hm => absurd hm List.not_mem_nil, h⟩
  | cons call calls ih =>
      have hd := make_does hopens hseals (h.allTokens ht) (h.writable hw) call
      obtain ⟨hrest, hend⟩ := ih (hd.moved h)
      refine ⟨fun m hm => ?_, hend⟩
      rcases List.mem_cons.mp hm with rfl | hm
      · exact ⟨t, h, hd⟩
      · exact hrest m hm

/-- **No row is written twice**: what is written was bare, and is not any
    more. -/
theorem once_run (calls : List GetCall) (h : Moved jwe t₀ t) :
    ((makeAll jwe enctype calls t).flatMap Made.rewritten).Nodup
      ∧ ∀ key ∈ (makeAll jwe enctype calls t).flatMap Made.rewritten, Bare jwe t key := by
  induction calls generalizing t with
  | nil => exact ⟨List.nodup_nil, fun key hkey => absurd hkey List.not_mem_nil⟩
  | cons call calls ih =>
      have hd := make_does hopens hseals (h.allTokens ht) (h.writable hw) call
      obtain ⟨hnodup, hbare⟩ := ih (hd.moved h)
      rw [makeAll, List.flatMap_cons]
      rcases hd.rewritten with hnone | ⟨hone, hfirst⟩
      · rw [hnone, List.nil_append]
        exact ⟨hnodup, fun key hkey => (hd.bare (hbare key hkey)).1⟩
      · rw [hone, List.singleton_append]
        refine ⟨List.nodup_cons.mpr ⟨fun hmem => (hd.bare (hbare _ hmem)).2 rfl, hnodup⟩, ?_⟩
        intro key hkey
        rcases List.mem_cons.mp hkey with rfl | hkey
        · exact hfirst
        · exact (hd.bare (hbare key hkey)).1

/-- What is not bare stays so, and no key that is read is bare afterwards. -/
theorem not_bare_run (calls : List GetCall) (h : Moved jwe t₀ t) {key : Str}
    (hbare : Bare jwe (tableAfter jwe enctype calls t) key) :
    Bare jwe t key ∧ ∀ call ∈ calls, key ≠ call.key := by
  induction calls generalizing t with
  | nil => exact ⟨hbare, fun call hcall => absurd hcall List.not_mem_nil⟩
  | cons call calls ih =>
      have hd := make_does hopens hseals (h.allTokens ht) (h.writable hw) call
      obtain ⟨hrest, hothers⟩ := ih (hd.moved h) hbare
      obtain ⟨hbefore, hne⟩ := hd.bare hrest
      refine ⟨hbefore, fun other hother => ?_⟩
      rcases List.mem_cons.mp hother with rfl | hother
      · exact hne
      · exact hothers other hother

end Runs

/-- **HEADLINE — migration preserves secrets.** For every table of tokens,
    unpinned, pinned to their own keys or elsewhere, whose unpinned rows have
    keys that the table accepts, and every sequence of migrating calls of
    `get`: each returns what the mode `encrypt` returns, and writes the row it
    reads if that has no pin and no other; no row is written twice; the mode
    `pinning` returns the same afterwards; and a token that is pinned elsewhere
    is refused and stays. -/
theorem migration_preserves
    (hopens : ∀ key, Opens jwe (overlayHeader enctype (some "migrate".toList) key))
    (hseals : ∀ key s nonce, ∃ token,
      jwe.encrypt (.obj (overlayHeader enctype (some "migrate".toList) key)) (.ofText s) nonce
        = .ok token)
    (ht : AllTokens jwe t) (hw : Writable jwe t) (calls : List GetCall) :
    Preserves jwe enctype t calls := by
  obtain ⟨hmade, hend⟩ := moved_run hopens hseals ht hw calls (moved_refl t)
  refine ⟨?_, ?_, (once_run hopens hseals ht hw calls (moved_refl t)).1, ?_, ?_⟩
  · intro m hm hkey nonce
    obtain ⟨t', hmoved, hd⟩ := hmade m hm
    rw [← hmoved.swapped_iff] at hkey
    rw [hd.answer_eq hkey nonce, hmoved.encrypt_eq nonce nonce]
  · intro m hm
    obtain ⟨t', -, hd⟩ := hmade m hm
    rw [hd.before_eq]
    refine ⟨fun key hkey => ?_, fun key hkey => hd.frame hkey⟩
    rcases hd.rewritten with hnone | ⟨hone, hbare⟩
    · rw [hnone] at hkey
      cases hkey
    · rw [hone] at hkey
      obtain rfl := List.mem_singleton.mp hkey
      exact ⟨rfl, hbare⟩
  · intro call hcall hkey nonce nonce'
    rw [← hend.encrypt_eq nonce' nonce', getOn_eq (by decide), getOn_eq (by decide)]
    cases hrow : (tableAfter jwe enctype calls t).lookup call.key with
    | none => rw [Option.getD_none, openToken_null, openToken_null]
    | some row =>
        obtain ⟨s, header, htoken⟩ := hend.allTokens ht call.key row hrow
        rw [Option.getD_some, openToken_encrypt htoken]
        rcases token_cases htoken call.key with hun | hown | haway
        · have hleft := not_bare_run hopens hseals ht hw calls (moved_refl t) ⟨row, s, hrow, hun⟩
          exact absurd rfl (hleft.2 call hcall)
        · exact openToken_pinning hown
        · exact absurd (hend.swapped_iff.mp ⟨row, hrow, haway⟩) hkey
  · intro m hm hkey
    obtain ⟨t', hmoved, hd⟩ := hmade m hm
    obtain ⟨hanswer, hnone⟩ := hd.refused (hmoved.swapped_iff.mpr hkey)
    refine ⟨hanswer, hnone, ?_⟩
    rcases hend m.call.key with hsame | ⟨row, -, s, hrow, hun, -, -⟩
    · exact hsame
    · obtain ⟨row', hrow', haway⟩ := hkey
      obtain rfl := Option.some.inj (hrow.symm.trans hrow')
      exact absurd hun (not_unpinned_of_pinnedAway haway)

/-! ### Two tables of one row -/

/-- The cipher of the demonstration seals every text. -/
theorem spelledJwe_seals (enctype key s : Str) (nonce : Nat) : ∃ token,
    spelledJwe.encrypt (.obj (overlayHeader enctype (some "migrate".toList) key)) (.ofText s)
      nonce = .ok token := ⟨_, rfl⟩

/-- A table with one old secret. -/
def oldSecret (key : Str) : Table := (∅ : Table).insert key (.text "uold")

/-- The table of the demonstration has one row. -/
theorem lookup_oldSecret {key other : Str} {row : SqlValue}
    (h : (oldSecret key).lookup other = some row) : other = key ∧ row = .text "uold" := by
  by_cases hkey : other = key
  · subst hkey
    rw [oldSecret, AList.lookup_insert] at h
    exact ⟨rfl, (Option.some.inj h).symm⟩
  · rw [oldSecret, AList.lookup_insert_ne hkey] at h
    cases h

/-- The row of the demonstration is not pinned to a key. -/
theorem unpinned_old : Unpinned spelledJwe (.text "uold") "old" :=
  ⟨[], ⟨by simp, rfl⟩, rfl⟩

/-- All rows of the demonstration are tokens. -/
theorem allTokens_oldSecret (key : Str) : AllTokens spelledJwe (oldSecret key) := by
  intro other row hrow
  obtain ⟨-, rfl⟩ := lookup_oldSecret hrow
  exact ⟨_, _, unpinned_old.choose_spec.1⟩

/-- A table does not accept a key that ends in a slash, and so an old secret
    under one is not returned in the mode `migrate`. -/
theorem not_preserves_slash : ¬ ∀ (jwe : Jwe) (enctype : Str) (t : Table) (calls : List GetCall),
    (∀ key, Opens jwe (overlayHeader enctype (some "migrate".toList) key)) →
    (∀ key s nonce, ∃ token,
      jwe.encrypt (.obj (overlayHeader enctype (some "migrate".toList) key)) (.ofText s) nonce
        = .ok token) →
    AllTokens jwe t → (∀ key, ¬ Swapped jwe t key) → Preserves jwe enctype t calls := by
  intro hall
  have hplain : ∀ key, ¬ Swapped spelledJwe (oldSecret "keys/u/") key := by
    rintro key ⟨row, hrow, haway⟩
    obtain ⟨-, rfl⟩ := lookup_oldSecret hrow
    exact not_unpinned_of_pinnedAway haway unpinned_old
  have hpreserves := hall spelledJwe "A256CBC-HS512" (oldSecret "keys/u/") [⟨"keys/u/", 0⟩]
    (fun key => spelledJwe_opens _ _ key) (fun key s nonce => spelledJwe_seals _ key s nonce)
    (allTokens_oldSecret _) hplain
  have hanswer := hpreserves.answers _ List.mem_cons_self (hplain _) 0
  have hmigrate : (make spelledJwe "A256CBC-HS512" ⟨"keys/u/", 0⟩ (oldSecret "keys/u/")).answer
      = .error (.py .valueError "Invalid Key name, cannot end in \"/\"") := rfl
  have hencrypt : getOn spelledJwe "A256CBC-HS512" (some "encrypt".toList) 0 "keys/u/"
      (oldSecret "keys/u/") = .ok (.text "old") := rfl
  cases hmigrate.symm.trans (hanswer.trans hencrypt)

/-- A secret from before the pinning is read twice, and rewritten once. -/
theorem migration_preserves_old :
    (∀ key, Opens spelledJwe (overlayHeader "A256CBC-HS512" (some "migrate".toList) key))
    ∧ (∀ key s nonce, ∃ token, spelledJwe.encrypt
        (.obj (overlayHeader "A256CBC-HS512" (some "migrate".toList) key)) (.ofText s) nonce
          = .ok token)
    ∧ AllTokens spelledJwe (oldSecret "keys/u/k") ∧ Writable spelledJwe (oldSecret "keys/u/k")
    ∧ Preserves spelledJwe "A256CBC-HS512" (oldSecret "keys/u/k")
        [⟨"keys/u/k", 0⟩, ⟨"keys/u/k", 1⟩] := by
  have hwritable : Writable spelledJwe (oldSecret "keys/u/k") := by
    intro key row s hrow _
    obtain ⟨rfl, -⟩ := lookup_oldSecret hrow
    decide
  exact ⟨fun key => spelledJwe_opens _ _ key, fun key s nonce => spelledJwe_seals _ key s nonce,
    allTokens_oldSecret _, hwritable, migration_preserves (fun key => spelledJwe_opens _ _ key)
      (fun key s nonce => spelledJwe_seals _ key s nonce) (allTokens_oldSecret _) hwritable _⟩

end MigratedReads
