import Custodia.MappedValues
import Custodia.MessageTexts
import Custodia.Pipeline
import Custodia.RequestShapes
import Custodia.TransparencyProofs

/-! # StatusLineProofs — the message of an error reply

    `send_error` writes the message of an `HTTPError` into the status line.
    Over the whole pipeline only a message that cannot be read gives one, and
    it says why in the words of the exception.

    * `Quotes`: the texts that a request gets into the message;
    * `Server`, `reply`: a server whose consumers are all `Secrets`;
    * `one_line_iff`: the reply keeps to its line exactly when all these texts
      are one line. -/

namespace StatusLineProofs

open Interaction QuotedText PosixPath PyValues Unquote Messages SqliteStore SecretsConsumer
open SecretsRequests SecretsRuns RequestShapes MessageTexts MappedValues Pipeline Verdicts
open EncryptedStores TransparencyProofs

/-! ## The message of a request -/

section Message

variable (con : Secrets) (req : Request)

/-- The document that the query of a request stands for. -/
def queryDocument : Json :=
  if req.query = [] then defaultMessage
  else .obj (req.query.map (fun q => (.text q.1, .arr (q.2.map Json.ofText))))

/-- The document in the body of a POST or a DELETE. -/
def maybeBodyDocument : Except Exc Json :=
  match req.body with
  | none => .ok defaultMessage
  | some body => raised (con.runtime.jsonLoads body)

/-- The document that the body of a PUT stands for. -/
def setBodyDocument : Except Exc Json :=
  if contentTypeValue req = "application/octet-stream" then
    match req.body with
    | none => .error (.http 400 none)
    | some body => .ok (.obj [(.text "type", .ofText "simple"),
        (.text "value", .ofText (b64encode body))])
  else if contentTypeValue req = "application/json" then
    match req.body with
    | none => .error (.http 400 none)
    | some body => raised (con.runtime.jsonLoads body)
  else .error (.py .valueError "Invalid Content-Type")

/-- The document that the method of the request reads. -/
def document : Option (Except Exc Json) :=
  chosen req (.ok (queryDocument req)) (setBodyDocument con req) (maybeBodyDocument con req)

/-- What is read as the message of a request is parsed from the document that
    the request carries. -/
theorem reading_eq : reading con req = (document con req).map (fun read => do
    parseMessage con req (← read) (joinSlash (segments req))) := by
  have hquery (name : Str) :
      parseQuery con req name = parseMessage con req (queryDocument req) name := by
    rw [parseQuery, queryDocument]
    split_ifs <;> rfl
  have hmaybe (name : Str) : parseMaybeBody con req name
      = (do parseMessage con req (← maybeBodyDocument con req) name) := by
    rw [parseMaybeBody, maybeBodyDocument]
    cases req.body <;> rfl
  have hset (name : Str) : parseSetBody con req name
      = (do parseMessage con req (← setBodyDocument con req) name) := by
    rw [parseSetBody, setBodyDocument, parseBinBody, parseBody]
    split_ifs
    · cases req.body <;> rfl
    · cases req.body <;> rfl
    · rfl
  rw [reading, document, map_chosen, hquery, hmaybe, hset]
  rfl

/-- What the message of a refused request quotes of it: what the parser of JSON
    says about its body, or what the handlers of messages say about the
    document. -/
inductive Quotes : Str → Prop where
  /-- What `json.loads` says about a body that is no document. -/
  | noJson (body : List Byte) (f : Fault) (hbody : req.body = some body)
      (hread : document con req = some (raised (con.runtime.jsonLoads body)))
      (hjson : con.runtime.jsonLoads body = .error f) : Quotes f.text
  /-- What is said about the document. -/
  | message (msg : Json) (text : Str) (hread : document con req = some (.ok msg))
      (hquotes : MessageTexts.Quotes con.runtime con.allowedKeytypes req.kemKeysStore msg
        (joinSlash (segments req)) text) : Quotes text

/-- What the method chooses is one of the three. -/
theorem eq_of_chosen {α : Type} {get put other x : α} (h : chosen req get put other = some x) :
    x = get ∨ x = put ∨ x = other := by
  have hnamed : ∀ read : α, named req read = some x → read = x := by
    intro read hread
    rw [named] at hread
    cases hname : clientName req with
    | error e =>
        rw [hname] at hread
        cases hread
    | ok client =>
        rw [hname] at hread
        exact Option.some.inj hread
  unfold chosen at h
  dsimp only at h
  split_ifs at h
  · exact Or.inl (Option.some.inj h).symm
  · exact Or.inl (hnamed get h).symm
  · exact Or.inr (Or.inl (hnamed put h).symm)
  · exact Or.inr (Or.inr (Option.some.inj h).symm)
  · exact Or.inr (Or.inr (Option.some.inj h).symm)
  · exact Or.inr (Or.inr (hnamed other h).symm)

/-- Only `json.loads` is quoted where there is no document. -/
theorem document_error {e : Exc} (h : document con req = some (.error e)) :
    OneLine e.str ∨ ∃ body f, req.body = some body ∧ con.runtime.jsonLoads body = .error f
      ∧ e = .py f.cls f.text := by
  have hjson : ∀ body, req.body = some body → .error e = raised (con.runtime.jsonLoads body) →
      ∃ body f, req.body = some body ∧ con.runtime.jsonLoads body = .error f
        ∧ e = .py f.cls f.text := by
    intro body hbody hraised
    cases hloads : con.runtime.jsonLoads body with
    | ok msg =>
        rw [hloads] at hraised
        cases hraised
    | error f =>
        rw [hloads] at hraised
        exact ⟨body, f, hbody, hloads, Except.error.inj hraised⟩
  rcases eq_of_chosen req h with hget | hput | hother
  · cases hget
  · rw [setBodyDocument] at hput
    cases hbody : req.body with
    | none =>
        rw [hbody] at hput
        dsimp only at hput
        split_ifs at hput
        · rw [Except.error.inj hput]
          exact Or.inl (by decide)
        · rw [Except.error.inj hput]
          exact Or.inl (by decide)
        · rw [Except.error.inj hput]
          exact Or.inl (by decide)
    | some body =>
        rw [hbody] at hput
        dsimp only at hput
        split_ifs at hput
        · rw [← hbody]
          exact Or.inr (hjson body hbody hput)
        · rw [Except.error.inj hput]
          exact Or.inl (by decide)
  · rw [maybeBodyDocument] at hother
    cases hbody : req.body with
    | none =>
        rw [hbody] at hother
        cases hother
    | some body =>
        rw [hbody] at hother
        rw [← hbody]
        exact Or.inr (hjson body hbody hother)

/-- The document cannot be read, or its error is about what it says. -/
theorem oneLine_unreadText_iff : (∀ text, unreadText (reading con req) = some text → OneLine text)
    ↔ ∀ text, Quotes con req text → OneLine text := by
  rw [reading_eq]
  cases hread : document con req with
  | none =>
      refine iff_of_true (fun text h => by cases h) ?_
      intro text hquotes
      cases hquotes with
      | noJson body f _ h _ => cases hread.symm.trans h
      | message msg text h _ => cases hread.symm.trans h
  | some read =>
      have hparse := oneLine_parse_iff con.runtime con.allowedKeytypes req.kemKeysStore
      cases read with
      | error e =>
          constructor
          · intro h text hquotes
            cases hquotes with
            | noJson body f _ h' hjson =>
                rw [hjson] at h'
                obtain rfl := Except.error.inj (Option.some.inj (hread.symm.trans h'))
                exact h _ rfl
            | message msg text h' _ => cases hread.symm.trans h'
          · intro h text htext
            rw [← Option.some.inj htext]
            rcases document_error con req hread with hfixed | ⟨body, f, hbody, hjson, rfl⟩
            · exact hfixed
            · exact h _ (.noJson body f hbody (by rw [hread, hjson]; rfl) hjson)
      | ok msg =>
          constructor
          · intro h text hquotes
            cases hquotes with
            | noJson body f _ h' hjson =>
                rw [hjson] at h'
                cases hread.symm.trans h'
            | message msg' text h' hquotes =>
                obtain rfl := Except.ok.inj (Option.some.inj (hread.symm.trans h'))
                refine (hparse msg _).mp ?_ text hquotes
                intro e he
                refine h e.str ?_
                show unreadText (some (parseMessage con req msg _)) = _
                rw [parseMessage, he]
                rfl
          · intro h text htext
            change unreadText (some (parseMessage con req msg _)) = _ at htext
            cases hmsg : parseMessage con req msg (joinSlash (segments req)) with
            | ok handler =>
                rw [hmsg] at htext
                cases htext
            | error e =>
                rw [hmsg] at htext
                rw [← Option.some.inj htext]
                exact (hparse msg _).mpr
                  (fun text hquotes => h text (.message msg text hread hquotes)) e hmsg

end Message

/-! ## Stores -/

/-- A store, where no exception is an `HTTPError` with a message: its state, and
    what each method answers and does to it. All stacks of stores are such. -/
structure Store (σ : Type) where
  exec : (c : Call) → σ → Except Exc c.Ans × σ
  silent : ∀ c s e, (exec c s).1 = .error e → Silent e

/-- A `SqliteStore` raises no `HTTPError` with a message. -/
theorem silent_exec (c : Call) (t : Table) (e : Exc) (h : (SqliteStore.exec c t).1 = .error e) :
    Silent e := by
  rcases exec_error h with ⟨cls, text, rfl, -⟩ | hmeets
  · exact silent_py cls text
  · rcases hmeets with ⟨key, value, rfl, hmem⟩ | ⟨key, rfl, hmem⟩
    · cases hslash : endsInSlash key with
      | true =>
          rw [SqliteStore.exec, if_pos hslash] at h
          obtain rfl := Except.error.inj h
          exact silent_py _ _
      | false =>
          cases hbind : bindValue setErrorText value with
          | error e' =>
              rw [exec_set_unbound hslash hbind] at h
              obtain rfl := Except.error.inj h
              obtain ⟨cls, text, rfl, -⟩ := bindValue_error hbind
              exact silent_py cls text
          | ok v =>
              rw [exec_set_mem hslash hbind hmem] at h
              obtain rfl := Except.error.inj h
              exact silent_py _ _
    · rw [SqliteStore.exec, if_pos hmem] at h
      obtain rfl := Except.error.inj h
      exact silent_py _ _

/-- The database. -/
def sqliteStore : Store Table := ⟨SqliteStore.exec, silent_exec⟩

/-- Neither does opening what an encrypted store has sealed. -/
theorem raises_storeOpen (jwe : Jwe) (value : SqlValue) :
    (storeOpen jwe value).Raises Silent := by
  rw [storeOpen]
  split_ifs
  · trivial
  · split
    · exact silent_py _ _
    · trivial

/-- Neither does any call of an encrypted store. -/
theorem raises_encryptedStore (jwe : Jwe) (enctype : Str) (nonce : Nat) (c : Call) :
    (encryptedStore jwe enctype nonce c).Raises Silent := by
  cases c with
  | get key => exact Prog.raises_bind (Prog.raises_perform _) (raises_storeOpen jwe)
  | set key value replace =>
      exact Prog.raises_bind (Prog.raises_ofExcept (silent_of_raisesPy (raisesPy_raised _)))
        (fun _ => Prog.raises_perform _)
  | span key => exact Prog.raises_perform _
  | list keyfilter => exact Prog.raises_perform _
  | cut key => exact Prog.raises_perform _

/-- Neither does setting a value through an encrypted overlay. -/
theorem raises_overlaySet (jwe : Jwe) (enctype : Str) (protection : Option Str) (nonce : Nat)
    (key : Str) (value : Json) (replace : Bool) :
    (overlaySet jwe enctype protection nonce key value replace).Raises Silent :=
  Prog.raises_bind (Prog.raises_ofExcept (silent_of_raisesPy (raisesPy_raised _)))
    (fun _ => Prog.raises_perform _)

/-- Neither does opening what an overlay has sealed, the errors of a wrong key
    included. -/
theorem raises_overlayOpen (jwe : Jwe) (enctype : Str) (protection : Option Str) (nonce : Nat)
    (key : Str) (value : SqlValue) :
    (overlayOpen jwe enctype protection nonce key value).Raises Silent := by
  rw [overlayOpen]
  by_cases hnull : value = .null
  · rw [if_pos hnull]
    trivial
  · rw [if_neg hnull]
    cases jwe.decrypt value with
    | error f => exact silent_py _ _
    | ok opened =>
        obtain ⟨payload, header⟩ := opened
        dsimp only
        by_cases hplain : protection = some "encrypt".toList
        · rw [if_pos hplain]
          trivial
        · rw [if_neg hplain]
          cases Json.lookup header "custodia.key" with
          | none =>
              dsimp only
              split_ifs
              · exact Prog.raises_bind (raises_overlaySet _ _ _ _ _ _ _) (fun _ => trivial)
              · exact silent_py _ _
          | some pinned =>
              dsimp only
              split_ifs
              · trivial
              · exact silent_py _ _

/-- Neither does any call of an encrypted overlay. -/
theorem raises_encryptedOverlay (jwe : Jwe) (enctype : Str) (protection : Option Str)
    (nonce : Nat) (c : Call) :
    (encryptedOverlay jwe enctype protection nonce c).Raises Silent := by
  cases c with
  | get key => exact Prog.raises_bind (Prog.raises_perform _) (raises_overlayOpen _ _ _ _ _)
  | set key value replace => exact raises_overlaySet _ _ _ _ _ _ _
  | span key => exact Prog.raises_perform _
  | list keyfilter => exact Prog.raises_perform _
  | cut key => exact Prog.raises_perform _

/-- **No stack of stores raises an `HTTPError` with a message**, by induction on
    the stack. -/
theorem raises_layer (nonce : Nat) (plugin : StorePlugin) (c : Call) :
    (plugin.layer nonce c).Raises Silent := by
  induction plugin generalizing c with
  | sqlite => exact Prog.raises_perform c
  | encryptedStore jwe enctype => exact raises_encryptedStore jwe enctype nonce c
  | encryptedOverlay jwe enctype protection backing ih =>
      exact Prog.raises_through (raises_encryptedOverlay jwe enctype protection nonce c) ih

/-- A stack of encrypting stores on the database. -/
def pluginStore (nonce : Nat) (plugin : StorePlugin) : Store Table where
  exec := fun c t => (plugin.layer nonce c).run SqliteStore.exec t
  silent := fun c _ _ h =>
    Prog.run_raises SqliteStore.exec silent_exec (raises_layer nonce plugin c) h

/-! ## The server -/

/-- A server whose consumers are all `Secrets`, with authenticators and
    authorizers of any kind, which may be missing. -/
structure Server where
  authenticators : Option (List (Voter Request))
  authorizers : Option (List (Voter Request))
  secrets : Mounts Secrets

/-- What the pipeline reads; the answer of a consumer is the consumer with the
    request that it is given. -/
def Server.config (server : Server) : HttpConfig (Secrets × Request) where
  authenticators := server.authenticators
  authorizers := server.authorizers
  consumers :=
    ⟨mapValues (fun con req => (con, req)) server.secrets.map, by
      intro chain hchain
      exact server.secrets.proper chain ((mem_mapValues _ _).mp hchain)⟩

/-- How the outcome of a program is sent. -/
def sent (ended : Except Exc Outcome) : Seen :=
  match ended with
  | .ok o => Outcome.seen o
  | .error e => Outcome.seen ⟨.error e, []⟩

variable {σ : Type}

/-- What `handle_one_request` sends. -/
def reply (server : Server) (store : Store σ) (req : Request) (s : σ) : Seen :=
  match pipeline server.config req with
  | .error e => sent (.error e)
  | .ok (con, granted) => sent ((handle con granted).run store.exec s).1

/-- The message of an error reply. -/
def Seen.mesg : Seen → Option Str
  | .response _ _ _ => none
  | .error _ mesg => mesg

/-! ### Errors of the pipeline -/

section Pipeline

variable {β : Type}

/-- Authentication refuses without a message. -/
theorem silent_authenticate (auths : List (Voter Request)) (validOnce : Bool) (req : Request)
    (e : Exc) (h : authenticate auths validOnce req = .error e) : Silent e := by
  induction auths generalizing validOnce req with
  | nil => cases h
  | cons auth auths ih =>
      rw [authenticate] at h
      split at h
      · obtain rfl := Except.error.inj h
        exact silent_http 403
      · exact ih _ _ h
      · exact ih _ _ h

/-- Authorization and the choice of a consumer refuse without a message. -/
theorem silent_authorizeAndSelect (config : HttpConfig β) (pathChain : List Str)
    (authed : Request) (e : Exc) (h : authorizeAndSelect config pathChain authed = .error e) :
    Silent e := by
  rw [authorizeAndSelect] at h
  split at h
  · obtain rfl := Except.error.inj h
    exact silent_http 403
  · split at h
    · split at h
      · obtain rfl := Except.error.inj h
        exact silent_http 404
      · cases h
    · obtain rfl := Except.error.inj h
      exact silent_http 403

/-- **What the pipeline refuses, it refuses without a message**, so that no
    plugin can put a text into the status line. -/
theorem silent_pipeline (config : HttpConfig β) (req : Request) (e : Exc)
    (h : pipeline config req = .error e) : Silent e := by
  rw [pipeline] at h
  split_ifs at h
  · obtain rfl := Except.error.inj h
    exact silent_http 400
  · split at h
    · obtain rfl := Except.error.inj h
      exact silent_http 403
    · split at h
      · rename_i hauth
        obtain rfl := Except.error.inj h
        exact silent_authenticate _ _ _ _ hauth
      · obtain rfl := Except.error.inj h
        exact silent_http 403
      · exact silent_authorizeAndSelect _ _ _ _ h

end Pipeline

/-! ## The reply -/

/-- The message that is seen of an outcome is the one it has. -/
theorem mesg_seen (o : Outcome) : Seen.mesg (Outcome.seen o) = mesg o := by
  obtain ⟨result, audit⟩ := o
  cases result with
  | ok response => rfl
  | error e => cases e <;> rfl

/-- The message of a reply is what is said about a message that cannot be
    read. -/
theorem mesg_reply (server : Server) (store : Store σ) (req : Request) (s : σ) :
    Seen.mesg (reply server store req s) =
      match pipeline server.config req with
      | .error _ => none
      | .ok (con, granted) => unreadText (reading con granted) := by
  rw [reply]
  cases hinvoked : pipeline server.config req with
  | error e => exact (mesg_seen _).trans (mesg_of_silent (silent_pipeline _ _ _ hinvoked) [])
  | ok invoked =>
      obtain ⟨con, granted⟩ := invoked
      obtain ⟨o, s', hrun, hmesg⟩ : ∃ o s', (handle con granted).run store.exec s = (.ok o, s')
          ∧ mesg o = unreadText (reading con granted) := mesg_eq store.silent s
      show Seen.mesg (sent ((handle con granted).run store.exec s).1) = _
      rw [hrun]
      exact (mesg_seen o).trans hmesg

/-- **HEADLINE — which error replies keep to their line**: exactly those in
    which none of the texts that are quoted from the request, from the libraries
    or from the store of keys has a line break. -/
theorem one_line_iff (server : Server) (store : Store σ) (req : Request) (s : σ) :
    (∀ text, Seen.mesg (reply server store req s) = some text → OneLine text)
      ↔ ∀ con granted, pipeline server.config req = .ok (con, granted) →
        ∀ text, Quotes con granted text → OneLine text := by
  rw [mesg_reply]
  cases hinvoked : pipeline server.config req with
  | error e =>
      refine iff_of_true (fun text h => by cases h) ?_
      intro con granted h
      cases h
  | ok invoked =>
      obtain ⟨con, granted⟩ := invoked
      dsimp only
      rw [oneLine_unreadText_iff]
      constructor
      · intro h con' granted' heq text hquotes
        obtain ⟨rfl, rfl⟩ := Prod.mk.inj (Except.ok.inj heq)
        exact h text hquotes
      · intro h text hquotes
        exact h con granted rfl text hquotes

/-- A server that lets every request through. -/
def openServer : Server where
  authenticators := some [fun req => (some true, req)]
  authorizers := some [fun req => (some true, req)]
  secrets := Mounts.empty.load "/secrets/" rfl simpleSecrets

/-- `GET /secrets/u/k?type=foo%0D%0Abar&value=x`. -/
def breakingGet : Request where
  command := "GET"
  path := "/secrets/u/k"
  pathChain := ["", "secrets", "u", "k"]
  trail := none
  query := [("type", [unquote "foo%0D%0Abar"]), ("value", ["x"])]
  headers := []
  body := none
  remoteUser := none
  creds := .peer 1 0 0
  defaultNamespace := none
  kemKeysStore := none

/-- A type that ends the status line. -/
theorem not_one_line_unknownType :
    Seen.mesg (reply openServer sqliteStore breakingGet ∅) = some "Type 'foo\r\nbar' is unknown"
    ∧ ¬ OneLine ("Type 'foo\r\nbar' is unknown" : Str) := by
  constructor
  · rfl
  · decide

end StatusLineProofs
