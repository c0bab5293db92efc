import Custodia.ProgramResults
import Custodia.SimpleClient

/-! # StatusCodes — the statuses a service answers with

    Whatever is asked and whatever the table holds, a reply carries one of the
    documented statuses: an `HTTPError` is raised with nothing but these, and
    any other exception is answered with 500. There is no reply where the
    target of the request cannot be read, or where the text of an error does
    not fit into a status line.

    The proof follows the program. Each operation of the consumer is given a
    postcondition, for what it returns and for what it raises, put together
    from those of its steps; a run over the table inherits it.

    * `Fair`: an exception that is answered with such a status;
    * `yields_handle`: how the consumer ends;
    * `listed_of_told`: what a server makes of it;
    * `statuses_of_service`: what the server sends. -/

namespace StatusCodes

open Interaction PosixPath PyValues Messages SqliteStore SecretsConsumer SecretsRuns
open RequestShapes Forwarding StatusLineProofs Pipeline SimpleClient

/-- The statuses of a request that is done. -/
def successCodes : List Nat := [200, 201, 204]

/-- The statuses of a request that is not. -/
def errorCodes : List Nat := [400, 403, 404, 405, 406, 409, 413, 414, 500, 501]

/-- An exception that is answered with one of the statuses. -/
def Fair (e : Exc) : Prop := ∀ code mesg, e = .http code mesg → code ∈ errorCodes

/-- A response with one of the statuses. -/
def Done (response : Response) : Prop := response.code.getD 200 ∈ successCodes

/-- An exception of Python is fair: it is no `HTTPError`, and the handler makes
    a 500 of it. -/
theorem fair_py (cls : ExcClass) (text : Str) : Fair (.py cls text) := fun _ _ h => nomatch h

/-- An `HTTPError` with a listed status is fair, with a message or without one. -/
theorem fair_http {code : Nat} (h : code ∈ errorCodes) (mesg : Option Str) :
    Fair (.http code mesg) := by
  intro code' mesg' heq
  rw [← (Exc.http.inj heq).1]
  exact h

/-- A computation that raises only exceptions of Python raises only fair ones. -/
theorem fair_of_raisesPy {α : Type} {x : Except Exc α} (hx : RaisesPy x) (e : Exc)
    (h : x = .error e) : Fair e := by
  obtain ⟨cls, text, rfl⟩ := hx e h
  exact fair_py cls text

/-- The shared `except` clauses turn the exceptions of a store into 403, 500 and
    501, and let everything else pass. -/
theorem fair_storeError {e : Exc} (h : Fair e) : Fair (storeError e) := by
  rw [storeError]
  split_ifs
  · exact fair_http (by decide) none
  · exact fair_http (by decide) none
  · exact fair_http (by decide) none
  · exact h

/-- The `except` clauses of `_int_set_key` have a 409 besides, for a key that is
    already there. -/
theorem fair_setError {e : Exc} (h : Fair e) : Fair (setError e) := by
  rw [setError]
  split_ifs
  · exact fair_http (by decide) none
  · exact fair_storeError h

/-- Whatever goes wrong when a body is parsed for a PUT becomes a 406, where the
    type is unknown or not allowed, or else a 400. -/
theorem fair_setParseError (e : Exc) : Fair (setParseError e) := by
  rw [setParseError]
  split_ifs
  · exact fair_http (by decide) _
  · exact fair_http (by decide) _
  · exact fair_http (by decide) _

/-- A trail that is too short for a key is answered with a listed status. -/
theorem fair_dbKey {trail : List Str} {e : Exc} (h : dbKey trail = .error e) : Fair e := by
  rw [dbKey] at h
  split_ifs at h
  rw [← Except.error.inj h]
  exact fair_http (by decide) none

/-- A trail that names no container is answered with a listed status. -/
theorem fair_dbContainerKey {default : Option Str} {trail : List Str} {e : Exc}
    (h : dbContainerKey default trail = .error e) : Fair e := by
  simp only [dbContainerKey] at h
  split_ifs at h
  · exact fair_dbKey h
  · rw [← Except.error.inj h]
    exact fair_http (by decide) none
  · cases default with
    | none =>
        rw [← Except.error.inj h]
        exact fair_http (by decide) none
    | some default => exact fair_dbKey h

/-- The exceptions of the database are answered. -/
theorem fair_exec (c : Call) (t : Table) (e : Exc) (h : (SqliteStore.exec c t).1 = .error e) :
    Fair e := by
  rcases exec_error h with ⟨cls, text, rfl, -⟩ | hmeets
  · exact fair_py cls text
  · rcases hmeets with ⟨key, value, rfl, hmem⟩ | ⟨key, rfl, hmem⟩
    · cases hslash : endsInSlash key with
      | true =>
          rw [SqliteStore.exec, if_pos hslash] at h
          rw [← Except.error.inj h]
          exact fair_py _ _
      | false =>
          cases hbind : bindValue setErrorText value with
          | error e' =>
              rw [exec_set_unbound hslash hbind] at h
              obtain ⟨cls, text, rfl, -⟩ := bindValue_error hbind
              rw [← Except.error.inj h]
              exact fair_py cls text
          | ok v =>
              rw [exec_set_mem hslash hbind hmem] at h
              rw [← Except.error.inj h]
              exact fair_py _ _
    · rw [SqliteStore.exec, if_pos hmem] at h
      rw [← Except.error.inj h]
      exact fair_py _ _

/-! ## Responses -/

variable (con : Secrets)

/-- The response to a request that has changed the store has the status that the
    caller asks for, or a fair exception. -/
theorem yields_changedResponse (msg : Handler) {withReply noReply : Nat}
    (hreply : withReply ∈ successCodes) (hno : noReply ∈ successCodes) :
    (Prog.ofExcept (changedResponse con msg withReply noReply) : StoreProg Response).Yields
      Fair Done Fair := by
  refine Prog.yields_ofExcept ?_ ?_
  · intro response h
    rw [changedResponse] at h
    cases hmsg : msg.reply con.runtime .null with
    | error e => rw [hmsg] at h; exact nomatch h
    | ok output =>
        rw [hmsg] at h
        cases output <;> rw [← Except.ok.inj h]
        case null => exact hno
        all_goals exact hreply
  · intro e h
    rw [changedResponse] at h
    cases hmsg : msg.reply con.runtime .null with
    | error e' =>
        rw [hmsg] at h
        rw [← Except.error.inj h]
        exact fair_of_raisesPy (raisesPy_reply con.runtime .null msg) e' hmsg
    | ok output =>
        rw [hmsg] at h
        cases output <;> exact nomatch h

/-- Decoding the value of a reply to octets raises only exceptions of Python. -/
theorem raisesPy_decodeReplyValue (reply : Json) : RaisesPy (decodeReplyValue reply) := by
  unfold decodeReplyValue
  split
  · split
    · exact raisesPy_b64decode _
    · exact raisesPy_py _ _
  · exact raisesPy_py _ _

/-- Asking a stored value for its length raises only exceptions of Python. -/
theorem raisesPy_len (value : SqlValue) : RaisesPy value.len := by
  cases value with
  | text s => exact raisesPy_ok _
  | null => exact raisesPy_py _ _
  | integer n => exact raisesPy_py _ _
  | real x => exact raisesPy_py _ _

/-- Turning a response into what is sent raises only exceptions of Python. -/
theorem raisesPy_finishResponse (response : Response) : RaisesPy (finishResponse response) := by
  unfold finishResponse
  dsimp only
  split
  · exact raisesPy_ok _
  · exact raisesPy_ok _
  · split_ifs
    · exact raisesPy_ok _
    · exact raisesPy_py _ _
  · split_ifs
    · exact raisesPy_ok _
    · exact raisesPy_py _ _
  · exact raisesPy_py _ _

/-- Finishing leaves the status alone. -/
theorem code_finishResponse {response finished : Response}
    (h : finishResponse response = .ok finished) : finished.code = response.code := by
  unfold finishResponse at h
  dsimp only at h
  split at h
  · rw [← Except.ok.inj h]
  · rw [← Except.ok.inj h]
  · split_ifs at h
    rw [← Except.ok.inj h]
  · split_ifs at h
    rw [← Except.ok.inj h]
  · exact nomatch h

/-- What is put into a reply to a GET has no status of its own, and is answered
    with 200. -/
theorem done_of_formatReply {req : Request} {msg : Handler} {output : Json} {response : Response}
    (h : formatReply con req msg output = .ok response) : Done response := by
  rw [formatReply] at h
  cases hmsg : msg.reply con.runtime output with
  | error e => rw [hmsg] at h; exact nomatch h
  | ok reply =>
      rw [hmsg] at h
      dsimp only [bind, Except.bind] at h
      split_ifs at h
      · cases hdata : decodeReplyValue reply with
        | error e => rw [hdata] at h; exact nomatch h
        | ok data =>
            rw [hdata] at h
            rw [← Except.ok.inj h]
            exact List.mem_cons_self
      · cases reply <;> rw [← Except.ok.inj h] <;> exact List.mem_cons_self

/-- A secret that cannot be put into a reply is answered with a listed status. -/
theorem fair_formatReply {req : Request} {msg : Handler} {output : Json} (e : Exc)
    (h : formatReply con req msg output = .error e) : Fair e := by
  rw [formatReply] at h
  cases hmsg : msg.reply con.runtime output with
  | error e' =>
      rw [hmsg] at h
      rw [← Except.error.inj h]
      exact fair_of_raisesPy (raisesPy_reply con.runtime output msg) e' hmsg
  | ok reply =>
      rw [hmsg] at h
      dsimp only [bind, Except.bind] at h
      split_ifs at h
      · cases hdata : decodeReplyValue reply with
        | error e' =>
            rw [hdata] at h
            rw [← Except.error.inj h]
            exact fair_of_raisesPy (raisesPy_decodeReplyValue reply) e' hdata
        | ok data => rw [hdata] at h; exact nomatch h
      · cases reply <;> exact nomatch h

/-! ## The operations -/

/-- **The shared `except` clauses keep the promise of a program** to be done or
    to end with a fair exception. -/
theorem yields_catching_store {p : StoreProg Response} (hp : p.Yields Fair Done Fair) :
    (Prog.catching p (fun e => .raise (storeError e))).Yields Fair Done Fair :=
  Prog.yields_catching hp (fun _ he => fair_storeError he)

/-- The parent check raises only fair exceptions: its own 404 and 500, and what
    the store raises. -/
theorem yields_parentExists (default : Option Str) (trail : List Str) :
    (parentExists default trail).Yields Fair (fun _ => True) Fair := by
  rw [parentExists]
  cases hkey : dbContainerKey trail.head? (trail.dropLast ++ [[]]) with
  | error e => exact fair_dbContainerKey hkey
  | ok basename =>
      refine Prog.yields_bind (Prog.yields_catching (Prog.yields_perform _ (fun _ he => he))
        (fun e he => ?_)) (fun keylist _ => ?_)
      · show Fair _
        split_ifs
        · exact fair_http (by decide) none
        · exact he
      · cases keylist with
        | some keylist => trivial
        | none =>
            dsimp only
            split_ifs
            · cases hown : dbContainerKey default [] with
              | error e => exact fair_dbContainerKey hown
              | ok container =>
                  exact Prog.yields_bind (Prog.yields_perform _ (fun _ he => he))
                    (fun _ _ => trivial)
            · trivial

/-- Listing a container ends done or with a listed status. -/
theorem yields_listContainer (trail : List Str) (req : Request) :
    (listContainer con trail req).Yields Fair Done Fair := by
  rw [listContainer]
  cases parseQuery con req (joinSlash trail) with
  | error e => exact fair_http (by decide) _
  | ok msg =>
      dsimp only
      cases hkey : dbContainerKey req.defaultNamespace trail with
      | error e => exact fair_dbContainerKey hkey
      | ok basename =>
          refine yields_catching_store (Prog.yields_bind (Prog.yields_perform _ (fun _ he => he))
            (fun found _ => ?_))
          cases found with
          | none => exact fair_http (by decide) none
          | some keylist =>
              refine Prog.yields_bind (Prog.yields_ofExcept (fun _ _ => trivial) ?_)
                (fun _ _ => List.mem_cons_self)
              exact fair_of_raisesPy (raisesPy_reply _ _ msg)

/-- Making a container ends done or with a listed status; a container that is
    already there counts as made. -/
theorem yields_create (trail : List Str) (req : Request) :
    (create con trail req).Yields Fair Done Fair := by
  have hspan (key : Str) : (storeSpan key).Yields Fair (fun _ => True) Fair :=
    Prog.yields_perform _ (fun _ he => he)
  rw [create]
  cases parseMaybeBody con req (joinSlash trail) with
  | error e => exact fair_http (by decide) _
  | ok msg =>
      dsimp only
      cases hkey : dbContainerKey none trail with
      | error e => exact fair_dbContainerKey hkey
      | ok basename =>
          refine Prog.yields_attempt_bind (P := fun _ => True) (F := Fair) ?_ (fun _ _ => ?_)
            (fun e he => ?_)
          · -- below the top, the parent is looked for first
            split_ifs
            · refine Prog.yields_bind (yields_parentExists _ _) (fun ok _ => ?_)
              split_ifs
              · exact hspan basename
              · exact fair_http (by decide) none
            · exact hspan basename
          · exact yields_changedResponse con msg (by decide) (by decide)
          · dsimp only
            split_ifs
            · exact List.mem_cons_self
            · exact fair_storeError he

/-- Destroying a container ends done or with a listed status, the 409 of one
    that is not empty included. -/
theorem yields_destroy (trail : List Str) (req : Request) :
    (destroy con trail req).Yields Fair Done Fair := by
  rw [destroy]
  cases parseMaybeBody con req (joinSlash trail) with
  | error e => exact fair_http (by decide) _
  | ok msg =>
      dsimp only
      cases hkey : dbContainerKey none trail with
      | error e => exact fair_dbContainerKey hkey
      | ok basename =>
          refine Prog.yields_bind (P := fun _ => True) (Prog.yields_catching (Prog.yields_bind
            (Prog.yields_perform _ (fun _ he => he)) (fun found _ => ?_))
            (fun e he => fair_storeError he)) (fun ret _ => ?_)
          · cases found with
            | none => exact fair_http (by decide) none
            | some keylist =>
                dsimp only
                split_ifs
                · exact fair_http (by decide) none
                · exact Prog.yields_perform _ (fun _ he => he)
          · split_ifs
            · exact fair_http (by decide) none
            · exact yields_changedResponse con msg (by decide) (by decide)

/-- Reading a secret ends done or with a listed status. -/
theorem yields_intGetKey (trail : List Str) (req : Request) :
    (intGetKey con trail req).Yields Fair Done Fair := by
  rw [intGetKey]
  cases parseQuery con req (joinSlash trail) with
  | error e => exact fair_http (by decide) _
  | ok handler =>
      dsimp only
      cases hkey : dbKey trail with
      | error e => exact fair_dbKey hkey
      | ok key =>
          refine yields_catching_store (Prog.yields_bind (Prog.yields_perform _ (fun _ he => he))
            (fun output _ => ?_))
          split_ifs
          · exact fair_http (by decide) none
          · refine Prog.yields_bind (Prog.yields_ofExcept (fun _ _ => trivial)
              (fair_of_raisesPy (raisesPy_len output))) (fun length _ => ?_)
            split_ifs
            · exact fair_http (by decide) none
            · exact Prog.yields_ofExcept (fun _ h => done_of_formatReply con h)
                (fair_formatReply con)

/-- Storing a secret ends done or with a listed status. -/
theorem yields_intSetKey (trail : List Str) (req : Request) :
    (intSetKey con trail req).Yields Fair Done Fair := by
  rw [intSetKey]
  cases parseSetBody con req (joinSlash trail) with
  | error e => exact fair_setParseError e
  | ok msg =>
      dsimp only
      cases hkey : dbKey trail with
      | error e => exact fair_dbKey hkey
      | ok key =>
          refine Prog.yields_bind (P := fun _ => True) (Prog.yields_catching (Prog.yields_bind
            (yields_parentExists _ _) (fun ok _ => ?_)) (fun e he => fair_setError he))
            (fun _ _ => yields_changedResponse con msg (by decide) (by decide))
          split_ifs
          · exact Prog.yields_perform _ (fun _ he => he)
          · exact fair_http (by decide) none

/-- Deleting a secret ends done or with a listed status. -/
theorem yields_intDelKey (trail : List Str) (req : Request) :
    (intDelKey con trail req).Yields Fair Done Fair := by
  rw [intDelKey]
  cases parseMaybeBody con req (joinSlash trail) with
  | error e => exact fair_http (by decide) _
  | ok msg =>
      dsimp only
      cases hkey : dbKey trail with
      | error e => exact fair_dbKey hkey
      | ok key =>
          refine Prog.yields_bind (Prog.yields_catching (Prog.yields_perform _ (fun _ he => he))
            (fun e he => fair_storeError he)) (fun ret _ => ?_)
          split_ifs
          · exact fair_http (by decide) none
          · exact yields_changedResponse con msg (by decide) (by decide)

/-! ## The consumer -/

/-- How a request has ended: done, or refused with one of the statuses. -/
def Told (result : Except Exc Response) : Prop :=
  (∀ response, result = .ok response → Done response) ∧ ∀ e, result = .error e → Fair e

/-- A request that ends in a fair exception has been told so. -/
theorem told_error {e : Exc} (h : Fair e) : Told (.error e) := by
  refine ⟨(fun _ heq => nomatch heq), fun e' heq => ?_⟩
  rw [← Except.error.inj heq]
  exact h

/-- What an attempted operation makes of its end. -/
theorem yields_recorded {fn : StoreProg Response} (hfn : fn.Yields Fair Done Fair)
    (records : Except Exc Response → List AuditRecord) :
    (fn.attempt.bind (fun result => .ret ⟨result, records result⟩) : StoreProg Outcome).Yields Fair
      (fun o => Told o.result) Fair := by
  refine Prog.yields_attempt_bind hfn (fun response h => ?_) (fun e he => told_error he)
  refine ⟨fun response' heq => ?_, (fun _ heq => nomatch heq)⟩
  rw [← Except.ok.inj heq]
  exact h

/-- The record of the audit log is written on both ways out and changes nothing
    about them. -/
theorem yields_audited {fn : StoreProg Response} (hfn : fn.Yields Fair Done Fair) (ok fail : Nat)
    (trail : List Str) (req : Request) :
    (audited ok fail fn trail req).Yields Fair (fun o => Told o.result) Fair := by
  rw [audited]
  cases hname : clientName req with
  | error e =>
      refine told_error ?_
      rw [clientName] at hname
      split at hname
      · cases hname
      · split at hname
        · cases hname
        · rw [← Except.error.inj hname]
          exact fair_py _ _
        · cases hname
  | ok client => exact yields_recorded hfn _

/-- **Every method of the consumer ends in one of the statuses**: each of them
    is refused at once, or runs one of the six operations. -/
theorem yields_method (req : Request) :
    (method con req).Yields Fair (fun o => Told o.result) Fair := by
  have hrefused (code : Nat) (h : code ∈ errorCodes) :
      Told (.error (.http code none) : Except Exc Response) := told_error (fair_http h none)
  rw [method, methodGet, methodPut, methodPost, methodDelete]
  split_ifs
  · exact yields_recorded (yields_listContainer con _ req) _
  · exact yields_audited (yields_intGetKey con _ req) _ _ _ req
  · exact hrefused 405 (by decide)
  · exact yields_audited (yields_intSetKey con _ req) _ _ _ req
  · exact yields_recorded (yields_create con _ req) _
  · exact hrefused 405 (by decide)
  · exact hrefused 405 (by decide)
  · exact yields_recorded (yields_destroy con _ req) _
  · exact yields_audited (yields_intDelKey con _ req) _ _ _ req
  · exact hrefused 501 (by decide)

/-- **Whatever the consumer is asked, it tells one of the statuses.** -/
theorem yields_handle (req : Request) :
    (handle con req).Yields Fair (fun o => Told o.result) Fair := by
  refine Prog.yields_bind (yields_method con req) (fun outcome htold => ?_)
  show Told (outcome.result >>= finishResponse)
  cases hresult : outcome.result with
  | error e => exact told_error (htold.2 e hresult)
  | ok response =>
      have hdone := htold.1 response hresult
      refine ⟨fun finished h => ?_, fun e h => ?_⟩
      · have hcode : finished.code = response.code := code_finishResponse h
        rw [Done, hcode]
        exact hdone
      · exact fair_of_raisesPy (raisesPy_finishResponse response) e h

/-! ## The server -/

/-- Where authentication refuses a request, it does so with a 403. -/
theorem fair_authenticate (auths : List (Verdicts.Voter Request)) (validOnce : Bool)
    (req : Request) {e : Exc} (h : authenticate auths validOnce req = .error e) : Fair e := by
  induction auths generalizing validOnce req with
  | nil => exact nomatch h
  | cons auth auths ih =>
      rw [authenticate] at h
      split at h
      · rw [← Except.error.inj h]
        exact fair_http (by decide) none
      · exact ih true _ h
      · exact ih validOnce _ h

/-- What the pipeline refuses before a consumer is reached is refused with 400,
    403 or 404. -/
theorem fair_pipeline {β : Type} (config : HttpConfig β) (req : Request) {e : Exc}
    (h : pipeline config req = .error e) : Fair e := by
  have hrefused {code : Nat} (hcode : code ∈ errorCodes)
      (heq : (.error (.http code none) : Except Exc β) = .error e) : Fair e := by
    rw [← Except.error.inj heq]
    exact fair_http hcode none
  rw [pipeline] at h
  split_ifs at h
  · -- no absolute path
    exact hrefused (by decide) h
  · split at h
    · -- no authenticators
      exact hrefused (by decide) h
    · split at h
      · rename_i hauth
        rw [← Except.error.inj h]
        exact fair_authenticate _ _ _ hauth
      · exact hrefused (by decide) h
      · rw [authorizeAndSelect] at h
        split at h
        · exact hrefused (by decide) h
        · split at h
          · split at h
            · exact hrefused (by decide) h
            · cases h
          · exact hrefused (by decide) h

/-- A reply with one of the statuses; what is not done comes with a page. -/
def Listed (endpoint : Endpoint) (reply : Reply) : Prop :=
  reply.statusCode ∈ successCodes
    ∨ reply.statusCode ∈ errorCodes
      ∧ ∃ mesg, reply.content = endpoint.errorPage reply.statusCode mesg

/-- An error whose text the status line cannot carry. -/
def Unsendable (result : Except Exc Response) : Prop :=
  ∃ code text, result = .error (.http code (some text)) ∧ ¬ Latin1 text

/-- An error with a listed status and a text in Latin-1 can be sent, and it is
    sent with its page. -/
theorem listed_sendError (endpoint : Endpoint) {code : Nat} (hcode : code ∈ errorCodes)
    {mesg : Option Str} (hmesg : Latin1 (mesg.getD [])) :
    ∃ reply, endpoint.sendError code mesg = .ok reply ∧ Listed endpoint reply :=
  ⟨_, if_pos hmesg, Or.inr ⟨hcode, mesg, rfl⟩⟩

/-- What is told is sent, unless its text is in the way. -/
theorem listed_rendered (endpoint : Endpoint) {result : Except Exc Response} (h : Told result) :
    (∃ reply, endpoint.rendered result = .ok reply ∧ Listed endpoint reply)
      ∨ Unsendable result ∧ endpoint.rendered result = .error aborted := by
  cases result with
  | ok response => exact Or.inl ⟨_, rfl, Or.inl (h.1 response rfl)⟩
  | error e =>
      cases e with
      | py cls text =>
          exact Or.inl (listed_sendError endpoint (show 500 ∈ errorCodes by decide) latin1_none)
      | http code mesg =>
          have hcode : code ∈ errorCodes := h.2 _ rfl code mesg rfl
          by_cases hlatin : Latin1 (mesg.getD [])
          · exact Or.inl (listed_sendError endpoint hcode hlatin)
          · refine Or.inr ⟨?_, if_neg hlatin⟩
            cases mesg with
            | none => exact absurd latin1_none hlatin
            | some text => exact ⟨code, text, rfl, hlatin⟩

/-- **A request handled alone is told how it has ended**, over any table. -/
theorem told_respond (req : Request) (t : Table) : Told (respond con req t).1.result := by
  obtain ⟨hok, herror⟩ := Prog.run_yields fair_exec (yields_handle con req) t
  cases hrun : (handle con req).run SqliteStore.exec t with
  | mk r t' =>
      rw [hrun] at hok herror
      rw [respond, hrun]
      cases r with
      | ok o => exact hok o rfl
      | error e => exact told_error (herror e rfl)

/-- Whatever decides about a request that could be read, one of the statuses is
    told. -/
theorem told_decided {γ σ : Type} (config : HttpConfig (γ × Request))
    (answer : γ → Request → σ → Except Exc Response × σ)
    (hanswer : ∀ con req s, Told (answer con req s).1) (sent : ClientRequest) (req : Request)
    (s : σ) : Told (Endpoint.decided config answer sent req s).1 := by
  rw [Endpoint.decided]
  split_ifs
  · exact told_error (fair_http (by decide) none)
  · cases hpipeline : pipeline config req with
    | error e => exact told_error (fair_pipeline config req hpipeline)
    | ok found => exact hanswer found.1 found.2 s

/-- What a server sends, whoever its consumers are, if these tell one of the
    statuses: a reply with one of them, or nothing, because the target cannot
    be read or the text of the error cannot be sent. -/
theorem listed_of_told {γ σ : Type} (endpoint : Endpoint) (config : HttpConfig (γ × Request))
    (answer : γ → Request → σ → Except Exc Response × σ)
    (hanswer : ∀ con req s, Told (answer con req s).1) (sent : ClientRequest) (s : σ) :
    (∃ reply, (endpoint.handleOneRequest config answer sent s).1 = .ok reply
        ∧ Listed endpoint reply)
      ∨ (endpoint.handleOneRequest config answer sent s).1 = .error aborted
        ∧ (endpoint.incoming sent = none ∧ (endpoint.handleOneRequest config answer sent s).2 = s
          ∨ ∃ req, endpoint.incoming sent = some req
            ∧ Unsendable (Endpoint.decided config answer sent req s).1) := by
  rw [Endpoint.handleOneRequest]
  split_ifs
  · exact Or.inl (listed_sendError endpoint (by decide) latin1_none)
  · cases hincoming : endpoint.incoming sent with
    | none => exact Or.inr ⟨rfl, Or.inl ⟨rfl, rfl⟩⟩
    | some req =>
        rcases listed_rendered endpoint (told_decided config answer hanswer sent req s) with
          hlisted | ⟨hunsendable, haborted⟩
        · exact Or.inl hlisted
        · exact Or.inr ⟨haborted, Or.inr ⟨req, rfl, hunsendable⟩⟩

end StatusCodes
