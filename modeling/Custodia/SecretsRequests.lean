import Custodia.SecretsCalls

/-! # SecretsRequests — what a request asks for

    A request that is read successfully is one of six kinds, one for each
    operation; every other request is refused before any store call.

    * `handle_get` … `handle_delete`: a request of each kind is handled by its
      tree of calls;
    * `request_kind`: there are no other requests. -/

namespace SecretsRequests

open Interaction PosixPath PyValues Messages SqliteStore SecretsConsumer SecretsCalls

/-- The trail of a request. -/
def segments (req : Request) : List Str := req.trail.getD []

/-- The store key of an entry or a container. -/
def entryKey (req : Request) : Str := join "keys" (segments req)

/-- The key a PUT or POST stores. -/
def newEntry (req : Request) : Str :=
  if req.command = "POST".toList then rstrip (entryKey req) else entryKey req

variable (con : Secrets)

/-! ## Kinds of requests -/

/-- A GET of a key: the trail has two segments at least and names no container,
    the client can be named, and the query asks for a message type that is
    allowed. Then one `get` follows. -/
structure Gets (req : Request) (client : Str) (handler : Handler) : Prop where
  command : req.command = "GET".toList
  deep : 2 ≤ (segments req).length
  entry : ¬ namesContainer (segments req)
  named : clientName req = .ok client
  message : parseQuery con req (joinSlash (segments req)) = .ok handler

/-- A GET of a container: there is no trail or it ends in an empty segment, a
    key can be made of it, if only of the default namespace, and the query asks
    for a message type that is allowed. -/
structure Lists (req : Request) (key : Str) (handler : Handler) : Prop where
  command : req.command = "GET".toList
  container : segments req = [] ∨ namesContainer (segments req)
  keyed : dbContainerKey req.defaultNamespace (segments req) = .ok key
  message : parseQuery con req (joinSlash (segments req)) = .ok handler

/-- A PUT of a secret: the trail has two segments at least and names no
    container, the client can be named, and the body is a message of an allowed
    type, or octets. -/
structure Puts (req : Request) (client : Str) (msg : Handler) : Prop where
  command : req.command = "PUT".toList
  deep : 2 ≤ (segments req).length
  entry : ¬ namesContainer (segments req)
  named : clientName req = .ok client
  message : parseSetBody con req (joinSlash (segments req)) = .ok msg

/-- A POST of a container: the trail has two segments at least, the last one
    empty, and the body, if there is one, is a message of an allowed type. -/
structure Posts (req : Request) (msg : Handler) : Prop where
  command : req.command = "POST".toList
  deep : 2 ≤ (segments req).length
  container : namesContainer (segments req)
  message : parseMaybeBody con req (joinSlash (segments req)) = .ok msg

/-- A DELETE of a container: the trail has two segments at least, the last one
    empty, and the body, if there is one, is a message of an allowed type. -/
structure Destroys (req : Request) (msg : Handler) : Prop where
  command : req.command = "DELETE".toList
  deep : 2 ≤ (segments req).length
  container : namesContainer (segments req)
  message : parseMaybeBody con req (joinSlash (segments req)) = .ok msg

/-- A DELETE of a key: the trail has two segments at least and names no
    container, the client can be named, and the body, if there is one, is a
    message of an allowed type. -/
structure Deletes (req : Request) (client : Str) (msg : Handler) : Prop where
  command : req.command = "DELETE".toList
  deep : 2 ≤ (segments req).length
  entry : ¬ namesContainer (segments req)
  named : clientName req = .ok client
  message : parseMaybeBody con req (joinSlash (segments req)) = .ok msg

/-- The outcome of an operation that emits no record. -/
def plain (r : Except Exc Response) : Outcome := ⟨r >>= finishResponse, []⟩

/-- The outcome of an operation that is audited. -/
def recorded (ok fail : Nat) (client : Str) (trail : List Str) (r : Except Exc Response) :
    Outcome :=
  let action := match r with
    | .ok _ => ok
    | .error _ => fail
  ⟨r >>= finishResponse, [keyAccess action client (joinSlash trail)]⟩

/-- The request ended in an exception, with nothing but denials on record. -/
def Refused (o : Outcome) : Prop :=
  (∃ e, o.result = .error e)
  ∧ (o.audit = [] ∨ ∃ action client key,
      (action = auditGetDenied ∨ action = auditSetDenied ∨ action = auditDelDenied)
      ∧ o.audit = [keyAccess action client key])

/-- An exception is no answer. -/
theorem not_answered_error {e : Exc} {audit : List AuditRecord} {code : Nat} :
    ¬ (⟨.error e, audit⟩ : Outcome).Answered code := by
  rintro ⟨response, h, -⟩
  exact nomatch h

/-- A `span` that fails is answered 200 or not at all. -/
theorem span_error_not_created {con : Secrets} {msg : Handler} {e : Exc} :
    ¬ (plain (spanFinish con msg (.error e))).Answered 201 := by
  by_cases hexists : e.isA .csStoreExists = true
  · have hplain : spanFinish con msg (.error e) = .ok ⟨some 200, none, .json .null⟩ :=
      if_pos hexists
    rw [hplain]
    rintro ⟨response, hok, hcode⟩
    obtain rfl := Except.ok.inj hok
    exact absurd hcode (by decide)
  · have hplain : spanFinish con msg (.error e) = .error (storeError e) := if_neg hexists
    rw [hplain]
    exact not_answered_error

/-! ## Handling a request of each kind -/

variable {con} {req : Request} {client key : Str} {msg : Handler}

/-- Handling a request is running the method that is found, and then making what
    it returns into what is sent. -/
theorem handle_eq : handle con req = (method con req).bind (fun o =>
    .ret { o with result := o.result >>= finishResponse }) := rfl

/-- A method that leaves no record ends as its operation does, with the response
    made into what is sent. -/
theorem unaudited_finish (fn : StoreProg Response) :
    (unaudited fn).bind (fun o => .ret { o with result := o.result >>= finishResponse })
      = fn.conclude plain := by
  have h : unaudited fn = fn.conclude (fun r => (⟨r, []⟩ : Outcome)) :=
    Prog.attempt_bind_ret fn _
  rw [h, Prog.conclude_bind_ret]
  rfl

/-- A method that leaves a record ends as its operation does, with the record of
    the way it went. -/
theorem audited_finish {ok fail : Nat} {fn : StoreProg Response} {trail : List Str}
    (h : clientName req = .ok client) :
    (audited ok fail fn trail req).bind
        (fun o => .ret { o with result := o.result >>= finishResponse })
      = fn.conclude (recorded ok fail client trail) := by
  have haudited : audited ok fail fn trail req = fn.conclude (fun r =>
      (⟨r, [keyAccess (match r with | .ok _ => ok | .error _ => fail) client
        (joinSlash trail)]⟩ : Outcome)) := by
    rw [audited]
    rw [h]
    exact Prog.attempt_bind_ret fn _
  rw [haudited, Prog.conclude_bind_ret]
  rfl

/-- A trail of two segments is not empty. -/
theorem ne_nil_of_deep {trail : List Str} (h : 2 ≤ trail.length) : trail ≠ [] := by
  rintro rfl
  exact absurd h (by decide)

private theorem method_get (h : req.command = "GET".toList) :
    method con req = methodGet con req := if_pos h

private theorem method_put (h : req.command = "PUT".toList) :
    method con req = methodPut con req := by
  rw [method, h]
  rfl

private theorem method_post (h : req.command = "POST".toList) :
    method con req = methodPost con req := by
  rw [method, h]
  rfl

private theorem method_delete (h : req.command = "DELETE".toList) :
    method con req = methodDelete con req := by
  rw [method, h]
  rfl

private theorem not_container {trail : List Str} (hdeep : 2 ≤ trail.length)
    (h : ¬ namesContainer trail) : ¬ (trail = [] ∨ namesContainer trail) := by
  rintro (hnil | hcont)
  · exact ne_nil_of_deep hdeep hnil
  · exact h hcont

/-- **A GET of a secret is one `get`**, and a finish that makes no call. -/
theorem handle_get (h : Gets con req client msg) :
    handle con req = (Prog.call (.get (entryKey req)) (fun (r : Except Exc SqlValue) =>
        .ofExcept (getFinish con req msg r))).conclude
      (recorded auditGetAllowed auditGetDenied client (segments req)) := by
  have hm : method con req = audited auditGetAllowed auditGetDenied
      (intGetKey con (segments req) req) (segments req) req := by
    rw [method_get h.command]
    exact if_neg (not_container h.deep h.entry)
  rw [handle_eq, hm, audited_finish h.named, intGetKey_eq h.message (dbKey_of_le h.deep)]
  rfl

/-- **A GET of a container is one `list`**, and a finish that makes no call. -/
theorem handle_list (h : Lists con req key msg) :
    handle con req
      = (Prog.call (.list key) (fun (r : Except Exc (Option (List Str))) =>
          .ofExcept (listFinish con msg r))).conclude plain := by
  have hm : method con req = unaudited (listContainer con (segments req) req) := by
    rw [method_get h.command]
    exact if_pos h.container
  rw [handle_eq, hm, unaudited_finish, listContainer_eq h.message h.keyed]

/-- **A PUT is a parent check and one `set`** of the message's payload, never as
    a replacement. -/
theorem handle_put (h : Puts con req client msg) :
    handle con req = (underParent req.defaultNamespace (segments req)
        (fun e => .raise (setError e))
        (.call (.set (entryKey req) msg.payload false) (fun (r : Except Exc Unit) =>
          .ofExcept (setFinish con msg r)))).conclude
      (recorded auditSetAllowed auditSetDenied client (segments req)) := by
  have hm : method con req = audited auditSetAllowed auditSetDenied
      (intSetKey con (segments req) req) (segments req) req := by
    rw [method_put h.command]
    exact if_neg (not_container h.deep h.entry)
  rw [handle_eq, hm, audited_finish h.named, intSetKey_eq h.message (dbKey_of_le h.deep)]
  rfl

/-- **A POST of a top container is one `span`**: nothing is looked for above it. -/
theorem handle_post_top (h : Posts con req msg) (hlen : (segments req).length = 2) :
    handle con req
      = (Prog.call (.span (entryKey req)) (fun (r : Except Exc Unit) =>
          .ofExcept (spanFinish con msg r))).conclude plain := by
  have hm : method con req = unaudited (create con (segments req) req) := by
    rw [method_post h.command]
    exact if_pos h.container
  rw [handle_eq, hm, unaudited_finish,
    create_top_eq h.message (dbContainerKey_of_le h.deep) (by omega)]
  rfl

/-- **A POST further down is a parent check and one `span`.** -/
theorem handle_post_below (h : Posts con req msg) (hlen : 2 < (segments req).length) :
    handle con req = (underParent req.defaultNamespace (segments req).dropLast
        (fun e => .ofExcept (spanFinish con msg (.error e)))
        (.call (.span (entryKey req)) (fun (r : Except Exc Unit) =>
          .ofExcept (spanFinish con msg r)))).conclude plain := by
  have hm : method con req = unaudited (create con (segments req) req) := by
    rw [method_post h.command]
    exact if_pos h.container
  rw [handle_eq, hm, unaudited_finish,
    create_below_eq h.message (dbContainerKey_of_le h.deep) hlen]
  rfl

/-- **A DELETE of a container is one `list`**, and a `cut` where the list is
    empty. -/
theorem handle_destroy (h : Destroys con req msg) :
    handle con req
      = (Prog.call (.list (entryKey req))
          (destroyListed con msg (entryKey req))).conclude plain := by
  have hm : method con req = unaudited (destroy con (segments req) req) := by
    rw [method_delete h.command, methodDelete]
    exact (if_neg (ne_nil_of_deep h.deep)).trans (if_pos h.container)
  rw [handle_eq, hm, unaudited_finish,
    destroy_eq h.message (dbContainerKey_of_le h.deep)]
  rfl

/-- **A DELETE of a secret is one `cut`**, and a finish that makes no call;
    nothing is looked for below its key. -/
theorem handle_delete (h : Deletes con req client msg) :
    handle con req = (Prog.call (.cut (entryKey req)) (fun (r : Except Exc Bool) =>
        .ofExcept (cutFinish con msg r))).conclude
      (recorded auditDelAllowed auditDelDenied client (segments req)) := by
  have hm : method con req = audited auditDelAllowed auditDelDenied
      (intDelKey con (segments req) req) (segments req) req := by
    rw [method_delete h.command, methodDelete]
    exact (if_neg (ne_nil_of_deep h.deep)).trans (if_neg h.entry)
  rw [handle_eq, hm, audited_finish h.named, intDelKey_eq h.message (dbKey_of_le h.deep)]
  rfl

/-! ## There are no other requests -/

/-- What a request asks for. The six kinds exclude one another and carry what
    was found out before the first call; every other request is refused without
    any call. -/
inductive Kind (con : Secrets) (req : Request) : Prop where
  | get (client : Str) (handler : Handler) (h : Gets con req client handler)
  | list (key : Str) (handler : Handler) (h : Lists con req key handler)
  | put (client : Str) (msg : Handler) (h : Puts con req client msg)
  | post (msg : Handler) (h : Posts con req msg)
  | destroy (msg : Handler) (h : Destroys con req msg)
  | delete (client : Str) (msg : Handler) (h : Deletes con req client msg)
  | refused (o : Outcome) (hrun : handle con req = .ret o) (h : Refused o)

/-- A method that raises at once is refused. -/
theorem kind_of_unaudited {fn : StoreProg Response} {e : Exc} (h : fn = .raise e)
    (hm : method con req = unaudited fn) : Kind con req := by
  refine .refused (plain (.error e)) ?_ ⟨⟨e, rfl⟩, Or.inl rfl⟩
  rw [handle_eq, hm, unaudited_finish, h]
  rfl

/-- An audited method that raises at once is refused, on record; without a
    client name there is not even a record. -/
theorem kind_of_audited {fn : StoreProg Response} {ok fail : Nat} {trail : List Str}
    (hfail : fail = auditGetDenied ∨ fail = auditSetDenied ∨ fail = auditDelDenied)
    (h : ∀ client, clientName req = .ok client → ∃ e, fn = .raise e)
    (hm : method con req = audited ok fail fn trail req) : Kind con req := by
  cases hname : clientName req with
  | error e =>
      -- the client is named before the audited method is called
      refine .refused ⟨.error e, []⟩ ?_ ⟨⟨e, rfl⟩, Or.inl rfl⟩
      rw [handle_eq, hm]
      rw [audited]
      rw [hname]
      rfl
  | ok client =>
      obtain ⟨e, he⟩ := h client hname
      refine .refused (recorded ok fail client trail (.error e)) ?_
        ⟨⟨e, rfl⟩, Or.inr ⟨fail, client, joinSlash trail, hfail, rfl⟩⟩
      rw [handle_eq, hm, audited_finish hname, he]
      rfl

/-- A request that a method refuses at once is of the refused kind. -/
theorem kind_of_error {e : Exc} (hm : method con req = .ret ⟨.error e, []⟩) :
    Kind con req := by
  refine .refused ⟨.error e, []⟩ ?_ ⟨⟨e, rfl⟩, Or.inl rfl⟩
  rw [handle_eq, hm]
  rfl

private theorem dbKey_shallow {trail : List Str} (h : ¬ 2 ≤ trail.length) :
    dbKey trail = .error (.http 403 none) := if_pos (by omega)

/-- Without a namespace to fall back on, a single empty segment is refused. -/
private theorem dbContainerKey_shallow {trail : List Str} (hcont : namesContainer trail)
    (h : ¬ 2 ≤ trail.length) : dbContainerKey none trail = .error (.http 403 none) := by
  match trail, hcont, h with
  | [a], hcont, _ =>
      obtain rfl : a = [] := Option.some.inj hcont
      rfl
  | _ :: _ :: _, _, h => exact absurd (by simp) h

/-- The kinds of a GET: a secret, a container, or refused. -/
theorem kind_of_get (hget : req.command = "GET".toList) : Kind con req := by
  by_cases hcont : segments req = [] ∨ namesContainer (segments req)
  · have hm : method con req = unaudited (listContainer con (segments req) req) :=
      (method_get hget).trans (if_pos hcont)
    cases hmsg : parseQuery con req (joinSlash (segments req)) with
    | error e => exact kind_of_unaudited (by unfold listContainer; rw [hmsg]) hm
    | ok msg =>
        cases hkey : dbContainerKey req.defaultNamespace (segments req) with
        | error e => exact kind_of_unaudited (by unfold listContainer; rw [hmsg, hkey]) hm
        | ok key => exact .list key msg ⟨hget, hcont, hkey, hmsg⟩
  · have hm : method con req = audited auditGetAllowed auditGetDenied
        (intGetKey con (segments req) req) (segments req) req :=
      (method_get hget).trans (if_neg hcont)
    by_cases hok : ∃ client msg, Gets con req client msg
    · obtain ⟨client, msg, h⟩ := hok
      exact .get client msg h
    · refine kind_of_audited (Or.inl rfl) ?_ hm
      intro client hname
      rw [intGetKey]
      cases hmsg : parseQuery con req (joinSlash (segments req)) with
      | error e => exact ⟨_, rfl⟩
      | ok msg =>
          by_cases hdeep : 2 ≤ (segments req).length
          · exact absurd ⟨client, msg, hget, hdeep, fun h => hcont (Or.inr h), hname, hmsg⟩ hok
          · rw [dbKey_shallow hdeep]
            exact ⟨_, rfl⟩

/-- The kinds of a PUT: a secret, or refused; a container cannot be stored. -/
theorem kind_of_put (hput : req.command = "PUT".toList) : Kind con req := by
  by_cases hcont : segments req = [] ∨ namesContainer (segments req)
  · exact kind_of_error ((method_put hput).trans (if_pos hcont))
  · have hm : method con req = audited auditSetAllowed auditSetDenied
        (intSetKey con (segments req) req) (segments req) req :=
      (method_put hput).trans (if_neg hcont)
    by_cases hok : ∃ client msg, Puts con req client msg
    · obtain ⟨client, msg, h⟩ := hok
      exact .put client msg h
    · refine kind_of_audited (Or.inr (Or.inl rfl)) ?_ hm
      intro client hname
      rw [intSetKey]
      cases hmsg : parseSetBody con req (joinSlash (segments req)) with
      | error e => exact ⟨_, rfl⟩
      | ok msg =>
          by_cases hdeep : 2 ≤ (segments req).length
          · exact absurd ⟨client, msg, hput, hdeep, fun h => hcont (Or.inr h), hname, hmsg⟩ hok
          · rw [dbKey_shallow hdeep]
            exact ⟨_, rfl⟩

/-- The kinds of a POST: a container, or refused. -/
theorem kind_of_post (hpost : req.command = "POST".toList) : Kind con req := by
  by_cases hcont : namesContainer (segments req)
  · have hm : method con req = unaudited (create con (segments req) req) :=
      (method_post hpost).trans (if_pos hcont)
    cases hmsg : parseMaybeBody con req (joinSlash (segments req)) with
    | error e => exact kind_of_unaudited (by unfold create; rw [hmsg]) hm
    | ok msg =>
        by_cases hdeep : 2 ≤ (segments req).length
        · exact .post msg ⟨hpost, hdeep, hcont, hmsg⟩
        -- `_create` passes no default namespace, unlike `_list`
        · refine kind_of_unaudited (e := .http 403 none) ?_ hm
          rw [create]
          rw [hmsg, dbContainerKey_shallow hcont hdeep]
  · exact kind_of_error ((method_post hpost).trans (if_neg hcont))

/-- The kinds of a DELETE: a secret, a container, or refused. -/
theorem kind_of_delete (hdelete : req.command = "DELETE".toList) : Kind con req := by
  by_cases hnil : segments req = []
  · exact kind_of_error ((method_delete hdelete).trans (if_pos hnil))
  by_cases hcont : namesContainer (segments req)
  · have hm : method con req = unaudited (destroy con (segments req) req) :=
      (method_delete hdelete).trans ((if_neg hnil).trans (if_pos hcont))
    cases hmsg : parseMaybeBody con req (joinSlash (segments req)) with
    | error e => exact kind_of_unaudited (by unfold destroy; rw [hmsg]) hm
    | ok msg =>
        by_cases hdeep : 2 ≤ (segments req).length
        · exact .destroy msg ⟨hdelete, hdeep, hcont, hmsg⟩
        · refine kind_of_unaudited (e := .http 403 none) ?_ hm
          rw [destroy]
          rw [hmsg, dbContainerKey_shallow hcont hdeep]
  · have hm : method con req = audited auditDelAllowed auditDelDenied
        (intDelKey con (segments req) req) (segments req) req :=
      (method_delete hdelete).trans ((if_neg hnil).trans (if_neg hcont))
    by_cases hok : ∃ client msg, Deletes con req client msg
    · obtain ⟨client, msg, h⟩ := hok
      exact .delete client msg h
    · refine kind_of_audited (Or.inr (Or.inr rfl)) ?_ hm
      intro client hname
      rw [intDelKey]
      cases hmsg : parseMaybeBody con req (joinSlash (segments req)) with
      | error e => exact ⟨_, rfl⟩
      | ok msg =>
          by_cases hdeep : 2 ≤ (segments req).length
          · exact absurd ⟨client, msg, hdelete, hdeep, hcont, hname, hmsg⟩ hok
          · rw [dbKey_shallow hdeep]
            exact ⟨_, rfl⟩

/-- **A request is of one of the six kinds, or is refused** before any call. -/
theorem request_kind (con : Secrets) (req : Request) : Kind con req := by
  by_cases hget : req.command = "GET".toList
  · exact kind_of_get hget
  by_cases hput : req.command = "PUT".toList
  · exact kind_of_put hput
  by_cases hpost : req.command = "POST".toList
  · exact kind_of_post hpost
  by_cases hdelete : req.command = "DELETE".toList
  · exact kind_of_delete hdelete
  · refine kind_of_error (e := .http 501 none) ?_
    rw [method, if_neg hget, if_neg hput, if_neg hpost, if_neg hdelete]
    rfl

/-! ## Requests that are refused at once -/

/-- A body that cannot be read is answered with 400 or 406. -/
theorem setParseError_code (e : Exc) :
    ∃ code mesg, setParseError e = .http code mesg ∧ (code = 406 ∨ code = 400) := by
  rw [setParseError]
  split_ifs
  · exact ⟨406, _, rfl, Or.inl rfl⟩
  · exact ⟨406, _, rfl, Or.inl rfl⟩
  · exact ⟨400, _, rfl, Or.inr rfl⟩

/-- Where a client has no name, it is Python that complains. -/
theorem clientName_error {e : Exc} (h : clientName req = .error e) :
    ∃ cls text, e = .py cls text := by
  rw [clientName] at h
  split at h
  · exact nomatch h
  · split at h
    · exact nomatch h
    · exact ⟨_, _, (Except.error.inj h).symm⟩
    · exact nomatch h

/-- A PUT that is refused at once is not a conflict. -/
theorem put_refused_status (hput : req.command = "PUT".toList) {o : Outcome}
    (hrun : handle con req = .ret o) : o.status ≠ 409 := by
  by_cases hcont : segments req = [] ∨ namesContainer (segments req)
  · rw [handle_eq, (method_put hput).trans (if_pos hcont)] at hrun
    injection hrun with ho
    rw [← ho]
    exact fun h => absurd (show (405 : Nat) = 409 from h) (by decide)
  · have hm : method con req = audited auditSetAllowed auditSetDenied
        (intSetKey con (segments req) req) (segments req) req :=
      (method_put hput).trans (if_neg hcont)
    cases hname : clientName req with
    | error e =>
        obtain ⟨cls, text, rfl⟩ := clientName_error hname
        rw [handle_eq, hm] at hrun
        rw [audited] at hrun
        rw [hname] at hrun
        injection hrun with ho
        rw [← ho]
        exact fun h => absurd (show (500 : Nat) = 409 from h) (by decide)
    | ok client =>
        rw [handle_eq, hm, audited_finish hname] at hrun
        rw [intSetKey] at hrun
        cases hmsg : parseSetBody con req (joinSlash (segments req)) with
        | error e =>
            obtain ⟨code, mesg, hcode, hne⟩ := setParseError_code e
            rw [hmsg] at hrun
            simp only [hcode] at hrun
            injection hrun with ho
            rw [← ho]
            rcases hne with rfl | rfl
            · exact fun h => absurd (show (406 : Nat) = 409 from h) (by decide)
            · exact fun h => absurd (show (400 : Nat) = 409 from h) (by decide)
        | ok msg =>
            by_cases hdeep : 2 ≤ (segments req).length
            · have hkey := handle_put ⟨hput, hdeep, fun h => hcont (Or.inr h), hname, hmsg⟩
              rw [handle_eq, hm, audited_finish hname] at hkey
              rw [intSetKey] at hkey
              cases (hrun.symm.trans hkey)
            · rw [hmsg, dbKey_shallow hdeep] at hrun
              injection hrun with ho
              rw [← ho]
              exact fun h => absurd (show (403 : Nat) = 409 from h) (by decide)

/-- A POST that is refused at once is not a success. -/
theorem post_refused_status (hpost : req.command = "POST".toList) {o : Outcome}
    (hrun : handle con req = .ret o) : o.status ≠ 200 := by
  by_cases hcont : namesContainer (segments req)
  · have hm : method con req = unaudited (create con (segments req) req) :=
      (method_post hpost).trans (if_pos hcont)
    rw [handle_eq, hm, unaudited_finish] at hrun
    cases hmsg : parseMaybeBody con req (joinSlash (segments req)) with
    | error e =>
        rw [create] at hrun
        rw [hmsg] at hrun
        injection hrun with ho
        rw [← ho]
        exact fun h => absurd (show (406 : Nat) = 200 from h) (by decide)
    | ok msg =>
        by_cases hdeep : 2 ≤ (segments req).length
        · have h : Posts con req msg := ⟨hpost, hdeep, hcont, hmsg⟩
          rw [← unaudited_finish, ← hm, ← handle_eq] at hrun
          by_cases hlen : (segments req).length = 2
          · cases (hrun.symm.trans (handle_post_top h hlen))
          · cases (hrun.symm.trans (handle_post_below h (by omega)))
        · rw [create] at hrun
          rw [hmsg, dbContainerKey_shallow hcont hdeep] at hrun
          injection hrun with ho
          rw [← ho]
          exact fun h => absurd (show (403 : Nat) = 200 from h) (by decide)
  · rw [handle_eq, (method_post hpost).trans (if_neg hcont)] at hrun
    injection hrun with ho
    rw [← ho]
    exact fun h => absurd (show (405 : Nat) = 200 from h) (by decide)

/-! ## Which calls a request can make -/

section Issues

variable {P : Call → Prop}

/-- A parent check issues a `list` and perhaps a `span` of the parent's key,
    before what it guards. -/
theorem onlyIssues_underParent {β : Type} {default : Option Str} {trail : List Str}
    {fail : Exc → StoreProg β} {next : StoreProg β} (hlist : P (.list (parentKey trail)))
    (hspan : P (.span (parentKey trail))) (hfail : ∀ e, (fail e).OnlyIssues P)
    (hnext : next.OnlyIssues P) : (underParent default trail fail next).OnlyIssues P := by
  refine ⟨hlist, ?_⟩
  intro r
  match r with
  | .error e => exact hfail _
  | .ok (some names) => exact hnext
  | .ok none =>
      show (if onlyNamespaceMissing default trail then _ else _ : StoreProg β).OnlyIssues P
      split_ifs
      · refine ⟨hspan, ?_⟩
        intro r
        match r with
        | .error e => exact hfail e
        | .ok u => exact hnext
      · exact hfail _

/-- A single call with a finish issues that call. -/
theorem onlyIssues_call {α : Type} {o : Call} {f : Except Exc o.Ans → Except Exc α} (ho : P o) :
    (Prog.call o (fun r => .ofExcept (f r)) : StoreProg α).OnlyIssues P :=
  ⟨ho, fun r => Prog.onlyIssues_ofExcept (f r)⟩

/-- **The calls of each kind of request**: what holds of them holds of every
    call that handling a request can make. -/
theorem onlyIssues_kinds
    (hget : ∀ client msg, Gets con req client msg → P (.get (entryKey req)))
    (hlist : ∀ key msg, Lists con req key msg → P (.list key))
    (hset : ∀ client msg, Puts con req client msg → P (.set (entryKey req) msg.payload false))
    (hspan : ∀ msg, Posts con req msg → P (.span (entryKey req)))
    (hparent : ∀ trail, 2 ≤ trail.length → trail <+: segments req →
      P (.list (parentKey trail)) ∧ P (.span (parentKey trail)))
    (hdestroy : ∀ msg, Destroys con req msg →
      P (.list (entryKey req)) ∧ P (.cut (rstrip (entryKey req))))
    (hcut : ∀ client msg, Deletes con req client msg → P (.cut (entryKey req))) :
    (handle con req).OnlyIssues P := by
  cases request_kind con req with
  | get client msg h =>
      rw [handle_get h]
      exact Prog.onlyIssues_conclude _ (onlyIssues_call (hget client msg h))
  | list key msg h =>
      rw [handle_list h]
      exact Prog.onlyIssues_conclude _ (onlyIssues_call (hlist key msg h))
  | put client msg h =>
      rw [handle_put h]
      obtain ⟨hl, hs⟩ := hparent (segments req) h.deep (List.prefix_refl _)
      exact Prog.onlyIssues_conclude _
        (onlyIssues_underParent hl hs (fun e => trivial) (onlyIssues_call (hset client msg h)))
  | post msg h =>
      by_cases hlen : (segments req).length = 2
      · rw [handle_post_top h hlen]
        exact Prog.onlyIssues_conclude _ (onlyIssues_call (hspan msg h))
      · -- the parent of a container is looked up without the empty segment
        have hdeep := h.deep
        rw [handle_post_below h (by omega)]
        obtain ⟨hl, hs⟩ := hparent (segments req).dropLast
          (by rw [List.length_dropLast]; omega) (List.dropLast_prefix _)
        exact Prog.onlyIssues_conclude _ (onlyIssues_underParent hl hs
          (fun e => Prog.onlyIssues_ofExcept _) (onlyIssues_call (hspan msg h)))
  | destroy msg h =>
      rw [handle_destroy h]
      refine Prog.onlyIssues_conclude _ ⟨(hdestroy msg h).1, ?_⟩
      intro r
      match r with
      | .error e => trivial
      | .ok none => trivial
      -- only what is listed as empty is cut
      | .ok (some []) => exact onlyIssues_call (hdestroy msg h).2
      | .ok (some (a :: l)) => trivial
  | delete client msg h =>
      rw [handle_delete h]
      exact Prog.onlyIssues_conclude _ (onlyIssues_call (hcut client msg h))
  | refused o hrun h =>
      rw [hrun]
      trivial

/-- The calls that handling a request can make: none of them overwrites. -/
theorem onlyIssues_handle
    (hentry : ∀ c : Call, c.replaces = false → c.key = entryKey req → P c)
    (hlist : ∀ key handler, Lists con req key handler → P (.list key))
    (hparent : ∀ trail, 2 ≤ trail.length → trail <+: segments req →
      ∀ c : Call, c.replaces = false → c.key = parentKey trail → P c)
    (hstrip : P (.cut (rstrip (entryKey req)))) :
    (handle con req).OnlyIssues P :=
  onlyIssues_kinds (fun _ _ _ => hentry _ rfl rfl) hlist (fun _ _ _ => hentry _ rfl rfl)
    (fun _ _ => hentry _ rfl rfl)
    (fun trail hdeep hpre =>
      ⟨hparent trail hdeep hpre _ rfl rfl, hparent trail hdeep hpre _ rfl rfl⟩)
    (fun _ _ => ⟨hentry _ rfl rfl, hstrip⟩) (fun _ _ _ => hentry _ rfl rfl)

/-- The same by what is called: only a GET of a key reads, only a PUT sets. -/
theorem onlyIssues_handle_of (hlist : ∀ key, P (.list key)) (hspan : ∀ key, P (.span key))
    (hcut : ∀ key, P (.cut key))
    (hget : ∀ client msg, Gets con req client msg → P (.get (entryKey req)))
    (hset : ∀ client msg, Puts con req client msg →
      P (.set (entryKey req) msg.payload false)) : (handle con req).OnlyIssues P :=
  onlyIssues_kinds hget (fun key _ _ => hlist key) hset (fun _ _ => hspan _)
    (fun _ _ _ => ⟨hlist _, hspan _⟩) (fun _ _ => ⟨hlist _, hcut _⟩) (fun _ _ _ => hcut _)

end Issues

end SecretsRequests
