import Custodia.SecretsRequests

/-! # RequestShapes — where the answer to a request is made

    A method refuses the request at once, or it runs an operation, with or
    without an audit record. An operation reads the message of the request
    first; only this can raise an `HTTPError` that has a message.

    * `request_shape`: every request is handled in one of these ways;
    * `mesg_iff`: the answer carries a message exactly when the message of the
      request cannot be read. -/

namespace RequestShapes

open Interaction PosixPath PyValues Messages SqliteStore SecretsConsumer SecretsRequests

/-! ## Exceptions without a message -/

/-- The exception is answered without a message. -/
def Silent (e : Exc) : Prop := ∀ code mesg, e ≠ .http code (some mesg)

/-- An `HTTPError` that is raised without a message is silent, whatever its
    status. -/
theorem silent_http (code : Nat) : Silent (.http code none) := by
  intro code' mesg h
  cases h

/-- An exception of Python is silent: the handler answers it with its own 500
    and never shows its text. -/
theorem silent_py (cls : ExcClass) (text : Str) : Silent (.py cls text) := by
  intro code mesg h
  cases h

/-- A computation that raises only exceptions of Python raises only silent ones. -/
theorem silent_of_raisesPy {α : Type} {x : Except Exc α} (hx : RaisesPy x) (e : Exc)
    (h : x = .error e) : Silent e := by
  obtain ⟨cls, text, rfl⟩ := hx e h
  exact silent_py cls text

/-- Two computations in a row raise only silent exceptions if either of them
    does so on its own. -/
theorem silent_bind {α β : Type} {x : Except Exc α} {f : α → Except Exc β}
    (hx : ∀ e, x = .error e → Silent e) (hf : ∀ a e, f a = .error e → Silent e) (e : Exc)
    (h : (x >>= f) = .error e) : Silent e := by
  cases x with
  | error e' => exact hx e (congrArg Except.error (Except.error.inj h))
  | ok a => exact hf a e h

/-- The shared `except` clauses make no message: what was silent before them is
    silent after them. -/
theorem silent_storeError {e : Exc} (h : Silent e) : Silent (storeError e) := by
  rw [storeError]
  split_ifs
  · exact silent_http 403
  · exact silent_http 500
  · exact silent_http 501
  · exact h

/-- The `except` clauses of `_int_set_key` make no message either, the 409 of an
    existing key included. -/
theorem silent_setError {e : Exc} (h : Silent e) : Silent (setError e) := by
  rw [setError]
  split_ifs
  · exact silent_http 409
  · exact silent_storeError h

/-- A trail that is too short for a key is refused without a message. -/
theorem silent_dbKey (trail : List Str) (e : Exc) (h : dbKey trail = .error e) : Silent e := by
  rw [dbKey] at h
  split_ifs at h
  obtain rfl := Except.error.inj h
  exact silent_http 403

/-- A trail that names no container is refused without a message, also where the
    default namespace would have to stand in for it. -/
theorem silent_dbContainerKey (default : Option Str) (trail : List Str) (e : Exc)
    (h : dbContainerKey default trail = .error e) : Silent e := by
  simp only [dbContainerKey] at h
  split_ifs at h
  · exact silent_dbKey trail e h
  · obtain rfl := Except.error.inj h
    exact silent_http 403
  · cases default with
    | none =>
        obtain rfl := Except.error.inj h
        exact silent_http 403
    | some default => exact silent_dbKey _ e h

/-! ## Building the answer -/

/-- What goes wrong when a message is asked for its reply carries no message
    that a client would see. -/
theorem silent_reply (rt : Runtime) (output : Json) (msg : Handler) (e : Exc)
    (h : msg.reply rt output = .error e) : Silent e :=
  silent_of_raisesPy (raisesPy_reply rt output msg) e h

/-- The response to a request that has changed the store is made without a
    message of its own. -/
theorem silent_changedResponse (con : Secrets) (msg : Handler) (withReply noReply : Nat) (e : Exc)
    (h : changedResponse con msg withReply noReply = .error e) : Silent e := by
  refine silent_bind (silent_reply con.runtime .null msg) ?_ e h
  intro output e h
  cases output <;> cases h

/-- A function of the result changes nothing about what is raised. -/
theorem raisesPy_map {α β : Type} {x : Except Exc α} (f : α → β) (hx : RaisesPy x) :
    RaisesPy (x.map f) := by
  intro e h
  cases x with
  | error e' => exact hx e (congrArg Except.error (Except.error.inj h))
  | ok a => cases h

/-- Decoding base 64 raises only exceptions of Python, wherever in a quantum it
    begins. The induction is on the text that is left. -/
theorem raisesPy_b64decodeFrom (quad left pads : Nat) (s : Str) :
    RaisesPy (b64decodeFrom quad left pads s) := by
  fun_induction b64decodeFrom quad left pads s with
  | case1 => exact raisesPy_ok _
  | case2 => exact raisesPy_py _ _
  | case3 => exact raisesPy_py _ _
  | case4 => exact raisesPy_ok _
  | case5 quad left pads s hfew ih => exact ih
  | case6 quad left pads c s hpad hvalue ih => exact ih
  | case7 left pads c s hpad v hvalue ih => exact ih
  | case8 left pads c s hpad v hvalue ih => exact raisesPy_map _ ih
  | case9 left pads c s hpad v hvalue ih => exact raisesPy_map _ ih
  | case10 quad left pads c s hpad v hvalue h0 h1 h2 ih => exact raisesPy_map _ ih

/-- Decoding a whole base 64 text raises only exceptions of Python. -/
theorem raisesPy_b64decode (s : Str) : RaisesPy (b64decode s) := by
  rw [b64decode]
  split_ifs
  · exact raisesPy_b64decodeFrom 0 0 0 s
  · exact raisesPy_py _ _

/-- A reply whose value cannot be decoded to octets is answered without a
    message. -/
theorem silent_decodeReplyValue (reply : Json) (e : Exc) (h : decodeReplyValue reply = .error e) :
    Silent e := by
  simp only [decodeReplyValue] at h
  split at h
  · split at h
    · exact silent_of_raisesPy (raisesPy_b64decode _) e h
    · obtain rfl := Except.error.inj h
      exact silent_py _ _
  · obtain rfl := Except.error.inj h
    exact silent_py _ _

/-- Turning a response into what is sent raises nothing but exceptions of
    Python. -/
theorem silent_finishResponse (response : Response) (e : Exc)
    (h : finishResponse response = .error e) : Silent e := by
  have hpy : RaisesPy (finishResponse response) := by
    unfold finishResponse
    dsimp only
    split
    · exact raisesPy_ok _
    · exact raisesPy_ok _
    · split_ifs
      · exact raisesPy_ok _
      · exact raisesPy_py _ _
    · split_ifs
      · exact raisesPy_ok _
      · exact raisesPy_py _ _
    · exact raisesPy_py _ _
  exact silent_of_raisesPy hpy e h

/-- What goes wrong on the way from a stored value to the reply carries no
    message: neither does the `reply` of the message, nor the decoding of its
    value. -/
theorem silent_formatReply (con : Secrets) (req : Request) (msg : Handler) (output : Json)
    (e : Exc) (h : formatReply con req msg output = .error e) : Silent e := by
  refine silent_bind (silent_reply con.runtime output msg) ?_ e h
  intro reply e h
  dsimp only at h
  split_ifs at h
  · exact silent_bind (silent_decodeReplyValue reply) (fun data e he => by cases he) e h
  · cases reply <;> cases h

/-- A stored value without a length, which is no text, raises an exception of
    Python. -/
theorem silent_len (value : SqlValue) (e : Exc) (h : value.len = .error e) : Silent e := by
  cases value with
  | text s => cases h
  | null =>
      obtain rfl := Except.error.inj h
      exact silent_py _ _
  | integer n =>
      obtain rfl := Except.error.inj h
      exact silent_py _ _
  | real x =>
      obtain rfl := Except.error.inj h
      exact silent_py _ _

/-! ## The operations -/

/-- An operation that reads a message first: where the message cannot be read,
    the answer says why; every other exception is answered without a message. -/
structure Operation (fn : StoreProg Response) (read : Except Exc Handler) : Prop where
  unread : ∀ e, read = .error e → ∃ code, fn = .raise (.http code (some e.str))
  silent : ∀ msg, read = .ok msg → fn.Raises Silent

variable (con : Secrets) (trail : List Str) (req : Request)

/-- The parent check raises only silent exceptions, as long as the store does:
    its own 404 and 500 have no message. -/
theorem raises_parentExists (default : Option Str) :
    (parentExists default trail).Raises Silent := by
  rw [parentExists]
  split
  · rename_i e he
    exact silent_dbContainerKey _ _ e he
  · refine Prog.raises_bind ?_ ?_
    · refine Prog.raises_catching (Prog.raises_perform _) ?_
      intro e he
      show Silent _
      split_ifs
      · exact silent_http 500
      · exact he
    · intro keylist
      cases keylist with
      | some keys => trivial
      | none =>
          show Prog.Raises Silent (if _ then _ else _)
          split_ifs
          · split
            · rename_i e he
              exact silent_dbContainerKey _ _ e he
            · exact Prog.raises_bind (Prog.raises_perform _) (fun _ => trivial)
          · trivial

/-- Listing a container is an operation that first reads the query. -/
theorem operation_list :
    Operation (listContainer con trail req) (parseQuery con req (joinSlash trail)) where
  unread := by
    intro e h
    rw [listContainer, h]
    exact ⟨406, rfl⟩
  silent := by
    intro msg h
    rw [listContainer, h]
    dsimp only
    split
    · rename_i e he
      exact silent_dbContainerKey _ _ e he
    · refine Prog.raises_catching (Prog.raises_bind (Prog.raises_perform _) ?_)
        (fun e he => silent_storeError he)
      intro keylist
      cases keylist with
      | none => exact silent_http 404
      | some keys =>
          exact Prog.raises_bind (Prog.raises_ofExcept (silent_reply _ _ msg)) (fun _ => trivial)

/-- Making a container is an operation that first reads the body, where there is
    one. -/
theorem operation_create :
    Operation (create con trail req) (parseMaybeBody con req (joinSlash trail)) where
  unread := by
    intro e h
    rw [create, h]
    exact ⟨406, rfl⟩
  silent := by
    intro msg h
    rw [create, h]
    dsimp only
    split
    · rename_i e he
      exact silent_dbContainerKey _ _ e he
    · refine Prog.raises_attempt_bind ?_
        (fun _ => Prog.raises_ofExcept (silent_changedResponse con msg 201 201)) ?_
      · split_ifs
        · refine Prog.raises_bind (raises_parentExists _ _) ?_
          intro ok
          split_ifs
          · exact Prog.raises_perform _
          · exact silent_http 404
        · exact Prog.raises_perform _
      · intro e he
        show Prog.Raises Silent (if _ then _ else _)
        split_ifs
        · trivial
        · exact silent_storeError he

/-- Destroying a container is an operation that first reads the body, where
    there is one. -/
theorem operation_destroy :
    Operation (destroy con trail req) (parseMaybeBody con req (joinSlash trail)) where
  unread := by
    intro e h
    rw [destroy, h]
    exact ⟨406, rfl⟩
  silent := by
    intro msg h
    rw [destroy, h]
    dsimp only
    split
    · rename_i e he
      exact silent_dbContainerKey _ _ e he
    · refine Prog.raises_bind (Prog.raises_catching (Prog.raises_bind (Prog.raises_perform _) ?_)
        (fun e he => silent_storeError he)) ?_
      · intro keylist
        cases keylist with
        | none => exact silent_http 404
        | some keys =>
            show Prog.Raises Silent (if _ then _ else _)
            split_ifs
            · exact silent_http 409
            · exact Prog.raises_perform _
      · intro ret
        split_ifs
        · exact silent_http 404
        · exact Prog.raises_ofExcept (silent_changedResponse con msg 200 204)

/-- Reading a secret is an operation that first reads the query. -/
theorem operation_get :
    Operation (intGetKey con trail req) (parseQuery con req (joinSlash trail)) where
  unread := by
    intro e h
    rw [intGetKey, h]
    exact ⟨406, rfl⟩
  silent := by
    intro msg h
    rw [intGetKey, h]
    dsimp only
    split
    · rename_i e he
      exact silent_dbKey _ e he
    · refine Prog.raises_catching (Prog.raises_bind (Prog.raises_perform _) ?_)
        (fun e he => silent_storeError he)
      intro output
      show Prog.Raises Silent (if _ then _ else _)
      split_ifs
      · exact silent_http 404
      · refine Prog.raises_bind (Prog.raises_ofExcept (silent_len output)) ?_
        intro length
        split_ifs
        · exact silent_http 406
        · exact Prog.raises_ofExcept (silent_formatReply con req msg _)

/-- Storing a secret is an operation that first reads the body, by its content
    type. -/
theorem operation_set :
    Operation (intSetKey con trail req) (parseSetBody con req (joinSlash trail)) where
  unread := by
    intro e h
    rw [intSetKey, h]
    dsimp only
    rw [setParseError]
    split_ifs
    · exact ⟨406, rfl⟩
    · exact ⟨406, rfl⟩
    · exact ⟨400, rfl⟩
  silent := by
    intro msg h
    rw [intSetKey, h]
    dsimp only
    split
    · rename_i e he
      exact silent_dbKey _ e he
    · refine Prog.raises_bind (Prog.raises_catching (Prog.raises_bind (raises_parentExists _ _) ?_)
        (fun e he => silent_setError he))
        (fun _ => Prog.raises_ofExcept (silent_changedResponse con msg 201 201))
      intro ok
      split_ifs
      · exact Prog.raises_perform _
      · exact silent_http 404

/-- Deleting a secret is an operation that first reads the body, where there is
    one. -/
theorem operation_del :
    Operation (intDelKey con trail req) (parseMaybeBody con req (joinSlash trail)) where
  unread := by
    intro e h
    rw [intDelKey, h]
    exact ⟨406, rfl⟩
  silent := by
    intro msg h
    rw [intDelKey, h]
    dsimp only
    split
    · rename_i e he
      exact silent_dbKey _ e he
    · refine Prog.raises_bind (Prog.raises_catching (Prog.raises_perform _)
        (fun e he => silent_storeError he)) ?_
      intro ret
      split_ifs
      · exact silent_http 404
      · exact Prog.raises_ofExcept (silent_changedResponse con msg 200 204)

/-! ## The methods -/

/-- The six actions on keys. -/
def keyActions : List Nat :=
  [auditGetAllowed, auditGetDenied, auditSetAllowed, auditSetDenied, auditDelAllowed,
    auditDelDenied]

/-- An audited operation reads nothing if the client has no name. -/
def named {α : Type} (read : α) : Option α :=
  match clientName req with
  | .error _ => none
  | .ok _ => some read

/-- What is read by the method of the request: a GET, a PUT, or a method that
    may have a body; none of it where the method refuses the request. -/
def chosen {α : Type} (get put other : α) : Option α :=
  let trail := segments req
  if req.command = "GET".toList then
    if trail = [] ∨ namesContainer trail then some get else named req get
  else if req.command = "PUT".toList then
    if trail = [] ∨ namesContainer trail then none else named req put
  else if req.command = "POST".toList then
    if namesContainer trail then some other else none
  else if req.command = "DELETE".toList then
    if trail = [] then none else if namesContainer trail then some other else named req other
  else none

/-- What the method reads as the message of the request. -/
def reading : Option (Except Exc Handler) :=
  let name := joinSlash (segments req)
  chosen req (parseQuery con req name) (parseSetBody con req name) (parseMaybeBody con req name)

/-- How a request is handled, by what is read: it is refused at once, or runs
    one operation, whose end is recorded in the log or not. -/
inductive Shape : Option (Except Exc Handler) → Prop where
  | refused (e : Exc) (silent : Silent e) (hrun : handle con req = .ret ⟨.error e, []⟩) :
      Shape none
  | unaudited (fn : StoreProg Response) (read : Except Exc Handler) (operation : Operation fn read)
      (hrun : handle con req = fn.conclude plain) : Shape (some read)
  | audited (ok fail : Nat) (client : Str) (fn : StoreProg Response) (read : Except Exc Handler)
      (operation : Operation fn read) (allowed : ok ∈ keyActions) (denied : fail ∈ keyActions)
      (hname : clientName req = .ok client)
      (hrun : handle con req = fn.conclude (recorded ok fail client (segments req))) :
      Shape (some read)

section Shapes

variable {con : Secrets} {req : Request} {fn : StoreProg Response} {read : Except Exc Handler}

/-- What is read for a named client can be mapped before or after looking for
    the name. -/
theorem map_named {α β : Type} (f : α → β) (read : α) :
    (named req read).map f = named req (f read) := by
  simp only [named]
  cases clientName req <;> rfl

/-- What is read can be mapped before or after choosing by the method. -/
theorem map_chosen {α β : Type} (f : α → β) (get put other : α) :
    (chosen req get put other).map f = chosen req (f get) (f put) (f other) := by
  unfold chosen
  dsimp only
  split_ifs
  · rfl
  · exact map_named f get
  · rfl
  · exact map_named f put
  · rfl
  · rfl
  · rfl
  · rfl
  · exact map_named f other
  · rfl

/-- A method that raises an `HTTPError` at once, before it reads anything,
    refuses the request. -/
theorem shape_refused {code : Nat} (hm : method con req = .ret ⟨.error (.http code none), []⟩) :
    Shape con req none := by
  refine .refused (.http code none) (silent_http code) ?_
  rw [handle_eq, hm]
  rfl

/-- A method that runs an operation without a record of the audit log has the
    shape of that operation. -/
theorem shape_unaudited (operation : Operation fn read) (hm : method con req = unaudited fn) :
    Shape con req (some read) := by
  refine .unaudited fn read operation ?_
  rw [handle_eq, hm, unaudited_finish]

/-- Where the client has no name, the exception of looking for it is one of
    Python. -/
theorem silent_clientName (e : Exc) (h : clientName req = .error e) : Silent e := by
  rw [clientName] at h
  split at h
  · cases h
  · split at h
    · cases h
    · obtain rfl := Except.error.inj h
      exact silent_py _ _
    · cases h

/-- **A method that records an operation** has the shape of that operation if
    the client has a name, and refuses the request otherwise. -/
theorem shape_audited {ok fail : Nat} (operation : Operation fn read) (allowed : ok ∈ keyActions)
    (denied : fail ∈ keyActions)
    (hm : method con req = audited ok fail fn (segments req) req) :
    Shape con req (named req read) := by
  cases hname : clientName req with
  | error e =>
      have hnone : named req read = none := by rw [named, hname]
      rw [hnone]
      refine .refused e (silent_clientName e hname) ?_
      rw [handle_eq, hm]
      rw [audited]
      rw [hname]
      rfl
  | ok client =>
      have hsome : named req read = some read := by rw [named, hname]
      rw [hsome]
      refine .audited ok fail client fn read operation allowed denied hname ?_
      rw [handle_eq, hm, audited_finish hname]

end Shapes

/-- **Every request is refused at once, or runs one operation**, and whatever
    the operation raises of its own has no message. -/
theorem request_shape : Shape con req (reading con req) := by
  unfold reading chosen
  dsimp only
  split_ifs with hget hcont hput hcont hpost hcont hdelete hnil hcont
  · exact shape_unaudited (operation_list con (segments req) req)
      ((if_pos hget).trans (if_pos hcont))
  · exact shape_audited (operation_get con (segments req) req) (by decide) (by decide)
      ((if_pos hget).trans (if_neg hcont))
  · exact shape_refused ((if_neg hget).trans ((if_pos hput).trans (if_pos hcont)))
  · exact shape_audited (operation_set con (segments req) req) (by decide) (by decide)
      ((if_neg hget).trans ((if_pos hput).trans (if_neg hcont)))
  · exact shape_unaudited (operation_create con (segments req) req)
      ((if_neg hget).trans ((if_neg hput).trans ((if_pos hpost).trans (if_pos hcont))))
  · exact shape_refused
      ((if_neg hget).trans ((if_neg hput).trans ((if_pos hpost).trans (if_neg hcont))))
  · exact shape_refused ((if_neg hget).trans ((if_neg hput).trans ((if_neg hpost).trans
      ((if_pos hdelete).trans (if_pos hnil)))))
  · exact shape_unaudited (operation_destroy con (segments req) req)
      ((if_neg hget).trans ((if_neg hput).trans ((if_neg hpost).trans
        ((if_pos hdelete).trans ((if_neg hnil).trans (if_pos hcont))))))
  · exact shape_audited (operation_del con (segments req) req) (by decide) (by decide)
      ((if_neg hget).trans ((if_neg hput).trans ((if_neg hpost).trans
        ((if_pos hdelete).trans ((if_neg hnil).trans (if_neg hcont))))))
  · exact shape_refused ((if_neg hget).trans ((if_neg hput).trans ((if_neg hpost).trans
      (if_neg hdelete))))

/-! ## The answer -/

/-- The message of the `HTTPError` that ends the request, if it has one. -/
def mesg (o : Outcome) : Option Str :=
  match o.result with
  | .error (.http _ mesg) => mesg
  | .error (.py _ _) => none
  | .ok _ => none

/-- What is said about a message that cannot be read. -/
def unreadText : Option (Except Exc Handler) → Option Str
  | some (.error e) => some e.str
  | some (.ok _) => none
  | none => none

section Runs

variable {con : Secrets} {req : Request} {σ : Type} {exec : (c : Call) → σ → Except Exc c.Ans × σ}

/-- What ends in a silent exception has no message. -/
theorem mesg_of_silent {e : Exc} (h : Silent e) (audit : List AuditRecord) :
    mesg ⟨.error e, audit⟩ = none := by
  cases e with
  | py cls text => rfl
  | http code text =>
      cases text with
      | none => rfl
      | some text => exact absurd rfl (h code text)

/-- A response that can only fail with silent exceptions ends without a message,
    sent or not. -/
theorem mesg_finish {r : Except Exc Response} (audit : List AuditRecord)
    (h : ∀ e, r = .error e → Silent e) : mesg ⟨r >>= finishResponse, audit⟩ = none := by
  cases hfinish : r >>= finishResponse with
  | ok response => rfl
  | error e => exact mesg_of_silent (silent_bind h silent_finishResponse e hfinish) audit

/-- What an operation ends in has a message exactly if its message could not
    be read. -/
theorem mesg_operation {fn : StoreProg Response} {read : Except Exc Handler}
    (hexec : ∀ c s e, (exec c s).1 = .error e → Silent e) (operation : Operation fn read)
    (audit : List AuditRecord) (s : σ) :
    mesg ⟨(fn.run exec s).1 >>= finishResponse, audit⟩ = unreadText (some read) := by
  cases read with
  | error e =>
      obtain ⟨code, rfl⟩ := operation.unread e rfl
      rfl
  | ok msg =>
      refine mesg_finish audit ?_
      intro e h
      exact Prog.run_raises exec hexec (operation.silent msg rfl) h

/-- **The answer carries a message exactly when the message of the request
    cannot be read**, over every store that raises no `HTTPError` with one. -/
theorem mesg_eq (hexec : ∀ c s e, (exec c s).1 = .error e → Silent e) (s : σ) :
    ∃ o s', (handle con req).run exec s = (.ok o, s')
      ∧ mesg o = unreadText (reading con req) := by
  have hshape := request_shape con req
  generalize reading con req = read at hshape ⊢
  cases hshape with
  | refused e silent hrun =>
      rw [hrun]
      exact ⟨_, _, rfl, mesg_of_silent silent []⟩
  | unaudited fn read operation hrun =>
      rw [hrun, Prog.run_conclude]
      exact ⟨_, _, rfl, mesg_operation hexec operation [] s⟩
  | audited ok fail client fn read operation allowed denied hname hrun =>
      rw [hrun, Prog.run_conclude]
      exact ⟨_, _, rfl, mesg_operation hexec operation _ s⟩

end Runs

end RequestShapes
