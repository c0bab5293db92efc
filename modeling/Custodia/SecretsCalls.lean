import Custodia.SecretsConsumer

/-! # SecretsCalls — the operations as trees of store calls

    Once its message is read and its key built, every operation is a short
    tree of store calls. The equations of this file give the six trees; all
    later results, sequential or interleaved, start from them. -/

namespace SecretsCalls

open Interaction PosixPath PyValues Messages SqliteStore SecretsConsumer

variable (self : Secrets)

/-! ## The parent check -/

/-- The container key that `_parent_exists` lists (and may create). -/
def parentKey (trail : List Str) : Str := join "keys" (trail.dropLast ++ [[]])

/-- The only missing piece of the trail is the default namespace. -/
def onlyNamespaceMissing (default : Option Str) (trail : List Str) : Prop :=
  trail.length = 2 ∧ default = trail.head?

instance (default : Option Str) (trail : List Str) :
    Decidable (onlyNamespaceMissing default trail) :=
  inferInstanceAs (Decidable (_ ∧ _))

/-- What `_parent_exists` makes of an error of `list`. -/
def parentError (e : Exc) : Exc := if e.isA .csStoreError = true then .http 500 none else e

/-- Check the parent of `trail`, then go on with `next`; errors go to `fail`. -/
def underParent {β : Type} (default : Option Str) (trail : List Str)
    (fail : Exc → StoreProg β) (next : StoreProg β) : StoreProg β :=
  .call (.list (parentKey trail)) (fun (r : Except Exc (Option (List Str))) =>
    match r with
    | .error e => fail (parentError e)
    | .ok (some _) => next
    | .ok none =>
        if onlyNamespaceMissing default trail then
          .call (.span (parentKey trail)) (fun (r : Except Exc Unit) =>
            match r with
            | .error e => fail e
            | .ok _ => next)
        else fail (.http 404 none))

/-- Two segments are enough for a key. -/
theorem dbKey_of_le {trail : List Str} (h : 2 ≤ trail.length) :
    dbKey trail = .ok (join "keys" trail) :=
  if_neg (by omega)

/-- A key was made of at least two segments, by `os.path.join`. -/
theorem dbKey_ok {trail : List Str} {key : Str} (h : dbKey trail = .ok key) :
    2 ≤ trail.length ∧ key = join "keys" trail := by
  rw [dbKey] at h
  split_ifs at h with hlen
  exact ⟨by omega, (Except.ok.inj h).symm⟩

/-- Two segments are enough for the key of a container. -/
theorem dbContainerKey_of_le {default : Option Str} {trail : List Str}
    (h : 2 ≤ trail.length) : dbContainerKey default trail = .ok (join "keys" trail) := by
  unfold dbContainerKey
  rw [if_pos (by omega)]
  exact dbKey_of_le h

/-- The key of the parent is made of the trail without its last segment. -/
theorem dbContainerKey_parent {default : Option Str} {trail : List Str}
    (h : 2 ≤ trail.length) :
    dbContainerKey default (trail.dropLast ++ [[]]) = .ok (parentKey trail) := by
  refine dbContainerKey_of_le ?_
  rw [List.length_append, List.length_dropLast, List.length_singleton]
  omega

/-- The namespace that is created is the container that was missing. -/
theorem dbContainerKey_namespace {default : Option Str} {trail : List Str}
    (h : onlyNamespaceMissing default trail) :
    dbContainerKey default [] = .ok (parentKey trail) := by
  obtain ⟨hlen, hhead⟩ := h
  match trail, hlen with
  | [a, b], _ =>
      rw [hhead]
      rfl

/-- The parent check, with what follows it. -/
theorem parentExists_attempt_bind {β : Type} {default : Option Str} {trail : List Str}
    (h : 2 ≤ trail.length) (f : Except Exc Bool → StoreProg β)
    (hmissing : f (.ok false) = f (.error (.http 404 none))) :
    (parentExists default trail).attempt.bind f
      = underParent default trail (fun e => f (.error e)) (f (.ok true)) := by
  rw [parentExists]
  rw [dbContainerKey_parent h]
  refine congrArg (Prog.call _) (funext fun r => ?_)
  match r with
  | .error e => rfl
  | .ok (some names) => rfl
  | .ok none =>
      by_cases hns : onlyNamespaceMissing default trail
      · have hns' : trail.length = 2 ∧ default = trail.head? := hns
        show Prog.bind (Prog.attempt (if trail.length = 2 ∧ default = trail.head? then _
          else _ : StoreProg Bool)) f = _
        rw [if_pos hns', dbContainerKey_namespace hns, if_pos hns]
        refine congrArg (Prog.call _) (funext fun r => ?_)
        cases r <;> rfl
      · have hns' : ¬ (trail.length = 2 ∧ default = trail.head?) := hns
        show Prog.bind (Prog.attempt (if trail.length = 2 ∧ default = trail.head? then _
          else _ : StoreProg Bool)) f = _
        rw [if_neg hns', if_neg hns]
        exact hmissing

/-- How a program that starts with a parent check ends, by the call that
    decides. -/
theorem ends_underParent_of {β : Type} {Q : (o : Call) → Except Exc o.Ans → Except Exc β → Prop}
    {default : Option Str} {trail : List Str} {fail : Exc → StoreProg β} {next : StoreProg β}
    (hlist : ∀ e x, (fail (parentError e)).ended = some x →
      Q (.list (parentKey trail)) (.error e) x)
    (hmissing : ∀ x, (fail (.http 404 none)).ended = some x →
      Q (.list (parentKey trail)) (.ok none) x)
    (hspan : ∀ e x, (fail e).ended = some x → Q (.span (parentKey trail)) (.error e) x)
    (hfails : ∀ e, (fail e).Ends Q) (hnext : ∀ o r x, next.ended = some x → Q o r x)
    (hnexts : next.Ends Q) : (underParent default trail fail next).Ends Q := by
  intro r
  match r with
  | .error e => exact ⟨fun x hx => hlist e x hx, hfails _⟩
  | .ok (some names) => exact ⟨fun x hx => hnext _ _ x hx, hnexts⟩
  | .ok none =>
      show (∀ x, (if onlyNamespaceMissing default trail then _ else _ : StoreProg β).ended = some x
        → _) ∧ (if onlyNamespaceMissing default trail then _ else _ : StoreProg β).Ends Q
      split_ifs
      · constructor
        · intro x hx
          exact nomatch hx
        · intro r
          match r with
          | .error e => exact ⟨fun x hx => hspan e x hx, hfails _⟩
          | .ok u => exact ⟨fun x hx => hnext _ _ x hx, hnexts⟩
      · exact ⟨fun x hx => hmissing x hx, hfails _⟩

/-- A program behind a parent check ends as promised, if what fails and what
    follows do. -/
theorem ends_underParent {β : Type} {Q : (o : Call) → Except Exc o.Ans → Except Exc β → Prop}
    {default : Option Str} {trail : List Str} {fail : Exc → StoreProg β} {next : StoreProg β}
    (hfail : ∀ e o r x, (fail e).ended = some x → Q o r x) (hfails : ∀ e, (fail e).Ends Q)
    (hnext : ∀ o r x, next.ended = some x → Q o r x) (hnexts : next.Ends Q) :
    (underParent default trail fail next).Ends Q :=
  ends_underParent_of (fun _ x hx => hfail _ _ _ x hx) (fun x hx => hfail _ _ _ x hx)
    (fun e x hx => hfail e _ _ x hx) hfails hnext hnexts

/-- Where `list` and `span` are passed on, the parent check stays as it is. -/
theorem underParent_through {β : Type} {impl : (o : Call) → StoreProg o.Ans}
    (hlist : ∀ key, impl (.list key) = Prog.perform (Call.list key))
    (hspan : ∀ key, impl (.span key) = Prog.perform (Call.span key)) (default : Option Str)
    (trail : List Str) (fail : Exc → StoreProg β) (next : StoreProg β) :
    (underParent default trail fail next).through impl
      = underParent default trail (fun e => (fail e).through impl) (next.through impl) := by
  refine (Prog.call_through (hlist _) _).trans (congrArg (Prog.call _) (funext fun r => ?_))
  match r with
  | .error e => rfl
  | .ok (some names) => rfl
  | .ok none =>
      by_cases hns : onlyNamespaceMissing default trail
      · simp only [if_pos hns]
        refine (Prog.call_through (hspan _) _).trans (congrArg (Prog.call _) (funext fun r => ?_))
        cases r <;> rfl
      · simp only [if_neg hns]

/-! ## The six operations

    Each finishing function says how an operation ends after its last call. -/

/-- The end of a PUT after its `set`. -/
def setFinish (msg : Handler) (r : Except Exc Unit) : Except Exc Response :=
  match r with
  | .error e => .error (setError e)
  | .ok _ => changedResponse self msg 201 201

/-- The end of a POST after a `span`; a POST of what exists is a success. -/
def spanFinish (msg : Handler) (r : Except Exc Unit) : Except Exc Response :=
  match r with
  | .error e =>
      if e.isA .csStoreExists = true then .ok ⟨some 200, none, .json .null⟩
      else .error (storeError e)
  | .ok _ => changedResponse self msg 201 201

/-- The end of a DELETE after its `cut`. -/
def cutFinish (msg : Handler) (r : Except Exc Bool) : Except Exc Response :=
  match r with
  | .error e => .error (storeError e)
  | .ok false => .error (.http 404 none)
  | .ok true => changedResponse self msg 200 204

/-- The end of a GET of a key. -/
def getFinish (req : Request) (handler : Handler) (r : Except Exc SqlValue) :
    Except Exc Response :=
  match r with
  | .error e => .error (storeError e)
  | .ok .null => .error (.http 404 none)
  | .ok (.text []) => .error (.http 406 none)
  | .ok (.text (c :: s)) =>
      (formatReply self req handler (.ofText (c :: s))).mapError storeError
  | .ok (.integer _) => .error (.py .typeError "object of type 'int' has no len()")
  | .ok (.real _) => .error (.py .typeError "object of type 'float' has no len()")

/-- The end of a GET of a container. -/
def listFinish (msg : Handler) (r : Except Exc (Option (List Str))) : Except Exc Response :=
  match r with
  | .error e => .error (storeError e)
  | .ok none => .error (.http 404 none)
  | .ok (some keylist) =>
      ((msg.reply self.runtime (.arr (keylist.map Json.ofText))).map
        (fun output => (⟨none, some jsonContentType, .json output⟩ : Response))).mapError
          storeError

/-- A DELETE of a container, after its `list`. -/
def destroyListed (msg : Handler) (key : Str) (r : Except Exc (Option (List Str))) :
    StoreProg Response :=
  match r with
  | .error e => .raise (storeError e)
  | .ok none => .raise (.http 404 none)
  | .ok (some []) =>
      .call (.cut (rstrip key)) (fun (r : Except Exc Bool) => .ofExcept (cutFinish self msg r))
  | .ok (some (_ :: _)) => .raise (.http 409 none)

/-- A handler that only raises something else maps the error of a known result. -/
theorem catching_ofExcept {α : Type} (x : Except Exc α) (h : Exc → Exc) :
    Prog.catching (.ofExcept x : StoreProg α) (fun e => .raise (h e))
      = .ofExcept (x.mapError h) := by
  cases x <;> rfl

/-- The same where the result is passed on through a function. -/
theorem catching_ofExcept_bind {α β : Type} (x : Except Exc α) (g : α → β) (h : Exc → Exc) :
    Prog.catching ((.ofExcept x : StoreProg α).bind (fun a => .ret (g a)))
        (fun e => .raise (h e))
      = .ofExcept ((x.map g).mapError h) := by
  cases x <;> rfl

variable {self} {trail : List Str} {req : Request} {msg : Handler} {key : Str}

/-- **`_int_get_key` is one `get`** with what is made of its answer: no value is
    a 404, an empty one a container, and so a 406. -/
theorem intGetKey_eq (hmsg : parseQuery self req (joinSlash trail) = .ok msg)
    (hkey : dbKey trail = .ok key) :
    intGetKey self trail req
      = .call (.get key) (fun (r : Except Exc SqlValue) =>
          .ofExcept (getFinish self req msg r)) := by
  rw [intGetKey]
  rw [hmsg, hkey]
  refine congrArg (Prog.call _) (funext fun r => ?_)
  match r with
  | .error e => rfl
  | .ok .null => rfl
  | .ok (.text []) => rfl
  | .ok (.text (c :: s)) =>
      exact catching_ofExcept (formatReply self req msg (.ofText (c :: s))) storeError
  | .ok (.integer n) => rfl
  | .ok (.real x) => rfl

/-- **`_list` is one `list`** with what is made of its answer: no listing is a
    404, and any other is rendered by the message. -/
theorem listContainer_eq (hmsg : parseQuery self req (joinSlash trail) = .ok msg)
    (hkey : dbContainerKey req.defaultNamespace trail = .ok key) :
    listContainer self trail req
      = .call (.list key) (fun (r : Except Exc (Option (List Str))) =>
          .ofExcept (listFinish self msg r)) := by
  rw [listContainer]
  rw [hmsg, hkey]
  refine congrArg (Prog.call _) (funext fun r => ?_)
  match r with
  | .error e => rfl
  | .ok none => rfl
  | .ok (some keylist) =>
      exact catching_ofExcept_bind (msg.reply self.runtime (.arr (keylist.map Json.ofText)))
        (fun output => (⟨none, some jsonContentType, .json output⟩ : Response)) storeError

/-- **`_int_set_key` is a parent check, then one `set`** with what is made of
    its answer. -/
theorem intSetKey_eq (hmsg : parseSetBody self req (joinSlash trail) = .ok msg)
    (hkey : dbKey trail = .ok key) :
    intSetKey self trail req =
      underParent req.defaultNamespace trail (fun e => .raise (setError e))
        (.call (.set key msg.payload false) (fun (r : Except Exc Unit) =>
          .ofExcept (setFinish self msg r))) := by
  rw [intSetKey]
  rw [hmsg, hkey]
  show Prog.bind (Prog.bind (Prog.attempt (Prog.bind (parentExists _ _) _)) _) _ = _
  rw [Prog.bind_assoc, Prog.bind_attempt_bind,
    parentExists_attempt_bind (dbKey_ok hkey).1 _ rfl]
  refine congrArg (underParent _ _ _) ?_
  refine congrArg (Prog.call _) (funext fun r => ?_)
  cases r <;> rfl

/-- How a POST goes on after its attempt. -/
private theorem spanned_eq (msg : Handler) :
    (fun (spanned : Except Exc Unit) => (match spanned with
      | .error e =>
          if e.isA .csStoreExists = true then return ⟨some 200, none, .json .null⟩
          else .raise (storeError e)
      | .ok () => .ofExcept (changedResponse self msg 201 201) : StoreProg Response))
      = fun r => .ofExcept (spanFinish self msg r) := by
  funext r
  cases r with
  | error e =>
      show (if _ then _ else _ : StoreProg Response) = Prog.ofExcept (if _ then _ else _)
      split_ifs <;> rfl
  | ok u => rfl

/-- A POST at the top of a namespace spans at once. -/
theorem create_top_eq (hmsg : parseMaybeBody self req (joinSlash trail) = .ok msg)
    (hkey : dbContainerKey none trail = .ok key) (hlen : trail.length ≤ 2) :
    create self trail req
      = .call (.span key) (fun (r : Except Exc Unit) => .ofExcept (spanFinish self msg r)) := by
  rw [create]
  rw [hmsg, hkey]
  refine Eq.trans (congrArg (Prog.bind _) (spanned_eq msg)) ?_
  rw [if_neg (by omega)]
  refine congrArg (Prog.call _) (funext fun r => ?_)
  cases r <;> rfl

/-- A POST further down checks the parent of the container first. -/
theorem create_below_eq (hmsg : parseMaybeBody self req (joinSlash trail) = .ok msg)
    (hkey : dbContainerKey none trail = .ok key) (hlen : 2 < trail.length) :
    create self trail req =
      underParent req.defaultNamespace trail.dropLast
        (fun e => .ofExcept (spanFinish self msg (.error e)))
        (.call (.span key) (fun (r : Except Exc Unit) =>
          .ofExcept (spanFinish self msg r))) := by
  rw [create]
  rw [hmsg, hkey]
  refine Eq.trans (congrArg (Prog.bind _) (spanned_eq msg)) ?_
  have hparent : 2 ≤ trail.dropLast.length := by rw [List.length_dropLast]; omega
  rw [if_pos hlen, Prog.bind_eq, Prog.bind_attempt_bind,
    parentExists_attempt_bind hparent _ rfl]
  refine congrArg (underParent _ _ _) ?_
  refine congrArg (Prog.call _) (funext fun r => ?_)
  cases r <;> rfl

/-- **`_destroy` is one `list`**, and what follows depends on what was listed. -/
theorem destroy_eq (hmsg : parseMaybeBody self req (joinSlash trail) = .ok msg)
    (hkey : dbContainerKey none trail = .ok key) :
    destroy self trail req = .call (.list key) (destroyListed self msg key) := by
  rw [destroy]
  rw [hmsg, hkey]
  refine congrArg (Prog.call _) (funext fun r => ?_)
  match r with
  | .error e => rfl
  | .ok none => rfl
  | .ok (some []) =>
      refine congrArg (Prog.call _) (funext fun r => ?_)
      match r with
      | .error e => rfl
      | .ok false => rfl
      | .ok true => rfl
  | .ok (some (a :: l)) => rfl

/-- **`_int_del_key` is one `cut`** with what is made of its answer: what was
    not there is a 404, and an error of the store becomes one for the client. -/
theorem intDelKey_eq (hmsg : parseMaybeBody self req (joinSlash trail) = .ok msg)
    (hkey : dbKey trail = .ok key) :
    intDelKey self trail req
      = .call (.cut key) (fun (r : Except Exc Bool) => .ofExcept (cutFinish self msg r)) := by
  rw [intDelKey]
  rw [hmsg, hkey]
  refine congrArg (Prog.call _) (funext fun r => ?_)
  match r with
  | .error e => rfl
  | .ok false => rfl
  | .ok true => rfl

end SecretsCalls
