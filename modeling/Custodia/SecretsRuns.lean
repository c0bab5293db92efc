import Custodia.SecretsRequests

/-! # SecretsRuns — requests handled one after another

    A request handled alone is a run of its program on the table. The
    equations of this file say, for each kind of request, what is answered and
    which table is left; later files reason about these and never unfold the
    program again.

    * `parentCheck`: the parent check as a function of the table;
    * `respond_get` … `respond_delete`: one equation for each kind;
    * `Visit`, `states`, `steps`: runs of any number of requests. -/

namespace SecretsRuns

open Interaction PosixPath PyValues Messages SqliteStore SecretsConsumer SecretsCalls
open SecretsRequests

variable (con : Secrets)

/-- Handle one request alone: how it ends, and the table it leaves. -/
def respond (req : Request) (t : Table) : Outcome × Table :=
  match (handle con req).run exec t with
  | (.ok o, t') => (o, t')
  | (.error e, t') => (⟨.error e, []⟩, t')

/-- A request whose program has a conclusion ends with that conclusion, and
    leaves the table of the program. -/
theorem respond_conclude {α : Type} {req : Request} {p : StoreProg α} {g : Except Exc α → Outcome}
    (h : handle con req = p.conclude g) (t : Table) :
    respond con req t = (g (p.run exec t).1, (p.run exec t).2) := by
  rw [respond, h, Prog.run_conclude]

/-! ## The parent check on a table -/

/-- What `_parent_exists` does to a table: refuse, or go on with the table and
    perhaps a new namespace. -/
def parentCheck (t : Table) (default : Option Str) (trail : List Str) : Except Exc Table :=
  match listing t (parentKey trail) with
  | .error e => .error (parentError e)
  | .ok (some _) => .ok t
  | .ok none =>
      if onlyNamespaceMissing default trail then
        .ok (t.insert (rstrip (parentKey trail)) (.text []))
      else .error (.http 404 none)

/-- The key of a parent is never empty, as it begins with the root of all keys. -/
theorem parentKey_ne_nil (trail : List Str) : parentKey trail ≠ [] := by
  intro h
  rw [parentKey, join_append, join_cons, join_nil] at h
  have hpre : join "keys" trail.dropLast <+: joinStep (join "keys" trail.dropLast) [] :=
    prefix_joinStep rfl
  rw [h, List.prefix_nil] at hpre
  generalize trail.dropLast = p at hpre
  induction p using List.reverseRecOn with
  | nil => cases hpre
  | append_singleton p s ih =>
      rw [join_append, join_cons, join_nil, joinStep] at hpre
      split_ifs at hpre with habs
      · rw [hpre] at habs
        exact Bool.false_ne_true habs
      · exact ih (List.append_eq_nil_iff.mp hpre).1
      · cases ((List.append_eq_nil_iff.mp hpre).2)

/-- **What the parent check does**, by what the table holds at and below the
    parent. -/
theorem parentCheck_cases (t : Table) (default : Option Str) (trail : List Str) :
    (TooLong t (parentKey trail)
      ∧ parentCheck t default trail = .error (.http 500 none))
    ∨ (¬ TooLong t (parentKey trail)
      ∧ (HasChild t (rstrip (parentKey trail)) ∨ HasParent t (rstrip (parentKey trail)))
      ∧ parentCheck t default trail = .ok t)
    ∨ (¬ TooLong t (parentKey trail) ∧ ¬ HasChild t (rstrip (parentKey trail))
      ∧ ¬ HasParent t (rstrip (parentKey trail)) ∧ onlyNamespaceMissing default trail
      ∧ parentCheck t default trail = .ok (t.insert (rstrip (parentKey trail)) (.text [])))
    ∨ (¬ HasChild t (rstrip (parentKey trail)) ∧ ¬ HasParent t (rstrip (parentKey trail))
      ∧ ¬ onlyNamespaceMissing default trail
      ∧ parentCheck t default trail = .error (.http 404 none)) := by
  rw [parentCheck]
  rcases listing_cases t (parentKey_ne_nil trail) with ⟨hlong, text, h⟩ |
    ⟨hshort, hchild, names, -, h⟩ | ⟨hshort, -, hparent, h⟩ | ⟨hshort, hnc, hnp, h⟩
  · exact Or.inl ⟨hlong, by rw [h]; rfl⟩
  · exact Or.inr (Or.inl ⟨hshort, Or.inl hchild, by rw [h]⟩)
  · exact Or.inr (Or.inl ⟨hshort, Or.inr hparent, by rw [h]⟩)
  · rw [h]
    by_cases hns : onlyNamespaceMissing default trail
    · exact Or.inr (Or.inr (Or.inl ⟨hshort, hnc, hnp, hns, if_pos hns⟩))
    · exact Or.inr (Or.inr (Or.inr ⟨hnc, hnp, hns, if_neg hns⟩))

/-- Run alone, the check never meets a namespace that appeared meanwhile. -/
theorem run_underParent {β : Type} (default : Option Str) (trail : List Str)
    (fail : Exc → StoreProg β) (next : StoreProg β) (t : Table) :
    (underParent default trail fail next).run exec t =
      match parentCheck t default trail with
      | .error e => (fail e).run exec t
      | .ok t' => next.run exec t' := by
  unfold underParent parentCheck
  rw [Prog.run_call, exec_list]
  rcases listing_cases t (parentKey_ne_nil trail) with ⟨-, text, h⟩ | ⟨-, -, names, -, h⟩ |
    ⟨-, -, -, h⟩ | ⟨-, -, hnp, h⟩
  · rw [h]
  · rw [h]
  · rw [h]
  · rw [h]
    by_cases hns : onlyNamespaceMissing default trail
    · have hfree : rstrip (parentKey trail) ∉ t := fun hmem => hnp (Or.inl hmem)
      simp only [if_pos hns, Prog.run_call, exec_span_not_mem hfree]
    · simp only [if_neg hns]

/-! ## One equation for each kind of request -/

section Respond

variable {con} {req : Request} {client key : Str} {msg : Handler}

/-- A GET of a secret looks up its row, and leaves the table as it is. -/
theorem respond_get (h : Gets con req client msg) (t : Table) :
    respond con req t = (recorded auditGetAllowed auditGetDenied client (segments req)
      (getFinish con req msg (.ok ((t.lookup (entryKey req)).getD .null))), t) := by
  rw [respond_conclude con (handle_get h), Prog.run_call, exec_get, Prog.run_ofExcept]

/-- A GET of a container lists it, and leaves the table as it is. -/
theorem respond_list (h : Lists con req key msg) (t : Table) :
    respond con req t = (plain (listFinish con msg (listing t key)), t) := by
  rw [respond_conclude con (handle_list h), Prog.run_call, exec_list, Prog.run_ofExcept]

/-- The end of a PUT: its parent check, then its `set`. -/
theorem respond_put (h : Puts con req client msg) (t : Table) :
    respond con req t =
      match parentCheck t req.defaultNamespace (segments req) with
      | .error e => (recorded auditSetAllowed auditSetDenied client (segments req)
          (.error (setError e)), t)
      | .ok t' => (recorded auditSetAllowed auditSetDenied client (segments req)
          (setFinish con msg (exec (.set (entryKey req) msg.payload false) t').1),
          (exec (.set (entryKey req) msg.payload false) t').2) := by
  rw [respond_conclude con (handle_put h), run_underParent]
  cases parentCheck t req.defaultNamespace (segments req) with
  | error e => rfl
  | ok t' =>
      simp only [Prog.run_call, Prog.run_ofExcept]

/-- A POST of a top container is answered by its `span`. -/
theorem respond_post_top (h : Posts con req msg) (hlen : (segments req).length = 2)
    (t : Table) :
    respond con req t = (plain (spanFinish con msg (exec (.span (entryKey req)) t).1),
      (exec (.span (entryKey req)) t).2) := by
  rw [respond_conclude con (handle_post_top h hlen), Prog.run_call, Prog.run_ofExcept]

/-- A POST further down is refused by its parent check, or answered by its
    `span`. -/
theorem respond_post_below (h : Posts con req msg) (hlen : 2 < (segments req).length)
    (t : Table) :
    respond con req t =
      match parentCheck t req.defaultNamespace (segments req).dropLast with
      | .error e => (plain (spanFinish con msg (.error e)), t)
      | .ok t' => (plain (spanFinish con msg (exec (.span (entryKey req)) t').1),
          (exec (.span (entryKey req)) t').2) := by
  rw [respond_conclude con (handle_post_below h hlen), run_underParent]
  cases parentCheck t req.defaultNamespace (segments req).dropLast with
  | error e => simp only [Prog.run_ofExcept]
  | ok t' => simp only [Prog.run_call, Prog.run_ofExcept]

/-- A DELETE of a container: only an empty one is cut. -/
theorem respond_destroy (h : Destroys con req msg) (t : Table) :
    respond con req t =
      match listing t (entryKey req) with
      | .error e => (plain (.error (storeError e)), t)
      | .ok none => (plain (.error (.http 404 none)), t)
      | .ok (some []) => (plain (cutFinish con msg (exec (.cut (rstrip (entryKey req))) t).1),
          (exec (.cut (rstrip (entryKey req))) t).2)
      | .ok (some (_ :: _)) => (plain (.error (.http 409 none)), t) := by
  rw [respond_conclude con (handle_destroy h), Prog.run_call, exec_list]
  match listing t (entryKey req) with
  | .error e => rfl
  | .ok none => rfl
  | .ok (some []) => simp only [destroyListed, Prog.run_call, Prog.run_ofExcept]
  | .ok (some (a :: l)) => rfl

/-- A DELETE of a secret is answered by its `cut`. -/
theorem respond_delete (h : Deletes con req client msg) (t : Table) :
    respond con req t = (recorded auditDelAllowed auditDelDenied client (segments req)
      (cutFinish con msg (exec (.cut (entryKey req)) t).1), (exec (.cut (entryKey req)) t).2) := by
  rw [respond_conclude con (handle_delete h), Prog.run_call, Prog.run_ofExcept]

/-- A request that is refused leaves the table as it is. -/
theorem respond_refused {o : Outcome} (hrun : handle con req = .ret o) (t : Table) :
    respond con req t = (o, t) := by
  rw [respond, hrun]
  rfl

/-! ### Rows -/

/-- A row survives the `cut` of another key, and is gone after its own. -/
theorem cut_row {t : Table} {row : Str} {v : SqlValue} (h : t.lookup row = some v) (key : Str) :
    (exec (.cut key) t).2.lookup row = some v ∨ row ∉ (exec (.cut key) t).2 := by
  by_cases hkey : key = row
  · subst hkey
    exact Or.inr (exec_cut_gone key t)
  · refine Or.inl (exec_row h ?_ rfl)
    intro hc
    exact hkey (Call.cut.inj hc)

/-- A row survives the parent check: a namespace is only made where there is no
    row of it. -/
theorem parentCheck_row {t t' : Table} {row : Str} {v : SqlValue} {default : Option Str}
    {trail : List Str} (h : t.lookup row = some v)
    (hcheck : parentCheck t default trail = .ok t') : t'.lookup row = some v := by
  rcases parentCheck_cases t default trail with ⟨-, h'⟩ | ⟨-, -, h'⟩ | ⟨-, -, hfree, -, h'⟩ |
    ⟨-, -, -, h'⟩
  · exact nomatch hcheck.symm.trans h'
  · obtain rfl := Except.ok.inj (hcheck.symm.trans h')
    exact h
  · obtain rfl := Except.ok.inj (hcheck.symm.trans h')
    have hne : row ≠ rstrip (parentKey trail) := by
      rintro rfl
      exact hfree (Or.inl (AList.lookup_isSome.mp (by rw [h]; rfl)))
    rw [AList.lookup_insert_ne hne, h]
  · exact nomatch hcheck.symm.trans h'

/-- **A stored row stays as it is** through every request, until a DELETE
    removes it. -/
theorem respond_row (con : Secrets) (req : Request) {t : Table} {row : Str} {v : SqlValue}
    (h : t.lookup row = some v) :
    (respond con req t).2.lookup row = some v
    ∨ req.command = "DELETE".toList ∧ row ∉ (respond con req t).2 := by
  cases request_kind con req with
  | get client msg hk => rw [respond_get hk]; exact Or.inl h
  | list key msg hk => rw [respond_list hk]; exact Or.inl h
  | refused o hrun hk => rw [respond_refused hrun]; exact Or.inl h
  | put client msg hk =>
      rw [respond_put hk]
      cases hcheck : parentCheck t req.defaultNamespace (segments req) with
      | error e => exact Or.inl h
      | ok t' =>
          exact Or.inl (exec_row (parentCheck_row h hcheck) (fun hc => nomatch hc)
            rfl)
  | post msg hk =>
      by_cases htop : (segments req).length = 2
      · rw [respond_post_top hk htop]
        exact Or.inl (exec_row h (fun hc => nomatch hc) rfl)
      · have hdeep := hk.deep
        rw [respond_post_below hk (by omega)]
        cases hcheck : parentCheck t req.defaultNamespace (segments req).dropLast with
        | error e => exact Or.inl h
        | ok t' =>
            exact Or.inl (exec_row (parentCheck_row h hcheck) (fun hc => nomatch hc)
              rfl)
  | destroy msg hk =>
      rw [respond_destroy hk]
      match listing t (entryKey req) with
      | .error e => exact Or.inl h
      | .ok none => exact Or.inl h
      | .ok (some []) => exact (cut_row h _).imp_right (fun hout => ⟨hk.command, hout⟩)
      | .ok (some (a :: l)) => exact Or.inl h
  | delete client msg hk =>
      rw [respond_delete hk]
      exact (cut_row h _).imp_right (fun hout => ⟨hk.command, hout⟩)

end Respond

/-! ## Runs -/

/-- A request, and the consumer that handles it. In a run every request has
    its own: the clock of the consumer goes on between two requests. -/
structure Visit where
  con : Secrets
  req : Request

/-- Handle the request alone. -/
def Visit.respond (v : Visit) (t : Table) : Outcome × Table := SecretsRuns.respond v.con v.req t

/-- The table before and after every request of a run. -/
def states : List Visit → Table → List Table
  | [], t => [t]
  | v :: vs, t => t :: states vs (v.respond t).2

/-- The requests of a run, each with the table it finds. -/
def steps : List Visit → Table → List (Table × Visit)
  | [], _ => []
  | v :: vs, t => (t, v) :: steps vs (v.respond t).2

/-- The table after a run. -/
def tableAfter : List Visit → Table → Table
  | [], t => t
  | v :: vs, t => tableAfter vs (v.respond t).2

/-- A run begins in its first state. -/
theorem mem_states_self (vs : List Visit) (t : Table) : t ∈ states vs t := by
  cases vs with
  | nil => exact List.mem_singleton_self t
  | cons v vs => exact List.mem_cons_self

/-- **An invariant that a step keeps exactly when it is good** holds in every
    state of a run exactly when all its steps are good. -/
theorem states_invariant_iff {I : Table → Prop} (Good : Table × Visit → Prop)
    {Allowed : Visit → Prop}
    (hstep : ∀ t v, Allowed v → I t → (I (v.respond t).2 ↔ Good (t, v))) :
    ∀ (vs : List Visit) (t : Table), (∀ v ∈ vs, Allowed v) → I t →
      ((∀ s ∈ states vs t, I s) ↔ ∀ step ∈ steps vs t, Good step) := by
  intro vs
  induction vs with
  | nil =>
      intro t _ ht
      simp [states, steps, ht]
  | cons v vs ih =>
      intro t hall ht
      have hgood := hstep t v (hall v List.mem_cons_self) ht
      have hrest := fun v' hmem => hall v' (List.mem_cons_of_mem v hmem)
      rw [states, steps, List.forall_mem_cons, List.forall_mem_cons]
      constructor
      · rintro ⟨-, hstates⟩
        have hnext := hstates _ (mem_states_self vs _)
        exact ⟨hgood.mp hnext, (ih _ hrest hnext).mp hstates⟩
      · rintro ⟨hthis, hsteps⟩
        have hnext := hgood.mpr hthis
        exact ⟨ht, (ih _ hrest hnext).mpr hsteps⟩

/-- Along a run in which no DELETE removes a row, the row keeps its value. -/
theorem tableAfter_row {row : Str} {value : SqlValue} :
    ∀ (vs : List Visit) (t : Table), t.lookup row = some value →
      (∀ step ∈ steps vs t, step.2.req.command = "DELETE".toList → row ∈ step.1 →
        row ∈ (step.2.respond step.1).2) →
      (tableAfter vs t).lookup row = some value := by
  intro vs
  induction vs with
  | nil => intro t ht _; exact ht
  | cons v vs ih =>
      intro t ht hkeep
      refine ih (v.respond t).2 ?_ (fun s hs => hkeep s (List.mem_cons_of_mem _ hs))
      rcases respond_row v.con v.req ht with hrow | ⟨hdel, hout⟩
      · exact hrow
      · have hmem : row ∈ t := AList.lookup_isSome.mp (by rw [ht]; rfl)
        exact absurd (hkeep (t, v) List.mem_cons_self hdel hmem) hout

/-- A request of a user in the namespace of that name. -/
def userRequest (command user : Str) (trail : List Str) (headers : List (Str × Str))
    (body : Option (List Unquote.Byte)) : Request where
  command := command
  path := []
  pathChain := []
  trail := some trail
  query := []
  headers := headers
  body := body
  remoteUser := some user
  creds := .unknown
  defaultNamespace := some user
  kemKeysStore := none

/-- A PUT of raw bytes. -/
def putBytes (user : Str) (trail : List Str) (body : List Unquote.Byte) : Request :=
  userRequest "PUT" user trail [("Content-Type", "application/octet-stream")] (some body)

/-- A consumer that takes `simple` messages, where no body is JSON. -/
def simpleSecrets : Secrets := ⟨default, .missing⟩

/-- A consumer that takes `simple` messages, where every body holds this
    document. -/
def documentSecrets (document : Json) : Secrets :=
  ⟨{ (default : Runtime) with jsonLoads := fun _ => .ok document }, .missing⟩

/-- A PUT of a JSON document. -/
def putJson (user : Str) (trail : List Str) (body : Str) : Request :=
  userRequest "PUT" user trail [("Content-Type", "application/json")] (some (body.map Char.toNat))

end SecretsRuns
