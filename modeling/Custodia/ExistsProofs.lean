import Custodia.Interleaving
import Custodia.SecretsEffects

/-! # ExistsProofs — what "already exists" means

    Any number of requests run interleaved, one store call at a time. A PUT
    answered 409 and a POST answered 200 tell the client that its entry was
    there; both are decided by an error of the last call. Two things make such
    an answer untrue: the error may come from the namespace that a request
    makes on its way, and `span` does not look at what a row holds, so that a
    secret is taken for a container of its name.

    * `ends_handle`: the answer is explained by the last call;
    * `answered_on_own_row`: this call has met the row of the entry;
    * `existing_answers_truthful`: while no request meets a namespace that it
      is about to make, and no POST a secret in the place of its container, the
      entry was there. -/

namespace ExistsProofs

open Interaction Interleaving PosixPath PyValues Messages SqliteStore SecretsConsumer SecretsCalls
open SecretsRequests SecretsEffects

/-! ## The answer and the last call -/

/-- The answer says that the entry was there already. -/
def SaysExists (req : Request) (o : Outcome) : Prop :=
  req.command = "PUT".toList ∧ o.status = 409 ∨ req.command = "POST".toList ∧ o.status = 200

/-- The error of an existing row, or one that no store raises. -/
def Telling (e : Exc) : Prop := e.isA .csStoreExists = true ∨ ∃ code mesg, e = .http code mesg

/-- An answer that the entry exists follows an error of the last call; a `set`
    is that of the entry. -/
def Explained (req : Request) (o : Call) (r : Except Exc o.Ans) (x : Except Exc Outcome) : Prop :=
  ∀ outcome, x = .ok outcome → SaysExists req outcome →
    (∃ e, r = .error e ∧ Telling e)
      ∧ ∀ key value replace, o = .set key value replace →
        req.command = "PUT".toList ∧ key = newEntry req

theorem status_error {e : Exc} {audit : List AuditRecord} {code : Nat}
    (h : (⟨.error e, audit⟩ : Outcome).status = code) (h500 : code ≠ 500) :
    ∃ mesg, e = .http code mesg := by
  cases e with
  | http code' mesg =>
      obtain rfl : code' = code := h
      exact ⟨mesg, rfl⟩
  | py cls text => exact absurd h.symm h500

/-- The shared `except` clauses let an `HTTPError` pass and make no other. -/
theorem storeError_code {e : Exc} {code : Nat} {mesg : Option Str}
    (h : storeError e = .http code mesg) (h403 : code ≠ 403) (h500 : code ≠ 500)
    (h501 : code ≠ 501) : e = .http code mesg := by
  rw [storeError] at h
  split_ifs at h
  · exact absurd (Exc.http.inj h).1.symm h403
  · exact absurd (Exc.http.inj h).1.symm h500
  · exact absurd (Exc.http.inj h).1.symm h501
  · exact h

theorem telling_of_setError {e : Exc} {mesg : Option Str} (h : setError e = .http 409 mesg) :
    Telling e := by
  rw [setError] at h
  split_ifs at h with hexists
  · exact Or.inl hexists
  · exact Or.inr ⟨409, mesg, storeError_code h (by decide) (by decide) (by decide)⟩

/-- The errors of `list` that the parent check passes on. -/
theorem telling_parentError {e : Exc} (h : Telling (parentError e))
    (hne : parentError e ≠ .http 500 none) : Telling e := by
  rw [parentError] at h hne
  split_ifs at h hne
  · exact absurd rfl hne
  · exact h

section Ends

variable {con : Secrets} {req : Request} {client : Str} {msg : Handler}

/-- A PUT that ends in an error of this kind is no conflict, or tells. -/
theorem put_fails {e : Exc} (hput : req.command = "PUT".toList)
    (h : SaysExists req (recorded auditSetAllowed auditSetDenied client (segments req)
      (.error (setError e)))) : Telling e := by
  rcases h with ⟨-, hstatus⟩ | ⟨hpost, -⟩
  · obtain ⟨mesg, hmesg⟩ := status_error hstatus (by decide)
    exact telling_of_setError hmesg
  · exact absurd (hput.symm.trans hpost) (by decide)

/-- A POST that ends in an error of this kind is refused, or tells. -/
theorem post_fails {e : Exc} (hpost : req.command = "POST".toList)
    (h : SaysExists req (plain (spanFinish con msg (.error e)))) : Telling e := by
  rcases h with ⟨hput, -⟩ | ⟨-, hstatus⟩
  · exact absurd (hpost.symm.trans hput) (by decide)
  · by_cases hexists : e.isA .csStoreExists = true
    · exact Or.inl hexists
    · have hfinish : spanFinish con msg (.error e) = .error (storeError e) := if_neg hexists
      rw [hfinish] at hstatus
      obtain ⟨mesg, hmesg⟩ := status_error hstatus (by decide)
      exact Or.inr ⟨200, mesg, storeError_code hmesg (by decide) (by decide) (by decide)⟩

theorem not_saysExists_created {audit : List AuditRecord} :
    ¬ SaysExists req ⟨changedResponse con msg 201 201 >>= finishResponse, audit⟩ := by
  rintro (⟨-, h⟩ | ⟨-, h⟩)
  · rcases created_status con msg audit with h' | h' <;> exact absurd (h.symm.trans h') (by decide)
  · rcases created_status con msg audit with h' | h' <;> exact absurd (h.symm.trans h') (by decide)

/-- The parent check explains its failures where every failure tells. -/
theorem ends_checked (fail : Exc → Except Exc Response) {g : Except Exc Response → Outcome}
    {default : Option Str} {trail : List Str} {o : Call}
    {finish : Except Exc o.Ans → Except Exc Response}
    (hfail : ∀ e, SaysExists req (g (fail e)) → Telling e)
    (h404 : ¬ SaysExists req (g (fail (.http 404 none))))
    (h500 : ¬ SaysExists req (g (fail (.http 500 none))))
    (hlast : ∀ r, Explained req o r (.ok (g (finish r)))) :
    ((underParent default trail (fun e => .ofExcept (fail e))
        (.call o (fun r => .ofExcept (finish r)))).conclude g).Ends (Explained req) := by
  refine Prog.ends_conclude g (ends_underParent_of ?_ ?_ ?_ ?_ ?_ ?_)
  · -- the `list` fails
    intro e x hx outcome hok hclaim
    obtain rfl := Option.some.inj ((Prog.ended_ofExcept _).symm.trans hx)
    obtain rfl := Except.ok.inj hok
    refine ⟨⟨e, rfl, telling_parentError (hfail _ hclaim) ?_⟩, fun _ _ _ hc => nomatch hc⟩
    intro heq
    rw [heq] at hclaim
    exact h500 hclaim
  · intro x hx outcome hok hclaim
    obtain rfl := Option.some.inj ((Prog.ended_ofExcept _).symm.trans hx)
    obtain rfl := Except.ok.inj hok
    exact absurd hclaim h404
  · -- the `span` of the namespace fails
    intro e x hx outcome hok hclaim
    obtain rfl := Option.some.inj ((Prog.ended_ofExcept _).symm.trans hx)
    obtain rfl := Except.ok.inj hok
    exact ⟨⟨e, rfl, hfail e hclaim⟩, fun _ _ _ hc => nomatch hc⟩
  · exact fun e => Prog.ends_of_ended (Prog.ended_ofExcept _)
  · exact fun o r x hx => nomatch hx
  · intro r
    refine ⟨?_, Prog.ends_of_ended (Prog.ended_ofExcept _)⟩
    intro x hx
    obtain rfl := Option.some.inj ((Prog.ended_ofExcept _).symm.trans hx)
    exact hlast r

theorem ends_put (h : Puts con req client msg) :
    (handle con req).Ends (Explained req) := by
  have hentry : newEntry req = entryKey req := if_neg (by rw [h.command]; decide)
  rw [handle_put h]
  refine ends_checked (fun e => .error (setError e)) (fun e => put_fails h.command) ?_ ?_ ?_
  · rintro (⟨-, hstatus⟩ | ⟨hpost, -⟩)
    · exact absurd (show (404 : Nat) = 409 from hstatus) (by decide)
    · exact absurd (h.command.symm.trans hpost) (by decide)
  · rintro (⟨-, hstatus⟩ | ⟨hpost, -⟩)
    · exact absurd (show (500 : Nat) = 409 from hstatus) (by decide)
    · exact absurd (h.command.symm.trans hpost) (by decide)
  · intro r outcome hok hclaim
    obtain rfl := Except.ok.inj hok
    cases r with
    | ok u => exact absurd hclaim not_saysExists_created
    | error e =>
        refine ⟨⟨e, rfl, put_fails h.command hclaim⟩, ?_⟩
        intro key value replace hc
        exact ⟨h.command, by rw [hentry]; exact (Call.set.inj hc).1.symm⟩

/-- The end of a POST after its own `span`. -/
theorem explained_span (h : Posts con req msg) (r : Except Exc Unit) :
    Explained req (.span (entryKey req)) r (.ok (plain (spanFinish con msg r))) := by
  intro outcome hok hclaim
  obtain rfl := Except.ok.inj hok
  cases r with
  | ok u => exact absurd hclaim not_saysExists_created
  | error e => exact ⟨⟨e, rfl, post_fails h.command hclaim⟩, fun _ _ _ hc => nomatch hc⟩

theorem ends_post (h : Posts con req msg) : (handle con req).Ends (Explained req) := by
  have hdeep := h.deep
  by_cases hlen : (segments req).length = 2
  · rw [handle_post_top h hlen]
    refine Prog.ends_conclude _ ?_
    intro r
    refine ⟨?_, Prog.ends_of_ended (Prog.ended_ofExcept _)⟩
    intro x hx
    obtain rfl := Option.some.inj ((Prog.ended_ofExcept _).symm.trans hx)
    exact explained_span h r
  · rw [handle_post_below h (by omega)]
    refine ends_checked (fun e => spanFinish con msg (.error e))
      (fun e => post_fails h.command) ?_ ?_ (explained_span h)
    · rintro (⟨hput, -⟩ | ⟨-, hstatus⟩)
      · exact absurd (h.command.symm.trans hput) (by decide)
      · exact absurd (show (404 : Nat) = 200 from hstatus) (by decide)
    · rintro (⟨hput, -⟩ | ⟨-, hstatus⟩)
      · exact absurd (h.command.symm.trans hput) (by decide)
      · exact absurd (show (500 : Nat) = 200 from hstatus) (by decide)

/-- **Every "already exists" is explained by the last call**: the store has
    refused the `set` of the entry of a PUT, or a `span`, which may be that of a
    namespace. -/
theorem ends_handle (con : Secrets) (req : Request) :
    (handle con req).Ends (Explained req) := by
  have hother : req.command ≠ "PUT".toList → req.command ≠ "POST".toList →
      (handle con req).Ends (Explained req) := by
    intro hput hpost
    refine Prog.ends_of_forall ?_ _
    rintro o r x outcome - (⟨h, -⟩ | ⟨h, -⟩)
    · exact absurd h hput
    · exact absurd h hpost
  cases request_kind con req with
  | put client msg h => exact ends_put h
  | post msg h => exact ends_post h
  | refused o hrun h =>
      rw [hrun]
      trivial
  | get client msg h => exact hother (by rw [h.command]; decide) (by rw [h.command]; decide)
  | list key msg h => exact hother (by rw [h.command]; decide) (by rw [h.command]; decide)
  | destroy msg h => exact hother (by rw [h.command]; decide) (by rw [h.command]; decide)
  | delete client msg h => exact hother (by rw [h.command]; decide) (by rw [h.command]; decide)

/-- A request that is refused at once says nothing about its entry. -/
theorem not_saysExists_refused {o : Outcome} (hrun : handle con req = .ret o) :
    ¬ SaysExists req o := by
  rintro (⟨hput, h⟩ | ⟨hpost, h⟩)
  · exact put_refused_status hput hrun h
  · exact post_refused_status hpost hrun h

end Ends

/-! ## Interleaved runs -/

variable {ι : Type} [DecidableEq ι] (con : Secrets) (reqs : ι → Request)

/-- The turns of a run: a configuration and who moves. -/
abbrev Turn (ι : Type) : Type := Config ι Exc Call Call.Ans Outcome Table × ι

/-- All requests at their start. -/
def start (t : Table) : Config ι Exc Call Call.Ans Outcome Table :=
  ⟨fun i => handle con (reqs i), t⟩

/-- In this turn a request is about to make its default namespace, which is
    there already. -/
def NamespaceMet (v : Turn ι) : Prop :=
  ∃ key k, v.1.procs v.2 = .call (.span key) k ∧ rstrip key ∈ v.1.store
    ∧ ¬ ((reqs v.2).command = "POST".toList ∧ key = entryKey (reqs v.2))

/-- In this turn a POST is about to make its container, and meets a row under
    its key that is none. -/
def SecretMet (v : Turn ι) : Prop :=
  (reqs v.2).command = "POST".toList
    ∧ (∃ k, v.1.procs v.2 = .call (.span (entryKey (reqs v.2))) k)
    ∧ ∃ x, v.1.store.lookup (newEntry (reqs v.2)) = some x ∧ x ≠ .text []

/-- The turn is a store call of request `i`, which is not answered yet. -/
def Running (v : Turn ι) (i : ι) : Prop := v.2 = i ∧ (v.1.procs i).ended = none

/-- **What "already exists" means**: when the request made one of its calls,
    the key of a PUT was there, and for a POST its container. -/
structure Truthful (turns : List (Turn ι)) (final : Config ι Exc Call Call.Ans Outcome Table) :
    Prop where
  put : ∀ i o, (reqs i).command = "PUT".toList → (final.procs i).ended = some (.ok o) →
    o.status = 409 → ∃ v ∈ turns, Running v i ∧ newEntry (reqs i) ∈ v.1.store
  post : ∀ i o, (reqs i).command = "POST".toList → (final.procs i).ended = some (.ok o) →
    o.status = 200 →
    ∃ v ∈ turns, Running v i ∧ v.1.store.lookup (newEntry (reqs i)) = some (.text [])

/-- A turn that answers "already exists" meets the row of its own entry. -/
theorem met_own_row {v : Turn ι} {o : Outcome}
    (hends : (v.1.procs v.2).Ends (Explained (reqs v.2))) (hcalm : ¬ NamespaceMet reqs v)
    (hans : Answers exec v (.ok o)) (hclaim : SaysExists (reqs v.2) o) :
    newEntry (reqs v.2) ∈ v.1.store
      ∧ ((reqs v.2).command = "POST".toList →
        ∃ k, v.1.procs v.2 = .call (.span (entryKey (reqs v.2))) k) := by
  obtain ⟨c, k, hp, hexp, -⟩ := answers_last_call exec (fun i => Explained (reqs i)) hends hans
  obtain ⟨⟨e, he, htell⟩, hset⟩ := hexp o rfl hclaim
  rcases exec_error he with ⟨cls, mesg, rfl, hcls⟩ | hmeets
  · -- an error of another class tells nothing
    rcases htell with h | ⟨code, mesg', h⟩
    · exact absurd (of_decide_eq_true h) hcls
    · exact nomatch h
  · rcases hmeets with ⟨key, value, rfl, hmem⟩ | ⟨key, rfl, hmem⟩
    · obtain ⟨hput, rfl⟩ := hset key value false rfl
      refine ⟨hmem, fun hpost => ?_⟩
      exact absurd (hput.symm.trans hpost) (by decide)
    · have hown : (reqs v.2).command = "POST".toList ∧ key = entryKey (reqs v.2) := by
        by_contra hother
        exact hcalm ⟨key, k, hp, hmem, hother⟩
      obtain ⟨hpost, rfl⟩ := hown
      refine ⟨?_, fun _ => ⟨k, hp⟩⟩
      rw [newEntry, if_pos hpost]
      exact hmem

/-- A request that says its entry exists has met the entry's row in the turn
    that answered it. -/
theorem answered_on_own_row {t : Table} {s : List ι}
    (hcalm : ∀ v ∈ visits exec (start con reqs t) s, ¬ NamespaceMet reqs v) {i : ι} {o : Outcome}
    (hend : ((runSched exec (start con reqs t) s).procs i).ended = some (.ok o))
    (hclaim : SaysExists (reqs i) o) :
    ∃ v ∈ visits exec (start con reqs t) s, Running v i ∧ newEntry (reqs i) ∈ v.1.store
      ∧ ((reqs i).command = "POST".toList →
        ∃ k, v.1.procs v.2 = .call (.span (entryKey (reqs i))) k) := by
  have hends : ∀ v ∈ visits exec (start con reqs t) s,
      ∀ j, (v.1.procs j).Ends (Explained (reqs j)) :=
    visits_invariant exec (ends_step exec) s _ (fun j => ends_handle con (reqs j))
  rcases answered_of_ended exec s _ hend with hstart | ⟨v, hv, rfl, hans⟩
  · -- answered before any call
    cases hrun : handle con (reqs i) with
    | call c k =>
        have hnone : (handle con (reqs i)).ended = some (.ok o) := hstart
        rw [hrun] at hnone
        exact nomatch hnone
    | raise e =>
        have hraised : (handle con (reqs i)).ended = some (.ok o) := hstart
        rw [hrun] at hraised
        exact nomatch hraised
    | ret o' =>
        have hret : (handle con (reqs i)).ended = some (.ok o) := hstart
        rw [hrun] at hret
        obtain rfl := Except.ok.inj (Option.some.inj hret)
        exact absurd hclaim (not_saysExists_refused hrun)
  · obtain ⟨hmem, hspan⟩ := met_own_row reqs (hends v hv v.2) (hcalm v hv) hans hclaim
    exact ⟨v, hv, ⟨rfl, hans.1⟩, hmem, hspan⟩

/-- **HEADLINE — "already exists" is truthful** in every interleaving of any
    number of requests in which no request meets the namespace it is about to
    make, and no POST a secret under the key of its container. -/
theorem existing_answers_truthful (t : Table) (s : List ι)
    (hcalm : ∀ v ∈ visits exec (start con reqs t) s, ¬ NamespaceMet reqs v)
    (hplain : ∀ v ∈ visits exec (start con reqs t) s, ¬ SecretMet reqs v) :
    Truthful reqs (visits exec (start con reqs t) s) (runSched exec (start con reqs t) s) := by
  constructor
  · intro i o hput hend h409
    obtain ⟨v, hv, hrun, hmem, -⟩ :=
      answered_on_own_row con reqs hcalm hend (Or.inl ⟨hput, h409⟩)
    exact ⟨v, hv, hrun, hmem⟩
  · intro i o hpost hend h200
    obtain ⟨v, hv, ⟨rfl, hnone⟩, hmem, hspan⟩ :=
      answered_on_own_row con reqs hcalm hend (Or.inr ⟨hpost, h200⟩)
    refine ⟨v, hv, ⟨rfl, hnone⟩, ?_⟩
    obtain ⟨x, hx⟩ := Option.isSome_iff_exists.mp (AList.lookup_isSome.mpr hmem)
    -- the row it meets is a container
    by_contra hne
    refine hplain v hv ⟨hpost, hspan hpost, x, hx, ?_⟩
    rintro rfl
    exact hne hx

/-! ### Two first requests of a user -/

/-- The user's first two secrets, stored at the same time. -/
def firstPuts : Fin 2 → Request
  | 0 => SecretsRuns.putBytes "u" ["u", "a"] [65]
  | 1 => SecretsRuns.putBytes "u" ["u", "b"] [66]

/-- Both find no namespace, and only one of them can make it: the other one is
    told that its secret exists. -/
theorem first_put_conflicts :
    ¬ ∀ (con : Secrets) (reqs : Fin 2 → Request) (t : Table) (s : List (Fin 2)),
      Truthful reqs (visits exec (start con reqs t) s) (runSched exec (start con reqs t) s) := by
  intro h
  obtain ⟨v, hv, -, hmem⟩ := (h SecretsRuns.simpleSecrets firstPuts ∅ [0, 1, 0, 1]).put 1 _ rfl
    rfl rfl
  have hnever : ∀ v ∈ visits exec (start SecretsRuns.simpleSecrets firstPuts ∅) [0, 1, 0, 1],
      newEntry (firstPuts 1) ∉ v.1.store := by decide
  exact hnever v hv hmem

/-- One secret and one container, each asked for twice. -/
def repeated : Fin 4 → Request
  | 0 => SecretsRuns.putBytes "u" ["u", "a"] [65]
  | 1 => SecretsRuns.putBytes "u" ["u", "a"] [66]
  | 2 => SecretsRuns.userRequest "POST" "u" ["u", "c", ""] [] none
  | 3 => SecretsRuns.userRequest "POST" "u" ["u", "c", ""] [] none

/-- The table with the namespace of the user. -/
def withNamespace : Table := AList.insert "keys/u".toList (.text []) ∅

/-- With the namespace in place the second of each is told the truth. -/
theorem repeated_truthful :
    (∀ v ∈ visits exec (start SecretsRuns.simpleSecrets repeated withNamespace)
        [0, 1, 2, 3, 0, 1, 2, 3],
      ¬ NamespaceMet repeated v ∧ ¬ SecretMet repeated v)
    ∧ Truthful repeated
      (visits exec (start SecretsRuns.simpleSecrets repeated withNamespace)
        [0, 1, 2, 3, 0, 1, 2, 3])
      (runSched exec (start SecretsRuns.simpleSecrets repeated withNamespace)
        [0, 1, 2, 3, 0, 1, 2, 3]) := by
  have hcalm : ∀ v ∈ visits exec (start SecretsRuns.simpleSecrets repeated withNamespace)
      [0, 1, 2, 3, 0, 1, 2, 3], ¬ NamespaceMet repeated v := by
    intro v hv
    simp only [visits, List.mem_cons, List.not_mem_nil, or_false] at hv
    -- a POST makes its own container, and nobody makes a namespace
    rcases hv with rfl | rfl | rfl | rfl | rfl | rfl | rfl | rfl <;>
      rintro ⟨key, k, hk, -, hother⟩ <;> cases hk <;> exact hother ⟨rfl, rfl⟩
  have hplain : ∀ v ∈ visits exec (start SecretsRuns.simpleSecrets repeated withNamespace)
      [0, 1, 2, 3, 0, 1, 2, 3], ¬ SecretMet repeated v := by
    intro v hv
    simp only [visits, List.mem_cons, List.not_mem_nil, or_false] at hv
    -- what the second POST meets is the container of the first
    rcases hv with rfl | rfl | rfl | rfl | rfl | rfl | rfl | rfl <;>
      rintro ⟨hpost, ⟨k, hk⟩, x, hx, hne⟩ <;> cases hk <;> cases hx
    exact hne rfl
  exact ⟨fun v hv => ⟨hcalm v hv, hplain v hv⟩,
    existing_answers_truthful SecretsRuns.simpleSecrets repeated _ _ hcalm hplain⟩

end ExistsProofs
