import Custodia.DestroyRaceProofs
import Custodia.ExistsProofs
import Custodia.Serializability

/-! # SerialProofs — when concurrent requests are as good as serial

    A request makes up to three store calls, and others get in between. A
    PUT or a POST looks for its parent and then writes; a DELETE of a
    container looks for children and then removes. Where nobody makes these
    looks untrue, every interleaving of any number of requests is a serial run
    in the order of their last calls.

    * `Steady`: the condition, on the table and the requests alone;
    * `Stage`: how far a request is, and what it relies on;
    * `serialOrder_endings`: the order of the last calls;
    * `steady_serializable`: every schedule. -/

namespace SerialProofs

open Interaction Interleaving Serializability Machines PosixPath PyValues Messages SqliteStore
open SecretsConsumer SecretsCalls SecretsRequests SecretsRuns SecretsEffects ContainerKeys
open DestroyRaceProofs ExistsProofs

/-! ## The condition -/

/-- The trail whose parent a request looks for: that of a PUT, or, for a POST
    below a top container, the trail of the container without its empty segment. -/
inductive Checks (con : Secrets) (req : Request) : List Str → Prop where
  | put {client msg} (h : Puts con req client msg) : Checks con req (segments req)
  | post {msg} (h : Posts con req msg) (hlen : 2 < (segments req).length) :
      Checks con req (segments req).dropLast

/-- The request may add an entry. -/
def Writes (req : Request) : Prop :=
  req.command = "PUT".toList ∨ req.command = "POST".toList

/-- The request may remove this row. -/
def Removes (req : Request) (row : Str) : Prop :=
  req.command = "DELETE".toList
  ∧ row = if namesContainer (segments req) then container req else entryKey req

instance (req : Request) (row : Str) : Decidable (Removes req row) :=
  inferInstanceAs (Decidable (_ ∧ _))

variable {ι : Type}

/-- The row is there and no request removes it. -/
def Kept (reqs : ι → Request) (t : Table) (row : Str) : Prop :=
  row ∈ t ∧ ∀ j, ¬ Removes (reqs j) row

/-- No request can make untrue what another one has looked at: a parent that is
    looked for is there from the start and stays, or it is no namespace to be
    made and nothing at or below it is removed; and nothing is written below a
    container that is deleted. So a request that has to make its own missing
    namespace is never steady: another one may look between its two calls. -/
structure Steady (con : Secrets) (reqs : ι → Request) (t : Table) : Prop where
  parents : ∀ i trail, Checks con (reqs i) trail →
    Kept reqs t (rstrip (parentKey trail))
    ∨ ¬ onlyNamespaceMissing (reqs i).defaultNamespace trail
      ∧ ∀ j row, Removes (reqs j) row → ¬ UpTo (rstrip (parentKey trail)) row
  empties : ∀ d i, (reqs d).command = "DELETE".toList → namesContainer (segments (reqs d)) →
    Writes (reqs i) → ¬ Beneath (container (reqs d)) (newEntry (reqs i))

/-! ## What a request does to the table -/

/-- The only ways a request moves the table in one turn: not at all, by adding
    its entry, where it is a PUT or a POST, or by removing a row, where it is a
    DELETE. -/
inductive Effect (req : Request) (t : Table) : Table → Prop where
  | none : Effect req t t
  | added (v : SqlValue) (h : Writes req) : Effect req t (t.insert (newEntry req) v)
  | removed (row : Str) (h : Removes req row) : Effect req t (t.erase row)

variable {con : Secrets} {reqs : ι → Request} {t t' : Table}

/-- A row that nobody removes stays through every effect. -/
theorem kept_effect {t₀ : Table} {j : ι} (he : Effect (reqs j) t t') {row : Str}
    (hkept : Kept reqs t₀ row) (hmem : row ∈ t) : row ∈ t' := by
  cases he with
  | none => exact hmem
  | added v h => exact (AList.mem_insert t).mpr (Or.inr hmem)
  | removed other h =>
      refine AList.mem_erase.mpr ⟨?_, hmem⟩
      rintro rfl
      exact hkept.2 j h

/-- A parent that was seen can still be seen. -/
theorem visible_effect {i j : ι} {t₀ : Table} {trail : List Str} (hs : Steady con reqs t₀)
    (hrows : ∀ row, Kept reqs t₀ row → row ∈ t) (he : Effect (reqs j) t t')
    (hc : Checks con (reqs i) trail) (h : Visible t (rstrip (parentKey trail))) :
    Visible t' (rstrip (parentKey trail)) := by
  rcases hs.parents i trail hc with hkept | ⟨-, hsafe⟩
  · exact Or.inr (Or.inl (kept_effect he hkept (hrows _ hkept)))
  · obtain ⟨row, hrow, hup⟩ := visible_iff.mp h
    refine visible_iff.mpr ⟨row, ?_, hup⟩
    cases he with
    | none => exact hrow
    | added v h => exact (AList.mem_insert t).mpr (Or.inr hrow)
    | removed other h =>
        refine AList.mem_erase.mpr ⟨?_, hrow⟩
        rintro rfl
        exact hsafe j _ h hup

/-- A container that was empty is still empty. -/
theorem childless_effect {d j : ι} {t₀ : Table} (hs : Steady con reqs t₀)
    (he : Effect (reqs j) t t') (hdelete : (reqs d).command = "DELETE".toList)
    (hcont : namesContainer (segments (reqs d))) (h : ¬ HasChild t (container (reqs d))) :
    ¬ HasChild t' (container (reqs d)) := by
  cases he with
  | none => exact h
  | added v hw =>
      rw [hasChild_insert]
      rintro (hbelow | hchild)
      · exact hs.empties d j hdelete hcont hw hbelow
      · exact h hchild
  | removed row hr =>
      rintro ⟨key, hkey, hbelow⟩
      exact h ⟨key, (AList.mem_erase.mp hkey).2, hbelow⟩

/-! ## Looking -/

/-- The pattern of a search is compared in every table. -/
def Short (key : Str) : Prop := utf8Length (rstrip key ++ ['%']) ≤ likePatternLimit

/-- What is short enough for a search of any table is so for this one. -/
theorem not_tooLong_of_short {key : Str} (h : Short key) : ¬ TooLong t key :=
  fun hlong => absurd hlong.1 (Nat.not_lt.mpr h)

/-- Where a table with some row can be searched for a key, the key is short. -/
theorem short_of_mem {key row : Str} (hrow : row ∈ t) (h : ¬ TooLong t key) : Short key := by
  refine Nat.not_lt.mp (fun hlong => h ⟨hlong, fun hnil => ?_⟩)
  obtain ⟨v, hv⟩ := mem_rows.mpr hrow
  rw [hnil] at hv
  exact List.not_mem_nil hv

/-- A search that found something could be made. -/
theorem short_of_visible {key : Str} (h : ¬ TooLong t key) (hseen : Visible t (rstrip key)) :
    Short key := by
  obtain ⟨row, hrow, -⟩ := visible_iff.mp hseen
  exact short_of_mem hrow h

/-- A parent that can be seen passes the check. -/
theorem parentCheck_seen {default : Option Str} {trail : List Str}
    (hshort : Short (parentKey trail)) (hseen : Visible t (rstrip (parentKey trail))) :
    parentCheck t default trail = .ok t :=
  parentCheck_iff.mpr (.found (not_tooLong_of_short hshort) hseen)

/-! ## How far a request is -/

/-- The plan of a PUT, or of a POST below a namespace: these are the requests
    that look for a parent first and write afterwards. -/
inductive Planned (con : Secrets) (req : Request) : WritePlan → Prop where
  | put {client msg} (h : Puts con req client msg) : Planned con req (putPlan con req client msg)
  | post {msg} (h : Posts con req msg) (hlen : 2 < (segments req).length) :
      Planned con req (postPlan con req msg)

variable {req : Request} {plan : WritePlan}

/-- The program of a planned request is that of its plan. -/
theorem Planned.program (h : Planned con req plan) : handle con req = plan.program := by
  cases h with
  | put h => exact handle_putPlan h
  | post h hlen => exact handle_postPlan h hlen

/-- A planned request checks the trail of its plan. -/
theorem Planned.checks (h : Planned con req plan) : Checks con req plan.trail := by
  cases h with
  | put h => exact .put h
  | post h hlen => exact .post h hlen

/-- The default namespace of a plan is that of the request. -/
theorem Planned.default (h : Planned con req plan) : plan.default = req.defaultNamespace := by
  cases h <;> rfl

/-- The entry that a PUT adds has the key of the request. -/
theorem newEntry_put {client : Str} {msg : Handler} (h : Puts con req client msg) :
    newEntry req = entryKey req := by
  rw [newEntry, h.command]
  rfl

/-- The entry that a POST adds is the container. -/
theorem newEntry_post {msg : Handler} (h : Posts con req msg) :
    newEntry req = container req := if_pos h.command

/-- A `span` adds the container of its request, or does nothing. -/
theorem effect_span {msg : Handler} (h : Posts con req msg) (t : Table) :
    Effect req t (exec (.span (entryKey req)) t).2 := by
  by_cases hmem : rstrip (entryKey req) ∈ t
  · rw [exec_span_mem hmem]
    exact .none
  · rw [exec_span_not_mem hmem]
    show Effect req t (t.insert (container req) _)
    rw [← newEntry_post h]
    exact .added _ (Or.inr h.command)

/-- The write of a plan adds the entry, or nothing. -/
theorem Planned.effect (h : Planned con req plan) (t : Table) :
    Effect req t (exec plan.call t).2 := by
  cases h with
  | put h =>
      show Effect req t (exec (.set (entryKey req) _ false) t).2
      rcases exec_set_storable t (entryKey req) _ with ⟨v, -, -, hexec⟩ | ⟨-, e, hexec⟩
      · rw [hexec, ← newEntry_put h]
        exact .added v (Or.inl h.command)
      · rw [hexec]
        exact .none
  | post h hlen => exact effect_span h t

/-- What is left of a DELETE of a container that was found empty. -/
def cutOnly (con : Secrets) (req : Request) (msg : Handler) : StoreProg Outcome :=
  (Prog.call (Call.cut (container req)) (fun (r : Except Exc Bool) =>
    (.ofExcept (cutFinish con msg r) : StoreProg Response))).conclude plain

/-- How far a request is, and what it relies on in this table: nothing while it
    is fresh, the parent it has seen, or the container it has found empty; and
    then it has ended. -/
inductive Stage (con : Secrets) (req : Request) (t : Table) : StoreProg Outcome → Prop where
  | fresh : Stage con req t (handle con req)
  | checked {plan : WritePlan} (h : Planned con req plan) (hshort : Short (parentKey plan.trail))
      (hseen : Visible t (rstrip (parentKey plan.trail))) :
      Stage con req t (plan.write.conclude plan.outcome)
  | emptied {msg} (h : Destroys con req msg) (hshort : Short (entryKey req))
      (hleaf : ¬ HasChild t (container req)) : Stage con req t (cutOnly con req msg)
  | finished {p x} (h : p.ended = some x) : Stage con req t p

variable {p : StoreProg Outcome}

/-- **What is left of a request ends as the whole request would.** -/
theorem stage_run (h : Stage con req t p) (hrunning : p.ended = none) :
    p.run exec t = (handle con req).run exec t := by
  cases h with
  | fresh => rfl
  | checked h hshort hseen =>
      rw [h.program, WritePlan.program, Prog.run_conclude, Prog.run_conclude, run_underParent,
        parentCheck_seen hshort hseen]
  | emptied h hshort hleaf =>
      rw [handle_destroy h, cutOnly, Prog.run_conclude, Prog.run_conclude, Prog.run_call,
        Prog.run_call, exec_list]
      rcases listing_cases t (entryKey_ne_nil h.container) with ⟨hlong, -⟩ | ⟨-, hchild, -⟩ |
        ⟨-, -, -, hlist⟩ | ⟨-, -, hnp, hlist⟩
      · exact absurd hlong (not_tooLong_of_short hshort)
      · exact absurd hchild hleaf
      · rw [hlist]
        rfl
      · -- removed meanwhile: the search finds nothing, and so does the removal
        have hgone : container req ∉ t := fun hmem => hnp (Or.inl hmem)
        rw [hlist, exec_cut_not_mem hgone]
        rfl
  | finished h =>
      rw [hrunning] at h
      cases h

/-- One turn of a request: it is as far as it says, moves the table with its
    last call only, and in one of the known ways. -/
def Moves (con : Secrets) (req : Request) (t : Table) (p : StoreProg Outcome) : Prop :=
  ∃ o k, p = .call o k ∧ Stage con req (exec o t).2 (k (exec o t).1)
    ∧ ((k (exec o t).1).ended = none → (exec o t).2 = t)
    ∧ Effect req t (exec o t).2

/-- A program of one call. -/
theorem moves_single {α : Type} {o : Call} {f : Except Exc o.Ans → Except Exc α}
    {g : Except Exc α → Outcome} (he : Effect req t (exec o t).2) :
    Moves con req t ((Prog.call o (fun r => .ofExcept (f r))).conclude g) := by
  have hend : ∀ r, ((Prog.ofExcept (f r) : StoreProg α).conclude g).ended
      = some (.ok (g (f r))) := by
    intro r
    rw [Prog.conclude_ofExcept]
    rfl
  refine ⟨o, _, rfl, .finished (hend _), ?_, he⟩
  intro h
  have hnone := (hend (exec o t).1).symm.trans h
  cases hnone

/-- The first turn of a plan, where its namespace need not be made. -/
theorem moves_plan (h : Planned con req plan)
    (hroom : onlyNamespaceMissing plan.default plan.trail → rstrip (parentKey plan.trail) ∈ t) :
    Moves con req t plan.program := by
  have hfail : ∀ e, ((Prog.ofExcept (plan.fail e) : StoreProg Response).conclude
      plan.outcome).ended = some (.ok (plan.outcome (plan.fail e))) := by
    intro e
    rw [Prog.conclude_ofExcept]
    rfl
  refine ⟨_, _, rfl, ?_, fun _ => rfl, .none⟩
  rw [exec_list]
  rcases listing_cases t (parentKey_ne_nil plan.trail) with ⟨-, text, hlist⟩ |
    ⟨hshort, hchild, names, -, hlist⟩ | ⟨hshort, -, hparent, hlist⟩ | ⟨-, -, hnp, hlist⟩
  · rw [hlist]
    exact .finished (hfail _)
  · rw [hlist]
    exact .checked h (short_of_visible hshort (Or.inl hchild)) (Or.inl hchild)
  · rw [hlist]
    exact .checked h (short_of_visible hshort (Or.inr hparent)) (Or.inr hparent)
  · have hns : ¬ onlyNamespaceMissing plan.default plan.trail :=
      fun hns => hnp (Or.inl (hroom hns))
    rw [hlist]
    simp only [if_neg hns]
    exact .finished (hfail _)

/-- A DELETE of a container looks at what is below it, and then removes its row
    at most. -/
theorem moves_destroy {msg : Handler} (h : Destroys con req msg) :
    Moves con req t ((Prog.call (.list (entryKey req))
      (destroyListed con msg (entryKey req))).conclude plain) := by
  refine ⟨_, _, rfl, ?_, fun _ => rfl, .none⟩
  rw [exec_list]
  rcases listing_cases t (entryKey_ne_nil h.container) with ⟨-, text, hlist⟩ |
    ⟨-, -, names, hne, hlist⟩ | ⟨hshort, hleaf, hparent, hlist⟩ | ⟨-, -, -, hlist⟩
  · rw [hlist]
    exact .finished rfl
  · rw [hlist]
    cases names with
    | nil => exact absurd rfl hne
    | cons a l => exact .finished rfl
  · rw [hlist]
    exact .emptied h (short_of_visible hshort (Or.inr hparent)) hleaf
  · rw [hlist]
    exact .finished rfl

/-- A `cut` removes the row that its request may remove, or does nothing. -/
theorem effect_cut {row : Str} (h : Removes req row) (t : Table) :
    Effect req t (exec (.cut row) t).2 := by
  by_cases hmem : row ∈ t
  · rw [exec_cut_mem hmem]
    exact .removed row h
  · rw [exec_cut_not_mem hmem]
    exact .none

/-- **Every turn of a request**, whatever it asks for. -/
theorem stage_moves (h : Stage con req t p)
    (hroom : ∀ trail, Checks con req trail → onlyNamespaceMissing req.defaultNamespace trail →
      rstrip (parentKey trail) ∈ t) : Finished p ∨ Moves con req t p := by
  cases h with
  | fresh =>
      cases request_kind con req with
      | get client msg h => rw [handle_get h]; exact Or.inr (moves_single .none)
      | list key msg h => rw [handle_list h]; exact Or.inr (moves_single .none)
      | put client msg h =>
          rw [handle_putPlan h]
          exact Or.inr (moves_plan (.put h) (hroom _ (.put h)))
      | post msg h =>
          -- a container at the top is made at once; below, its parent is looked for first
          by_cases hlen : (segments req).length = 2
          · rw [handle_post_top h hlen]
            exact Or.inr (moves_single (effect_span h t))
          · have hdeep := h.deep
            have hlong : 2 < (segments req).length := by omega
            rw [handle_postPlan h hlong]
            exact Or.inr (moves_plan (.post h hlong) (hroom _ (.post h hlong)))
      | destroy msg h => rw [handle_destroy h]; exact Or.inr (moves_destroy h)
      | delete client msg h =>
          rw [handle_delete h]
          exact Or.inr (moves_single (effect_cut ⟨h.command, (if_neg h.entry).symm⟩ t))
      | refused o hrun h => rw [hrun]; exact Or.inl trivial
  | checked h hshort hseen => exact Or.inr (moves_single (h.effect t))
  | emptied h hshort hleaf =>
      exact Or.inr (moves_single (effect_cut ⟨h.command, (if_pos h.container).symm⟩ t))
  | finished h => exact Or.inl (finished_of_ended h)

/-- A turn of another request leaves a request as far as it is. -/
theorem stage_effect {i j : ι} {t₀ : Table} (hs : Steady con reqs t₀)
    (hrows : ∀ row, Kept reqs t₀ row → row ∈ t) (he : Effect (reqs j) t t')
    (h : Stage con (reqs i) t p) : Stage con (reqs i) t' p := by
  cases h with
  | fresh => exact .fresh
  | checked h hshort hseen =>
      exact .checked h hshort (visible_effect hs hrows he h.checks hseen)
  | emptied h hshort hleaf =>
      exact .emptied h hshort (childless_effect hs he h.command h.container hleaf)
  | finished h => exact .finished h

/-! ## Interleaved runs -/

/-- Every request is as far as it says, and the rows that nobody removes are
    still there. The invariant of all runs of steady requests. -/
structure OnTrack (con : Secrets) (reqs : ι → Request) (t₀ : Table)
    (c : Config ι Exc Call Call.Ans Outcome Table) : Prop where
  stages : ∀ i, Stage con (reqs i) c.store (c.procs i)
  rows : ∀ row, Kept reqs t₀ row → row ∈ c.store

variable {t₀ : Table} {c : Config ι Exc Call Call.Ans Outcome Table}

/-- At the start every request is on its track. -/
theorem onTrack_start : OnTrack con reqs t (start con reqs t) :=
  ⟨fun _ => .fresh, fun _ h => h.1⟩

/-- A namespace that a request could make is there already. -/
theorem room (hs : Steady con reqs t₀) (hc : OnTrack con reqs t₀ c) (i : ι) :
    ∀ trail, Checks con (reqs i) trail → onlyNamespaceMissing (reqs i).defaultNamespace trail →
      rstrip (parentKey trail) ∈ c.store := by
  intro trail hchecks hns
  rcases hs.parents i trail hchecks with hkept | ⟨hno, -⟩
  · exact hc.rows _ hkept
  · exact absurd hns hno

variable [DecidableEq ι]

/-- One turn keeps every request on track, and is quiet unless it is the last
    one of its request. -/
theorem onTrack_step (hs : Steady con reqs t₀) (hc : OnTrack con reqs t₀ c) (i : ι) :
    OnTrack con reqs t₀ (step exec c i) ∧ QuietFor exec c i := by
  rcases stage_moves (hc.stages i) (room hs hc i) with hfin | ⟨o, k, hp, hstage, hquiet, heffect⟩
  · have hstep := step_of_finished exec hfin
    refine ⟨by rw [hstep]; exact hc, fun _ => by rw [hstep]⟩
  · have hstep := step_call exec hp
    rw [QuietFor, hstep]
    refine ⟨⟨fun j => ?_, fun row hrow => kept_effect heffect hrow (hc.rows row hrow)⟩, ?_⟩
    · show Stage con (reqs j) (exec o c.store).2
        (Function.update c.procs i (k (exec o c.store).1) j)
      by_cases hj : j = i
      · subst hj
        rw [Function.update_self]
        exact hstage
      · rw [Function.update_of_ne hj]
        exact stage_effect hs hc.rows heffect (hc.stages j)
    · show (Function.update c.procs i (k (exec o c.store).1) i).ended = none → _
      rw [Function.update_self]
      exact hquiet

/-- The requests that have ended in a run, once each, in an order in which they
    can be handled one after another: they end alike and leave the same table,
    and at any moment of the run, those that have ended by then come before
    those that end later. -/
structure SerialOrder (con : Secrets) (reqs : ι → Request) (t : Table) (s : List ι)
    (order : List ι) : Prop where
  once : order.Nodup
  mem_iff : ∀ i, i ∈ order ↔ ((start con reqs t).procs i).ended = none
    ∧ ((runSched exec (start con reqs t) s).procs i).ended ≠ none
  ends : order.map (fun i => ((runSched exec (start con reqs t) s).procs i).ended)
    = (answers (solo exec (fun i => handle con (reqs i))) order t).map some
  store : (runSched exec (start con reqs t) s).store
    = after (solo exec (fun i => handle con (reqs i))) order t
  realTime : ∀ p r, s = p ++ r → ∃ early late, order = early ++ late
    ∧ (∀ i ∈ early, ((runSched exec (start con reqs t) p).procs i).ended ≠ none)
    ∧ ∀ i ∈ late, ((runSched exec (start con reqs t) p).procs i).ended = none

/-- The order is that of the last calls. -/
theorem serialOrder_endings {con : Secrets} {reqs : ι → Request} {t : Table}
    (hs : Steady con reqs t) (s : List ι) :
    SerialOrder con reqs t s (endings exec (start con reqs t) s) := by
  have htrack := visits_invariant exec (I := OnTrack con reqs t)
    (fun c i hc => (onTrack_step hs hc i).1) s (start con reqs t) onTrack_start
  have hserial := serial_of_current (fun i => handle con (reqs i)) s
    (start con reqs t) (fun v hv => ⟨fun hrunning =>
      stage_run ((htrack v hv).stages v.2) hrunning, (onTrack_step hs (htrack v hv) v.2).2⟩)
  refine ⟨nodup_endings s _, fun i => mem_endings s _, hserial.1, hserial.2, ?_⟩
  rintro p r rfl
  exact endings_split p r (start con reqs t)

/-- **HEADLINE — steady requests are serializable**: however the calls of any
    number of requests are interleaved, the requests that have ended can be
    handled one after another, in the order of their last calls. -/
theorem steady_serializable (con : Secrets) (reqs : ι → Request) {t : Table}
    (hs : Steady con reqs t) (s : List ι) : ∃ order, SerialOrder con reqs t s order :=
  ⟨endings exec (start con reqs t) s, serialOrder_endings hs s⟩

/-- A PUT and a DELETE in one container, and a listing of it. -/
def containerRequests : Fin 3 → Request
  | 0 => putBytes "u" ["u", "k"] [65]
  | 1 => userRequest "DELETE" "u" ["u", "j"] [] none
  | 2 => userRequest "GET" "u" ["u", ""] [] none

/-- The container, with one secret. -/
def oneSecret : Table := AList.insert "keys/u/j".toList (.text "s") emptyNamespace

/-- The three requests cannot disturb one another: the container stays, and
    nobody deletes it. -/
theorem steady_container : Steady simpleSecrets containerRequests oneSecret where
  parents := by
    have hput : ∀ i, (containerRequests i).command = "PUT".toList → i = 0 := by decide
    have hpost : ∀ i, (containerRequests i).command ≠ "POST".toList := by decide
    intro i trail hchecks
    cases hchecks with
    | put h =>
        obtain rfl := hput i h.command
        exact Or.inl ⟨by decide, by decide⟩
    | post h hlen => exact absurd h.command (hpost i)
  empties := by
    have hkeys : ∀ d, (containerRequests d).command = "DELETE".toList →
        ¬ namesContainer (segments (containerRequests d)) := by decide
    intro d i hdelete hcont
    exact absurd hcont (hkeys d hdelete)

/-- And so they have a serial order. -/
theorem steady_serializable_container :
    Steady simpleSecrets containerRequests oneSecret
    ∧ ∃ order, SerialOrder simpleSecrets containerRequests oneSecret [0, 1, 2, 0] order :=
  ⟨steady_container,
    steady_serializable simpleSecrets containerRequests steady_container [0, 1, 2, 0]⟩

end SerialProofs
