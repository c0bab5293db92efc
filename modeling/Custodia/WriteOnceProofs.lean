import Custodia.Interleaving
import Custodia.SecretsEffects
import Custodia.EncryptedStores

/-! # WriteOnceProofs — secrets are written once

    Any number of requests run interleaved, one store call at a time, over a
    store that does not migrate. No program overwrites a row, so a row is a
    cell that is filled at most once between two removals.

    * `onlyIssues_program`: no program overwrites;
    * `ends_program`: who answers 201 has filled the cell;
    * `write_once`: what all requests see between two removals. -/

namespace WriteOnceProofs

open Interaction Interleaving PosixPath PyValues Messages SqliteStore SecretsConsumer SecretsCalls
open SecretsRequests SecretsEffects EncryptedStores

/-- A request to a consumer, and the randomness its encryption draws. -/
structure Job where
  con : Secrets
  req : Request
  nonce : Nat

/-- Handling a request over a configured store. -/
def Job.program (plugin : StorePlugin) (job : Job) : StoreProg Outcome :=
  (handle job.con job.req).through (plugin.layer job.nonce)

/-! ## No program overwrites -/

/-- A store that does not migrate replaces rows only where it is told to. -/
theorem onlyIssues_layer {plugin : StorePlugin} (hmode : plugin.NotMigrating) (nonce : Nat)
    (o : Call) (ho : o.replaces = false) :
    (plugin.layer nonce o).OnlyIssues (fun c => c.replaces = false) := by
  cases o with
  | get key =>
      rw [StorePlugin.layer_get hmode]
      exact ⟨rfl, fun r => Prog.onlyIssues_ofExcept _⟩
  | set key value replace =>
      rw [StorePlugin.layer_set]
      cases plugin.encode nonce key value with
      | error e => trivial
      | ok encoded => exact Prog.onlyIssues_perform ho
  | span key =>
      rw [StorePlugin.layer_span]
      exact Prog.onlyIssues_perform rfl
  | list keyfilter =>
      rw [StorePlugin.layer_list]
      exact Prog.onlyIssues_perform rfl
  | cut key =>
      rw [StorePlugin.layer_cut]
      exact Prog.onlyIssues_perform rfl

/-- **No request overwrites a row.** Over stores that do not migrate, every
    `set` that a request makes is one that refuses an existing key. -/
theorem onlyIssues_program {plugin : StorePlugin} (hmode : plugin.NotMigrating) (job : Job) :
    (job.program plugin).OnlyIssues (fun c => c.replaces = false) := by
  have hhandle : (handle job.con job.req).OnlyIssues (fun c => c.replaces = false) :=
    onlyIssues_handle (fun c hc _ => hc) (fun key msg h => rfl) (fun trail hlen hpre c hc _ => hc)
      rfl
  exact Prog.onlyIssues_through _ hhandle (onlyIssues_layer hmode job.nonce)

/-! ## Who answers 201 has written -/

/-- The call by which a PUT or a POST writes. -/
inductive Writes (plugin : StorePlugin) (job : Job) : Call → Prop where
  | set (client : Str) (msg : Handler) (encoded : Json) (h : Puts job.con job.req client msg)
      (henc : plugin.encode job.nonce (entryKey job.req) msg.payload = .ok encoded) :
      Writes plugin job (.set (entryKey job.req) encoded false)
  | span (msg : Handler) (h : Posts job.con job.req msg) :
      Writes plugin job (.span (entryKey job.req))

/-- The request is a PUT or a POST. -/
def Writer (req : Request) : Prop := req.command = "PUT".toList ∨ req.command = "POST".toList

/-- A 201 of a PUT or a POST follows its own write, carried out. -/
def WritesLast (plugin : StorePlugin) (job : Job) (o : Call) (r : Except Exc o.Ans)
    (x : Except Exc Outcome) : Prop :=
  ∀ outcome, Writer job.req → x = .ok outcome → outcome.Answered 201 →
    Writes plugin job o ∧ ∀ e, r ≠ .error e

/-- A request that ends with an exception has promised nothing about its last
    call. -/
theorem not_writesLast_error {plugin : StorePlugin} {job : Job} {o : Call} {r : Except Exc o.Ans}
    {e : Exc} {audit : List AuditRecord} : WritesLast plugin job o r (.ok ⟨.error e, audit⟩) := by
  intro outcome _ heq hans
  obtain rfl := Except.ok.inj heq
  exact absurd hans not_answered_error

variable {plugin : StorePlugin} {job : Job} {client : Str} {msg : Handler}

/-- The write of a PUT through the layers. -/
theorem set_through :
    (Prog.call (Call.set (entryKey job.req) msg.payload false) (fun (r : Except Exc Unit) =>
        (.ofExcept (setFinish job.con msg r) : StoreProg Response))).through
        (plugin.layer job.nonce)
      = match plugin.encode job.nonce (entryKey job.req) msg.payload with
        | .error e => .ofExcept (setFinish job.con msg (.error e))
        | .ok encoded => .call (.set (entryKey job.req) encoded false)
            (fun (r : Except Exc Unit) => .ofExcept (setFinish job.con msg r)) := by
  show (plugin.layer job.nonce (.set (entryKey job.req) msg.payload false)).attempt.bind _ = _
  rw [StorePlugin.layer_set]
  cases plugin.encode job.nonce (entryKey job.req) msg.payload with
  | error e => exact Prog.ofExcept_through _ _
  | ok encoded =>
      refine congrArg (Prog.call _) (funext fun r => ?_)
      rw [Prog.attempt_ofExcept_bind]
      exact Prog.ofExcept_through _ _

/-- A PUT that is answered 201 has written its row with its last call. -/
theorem ends_put (h : Puts job.con job.req client msg) :
    (job.program plugin).Ends (WritesLast plugin job) := by
  rw [Job.program, handle_put h, Prog.through_conclude,
    underParent_through (fun key => plugin.layer_list _ key) (fun key => plugin.layer_span _ key),
    set_through]
  refine Prog.ends_conclude _ (ends_underParent ?_ (fun e => trivial) ?_ ?_)
  · intro e o r x hx
    obtain rfl := Option.some.inj hx
    exact not_writesLast_error
  · intro o r x hx
    cases henc : plugin.encode job.nonce (entryKey job.req) msg.payload with
    | error e =>
        rw [henc] at hx
        obtain rfl := Option.some.inj hx
        exact not_writesLast_error
    | ok encoded =>
        rw [henc] at hx
        exact nomatch hx
  · cases henc : plugin.encode job.nonce (entryKey job.req) msg.payload with
    | error e => exact Prog.ends_of_ended (Prog.ended_ofExcept _)
    | ok encoded =>
        intro r
        refine ⟨?_, Prog.ends_of_ended (Prog.ended_ofExcept _)⟩
        intro x hx
        obtain rfl := Option.some.inj ((Prog.ended_ofExcept _).symm.trans hx)
        intro outcome _ heq hans
        refine ⟨.set client msg encoded h henc, ?_⟩
        rintro e rfl
        obtain rfl := Except.ok.inj heq
        exact not_answered_error hans

/-- The last call of a POST. -/
theorem ends_span (h : Posts job.con job.req msg) :
    (Prog.call (Call.span (entryKey job.req)) (fun (r : Except Exc Unit) =>
        (.ofExcept (spanFinish job.con msg r) : StoreProg Response))).Ends
      (fun o r x => WritesLast plugin job o r (.ok (plain x))) := by
  intro r
  refine ⟨?_, Prog.ends_of_ended (Prog.ended_ofExcept _)⟩
  intro x hx
  obtain rfl := Option.some.inj ((Prog.ended_ofExcept _).symm.trans hx)
  intro outcome _ heq hans
  refine ⟨.span msg h, ?_⟩
  rintro e rfl
  obtain rfl := Except.ok.inj heq
  exact span_error_not_created hans

/-- A POST that is answered 201 has written its row with its last call. -/
theorem ends_post (h : Posts job.con job.req msg) :
    (job.program plugin).Ends (WritesLast plugin job) := by
  have hspan : (Prog.call (Call.span (entryKey job.req)) (fun (r : Except Exc Unit) =>
      (.ofExcept (spanFinish job.con msg r) : StoreProg Response))).through
        (plugin.layer job.nonce)
      = Prog.call (Call.span (entryKey job.req)) (fun (r : Except Exc Unit) =>
          .ofExcept (spanFinish job.con msg r)) := by
    refine (Prog.call_through (plugin.layer_span _ _) _).trans ?_
    exact congrArg (Prog.call _) (funext fun r => Prog.ofExcept_through _ _)
  by_cases hlen : (segments job.req).length = 2
  · rw [Job.program, handle_post_top h hlen, Prog.through_conclude, hspan]
    exact Prog.ends_conclude _ (ends_span h)
  · have hdeep := h.deep
    rw [Job.program, handle_post_below h (by omega), Prog.through_conclude,
      underParent_through (fun key => plugin.layer_list _ key)
        (fun key => plugin.layer_span _ key), hspan]
    refine Prog.ends_conclude _ (ends_underParent ?_ ?_ (fun o r x hx => nomatch hx) (ends_span h))
    · intro e o r x hx
      rw [Prog.ofExcept_through, Prog.ended_ofExcept] at hx
      obtain rfl := Option.some.inj hx
      intro outcome _ heq hans
      obtain rfl := Except.ok.inj heq
      exact absurd hans span_error_not_created
    · intro e
      rw [Prog.ofExcept_through]
      exact Prog.ends_of_ended (Prog.ended_ofExcept _)

/-- **Who answers 201 has written with its last call.** What follows the write
    is the reply, which makes no call of the store. -/
theorem ends_program (plugin : StorePlugin) (job : Job) :
    (job.program plugin).Ends (WritesLast plugin job) := by
  by_cases hwriter : Writer job.req
  · cases request_kind job.con job.req with
    | put client msg h => exact ends_put h
    | post msg h => exact ends_post h
    | refused o hrun h =>
        rw [Job.program, hrun]
        trivial
    | get client msg h =>
        rcases hwriter with hw | hw <;> exact absurd (h.command.symm.trans hw) (by decide)
    | list key msg h =>
        rcases hwriter with hw | hw <;> exact absurd (h.command.symm.trans hw) (by decide)
    | destroy msg h =>
        rcases hwriter with hw | hw <;> exact absurd (h.command.symm.trans hw) (by decide)
    | delete client msg h =>
        rcases hwriter with hw | hw <;> exact absurd (h.command.symm.trans hw) (by decide)
  · exact Prog.ends_of_forall (fun o r x outcome hw => absurd hw hwriter) _

/-! ## Interleaved runs -/

variable {ι : Type} [DecidableEq ι]

/-- The turns of a run: a configuration and who moves. -/
abbrev Turn (ι : Type) : Type := Config ι Exc Call Call.Ans Outcome Table × ι

/-- All requests at their start. -/
def start (plugin : StorePlugin) (jobs : ι → Job) (t : Table) :
    Config ι Exc Call Call.Ans Outcome Table :=
  ⟨fun i => (jobs i).program plugin, t⟩

/-- The turn removes the row. -/
def Removed (key : Str) (v : Turn ι) : Prop :=
  key ∈ v.1.store ∧ key ∉ (step exec v.1 v.2).store

instance (key : Str) (v : Turn ι) : Decidable (Removed key v) :=
  inferInstanceAs (Decidable (_ ∧ _))

/-- The request is a PUT or a POST that names the store key. -/
def Names (req : Request) (key : Str) : Prop :=
  req.command = "PUT".toList ∧ entryKey req = key
  ∨ req.command = "POST".toList ∧ rstrip (entryKey req) = key

/-- In this turn a PUT or POST naming the key is answered 201. -/
def Created (jobs : ι → Job) (key : Str) (v : Turn ι) : Prop :=
  Names (jobs v.2).req key ∧ ∃ outcome, Answers exec v (.ok outcome) ∧ outcome.Answered 201

/-- What `get` of the store returns or raises on this table. -/
def storeRead (plugin : StorePlugin) (nonce : Nat) (key : Str) (t : Table) :
    Except Exc SqlValue :=
  ((plugin.layer nonce (.get key)).run exec t).1

/-- What a store that does not migrate reads is decoded from the row of the key. -/
theorem storeRead_eq {plugin : StorePlugin} (hmode : plugin.NotMigrating) (nonce : Nat)
    (key : Str) (t : Table) :
    storeRead plugin nonce key t = plugin.decode key ((t.lookup key).getD .null) := by
  rw [storeRead, StorePlugin.layer_get hmode, Prog.run_call, exec_get, Prog.run_ofExcept]
  rfl

/-- What is promised of every program at every turn. -/
structure Promised (plugin : StorePlugin) (jobs : ι → Job)
    (c : Config ι Exc Call Call.Ans Outcome Table) : Prop where
  keeps : ∀ i, (c.procs i).OnlyIssues (fun o => o.replaces = false)
  ends : ∀ i, (c.procs i).Ends (WritesLast plugin (jobs i))

omit [DecidableEq ι] in
/-- At the start all requests are as promised. -/
theorem promised_start {plugin : StorePlugin} (hmode : plugin.NotMigrating) (jobs : ι → Job)
    (t : Table) : Promised plugin jobs (start plugin jobs t) :=
  ⟨fun i => onlyIssues_program hmode (jobs i), fun i => ends_program plugin (jobs i)⟩

/-- A turn keeps all promises. -/
theorem promised_step {jobs : ι → Job} (c : Config ι Exc Call Call.Ans Outcome Table) (i : ι)
    (h : Promised plugin jobs c) : Promised plugin jobs (step exec c i) :=
  ⟨onlyIssues_step exec c i h.keeps, ends_step exec c i h.ends⟩

/-- The row under the key, as an observation of the store. -/
def row (key : Str) (t : Table) : Option SqlValue := t.lookup key

/-- The turn removes the row, or could overwrite one. -/
def Disturbs (key : Str) (v : Turn ι) : Prop :=
  Removed key v ∨ ∃ o k, v.1.procs v.2 = .call o k ∧ o.replaces = true

/-- A row that is not disturbed stays. -/
theorem row_kept (key : Str) (v : Turn ι) (x : SqlValue) (hx : row key v.1.store = some x)
    (hv : ¬ Disturbs key v) : row key (step exec v.1 v.2).store = some x := by
  rcases step_cases exec v.1 v.2 with ⟨o, k, hp, hs⟩ | hs
  · have hkeep : o.replaces = false := by
      cases hrep : o.replaces with
      | false => rfl
      | true => exact absurd (Or.inr ⟨o, k, hp, hrep⟩) hv
    have hmem : key ∈ v.1.store := AList.lookup_isSome.mp (by rw [row] at hx; rw [hx]; rfl)
    have hstore : (step exec v.1 v.2).store = (exec o v.1.store).2 := by rw [hs]
    have hcut : o ≠ .cut key := by
      rintro rfl
      refine hv (Or.inl ⟨hmem, ?_⟩)
      rw [hstore]
      exact exec_cut_gone key _
    rw [hstore]
    exact exec_row hx hcut hkeep
  · rw [hs]
    exact hx

/-- What a request answered 201 has stored: the encoded payload of a PUT, the
    empty value of a POST. -/
inductive Stores (plugin : StorePlugin) (job : Job) : SqlValue → Prop where
  | payload (client : Str) (msg : Handler) (encoded : Json) (x : SqlValue)
      (h : Puts job.con job.req client msg)
      (henc : plugin.encode job.nonce (entryKey job.req) msg.payload = .ok encoded)
      (hrow : bindValue setErrorText encoded = .ok x) : Stores plugin job x
  | empty (msg : Handler) (h : Posts job.con job.req msg) : Stores plugin job (.text [])

/-- **A turn that is answered 201 fills the row**: it was not there before, and
    has the payload of the request afterwards. -/
theorem created_fills {jobs : ι → Job} {key : Str} {v : Turn ι}
    (hpromised : Promised plugin jobs v.1) (hc : Created jobs key v) :
    ∃ x, Fills exec (row key) v x ∧ Stores plugin (jobs v.2) x := by
  obtain ⟨hnames, outcome, hans, h201⟩ := hc
  have hwriter : Writer (jobs v.2).req := by
    rcases hnames with ⟨hput, -⟩ | ⟨hpost, -⟩
    · exact Or.inl hput
    · exact Or.inr hpost
  obtain ⟨o, k, hp, hlast, hstore⟩ := answers_last_call exec
    (fun i => WritesLast plugin (jobs i)) (hpromised.ends v.2) hans
  obtain ⟨hwrites, hok⟩ := hlast outcome hwriter rfl h201
  cases hwrites with
  | set client msg encoded h henc =>
      have hkey : entryKey (jobs v.2).req = key := by
        rcases hnames with ⟨-, hkey⟩ | ⟨hpost, -⟩
        · exact hkey
        · exact absurd (h.command.symm.trans hpost) (by decide)
      rcases exec_set_storable v.1.store (entryKey (jobs v.2).req) encoded with
        ⟨x, hs, hx, hexec⟩ | ⟨-, e, hexec⟩
      · refine ⟨x, ⟨?_, ?_⟩, .payload client msg encoded x h henc hx⟩
        · rw [row, ← hkey]
          exact AList.lookup_eq_none.mpr hs.fresh
        · rw [row, hstore, hexec, ← hkey]
          exact AList.lookup_insert _
      · rw [hexec] at hok
        exact absurd rfl (hok e)
  | span msg h =>
      have hkey : rstrip (entryKey (jobs v.2).req) = key := by
        rcases hnames with ⟨hput, -⟩ | ⟨-, hkey⟩
        · exact absurd (h.command.symm.trans hput) (by decide)
        · exact hkey
      by_cases hmem : rstrip (entryKey (jobs v.2).req) ∈ v.1.store
      · rw [exec_span_mem hmem] at hok
        exact absurd rfl (hok keyExists)
      · refine ⟨.text [], ⟨?_, ?_⟩, .empty msg h⟩
        · rw [row, ← hkey]
          exact AList.lookup_eq_none.mpr hmem
        · rw [row, hstore, exec_span_not_mem hmem, ← hkey]
          exact AList.lookup_insert _

/-- The read returns what the request has sent: a PUT its value; a POST makes a
    container, whose row is empty. -/
inductive ReadsBack (job : Job) (x : Option SqlValue) (read : Except Exc SqlValue) : Prop where
  | value (msg : Handler) (v : SqlValue) (hcommand : job.req.command = "PUT".toList)
      (message : parseSetBody job.con job.req (joinSlash (segments job.req)) = .ok msg)
      (bound : bindValue setErrorText msg.payload = .ok v) (returned : read = .ok v)
  | container (hcommand : job.req.command = "POST".toList) (empty : x = some (.text []))
      (returned : ∀ v, read = .ok v → v = .text [])

/-- What is stored is what is read. -/
theorem readsBack_of_stores (hmode : plugin.NotMigrating) (htokens : plugin.RoundTrips)
    {x : SqlValue} (hstores : Stores plugin job x) (nonce : Nat) {key : Str}
    (hnames : Names job.req key) {t : Table} (hx : row key t = some x) :
    ReadsBack job (row key t) (storeRead plugin nonce key t) := by
  have hread : storeRead plugin nonce key t = plugin.decode key x := by
    rw [storeRead_eq hmode]
    rw [row] at hx
    rw [hx]
    rfl
  cases hstores with
  | payload client msg encoded x h henc hrow =>
      have hkey : entryKey job.req = key := by
        rcases hnames with ⟨-, hkey⟩ | ⟨hpost, -⟩
        · exact hkey
        · exact absurd (h.command.symm.trans hpost) (by decide)
      rw [hkey] at henc
      obtain ⟨v, hv, hdec⟩ := StorePlugin.decode_encode htokens henc hrow
      exact .value msg v h.command h.message hv (hread.trans hdec)
  | empty msg h =>
      refine .container h.command hx ?_
      intro v hv
      rw [hread] at hv
      exact StorePlugin.decode_empty htokens hv

/-- **What all requests see of a key that is not removed**: the same row
    whenever it is there, the same result of every read; at most one PUT or
    POST naming the key is answered 201, and the reads return what it sent. -/
structure WrittenOnce (plugin : StorePlugin) (jobs : ι → Job) (key : Str)
    (turns : List (Turn ι)) : Prop where
  rows : ∀ v ∈ turns, ∀ w ∈ turns, key ∈ v.1.store → key ∈ w.1.store →
    v.1.store.lookup key = w.1.store.lookup key
  reads : ∀ v ∈ turns, ∀ w ∈ turns, key ∈ v.1.store → key ∈ w.1.store →
    storeRead plugin (jobs v.2).nonce key v.1.store
      = storeRead plugin (jobs w.2).nonce key w.1.store
  once : turns.Pairwise (fun v w => ¬ (Created jobs key v ∧ Created jobs key w))
  sent : ∀ v ∈ turns, Created jobs key v → ∀ w ∈ turns, key ∈ w.1.store →
    ReadsBack (jobs v.2) (w.1.store.lookup key) (storeRead plugin (jobs w.2).nonce key w.1.store)

/-- **HEADLINE — secrets are written once.** Over every store that does not
    migrate, in every interleaving of any number of requests, and along any
    stretch of a run in which the key is not removed. -/
theorem write_once {plugin : StorePlugin} (hmode : plugin.NotMigrating)
    (htokens : plugin.RoundTrips) (jobs : ι → Job) (t : Table) (before stretch : List ι)
    (key : Str)
    (hkept : ∀ v ∈ visits exec (runSched exec (start plugin jobs t) before) stretch,
      ¬ Removed key v) :
    WrittenOnce plugin jobs key
      (visits exec (runSched exec (start plugin jobs t) before) stretch) := by
  have hpromised : ∀ v ∈ visits exec (runSched exec (start plugin jobs t) before) stretch,
      Promised plugin jobs v.1 :=
    visits_invariant exec promised_step stretch _
      (runSched_invariant exec promised_step before _ (promised_start hmode jobs t))
  have hcalm : ∀ v ∈ visits exec (runSched exec (start plugin jobs t) before) stretch,
      ¬ Disturbs key v := by
    rintro v hv (hrem | ⟨o, k, hp, hrep⟩)
    · exact hkept v hv hrem
    · have hkeeps := (hpromised v hv).keeps v.2
      rw [hp] at hkeeps
      exact Bool.false_ne_true (hkeeps.1.symm.trans hrep)
  have hthere : ∀ {s : Table}, key ∈ s → ∃ x, row key s = some x :=
    fun h => Option.isSome_iff_exists.mp (AList.lookup_isSome.mpr h)
  have hrows : ∀ v ∈ visits exec (runSched exec (start plugin jobs t) before) stretch,
      ∀ w ∈ visits exec (runSched exec (start plugin jobs t) before) stretch,
      key ∈ v.1.store → key ∈ w.1.store → v.1.store.lookup key = w.1.store.lookup key := by
    intro v hv w hw hvk hwk
    obtain ⟨x, hx⟩ := hthere hvk
    obtain ⟨y, hy⟩ := hthere hwk
    have hxy := cell_reads_agree exec (row_kept key) stretch _ hcalm v hv w hw x y hx hy
    show row key v.1.store = row key w.1.store
    rw [hx, hy, hxy]
  refine ⟨hrows, ?_, ?_, ?_⟩
  · intro v hv w hw hvk hwk
    rw [storeRead_eq hmode, storeRead_eq hmode, hrows v hv w hw hvk hwk]
  · have honce := cell_filled_once exec (row_kept key) stretch
      (runSched exec (start plugin jobs t) before) hcalm
    refine honce.imp_of_mem ?_
    rintro v w hv hw hnot ⟨hcv, hcw⟩
    obtain ⟨x, hx, -⟩ := created_fills (hpromised v hv) hcv
    obtain ⟨y, hy, -⟩ := created_fills (hpromised w hw) hcw
    exact hnot ⟨⟨x, hx⟩, ⟨y, hy⟩⟩
  · intro v hv hc w hw hwk
    obtain ⟨x, hfill, hstores⟩ := created_fills (hpromised v hv) hc
    obtain ⟨y, hy⟩ := hthere hwk
    have hyx := cell_reads_filled exec (row_kept key) stretch _ hcalm v hv x hfill w hw y hy
    rw [hyx] at hy
    exact readsBack_of_stores hmode htokens hstores _ hc.1 hy

/-! ### Two PUTs through an overlay -/

/-- A token that spells the pinned key and the payload; the key's length comes
    first. -/
def clearToken (pinned s : Str) : Str :=
  List.replicate pinned.length 'p' ++ '.' :: (pinned ++ s)

/-- Tokens in the clear. -/
def clearJwe : Jwe where
  encrypt := fun header value _ =>
    match header, value with
    | .obj fields, .str (.text s) =>
        match Json.lookup fields "custodia.key" with
        | some (.str (.text key)) => .ok (clearToken key s)
        | _ => .error ⟨.other, "no pinned key"⟩
    | _, _ => .error ⟨.typeError, "plaintext must be a string"⟩
  decrypt := fun value =>
    match value with
    | .text (c :: s) =>
        let n := ((c :: s).takeWhile (fun c => decide (c = 'p'))).length
        let rest := (c :: s).drop (n + 1)
        .ok (rest.drop n, [(.text "custodia.key", .ofText (rest.take n))])
    | _ => .error ⟨.other, "Invalid format"⟩
  str := fun _ => []

/-- The mark of a clear token is as long as the key it is pinned to. -/
theorem takeWhile_clearToken (pinned s : Str) :
    ((clearToken pinned s).takeWhile (fun c => decide (c = 'p'))).length = pinned.length := by
  rw [clearToken, List.takeWhile_append_of_pos (by
    intro c hc
    rw [List.eq_of_mem_replicate hc]
    rfl)]
  simp

/-- The cipher of the demonstration opens whatever it has sealed. -/
theorem clearJwe_opens (enctype key : Str) :
    StorePlugin.Opens clearJwe (overlayHeader enctype none key) := by
  refine ⟨?_, ⟨_, rfl⟩⟩
  intro value nonce token henc
  cases value with
  | str s =>
      cases s with
      | text s =>
          obtain rfl : clearToken key s = token := Except.ok.inj henc
          refine ⟨s, [(.text "custodia.key", .ofText key)], rfl, ?_, rfl⟩
          obtain ⟨c, rest, htoken⟩ : ∃ c rest, clearToken key s = c :: rest := by
            cases htoken : clearToken key s with
            | nil => exact absurd htoken (by simp [clearToken])
            | cons c rest => exact ⟨c, rest, rfl⟩
          have hlen := takeWhile_clearToken key s
          have hrest : (clearToken key s).drop (key.length + 1) = key ++ s := by
            rw [clearToken, List.drop_append]
            simp
          rw [htoken] at hlen hrest ⊢
          show Except.ok (((c :: rest).drop _).drop _,
            [(_, Json.ofText (((c :: rest).drop _).take _))]) = _
          rw [hlen, hrest, List.drop_left, List.take_left]
      | broken units => exact nomatch henc
  | null => exact nomatch henc
  | bool b => exact nomatch henc
  | int n => exact nomatch henc
  | float x => exact nomatch henc
  | arr items => exact nomatch henc
  | obj fields => exact nomatch henc

/-- Two clients store the same entry. -/
def twoPuts : Fin 2 → Job :=
  fun i => ⟨SecretsRuns.simpleSecrets, SecretsRuns.putBytes "u" ["u", "k"] [65 + i], i⟩

/-- The overlay at work on two PUTs of one entry. -/
theorem two_puts_written_once :
    WrittenOnce (.encryptedOverlay clearJwe "A256CBC-HS512" none .sqlite) twoPuts "keys/u/k"
      (visits exec (runSched exec
        (start (.encryptedOverlay clearJwe "A256CBC-HS512" none .sqlite) twoPuts ∅) [0, 1])
        [0, 0, 1, 1]) := by
  have hmode : (StorePlugin.encryptedOverlay clearJwe "A256CBC-HS512" none .sqlite).NotMigrating :=
    ⟨by simp, trivial⟩
  have htokens : (StorePlugin.encryptedOverlay clearJwe "A256CBC-HS512" none .sqlite).RoundTrips :=
    ⟨clearJwe_opens _, trivial⟩
  refine write_once hmode htokens twoPuts ∅ [0, 1] [0, 0, 1, 1] "keys/u/k" ?_
  decide

end WriteOnceProofs
