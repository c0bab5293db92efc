import Custodia.Interleaving
import Custodia.SecretsEffects
import Custodia.ContainerRace

/-! # DestroyRaceProofs — deleting a container under a write

    A PUT or POST of an entry inside a container runs interleaved with a
    DELETE of the container, one store call at a time. The two programs
    refine the machines of `ContainerRace`.

    * `WritePlan`: PUT and POST as one shape;
    * `matches_step`: every call is a move of the race;
    * `not_orphaned_iff`: exactly when the entry does not lose its container. -/

namespace DestroyRaceProofs

open Interaction Interleaving PosixPath PyValues Messages SqliteStore SecretsConsumer SecretsCalls
open SecretsRequests SecretsEffects ContainerKeys ContainerRace

/-! ## A write below its parent -/

/-- A request that checks its parent and then makes one call that writes, with
    what it makes of the answer: a PUT, or a POST below the top. Only these
    parts of it matter in the race. -/
structure WritePlan where
  default : Option Str
  trail : List Str
  fail : Exc → Except Exc Response
  call : Call
  finish : Except Exc call.Ans → Except Exc Response
  outcome : Except Exc Response → Outcome

namespace WritePlan

variable (plan : WritePlan)

/-- The write and the end after it. -/
def write : StoreProg Response := .call plan.call (fun r => .ofExcept (plan.finish r))

/-- What is left once the namespace is to be made. -/
def make : StoreProg Response :=
  .call (.span (parentKey plan.trail)) (fun (r : Except Exc Unit) =>
    match r with
    | .error e => .ofExcept (plan.fail e)
    | .ok _ => plan.write)

/-- The whole request. -/
def program : StoreProg Outcome :=
  (underParent plan.default plan.trail (fun e => .ofExcept (plan.fail e)) plan.write).conclude
    plan.outcome

/-- The plan writes the entry `e` inside the container `c`, by its only call
    that `W` describes; `ok` says that its value can be stored. -/
structure Enters (c e : Str) (ok : Prop) (W : Call → Prop) : Prop where
  beneath : Beneath c e
  up : UpTo c (rstrip (parentKey plan.trail))
  made : onlyNamespaceMissing plan.default plan.trail → rstrip (parentKey plan.trail) = c
  entry : W plan.call
  other : ¬ W (.span (parentKey plan.trail)) ∧ ¬ W (.list (parentKey plan.trail))
  refuses : ∀ err, ¬ (plan.outcome (plan.fail err)).Answered 201
  rejects : ∀ err, ¬ (plan.outcome (plan.finish (.error err))).Answered 201
  writes : ∀ t, (∃ a v, ok ∧ e ∉ t ∧ exec plan.call t = (.ok a, t.insert e v))
    ∨ ((ok → e ∈ t) ∧ ∃ err, exec plan.call t = (.error err, t))

/-- The programs a plan goes through. -/
def Is : WriterPhase → StoreProg Outcome → Prop
  | .start, q => q = plan.program
  | .making, q => q = plan.make.conclude plan.outcome
      ∧ onlyNamespaceMissing plan.default plan.trail
  | .writing, q => q = plan.write.conclude plan.outcome
  | .written, q => ∃ a, q = .ret (plan.outcome (plan.finish (.ok a)))
  | .refused, q => ∃ o, q = .ret o ∧ ¬ o.Answered 201

variable {plan} {c e : Str} {ok : Prop} {W : Call → Prop}

theorem is_fail (h : plan.Enters c e ok W) (err : Exc) :
    plan.Is .refused ((Prog.ofExcept (plan.fail err) : StoreProg Response).conclude
      plan.outcome) :=
  ⟨_, Prog.conclude_ofExcept _ _, h.refuses err⟩

/-- The first call, the `list` of the parent check. -/
theorem move_start (h : plan.Enters c e ok W) (t : Table) :
    ∃ o k, plan.program = .call o k ∧ ∃ p, WriterMove c e ok .start t p (exec o t).2
      ∧ plan.Is p (k (exec o t).1) := by
  refine ⟨_, _, rfl, ?_⟩
  rw [exec_list]
  rcases listing_cases t (SecretsRuns.parentKey_ne_nil plan.trail) with ⟨-, text, hlist⟩ |
    ⟨-, hchild, names, -, hlist⟩ | ⟨-, -, hparent, hlist⟩ | ⟨-, -, -, hlist⟩
  · rw [hlist]
    exact ⟨.refused, .denied, is_fail h _⟩
  · rw [hlist]
    exact ⟨.writing, .found (visible_up h.up (Or.inl hchild)), rfl⟩
  · rw [hlist]
    exact ⟨.writing, .found (visible_up h.up (Or.inr hparent)), rfl⟩
  · rw [hlist]
    by_cases hns : onlyNamespaceMissing plan.default plan.trail
    · simp only [if_pos hns]
      exact ⟨.making, .missing, rfl, hns⟩
    · simp only [if_neg hns]
      exact ⟨.refused, .denied, is_fail h _⟩

/-- The second call of a plan that makes its namespace. -/
theorem move_make (h : plan.Enters c e ok W) (hns : onlyNamespaceMissing plan.default plan.trail)
    (t : Table) : ∃ o k, plan.make.conclude plan.outcome = .call o k
      ∧ ∃ p, WriterMove c e ok .making t p (exec o t).2 ∧ plan.Is p (k (exec o t).1) := by
  refine ⟨_, _, rfl, ?_⟩
  by_cases hmem : rstrip (parentKey plan.trail) ∈ t
  · rw [exec_span_mem hmem]
    exact ⟨.refused, .beaten, is_fail h _⟩
  · rw [exec_span_not_mem hmem, h.made hns]
    exact ⟨.writing, .make, rfl⟩

/-- The last call, the write. -/
theorem move_write (h : plan.Enters c e ok W) (t : Table) :
    ∃ o k, plan.write.conclude plan.outcome = .call o k
      ∧ ∃ p, WriterMove c e ok .writing t p (exec o t).2 ∧ plan.Is p (k (exec o t).1) := by
  refine ⟨_, _, rfl, ?_⟩
  rcases h.writes t with ⟨a, v, hok, hfree, hexec⟩ | ⟨hfull, err, hexec⟩
  · rw [hexec]
    exact ⟨.written, .write hok hfree, a, Prog.conclude_ofExcept _ _⟩
  · rw [hexec]
    exact ⟨.refused, .fail hfull, _, Prog.conclude_ofExcept _ _, h.rejects err⟩

/-- **Every call of a plan is a move of the writer.** -/
theorem moves (h : plan.Enters c e ok W) {p : WriterPhase} {q : StoreProg Outcome}
    (hq : plan.Is p q) (t : Table) :
    (Finished q ∧ (p = .written ∨ p = .refused))
    ∨ ∃ o k, q = .call o k ∧ ∃ p', WriterMove c e ok p t p' (exec o t).2
      ∧ plan.Is p' (k (exec o t).1) := by
  cases p with
  | start =>
      obtain rfl : q = plan.program := hq
      exact Or.inr (move_start h t)
  | making =>
      obtain ⟨rfl, hns⟩ := hq
      exact Or.inr (move_make h hns t)
  | writing =>
      obtain rfl : q = plan.write.conclude plan.outcome := hq
      exact Or.inr (move_write h t)
  | written =>
      obtain ⟨a, rfl⟩ := hq
      exact Or.inl ⟨trivial, Or.inl rfl⟩
  | refused =>
      obtain ⟨o, rfl, -⟩ := hq
      exact Or.inl ⟨trivial, Or.inr rfl⟩

/-- Only in its writing phase does a plan make its write next. -/
theorem writes_next (h : plan.Enters c e ok W) {p : WriterPhase} {q : StoreProg Outcome}
    (hq : plan.Is p q) : (∃ o k, q = .call o k ∧ W o) ↔ p = .writing := by
  constructor
  · rintro ⟨o, k, hk, hwrite⟩
    cases p with
    | writing => rfl
    | start =>
        obtain rfl : q = plan.program := hq
        injection hk with hcall
        exact absurd (hcall ▸ hwrite) h.other.2
    | making =>
        obtain ⟨rfl, -⟩ := hq
        injection hk with hcall
        exact absurd (hcall ▸ hwrite) h.other.1
    | written =>
        obtain ⟨a, rfl⟩ := hq
        exact nomatch hk
    | refused =>
        obtain ⟨o, rfl, -⟩ := hq
        exact nomatch hk
  · rintro rfl
    obtain rfl : q = plan.write.conclude plan.outcome := hq
    exact ⟨_, _, rfl, h.entry⟩

/-- A plan that can be answered 201 has written. -/
theorem written_of_answered {p : WriterPhase} {q : StoreProg Outcome} (hq : plan.Is p q)
    {o : Outcome} (hend : q.ended = some (.ok o)) (h201 : o.Answered 201) :
    p = .written ∧ ∃ a, o = plan.outcome (plan.finish (.ok a)) := by
  cases p with
  | start =>
      obtain rfl : q = plan.program := hq
      exact nomatch hend
  | making =>
      obtain ⟨rfl, -⟩ := hq
      exact nomatch hend
  | writing =>
      obtain rfl : q = plan.write.conclude plan.outcome := hq
      exact nomatch hend
  | written =>
      obtain ⟨a, rfl⟩ := hq
      exact ⟨rfl, a, (Except.ok.inj (Option.some.inj hend)).symm⟩
  | refused =>
      obtain ⟨o', rfl, hnot⟩ := hq
      obtain rfl := Except.ok.inj (Option.some.inj hend)
      exact absurd h201 hnot

theorem atMost_program : Prog.AtMost 3 plan.program := by
  have hwrite : Prog.AtMost 1 plan.write := fun r => Prog.atMost_ofExcept 0 _
  refine Prog.atMost_conclude _ ?_
  intro r
  match r with
  | .error e => exact Prog.atMost_ofExcept 2 _
  | .ok (some names) => exact Prog.atMost_succ hwrite
  | .ok none =>
      show Prog.AtMost 2 (if onlyNamespaceMissing plan.default plan.trail then _ else _
        : StoreProg Response)
      split_ifs
      · intro r
        match r with
        | .error e => exact Prog.atMost_ofExcept 1 _
        | .ok u => exact hwrite
      · exact Prog.atMost_ofExcept 2 _

end WritePlan

/-! ## A DELETE of a container -/

/-- The programs a DELETE of a container goes through. -/
def DeleteIs (con : Secrets) (msg : Handler) (key : Str) :
    DeletePhase → StoreProg Outcome → Prop
  | .start, q => q = (Prog.call (Call.list key) (destroyListed con msg key)).conclude plain
  | .cutting, q => q = (Prog.call (Call.cut (rstrip key)) (fun (r : Except Exc Bool) =>
      (.ofExcept (cutFinish con msg r) : StoreProg Response))).conclude plain
  | .removed, q => q = .ret (plain (changedResponse con msg 200 204))
  | .refused, q => ∃ e, q = .ret (plain (.error e))

section Delete

variable {con : Secrets} {msg : Handler} {key : Str}

theorem delete_start (hkey : key ≠ []) (t : Table) :
    ∃ p, DeleteMove (rstrip key) .start t p t ∧ DeleteIs con msg key p
      ((destroyListed con msg key (listing t key)).conclude plain) := by
  rcases listing_cases t hkey with ⟨-, text, hlist⟩ | ⟨-, -, names, hne, hlist⟩ |
    ⟨-, hleaf, -, hlist⟩ | ⟨-, -, -, hlist⟩
  · rw [hlist]
    exact ⟨.refused, .denied, _, rfl⟩
  · rw [hlist]
    cases names with
    | nil => exact absurd rfl hne
    | cons a l => exact ⟨.refused, .denied, _, rfl⟩
  · rw [hlist]
    exact ⟨.cutting, .empty hleaf, rfl⟩
  · rw [hlist]
    exact ⟨.refused, .denied, _, rfl⟩

/-- **Every call of a DELETE is a move of the DELETE.** -/
theorem delete_moves (hkey : key ≠ []) {p : DeletePhase} {q : StoreProg Outcome}
    (hq : DeleteIs con msg key p q) (t : Table) :
    (Finished q ∧ (p = .removed ∨ p = .refused))
    ∨ ∃ o k, q = .call o k ∧ ∃ p', DeleteMove (rstrip key) p t p' (exec o t).2
      ∧ DeleteIs con msg key p' (k (exec o t).1) := by
  cases p with
  | start =>
      obtain rfl : q = _ := hq
      exact Or.inr ⟨_, _, rfl, delete_start hkey t⟩
  | cutting =>
      obtain rfl : q = _ := hq
      refine Or.inr ⟨_, _, rfl, ?_⟩
      by_cases hmem : rstrip key ∈ t
      · rw [exec_cut_mem hmem]
        exact ⟨.removed, .cut hmem, Prog.conclude_ofExcept _ _⟩
      · rw [exec_cut_not_mem hmem]
        exact ⟨.refused, .gone hmem, .http 404 none, rfl⟩
  | removed =>
      obtain rfl : q = _ := hq
      exact Or.inl ⟨trivial, Or.inl rfl⟩
  | refused =>
      obtain ⟨e, rfl⟩ := hq
      exact Or.inl ⟨trivial, Or.inr rfl⟩

theorem cuts_next {p : DeletePhase} {q : StoreProg Outcome} (hq : DeleteIs con msg key p q) :
    (∃ k, q = .call (.cut (rstrip key)) k) ↔ p = .cutting := by
  constructor
  · rintro ⟨k, hk⟩
    cases p with
    | cutting => rfl
    | start =>
        obtain rfl : q = _ := hq
        injection hk with hcall
        exact nomatch hcall
    | removed =>
        obtain rfl : q = _ := hq
        exact nomatch hk
    | refused =>
        obtain ⟨e, rfl⟩ := hq
        exact nomatch hk
  · rintro rfl
    obtain rfl : q = _ := hq
    exact ⟨_, rfl⟩

/-- A DELETE that is answered 204 has removed the container. -/
theorem removed_of_answered {p : DeletePhase} {q : StoreProg Outcome}
    (hq : DeleteIs con msg key p q) {o : Outcome} (hend : q.ended = some (.ok o))
    (h204 : o.Answered 204) : p = .removed ∧ o = plain (changedResponse con msg 200 204) := by
  cases p with
  | start =>
      obtain rfl : q = _ := hq
      exact nomatch hend
  | cutting =>
      obtain rfl : q = _ := hq
      exact nomatch hend
  | removed =>
      obtain rfl : q = _ := hq
      exact ⟨rfl, (Except.ok.inj (Option.some.inj hend)).symm⟩
  | refused =>
      obtain ⟨e, rfl⟩ := hq
      obtain rfl := Except.ok.inj (Option.some.inj hend)
      exact absurd h204 not_answered_error

end Delete

/-! ## The two programs refine the race -/

/-- Both programs on one table. -/
abbrev RaceConfig : Type := Config Role Exc Call Call.Ans Outcome Table

/-- The configuration is in the state `r` of the race: the writer and the DELETE
    are where their phases say, and the table is the same. -/
structure Matches (plan : WritePlan) (con : Secrets) (msg : Handler) (key : Str)
    (cfg : RaceConfig) (r : Race) : Prop where
  writer : plan.Is r.writer (cfg.procs .writer)
  delete : DeleteIs con msg key r.delete (cfg.procs .delete)
  store : cfg.store = r.store

section Refinement

variable {plan : WritePlan} {con : Secrets} {msg : Handler} {key e : Str} {ok : Prop}
  {W : Call → Prop}

/-- **The simulation**: every turn of the two programs is a move of the race,
    and keeps the phases, the calls to come and the table together. -/
theorem matches_step (h : plan.Enters (rstrip key) e ok W) (hkey : key ≠ []) {cfg : RaceConfig}
    {r : Race} (hm : Matches plan con msg key cfg r) (i : Role) :
    ∃ r', Move (rstrip key) e ok i r r' ∧ Matches plan con msg key (step exec cfg i) r' := by
  obtain ⟨hw, hd, hs⟩ := hm
  cases i with
  | writer =>
      rcases WritePlan.moves h hw r.store with ⟨hfin, hdone⟩ | ⟨o, k, hp, p, hmove, his⟩
      · rw [step_of_finished exec hfin]
        exact ⟨⟨r.writer, r.delete, r.store⟩, .writer (.idle hdone), hw, hd, hs⟩
      · rw [step_call exec hp, hs]
        refine ⟨_, .writer hmove, ?_, ?_, rfl⟩
        · show plan.Is p (Function.update cfg.procs .writer (k (exec o r.store).1) .writer)
          rw [Function.update_self]
          exact his
        · show DeleteIs con msg key r.delete
            (Function.update cfg.procs .writer (k (exec o r.store).1) .delete)
          rw [Function.update_of_ne (by decide)]
          exact hd
  | delete =>
      rcases delete_moves hkey hd r.store with ⟨hfin, hdone⟩ | ⟨o, k, hp, p, hmove, his⟩
      · rw [step_of_finished exec hfin]
        exact ⟨⟨r.writer, r.delete, r.store⟩, .delete (.idle hdone), hw, hd, hs⟩
      · rw [step_call exec hp, hs]
        refine ⟨_, .delete hmove, ?_, ?_, rfl⟩
        · show plan.Is r.writer (Function.update cfg.procs .delete (k (exec o r.store).1) .writer)
          rw [Function.update_of_ne (by decide)]
          exact hw
        · show DeleteIs con msg key p
            (Function.update cfg.procs .delete (k (exec o r.store).1) .delete)
          rw [Function.update_self]
          exact his

/-- The configuration is in some state of the race that satisfies `P`. -/
def InRace (plan : WritePlan) (con : Secrets) (msg : Handler) (key : Str) (P : Race → Prop)
    (cfg : RaceConfig) : Prop := ∃ r, Matches plan con msg key cfg r ∧ P r

theorem inRace_step (h : plan.Enters (rstrip key) e ok W) (hkey : key ≠ []) {P Q : Race → Prop}
    {cfg : RaceConfig} {i : Role} (hstep : ∀ r r', P r → Move (rstrip key) e ok i r r' → Q r')
    (hin : InRace plan con msg key P cfg) : InRace plan con msg key Q (step exec cfg i) := by
  obtain ⟨r, hm, hr⟩ := hin
  obtain ⟨r', hmove, hm'⟩ := matches_step h hkey hm i
  exact ⟨r', hm', hstep r r' hr hmove⟩

end Refinement

/-! ## PUT and POST inside a container -/

/-- The segments that name an entry or a container, without the last slash. -/
def entryTrail (req : Request) : List Str :=
  if req.command = "POST".toList then (segments req).dropLast else segments req

/-- The container that a DELETE with a trailing slash names. -/
def container (req : Request) : Str := rstrip (entryKey req)

/-- PUT or POST `w` names an entry inside the container that DELETE `d` names,
    at any depth. No name on the way is absolute, so that the key of the entry
    is below that of the container. -/
structure Inside (w d : Request) : Prop where
  writes : w.command = "PUT".toList ∨ w.command = "POST".toList
  deletes : d.command = "DELETE".toList
  below : ∃ base inner name, segments d = base ++ [[]]
    ∧ entryTrail w = base ++ inner ++ [name] ∧ name ≠ []
    ∧ ∀ s ∈ inner ++ [name], isAbsolute s = false

/-- The value of a PUT can be stored under its key, and the request can be
    answered. Without this there is no successful writer, whatever the DELETE
    does. -/
inductive Accepted (con : Secrets) (w : Request) : Prop where
  | put (client : Str) (msg : Handler) (h : Puts con w client msg)
      (open_end : endsInSlash (entryKey w) = false)
      (bound : ∃ v, bindValue setErrorText msg.payload = .ok v)
      (answerable : ¬ Unanswerable con.runtime msg) : Accepted con w
  | post (msg : Handler) (h : Posts con w msg)
      (answerable : ¬ Unanswerable con.runtime msg) : Accepted con w

/-- The DELETE carries a `simple` message, the only kind answered 204. -/
def Silent (con : Secrets) (d : Request) : Prop :=
  ∃ name payload, Destroys con d (.simpleKey name payload)

/-- The call by which a PUT or POST stores its entry. -/
def EntryWrite (w : Request) (o : Call) : Prop :=
  w.command = "PUT".toList ∧ (∃ value, o = .set (entryKey w) value false)
  ∨ w.command = "POST".toList ∧ o = .span (entryKey w)

/-- Both requests at their start. -/
def race (con : Secrets) (w d : Request) (t : Table) : RaceConfig :=
  ⟨fun i => match i with
    | .writer => handle con w
    | .delete => handle con d, t⟩

/-- Both requests succeed, with 201 and 204, and in the end the entry is there
    without its container: neither its row nor a spelling of it with a slash. -/
structure Orphaned (w d : Request) (cfg : RaceConfig) : Prop where
  created : ∃ o, (cfg.procs .writer).ended = some (.ok o) ∧ o.Answered 201
  deleted : ∃ o, (cfg.procs .delete).ended = some (.ok o) ∧ o.Answered 204
  entry : newEntry w ∈ cfg.store
  gone : ¬ HasParent cfg.store (container d)

/-- In this turn the DELETE cuts the container, while the entry is stored
    already or the next call of the other request stores it. -/
structure CutsUnder (w d : Request) (v : RaceConfig × Role) : Prop where
  turn : v.2 = .delete
  cuts : ∃ k, v.1.procs .delete = .call (.cut (container d)) k
  there : container d ∈ v.1.store
  last : ¬ HasParent (v.1.store.erase (container d)) (container d)
  passed : newEntry w ∈ v.1.store ∨ ∃ o k, v.1.procs .writer = .call o k ∧ EntryWrite w o

section Keys

variable {con : Secrets} {w d : Request} {base inner : List Str} {name : Str}

theorem container_eq (hd : segments d = base ++ [[]]) :
    container d = rstrip (join "keys" base) := by
  rw [container, entryKey, hd, join_append, join_cons, join_nil, rstrip_joinStep_nil]

/-- The parent that is checked is a place in the container. -/
theorem upTo_parent (hd : segments d = base ++ [[]])
    (hrel : ∀ s ∈ inner ++ [name], isAbsolute s = false) :
    UpTo (container d) (rstrip (parentKey (base ++ inner ++ [name]))) := by
  have hparent : rstrip (parentKey (base ++ inner ++ [name]))
      = rstrip (join (join "keys" base) inner) := by
    rw [parentKey, List.dropLast_concat, join_append, join_append, join_cons, join_nil,
      rstrip_joinStep_nil]
  rw [hparent, container_eq hd]
  exact upTo_join inner _ (fun s hs => hrel s (List.mem_append_left _ hs))

/-- The key of the entry, with and without its trailing slashes, is beneath
    its parent. -/
theorem beneath_parent (hne : name ≠ []) (hrel : ∀ s ∈ inner ++ [name], isAbsolute s = false) :
    Beneath (rstrip (parentKey (base ++ inner ++ [name])))
        (join "keys" (base ++ inner ++ [name]))
      ∧ Beneath (rstrip (parentKey (base ++ inner ++ [name])))
        (rstrip (join "keys" (base ++ inner ++ [name]))) := by
  have hparent : rstrip (parentKey (base ++ inner ++ [name]))
      = rstrip (join "keys" (base ++ inner)) := by
    rw [parentKey, List.dropLast_concat, join_append, join_cons, join_nil, rstrip_joinStep_nil]
  rw [hparent, join_append "keys" (base ++ inner) [name], join_cons, join_nil]
  exact beneath_joinStep _ (hrel name (List.mem_append_right _ (List.mem_singleton_self name))) hne

/-- A missing namespace is the container itself. -/
theorem made_container (hdeep : 2 ≤ (segments d).length) (hd : segments d = base ++ [[]])
    {default : Option Str} (h : onlyNamespaceMissing default (base ++ inner ++ [name])) :
    rstrip (parentKey (base ++ inner ++ [name])) = container d := by
  have hlen := h.1
  rw [hd] at hdeep
  simp only [List.length_append, List.length_singleton] at hlen hdeep
  obtain rfl : inner = [] := List.length_eq_zero_iff.mp (by omega)
  rw [container_eq hd, parentKey, List.append_nil, List.dropLast_concat, join_append, join_cons,
    join_nil, rstrip_joinStep_nil]

end Keys

/-! ### Their plans -/

/-- A PUT. -/
def putPlan (con : Secrets) (w : Request) (client : Str) (msg : Handler) : WritePlan where
  default := w.defaultNamespace
  trail := segments w
  fail := fun e => .error (setError e)
  call := .set (entryKey w) msg.payload false
  finish := setFinish con msg
  outcome := recorded auditSetAllowed auditSetDenied client (segments w)

/-- A POST below a namespace. -/
def postPlan (con : Secrets) (w : Request) (msg : Handler) : WritePlan where
  default := w.defaultNamespace
  trail := (segments w).dropLast
  fail := fun e => spanFinish con msg (.error e)
  call := .span (entryKey w)
  finish := spanFinish con msg
  outcome := plain

section Plans

variable {con : Secrets} {w d : Request} {client : Str} {msg msg' : Handler}

theorem handle_putPlan (h : Puts con w client msg) :
    handle con w = (putPlan con w client msg).program := handle_put h

theorem handle_postPlan (h : Posts con w msg) (hlen : 2 < (segments w).length) :
    handle con w = (postPlan con w msg).program := handle_post_below h hlen

theorem put_enters (h : Puts con w client msg) (hin : Inside w d) (hd : Destroys con d msg') :
    (putPlan con w client msg).Enters (container d) (newEntry w)
      (endsInSlash (entryKey w) = false ∧ ∃ v, bindValue setErrorText msg.payload = .ok v)
      (EntryWrite w) := by
  obtain ⟨-, -, base, inner, name, hbase, htrail, hne, hrel⟩ := hin
  have hput : w.command ≠ "POST".toList := by rw [h.command]; decide
  have hentry : newEntry w = entryKey w := if_neg hput
  rw [entryTrail, if_neg hput] at htrail
  have hup : UpTo (container d) (rstrip (parentKey (segments w))) := by
    rw [htrail]
    exact upTo_parent hbase hrel
  refine ⟨?_, hup, ?_, Or.inl ⟨h.command, _, rfl⟩, ⟨?_, ?_⟩, fun err => not_answered_error,
    fun err => not_answered_error, ?_⟩
  · rw [hentry, entryKey]
    refine beneath_of_upTo hup ?_
    rw [htrail]
    exact (beneath_parent hne hrel).1
  · intro hns
    have hns : onlyNamespaceMissing w.defaultNamespace (segments w) := hns
    show rstrip (parentKey (segments w)) = _
    rw [htrail] at hns ⊢
    exact made_container hd.deep hbase hns
  · rintro (⟨-, value, hc⟩ | ⟨hpost, -⟩)
    · cases hc
    · exact hput hpost
  · rintro (⟨-, value, hc⟩ | ⟨-, hc⟩)
    · cases hc
    · cases hc
  · intro t
    rw [hentry]
    rcases exec_set_storable t (entryKey w) msg.payload with ⟨v, hs, -, hexec⟩ | ⟨hs, err, hexec⟩
    · exact Or.inl ⟨(), v, ⟨hs.open_end, hs.bound⟩, hs.fresh, hexec⟩
    · refine Or.inr ⟨?_, err, hexec⟩
      rintro ⟨hopen, hbound⟩
      exact not_not.mp (fun hfree => hs ⟨hopen, hbound, hfree⟩)

theorem post_deep (hin : Inside w d) (hpost : w.command = "POST".toList)
    (hdeep : 2 ≤ (segments d).length) : 2 < (segments w).length := by
  obtain ⟨-, -, base, inner, name, hbase, htrail, -, -⟩ := hin
  rw [entryTrail, if_pos hpost] at htrail
  have hlen := congrArg List.length htrail
  rw [hbase] at hdeep
  simp only [List.length_dropLast, List.length_append, List.length_singleton] at hlen hdeep
  omega

theorem post_enters (h : Posts con w msg) (hin : Inside w d) (hd : Destroys con d msg') :
    (postPlan con w msg).Enters (container d) (newEntry w) True (EntryWrite w) := by
  obtain ⟨-, -, base, inner, name, hbase, htrail, hne, hrel⟩ := hin
  have hentry : newEntry w = rstrip (entryKey w) := if_pos h.command
  rw [entryTrail, if_pos h.command] at htrail
  have hsplit : segments w = base ++ inner ++ [name] ++ [[]] := by
    rw [← htrail]
    exact (List.dropLast_append_getLast? [] h.container).symm
  have hkey : rstrip (entryKey w) = rstrip (join "keys" (base ++ inner ++ [name])) := by
    rw [entryKey, hsplit, join_append, join_cons, join_nil, rstrip_joinStep_nil]
  have hup : UpTo (container d) (rstrip (parentKey (segments w).dropLast)) := by
    rw [htrail]
    exact upTo_parent hbase hrel
  have hbeneath : Beneath (rstrip (parentKey (segments w).dropLast)) (rstrip (entryKey w)) := by
    rw [hkey, htrail]
    exact (beneath_parent hne hrel).2
  have hspan : ∀ err, ¬ (plain (spanFinish con msg (.error err))).Answered 201 :=
    fun err => span_error_not_created
  refine ⟨?_, hup, ?_, Or.inr ⟨h.command, rfl⟩, ⟨?_, ?_⟩, hspan, hspan, ?_⟩
  · rw [hentry]
    exact beneath_of_upTo hup hbeneath
  · intro hns
    have hns : onlyNamespaceMissing w.defaultNamespace (segments w).dropLast := hns
    show rstrip (parentKey (segments w).dropLast) = _
    rw [htrail] at hns ⊢
    exact made_container hd.deep hbase hns
  · rintro (⟨-, value, hc⟩ | ⟨-, hc⟩)
    · cases hc
    · -- the entry is not its own parent
      have hsame : parentKey (segments w).dropLast = entryKey w := Call.span.inj hc
      rw [hsame] at hbeneath
      exact hbeneath.1 rfl
  · rintro (⟨-, value, hc⟩ | ⟨-, hc⟩)
    · cases hc
    · cases hc
  · intro t
    rw [hentry]
    by_cases hmem : rstrip (entryKey w) ∈ t
    · exact Or.inr ⟨fun _ => hmem, keyExists, exec_span_mem hmem⟩
    · exact Or.inl ⟨(), .text [], trivial, hmem, exec_span_not_mem hmem⟩

end Plans

/-! ### Every pair of requests -/

/-- A PUT or POST inside a container is refused before any call, or is a plan
    that is answered 201 exactly when it is accepted. -/
theorem writer_cases (con : Secrets) {w d : Request} {msg : Handler} (hin : Inside w d)
    (hd : Destroys con d msg) :
    (∃ plan ok, handle con w = WritePlan.program plan
      ∧ plan.Enters (container d) (newEntry w) ok (EntryWrite w)
      ∧ (Accepted con w → ok)
      ∧ (ok → ∀ a, (plan.outcome (plan.finish (.ok a))).Answered 201 ↔ Accepted con w))
    ∨ ((∃ o, handle con w = .ret o ∧ Refused o) ∧ ¬ Accepted con w) := by
  cases request_kind con w with
  | put client msg' h =>
      refine Or.inl ⟨putPlan con w client msg', _, handle_putPlan h, put_enters h hin hd, ?_, ?_⟩
      · rintro (⟨_, _, h', hopen, hbound, -⟩ | ⟨_, h', -⟩)
        · obtain rfl := Except.ok.inj (h.message.symm.trans h'.message)
          exact ⟨hopen, hbound⟩
        · exact absurd (h.command.symm.trans h'.command) (by decide)
      · rintro ⟨hopen, hbound⟩ a
        refine created_answered.trans ⟨fun hu => .put client msg' h hopen hbound hu, ?_⟩
        rintro (⟨_, _, h', -, -, hu⟩ | ⟨_, h', -⟩)
        · obtain rfl := Except.ok.inj (h.message.symm.trans h'.message)
          exact hu
        · exact absurd (h.command.symm.trans h'.command) (by decide)
  | post msg' h =>
      refine Or.inl ⟨postPlan con w msg', True,
        handle_postPlan h (post_deep hin h.command hd.deep), post_enters h hin hd,
        fun _ => trivial, ?_⟩
      intro _ a
      refine created_answered.trans ⟨fun hu => .post msg' h hu, ?_⟩
      rintro (⟨_, _, h', -, -, -⟩ | ⟨_, h', hu⟩)
      · exact absurd (h.command.symm.trans h'.command) (by decide)
      · obtain rfl := Except.ok.inj (h.message.symm.trans h'.message)
        exact hu
  | refused o hrun h =>
      refine Or.inr ⟨⟨o, hrun, h⟩, ?_⟩
      rintro (⟨client, msg', h', -, -, -⟩ | ⟨msg', h', -⟩)
      · rw [handle_put h'] at hrun
        exact nomatch hrun
      · rw [handle_post_below h' (post_deep hin h'.command hd.deep)] at hrun
        exact nomatch hrun
  | get client msg' h =>
      rcases hin.writes with hw | hw <;> exact absurd (h.command.symm.trans hw) (by decide)
  | list key msg' h =>
      rcases hin.writes with hw | hw <;> exact absurd (h.command.symm.trans hw) (by decide)
  | destroy msg' h =>
      rcases hin.writes with hw | hw <;> exact absurd (h.command.symm.trans hw) (by decide)
  | delete client msg' h =>
      rcases hin.writes with hw | hw <;> exact absurd (h.command.symm.trans hw) (by decide)

/-- A DELETE of a container is refused before any call, or is carried out. -/
theorem deleter_cases (con : Secrets) {w d : Request} (hin : Inside w d) :
    (∃ msg, Destroys con d msg)
    ∨ ((∃ o, handle con d = .ret o ∧ Refused o) ∧ ¬ Silent con d) := by
  obtain ⟨-, hdel, base, inner, name, hbase, -⟩ := hin
  have hcont : namesContainer (segments d) := by rw [hbase]; exact List.getLast?_concat
  cases request_kind con d with
  | destroy msg h => exact Or.inl ⟨msg, h⟩
  | refused o hrun h =>
      refine Or.inr ⟨⟨o, hrun, h⟩, ?_⟩
      rintro ⟨name, payload, h'⟩
      rw [handle_destroy h'] at hrun
      exact nomatch hrun
  | delete client msg h => exact absurd hcont h.entry
  | get client msg h => exact absurd (h.command.symm.trans hdel) (by decide)
  | list key msg h => exact absurd (h.command.symm.trans hdel) (by decide)
  | put client msg h => exact absurd (h.command.symm.trans hdel) (by decide)
  | post msg h => exact absurd (h.command.symm.trans hdel) (by decide)

/-- A request refused before any call is never answered. -/
theorem not_answered_of_refused {p : StoreProg Outcome} {o o' : Outcome} {code : Nat}
    (hp : p = .ret o) (h : Refused o) (hend : p.ended = some (.ok o')) : ¬ o'.Answered code := by
  subst hp
  obtain rfl := Except.ok.inj (Option.some.inj hend)
  obtain ⟨⟨e, he⟩, -⟩ := h
  rintro ⟨response, hok, -⟩
  exact nomatch he.symm.trans hok

/-! ## The theorem -/

section Runs

variable {con : Secrets} {w d : Request} {msg : Handler} {plan : WritePlan} {ok : Prop}

theorem matches_start (hplan : handle con w = plan.program) (hd : Destroys con d msg) (t : Table) :
    Matches plan con msg (entryKey d) (race con w d t) ⟨.start, .start, t⟩ :=
  ⟨hplan, handle_destroy hd, rfl⟩

/-- What a turn cuts is what the race calls overtaken. -/
theorem cutsUnder_iff (he : plan.Enters (container d) (newEntry w) ok (EntryWrite w))
    {cfg : RaceConfig} {r : Race} (hm : Matches plan con msg (entryKey d) cfg r) :
    CutsUnder w d (cfg, .delete) ↔ Overtakes (container d) (newEntry w) r := by
  have hnext := WritePlan.writes_next he hm.writer
  have hcut : (∃ k, cfg.procs .delete = .call (.cut (container d)) k) ↔ r.delete = .cutting :=
    cuts_next hm.delete
  constructor
  · rintro ⟨-, hcuts, hthere, hlast, hpassed⟩
    rw [hm.store] at hthere hlast hpassed
    exact ⟨hcut.mp hcuts, hthere, hlast, hpassed.imp id hnext.mp⟩
  · rintro ⟨hcutting, hthere, hlast, hpassed⟩
    rw [← hm.store] at hthere hlast hpassed
    exact ⟨rfl, hcut.mpr hcutting, hthere, hlast, hpassed.imp id hnext.mpr⟩

/-- The invariant of the race holds along every run. -/
theorem inRace_inv (he : plan.Enters (container d) (newEntry w) ok (EntryWrite w))
    (hplan : handle con w = plan.program) (hd : Destroys con d msg) (t : Table) (s : List Role) :
    InRace plan con msg (entryKey d) (Inv (container d) (newEntry w) ok)
      (runSched exec (race con w d t) s) := by
  refine runSched_invariant exec ?_ s _ ⟨_, matches_start hplan hd t, nofun, nofun⟩
  intro c i hin
  exact inRace_step he (entryKey_ne_nil hd.container)
    (fun r r' hr hmove => inv_move he.beneath hr hmove) hin

/-- A run that is never overtaken ends safely. -/
theorem inRace_safe (he : plan.Enters (container d) (newEntry w) ok (EntryWrite w))
    (hplan : handle con w = plan.program) (hd : Destroys con d msg) {t : Table} {s : List Role}
    (hcalm : ∀ v ∈ visits exec (race con w d t) s, ¬ CutsUnder w d v) :
    InRace plan con msg (entryKey d)
      (fun r => Inv (container d) (newEntry w) ok r ∧ Safe (container d) r)
      (runSched exec (race con w d t) s) := by
  refine runSched_invariant_avoiding exec ?_ s _
    ⟨_, matches_start hplan hd t, ⟨nofun, nofun⟩, nofun⟩ hcalm
  rintro c i ⟨r, hm, hinv, hsafe⟩ hcut
  obtain ⟨r', hmove, hm'⟩ := matches_step he (entryKey_ne_nil hd.container) hm i
  have hno : ¬ (i = .delete ∧ Overtakes (container d) (newEntry w) r) := by
    rintro ⟨rfl, hover⟩
    exact hcut ((cutsUnder_iff he hm).mpr hover)
  exact ⟨r', hm', inv_move he.beneath hinv hmove, safe_move he.beneath hinv hsafe hno hmove⟩

/-- A run that is overtaken somewhere has lost the container at its end. -/
theorem inRace_lost (he : plan.Enters (container d) (newEntry w) ok (EntryWrite w))
    (hplan : handle con w = plan.program) (hd : Destroys con d msg) (hok : ok) {t : Table}
    {s : List Role} {v : RaceConfig × Role} (hv : v ∈ visits exec (race con w d t) s)
    (hcut : CutsUnder w d v) :
    InRace plan con msg (entryKey d) (Lost (container d) (newEntry w))
      (runSched exec (race con w d t) s) := by
  have hkey := entryKey_ne_nil hd.container
  obtain ⟨p, rest, rfl, hpre⟩ := visits_split exec hv
  have hturn : v.2 = .delete := hcut.turn
  obtain ⟨cfg, i⟩ := v
  obtain rfl : i = .delete := hturn
  obtain rfl : cfg = runSched exec (race con w d t) p := hpre
  obtain ⟨r, hm, hinv⟩ := inRace_inv he hplan hd t p
  have hover := (cutsUnder_iff he hm).mp hcut
  rw [runSched_append]
  -- the cut loses the container, and every later turn keeps it lost
  refine runSched_invariant exec (fun c i hin => inRace_step he hkey
    (fun r r' hr hmove => lost_move he.beneath hok hr hmove) hin) rest _ ?_
  obtain ⟨r', hmove, hm'⟩ := matches_step he hkey hm .delete
  exact ⟨r', hm', lost_of_overtakes he.beneath hinv hover hmove⟩

end Runs

/-- **HEADLINE — no container is deleted under a write** that is not overtaken.
    For every table and every interleaving that lets the writer finish, the
    entry loses its container exactly when the DELETE cuts it under the write
    (and both requests can be carried out and answered). -/
theorem not_orphaned_iff (con : Secrets) (t : Table) {w d : Request} (hin : Inside w d)
    {s : List Role} (hwriter : 3 ≤ s.count .writer) :
    ¬ Orphaned w d (runSched exec (race con w d t) s)
      ↔ ¬ (Accepted con w ∧ Silent con d
        ∧ ∃ v ∈ visits exec (race con w d t) s, CutsUnder w d v) := by
  refine not_congr ?_
  rcases deleter_cases con hin with ⟨msg, hd⟩ | ⟨⟨o, hrun, href⟩, hsilent⟩
  · rcases writer_cases con hin hd with ⟨plan, ok, hplan, he, hacc, hans⟩ | ⟨⟨o, hrun, href⟩, hno⟩
    · constructor
      · rintro ⟨⟨o, hend, h201⟩, ⟨o', hend', h204⟩, hentry, hgone⟩
        obtain ⟨r, hm, hinv⟩ := inRace_inv he hplan hd t s
        obtain ⟨hwritten, a, rfl⟩ := WritePlan.written_of_answered hm.writer hend h201
        obtain ⟨-, rfl⟩ := removed_of_answered hm.delete hend' h204
        obtain ⟨name, payload, rfl⟩ := removed_answered.mp h204
        refine ⟨(hans (hinv.stored hwritten).1 a).mp h201, ⟨name, payload, hd⟩, ?_⟩
        by_contra hcalm
        -- never overtaken: the container is there, or there is nothing in it
        obtain ⟨r, hm, -, hsafe⟩ := inRace_safe he hplan hd (fun v hv hcut => hcalm ⟨v, hv, hcut⟩)
        obtain ⟨hremoved, -⟩ := removed_of_answered hm.delete hend' h204
        rw [hm.store] at hentry hgone
        rcases hsafe hremoved with hthere | ⟨hleaf, -⟩
        · exact hgone hthere
        · exact hleaf (hasChild_of_mem hentry he.beneath)
      · rintro ⟨haccepted, ⟨name, payload, hd'⟩, v, hv, hcut⟩
        obtain rfl := Except.ok.inj (hd.message.symm.trans hd'.message)
        obtain ⟨r, hm, hremoved, hgone, hentry⟩ :=
          inRace_lost he hplan hd (hacc haccepted) hv hcut
        have hfin : Finished ((runSched exec (race con w d t) s).procs .writer) := by
          refine finished_of_count exec s ?_ hwriter
          show Prog.AtMost 3 (handle con w)
          rw [hplan]
          exact WritePlan.atMost_program
        have hw := hm.writer
        have hdel := hm.delete
        rcases hentry with ⟨hwriting, -⟩ | ⟨hwritten, hmem⟩
        · rw [hwriting] at hw
          obtain hw : _ = plan.write.conclude plan.outcome := hw
          rw [hw] at hfin
          exact absurd hfin (fun h => h)
        · rw [hwritten] at hw
          rw [hremoved] at hdel
          obtain ⟨a, hw⟩ := hw
          obtain hdel : _ = _ := hdel
          refine ⟨⟨_, by rw [hw]; rfl, (hans (hacc haccepted) a).mpr haccepted⟩,
            ⟨_, by rw [hdel]; rfl, removed_answered.mpr ⟨name, payload, rfl⟩⟩, ?_, ?_⟩
          · rw [hm.store]
            exact hmem
          · rw [hm.store]
            exact hgone
    · refine iff_of_false ?_ (fun h => hno h.1)
      rintro ⟨⟨o', hend, h201⟩, -⟩
      have hdone : Finished ((race con w d t).procs .writer) := by
        show Finished (handle con w)
        rw [hrun]
        trivial
      rw [runSched_procs_of_finished exec s hdone] at hend
      exact not_answered_of_refused hrun href hend h201
  · refine iff_of_false ?_ (fun h => hsilent h.2.1)
    rintro ⟨-, ⟨o', hend, h204⟩, -⟩
    have hdone : Finished ((race con w d t).procs .delete) := by
      show Finished (handle con d)
      rw [hrun]
      trivial
    rw [runSched_procs_of_finished exec s hdone] at hend
    exact not_answered_of_refused hrun href hend h204

/-! ### A secret stored while its namespace is deleted -/

/-- PUT of the secret `u/k`. -/
def putSecret : Request := SecretsRuns.putBytes "u" ["u", "k"] [65]

/-- DELETE of the namespace `u/`. -/
def deleteNamespace : Request := SecretsRuns.userRequest "DELETE" "u" ["u", []] [] none

theorem secret_inside_namespace : Inside putSecret deleteNamespace := by
  refine ⟨Or.inl rfl, rfl, ["u"], [], "k", rfl, rfl, by decide, ?_⟩
  decide

/-- The namespace of the user, empty. -/
def emptyNamespace : Table := AList.insert "keys/u".toList (.text []) ∅

/-- The PUT has checked its parent when the DELETE cuts it. -/
theorem namespace_deleted_under_put :
    ¬ ∀ (con : Secrets) (t : Table) (w d : Request), Inside w d → ∀ s : List Role,
      ¬ Orphaned w d (runSched exec (race con w d t) s) := by
  intro h
  refine h SecretsRuns.simpleSecrets emptyNamespace putSecret deleteNamespace
    secret_inside_namespace [.writer, .delete, .delete, .writer, .writer] ?_
  refine ⟨⟨_, rfl, _, rfl, rfl⟩, ⟨_, rfl, _, rfl, rfl⟩, by decide, ?_⟩
  rintro (hself | hslash)
  · exact absurd hself (by decide)
  · exact absurd hslash (by decide)

/-- Served one after the other, the two requests are safe. -/
theorem put_then_delete_safe :
    ¬ Orphaned putSecret deleteNamespace (runSched exec
      (race SecretsRuns.simpleSecrets putSecret deleteNamespace emptyNamespace)
      [.writer, .writer, .writer, .delete, .delete]) := by
  refine (not_orphaned_iff SecretsRuns.simpleSecrets emptyNamespace secret_inside_namespace
    (by decide)).mpr ?_
  rintro ⟨-, -, v, hv, hcut⟩
  have hturn := hcut.turn
  obtain ⟨k, hk⟩ := hcut.cuts
  -- the DELETE finds the secret and never cuts
  simp only [visits, List.mem_cons, List.not_mem_nil, or_false] at hv
  rcases hv with rfl | rfl | rfl | rfl | rfl
  · exact nomatch hturn
  · exact nomatch hturn
  · exact nomatch hturn
  · exact nomatch hk
  · exact nomatch hk

end DestroyRaceProofs
