import Custodia.IpaVault

/-! # VaultWriteProofs — when a failed write leaves no trace

    `IPAVault.set` adds a vault and then archives the value in it. When only
    the second command fails, an empty vault stays behind: it is listed, it can
    be cut, and it refuses the next `set`.

    * `set_cases`: how a `set` can end, and what it leaves on the server;
    * `no_trace_iff`: a failed `set` leaves no trace exactly if it did not stop
      between its two commands, having added the vault. -/

namespace VaultWriteProofs

open Interaction PosixPath PyValues FaultyService IpaVault

/-- A server whose next commands fail as listed. -/
abbrev Server := Faulty Fault Vaults

variable {key name : Str} {value : VaultValue} {data : List Unquote.Byte} {replace : Bool}
  {w : Server}

/-! ## The two commands of `set` -/

/-- What `set` makes of the reply to `vault_add`. -/
def addFinish (name : Str) (replace : Bool) : Except Exc Unit → Except Exc Unit
  | .ok () => .ok ()
  | .error e =>
      if e.isA .duplicateEntry then
        if replace = false then .error (.py .csStoreExists name)
        else .ok ()
      else .error (reported (("vault_add denied for entry " : Str) ++ name)
        (("Failed to add entry " : Str) ++ name) e)

/-- What `set` makes of the reply to `vault_archive`. -/
def archiveFinish (name : Str) : Except Exc Unit → Except Exc Unit
  | .ok () => .ok ()
  | .error e => .error (reported (("vault_archive denied for entry " : Str) ++ name)
      (("Failed to archive entry " : Str) ++ name) e)

/-- `set` after `vault_add`. -/
def archiving (name : Str) (data : List Unquote.Byte) : Except Exc Unit → VaultProg Unit
  | .ok () => .call (.archive name data)
      (fun (r : Except Exc Unit) => .ofExcept (archiveFinish name r))
  | .error e => .raise e

/-- `set` of encoded data in a named vault. -/
def writing (name : Str) (data : List Unquote.Byte) (replace : Bool) : VaultProg Unit :=
  .call (.add name) (fun (r : Except Exc Unit) => archiving name data (addFinish name replace r))

/-- **`set` is two commands**, once the key is accepted and the value encoded. -/
theorem set_eq (hname : mangleKey key = .ok name) (hdata : encoded value = .ok data) :
    IpaVault.set key value replace = writing name data replace := by
  have hlast : (Prog.perform (VaultCommand.archive name data)).catching (fun e =>
      .raise (reported (("vault_archive denied for entry " : Str) ++ name)
        (("Failed to archive entry " : Str) ++ name) e)) = archiving name data (.ok ()) := by
    refine congrArg (Prog.call _) (funext fun (r : Except Exc Unit) => ?_)
    cases r <;> rfl
  rw [IpaVault.set, hname]
  simp only [Prog.ofExcept_ok, Prog.bind_eq, Prog.ret_bind, hdata, hlast]
  refine congrArg (Prog.call _) (funext fun (r : Except Exc Unit) => ?_)
  cases r with
  | ok u => rfl
  | error e =>
      show Prog.bind (if e.isA .duplicateEntry = true then _ else _) _
        = archiving name data (if e.isA .duplicateEntry = true then _ else _)
      by_cases hdup : e.isA .duplicateEntry = true
      · rw [if_pos hdup, if_pos hdup]
        cases replace <;> rfl
      · rw [if_neg hdup, if_neg hdup]
        rfl

/-! ## How a `set` ends -/

/-- `vault_add` fails, or meets the vault, or adds it. -/
theorem add_cases (name : Str) (w : Server) :
    (∃ e, command (.add name) w = (.error e, ⟨w.state, w.faults.tail⟩)
        ∧ (w.next = none → name ∈ w.state))
    ∨ (name ∉ w.state ∧ w.next = none
        ∧ command (.add name) w = (.ok (), ⟨w.state.insert name none, w.faults.tail⟩)) := by
  cases hnext : w.next with
  | some f =>
      refine Or.inl ⟨failure f, execFaulty_fails hnext, fun h => ?_⟩
      cases h
  | none =>
      by_cases hmem : name ∈ w.state
      · refine Or.inl ⟨vaultTaken name, ?_, fun _ => hmem⟩
        rw [command, execFaulty_serves hnext, serve, if_pos hmem]
      · refine Or.inr ⟨hmem, rfl, ?_⟩
        rw [command, execFaulty_serves hnext, serve, if_neg hmem]

/-- `vault_archive` fails and changes nothing, or `set` succeeds. -/
theorem archiving_cases (name : Str) (data : List Unquote.Byte) (w : Server) :
    (∃ e, ((archiving name data (.ok ())).run command w).1 = .error e
        ∧ ((archiving name data (.ok ())).run command w).2.state = w.state
        ∧ (w.next = none → name ∉ w.state))
    ∨ (((archiving name data (.ok ())).run command w).1 = .ok () ∧ w.next = none) := by
  have hrun : (archiving name data (.ok ())).run command w
      = (archiveFinish name (command (.archive name data) w).1,
          (command (.archive name data) w).2) := Prog.run_ofExcept command _ _
  rw [hrun]
  cases hnext : w.next with
  | some f =>
      rw [command, execFaulty_fails hnext]
      refine Or.inl ⟨_, rfl, rfl, fun h => ?_⟩
      cases h
  | none =>
      rw [command, execFaulty_serves hnext]
      by_cases hmem : name ∈ w.state
      · rw [serve, if_pos hmem]
        exact Or.inr ⟨rfl, rfl⟩
      · rw [serve, if_neg hmem]
        exact Or.inl ⟨_, rfl, rfl, fun _ => hmem⟩

/-- `set` adds a vault, and then archiving fails. -/
def LeftEmpty (key : Str) (value : VaultValue) (w : Server) : Prop :=
  ∃ name data f rest, mangleKey key = .ok name ∧ encoded value = .ok data
    ∧ name ∉ w.state ∧ w.faults = none :: some f :: rest

/-- What is left after a `set`: the secret, or what was there before, or, where
    the vault was added and its contents could not be archived, an empty vault. -/
inductive Left (key : Str) (value : VaultValue) (replace : Bool) (w : Server) : Prop where
  | done (ok : ((IpaVault.set key value replace).run command w).1 = .ok ())
      (full : ¬ LeftEmpty key value w)
  | nothing (e : Exc) (raised : ((IpaVault.set key value replace).run command w).1 = .error e)
      (same : ((IpaVault.set key value replace).run command w).2.state = w.state)
      (full : ¬ LeftEmpty key value w)
  | emptyVault (name : Str) (named : mangleKey key = .ok name) (fresh : name ∉ w.state)
      (empty : LeftEmpty key value w) (e : Exc)
      (raised : ((IpaVault.set key value replace).run command w).1 = .error e)
      (added : ((IpaVault.set key value replace).run command w).2.state
        = w.state.insert name none)

theorem not_leftEmpty_of_mem (hname : mangleKey key = .ok name)
    (h : w.next = none → name ∈ w.state) : ¬ LeftEmpty key value w := by
  rintro ⟨name', data, f, rest, hname', -, hfresh, hfaults⟩
  obtain rfl := Except.ok.inj (hname.symm.trans hname')
  refine hfresh (h ?_)
  rw [Faulty.next, hfaults]
  rfl

/-- The first command is carried out and the second one fails. -/
theorem faults_of_next {vs : Vaults} {f : Fault} (hfirst : w.next = none)
    (hsecond : (⟨vs, w.faults.tail⟩ : Server).next = some f) :
    ∃ rest, w.faults = none :: some f :: rest := by
  obtain ⟨s, faults⟩ := w
  cases faults with
  | nil => cases hsecond
  | cons first faults =>
      obtain rfl : first = none := hfirst
      cases faults with
      | nil => cases hsecond
      | cons second rest =>
          obtain rfl : second = some f := hsecond
          exact ⟨rest, rfl⟩

/-- **How a `set` ends**: it succeeds, or raises and leaves the server as it
    was, or raises and leaves an empty vault. -/
theorem set_cases (key : Str) (value : VaultValue) (replace : Bool) (w : Server) :
    Left key value replace w := by
  cases hname : mangleKey key with
  | error e =>
      have hset : IpaVault.set key value replace = .raise e := by rw [IpaVault.set, hname]; rfl
      refine .nothing e (by rw [hset]; rfl) (by rw [hset]; rfl) ?_
      rintro ⟨name, -, -, -, hok, -⟩
      cases hname.symm.trans hok
  | ok name =>
      cases hdata : encoded value with
      | error e =>
          have hset : IpaVault.set key value replace = .raise e := by
            rw [IpaVault.set, hname]
            simp only [Prog.ofExcept_ok, Prog.bind_eq, Prog.ret_bind, hdata]
            rfl
          refine .nothing e (by rw [hset]; rfl) (by rw [hset]; rfl) ?_
          rintro ⟨-, data, -, -, -, hok, -⟩
          cases hdata.symm.trans hok
      | ok data =>
          have hset : IpaVault.set key value replace = writing name data replace :=
            set_eq hname hdata
          have hrun : (IpaVault.set key value replace).run command w
              = (archiving name data (addFinish name replace (command (.add name) w).1)).run
                  command (command (.add name) w).2 := by rw [hset]; rfl
          rcases add_cases name w with ⟨e, hadd, hmem⟩ | ⟨hfresh, hnext, hadd⟩
          · -- no vault was added
            have hfull : ¬ LeftEmpty key value w := not_leftEmpty_of_mem hname hmem
            rw [hadd] at hrun
            cases hfinish : addFinish name replace (.error e) with
            | error e' =>
                rw [hfinish] at hrun
                exact .nothing e' (by rw [hrun]; rfl) (by rw [hrun]; rfl) hfull
            | ok u =>
                rw [hfinish] at hrun
                rcases archiving_cases name data ⟨w.state, w.faults.tail⟩ with
                  ⟨e', hraise, hsame, -⟩ | ⟨hok, -⟩
                · exact .nothing e' (by rw [hrun, hraise]) (by rw [hrun, hsame]) hfull
                · exact .done (by rw [hrun, hok]) hfull
          · rw [hadd] at hrun
            rcases archiving_cases name data ⟨w.state.insert name none, w.faults.tail⟩ with
              ⟨e, hraise, hsame, hmem⟩ | ⟨hok, hserved⟩
            · cases hsecond : (⟨w.state.insert name none, w.faults.tail⟩ : Server).next with
              | none => exact absurd ((AList.mem_insert _).mpr (Or.inl rfl)) (hmem hsecond)
              | some f =>
                  obtain ⟨rest, hfaults⟩ := faults_of_next hnext hsecond
                  exact .emptyVault name hname hfresh ⟨name, data, f, rest, hname, hdata,
                    hfresh, hfaults⟩ e (hrun ▸ hraise) (hrun ▸ hsame)
            · refine .done (hrun ▸ hok) ?_
              rintro ⟨-, -, f, rest, -, -, -, hfaults⟩
              rw [Faulty.next, hfaults] at hserved
              cases hserved

/-! ## Later calls -/

/-- The calls that the trace could show in; a `set` among them does not replace.
    Every one of them answers as if the failed `set` had never been, exactly
    where it has left no empty vault. -/
inductive Later where
  | get (key : Str)
  | list (keyfilter : Option Str)
  | cut (key : Str)
  | set (key : Str) (value : VaultValue)

namespace Later

/-- What the method returns. -/
@[reducible] def Ans : Later → Type
  | get _ => Option (List Unquote.Byte)
  | list _ => List Str
  | cut _ => Bool
  | set _ _ => Unit

def prog : (call : Later) → VaultProg call.Ans
  | get key => IpaVault.get key
  | list keyfilter => IpaVault.list keyfilter
  | cut key => IpaVault.cut key
  | set key value => IpaVault.set key value false

/-- The call, with commands that fail as listed. -/
def run (call : Later) (faults : List (Option Fault)) (vs : Vaults) :
    Except Exc call.Ans × Vaults :=
  ((call.prog.run command ⟨vs, faults⟩).1, (call.prog.run command ⟨vs, faults⟩).2.state)

end Later

/-- Later calls, each with its own failing commands, are answered alike on two
    servers. -/
def BehaveAlike : List (Later × List (Option Fault)) → Vaults → Vaults → Prop
  | [], _, _ => True
  | (call, faults) :: later, vs, vs' =>
      (call.run faults vs).1 = (call.run faults vs').1
        ∧ BehaveAlike later (call.run faults vs).2 (call.run faults vs').2

theorem behaveAlike_refl (later : List (Later × List (Option Fault))) (vs : Vaults) :
    BehaveAlike later vs vs := by
  induction later generalizing vs with
  | nil => trivial
  | cons call later ih => exact ⟨rfl, ih _⟩

/-- If the `set` raises, all later calls behave as if it had not been made. -/
def NoTrace (key : Str) (value : VaultValue) (replace : Bool) (w : Server) : Prop :=
  ∀ e, ((IpaVault.set key value replace).run command w).1 = .error e →
    ∀ later, BehaveAlike later w.state ((IpaVault.set key value replace).run command w).2.state

/-- `cut` without failing commands says whether there is a vault. -/
theorem cut_run (hname : mangleKey key = .ok name) (vs : Vaults) :
    ((Later.cut key).run [] vs).1 = .ok (decide (name ∈ vs)) := by
  have hrun : (Later.cut key).run [] vs
      = (cutFinish name (serve (.del name) vs).1, (serve (.del name) vs).2) := by
    rw [Later.run, Later.prog, cut_eq hname, Prog.run_call, Prog.run_ofExcept]
    rfl
  rw [hrun]
  by_cases hmem : name ∈ vs
  · rw [serve, if_pos hmem, decide_eq_true hmem]
    rfl
  · rw [serve, if_neg hmem, decide_eq_false hmem]
    rfl

/-- **HEADLINE — when a failed write leaves no trace**: exactly if `set` has
    not stopped after adding the vault. -/
theorem no_trace_iff (key : Str) (value : VaultValue) (replace : Bool) (w : Server) :
    NoTrace key value replace w ↔ ¬ LeftEmpty key value w := by
  cases set_cases key value replace w with
  | done ok full =>
      refine iff_of_true ?_ full
      intro e he
      cases ok.symm.trans he
  | nothing e raised same full =>
      refine iff_of_true ?_ full
      intro _ _ later
      rw [same]
      exact behaveAlike_refl later w.state
  | emptyVault name named fresh empty e raised added =>
      refine iff_of_false ?_ (not_not.mpr empty)
      intro h
      have hcut := (h e raised [(.cut key, [])]).1
      rw [cut_run named, cut_run named, added] at hcut
      have hmem := of_decide_eq_true ((Except.ok.inj hcut).trans
        (decide_eq_true ((AList.mem_insert _).mpr (Or.inl rfl))))
      exact fresh hmem

/-- An empty server that allows adding vaults, but not archiving in them. -/
def archiveDenied : Server :=
  ⟨∅, [none, some ⟨.authorizationError, "Insufficient access"⟩]⟩

/-- The PUT of `u/k` is denied, and the key can be cut afterwards. -/
theorem empty_vault_stays :
    ((IpaVault.set "keys/u/k" (.bytes [115]) false).run command archiveDenied).1
      = .error (.py .csStoreDenied "vault_archive denied for entry keys__u__k")
    ∧ ((Later.cut "keys/u/k").run [] archiveDenied.state).1 = .ok false
    ∧ ((Later.cut "keys/u/k").run []
        ((IpaVault.set "keys/u/k" (.bytes [115]) false).run command archiveDenied).2.state).1
      = .ok true
    ∧ ¬ NoTrace "keys/u/k" (.bytes [115]) false archiveDenied := by
  have hraised : ((IpaVault.set "keys/u/k" (.bytes [115]) false).run command archiveDenied).1
      = .error (.py .csStoreDenied "vault_archive denied for entry keys__u__k") := by rfl
  refine ⟨hraised, rfl, rfl, fun h => ?_⟩
  exact absurd (h _ hraised [(.cut "keys/u/k", [])]).1 (by decide)

end VaultWriteProofs
