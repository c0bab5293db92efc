import Custodia.Interleaving
import Custodia.FaultyService
import Custodia.IpaCertRequest

/-! # CertRuns — calls on the certificates, interleaved

    Any number of clients read and delete keys of one `IPACertRequest` at the
    same time. A turn is ONE command of the server or one call on the backing
    store, and any of them may fail.

    A call is at one of a few PLACES, and what is left of it is determined by
    the place: the program of a call is a state machine over the places.

    * `Moves`: what one turn can do at each place;
    * `turn_cases`: a turn of the programs is such a move. -/

namespace CertRuns

open Interaction Interleaving PosixPath PyValues SqliteStore FaultyService IpaCertRequest

/-! ## The calls -/

/-- A call of a client of the store, with its key: it asks for the pair of a
    certificate, or has the certificates revoked and the pair removed. -/
inductive CertCall where
  | get (key : Str)
  | cut (key : Str)

/-- What a call returns, of whichever method it is, so that the calls of a run
    can be put into one list. -/
inductive Reply where
  | pair (value : SqlValue)
  | cut (result : CutResult)

variable (self : CertRequest)

/-- The program of a call. -/
def CertCall.prog : CertCall → CertProg Reply
  | .get key => do return .pair (← IpaCertRequest.get self key)
  | .cut key => do return .cut (← IpaCertRequest.cut self key)

/-- The server and the backing store, whose next operations fail as listed. -/
abbrev World (B : BackingStore) := Faulty Fault (CertWorld B)

variable {B : BackingStore}

/-- An operation, which may fail instead of being carried out. -/
def operation : (o : CertOp) → World B → Except Exc o.Ans × World B :=
  execFaulty (IpaCertRequest.exec B) failure

variable {ι : Type}

/-- All calls and the world. -/
abbrev System (B : BackingStore) (ι : Type) := Config ι Exc CertOp CertOp.Ans Reply (World B)

/-- No call has made an operation yet. -/
def start (calls : ι → CertCall) (w : World B) : System B ι :=
  ⟨fun i => (calls i).prog self, w⟩

/-! ## The places of a call -/

/-- Where a call is: which operation it makes next, and what it has learned from
    those before. A call is a machine over these places, so that invariants can
    speak of all calls at once. -/
inductive Place where
  | reading (parsed : ParsedKey)
  | requesting (parsed : ParsedKey)
  | caching (parsed : ParsedKey) (serial : Nat)
  | finding (parsed : ParsedKey)
  | revoking (parsed : ParsedKey) (found rest : List FoundCert)
  | ended (x : Except Exc Reply)

/-- What is left of a `get` that puts a new pair into the cache. -/
def caching (parsed : ParsedKey) (serial : Nat) : CertProg Reply :=
  .call (.store (.set parsed.key (.ofText (self.pem serial)) true))
    (fun (r : Except Exc Unit) => .ofExcept (r.map (fun _ => .pair (.text (self.pem serial)))))

/-- What is left of a `get` that requests a certificate. -/
def requesting (parsed : ParsedKey) : CertProg Reply :=
  .call (.ipa (.certRequest parsed.hostname parsed.principal))
    (fun (r : Except Exc Nat) => match r with
      | .ok serial => caching self parsed serial
      | .error e => .raise (requestError parsed.hostname parsed.principal e))

/-- What is left of a `get` that looks into the cache. -/
def reading (parsed : ParsedKey) : CertProg Reply :=
  .call (.store (.get parsed.key))
    (fun (r : Except Exc SqlValue) => match r with
      | .ok value => if value ≠ .null then .ret (.pair value) else requesting self parsed
      | .error e => .raise e)

/-- What is left of a `cut` that has found the certificates `found` unrevoked
    and has to revoke the `rest` of them; then it deletes the cached pair. -/
def revoking (parsed : ParsedKey) (found : List FoundCert) : List FoundCert → CertProg Reply
  | [] => .call (.store (.cut parsed.key))
      (fun (r : Except Exc CutResult) =>
        .ofExcept (r.map (fun deleted => .cut (cutOr deleted found))))
  | cert :: rest => .call (.ipa (.certRevoke cert.serialNumber))
      (fun (r : Except Exc Unit) => match r with
        | .ok _ => revoking parsed found rest
        | .error e => .raise e)

/-- What is left of a `cut` that looks for certificates. -/
def finding (parsed : ParsedKey) : CertProg Reply :=
  .call (.ipa (.certFind parsed.principal))
    (fun (r : Except Exc (List FoundCert)) => match r with
      | .ok result => revoking parsed (unrevoked result) (unrevoked result)
      | .error e => .raise e)

/-- What is left of a call at a place. -/
def Place.prog : Place → CertProg Reply
  | .reading parsed => CertRuns.reading self parsed
  | .requesting parsed => CertRuns.requesting self parsed
  | .caching parsed serial => CertRuns.caching self parsed serial
  | .finding parsed => CertRuns.finding parsed
  | .revoking parsed found rest => CertRuns.revoking parsed found rest
  | .ended x => .ofExcept x

/-- Where a call starts. -/
def CertCall.place : CertCall → Place
  | .get key => match parseKey self key with
    | .ok parsed => .reading parsed
    | .error e => .ended (.error e)
  | .cut key => match parseKey self key with
    | .ok parsed => .finding parsed
    | .error e => .ended (.error e)

/-- The loop of `_revoke_certs`, and what comes after it. -/
theorem revokeEach_bind (parsed : ParsedKey) (found rest : List FoundCert) :
    ((revokeEach (fun o => Prog.perform (CertOp.ipa o)) rest : CertProg Unit).bind (fun _ =>
      ((Prog.perform (CertOp.store (.cut parsed.key))).bind
        (fun deleted => .ret (cutOr deleted found))).bind
          (fun result => .ret (Reply.cut result))) : CertProg Reply)
      = revoking parsed found rest := by
  induction rest with
  | nil =>
      refine congrArg (Prog.call _) (funext fun (r : Except Exc CutResult) => ?_)
      cases r <;> rfl
  | cons cert rest ih =>
      refine congrArg (Prog.call _) (funext fun (r : Except Exc Unit) => ?_)
      cases r with
      | ok u => exact ih
      | error e => rfl

theorem get_eq {key : Str} {parsed : ParsedKey} (h : parseKey self key = .ok parsed) :
    (CertCall.get key).prog self = reading self parsed := by
  show (IpaCertRequest.get self key).bind _ = _
  rw [IpaCertRequest.get, h]
  refine congrArg (Prog.call _) (funext fun (r : Except Exc SqlValue) => ?_)
  cases r with
  | error e => rfl
  | ok value =>
      show Prog.bind (if value ≠ .null then _ else _) _ = if value ≠ .null then _ else _
      by_cases hcached : value ≠ .null
      · rw [if_pos hcached, if_pos hcached]
        rfl
      · rw [if_neg hcached, if_neg hcached]
        refine congrArg (Prog.call _) (funext fun (r : Except Exc Nat) => ?_)
        cases r with
        | error e => rfl
        | ok serial =>
            refine congrArg (Prog.call _) (funext fun (r : Except Exc Unit) => ?_)
            cases r <;> rfl

theorem cut_eq {key : Str} {parsed : ParsedKey} (h : parseKey self key = .ok parsed) :
    (CertCall.cut key).prog self = finding parsed := by
  show (cutOver self _ _ key).bind _ = _
  rw [cutOver, h]
  refine congrArg (Prog.call _) (funext fun (r : Except Exc (List FoundCert)) => ?_)
  cases r with
  | error e => rfl
  | ok result =>
      show (((revokeEach _ (unrevoked result)).bind _).bind _).bind _ = _
      rw [Prog.bind_assoc, Prog.bind_assoc]
      exact revokeEach_bind parsed (unrevoked result) (unrevoked result)

/-- **A call is a state machine** over the places: it makes the operation of its
    place, and goes on from the place that the answer leads to. -/
theorem prog_eq (call : CertCall) : call.prog self = (call.place self).prog self := by
  cases call with
  | get key =>
      cases h : parseKey self key with
      | ok parsed =>
          rw [get_eq self h, CertCall.place, h]
          rfl
      | error e =>
          rw [CertCall.place, h]
          show (IpaCertRequest.get self key).bind _ = _
          rw [IpaCertRequest.get, h]
          rfl
  | cut key =>
      cases h : parseKey self key with
      | ok parsed =>
          rw [cut_eq self h, CertCall.place, h]
          rfl
      | error e =>
          rw [CertCall.place, h]
          show (cutOver self _ _ key).bind _ = _
          rw [cutOver, h]
          rfl

/-! ## One turn -/

/-- What one turn does at a place: nothing after the end, an error if the
    operation fails, and else what the operation does. -/
inductive Moves : Place → World B → Place → World B → Prop where
  | rests (x : Except Exc Reply) (w : World B) : Moves (.ended x) w (.ended x) w
  | fails (place : Place) (running : ∀ x, place ≠ .ended x) (w : World B) (f : Fault)
      (fault : w.next = some f) (e : Exc) :
      Moves place w (.ended (.error e)) ⟨w.state, w.faults.tail⟩
  | hits (parsed : ParsedKey) (w : World B) (value : SqlValue)
      (got : (B.exec (.get parsed.key) w.state.store).1 = .ok value) (found : value ≠ .null) :
      Moves (.reading parsed) w (.ended (.ok (.pair value)))
        ⟨⟨w.state.certs, (B.exec (.get parsed.key) w.state.store).2⟩, w.faults.tail⟩
  | misses (parsed : ParsedKey) (w : World B) :
      Moves (.reading parsed) w (.requesting parsed)
        ⟨⟨w.state.certs, (B.exec (.get parsed.key) w.state.store).2⟩, w.faults.tail⟩
  | unread (parsed : ParsedKey) (w : World B) (e : Exc) :
      Moves (.reading parsed) w (.ended (.error e))
        ⟨⟨w.state.certs, (B.exec (.get parsed.key) w.state.store).2⟩, w.faults.tail⟩
  | requests (parsed : ParsedKey) (w : World B) :
      Moves (.requesting parsed) w (.caching parsed (nextSerial w.state.certs))
        ⟨⟨(certServe (.certRequest parsed.hostname parsed.principal) w.state.certs).2,
          w.state.store⟩, w.faults.tail⟩
  | caches (parsed : ParsedKey) (serial : Nat) (w : World B) (served : w.next = none)
      (x : Except Exc Reply) (result : ∀ reply, x = .ok reply →
        reply = .pair (.text (self.pem serial))) :
      Moves (.caching parsed serial) w (.ended x)
        ⟨⟨w.state.certs, (B.exec (.set parsed.key (.ofText (self.pem serial)) true)
          w.state.store).2⟩, w.faults.tail⟩
  | finds (parsed : ParsedKey) (w : World B) :
      Moves (.finding parsed) w
        (.revoking parsed (unrevoked (certsOf w.state.certs parsed.principal))
          (unrevoked (certsOf w.state.certs parsed.principal))) ⟨w.state, w.faults.tail⟩
  | revokes (parsed : ParsedKey) (found : List FoundCert) (cert : FoundCert)
      (rest : List FoundCert) (w : World B) :
      Moves (.revoking parsed found (cert :: rest)) w (.revoking parsed found rest)
        ⟨⟨(certServe (.certRevoke cert.serialNumber) w.state.certs).2, w.state.store⟩,
          w.faults.tail⟩
  | unknown (parsed : ParsedKey) (found : List FoundCert) (cert : FoundCert)
      (rest : List FoundCert) (w : World B) (e : Exc)
      (missing : cert.serialNumber ∉ w.state.certs) :
      Moves (.revoking parsed found (cert :: rest)) w (.ended (.error e))
        ⟨w.state, w.faults.tail⟩
  | deletes (parsed : ParsedKey) (found : List FoundCert) (w : World B) (deleted : CutResult)
      (done : (B.exec (.cut parsed.key) w.state.store).1 = .ok deleted) (result : CutResult) :
      Moves (.revoking parsed found []) w (.ended (.ok (.cut result)))
        ⟨⟨w.state.certs, (B.exec (.cut parsed.key) w.state.store).2⟩, w.faults.tail⟩
  | undeleted (parsed : ParsedKey) (found : List FoundCert) (w : World B) (served : w.next = none)
      (e : Exc) (raised : (B.exec (.cut parsed.key) w.state.store).1 = .error e) :
      Moves (.revoking parsed found []) w (.ended (.error e))
        ⟨⟨w.state.certs, (B.exec (.cut parsed.key) w.state.store).2⟩, w.faults.tail⟩

/-- The call makes an operation at its place, and the move goes with it. -/
def Steps (place : Place) (w : World B) : Prop :=
  ∃ o k place', place.prog self = .call o k ∧ k (operation o w).1 = place'.prog self
    ∧ Moves self place w place' (operation o w).2

/-- A failed operation ends the call; so only what it does otherwise matters. -/
theorem steps_of {place : Place} {w : World B} {o : CertOp}
    {k : Except Exc o.Ans → CertProg Reply} (hprog : place.prog self = .call o k)
    (hrun : ∀ x, place ≠ .ended x) (hfail : ∀ e, ∃ e', k (.error e) = .raise e')
    (hserve : w.next = none → ∃ place', k (IpaCertRequest.exec B o w.state).1 = place'.prog self
      ∧ Moves self place w place' ⟨(IpaCertRequest.exec B o w.state).2, w.faults.tail⟩) :
    Steps self place w := by
  cases hnext : w.next with
  | some f =>
      obtain ⟨e, he⟩ := hfail (failure f)
      refine ⟨o, k, .ended (.error e), hprog, ?_, ?_⟩
      · rw [operation, execFaulty_fails hnext, he]
        rfl
      · rw [operation, execFaulty_fails hnext]
        exact .fails place hrun w f hnext e
  | none =>
      obtain ⟨place', hk, hmove⟩ := hserve hnext
      refine ⟨o, k, place', hprog, ?_, ?_⟩
      · rw [operation, execFaulty_serves hnext, hk]
      · rw [operation, execFaulty_serves hnext]
        exact hmove

/-- The first operation of a `get`. -/
theorem steps_reading (parsed : ParsedKey) (w : World B) : Steps self (.reading parsed) w := by
  refine steps_of self rfl (by simp) (fun e => ⟨e, rfl⟩) (fun _ => ?_)
  have hexec : (IpaCertRequest.exec B (.store (.get parsed.key)) w.state).1
      = (B.exec (.get parsed.key) w.state.store).1 := rfl
  rw [hexec]
  cases hread : (B.exec (.get parsed.key) w.state.store).1 with
  | error e => exact ⟨.ended (.error e), rfl, .unread parsed w e⟩
  | ok value =>
      by_cases hnull : value = .null
      · exact ⟨.requesting parsed, if_neg (not_not.mpr hnull), .misses parsed w⟩
      · exact ⟨.ended (.ok (.pair value)), if_pos hnull, .hits parsed w value hread hnull⟩

/-- The last operation of a `get` that has requested a certificate. -/
theorem steps_caching (parsed : ParsedKey) (serial : Nat) (w : World B) :
    Steps self (.caching parsed serial) w := by
  refine steps_of self rfl (by simp) (fun e => ⟨e, rfl⟩) (fun hnext => ?_)
  refine ⟨.ended _, rfl, .caches parsed serial w hnext _ (fun reply hreply => ?_)⟩
  cases hset : (IpaCertRequest.exec B
      (.store (.set parsed.key (.ofText (self.pem serial)) true)) w.state).1 with
  | ok u =>
      rw [hset] at hreply
      exact (Except.ok.inj hreply).symm
  | error e =>
      rw [hset] at hreply
      cases hreply

/-- The last operation of a `cut`. -/
theorem steps_deleting (parsed : ParsedKey) (found : List FoundCert) (w : World B) :
    Steps self (.revoking parsed found []) w := by
  refine steps_of self rfl (by simp) (fun e => ⟨e, rfl⟩) (fun hnext => ?_)
  have hexec : (IpaCertRequest.exec B (.store (.cut parsed.key)) w.state).1
      = (B.exec (.cut parsed.key) w.state.store).1 := rfl
  rw [hexec]
  cases hcut : (B.exec (.cut parsed.key) w.state.store).1 with
  | ok deleted =>
      exact ⟨.ended (.ok (.cut (cutOr deleted found))), rfl, .deletes parsed found w deleted hcut _⟩
  | error e => exact ⟨.ended (.error e), rfl, .undeleted parsed found w hnext e hcut⟩

/-- The next turn of the loop of a `cut`. -/
theorem steps_revoking (parsed : ParsedKey) (found : List FoundCert) (cert : FoundCert)
    (rest : List FoundCert) (w : World B) :
    Steps self (.revoking parsed found (cert :: rest)) w := by
  refine steps_of self rfl (by simp) (fun e => ⟨e, rfl⟩) (fun _ => ?_)
  have hexec : IpaCertRequest.exec B (.ipa (.certRevoke cert.serialNumber)) w.state
      = ((certServe (.certRevoke cert.serialNumber) w.state.certs).1,
        ⟨(certServe (.certRevoke cert.serialNumber) w.state.certs).2, w.state.store⟩) := rfl
  by_cases hissued : cert.serialNumber ∈ w.state.certs
  · rw [certRevoke_ok hissued] at hexec
    refine ⟨.revoking parsed found rest, ?_, ?_⟩
    · rw [hexec]
      rfl
    · rw [hexec]
      exact .revokes parsed found cert rest w
  · obtain ⟨e, he⟩ := certRevoke_missing hissued
    rw [he] at hexec
    refine ⟨.ended (.error e), ?_, ?_⟩
    · rw [hexec]
      rfl
    · rw [hexec]
      exact .unknown parsed found cert rest w e hissued

/-- **Every running call makes a move**, and every move is one of a short list;
    the invariants go through this list. -/
theorem moves_of (place : Place) (w : World B) :
    (∃ x, place = .ended x) ∨ Steps self place w := by
  cases place with
  | ended x => exact Or.inl ⟨x, rfl⟩
  | reading parsed => exact Or.inr (steps_reading self parsed w)
  | requesting parsed =>
      refine Or.inr (steps_of self rfl (by simp) (fun e => ⟨_, rfl⟩) (fun _ => ?_))
      exact ⟨.caching parsed _, rfl, .requests parsed w⟩
  | caching parsed serial => exact Or.inr (steps_caching self parsed serial w)
  | finding parsed =>
      refine Or.inr (steps_of self rfl (by simp) (fun e => ⟨e, rfl⟩) (fun _ => ?_))
      exact ⟨.revoking parsed _ _, rfl, .finds parsed w⟩
  | revoking parsed found rest =>
      cases rest with
      | nil => exact Or.inr (steps_deleting self parsed found w)
      | cons cert rest => exact Or.inr (steps_revoking self parsed found cert rest w)

variable [DecidableEq ι]

/-- **A turn is a move** of the call whose turn it is; a call that has ended
    rests. -/
theorem turn_cases {c : System B ι} {places : ι → Place}
    (hc : c.procs = fun i => (places i).prog self) (i : ι) :
    ∃ place w, Moves self (places i) c.store place w
      ∧ step operation c i = ⟨fun j => (Function.update places i place j).prog self, w⟩ := by
  obtain ⟨procs, store⟩ := c
  obtain rfl : procs = fun i => (places i).prog self := hc
  rcases moves_of self (places i) store with ⟨x, hx⟩ | ⟨o, k, place, hprog, hk, hmove⟩
  · refine ⟨places i, store, ?_, ?_⟩
    · rw [hx]
      exact .rests x store
    · rw [Function.update_eq_self]
      refine step_of_finished operation ?_
      show Finished ((places i).prog self)
      rw [hx]
      cases x <;> trivial
  · refine ⟨place, _, hmove, ?_⟩
    rw [step_call operation (show (⟨fun i => (places i).prog self, store⟩ : System B ι).procs i
      = .call o k from hprog), hk]
    refine congrArg (fun procs => (⟨procs, _⟩ : System B ι)) ?_
    funext j
    by_cases hj : j = i
    · subst hj
      rw [Function.update_self, Function.update_self]
    · rw [Function.update_of_ne hj, Function.update_of_ne hj]

end CertRuns
