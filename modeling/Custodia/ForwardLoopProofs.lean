import Mathlib.Data.Fintype.Card
import Custodia.Forwarding
import Custodia.SecretsRuns

/-! # ForwardLoopProofs — when forwarding stops

    Forwarders send requests to each other along any graph. Each puts its
    identifier in front of the header that came with the request, and refuses
    a request whose header contains it. The identifier is set under one
    spelling of the name of this header, while a server reads them all: where
    the options of a forwarder have another spelling behind this one, it is the
    other one that is sent, and the request can come back without end.

    * `Network`: the forwarders, and where their requests arrive;
    * `Forwarded`: what has become of a request;
    * `forwarded_header`: the header is the trace of the request;
    * `forwarding_stops`: every request is refused or answered in the end, if
      the forwarders it reaches announce themselves;
    * `not_stops_selfLoop`: one that does not can ask itself forever. -/

namespace ForwardLoopProofs

open Interaction OrderedDicts SeparatedNames PosixPath PyValues SecretsConsumer Forwarding

/-- The method and the loop header arrive as they are sent. The header that is
    sent is the one whose spelling comes last, as the HTTP library makes one of
    all of them. -/
structure Transmits (sent : ClientRequest) (req : Request) : Prop where
  method : req.command = sent.method
  header : req.header loopHeader = (sent.headers.sent loopHeader).join

/-- Forwarders with different identifiers. A request that one of them sends
    arrives at another one, at itself or outside; which, may depend on the
    request. -/
structure Network (ι : Type) where
  forwarder : ι → Forwarder
  distinct : ∀ i j, (forwarder i).uuid = (forwarder j).uuid → i = j
  delivers : ι → ClientRequest → ι → Request → Prop
  transmits : ∀ i sent j req, delivers i sent j req → Transmits sent req

variable {ι : Type} (net : Network ι)

/-- A request at a forwarder. -/
abbrev Arrival (ι : Type) := ι × Request

/-- The forwarder answers the arrival so. -/
def Network.handle (a : Arrival ι) : ClientProg Response := (net.forwarder a.1).handle a.2

/-- The request passes the upstream call of the forwarder. -/
def Sends (a : Arrival ι) (sent : ClientRequest) : Prop := ∃ k, net.handle a = .call sent k

/-- A forwarded request arrives. -/
def Step (a b : Arrival ι) : Prop := ∃ sent, Sends net a sent ∧ net.delivers a.1 sent b.1 b.2

/-- The refusal of a request that comes back. -/
def LoopRefused (a : Arrival ι) : Prop :=
  net.handle a = .raise (.http 502 (some "Loop detected"))

/-- A request has been forwarded to an arrival; the forwarders whose upstream
    call it has passed are listed, the latest first. -/
inductive Forwarded (first : Arrival ι) : List ι → Arrival ι → Prop where
  | arrived : Forwarded first [] first
  | passed {visited a b} (h : Forwarded first visited a) (hstep : Step net a b) :
      Forwarded first (a.1 :: visited) b

/-- Every forwarder that the request reaches announces itself. -/
def Announced (first : Arrival ι) : Prop :=
  ∀ visited b, Forwarded net first visited b → (net.forwarder b.1).Announces

/-! ## Identifiers -/

theorem uuid_ne_nil (u : Uuid) : u.val ≠ [] := by
  intro h
  have hlength := u.property.1
  rw [h] at hlength
  exact nomatch hlength

theorem comma_not_mem_uuid (u : Uuid) : ',' ∉ u.val := by
  intro h
  exact absurd (u.property.2 ',' h) (by decide)

/-- An identifier contains no other one. -/
theorem uuid_infix_iff (u v : Uuid) : u.val <:+: v.val ↔ u = v := by
  constructor
  · intro h
    exact Subtype.ext (h.eq_of_length (u.property.1.trans v.property.1.symm))
  · rintro rfl
    exact List.infix_rfl

/-! ## The trace of a request -/

/-- The header that lists some texts; no header lists none. -/
def headerOf (texts : List Str) : Option Str :=
  if texts = [] then none else some (spell ',' texts)

/-- What a request carries that came with a header and has passed some
    forwarders. -/
def trace (visited : List ι) (loop : Option Str) : List Str :=
  visited.map (fun i => (net.forwarder i).uuid.val) ++ loop.toList

/-- Whoever passes the request on adds itself to the trace. -/
theorem headerOf_cons (text : Str) (texts : List Str) :
    headerOf (text :: texts) = some (match headerOf texts with
      | none => text
      | some loop => text ++ ',' :: loop) := by
  cases texts with
  | nil =>
      show some (spell ',' [text]) = _
      rw [spell_singleton]
      rfl
  | cons other texts =>
      show some (spell ',' (text :: other :: texts)) = _
      rw [spell_cons ',' text (List.cons_ne_nil other texts)]
      rfl

/-- An identifier is found in a header exactly if it is in a text listed. -/
theorem infix_headerOf (u : Uuid) (texts : List Str) :
    u.val <:+: (headerOf texts).getD [] ↔ ∃ text ∈ texts, u.val <:+: text := by
  cases texts with
  | nil =>
      refine iff_of_false (fun h => uuid_ne_nil u ?_) (fun ⟨_, h, _⟩ => nomatch h)
      exact List.infix_nil.mp h
  | cons text texts =>
      exact infix_spell_iff ',' (comma_not_mem_uuid u) (List.cons_ne_nil text texts)

variable {net} {first a b : Arrival ι} {visited : List ι} {sent : ClientRequest}

/-- A forwarder sends exactly the supported requests in which it does not find
    itself. -/
theorem sends_iff : Sends net a sent ↔
    a.2.command ∈ supportedCommands ∧ ¬ (net.forwarder a.1).DetectsLoop a.2
      ∧ sent = upstreamRequest (net.forwarder a.1) a.2 := by
  constructor
  · rintro ⟨k, hk⟩
    rw [Network.handle] at hk
    by_cases hcommand : a.2.command ∈ supportedCommands
    · by_cases hloop : (net.forwarder a.1).DetectsLoop a.2
      · rw [handle_detected hcommand hloop] at hk
        exact nomatch hk
      · rw [handle_sent hcommand hloop] at hk
        exact ⟨hcommand, hloop, (Prog.call.inj hk).1.symm⟩
    · rw [handle_unsupported hcommand] at hk
      exact nomatch hk
  · rintro ⟨hcommand, hloop, rfl⟩
    exact ⟨_, handle_sent hcommand hloop⟩

theorem loopRefused_iff : LoopRefused net a ↔
    a.2.command ∈ supportedCommands ∧ (net.forwarder a.1).DetectsLoop a.2 := by
  unfold LoopRefused Network.handle
  constructor
  · intro h
    by_cases hcommand : a.2.command ∈ supportedCommands
    · by_cases hloop : (net.forwarder a.1).DetectsLoop a.2
      · exact ⟨hcommand, hloop⟩
      · rw [handle_sent hcommand hloop] at h
        exact nomatch h
    · rw [handle_unsupported hcommand] at h
      have hcode : (501 : Nat) = 502 := (Exc.http.inj (Prog.raise.inj h)).1
      exact absurd hcode (by decide)
  · rintro ⟨hcommand, hloop⟩
    exact handle_detected hcommand hloop

/-- **The header is the trace**: the forwarders that were passed, then what the
    request came with. -/
theorem forwarded_header (hannounced : Announced net first)
    (h : Forwarded net first visited b) :
    b.2.header loopHeader = headerOf (trace net visited (first.2.header loopHeader)) := by
  induction h with
  | arrived =>
      rw [trace]
      cases first.2.header loopHeader with
      | none => rfl
      | some loop => exact congrArg some (spell_singleton ',' loop).symm
  | @passed visited a b h hstep ih =>
      -- what is delivered is what was sent: the identifier, then the old header
      obtain ⟨sent, hsends, hdelivered⟩ := hstep
      obtain ⟨-, -, rfl⟩ := sends_iff.mp hsends
      rw [(net.transmits _ _ _ _ hdelivered).header,
        upstreamRequest_loop (hannounced visited a h), ih]
      exact (headerOf_cons _ _).symm

/-- **When a loop is detected**: the request has been here, or came with the
    identifier. -/
theorem detectsLoop_iff (hannounced : Announced net first)
    (h : Forwarded net first visited b) :
    (net.forwarder b.1).DetectsLoop b.2 ↔ b.1 ∈ visited
      ∨ (net.forwarder b.1).uuid.val <:+: (first.2.header loopHeader).getD [] := by
  rw [Forwarder.DetectsLoop, forwarded_header hannounced h, infix_headerOf]
  constructor
  · rintro ⟨text, htext, hinfix⟩
    rcases List.mem_append.mp htext with hmem | hmem
    · -- identifiers have one length, so the substring test compares them
      obtain ⟨i, hi, rfl⟩ := List.mem_map.mp hmem
      obtain rfl := net.distinct _ _ ((uuid_infix_iff _ _).mp hinfix)
      exact Or.inl hi
    · rw [Option.mem_toList.mp hmem]
      exact Or.inr hinfix
  · rintro (hmem | hinfix)
    · exact ⟨_, List.mem_append_left _ (List.mem_map_of_mem hmem), List.infix_rfl⟩
    · cases hfirst : first.2.header loopHeader with
      | none =>
          rw [hfirst] at hinfix
          exact absurd (List.infix_nil.mp hinfix) (uuid_ne_nil _)
      | some loop =>
          rw [hfirst] at hinfix
          exact ⟨loop, List.mem_append_right _ (List.mem_singleton_self loop), hinfix⟩

/-- The command of a request that has passed a forwarder is supported. -/
theorem supported_of_passed (h : Forwarded net first visited b) (hne : visited ≠ []) :
    b.2.command ∈ supportedCommands := by
  cases h with
  | arrived => exact absurd rfl hne
  | passed h hstep =>
      obtain ⟨sent, hsends, hdelivered⟩ := hstep
      obtain ⟨hcommand, -, rfl⟩ := sends_iff.mp hsends
      rw [(net.transmits _ _ _ _ hdelivered).method]
      exact hcommand

/-- Whoever sends the request has not sent it before. -/
theorem not_mem_of_sends (hannounced : Announced net first)
    (h : Forwarded net first visited b) (hsends : Sends net b sent) : b.1 ∉ visited := by
  obtain ⟨-, hloop, -⟩ := sends_iff.mp hsends
  exact fun hmem => hloop ((detectsLoop_iff hannounced h).mpr (Or.inl hmem))

theorem nodup_of_forwarded (hannounced : Announced net first)
    (h : Forwarded net first visited b) : visited.Nodup := by
  induction h with
  | arrived => exact List.nodup_nil
  | passed h hstep ih =>
      obtain ⟨sent, hsends, -⟩ := hstep
      exact List.nodup_cons.mpr ⟨not_mem_of_sends hannounced h hsends, ih⟩

/-! ## Forwarding stops -/

/-- What becomes of a request, whatever it carries: it passes every upstream
    call once at most, it is not forwarded forever, and it is refused where it
    comes back and, with a clean header, nowhere else. -/
structure Stops [Fintype ι] (net : Network ι) (first : Arrival ι) : Prop where
  /-- No upstream call is passed twice. -/
  once : ∀ visited b, Forwarded net first visited b →
    visited.Nodup ∧ ∀ sent, Sends net b sent → b.1 ∉ visited
  /-- There are at most as many hops as forwarders. -/
  bounded : ∀ visited b, Forwarded net first visited b → visited.length ≤ Fintype.card ι
  /-- It is not forwarded forever. -/
  ends : ¬ ∃ run : ℕ → Arrival ι, run 0 = first ∧ ∀ n, Step net (run n) (run (n + 1))
  /-- Where it comes back, it is refused. -/
  refused : ∀ visited b, Forwarded net first visited b → b.1 ∈ visited → LoopRefused net b
  /-- Where it does not, it is not, unless it came with the identifier of a
      forwarder. -/
  repeats : (∀ i, ¬ (net.forwarder i).uuid.val <:+: (first.2.header loopHeader).getD []) →
    ∀ visited b, Forwarded net first visited b → LoopRefused net b → b.1 ∈ visited

/-- Runs pass one forwarder a step. -/
theorem forwarded_of_run {run : ℕ → Arrival ι} (hfirst : run 0 = first)
    (hrun : ∀ n, Step net (run n) (run (n + 1))) :
    ∀ n, ∃ visited, visited.length = n ∧ Forwarded net first visited (run n) := by
  intro n
  induction n with
  | zero =>
      rw [hfirst]
      exact ⟨[], rfl, .arrived⟩
  | succ n ih =>
      obtain ⟨visited, hlength, h⟩ := ih
      exact ⟨(run n).1 :: visited, congrArg (· + 1) hlength, h.passed (hrun n)⟩

/-- The request as it arrives. -/
def arrivalOf (orig : Request) (sent : ClientRequest) : Request :=
  { orig with command := sent.method, headers := (sent.headers.transmitted Dict.empty).items }

theorem transmits_arrivalOf (orig : Request) (sent : ClientRequest) :
    Transmits sent (arrivalOf orig sent) := by
  refine ⟨rfl, ?_⟩
  show (sent.headers.transmitted Dict.empty).get? loopHeader = _
  rw [Headers.get?_transmitted]
  cases sent.headers.sent loopHeader <;> rfl

/-- A forwarder with another identifier. -/
def otherForwarder : Forwarder :=
  { plainForwarder with
    uuid := ⟨"11111111-1111-4111-8111-111111111111", by decide, by simp⟩ }

theorem other_ne_plain : otherForwarder.uuid ≠ plainForwarder.uuid := by
  intro h
  exact absurd (congrArg Subtype.val h) (by decide)

/-- What the one sends arrives at the other. -/
def pair : Network Bool where
  forwarder i := if i = true then otherForwarder else plainForwarder
  distinct := by
    intro i j h
    cases i <;> cases j
    · rfl
    · exact absurd h.symm other_ne_plain
    · exact absurd h other_ne_plain
    · rfl
  delivers i sent j req := j = !i ∧ ∃ orig, req = arrivalOf orig sent
  transmits := by
    rintro i sent j req ⟨-, orig, rfl⟩
    exact transmits_arrivalOf orig sent

/-- A request without a header. -/
def bareRequest : Request := SecretsRuns.userRequest "GET" "u" ["u", "k"] [] none

/-- A forwarder whose upstream server is itself. -/
def selfLoop (fwd : Forwarder) : Network Unit where
  forwarder _ := fwd
  distinct _ _ _ := rfl
  delivers _ sent _ req := ∃ orig, req = arrivalOf orig sent
  transmits := by
    rintro - sent - req ⟨orig, rfl⟩
    exact transmits_arrivalOf orig sent

/-- **A forwarder that does not announce itself** forwards a request to itself
    forever, unless the other spelling happens to carry its identifier. -/
theorem not_stops_selfLoop {fwd : Forwarder} {first : Request} (hhidden : ¬ fwd.Announces)
    (hother : ¬ fwd.uuid.val <:+: (fwd.forwardHeaders.sent loopHeader).join.getD [])
    (hcommand : first.command ∈ supportedCommands) (hfirst : ¬ fwd.DetectsLoop first) :
    ¬ Stops (selfLoop fwd) ((), first) := by
  -- what is forwarded arrives with the other spelling, and so again and again
  let again (req : Request) : Request := arrivalOf req (upstreamRequest fwd req)
  let run (n : ℕ) : Arrival Unit := ((), again^[n] first)
  have hpasses : ∀ n, (again^[n] first).command ∈ supportedCommands
      ∧ ¬ fwd.DetectsLoop (again^[n] first) := by
    intro n
    induction n with
    | zero => exact ⟨hcommand, hfirst⟩
    | succ n ih =>
        rw [Function.iterate_succ_apply']
        refine ⟨ih.1, ?_⟩
        rw [Forwarder.DetectsLoop, (transmits_arrivalOf _ _).header,
          upstreamRequest_hidden hhidden]
        exact hother
  intro hstops
  refine hstops.ends ⟨run, rfl, fun n => ?_⟩
  obtain ⟨hsupported, hclean⟩ := hpasses n
  refine ⟨_, sends_iff.mpr ⟨hsupported, hclean, rfl⟩, again^[n] first, ?_⟩
  exact Function.iterate_succ_apply' again n first

/-- The loop header in two spellings. -/
def hiddenForwarder : Forwarder :=
  { plainForwarder with
    forwardHeaders := ⟨[("X-LOOP-CUSTODIA", some "a"), ("x-loop-custodia", some "b")],
      by decide⟩ }

end ForwardLoopProofs
