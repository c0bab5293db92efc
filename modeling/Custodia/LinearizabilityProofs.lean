import Custodia.NamespaceProofs
import Custodia.SerialProofs

/-! # LinearizabilityProofs — concurrent requests over the namespace

    Steady requests are as good as serial ones, and serial ones are operations
    of the namespace. So the requests that have ended in any run are answered
    by the namespace as if each had happened at once, at its last call.

    * `outcomeOf`: how a request ends for its client;
    * `solo_simulates`: one request alone;
    * `Linearized`, `steady_linearizable`: every schedule. -/

namespace LinearizabilityProofs

open Interaction Interleaving Serializability Machines PosixPath PyValues SqliteStore
open SecretsConsumer SecretsRuns StoreTree ContainerTreeProofs DestroyRaceProofs ExistsProofs
open Namespace NamespaceProofs SerialProofs

/-- What the client is told at the end of a request. -/
def outcomeOf : Except Exc Outcome → Outcome
  | .ok o => o
  | .error e => ⟨.error e, []⟩

/-- Handling a request alone is running its program to the end on the table. -/
theorem respond_eq (con : Secrets) (req : Request) (t : Table) :
    respond con req t
      = (outcomeOf ((handle con req).run exec t).1, ((handle con req).run exec t).2) := by
  rw [respond]
  rcases (handle con req).run exec t with ⟨ended, t'⟩
  cases ended with
  | ok o => rfl
  | error e => rfl

variable {ι : Type} {con : Secrets} {reqs : ι → Request} {ops : ι → Op Str SqlValue} {t : Table}

/-- One request alone is one operation. -/
theorem solo_simulates (haddressed : ∀ i, Addressed (reqs i))
    (hasks : ∀ i, Asks con (reqs i) (ops i)) :
    Simulates (solo exec (fun i => handle con (reqs i))) (act emptyValue)
      (fun s T => Spelled s ∧ treeOf s = T) (fun i op => op = ops i)
      (fun i op ended a => Shows con (reqs i) op a (outcomeOf ended)) := by
  rintro i op s T rfl ⟨hs, rfl⟩
  have hrefines := respond_refines (haddressed i) (hasks i) hs
  rw [respond_eq] at hrefines
  exact hrefines

variable [DecidableEq ι]

/-- The requests that have ended in a run, once each, in an order in which the
    namespace answers them: every one is told the answer, the table is the tree
    at the end, and at any moment, who has ended comes before who has not. -/
structure Linearized (con : Secrets) (reqs : ι → Request) (ops : ι → Op Str SqlValue) (t : Table)
    (s order : List ι) : Prop where
  once : order.Nodup
  mem_iff : ∀ i, i ∈ order ↔ ((start con reqs t).procs i).ended = none
    ∧ ((runSched exec (start con reqs t) s).procs i).ended ≠ none
  told : ∃ results, order.map (fun i => ((runSched exec (start con reqs t) s).procs i).ended)
      = results.map some
    ∧ Alike (fun i op ended a => Shows con (reqs i) op a (outcomeOf ended)) order
        (order.map ops) results (answers (act emptyValue) (order.map ops) (treeOf t))
  tree : treeOf (runSched exec (start con reqs t) s).store
    = after (act emptyValue) (order.map ops) (treeOf t)
  realTime : ∀ p r, s = p ++ r → ∃ early late, order = early ++ late
    ∧ (∀ i ∈ early, ((runSched exec (start con reqs t) p).procs i).ended ≠ none)
    ∧ ∀ i ∈ late, ((runSched exec (start con reqs t) p).procs i).ended = none

/-- **A serial order is one in which the namespace answers.** -/
theorem linearized_of_serial (haddressed : ∀ i, Addressed (reqs i)) (ht : Spelled t)
    (hasks : ∀ i, Asks con (reqs i) (ops i)) {s order : List ι}
    (h : SerialOrder con reqs t s order) : Linearized con reqs ops t s order := by
  have hboth : List.Forall₂ (fun i op => op = ops i) order (order.map ops) := by
    rw [List.forall₂_map_right_iff, List.forall₂_same]
    exact fun i _ => rfl
  obtain ⟨halike, -, htree⟩ := simulates (solo_simulates haddressed hasks) hboth ⟨ht, rfl⟩
  refine ⟨h.once, h.mem_iff, ⟨_, h.ends, halike⟩, ?_, h.realTime⟩
  rw [h.store]
  exact htree

/-- **HEADLINE — steady requests are linearizable**: however their calls are
    interleaved, the requests that have ended are answered by the namespace one
    after another, in an order that keeps to real time. -/
theorem steady_linearizable (con : Secrets) (reqs : ι → Request)
    (haddressed : ∀ i, Addressed (reqs i)) {t : Table} (ht : Spelled t)
    (hs : Steady con reqs t) (s : List ι) :
    (∃ ops : ι → Op Str SqlValue, ∀ i, Asks con (reqs i) (ops i))
    ∧ ∀ ops : ι → Op Str SqlValue, (∀ i, Asks con (reqs i) (ops i)) →
      ∃ order, Linearized con reqs ops t s order := by
  refine ⟨Classical.skolem.mp (fun i => exists_asks con (reqs i)), fun ops hasks => ?_⟩
  exact ⟨_, linearized_of_serial haddressed ht hasks (serialOrder_endings hs s)⟩

/-- The keys of the table with one secret spell paths. -/
theorem spelled_oneSecret : Spelled oneSecret := by
  have hnamespace : Spelled emptyNamespace :=
    spelled_insert spelled_empty (show Plain [("u" : Str)] by decide) _
  exact spelled_insert hnamespace (show Plain [("u" : Str), "j"] by decide) _

/-- A PUT, a DELETE and a listing in one container, with the listing between the
    calls of the PUT. -/
theorem steady_linearizable_container :
    (∀ i, Addressed (containerRequests i)) ∧ Spelled oneSecret
    ∧ Steady simpleSecrets containerRequests oneSecret
    ∧ ((∃ ops : Fin 3 → Op Str SqlValue, ∀ i, Asks simpleSecrets (containerRequests i) (ops i))
      ∧ ∀ ops : Fin 3 → Op Str SqlValue, (∀ i, Asks simpleSecrets (containerRequests i) (ops i)) →
        ∃ order, Linearized simpleSecrets containerRequests ops oneSecret [0, 1, 2, 0] order) := by
  have hplain : ∀ i, Plain (address (containerRequests i)) := by decide
  have hfits : ∀ i, utf8Length (keyOf (address (containerRequests i))) < likePatternLimit := by
    decide
  have haddressed : ∀ i, Addressed (containerRequests i) := fun i => ⟨hplain i, hfits i⟩
  exact ⟨haddressed, spelled_oneSecret, steady_container,
    steady_linearizable simpleSecrets containerRequests haddressed spelled_oneSecret
      steady_container [0, 1, 2, 0]⟩

end LinearizabilityProofs
