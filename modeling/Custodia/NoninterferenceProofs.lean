import Custodia.NamespaceProofs

/-! # NoninterferenceProofs — nobody sees another namespace

    All secrets are in one table, and every search goes through all of it.
    Still the outcomes of the requests below one top name, records included,
    are those of the run in which no other request was ever sent.

    * `shows_unique`: the answer of the namespace determines the outcome;
    * `unwinds`: the two conditions, one request at a time;
    * `others_unnoticed`: every run. -/

namespace NoninterferenceProofs

open PosixPath PyValues Messages SqliteStore SecretsConsumer SecretsRequests SecretsRuns
open StoreTree ContainerTreeProofs Namespace NamespaceProofs Machines

/-- The request is about this top name. -/
def Mine (n : Str) (req : Request) : Prop := (address req).head? = some n

instance (n : Str) : DecidablePred (Mine n) :=
  fun req => inferInstanceAs (Decidable ((address req).head? = some n))

/-- The tables hold the same below the top name. -/
def SameUnder (n : Str) (t t' : Table) : Prop := AgreeUnder n (treeOf t) (treeOf t')

variable {con : Secrets} {req : Request} {n : Str} {op : Op Str SqlValue} {t t' : Table}

/-- **The answer determines the outcome.** -/
theorem shows_unique {a : Ans Str SqlValue} {o o' : Outcome} (h : Shows con req op a o)
    (h' : Shows con req op a o') : o = o' := by
  -- one case for each answer; what else the outcome shows is read from the request
  cases h with
  | entry hk =>
      cases h' with
      | entry hk' =>
          obtain rfl := Except.ok.inj (hk.named.symm.trans hk'.named)
          obtain rfl := Except.ok.inj (hk.message.symm.trans hk'.message)
          rfl
  | listed hk hnames =>
      cases h' with
      | listed hk' hnames' =>
          obtain rfl := Except.ok.inj (hk.message.symm.trans hk'.message)
          rw [named_unique hnames hnames']
  | unlisted hk => cases h'; rfl
  | stored hk =>
      cases h' with
      | stored hk' =>
          obtain rfl := Except.ok.inj (hk.named.symm.trans hk'.named)
          obtain rfl := Except.ok.inj (hk.message.symm.trans hk'.message)
          rfl
  | taken hk =>
      cases h' with
      | taken hk' => rw [Except.ok.inj (hk.named.symm.trans hk'.named)]
  | orphan hk =>
      cases h' with
      | orphan hk' => rw [Except.ok.inj (hk.named.symm.trans hk'.named)]
  | unstorable hk hbind =>
      cases h' with
      | unstorable hk' hbind' =>
          obtain rfl := Except.ok.inj (hk.message.symm.trans hk'.message)
          rw [Except.ok.inj (hk.named.symm.trans hk'.named),
            Except.error.inj (hbind.symm.trans hbind')]
  | made hk =>
      cases h' with
      | made hk' => rw [Except.ok.inj (hk.message.symm.trans hk'.message)]
  | present hk => cases h'; rfl
  | lost hk => cases h'; rfl
  | destroyed hk =>
      cases h' with
      | destroyed hk' => rw [Except.ok.inj (hk.message.symm.trans hk'.message)]
  | occupied hk => cases h'; rfl
  | undestroyed hk => cases h'; rfl
  | removed hk =>
      cases h' with
      | removed hk' =>
          obtain rfl := Except.ok.inj (hk.named.symm.trans hk'.named)
          obtain rfl := Except.ok.inj (hk.message.symm.trans hk'.message)
          rfl
  | unremoved hk =>
      cases h' with
      | unremoved hk' => rw [Except.ok.inj (hk.named.symm.trans hk'.named)]
  | nothing hrun =>
      cases h' with
      | nothing hrun' =>
          injection hrun.symm.trans hrun'

/-- An operation that is asked for is about the address of the request, or
    about nothing. -/
theorem asks_top (h : Asks con req op) : op.top = (address req).head? ∨ op = .nothing := by
  cases h with
  | nothing hrun => exact Or.inr rfl
  | read _ => exact Or.inl rfl
  | list _ => exact Or.inl rfl
  | store _ => exact Or.inl rfl
  | make _ => exact Or.inl rfl
  | destroy _ => exact Or.inl rfl
  | remove _ => exact Or.inl rfl

theorem asks_deep (h : Asks con req op) : op.Deep := by
  cases h with
  | store hk =>
      show 2 ≤ (address req).length
      rw [address_entry hk.deep hk.entry]
      exact hk.deep
  | read _ => trivial
  | list _ => trivial
  | make _ => trivial
  | destroy _ => trivial
  | remove _ => trivial
  | nothing hrun => trivial

/-- A request about another name is not noticed. -/
theorem respond_hidden (hreq : Addressed req) (hother : ¬ Mine n req) (ht : Spelled t) :
    SameUnder n t (respond con req t).2 := by
  obtain ⟨op, hop⟩ := exists_asks con req
  obtain ⟨-, -, htree⟩ := respond_refines hreq hop ht
  rw [SameUnder, htree]
  refine act_elsewhere (asks_deep hop) ?_
  rcases asks_top hop with htop | rfl
  · rw [htop]
    exact hother
  · exact fun h => nomatch h

/-- A request about the name is answered from what is below it. -/
theorem respond_same (hreq : Addressed req) (hmine : Mine n req) (ht : Spelled t)
    (ht' : Spelled t') (hsame : SameUnder n t t') :
    (respond con req t).1 = (respond con req t').1
      ∧ SameUnder n (respond con req t).2 (respond con req t').2 := by
  obtain ⟨op, hop⟩ := exists_asks con req
  obtain ⟨hshows, -, htree⟩ := respond_refines hreq hop ht
  obtain ⟨hshows', -, htree'⟩ := respond_refines hreq hop ht'
  rw [SameUnder, htree, htree']
  rcases asks_top hop with htop | rfl
  · obtain ⟨hans, hagree⟩ := act_agree emptyValue (asks_deep hop)
      (htop.trans hmine) hsame
    rw [← hans] at hshows'
    exact ⟨shows_unique hshows hshows', hagree⟩
  · exact ⟨shows_unique hshows hshows', hsame⟩

/-- **The consumer unwinds for every top name.** -/
theorem unwinds (n : Str) :
    Unwinds Visit.respond Spelled (fun v => Addressed v.req) (fun v => Mine n v.req)
      (SameUnder n) where
  keeps := by
    intro v t hreq ht
    obtain ⟨op, hop⟩ := exists_asks v.con v.req
    exact (respond_refines hreq hop ht).2.1
  hidden := by
    intro v t t' hreq hother ht hsame
    exact (respond_hidden hreq hother ht).symm.trans hsame
  same := by
    intro v t t' hreq hmine ht ht' hsame
    exact respond_same hreq hmine ht ht' hsame

/-- **HEADLINE — what others do in their namespaces is not noticed**: in every
    run, from tables that hold the same below a top name, the outcomes of the
    requests about it are those of these requests alone. -/
theorem others_unnoticed (n : Str) (vs : List Visit) (hreqs : ∀ v ∈ vs, Addressed v.req)
    {t t' : Table} (ht : Spelled t) (ht' : Spelled t') (hsame : SameUnder n t t') :
    answersTo Visit.respond (fun v => Mine n v.req) vs t
        = answers Visit.respond (vs.filter (fun v => decide (Mine n v.req))) t'
      ∧ SameUnder n (after Visit.respond vs t)
          (after Visit.respond (vs.filter (fun v => decide (Mine n v.req))) t') :=
  answers_purge (unwinds n) vs hreqs ht ht' hsame

/-- Two users, and requests of both. -/
def sharedRun : List Visit :=
  [⟨simpleSecrets, putBytes "u" ["u", "k"] [65]⟩, ⟨simpleSecrets, putBytes "v" ["v", "k"] [66]⟩,
    ⟨simpleSecrets, userRequest "GET" "u" ["u", "k"] [] none⟩,
    ⟨simpleSecrets, userRequest "DELETE" "v" ["v", "k"] [] none⟩,
    ⟨simpleSecrets, userRequest "GET" "u" ["u", ""] [] none⟩]

theorem others_unnoticed_shared :
    (∀ v ∈ sharedRun, Addressed v.req) ∧ Spelled ∅ ∧ SameUnder "u" ∅ ∅
    ∧ (answersTo Visit.respond (fun v => Mine "u" v.req) sharedRun ∅
        = answers Visit.respond (sharedRun.filter (fun v => decide (Mine "u" v.req))) ∅
      ∧ SameUnder "u" (after Visit.respond sharedRun ∅)
          (after Visit.respond (sharedRun.filter (fun v => decide (Mine "u" v.req))) ∅)) := by
  have hrun : ∀ v ∈ sharedRun, Addressed v.req := by
    simp only [sharedRun, List.forall_mem_cons]
    exact ⟨⟨by decide, by decide⟩, ⟨by decide, by decide⟩, ⟨by decide, by decide⟩,
      ⟨by decide, by decide⟩, ⟨by decide, by decide⟩, fun v h => absurd h List.not_mem_nil⟩
  have hsame : SameUnder "u" ∅ ∅ := fun _ _ => rfl
  exact ⟨hrun, spelled_empty, hsame,
    others_unnoticed "u" sharedRun hrun spelled_empty spelled_empty hsame⟩

end NoninterferenceProofs
