import Custodia.AuthKeysProofs
import Custodia.FrameProofs

/-! # ContainerCreation — what a successful POST yields

    A POST is answered 201 when the row of the container was made and 200 when
    the store says that the key exists. A key exists for a secret, too, and a
    key that is stored can still be too long to be listed.

    * `result_of_post`: the row and the table that a successful POST leaves;
    * `created_container_iff`: when a container has come of it. -/

namespace ContainerCreation

open PosixPath PyValues Messages SqliteStore SecretsConsumer SecretsCalls SecretsRequests
open SecretsRuns SecretsEffects AuthKeysProofs FrameProofs

/-- The row at the addressed path. -/
def containerRow (req : Request) : Str := rstrip (entryKey req)

/-- What a POST is to lead to: the addressed entry is a container, it can be
    listed, and a GET of the name without its slash returns no secret. -/
structure YieldsContainer (con : Secrets) (req : Request) (t : Table) : Prop where
  empty : t.lookup (containerRow req) = some (.text [])
  listed : ∃ names, listing t (entryKey req) = .ok (some names)
  hidden : ∀ get client handler, Gets con get client handler →
    segments get = (segments req).dropLast → ∃ e, (respond con get t).1.result = .error e

/-- The pattern for listing the container is longer than `LIKE` accepts. -/
def LongPath (req : Request) : Prop :=
  likePatternLimit < utf8Length (containerRow req ++ ['%'])

instance (req : Request) : Decidable (LongPath req) := inferInstanceAs (Decidable (_ < _))

/-- Some entry that is no container has the addressed key. -/
def SecretThere (t : Table) (req : Request) : Prop :=
  ∃ v, t.lookup (containerRow req) = some v ∧ v ≠ .text []

variable {con : Secrets} {req : Request} {client : Str} {msg : Handler} {t : Table}

theorem endsInSlash_rstrip (s : Str) : endsInSlash (rstrip s) = false :=
  Bool.eq_false_iff.mpr
    (fun h => SeparatedNames.getLast?_trimRight slash s (endsInSlash_iff.mp h))

/-- What a POST adds ends in no slash. -/
theorem plainKeys_post (h : Posts con req msg) (ht : PlainKeys t) :
    PlainKeys (respond con req t).2 := by
  intro key hmem
  rcases post_grows h t key with hsame | ⟨-, v, -, ⟨rfl, -⟩ | ⟨space, -, rfl, -⟩⟩
  · refine ht key ?_
    rw [← AList.lookup_isSome] at hmem ⊢
    rwa [← hsame]
  · rw [newEntry_post h.command]
    exact endsInSlash_rstrip _
  · exact endsInSlash_rstrip _

/-- **A successful POST** leaves a row at the addressed path, whether it was
    made or found. -/
theorem mem_of_created (h : Posts con req msg)
    (hok : (respond con req t).1.Answered 200 ∨ (respond con req t).1.Answered 201) :
    containerRow req ∈ (respond con req t).2 := by
  rcases post_cases h t with ⟨-, e, heq⟩ | ⟨t', -, hmem, heq⟩ | ⟨t', -, -, heq⟩
  · rw [heq] at hok
    rcases hok with hok | hok
    · exact absurd hok not_answered_error
    · exact absurd hok not_answered_error
  · rw [heq]
    exact hmem
  · rw [heq]
    exact (AList.mem_insert t').mpr (Or.inl rfl)

/-- Only a POST of a container is answered like one. -/
theorem posts_of_created (hpost : req.command = "POST".toList)
    (hok : (respond con req t).1.Answered 200 ∨ (respond con req t).1.Answered 201) :
    ∃ msg, Posts con req msg := by
  cases request_kind con req with
  | post msg h => exact ⟨msg, h⟩
  | get client msg h => exact absurd (h.command.symm.trans hpost) (by decide)
  | list key msg h => exact absurd (h.command.symm.trans hpost) (by decide)
  | put client msg h => exact absurd (h.command.symm.trans hpost) (by decide)
  | destroy msg h => exact absurd (h.command.symm.trans hpost) (by decide)
  | delete client msg h => exact absurd (h.command.symm.trans hpost) (by decide)
  | refused o hrun h =>
      obtain ⟨⟨e, he⟩, -⟩ := h
      rw [respond_refused hrun] at hok
      exfalso
      rcases hok with ⟨response, hr, -⟩ | ⟨response, hr, -⟩
      · cases he.symm.trans hr
      · cases he.symm.trans hr

/-- The row is that of a container unless a secret was there before. -/
theorem empty_iff (h : Posts con req msg) (hmem : containerRow req ∈ (respond con req t).2) :
    (respond con req t).2.lookup (containerRow req) = some (.text [])
      ↔ ¬ SecretThere t req := by
  obtain ⟨v, hv⟩ := Option.isSome_iff_exists.mp (AList.lookup_isSome.mpr hmem)
  rcases post_grows h t (containerRow req) with hsame | ⟨hnone, w, hw, hadd⟩
  · rw [hsame]
    rw [hsame] at hv
    constructor
    · rintro hempty ⟨w, hw, hne⟩
      exact hne (Option.some.inj (hw.symm.trans hempty))
    · intro hno
      by_cases hv' : v = .text []
      · rw [hv, hv']
      · exact absurd ⟨v, hv, hv'⟩ hno
  · have hempty : w = .text [] := by
      rcases hadd with ⟨-, hpost⟩ | ⟨space, -, -, hspace⟩
      · exact hpost h.command
      · exact hspace
    refine iff_of_true (by rw [hw, hempty]) ?_
    rintro ⟨u, hu, -⟩
    cases hnone.symm.trans hu

/-- A container that is there can be listed unless its path is too long. -/
theorem listed_iff {t : Table} (hcont : namesContainer (segments req))
    (hmem : containerRow req ∈ t) :
    (∃ names, listing t (entryKey req) = .ok (some names)) ↔ ¬ LongPath req := by
  have hrows : rows t ≠ [] := by
    obtain ⟨v, hv⟩ := mem_rows.mpr hmem
    exact List.ne_nil_of_mem hv
  have hlong : TooLong t (entryKey req) ↔ LongPath req := and_iff_left hrows
  rw [← hlong]
  rcases listing_cases t (entryKey_ne_nil hcont) with ⟨htoo, text, hlist⟩ |
    ⟨hshort, -, names, -, hlist⟩ | ⟨hshort, -, -, hlist⟩ | ⟨-, -, hnp, -⟩
  · refine iff_of_false ?_ (not_not.mpr htoo)
    rintro ⟨names, hnames⟩
    cases hlist.symm.trans hnames
  · exact iff_of_true ⟨names, hlist⟩ hshort
  · exact iff_of_true ⟨[], hlist⟩ hshort
  · exact absurd (Or.inl hmem) hnp

/-- Without its empty last segment, the path leads to the row of the container
    or to a key that ends in a slash. -/
theorem entryKey_dropLast {get : Request} (hcont : namesContainer (segments req))
    (hget : segments get = (segments req).dropLast) :
    endsInSlash (entryKey get) = true ∨ entryKey get = containerRow req := by
  have hsplit : segments req = segments get ++ [[]] := by
    rw [hget]
    exact (List.dropLast_append_getLast? [] hcont).symm
  have hkey : entryKey req = joinStep (entryKey get) [] := by
    rw [entryKey, hsplit, join_append]
    rfl
  cases hend : endsInSlash (entryKey get) with
  | true => exact Or.inl rfl
  | false =>
      refine Or.inr ?_
      have hself : rstrip (entryKey get) = entryKey get := by
        refine (SeparatedNames.trimRight_eq_self_iff slash).mpr (fun hlast => ?_)
        rw [endsInSlash_iff.mpr hlast] at hend
        cases hend
      rw [containerRow, hkey, joinStep]
      split_ifs with habs hclosed
      · exact absurd habs (by decide)
      · rw [List.append_nil, hself]
      · rw [rstrip_concat, hself]

/-- A container is not returned as a secret. -/
theorem hidden_of_empty {t : Table} (ht : PlainKeys t) (hcont : namesContainer (segments req))
    (hempty : t.lookup (containerRow req) = some (.text [])) {get : Request} {handler : Handler}
    (hget : Gets con get client handler) (hsegments : segments get = (segments req).dropLast) :
    ∃ e, (respond con get t).1.result = .error e := by
  rw [respond_get hget]
  rcases entryKey_dropLast hcont hsegments with hend | hkey
  · have hnone : t.lookup (entryKey get) = none := by
      refine AList.lookup_eq_none.mpr (fun hmem => ?_)
      cases hend.symm.trans (ht _ hmem)
    rw [hnone]
    exact ⟨_, rfl⟩
  · rw [hkey, hempty]
    exact ⟨_, rfl⟩

/-- **HEADLINE — when a successful POST yields a container**: no entry other
    than a container had the key, and the path is not too long to be listed. -/
theorem created_container_iff (hreach : Reachable con t) (hpost : req.command = "POST".toList)
    (hok : (respond con req t).1.Answered 200 ∨ (respond con req t).1.Answered 201) :
    YieldsContainer con req (respond con req t).2 ↔ ¬ SecretThere t req ∧ ¬ LongPath req := by
  obtain ⟨msg, h⟩ := posts_of_created hpost hok
  have hmem := mem_of_created h hok
  have hplain := plainKeys_post h (plainKeys_of_reachable hreach)
  constructor
  · rintro ⟨hempty, hlisted, -⟩
    exact ⟨(empty_iff h hmem).mp hempty, (listed_iff h.container hmem).mp hlisted⟩
  · rintro ⟨hfree, hshort⟩
    have hempty := (empty_iff h hmem).mpr hfree
    refine ⟨hempty, (listed_iff h.container hmem).mpr hshort, ?_⟩
    intro get client handler hget hsegments
    exact hidden_of_empty hplain h.container hempty hget hsegments

/-- The POST of a container. -/
def postContainer (trail : List Str) : Request := userRequest "POST" "u" trail [] none

/-- A table with the secret `u/k`. -/
def secretTable : Table := filledBy [.set "keys/u/k" (.ofText "s") false]

theorem secretTable_reachable : Reachable simpleSecrets secretTable :=
  ⟨[.set "keys/u/k" (.ofText "s") false], fun _ => postContainer [], [], rfl⟩

/-- A POST of `u/k/` is answered 200 although `u/k` is a secret. -/
theorem secret_is_no_container :
    Reachable simpleSecrets secretTable
    ∧ (respond simpleSecrets (postContainer ["u", "k", []]) secretTable).1.Answered 200
    ∧ ¬ YieldsContainer simpleSecrets (postContainer ["u", "k", []])
        (respond simpleSecrets (postContainer ["u", "k", []]) secretTable).2 := by
  refine ⟨secretTable_reachable, ⟨_, rfl, rfl⟩, fun h => ?_⟩
  exact absurd h.empty (by decide)

/-- In an empty store the container comes into being. -/
theorem created_container_top :
    Reachable simpleSecrets (filledBy [])
    ∧ (respond simpleSecrets (postContainer ["u", []]) (filledBy [])).1.Answered 201
    ∧ YieldsContainer simpleSecrets (postContainer ["u", []])
        (respond simpleSecrets (postContainer ["u", []]) (filledBy [])).2 := by
  have hreach : Reachable simpleSecrets (filledBy []) := ⟨[], fun _ => postContainer [], [], rfl⟩
  have hok : (respond simpleSecrets (postContainer ["u", []]) (filledBy [])).1.Answered 201 :=
    ⟨_, rfl, rfl⟩
  refine ⟨hreach, hok, (created_container_iff hreach rfl (Or.inr hok)).mpr ⟨?_, ?_⟩⟩
  · rintro ⟨v, hv, -⟩
    cases hv
  · exact fun h => absurd h (by decide)

end ContainerCreation
