import Custodia.SecretsEffects

/-! # FailureProofs — what a failed request leaves behind

    A request that ends in an exception leaves the table as it was, except in
    two situations: a PUT has made the default namespace and its own `set` is
    refused, or the change is made and the reply to its `kem` message cannot
    be built.

    * `spoiled`, `spoils_of_changed`: the two directions;
    * `failure_unchanged_iff`: exactly these requests. -/

namespace FailureProofs

open PosixPath PyValues Messages SqliteStore SecretsConsumer SecretsCalls SecretsRequests
open SecretsRuns SecretsEffects

/-- The requests that fail after they have changed the table. -/
inductive Spoils (con : Secrets) (t : Table) (req : Request) : Prop where
  /-- A PUT has made the namespace, and its value cannot be stored. -/
  | namespaceLeft (client : Str) (msg : Handler) (h : Puts con req client msg)
      (made : NamespaceMade t req.defaultNamespace (segments req))
      (refused : ¬ Storable (withNamespace t (segments req)) (entryKey req) msg.payload)
  /-- A PUT is stored, and cannot be answered. -/
  | put (client : Str) (msg : Handler) (h : Puts con req client msg)
      (unanswerable : Unanswerable con.runtime msg) (t' : Table)
      (admitted : Admitted t req.defaultNamespace (segments req) t')
      (stored : Storable t' (entryKey req) msg.payload)
  /-- A POST is carried out, and cannot be answered. -/
  | post (msg : Handler) (h : Posts con req msg) (unanswerable : Unanswerable con.runtime msg)
      (t' : Table) (admitted : PostAdmitted t req t') (fresh : rstrip (entryKey req) ∉ t')
  /-- A DELETE of a container is carried out, and cannot be answered. -/
  | destroy (msg : Handler) (h : Destroys con req msg)
      (unanswerable : Unanswerable con.runtime msg) (removable : Removable t (entryKey req))
  /-- A DELETE of a key is carried out, and cannot be answered. -/
  | delete (client : Str) (msg : Handler) (h : Deletes con req client msg)
      (unanswerable : Unanswerable con.runtime msg) (there : entryKey req ∈ t)

/-- The request ends in an exception. -/
def Fails (o : Outcome) : Prop := ∃ e, o.result = .error e

variable {con : Secrets} {req : Request} {t : Table}

/-- These requests fail and have changed the table. -/
theorem spoiled (h : Spoils con t req) :
    Fails (respond con req t).1 ∧ (respond con req t).2 ≠ t := by
  cases h with
  | namespaceLeft client msg hk made refused =>
      have hadmitted := Admitted.made made
      rcases put_cases hk t with ⟨hno, -⟩ | ⟨t', ha, -, e, heq⟩ | ⟨t', v, ha, hs, -, -⟩
      · exact absurd hadmitted (hno _)
      · obtain rfl := hadmitted.unique ha
        rw [heq]
        exact ⟨⟨e, rfl⟩, insert_ne_self made.fresh _⟩
      · obtain rfl := hadmitted.unique ha
        exact absurd hs refused
  | put client msg hk unanswerable t' admitted stored =>
      rcases put_cases hk t with ⟨hno, -⟩ | ⟨t₁, ha, hs, -⟩ | ⟨t₁, v, ha, hs, -, heq⟩
      · exact absurd admitted (hno _)
      · obtain rfl := admitted.unique ha
        exact absurd stored hs
      · rw [heq]
        exact ⟨(changedResponse_finish con msg 201 201).mpr unanswerable,
          insert_ne_of_kept ha.kept hs.fresh v⟩
  | post msg hk unanswerable t' admitted fresh =>
      rcases post_cases hk t with ⟨hno, -⟩ | ⟨t₁, ha, hmem, -⟩ | ⟨t₁, ha, hmem, heq⟩
      · exact absurd admitted (hno _)
      · obtain rfl := admitted.unique ha
        exact absurd hmem fresh
      · rw [heq]
        exact ⟨(changedResponse_finish con msg 201 201).mpr unanswerable,
          insert_ne_of_kept ha.kept hmem _⟩
  | destroy msg hk unanswerable removable =>
      rcases destroy_cases hk t with ⟨hno, -⟩ | ⟨hr, heq⟩
      · exact absurd removable hno
      · rw [heq]
        exact ⟨(changedResponse_finish con msg 200 204).mpr unanswerable,
          erase_ne_self hr.there⟩
  | delete client msg hk unanswerable there =>
      rcases delete_cases hk t with ⟨hno, -⟩ | ⟨hmem, heq⟩
      · exact absurd there hno
      · rw [heq]
        exact ⟨(changedResponse_finish con msg 200 204).mpr unanswerable, erase_ne_self hmem⟩

/-- No other request fails and has changed the table. -/
theorem spoils_of_changed (hfail : Fails (respond con req t).1)
    (hchanged : (respond con req t).2 ≠ t) : Spoils con t req := by
  cases request_kind con req with
  | get client msg hk =>
      rw [respond_get hk] at hchanged
      exact absurd rfl hchanged
  | list key msg hk =>
      rw [respond_list hk] at hchanged
      exact absurd rfl hchanged
  | refused o hrun hk =>
      rw [respond_refused hrun] at hchanged
      exact absurd rfl hchanged
  | put client msg hk =>
      rcases put_cases hk t with ⟨-, e, heq⟩ | ⟨t', ha, hs, e, heq⟩ | ⟨t', v, ha, hs, -, heq⟩
      · rw [heq] at hchanged
        exact absurd rfl hchanged
      · -- refused by `set`: only a new namespace is a change
        rw [heq] at hchanged
        cases ha with
        | found => exact absurd rfl hchanged
        | made made => exact .namespaceLeft client msg hk made hs
      · rw [heq] at hfail
        exact .put client msg hk ((changedResponse_finish con msg 201 201).mp hfail) t' ha hs
  | post msg hk =>
      rcases post_cases hk t with ⟨-, e, heq⟩ | ⟨t', -, -, heq⟩ | ⟨t', ha, hmem, heq⟩
      · rw [heq] at hchanged
        exact absurd rfl hchanged
      · rw [heq] at hfail
        obtain ⟨e, he⟩ := hfail
        exact nomatch he
      · rw [heq] at hfail
        exact .post msg hk ((changedResponse_finish con msg 201 201).mp hfail) t' ha hmem
  | destroy msg hk =>
      rcases destroy_cases hk t with ⟨-, e, heq⟩ | ⟨hr, heq⟩
      · rw [heq] at hchanged
        exact absurd rfl hchanged
      · rw [heq] at hfail
        exact .destroy msg hk ((changedResponse_finish con msg 200 204).mp hfail) hr
  | delete client msg hk =>
      rcases delete_cases hk t with ⟨-, heq⟩ | ⟨hmem, heq⟩
      · rw [heq] at hchanged
        exact absurd rfl hchanged
      · rw [heq] at hfail
        exact .delete client msg hk ((changedResponse_finish con msg 200 204).mp hfail) hmem

/-- **HEADLINE — failed requests change nothing**, exactly when the request is
    none of these: a PUT that makes the namespace and cannot store its value,
    or a PUT, POST or DELETE that is carried out and cannot be answered. -/
theorem failure_unchanged_iff (con : Secrets) (t : Table) (req : Request) :
    (Fails (respond con req t).1 → (respond con req t).2 = t) ↔ ¬ Spoils con t req := by
  constructor
  · intro h hspoils
    obtain ⟨hfail, hchanged⟩ := spoiled hspoils
    exact hchanged (h hfail)
  · intro h hfail
    by_contra hchanged
    exact h (spoils_of_changed hfail hchanged)

/-- A PUT whose key ends in a slash fails in `set`, after it has made the
    namespace. -/
theorem namespace_left_behind :
    ¬ (Fails (respond simpleSecrets (putBytes "u" ["u", "x/"] [65]) ∅).1 →
      (respond simpleSecrets (putBytes "u" ["u", "x/"] [65]) ∅).2 = ∅) := by
  intro h
  have hempty := h ⟨_, rfl⟩
  have hleft : "keys/u".toList ∈ (respond simpleSecrets (putBytes "u" ["u", "x/"] [65]) ∅).2 := by
    decide
  rw [hempty] at hleft
  exact AList.notMem_empty _ hleft

end FailureProofs
