import Custodia.SecretsRequests
import Custodia.Authorizers

/-! # IsolationProofs — which store keys a user can reach

    `UserNameSpace` confines a user to one subtree of the URL space; the store
    keys are built from the decoded trail. The keys stay in the subtree of the
    user exactly when decoding leaves the name alone and no later segment is
    absolute.

    * `inside_of_trail`: inside a subtree, all six operations stay inside;
    * `isolation_iff`: the condition is also necessary. -/

namespace IsolationProofs

open Interaction PosixPath SeparatedNames PyValues Unquote Messages SqliteStore
open SecretsConsumer SecretsCalls SecretsRequests Verdicts Pipeline Authorizers

/-- `'keys/' + user`. -/
def userRoot (user : Str) : Str := "keys".toList ++ slash :: user

/-! ## Keys of a user -/

/-- A name that is one path component. -/
theorem joinStep_keys {user : Str} (hslash : slash ∉ user) :
    joinStep "keys" user = userRoot user :=
  joinStep_inside (isAbsolute_of_not_mem hslash) (by decide) (by decide)

theorem endsInSlash_userRoot {user : Str} (hne : user ≠ []) (hslash : slash ∉ user) :
    endsInSlash (userRoot user) = false := by
  cases h : endsInSlash (userRoot user) with
  | false => rfl
  | true =>
      have hlast := endsInSlash_iff.mp h
      rw [userRoot, List.getLast?_append_of_ne_nil _ (List.cons_ne_nil slash user),
        List.getLast?_cons_of_ne_nil hne] at hlast
      exact absurd hlast (getLast?_ne_of_not_mem slash hslash)

/-- Relative segments after the user's name stay below the user's root. -/
theorem within_keys {user : Str} {p : List Str} (hne : user ≠ []) (hslash : slash ∉ user)
    (hp : ∀ s ∈ p, isAbsolute s = false) :
    Within slash (userRoot user) (join "keys" (user :: p)) := by
  rw [join_cons, joinStep_keys hslash]
  exact within_join (List.append_ne_nil_of_left_ne_nil (by decide) _)
    (endsInSlash_userRoot hne hslash) p _ hp (Or.inl rfl)

/-- **A request in the user's namespace stays in the user's subtree.** -/
theorem inside_of_trail {user : Str} {p : List Str} {con : Secrets} {req : Request}
    (hne : user ≠ []) (hslash : slash ∉ user) (hpne : p ≠ [])
    (hp : ∀ s ∈ p, isAbsolute s = false) (htrail : segments req = user :: p) :
    (handle con req).OnlyIssues (fun c => Within slash (userRoot user) c.key) := by
  have hentry : Within slash (userRoot user) (entryKey req) := by
    rw [entryKey, htrail]
    exact within_keys hne hslash hp
  refine onlyIssues_handle ?_ ?_ ?_ ?_
  · intro c _ hc
    rw [hc]
    exact hentry
  · intro key handler h
    have hdeep : 2 ≤ (segments req).length := by
      rw [htrail, List.length_cons]
      have := List.length_pos_iff.mpr hpne
      omega
    have hkey : key = entryKey req :=
      Except.ok.inj (h.keyed.symm.trans (dbContainerKey_of_le hdeep))
    show Within slash (userRoot user) key
    rw [hkey]
    exact hentry
  · intro trail hlen hpre c _ hc
    rw [htrail] at hpre
    match trail, hlen, hpre with
    | a :: b :: q, _, hpre =>
        obtain ⟨rfl, hq⟩ := List.cons_prefix_cons.mp hpre
        rw [hc, parentKey, List.dropLast_cons_of_ne_nil (List.cons_ne_nil b q),
          List.cons_append]
        refine within_keys hne hslash ?_
        intro s hs
        rcases List.mem_append.mp hs with hs | hs
        · exact hp s (hq.subset (List.dropLast_subset _ hs))
        · rw [List.mem_singleton.mp hs]
          rfl
  · exact within_rstrip (endsInSlash_userRoot hne hslash) hentry

/-! ## Reaching a key -/

/-- Some request for the path `raw` that `UserNameSpace` accepts for `user`,
    dispatched at the mount point, makes the consumer pass `key` to the
    store. -/
def Reaches (path user raw key : Str) : Prop :=
  ∃ (con : Secrets) (req : Request) (trail : List Str),
    req.path = raw ∧ req.remoteUser = some user
    ∧ (userNameSpaceHandle path req).1 = some true
    ∧ mountOf path ++ trail = parsePath raw
    ∧ (handle con (withTrail (userNameSpaceHandle path req).2 trail)).CanIssue
        (fun c => c.key = key)

/-- Decoding leaves the user's name alone, and no later segment of the decoded
    path is absolute. -/
def Contained (user rest : Str) : Prop :=
  unquote user = user ∧ ∀ s ∈ parsePath rest, isAbsolute s = false

theorem segments_withTrail {req : Request} {trail : List Str} (h : trail ≠ []) :
    segments (withTrail req trail) = trail := by
  rw [withTrail, if_neg h]
  rfl

/-- Contained paths reach only keys of the user. -/
theorem within_of_reaches {path user rest key : Str} (habs : isAbsolute path = true)
    (hne : user ≠ []) (hslash : slash ∉ user) (hcont : Contained user rest)
    (h : Reaches path user (namespaceOf path user ++ rest) key) :
    Within slash (userRoot user) key := by
  obtain ⟨con, req, trail, hpath, huser, hvote, hmount, hissue⟩ := h
  rcases userNameSpaceHandle_cases path req with ⟨hh, -⟩ | ⟨hh, -⟩ |
    ⟨name, hname, hpre, hns, hh⟩
  · rw [hh] at hvote
    exact nomatch hvote
  · rw [hh] at hvote
    exact nomatch hvote
  · rw [huser] at hname
    obtain rfl := Option.some.inj hname
    rw [hpath] at hpre hns
    obtain ⟨rest', hrest, htrail⟩ := trail_of_accepted habs hne hslash hpre hns hmount
    obtain rfl : rest = rest' := List.append_cancel_left hrest
    rw [hcont.1] at htrail
    have hseg : segments (withTrail (userNameSpaceHandle path req).2 trail)
        = user :: parsePath rest := by
      rw [segments_withTrail (by rw [htrail]; exact List.cons_ne_nil _ _), htrail]
    have honly : (handle con (withTrail (userNameSpaceHandle path req).2 trail)).OnlyIssues
        (fun c => Within slash (userRoot user) c.key) :=
      inside_of_trail hne hslash (parsePath_ne_nil rest) hcont.2 hseg
    obtain ⟨c, hwithin, hkey⟩ := Prog.of_canIssue honly hissue
    rw [← hkey]
    exact hwithin

/-- `UserNameSpace` accepts the path `raw` for `user`, and its chain lies below
    the mount point. -/
def Addressed (path user raw : Str) : Prop :=
  path <+: raw ∧ namespaceOf path user <+: raw ∧ mountOf path <+: parsePath raw

theorem parseQuery_plain (raw user name : Str) (trail : List Str) :
    parseQuery ⟨default, .missing⟩
        (withTrail { plainRequest raw user with defaultNamespace := some user } trail) name
      = .ok (.simpleKey (some name) (.ofText [])) := by
  rw [withTrail]
  split_ifs <;> rfl

/-- A plain GET passes the key of its trail to the store. -/
theorem plain_get_reaches {path user rest : Str} (habs : isAbsolute path = true)
    (hne : user ≠ []) (hslash : slash ∉ user)
    (haddr : Addressed path user (namespaceOf path user ++ rest)) :
    Reaches path user (namespaceOf path user ++ rest)
      (join "keys" (unquote user :: parsePath rest)) := by
  obtain ⟨hpre, hns, trail, hmount⟩ := haddr
  obtain ⟨rest', hrest, htrail⟩ := trail_of_accepted habs hne hslash hpre hns hmount
  obtain rfl : rest = rest' := List.append_cancel_left hrest
  have hvote : userNameSpaceHandle path (plainRequest (namespaceOf path user ++ rest) user)
      = (some true, { plainRequest (namespaceOf path user ++ rest) user with
          defaultNamespace := some user }) :=
    userNameSpaceHandle_accepts rfl hpre hns
  refine ⟨⟨default, .missing⟩, plainRequest (namespaceOf path user ++ rest) user, trail,
    rfl, rfl, by rw [hvote], hmount, ?_⟩
  rw [hvote]
  have htne : trail ≠ [] := by rw [htrail]; exact List.cons_ne_nil _ _
  have hmsg := parseQuery_plain (namespaceOf path user ++ rest) user
  have hcmd : ∀ t, (withTrail { plainRequest (namespaceOf path user ++ rest) user with
      defaultNamespace := some user } t).command = "GET".toList := by
    intro t
    rw [withTrail]
    split_ifs <;> rfl
  have hname : clientName (withTrail { plainRequest (namespaceOf path user ++ rest) user with
      defaultNamespace := some user } trail) = .ok user := by
    rw [withTrail]
    split_ifs <;> rfl
  have hdeep : 2 ≤ trail.length := by
    rw [htrail, List.length_cons]
    have := List.length_pos_iff.mpr (parsePath_ne_nil rest)
    omega
  have hseg : segments (withTrail { plainRequest (namespaceOf path user ++ rest) user with
      defaultNamespace := some user } trail) = trail := segments_withTrail htne
  rw [← htrail]
  by_cases hcont : namesContainer trail
  · -- a trailing slash makes it a listing, under the same key
    have h : Lists ⟨default, .missing⟩ (withTrail
        { plainRequest (namespaceOf path user ++ rest) user with
          defaultNamespace := some user } trail) (join "keys" trail) _ :=
      ⟨hcmd trail, by rw [hseg]; exact Or.inr hcont,
        by rw [hseg]; exact dbContainerKey_of_le hdeep, hmsg _ trail⟩
    rw [handle_list h]
    exact Or.inl rfl
  · have h : Gets ⟨default, .missing⟩ (withTrail
        { plainRequest (namespaceOf path user ++ rest) user with
          defaultNamespace := some user } trail) user _ :=
      ⟨hcmd trail, by rw [hseg]; exact hdeep, by rw [hseg]; exact hcont, hname, hmsg _ trail⟩
    rw [handle_get h]
    refine Or.inl ?_
    show entryKey _ = _
    rw [entryKey, hseg]

/-! ## The condition is necessary -/

/-- An absolute key is in nobody's subtree. -/
theorem not_within_of_absolute {user key : Str} (h : isAbsolute key = true) :
    ¬ Within slash (userRoot user) key := by
  obtain ⟨t, rfl⟩ := isAbsolute_iff.mp h
  rintro (heq | hpre)
  · exact absurd (List.cons.inj heq).1 (by decide)
  · exact absurd (List.cons_prefix_cons.mp hpre).1 (by decide)

/-- A decoded name that is not the user's own leaves the user's subtree. -/
theorem not_within_of_decoded {user name : Str} {p : List Str} (hslash : slash ∉ user)
    (hname : name ≠ []) (hle : name.length ≤ user.length) (hdiff : name ≠ user)
    (hpne : p ≠ []) (hp : ∀ s ∈ p, isAbsolute s = false) :
    ¬ Within slash (userRoot user) (join "keys" (name :: p)) := by
  cases habs : isAbsolute name with
  | true => exact not_within_of_absolute (join_absolute List.mem_cons_self habs "keys")
  | false =>
      intro hwithin
      have hroot : joinStep "keys" name = "keys".toList ++ slash :: name :=
        joinStep_inside habs (by decide) (by decide)
      cases p with
      | nil => exact hpne rfl
      | cons b p =>
          have hb := hp b List.mem_cons_self
          -- what the key looks like below `keys/`
          obtain ⟨t, ht⟩ : ∃ t, join "keys" (name :: b :: p) = "keys".toList ++ slash :: (name ++ t)
              ∧ (slash ∈ name ∨ t.head? = some slash) := by
            by_cases hend : endsInSlash name = true
            · obtain ⟨t, ht⟩ := prefix_join (b :: p) (joinStep "keys" name) hp
              refine ⟨t, ?_, Or.inl (List.mem_of_getLast? (endsInSlash_iff.mp hend))⟩
              rw [join_cons, ← ht, hroot]
              simp
            · have hend' : endsInSlash ("keys".toList ++ slash :: name) = false := by
                cases h : endsInSlash ("keys".toList ++ slash :: name) with
                | false => rfl
                | true =>
                    have hlast := endsInSlash_iff.mp h
                    rw [List.getLast?_append_of_ne_nil _ (List.cons_ne_nil slash name),
                      List.getLast?_cons_of_ne_nil hname] at hlast
                    exact absurd (endsInSlash_iff.mpr hlast) hend
              obtain ⟨t, ht⟩ := prefix_join p
                (joinStep (joinStep "keys" name) b) (fun s hs => hp s (List.mem_cons_of_mem _ hs))
              refine ⟨slash :: b ++ t, ?_, Or.inr rfl⟩
              rw [join_cons, join_cons, ← ht, hroot,
                joinStep_inside hb (List.append_ne_nil_of_left_ne_nil (by decide) _) hend']
              simp
          obtain ⟨hkey, hsep⟩ := ht
          rw [hkey] at hwithin
          have hfirst := firstName_of_within slash hslash hwithin
          by_cases hmem : slash ∈ name
          · -- up to its first slash the name would be the longer user's name
            obtain ⟨l, r, hsplit, hl⟩ := List.eq_append_cons_of_mem hmem
            have hself : firstName slash (l ++ slash :: (r ++ t)) = l :=
              firstName_append slash hl (Or.inr rfl)
            rw [hsplit, List.append_assoc, List.cons_append, hself] at hfirst
            rw [hsplit, List.length_append, List.length_cons, hfirst] at hle
            omega
          · have hself : firstName slash (name ++ t) = name :=
              firstName_append slash hmem (Or.inr (hsep.resolve_left hmem))
            rw [hself] at hfirst
            exact hdiff hfirst

/-! ## Isolation -/

/-- **HEADLINE — namespace isolation.** The requests of `user` for one path
    reach only keys at or below `keys/user` exactly when the path is contained;
    and two users with contained paths have no key in common. -/
theorem isolation_iff {path user rest : Str} (habs : isAbsolute path = true)
    (hne : user ≠ []) (hslash : slash ∉ user)
    (haddr : Addressed path user (namespaceOf path user ++ rest)) :
    ((∀ key, Reaches path user (namespaceOf path user ++ rest) key →
        Within slash (userRoot user) key) ↔ Contained user rest)
    ∧ (Contained user rest → ∀ other rest' key, other ≠ [] → slash ∉ other → other ≠ user →
        Contained other rest' → Reaches path user (namespaceOf path user ++ rest) key →
        ¬ Reaches path other (namespaceOf path other ++ rest') key) := by
  refine ⟨⟨?_, ?_⟩, ?_⟩
  · intro hall
    have hwithin := hall _ (plain_get_reaches habs hne hslash haddr)
    -- an absolute segment anywhere would make the whole key absolute
    have hrel : ∀ s ∈ parsePath rest, isAbsolute s = false := by
      intro s hs
      cases h : isAbsolute s with
      | false => rfl
      | true =>
          have hkey := join_absolute (List.mem_cons_of_mem (unquote user) hs) h "keys"
          exact absurd hwithin (not_within_of_absolute hkey)
    refine ⟨?_, hrel⟩
    by_contra hdiff
    exact not_within_of_decoded hslash (unquote_ne_nil hne) (length_unquote_le user) hdiff
      (parsePath_ne_nil rest) hrel hwithin
  · intro hcont key hreach
    exact within_of_reaches habs hne hslash hcont hreach
  · intro hcont other rest' key hone hoslash hdiff hocont hreach hother
    have hmine := within_of_reaches habs hne hslash hcont hreach
    have htheirs := within_of_reaches habs hone hoslash hocont hother
    exact hdiff (within_disjoint slash hoslash hslash htheirs hmine)

/-- A segment that decodes to an absolute path component discards `keys/u`:
    users `u` and `v` both reach a key outside of either subtree. -/
theorem isolation_escapes_absolute :
    Reaches "/secrets/" "u" "/secrets/u/%2Fkeys/v/key" "/keys/v/key"
    ∧ Reaches "/secrets/" "v" "/secrets/v/%2Fkeys/v/key" "/keys/v/key"
    ∧ ¬ Within slash (userRoot "u") "/keys/v/key" := by
  refine ⟨?_, ?_, not_within_of_absolute rfl⟩
  · have haddr : Addressed "/secrets/" "u"
        (namespaceOf "/secrets/" "u" ++ "%2Fkeys/v/key".toList) :=
      ⟨by decide, by decide, by decide⟩
    exact plain_get_reaches (by decide) (by decide) (by decide) haddr
  · have haddr : Addressed "/secrets/" "v"
        (namespaceOf "/secrets/" "v" ++ "%2Fkeys/v/key".toList) :=
      ⟨by decide, by decide, by decide⟩
    exact plain_get_reaches (by decide) (by decide) (by decide) haddr

/-- An ordinary path of user `u`. -/
theorem isolation_plain :
    (∀ key, Reaches "/secrets/" "u" "/secrets/u/key" key → Within slash (userRoot "u") key)
    ∧ ∀ key, Reaches "/secrets/" "u" "/secrets/u/key" key →
        ¬ Reaches "/secrets/" "v" "/secrets/v/key" key := by
  have habs : isAbsolute "/secrets/".toList = true := by decide
  have hu : Contained "u" "key" := ⟨by decide, by decide⟩
  have hv : Contained "v" "key" := ⟨by decide, by decide⟩
  have haddr : Addressed "/secrets/" "u" (namespaceOf "/secrets/" "u" ++ "key".toList) :=
    ⟨by decide, by decide, by decide⟩
  have h := isolation_iff habs (by decide) (by decide) haddr
  refine ⟨h.1.mpr hu, ?_⟩
  intro key hreach
  exact h.2 hu "v" "key" key (by decide) (by decide) (by decide) hv hreach

end IsolationProofs
