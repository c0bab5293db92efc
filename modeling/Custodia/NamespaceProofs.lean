import Custodia.ContainerTreeProofs
import Custodia.SecretsEffects
import Custodia.ListingProofs
import Custodia.Machines
import Custodia.Namespace

/-! # NamespaceProofs — the consumer over its table is a namespace

    `Secrets` keeps secrets in a flat table of spelled keys, looks for parents
    with a pattern search and decides by row values. Read as a tree, the table
    moves as the abstract namespace does, and what is answered to a request is
    the answer of the namespace, with its code and its audit record.

    * `Asks`: the operation a request asks for;
    * `Shows`: the outcome an answer is reported by;
    * `respond_refines`: one request;
    * `secrets_refine_namespace`: every run. -/

namespace NamespaceProofs

open PosixPath SeparatedNames PyValues Messages SqliteStore SecretsConsumer SecretsCalls
open SecretsRequests SecretsRuns SecretsEffects StoreTree ContainerTree ContainerTreeProofs
open ListingProofs Namespace

/-! ## Requests as operations -/

/-- The path a request is about; without one it is about the caller's own
    container. -/
def address (req : Request) : List Str :=
  if segments req = [] ∨ segments req = [[]] then req.defaultNamespace.toList
  else if namesContainer (segments req) then (segments req).dropLast
  else segments req

/-- The names of the path are proper, none being empty or with a slash in it,
    and its key is short enough to be searched for by `LIKE`. -/
structure Addressed (req : Request) : Prop where
  plain : Plain (address req)
  fits : utf8Length (keyOf (address req)) < likePatternLimit

/-- The operation a request asks for, by its kind. A value that cannot be bound
    to a column is `none`, and a request that is refused at once asks for
    nothing. -/
inductive Asks (con : Secrets) (req : Request) : Op Str SqlValue → Prop where
  | read {client msg} (h : Gets con req client msg) : Asks con req (.read (address req))
  | list {key msg} (h : Lists con req key msg) : Asks con req (.list (address req))
  | store {client msg} (h : Puts con req client msg) :
      Asks con req (.store req.defaultNamespace (address req)
        (bindValue setErrorText msg.payload).toOption)
  | make {msg} (h : Posts con req msg) :
      Asks con req (.make req.defaultNamespace (address req))
  | destroy {msg} (h : Destroys con req msg) : Asks con req (.destroy (address req))
  | remove {client msg} (h : Deletes con req client msg) : Asks con req (.remove (address req))
  | nothing {o} (hrun : handle con req = .ret o) : Asks con req .nothing

/-- Every request asks for some operation, if only for none: its kind says
    which. -/
theorem exists_asks (con : Secrets) (req : Request) : ∃ op, Asks con req op := by
  cases request_kind con req with
  | get client msg h => exact ⟨_, .read h⟩
  | list key msg h => exact ⟨_, .list h⟩
  | put client msg h => exact ⟨_, .store h⟩
  | post msg h => exact ⟨_, .make h⟩
  | destroy msg h => exact ⟨_, .destroy h⟩
  | delete client msg h => exact ⟨_, .remove h⟩
  | refused o hrun h => exact ⟨_, .nothing hrun⟩

/-- The names of a listing: the paths below, sorted, each container and every
    other falsy value with a slash. -/
structure Named (below : Entries Str SqlValue) (names : List Str) : Prop where
  sorted : names.Pairwise (· ≤ ·)
  named : ∃ tails : List (List Str × SqlValue), tails.Nodup
    ∧ (∀ tail v, (tail, v) ∈ tails ↔ below tail = some v)
    ∧ names.Perm (tails.map (fun x =>
        if x.2.falsy then spell slash x.1 ++ [slash] else spell slash x.1))

/-- The outcome by which an answer is reported to the request: the response or
    the error, and what is recorded of it. Each answer has one for each kind of
    request. -/
inductive Shows (con : Secrets) (req : Request) :
    Op Str SqlValue → Ans Str SqlValue → Outcome → Prop where
  | entry {client msg p found} (h : Gets con req client msg) :
      Shows con req (.read p) (.entry found)
        (recorded auditGetAllowed auditGetDenied client (segments req)
          (getFinish con req msg (.ok (found.getD .null))))
  | listed {key msg p below names} (h : Lists con req key msg) (hnames : Named below names) :
      Shows con req (.list p) (.listed below) (plain (listFinish con msg (.ok (some names))))
  | unlisted {key msg p} (h : Lists con req key msg) :
      Shows con req (.list p) .unknown (plain (.error (.http 404 none)))
  | stored {client msg own p value} (h : Puts con req client msg) :
      Shows con req (.store own p value) .made
        (recorded auditSetAllowed auditSetDenied client (segments req)
          (changedResponse con msg 201 201))
  | taken {client msg own p value} (h : Puts con req client msg) :
      Shows con req (.store own p value) .taken
        (recorded auditSetAllowed auditSetDenied client (segments req) (.error (.http 409 none)))
  | orphan {client msg own p value} (h : Puts con req client msg) :
      Shows con req (.store own p value) .orphan
        (recorded auditSetAllowed auditSetDenied client (segments req) (.error (.http 404 none)))
  | unstorable {client msg own p value e} (h : Puts con req client msg)
      (hbind : bindValue setErrorText msg.payload = .error e) :
      Shows con req (.store own p value) .unstorable
        (recorded auditSetAllowed auditSetDenied client (segments req) (.error (setError e)))
  | made {msg own p} (h : Posts con req msg) :
      Shows con req (.make own p) .made (plain (changedResponse con msg 201 201))
  | present {msg own p} (h : Posts con req msg) :
      Shows con req (.make own p) .taken (plain (.ok ⟨some 200, none, .json .null⟩))
  | lost {msg own p} (h : Posts con req msg) :
      Shows con req (.make own p) .orphan (plain (.error (.http 404 none)))
  | destroyed {msg p} (h : Destroys con req msg) :
      Shows con req (.destroy p) .gone (plain (changedResponse con msg 200 204))
  | occupied {msg p} (h : Destroys con req msg) :
      Shows con req (.destroy p) .occupied (plain (.error (.http 409 none)))
  | undestroyed {msg p} (h : Destroys con req msg) :
      Shows con req (.destroy p) .unknown (plain (.error (.http 404 none)))
  | removed {client msg p} (h : Deletes con req client msg) :
      Shows con req (.remove p) .gone
        (recorded auditDelAllowed auditDelDenied client (segments req)
          (changedResponse con msg 200 204))
  | unremoved {client msg p} (h : Deletes con req client msg) :
      Shows con req (.remove p) .unknown
        (recorded auditDelAllowed auditDelDenied client (segments req) (.error (.http 404 none)))
  | nothing {o} (hrun : handle con req = .ret o) : Shows con req .nothing .nothing o

/-! ## Addresses -/

section Addresses

variable {con : Secrets} {req : Request} {client key : Str} {msg : Handler}

/-- Two segments are more than a request for the default namespace has. -/
theorem segments_ne_of_deep (h : 2 ≤ (segments req).length) :
    ¬ (segments req = [] ∨ segments req = [[]]) := by
  rintro (heq | heq) <;> rw [heq] at h <;> exact absurd h (by decide)

/-- The address of a request for an entry is the list of its segments. -/
theorem address_entry (hdeep : 2 ≤ (segments req).length)
    (hentry : ¬ namesContainer (segments req)) : address req = segments req := by
  rw [address, if_neg (segments_ne_of_deep hdeep), if_neg hentry]

/-- The address of a request for a container leaves out the empty segment at its
    end. -/
theorem address_container (hdeep : 2 ≤ (segments req).length)
    (hcont : namesContainer (segments req)) : address req = (segments req).dropLast := by
  rw [address, if_neg (segments_ne_of_deep hdeep), if_pos hcont]

/-- The segments of a request for a container are its address and the empty
    segment. -/
theorem segments_container (hdeep : 2 ≤ (segments req).length)
    (hcont : namesContainer (segments req)) : segments req = address req ++ [[]] := by
  rw [address_container hdeep hcont]
  exact (List.dropLast_append_getLast? [] hcont).symm

/-- The key of a request for an entry is the key of its address. -/
theorem entryKey_of_entry (hreq : Addressed req) (hdeep : 2 ≤ (segments req).length)
    (hentry : ¬ namesContainer (segments req)) : entryKey req = keyOf (address req) := by
  have haddress := address_entry hdeep hentry
  exact entryKey_entry ⟨hreq.plain, Or.inl haddress.symm⟩ hentry

/-- The key of a request for a container is that of its address, with a slash
    behind it. -/
theorem entryKey_of_container (hreq : Addressed req) (hdeep : 2 ≤ (segments req).length)
    (hcont : namesContainer (segments req)) : entryKey req = keyOf (address req) ++ [slash] :=
  entryKey_container ⟨hreq.plain, Or.inr (segments_container hdeep hcont)⟩ hcont

/-- Without the slash, the key of a request for a container is the key of its
    address, which is the row of the container. -/
theorem rstrip_of_container (hreq : Addressed req) (hdeep : 2 ≤ (segments req).length)
    (hcont : namesContainer (segments req)) : rstrip (entryKey req) = keyOf (address req) :=
  rstrip_entryKey ⟨hreq.plain, Or.inr (segments_container hdeep hcont)⟩ hcont

/-- The key of a listing is that of its path, with a slash. -/
theorem listKey (hreq : Addressed req) (h : Lists con req key msg) :
    key = keyOf (address req) ++ [slash] := by
  have hkeyed := h.keyed
  unfold dbContainerKey at hkeyed
  split_ifs at hkeyed with hdeep hname
  · have hcont : namesContainer (segments req) := by
      rcases h.container with hnil | hcont
      · rw [hnil] at hdeep
        exact absurd hdeep (by decide)
      · exact hcont
    obtain ⟨-, rfl⟩ := dbKey_ok hkeyed
    exact entryKey_of_container hreq (by omega) hcont
  · have htop : segments req = [] ∨ segments req = [[]] := by
      match hseg : segments req, hdeep, hname with
      | [], _, _ => exact Or.inl rfl
      | [a], _, hname =>
          obtain rfl : a = [] := by
            by_contra hne
            exact hname ⟨rfl, by simpa using hne⟩
          exact Or.inr rfl
      | _ :: _ :: _, hdeep, _ => exact absurd (by simp) hdeep
    have haddress : address req = req.defaultNamespace.toList := if_pos htop
    cases hdefault : req.defaultNamespace with
    | none => rw [hdefault] at hkeyed; cases hkeyed
    | some own =>
        rw [hdefault] at hkeyed haddress
        obtain ⟨-, rfl⟩ := dbKey_ok hkeyed
        rw [haddress]
        have hplain : Plain [own] := by
          rw [← Option.toList_some, ← haddress]
          exact hreq.plain
        exact join_keyOf_slash hplain

end Addresses

/-! ## Searching -/

variable {t : Table} {p : List Str}

/-- The encoded length of a text is the sum over its parts. -/
theorem utf8Length_append (s r : Str) : utf8Length (s ++ r) = utf8Length s + utf8Length r := by
  rw [utf8Length, List.map_append, List.sum_append]
  rfl

/-- A path whose key fits is searched for. -/
theorem not_tooLong (hfits : utf8Length (keyOf p) < likePatternLimit)
    {keyfilter : Str} (hkey : rstrip keyfilter = keyOf p) : ¬ TooLong t keyfilter := by
  rintro ⟨hlong, -⟩
  rw [hkey, utf8Length_append] at hlong
  have hpercent : utf8Length ['%'] = 1 := by decide
  omega

/-- The key of the parent is no longer. -/
theorem parent_fits (hfits : utf8Length (keyOf p) < likePatternLimit) :
    utf8Length (keyOf p.dropLast) < likePatternLimit := by
  by_cases hnil : p = []
  · rw [hnil] at hfits ⊢
    exact hfits
  · have hkey : keyOf p = keyOf p.dropLast ++ slash :: p.getLast hnil := by
      have hsplit : rooted p = rooted p.dropLast ++ [p.getLast hnil] := by
        rw [rooted, rooted, List.cons_append, List.dropLast_append_getLast hnil]
      rw [keyOf, hsplit, spell_append slash (rooted_ne_nil _) (List.cons_ne_nil _ _),
        spell_singleton]
      rfl
    rw [hkey, utf8Length_append] at hfits
    omega

/-- What the tree knows at or below a path, the table has a row for. -/
theorem present_iff_rows (ht : Spelled t) (hp : Plain p) :
    Present (treeOf t) p ↔ HasChild t (keyOf p) ∨ HasParent t (keyOf p) := by
  rw [Present, hasChild_iff ht hp, hasParent_iff ht hp, treeOf_ne_none, or_comm]
  exact or_congr_right (and_iff_right hp)

/-- **The parent check is the one of the namespace.** -/
theorem parentCheck_refines (ht : Spelled t) (hp : Plain p)
    (hfits : utf8Length (keyOf p) < likePatternLimit) (own : Option Str) :
    (grant emptyValue own p (treeOf t) = none
      ∧ parentCheck t own p = .error (.http 404 none))
    ∨ ∃ t', Spelled t' ∧ grant emptyValue own p (treeOf t) = some (treeOf t')
      ∧ parentCheck t own p = .ok t' := by
  have hplain := plain_dropLast hp
  have hkey : rstrip (parentKey p) = keyOf p.dropLast := rstrip_parentKey hp
  have hpresent := present_iff_rows ht hplain
  rw [← hkey] at hpresent
  rw [grant]
  rcases parentCheck_cases t own p with ⟨hlong, -⟩ | ⟨-, hfound, hcheck⟩ |
    ⟨-, hnc, hnp, hown, hcheck⟩ | ⟨hnc, hnp, hown, hcheck⟩
  · exact absurd hlong (not_tooLong (parent_fits hfits) hkey)
  · rw [if_pos (hpresent.mpr hfound)]
    exact Or.inr ⟨t, ht, rfl, hcheck⟩
  · rw [if_neg (fun h => (hpresent.mp h).elim hnc hnp)]
    refine Or.inr ⟨_, ?_, ?_, hcheck⟩
    · rw [hkey]
      exact spelled_insert ht hplain _
    · have hmake : p.length = 2 ∧ own = p.head? := hown
      rw [if_pos hmake, hkey, treeOf_insert hplain]
      rfl
  · have hmake : ¬ (p.length = 2 ∧ own = p.head?) := hown
    rw [if_neg (fun h => (hpresent.mp h).elim hnc hnp), if_neg hmake]
    exact Or.inl ⟨rfl, hcheck⟩

/-! ## Listings -/

/-- A row of the table is a key with the value that is found under it. -/
theorem mem_rows_lookup {key : Str} {v : SqlValue} :
    (key, v) ∈ rows t ↔ t.lookup key = some v := by
  rw [← Option.mem_def, AList.mem_lookup_iff, rows, List.mem_map]
  constructor
  · rintro ⟨e, he, heq⟩
    obtain ⟨rfl, rfl⟩ := Prod.mk.inj heq
    exact he
  · intro h
    exact ⟨⟨key, v⟩, h, rfl⟩

/-- The key of a path below another one is that one's key, a slash and the names
    of the rest. -/
theorem keyOf_append {tail : List Str} (htail : tail ≠ []) :
    keyOf (p ++ tail) = keyOf p ++ slash :: spell slash tail := by
  rw [keyOf, keyOf, rooted, rooted, ← List.cons_append]
  exact spell_append slash (List.cons_ne_nil _ _) htail

/-- Proper names spelled out do not begin with a slash. -/
theorem lstrip_spell {tail : List Str} (hplain : Plain tail) :
    lstrip (spell slash tail) = spell slash tail := by
  refine (trimLeft_eq_self_iff slash).mpr ?_
  cases tail with
  | nil => exact fun h => nomatch h
  | cons a rest =>
      obtain ⟨hne, hfree⟩ := hplain a List.mem_cons_self
      have hhead : (spell slash (a :: rest)).head? = a.head? := by
        cases rest with
        | nil => rw [spell_singleton]
        | cons b rest =>
            rw [spell_cons slash a (List.cons_ne_nil b rest), List.head?_append_of_ne_nil _ hne]
      rw [hhead]
      exact fun h => hfree (List.mem_of_mem_head? h)

/-- The names by which a key continues the key of a path. -/
def tailOf (p : List Str) (key : Str) : List Str :=
  (key.drop (keyOf p ++ [slash]).length).splitOn slash

/-- Cutting the key of the container off a key below it, with the slash, leaves
    the names of the rest. -/
theorem drop_keyOf {tail : List Str} (htail : tail ≠ []) :
    (keyOf (p ++ tail)).drop (keyOf p ++ [slash]).length = spell slash tail := by
  rw [keyOf_append htail, List.append_cons (keyOf p) slash (spell slash tail), List.drop_left]

/-- **Cutting a key and splitting what is left gives the path below the
    container back.** -/
theorem tailOf_keyOf {tail : List Str} (htail : tail ≠ []) (hplain : Plain (p ++ tail)) :
    tailOf p (keyOf (p ++ tail)) = tail := by
  rw [tailOf, drop_keyOf htail]
  exact splitOn_spell slash htail (fun s hs => (hplain s (List.mem_append_right p hs)).2)

/-- The rows below a path are those of the longer paths. -/
theorem mem_below (ht : Spelled t) (hp : Plain p) {row : Str × SqlValue} :
    row ∈ below t (keyOf p) ↔ ∃ tail, tail ≠ [] ∧ Plain (p ++ tail)
      ∧ row.1 = keyOf (p ++ tail) ∧ t.lookup (keyOf (p ++ tail)) = some row.2 := by
  rw [below, List.mem_filter, decide_eq_true_iff]
  constructor
  · rintro ⟨hrow, hpre, -⟩
    obtain ⟨names, hnames, hkey⟩ := ht row.1 (mem_rows.mp ⟨row.2, hrow⟩)
    rw [hkey] at hpre
    obtain ⟨tail, hne, hsplit⟩ := (below_spell slash (rooted_ne_nil p) (rooted_ne_nil names)
      (slash_free (plain_rooted hp)) (slash_free (plain_rooted hnames))).mp hpre
    obtain rfl : names = p ++ tail := (List.cons.inj hsplit).2
    exact ⟨tail, hne, hnames, hkey, hkey ▸ mem_rows_lookup.mp hrow⟩
  · rintro ⟨tail, hne, hplain, hkey, hlook⟩
    refine ⟨mem_rows_lookup.mpr (hkey ▸ hlook), ?_, ?_⟩
    · rw [hkey, keyOf_append hne]
      exact ⟨spell slash tail, by simp⟩
    · rw [hkey]
      exact keyOf_ne_concat hplain _

/-- The tree below a path holds at a rest what the whole tree holds at the path
    with that rest. -/
theorem under_eq {tail : List Str} (T : Entries Str SqlValue) (htail : tail ≠ []) :
    under T p tail = T (p ++ tail) := by
  cases tail with
  | nil => exact absurd rfl htail
  | cons a rest => rfl

/-- **A listing names what lies below the path.** -/
theorem named_below (ht : Spelled t) (hp : Plain p) {names : List Str}
    (hsorted : names.Pairwise (· ≤ ·))
    (hperm : names.Perm ((below t (keyOf p)).map (listedName SqlValue.falsy (keyOf p)))) :
    Named (under (treeOf t) p) names := by
  refine ⟨hsorted, (below t (keyOf p)).map (fun row => (tailOf p row.1, row.2)), ?_, ?_, ?_⟩
  · -- a row is known by the names of its key
    refine ((nodup_rows t).filter _).map_on ?_
    intro row hrow other hother heq
    obtain ⟨tail, hne, hplain, hkey, -⟩ := (mem_below ht hp).mp hrow
    obtain ⟨tail', hne', hplain', hkey', -⟩ := (mem_below ht hp).mp hother
    obtain ⟨htails, hvalues⟩ := Prod.mk.inj heq
    rw [hkey, hkey', tailOf_keyOf hne hplain, tailOf_keyOf hne' hplain'] at htails
    exact Prod.ext (by rw [hkey, hkey', htails]) hvalues
  · -- the rows found are exactly the entries below the path
    intro tail v
    rw [List.mem_map]
    constructor
    · rintro ⟨row, hrow, heq⟩
      obtain ⟨tail', hne, hplain, hkey, hlook⟩ := (mem_below ht hp).mp hrow
      obtain ⟨htail, rfl⟩ := Prod.mk.inj heq
      rw [hkey, tailOf_keyOf hne hplain] at htail
      subst htail
      rw [under_eq _ hne, treeOf_plain hplain]
      exact hlook
    · intro h
      have hne : tail ≠ [] := by
        rintro rfl
        cases h
      rw [under_eq _ hne] at h
      have hplain : Plain (p ++ tail) :=
        (treeOf_ne_none.mp (by rw [h]; exact Option.some_ne_none v)).1
      rw [treeOf_plain hplain] at h
      exact ⟨(keyOf (p ++ tail), v), (mem_below ht hp).mpr ⟨tail, hne, hplain, rfl, h⟩,
        by rw [tailOf_keyOf hne hplain]⟩
  · -- a row is listed by the rest of its key
    refine hperm.trans (List.Perm.of_eq ?_)
    rw [List.map_map]
    refine List.map_congr_left (fun row hrow => ?_)
    obtain ⟨tail, hne, hplain, hkey, -⟩ := (mem_below ht hp).mp hrow
    have htail : Plain tail := fun s hs => hplain s (List.mem_append_right p hs)
    simp only [Function.comp_apply, listedName, hkey, drop_keyOf hne, lstrip_spell htail,
      tailOf_keyOf hne hplain]

/-- What is listed is determined by what lies below. -/
theorem named_unique {below : Entries Str SqlValue} {names more : List Str}
    (h : Named below names) (h' : Named below more) : names = more := by
  obtain ⟨tails, hnodup, hmem, hperm⟩ := h.named
  obtain ⟨tails', hnodup', hmem', hperm'⟩ := h'.named
  have hsame : tails.Perm tails' := by
    refine (List.perm_ext_iff_of_nodup hnodup hnodup').mpr (fun x => ?_)
    exact (hmem x.1 x.2).trans (hmem' x.1 x.2).symm
  exact (hperm.trans ((hsame.map _).trans hperm'.symm)).eq_of_pairwise' h.sorted h'.sorted

/-! ## One request -/

section Step

variable {con : Secrets} {req : Request} {client key : Str} {msg : Handler}

/-- The outcome shows the answer, and the table it leaves is the tree after. -/
def Refines (con : Secrets) (req : Request) (op : Op Str SqlValue) (t : Table)
    (after : Outcome × Table) : Prop :=
  Shows con req op (act emptyValue op (treeOf t)).1 after.1
    ∧ Spelled after.2 ∧ treeOf after.2 = (act emptyValue op (treeOf t)).2

/-- A GET of a secret is a reading of the namespace at its address. -/
theorem refines_read (hreq : Addressed req) (ht : Spelled t) (h : Gets con req client msg) :
    Refines con req (.read (address req)) t (respond con req t) := by
  rw [respond_get h, entryKey_of_entry hreq h.deep h.entry, ← treeOf_plain hreq.plain]
  exact ⟨.entry h, ht, rfl⟩

/-- A GET of a container is a listing of the namespace there: the names that are
    shown spell the paths below it. -/
theorem refines_list (hreq : Addressed req) (ht : Spelled t) (h : Lists con req key msg) :
    Refines con req (.list (address req)) t (respond con req t) := by
  have hkey : key = keyOf (address req) ++ [slash] := listKey hreq h
  have hstrip : rstrip key = keyOf (address req) := by
    rw [hkey, rstrip_concat, rstrip_keyOf hreq.plain]
  have hspec : Specified SqlValue.falsy t key :=
    specified (by rw [hstrip]; exact keyOf_ne_nil hreq.plain) (not_tooLong hreq.fits hstrip)
  have hknown : ListingProofs.Known t (rstrip key) ↔ Present (treeOf t) (address req) := by
    rw [hstrip, known_iff (keyOf_ne_nil hreq.plain), present_iff_rows ht hreq.plain]
  rw [respond_list h, Refines, act]
  by_cases hpresent : Present (treeOf t) (address req)
  · obtain ⟨names, hlist, hsorted, hperm⟩ := hspec.names (hknown.mpr hpresent)
    rw [hstrip] at hperm
    rw [if_pos hpresent, hlist]
    exact ⟨.listed h (named_below ht hreq.plain hsorted hperm), ht, rfl⟩
  · rw [if_neg hpresent, hspec.none_iff.mpr (fun hk => hpresent (hknown.mp hk))]
    exact ⟨.unlisted h, ht, rfl⟩

/-- A PUT is a storing of its bound value. The parent check on the table and
    that of the tree agree case by case. -/
theorem refines_store (hreq : Addressed req) (ht : Spelled t) (h : Puts con req client msg) :
    Refines con req (.store req.defaultNamespace (address req)
      (bindValue setErrorText msg.payload).toOption) t (respond con req t) := by
  have haddress : address req = segments req := address_entry h.deep h.entry
  have hp : Plain (segments req) := haddress ▸ hreq.plain
  have hkey : entryKey req = keyOf (segments req) := by
    rw [entryKey_of_entry hreq h.deep h.entry, haddress]
  have hopen : endsInSlash (entryKey req) = false := by rw [hkey, endsInSlash_keyOf hp]
  rw [respond_put h, Refines, act, haddress]
  -- the parent check comes first, and may have made the default namespace
  rcases parentCheck_refines ht hp (haddress ▸ hreq.fits) req.defaultNamespace with
    ⟨hgrant, hcheck⟩ | ⟨t', ht', hgrant, hcheck⟩
  · rw [hgrant, hcheck]
    exact ⟨.orphan h, ht, rfl⟩
  · rw [hgrant, hcheck]
    cases hbind : bindValue setErrorText msg.payload with
    | error e =>
        simp only [exec_set_unbound hopen hbind]
        exact ⟨.unstorable h hbind, ht', rfl⟩
    | ok v =>
        show Shows con req _ (add (segments req) v (treeOf t')).1 _ ∧ Spelled _
          ∧ treeOf _ = (add (segments req) v (treeOf t')).2
        rw [add, treeOf_plain hp, ← hkey]
        by_cases hmem : entryKey req ∈ t'
        · rw [if_neg (fun hnone => AList.lookup_eq_none.mp hnone hmem)]
          simp only [exec_set_mem hopen hbind hmem]
          exact ⟨.taken h, ht', trivial⟩
        · rw [if_pos (AList.lookup_eq_none.mpr hmem)]
          simp only [exec_set_not_mem hopen hbind hmem]
          rw [hkey]
          exact ⟨.stored h, spelled_insert ht' hp v, treeOf_insert hp t' v⟩

/-- The end of a POST, from a table that its parent check has left. -/
theorem refines_span (hreq : Addressed req) (h : Posts con req msg) {t' : Table}
    (ht' : Spelled t') :
    Shows con req (.make req.defaultNamespace (address req))
        (add (address req) emptyValue (treeOf t')).1
        (plain (spanFinish con msg (exec (.span (entryKey req)) t').1))
      ∧ Spelled (exec (.span (entryKey req)) t').2
      ∧ treeOf (exec (.span (entryKey req)) t').2
        = (add (address req) emptyValue (treeOf t')).2 := by
  have hkey := rstrip_of_container hreq h.deep h.container
  rw [add, treeOf_plain hreq.plain, ← hkey]
  by_cases hmem : rstrip (entryKey req) ∈ t'
  · rw [if_neg (fun hnone => AList.lookup_eq_none.mp hnone hmem), exec_span_mem hmem]
    exact ⟨.present h, ht', rfl⟩
  · rw [if_pos (AList.lookup_eq_none.mpr hmem), exec_span_not_mem hmem, hkey]
    exact ⟨.made h, spelled_insert ht' hreq.plain _, treeOf_insert hreq.plain t' _⟩

/-- A POST is the making of a container, below its parent or at the top. -/
theorem refines_make (hreq : Addressed req) (ht : Spelled t) (h : Posts con req msg) :
    Refines con req (.make req.defaultNamespace (address req)) t (respond con req t) := by
  have haddress : address req = (segments req).dropLast := address_container h.deep h.container
  have hlength : (address req).length = (segments req).length - 1 := by
    rw [haddress, List.length_dropLast]
  have hdeep := h.deep
  rw [Refines, act]
  -- a container at the top has no parent to be checked
  by_cases htop : (segments req).length = 2
  · rw [if_pos (by omega), respond_post_top h htop]
    exact refines_span hreq h ht
  · rw [if_neg (by omega), respond_post_below h (by omega), ← haddress]
    rcases parentCheck_refines ht hreq.plain hreq.fits req.defaultNamespace with
      ⟨hgrant, hcheck⟩ | ⟨t', ht', hgrant, hcheck⟩
    · rw [hgrant, hcheck]
      exact ⟨.lost h, ht, rfl⟩
    · rw [hgrant, hcheck]
      exact refines_span hreq h ht'

/-- A DELETE of a container is a destroying, which only an empty one allows. -/
theorem refines_destroy (hreq : Addressed req) (ht : Spelled t) (h : Destroys con req msg) :
    Refines con req (.destroy (address req)) t (respond con req t) := by
  have hkey := rstrip_of_container hreq h.deep h.container
  have hshort : ¬ TooLong t (entryKey req) := not_tooLong hreq.fits hkey
  rw [respond_destroy h, Refines, act]
  -- `list` is asked before the row is cut: it finds children, or the row alone, or neither
  rcases listing_cases t (entryKey_ne_nil h.container) with ⟨hlong, -⟩ |
    ⟨-, hchild, names, hne, hlist⟩ | ⟨-, hnc, hparent, hlist⟩ | ⟨-, hnc, hnp, hlist⟩
  · exact absurd hlong hshort
  · rw [hkey, hasChild_iff ht hreq.plain] at hchild
    rw [if_pos hchild, hlist]
    cases names with
    | nil => exact absurd rfl hne
    | cons a l => exact ⟨.occupied h, ht, rfl⟩
  · rw [hkey, hasChild_iff ht hreq.plain] at hnc
    rw [hkey, hasParent_iff ht hreq.plain] at hparent
    rw [if_neg hnc, hlist, hkey, takeAway, treeOf_plain hreq.plain,
      if_neg (fun hnone => AList.lookup_eq_none.mp hnone hparent)]
    simp only [exec_cut_mem hparent, cutFinish]
    exact ⟨.destroyed h, spelled_erase ht _, treeOf_erase hreq.plain t⟩
  · rw [hkey, hasChild_iff ht hreq.plain] at hnc
    rw [hkey, hasParent_iff ht hreq.plain] at hnp
    rw [if_neg hnc, hlist, takeAway, treeOf_plain hreq.plain,
      if_pos (AList.lookup_eq_none.mpr hnp)]
    exact ⟨.undestroyed h, ht, rfl⟩

/-- A DELETE of a secret is a removing, and `cut` says whether there was
    something. -/
theorem refines_remove (hreq : Addressed req) (ht : Spelled t) (h : Deletes con req client msg) :
    Refines con req (.remove (address req)) t (respond con req t) := by
  rw [respond_delete h, entryKey_of_entry hreq h.deep h.entry, Refines, act, takeAway,
    treeOf_plain hreq.plain]
  by_cases hmem : keyOf (address req) ∈ t
  · rw [if_neg (fun hnone => AList.lookup_eq_none.mp hnone hmem)]
    simp only [exec_cut_mem hmem, cutFinish]
    exact ⟨.removed h, spelled_erase ht _, treeOf_erase hreq.plain t⟩
  · rw [if_pos (AList.lookup_eq_none.mpr hmem)]
    rw [exec_cut_not_mem hmem]
    exact ⟨.unremoved h, ht, rfl⟩

/-- **One request is one operation of the namespace.** -/
theorem respond_refines {op : Op Str SqlValue} (hreq : Addressed req) (hop : Asks con req op)
    (ht : Spelled t) : Refines con req op t (respond con req t) := by
  cases hop with
  | read h => exact refines_read hreq ht h
  | list h => exact refines_list hreq ht h
  | store h => exact refines_store hreq ht h
  | make h => exact refines_make hreq ht h
  | destroy h => exact refines_destroy hreq ht h
  | remove h => exact refines_remove hreq ht h
  | nothing hrun =>
      rw [respond_refused hrun]
      exact ⟨.nothing hrun, ht, rfl⟩

end Step

/-! ## Runs of requests -/

open Machines

/-- Every run of requests asks for some run of operations. -/
theorem exists_asks_all (vs : List Visit) :
    ∃ ops, List.Forall₂ (fun v op => Asks v.con v.req op) vs ops := by
  induction vs with
  | nil => exact ⟨[], .nil⟩
  | cons v vs ih =>
      obtain ⟨op, hop⟩ := exists_asks v.con v.req
      obtain ⟨ops, hops⟩ := ih
      exact ⟨op :: ops, .cons hop hops⟩

/-- **HEADLINE — the consumer refines the namespace**: every run of requests
    asks for some run of operations, and whichever it is, each outcome shows
    the answer the namespace gives, and the table at the end is its tree. -/
theorem secrets_refine_namespace (vs : List Visit) (hreqs : ∀ v ∈ vs, Addressed v.req)
    {t : Table} (ht : Spelled t) :
    (∃ ops, List.Forall₂ (fun v op => Asks v.con v.req op) vs ops)
    ∧ ∀ ops, List.Forall₂ (fun v op => Asks v.con v.req op) vs ops →
      Alike (fun v op o a => Shows v.con v.req op a o) vs ops
          (answers Visit.respond vs t) (answers (act emptyValue) ops (treeOf t))
        ∧ treeOf (after Visit.respond vs t) = after (act emptyValue) ops (treeOf t) := by
  refine ⟨exists_asks_all vs, fun ops hops => ?_⟩
  have hstep : Simulates Visit.respond (act emptyValue)
      (fun s T => Spelled s ∧ treeOf s = T)
      (fun v op => Addressed v.req ∧ Asks v.con v.req op)
      (fun v op o a => Shows v.con v.req op a o) := by
    rintro v op s T ⟨hreq, hop⟩ ⟨hs, rfl⟩
    exact respond_refines hreq hop hs
  have hboth : List.Forall₂ (fun v op => Addressed v.req ∧ Asks v.con v.req op) vs ops :=
    (List.forall₂_and_left vs ops).mpr ⟨hreqs, hops⟩
  obtain ⟨halike, -, htree⟩ := simulates hstep hboth ⟨ht, rfl⟩
  exact ⟨halike, htree⟩

/-- A PUT that makes its namespace, a POST below it, and a listing. -/
def freshRun : List Visit :=
  [⟨simpleSecrets, putBytes "u" ["u", "k"] [65]⟩,
    ⟨simpleSecrets, userRequest "POST" "u" ["u", "c", ""] [] none⟩,
    ⟨simpleSecrets, userRequest "GET" "u" ["u", ""] [] none⟩]

theorem secrets_refine_namespace_fresh :
    (∀ v ∈ freshRun, Addressed v.req) ∧ Spelled ∅
    ∧ ((∃ ops, List.Forall₂ (fun v op => Asks v.con v.req op) freshRun ops)
      ∧ ∀ ops, List.Forall₂ (fun v op => Asks v.con v.req op) freshRun ops →
        Alike (fun v op o a => Shows v.con v.req op a o) freshRun ops
            (answers Visit.respond freshRun ∅) (answers (act emptyValue) ops (treeOf ∅))
          ∧ treeOf (after Visit.respond freshRun ∅)
            = after (act emptyValue) ops (treeOf ∅)) := by
  have hrun : ∀ v ∈ freshRun, Addressed v.req := by
    simp only [freshRun, List.forall_mem_cons]
    exact ⟨⟨by decide, by decide⟩, ⟨by decide, by decide⟩, ⟨by decide, by decide⟩,
      fun v h => absurd h List.not_mem_nil⟩
  exact ⟨hrun, spelled_empty, secrets_refine_namespace freshRun hrun spelled_empty⟩

end NamespaceProofs
