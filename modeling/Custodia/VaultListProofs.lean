import Mathlib.Data.Finset.Insert
import Custodia.ListingProofs
import Custodia.VaultNameProofs
import Custodia.VaultWriteProofs

/-! # VaultListProofs — one container, listed by two stores

    `SqliteStore.list` answers with the rest of each key after the container,
    `IPAVault.list` with the last segment of each key that starts with the
    filter. A nested key is listed under two different names.

    * `vault_names`, `table_names`: both listings, over the stored keys;
    * `agree_iff`: the listings agree exactly if the container is flat. -/

namespace VaultListProofs

open Interaction SeparatedNames PosixPath PyValues SqliteStore IpaVault VaultNameProofs
open VaultWriteProofs

/-! ## The keys -/

/-- A key without underscores and without empty segments, so that the name of
    its vault can be read back, and no two such keys share a vault. -/
structure PlainKey (key : Str) : Prop where
  unmarked : '_' ∉ key
  segments : [] ∉ key.splitOn slash

instance (key : Str) : Decidable (PlainKey key) :=
  decidable_of_iff ('_' ∉ key ∧ [] ∉ key.splitOn slash)
    ⟨fun h => ⟨h.1, h.2⟩, fun h => ⟨h.unmarked, h.segments⟩⟩

/-- Both stores hold secrets under exactly these keys: there is a vault for each
    key and for no other, a row for each key and for no other, and no row is
    taken for a container. -/
structure SameKeys (keys : Finset Str) (vs : Vaults) (t : Table) : Prop where
  plain : ∀ key ∈ keys, PlainKey key
  vaults : ∀ name, name ∈ vs ↔ ∃ key ∈ keys, vaultName key = name
  rows : ∀ key, key ∈ t ↔ key ∈ keys
  secret : ∀ key v, t.lookup key = some v → v.falsy = false

/-- Both stores list the container with the same names, none of them twice,
    and each names a stored key; no such container counts as empty. -/
def Agree (keys : Finset Str) (vs : Vaults) (t : Table) (c : Str) : Prop :=
  ∃ names listed, ((IpaVault.list (some c)).run serve vs).1 = .ok names
    ∧ (SqliteStore.exec (.list c) t).1 = .ok listed
    ∧ names.Nodup ∧ names.Perm (listed.getD []) ∧ ∀ n ∈ names, c ++ n ∈ keys

/-- Every key below the container lies in it directly. -/
def Flat (keys : Finset Str) (c : Str) : Prop :=
  ∀ key ∈ keys, childPrefix (rstrip c) <+: key → ∃ n, slash ∉ n ∧ key = c ++ n

/-- Around a slash, a text is split on either side. -/
theorem splitOn_append_slash (a b : Str) :
    (a ++ slash :: b).splitOn slash = a.splitOn slash ++ b.splitOn slash := by
  obtain ⟨names, hn, hfree, rfl⟩ := exists_spell slash a
  obtain ⟨more, hm, hfree', rfl⟩ := exists_spell slash b
  have hboth : ∀ name ∈ names ++ more, slash ∉ name := by
    intro name hname
    rcases List.mem_append.mp hname with h | h
    · exact hfree name h
    · exact hfree' name h
  rw [← spell_append slash hn hm, splitOn_spell slash (by simp [hn]) hboth,
    splitOn_spell slash hn hfree, splitOn_spell slash hm hfree']

/-- A text that begins with a slash has an empty first segment. -/
theorem splitOn_slash (b : Str) : (slash :: b).splitOn slash = [] :: b.splitOn slash := by
  have hsplit := splitOn_append_slash [] b
  rwa [List.nil_append] at hsplit

/-- A text without empty segments starts with a segment. -/
theorem head_segment {b : Str} (h : [] ∉ b.splitOn slash) : b ≠ [] ∧ b.head? ≠ some slash := by
  constructor
  · rintro rfl
    exact h (by decide)
  · intro hhead
    cases b with
    | nil => cases hhead
    | cons x b =>
        obtain rfl := Option.some.inj hhead
        rw [splitOn_slash] at h
        exact h List.mem_cons_self

/-- Around a slash of the text there are segments. -/
theorem segments_around {a b : Str} (h : [] ∉ (a ++ slash :: b).splitOn slash) :
    [] ∉ a.splitOn slash ∧ [] ∉ b.splitOn slash := by
  rwa [splitOn_append_slash, List.mem_append, not_or] at h

/-- A container that some key lies in ends in one slash. -/
theorem childPrefix_of_plain {c n : Str} (hc : endsInSlash c = true) (h : PlainKey (c ++ n)) :
    c = childPrefix (rstrip c) := by
  obtain ⟨d, rfl⟩ := List.getLast?_eq_some_iff.mp (endsInSlash_iff.mp hc)
  have hkey := h.segments
  rw [List.append_assoc] at hkey
  obtain ⟨hd, -⟩ := segments_around hkey
  have hopen : d.getLast? ≠ some slash := by
    intro hlast
    obtain ⟨e, rfl⟩ := List.getLast?_eq_some_iff.mp hlast
    rw [List.append_assoc] at hkey
    exact (head_segment (segments_around hkey).2).2 rfl
  have htrim : rstrip d = d := (trimRight_eq_self_iff slash).mpr hopen
  rw [rstrip_concat, htrim, childPrefix, if_neg (head_segment hd).1]

/-- The rest of a key after the listed path. -/
def relative (path key : Str) : Str := lstrip (key.drop (childPrefix path).length)

/-- A key below the path is no row of the path itself, and it continues the
    path with its rest. -/
theorem relative_of_plain {path key : Str} (h : PlainKey key) (hpre : childPrefix path <+: key) :
    key ≠ path ∧ key ≠ childPrefix path ∧ key = childPrefix path ++ relative path key := by
  obtain ⟨rest, rfl⟩ := hpre
  have hrest : rest ≠ [] ∧ rest.head? ≠ some slash := by
    have hkey := h.segments
    by_cases hpath : path = []
    · rw [childPrefix, if_pos hpath, hpath, List.nil_append] at hkey
      exact head_segment hkey
    · rw [childPrefix, if_neg hpath, List.append_assoc] at hkey
      exact head_segment (segments_around hkey).2
  have hlonger : childPrefix path ++ rest ≠ childPrefix path := by
    intro heq
    exact hrest.1 (List.append_right_eq_self.mp heq)
  refine ⟨?_, hlonger, ?_⟩
  · intro heq
    have hle : (childPrefix path ++ rest).length ≤ (childPrefix path).length := by
      rw [heq]
      exact (prefix_childPrefix path).length_le
    rw [List.length_append] at hle
    exact hrest.1 (List.length_eq_zero_iff.mp (by omega))
  · rw [relative, List.drop_left, show lstrip rest = rest from
      (trimLeft_eq_self_iff slash).mpr hrest.2]

/-! ## Both listings, over the keys -/

/-- `key.rsplit('/', 1)[-1]`. -/
def lastSegment (key : Str) : Str := key.rtakeWhile (fun c => decide (c ≠ slash))

/-- **The name of a vault can be read back**, for a key without underscores. -/
theorem unmangled_vaultName {key : Str} (h : PlainKey key) : unmangled (vaultName key) = key := by
  have hmark {w : Str} (hw : '_' ∈ w) : ¬ w <:+: key := fun hin => h.unmarked (hin.subset hw)
  exact (decoded_iff (hmark (by decide))).mpr (hmark (by decide))

/-- Different plain keys are kept in different vaults. -/
theorem vaultName_injOn {key other : Str} (h : PlainKey key) (h' : PlainKey other)
    (heq : vaultName key = vaultName other) : key = other := by
  rw [← unmangled_vaultName h, heq, unmangled_vaultName h']

variable {keys : Finset Str} {vs : Vaults} {t : Table} {c : Str}

/-- The vaults are those of the keys. -/
theorem keys_perm_vaults (h : SameKeys keys vs t) :
    vs.keys.Perm (keys.toList.map vaultName) := by
  refine (List.perm_ext_iff_of_nodup vs.keys_nodup ?_).mpr ?_
  · refine List.Nodup.map_on ?_ keys.nodup_toList
    intro key hkey other hother
    exact vaultName_injOn (h.plain key (Finset.mem_toList.mp hkey))
      (h.plain other (Finset.mem_toList.mp hother))
  · intro name
    rw [← AList.mem_keys, h.vaults, List.mem_map]
    simp only [Finset.mem_toList]

/-- **What the vaults list**: the last segments of the keys that start with the
    filter. -/
theorem vault_names (h : SameKeys keys vs t) (c : Str) :
    ∃ names, ((IpaVault.list (some c)).run serve vs).1 = .ok names
      ∧ names.Perm ((keys.toList.filter (fun key => decide (c <+: key))).map lastSegment) := by
  refine ⟨listNames (some c) vs.keys, rfl, ?_⟩
  refine ((keys_perm_vaults h).filterMap _).trans (List.Perm.of_eq ?_)
  rw [List.filterMap_map, ← List.filterMap_eq_map, List.filterMap_filter]
  refine List.filterMap_congr ?_
  intro key hkey
  have hread := unmangled_vaultName (h.plain key (Finset.mem_toList.mp hkey))
  by_cases hpre : c <+: key
  · simp [hread, hpre, lastSegment]
  · simp [hread, hpre]

/-- The key is that of a child of the path. -/
def Below (path key : Str) : Prop :=
  (key ≠ path ∧ key ≠ childPrefix path) ∧ childPrefix path <+: key

instance (path key : Str) : Decidable (Below path key) := inferInstanceAs (Decidable (_ ∧ _))

/-- What `list` answers is what its loop has collected from all rows. -/
theorem listing_names {c : Str} (hc : c ≠ []) (hshort : ¬ TooLong t c) :
    ∃ listed, listing t c = .ok listed
      ∧ (listed.getD []).Perm (((rows t).filter (fun row => decide (Below (rstrip c) row.1))).map
          (childName (rstrip c))) := by
  have hfound : (ListingProofs.found t (rstrip c)).filter (fun row =>
        decide ((row.1 ≠ rstrip c ∧ row.1 ≠ childPrefix (rstrip c))
          ∧ childPrefix (rstrip c) <+: row.1))
      = (rows t).filter (fun row => decide (Below (rstrip c) row.1)) := by
    rw [ListingProofs.found, List.filter_filter]
    refine List.filter_congr ?_
    intro row _
    by_cases hbelow : Below (rstrip c) row.1
    · have hlike := like_of_prefix ((prefix_childPrefix (rstrip c)).trans hbelow.2)
      rw [hlike, Bool.and_true]
      rfl
    · rw [decide_eq_false hbelow]
      exact Bool.and_eq_false_imp.mpr (fun h => absurd (of_decide_eq_true h) hbelow)
  have hnone : ¬ HasChild t (rstrip c) →
      (rows t).filter (fun row => decide (Below (rstrip c) row.1)) = [] := by
    intro hno
    refine List.filter_eq_nil_iff.mpr ?_
    intro row hrow hbelow
    obtain ⟨⟨hne, hne'⟩, hpre⟩ := of_decide_eq_true hbelow
    exact hno ⟨row.1, mem_rows.mp ⟨row.2, hrow⟩, hne, hne', hpre⟩
  rcases listing_cases t hc with ⟨hlong, -⟩ | ⟨-, -, names, -, hlist⟩ |
    ⟨-, hnc, -, hlist⟩ | ⟨-, hnc, -, hlist⟩
  · exact absurd hlong hshort
  · refine ⟨some names, hlist, ?_⟩
    rw [Option.getD_some, ListingProofs.names_of_listing hlist, ListingProofs.listLoop_names,
      List.nil_append, hfound]
    exact List.perm_insertionSort _ _
  · exact ⟨some [], hlist, by rw [hnone hnc]; exact List.Perm.refl _⟩
  · exact ⟨none, hlist, by rw [hnone hnc]; exact List.Perm.refl _⟩

/-- **What the table lists**: the rests of the keys below the container. -/
theorem table_names (h : SameKeys keys vs t) (hc : c ≠ []) (hshort : ¬ TooLong t c) :
    ∃ listed, (SqliteStore.exec (.list c) t).1 = .ok listed
      ∧ (listed.getD []).Perm ((keys.toList.filter (fun key =>
          decide (Below (rstrip c) key))).map (relative (rstrip c))) := by
  obtain ⟨listed, hlist, hperm⟩ := listing_names hc hshort
  refine ⟨listed, hlist, hperm.trans ?_⟩
  -- no row is marked as a container
  have hname : ∀ row ∈ (rows t).filter (fun row => decide (Below (rstrip c) row.1)),
      childName (rstrip c) row = relative (rstrip c) row.1 := by
    intro row hrow
    have hmem := (List.mem_filter.mp hrow).1
    obtain ⟨e, he, rfl⟩ := List.mem_map.mp hmem
    have hvalue := h.secret e.1 e.2 (AList.mem_lookup_iff.mpr he)
    exact if_neg (by rw [hvalue]; exact Bool.false_ne_true)
  have hkeys : ((rows t).map Prod.fst).Perm keys.toList := by
    have hfst : (rows t).map Prod.fst = t.keys := by
      rw [rows, List.map_map]
      rfl
    rw [hfst]
    refine (List.perm_ext_iff_of_nodup t.keys_nodup keys.nodup_toList).mpr ?_
    intro key
    rw [← AList.mem_keys, h.rows, Finset.mem_toList]
  rw [List.map_congr_left hname]
  have hmap : ((rows t).filter (fun row => decide (Below (rstrip c) row.1))).map
        (fun row => relative (rstrip c) row.1)
      = (((rows t).map Prod.fst).filter (fun key => decide (Below (rstrip c) key))).map
        (relative (rstrip c)) := by
    rw [List.filter_map, List.map_map]
    rfl
  rw [hmap]
  exact (hkeys.filter _).map _

/-! ## Storing a secret in both -/

/-- After `set` the vault of the key exists, and the other vaults are those
    that were there before. -/
theorem mem_set_vaults {key : Str} (h : Accepted key) (data : List Unquote.Byte) (replace : Bool)
    (vs : Vaults) (name : Str) :
    name ∈ ((IpaVault.set key (.bytes data) replace).run serve vs).2
      ↔ name = vaultName key ∨ name ∈ vs := by
  have hrun : (IpaVault.set key (.bytes data) replace).run serve vs
      = (archiving (vaultName key) data (addFinish (vaultName key) replace
          (serve (.add (vaultName key)) vs).1)).run serve (serve (.add (vaultName key)) vs).2 := by
    rw [set_eq (mangleKey_ok h) rfl]
    rfl
  have hwritten {vs' : Vaults} (hmem : vaultName key ∈ vs') :
      ((archiving (vaultName key) data (.ok ())).run serve vs').2
        = vs'.insert (vaultName key) (some data) := by
    have harchive : serve (.archive (vaultName key) data) vs'
        = (.ok (), vs'.insert (vaultName key) (some data)) := if_pos hmem
    show (Prog.run serve (.ofExcept (archiveFinish (vaultName key) _)) _).2 = _
    rw [Prog.run_ofExcept, harchive]
  by_cases hmem : vaultName key ∈ vs
  · have hadd : serve (.add (vaultName key)) vs = (.error (vaultTaken (vaultName key)), vs) :=
      if_pos hmem
    have hback : name = vaultName key ∨ name ∈ vs ↔ name ∈ vs :=
      or_iff_right_of_imp (fun heq => heq ▸ hmem)
    rw [hrun, hadd, hback]
    cases replace with
    | false => exact Iff.rfl
    | true =>
        have hgoes : addFinish (vaultName key) true (.error (vaultTaken (vaultName key)))
            = .ok () := rfl
        rw [hgoes, hwritten hmem, AList.mem_insert]
        exact hback
  · have hadd : serve (.add (vaultName key)) vs = (.ok (), vs.insert (vaultName key) none) :=
      if_neg hmem
    have hgoes : addFinish (vaultName key) replace (.ok ()) = .ok () := rfl
    rw [hrun, hadd, hgoes, hwritten ((AList.mem_insert _).mpr (Or.inl rfl)), AList.mem_insert,
      AList.mem_insert, ← or_assoc, or_self]

/-- Two empty stores hold the same keys, namely none. -/
theorem sameKeys_empty : SameKeys ∅ ∅ ∅ := by
  refine ⟨?_, ?_, ?_, ?_⟩
  · intro key hkey
    exact absurd hkey (Finset.notMem_empty key)
  · intro name
    refine iff_of_false (AList.notMem_empty name) ?_
    rintro ⟨key, hkey, -⟩
    exact Finset.notMem_empty key hkey
  · intro key
    exact iff_of_false (AList.notMem_empty key) (Finset.notMem_empty key)
  · intro key v hrow
    cases hrow

/-- **The stores stay alike** when a secret is set in both. -/
theorem SameKeys.set (h : SameKeys keys vs t) {key text : Str} (hkey : PlainKey key)
    (htext : text ≠ []) (data : List Unquote.Byte) (replace : Bool) :
    SameKeys (insert key keys) ((IpaVault.set key (.bytes data) replace).run serve vs).2
      (SqliteStore.exec (.set key (.ofText text) replace) t).2 := by
  have haccepted : Accepted key := fun hin => hkey.unmarked (hin.subset (by decide))
  have hopen : endsInSlash key = false := by
    refine Bool.eq_false_iff.mpr (fun hslash => ?_)
    obtain ⟨d, rfl⟩ := List.getLast?_eq_some_iff.mp (endsInSlash_iff.mp hslash)
    exact (head_segment (segments_around hkey.segments).2).1 rfl
  refine ⟨?_, ?_, ?_, ?_⟩
  · intro other hother
    rcases Finset.mem_insert.mp hother with rfl | hother
    · exact hkey
    · exact h.plain other hother
  · intro name
    rw [mem_set_vaults haccepted, h.vaults]
    constructor
    · rintro (rfl | ⟨other, hother, rfl⟩)
      · exact ⟨key, Finset.mem_insert_self key keys, rfl⟩
      · exact ⟨other, Finset.mem_insert_of_mem hother, rfl⟩
    · rintro ⟨other, hother, rfl⟩
      rcases Finset.mem_insert.mp hother with rfl | hother
      · exact Or.inl rfl
      · exact Or.inr ⟨other, hother, rfl⟩
  · intro other
    rw [Finset.mem_insert, ← h.rows other]
    by_cases hmem : replace = false ∧ key ∈ t
    · rw [hmem.1, exec_set_mem hopen (bindValue_ofText _ _) hmem.2]
      exact (or_iff_right_of_imp (fun heq => heq ▸ hmem.2)).symm
    · rw [exec_set_done hopen (bindValue_ofText _ _) hmem, AList.mem_insert]
  · intro other v hrow
    by_cases hmem : replace = false ∧ key ∈ t
    · rw [hmem.1, exec_set_mem hopen (bindValue_ofText _ _) hmem.2] at hrow
      exact h.secret other v hrow
    · rw [exec_set_done hopen (bindValue_ofText _ _) hmem] at hrow
      by_cases heq : other = key
      · subst heq
        rw [AList.lookup_insert] at hrow
        rw [← Option.some.inj hrow]
        exact decide_eq_false htext
      · rw [AList.lookup_insert_ne heq] at hrow
        exact h.secret other v hrow

/-! ## When the listings agree -/

/-- What follows a container directly is the last segment of the key. -/
theorem lastSegment_append {c n : Str} (hc : endsInSlash c = true) (hn : slash ∉ n) :
    lastSegment (c ++ n) = n := by
  obtain ⟨d, rfl⟩ := List.getLast?_eq_some_iff.mp (endsInSlash_iff.mp hc)
  induction n using List.reverseRecOn with
  | nil =>
      rw [List.append_nil, lastSegment]
      exact List.rtakeWhile_concat_neg _ _ _ (by simp)
  | append_singleton n x ih =>
      rw [List.mem_append, not_or] at hn
      have hx : x ≠ slash := by
        rintro rfl
        exact hn.2 List.mem_cons_self
      rw [lastSegment, ← List.append_assoc,
        List.rtakeWhile_concat_pos (fun y => decide (y ≠ slash)) _ x (decide_eq_true hx)]
      exact congrArg (· ++ [x]) (ih hn.1)

/-- There is no slash in a last segment. -/
theorem slash_not_mem_lastSegment (key : Str) : slash ∉ lastSegment key := by
  intro hmem
  have hkept := @List.mem_rtakeWhile_imp _ (fun x => decide (x ≠ slash)) _ _ hmem
  exact of_decide_eq_true hkept rfl

/-- In a flat container both stores look at the same keys, and read the same
    name from each. -/
theorem flat_key (h : SameKeys keys vs t) (hc : endsInSlash c = true) (hflat : Flat keys c)
    {key : Str} (hkey : key ∈ keys) :
    (c <+: key ↔ Below (rstrip c) key)
      ∧ (c <+: key → c ++ lastSegment key = key ∧ relative (rstrip c) key = lastSegment key) := by
  have hplain := h.plain key hkey
  have hdown : c <+: key → Below (rstrip c) key := by
    rintro ⟨n, rfl⟩
    have hpre : childPrefix (rstrip c) <+: c ++ n := by
      rw [← childPrefix_of_plain hc hplain]
      exact List.prefix_append c n
    obtain ⟨hne, hne', -⟩ := relative_of_plain hplain hpre
    exact ⟨⟨hne, hne'⟩, hpre⟩
  refine ⟨⟨hdown, ?_⟩, ?_⟩
  · rintro ⟨-, hpre⟩
    obtain ⟨n, -, rfl⟩ := hflat key hkey hpre
    exact List.prefix_append c n
  · intro hpre
    obtain ⟨n, hn, rfl⟩ := hflat key hkey (hdown hpre).2
    have hrest := (relative_of_plain hplain (hdown hpre).2).2.2
    rw [← childPrefix_of_plain hc hplain] at hrest
    rw [lastSegment_append hc hn]
    exact ⟨rfl, (List.append_cancel_left hrest).symm⟩

/-- **In a flat container the listings agree**, if it is short enough to be
    searched for. -/
theorem agree_of_flat (h : SameKeys keys vs t) (hc : endsInSlash c = true)
    (hshort : ¬ TooLong t c) (hflat : Flat keys c) : Agree keys vs t c := by
  have hne : c ≠ [] := by
    rintro rfl
    cases hc
  obtain ⟨names, hvault, hnames⟩ := vault_names h c
  obtain ⟨listed, htable, hlisted⟩ := table_names h hne hshort
  have hfilter : keys.toList.filter (fun key => decide (Below (rstrip c) key))
      = keys.toList.filter (fun key => decide (c <+: key)) := by
    refine List.filter_congr ?_
    intro key hkey
    exact decide_eq_decide.mpr (flat_key h hc hflat (Finset.mem_toList.mp hkey)).1.symm
  have hread : ∀ key ∈ keys.toList.filter (fun key => decide (c <+: key)),
      c ++ lastSegment key = key ∧ relative (rstrip c) key = lastSegment key := by
    intro key hkey
    obtain ⟨hmem, hpre⟩ := List.mem_filter.mp hkey
    exact (flat_key h hc hflat (Finset.mem_toList.mp hmem)).2 (of_decide_eq_true hpre)
  rw [hfilter, List.map_congr_left (fun key hkey => (hread key hkey).2)] at hlisted
  refine ⟨names, listed, hvault, htable, hnames.nodup_iff.mpr ?_, hnames.trans hlisted.symm, ?_⟩
  · refine List.Nodup.map_on ?_ (keys.nodup_toList.filter _)
    intro key hkey other hother heq
    rw [← (hread key hkey).1, heq, (hread other hother).1]
  · intro n hn
    obtain ⟨key, hkey, rfl⟩ := List.mem_map.mp (hnames.mem_iff.mp hn)
    rw [(hread key hkey).1]
    exact Finset.mem_toList.mp (List.mem_filter.mp hkey).1

/-- **Where the listings agree, the container is flat**: a nested key would be
    listed under two names, one of which names nothing. -/
theorem flat_of_agree (h : SameKeys keys vs t) (hc : endsInSlash c = true)
    (hagree : Agree keys vs t c) : ¬ TooLong t c ∧ Flat keys c := by
  have hne : c ≠ [] := by
    rintro rfl
    cases hc
  obtain ⟨names, listed, hvault, htable, -, hsame, hstored⟩ := hagree
  have hshort : ¬ TooLong t c := by
    intro hlong
    obtain ⟨text, herror⟩ := ListingProofs.listing_tooLong hlong
    cases htable.symm.trans herror
  refine ⟨hshort, ?_⟩
  obtain ⟨names', hvault', hnames⟩ := vault_names h c
  obtain ⟨listed', htable', hlisted⟩ := table_names h hne hshort
  obtain rfl := Except.ok.inj (hvault.symm.trans hvault')
  obtain rfl := Except.ok.inj (htable.symm.trans htable')
  intro key hkey hpre
  obtain ⟨hne, hne', hrest⟩ := relative_of_plain (h.plain key hkey) hpre
  -- the name the table lists the key by is one of the vaults' names
  have hmem : relative (rstrip c) key ∈ names := by
    refine hsame.mem_iff.mpr (hlisted.mem_iff.mpr (List.mem_map.mpr ⟨key, ?_, rfl⟩))
    exact List.mem_filter.mpr ⟨Finset.mem_toList.mpr hkey, decide_eq_true ⟨⟨hne, hne'⟩, hpre⟩⟩
  obtain ⟨other, -, hlast⟩ := List.mem_map.mp (hnames.mem_iff.mp hmem)
  refine ⟨relative (rstrip c) key, ?_, ?_⟩
  · rw [← hlast]
    exact slash_not_mem_lastSegment other
  · rw [← childPrefix_of_plain hc (h.plain _ (hstored _ hmem))] at hrest
    exact hrest

/-- **HEADLINE — when vaults are listed like rows.** For any keys without
    underscores and empty segments and any container, the two listings agree
    exactly if every key below the container lies in it directly, and the
    container is no longer than `LIKE` allows. -/
theorem agree_iff (h : SameKeys keys vs t) (hc : endsInSlash c = true) :
    Agree keys vs t c ↔ ¬ TooLong t c ∧ Flat keys c :=
  ⟨flat_of_agree h hc, fun hand => agree_of_flat h hc hand.1 hand.2⟩

/-! ### Some keys in both stores -/

/-- One secret under each key, in vaults. -/
def vaultsWith (names : List Str) : Vaults :=
  names.foldr (fun key vs => ((IpaVault.set key (.bytes [1]) false).run serve vs).2) ∅

/-- One secret under each key, in a table. -/
def tableWith (names : List Str) : Table :=
  names.foldr (fun key t => (SqliteStore.exec (.set key (.ofText "s") false) t).2) ∅

/-- **Stores that are filled alike hold the same keys**: this is so of the empty
    stores, and each secret that is set in both keeps it so. -/
theorem sameKeys_with {names : List Str} (hplain : ∀ key ∈ names, PlainKey key) :
    SameKeys names.toFinset (vaultsWith names) (tableWith names) := by
  induction names with
  | nil => exact sameKeys_empty
  | cons key names ih =>
      rw [List.toFinset_cons]
      exact (ih (fun k hk => hplain k (List.mem_cons_of_mem key hk))).set
        (hplain key List.mem_cons_self) (by decide) [1] false

/-- Keys of two users, one, two and three names deep. -/
def nestedKeys : List Str :=
  ["keys/u/a/b", "keys/u/a/c", "keys/u/d", "keys/v/e/f", "keys/v/e/g/h"]

/-- Both stores hold the keys of the demonstration. -/
theorem sameKeys_nested :
    SameKeys nestedKeys.toFinset (vaultsWith nestedKeys) (tableWith nestedKeys) :=
  sameKeys_with (by decide)

/-- The vaults list `b` where the table lists `a/b`, and nothing is stored
    under the name of the container followed by `b`. -/
theorem not_agree_nested : ¬ ∀ (keys : Finset Str) (vs : Vaults) (t : Table) (c : Str),
    SameKeys keys vs t → endsInSlash c = true → Agree keys vs t c := by
  intro hall
  obtain ⟨names, listed, hvault, -, -, -, hstored⟩ :=
    hall _ _ _ "keys/u/" sameKeys_nested (by decide)
  have hrun : ((IpaVault.list (some "keys/u/".toList)).run serve (vaultsWith nestedKeys)).1
      = .ok ["b", "c", "d"] := by decide
  obtain rfl := Except.ok.inj (hvault.symm.trans hrun)
  have hmem := hstored _ List.mem_cons_self
  exact absurd hmem (by decide)

/-- The container `a` of the first user is flat, though others are not. -/
theorem agree_iff_nested :
    SameKeys nestedKeys.toFinset (vaultsWith nestedKeys) (tableWith nestedKeys)
    ∧ endsInSlash "keys/u/a/" = true
    ∧ Agree nestedKeys.toFinset (vaultsWith nestedKeys) (tableWith nestedKeys) "keys/u/a/" := by
  refine ⟨sameKeys_nested, by decide, (agree_iff sameKeys_nested (by decide)).mpr ⟨?_, ?_⟩⟩
  · exact fun h => absurd h.1 (by decide)
  · intro key hkey hbelow
    have hlisted : key ∈ (["keys/u/a/b", "keys/u/a/c"] : List Str) := by
      revert key
      decide
    rcases List.mem_cons.mp hlisted with rfl | hlisted
    · exact ⟨"b".toList, by decide, by decide⟩
    · obtain rfl := List.mem_singleton.mp hlisted
      exact ⟨"c".toList, by decide, by decide⟩

end VaultListProofs
