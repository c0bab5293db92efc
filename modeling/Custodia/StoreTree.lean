import Custodia.SecretsRuns
import Custodia.ContainerTree

/-! # StoreTree — the flat table as a tree

    Requests whose segments are proper names address places in a tree; the
    table keeps them under spelled keys. `treeOf` reads a table as a map from
    paths to values, and the table operations become operations of that map.

    * `hasChild_iff`: a listed path has a child exactly when the tree has
      something below it;
    * `treeOf_insert`, `treeOf_erase`: the refinement, one lemma each. -/

namespace StoreTree

open PosixPath SeparatedNames PyValues SqliteStore SecretsConsumer SecretsCalls SecretsRequests
open ContainerTree

/-! ## Keys of paths -/

/-- All names are proper: not empty and without a slash. -/
def Plain (names : List Str) : Prop := ∀ s ∈ names, Proper slash s

instance (names : List Str) : Decidable (Plain names) :=
  inferInstanceAs (Decidable (∀ s ∈ names, Proper slash s))

/-- The names of a key, below the fixed root. -/
def rooted (names : List Str) : List Str := "keys".toList :: names

/-- The store key `keys/a1/…/an`. -/
def keyOf (names : List Str) : Str := spell slash (rooted names)

/-- With the name of the table's root before them, there is always a first name. -/
theorem rooted_ne_nil (names : List Str) : rooted names ≠ [] := List.cons_ne_nil _ _

/-- The name of the root is proper itself, so proper names stay proper below it. -/
theorem plain_rooted {names : List Str} (h : Plain names) : Plain (rooted names) := by
  intro s hs
  rcases List.mem_cons.mp hs with heq | hmem
  · rw [heq]
    decide
  · exact h s hmem

/-- The path of the container that holds an entry is proper where the path of
    the entry is. -/
theorem plain_dropLast {names : List Str} (h : Plain names) : Plain names.dropLast :=
  fun s hs => h s (List.dropLast_subset _ hs)

/-- No proper name holds a slash, and so the slashes of a key are all
    separators. -/
theorem slash_free {names : List Str} (h : Plain names) : ∀ s ∈ names, slash ∉ s :=
  fun s hs => (h s hs).2

/-- **Different paths have different keys.** A key can be cut at its slashes,
    and the pieces are the names again. -/
theorem keyOf_inj {names more : List Str} (h : Plain names) (hm : Plain more)
    (heq : keyOf names = keyOf more) : names = more := by
  have hroot := spell_inj slash (rooted_ne_nil names) (rooted_ne_nil more)
    (slash_free (plain_rooted h)) (slash_free (plain_rooted hm)) heq
  exact (List.cons.inj hroot).2

/-- The key of a path is never empty. -/
theorem keyOf_ne_nil {names : List Str} (h : Plain names) : keyOf names ≠ [] :=
  spell_ne_nil (rooted_ne_nil names) (plain_rooted h)

/-- The key of a path does not end in a slash, as its last name is proper. -/
theorem endsInSlash_keyOf {names : List Str} (h : Plain names) :
    endsInSlash (keyOf names) = false :=
  endsInSlash_spell (rooted_ne_nil names) (plain_rooted h)

/-- No key of a path ends in a slash. -/
theorem keyOf_ne_concat {names : List Str} (h : Plain names) (s : Str) :
    keyOf names ≠ s ++ [slash] := by
  intro heq
  have hend := endsInSlash_keyOf h
  rw [heq, endsInSlash_concat] at hend
  exact Bool.false_ne_true hend.symm

/-- Stripping slashes at its end does nothing to the key of a path. -/
theorem rstrip_keyOf {names : List Str} (h : Plain names) : rstrip (keyOf names) = keyOf names :=
  rstrip_spell (rooted_ne_nil names) (plain_rooted h)

/-- For proper names `os.path.join` makes the key of their path: no name is
    absolute, and so none discards what was before it. -/
theorem join_keyOf {names : List Str} (h : Plain names) : join "keys" names = keyOf names := by
  have hkeys : Plain ["keys".toList] := by decide
  have hjoin := join_proper names ["keys".toList] (List.cons_ne_nil _ _) hkeys h
  rw [spell_singleton] at hjoin
  exact hjoin

/-- With an empty name at the end, `os.path.join` makes the same key with a
    slash behind it, which is how a container is named. -/
theorem join_keyOf_slash {names : List Str} (h : Plain names) :
    join "keys" (names ++ [[]]) = keyOf names ++ [slash] := by
  rw [join_append, join_keyOf h]
  exact joinStep_spell_nil (rooted_ne_nil names) (plain_rooted h)

/-- The parent check of a path lists the parent's key. -/
theorem rstrip_parentKey {names : List Str} (h : Plain names) :
    rstrip (parentKey names) = keyOf names.dropLast := by
  rw [parentKey, join_keyOf_slash (plain_dropLast h), rstrip_concat,
    rstrip_keyOf (plain_dropLast h)]

/-! ## Tables as trees -/

/-- The value at a path. -/
def treeOf (t : Table) : Entries Str SqlValue :=
  fun names => if Plain names then t.lookup (keyOf names) else none

/-- At proper names the tree holds what the table holds under their key. -/
theorem treeOf_plain {names : List Str} (h : Plain names) (t : Table) :
    treeOf t names = t.lookup (keyOf names) := if_pos h

/-- The tree has an entry exactly at the proper paths whose keys are in the
    table. -/
theorem treeOf_ne_none {names : List Str} {t : Table} :
    treeOf t names ≠ none ↔ Plain names ∧ keyOf names ∈ t := by
  rw [treeOf]
  split_ifs with h
  · rw [ne_eq, AList.lookup_eq_none, not_not]
    exact (and_iff_right h).symm
  · simp [h]

/-- **Storing at the key of a path** updates the tree there, and nowhere else,
    as no other path has that key. -/
theorem treeOf_insert {p : List Str} (hp : Plain p) (t : Table) (v : SqlValue) :
    treeOf (t.insert (keyOf p) v) = Function.update (treeOf t) p (some v) := by
  funext names
  by_cases heq : names = p
  · subst heq
    rw [Function.update_self, treeOf_plain hp, AList.lookup_insert]
  · rw [Function.update_of_ne heq, treeOf, treeOf]
    split_ifs with h
    · exact AList.lookup_insert_ne (fun hkey => heq (keyOf_inj h hp hkey))
    · rfl

/-- **Removing the key of a path** clears the tree there, and leaves all that
    lies below the path where it was. -/
theorem treeOf_erase {p : List Str} (hp : Plain p) (t : Table) :
    treeOf (t.erase (keyOf p)) = Function.update (treeOf t) p none := by
  funext names
  by_cases heq : names = p
  · subst heq
    rw [Function.update_self, treeOf_plain hp, AList.lookup_erase]
  · rw [Function.update_of_ne heq, treeOf, treeOf]
    split_ifs with h
    · exact AList.lookup_erase_ne (fun hkey => heq (keyOf_inj h hp hkey))
    · rfl

/-- Every stored key is the key of a path. -/
def Spelled (t : Table) : Prop := ∀ key ∈ t, ∃ names, Plain names ∧ key = keyOf names

/-- In the empty table there is no key that would not be one of a path. -/
theorem spelled_empty : Spelled ∅ := fun key h => absurd h (AList.notMem_empty key)

/-- Storing under the key of a proper path keeps all keys spelled. -/
theorem spelled_insert {t : Table} (ht : Spelled t) {p : List Str} (hp : Plain p)
    (v : SqlValue) : Spelled (t.insert (keyOf p) v) := by
  intro key hkey
  rcases (AList.mem_insert t).mp hkey with heq | hold
  · exact ⟨p, hp, heq⟩
  · exact ht key hold

/-- Removing any key keeps all keys spelled. -/
theorem spelled_erase {t : Table} (ht : Spelled t) (key : Str) : Spelled (t.erase key) := by
  intro other hother
  exact ht other ((AList.mem_erase).mp hother).2

/-! ## What `list` sees -/

/-- What lies below a path has a key that begins with its key and a slash. -/
theorem childPrefix_keyOf {p : List Str} (hp : Plain p) :
    childPrefix (keyOf p) = keyOf p ++ [slash] := if_neg (keyOf_ne_nil hp)

/-- Where keys are spelled, `list` sees a row of the container itself exactly if
    the key of the path is there; a key with slashes behind it is nobody's. -/
theorem hasParent_iff {t : Table} (ht : Spelled t) {p : List Str} (hp : Plain p) :
    HasParent t (keyOf p) ↔ keyOf p ∈ t := by
  rw [HasParent, childPrefix_keyOf hp]
  constructor
  · rintro (h | h)
    · exact h
    · obtain ⟨names, hnames, heq⟩ := ht _ h
      exact absurd heq.symm (keyOf_ne_concat hnames _)
  · exact Or.inl

/-- **A path has a child for `list` exactly when the tree has something below
    it.** -/
theorem hasChild_iff {t : Table} (ht : Spelled t) {p : List Str} (hp : Plain p) :
    HasChild t (keyOf p) ↔ HasBelow (treeOf t) p := by
  rw [HasChild, childPrefix_keyOf hp]
  constructor
  · rintro ⟨key, hkey, -, -, hpre⟩
    obtain ⟨names, hnames, rfl⟩ := ht key hkey
    obtain ⟨tail, hne, hsplit⟩ := (below_spell slash (rooted_ne_nil p) (rooted_ne_nil names)
      (slash_free (plain_rooted hp)) (slash_free (plain_rooted hnames))).mp hpre
    obtain rfl : names = p ++ tail := (List.cons.inj hsplit).2
    exact ⟨tail, hne, treeOf_ne_none.mpr ⟨hnames, hkey⟩⟩
  · rintro ⟨tail, hne, hmem⟩
    obtain ⟨hplain, hkey⟩ := treeOf_ne_none.mp hmem
    refine ⟨_, hkey, ?_, keyOf_ne_concat hplain _, ?_⟩
    · intro heq
      exact hne (List.append_right_eq_self.mp (keyOf_inj hplain hp heq))
    · exact (below_spell slash (rooted_ne_nil p) (rooted_ne_nil (p ++ tail))
        (slash_free (plain_rooted hp)) (slash_free (plain_rooted hplain))).mpr ⟨tail, hne, rfl⟩

/-! ## Requests that address paths -/

/-- The request addresses the path: the segments are its names, or its names
    and the trailing empty segment. -/
def Addresses (req : Request) (names : List Str) : Prop :=
  Plain names ∧ (segments req = names ∨ segments req = names ++ [[]])

variable {req : Request} {names : List Str}

/-- A request that names no container has the names of its path for its
    segments. -/
theorem entry_segments (h : Addresses req names) (hentry : ¬ namesContainer (segments req)) :
    segments req = names := by
  rcases h.2 with heq | heq
  · exact heq
  · rw [namesContainer, heq, List.getLast?_concat] at hentry
    exact absurd rfl hentry

/-- A request that names a container has one more segment than names, the empty
    one at the end. -/
theorem container_segments (h : Addresses req names) (hcont : namesContainer (segments req)) :
    segments req = names ++ [[]] := by
  rcases h.2 with heq | heq
  · rw [namesContainer, heq] at hcont
    exact absurd rfl (h.1 [] (List.mem_of_getLast? hcont)).1
  · exact heq

/-- The key that a request for an entry looks up is that of its path. -/
theorem entryKey_entry (h : Addresses req names) (hentry : ¬ namesContainer (segments req)) :
    entryKey req = keyOf names := by
  rw [entryKey, entry_segments h hentry, join_keyOf h.1]

/-- The key that a request for a container works with is that of its path, with
    a slash behind it. -/
theorem entryKey_container (h : Addresses req names) (hcont : namesContainer (segments req)) :
    entryKey req = keyOf names ++ [slash] := by
  rw [entryKey, container_segments h hcont, join_keyOf_slash h.1]

/-- Without the slash it is the key of the path, which is the row of the
    container. -/
theorem rstrip_entryKey (h : Addresses req names) (hcont : namesContainer (segments req)) :
    rstrip (entryKey req) = keyOf names := by
  rw [entryKey_container h hcont, rstrip_concat, rstrip_keyOf h.1]

end StoreTree
