import Mathlib.Data.Char
import Mathlib.Data.List.AList
import Mathlib.Data.List.Lex
import Mathlib.Data.List.Sort
import Custodia.PyValues
import Custodia.Interaction

/-! # SqliteStore — the flat table under the secrets

    One table of keys and values, and the five methods of the store, each ONE
    atomic transaction. Containers are rows with the empty text.

    * `Call` and `exec`: what the methods answer and how the table moves;
    * `listing_cases`: what `list` answers, free of `LIKE` and of its loop;
    * `exec_cases`: the only ways the table can move. -/

namespace SqliteStore

open PosixPath PyValues SeparatedNames

/-- The table: at most one row a key. -/
abbrev Table := AList (fun _ : Str => SqlValue)

/-- The methods of the store, each with its arguments. They are the operations
    of the programs of the consumer: between two of them other requests may be
    served. -/
inductive Call where
  | get (key : Str)
  | set (key : Str) (value : Json) (replace : Bool)
  | span (key : Str)
  | list (keyfilter : Str)
  | cut (key : Str)

/-- What a method returns; `get` returns `None` as `null`. -/
@[reducible] def Call.Ans : Call → Type
  | .get _ => SqlValue
  | .set _ _ _ => Unit
  | .span _ => Unit
  | .list _ => Option (List Str)
  | .cut _ => Bool

/-- The key a method is called with. -/
def Call.key : Call → Str
  | .get key => key
  | .set key _ _ => key
  | .span key => key
  | .list keyfilter => keyfilter
  | .cut key => key

/-- The call may overwrite a row. -/
def Call.replaces : Call → Bool
  | .set _ _ replace => replace
  | .get _ => false
  | .span _ => false
  | .list _ => false
  | .cut _ => false

/-! ## `LIKE` -/

/-- `LIKE`: `'%'` is any text, `'_'` any character, ASCII letters match in
    either case. -/
def like : Str → Str → Bool
  | [], s => s.isEmpty
  | c :: p, s =>
      if c = '%' then s.tails.any (like p)
      else
        match s with
        | [] => false
        | d :: s' => (decide (c = '_') || decide (c.toLower = d.toLower)) && like p s'

/-- `LIKE` reads its operands up to the first NUL. -/
def cString (s : Str) : Str := s.takeWhile (fun c => decide (c ≠ Char.ofNat 0))

/-- The size of a text in UTF-8. -/
def utf8Length (s : Str) : Nat := (s.map Char.utf8Size).sum

/-- The longest pattern `LIKE` accepts. -/
def likePatternLimit : Nat := 50000

private theorem like_percent (p s : Str) :
    like ('%' :: p) s = s.tails.any (like p) := by
  cases s <;> rfl

private theorem like_char {c : Char} (hc : c ≠ '%') (p : Str) (d : Char) (s : Str) :
    like (c :: p) (d :: s)
      = ((decide (c = '_') || decide (c.toLower = d.toLower)) && like p s) := by
  rw [like]
  exact if_neg hc

/-- A pattern of a lone `%` matches everything. -/
theorem like_percent_any (s : Str) : like ['%'] s = true := by
  rw [like_percent, List.any_eq_true]
  exact ⟨[], (List.mem_tails [] s).mpr List.nil_suffix, rfl⟩

/-- A character of the pattern matches itself. -/
theorem like_cons_self {c : Char} {p s : Str} (h : like p s = true) :
    like (c :: p) (c :: s) = true := by
  by_cases hc : c = '%'
  · subst hc
    rw [like_percent, List.any_eq_true]
    exact ⟨s, (List.mem_tails s _).mpr (List.suffix_cons _ s), h⟩
  · rw [like_char hc]
    simp [h]

/-- The text as the database reads it ends before the first NUL. -/
theorem cString_cons (c : Char) (s : Str) :
    cString (c :: s) = if c = Char.ofNat 0 then [] else c :: cString s := by
  rw [cString, List.takeWhile_cons]
  split_ifs with h h' h'
  · exact absurd h' (of_decide_eq_true h)
  · rfl
  · rfl
  · exact absurd (decide_eq_true h') h

/-- No row that continues `path` escapes the search: the wild cards a text
    contains also match themselves. -/
theorem like_of_prefix {path key : Str} (h : path <+: key) :
    like (cString (path ++ ['%'])) (cString key) = true := by
  obtain ⟨rest, rfl⟩ := h
  induction path with
  | nil => exact like_percent_any (cString rest)
  | cons c path ih =>
      rw [List.cons_append, List.cons_append, cString_cons, cString_cons]
      split_ifs with hc
      · rfl
      · exact like_cons_self ih

/-! ## `list` -/

/-- The rows of the table. -/
def rows (t : Table) : List (Str × SqlValue) := t.entries.map (fun e => (e.1, e.2))

/-- `path + '/'`, and nothing below the root. -/
def childPrefix (path : Str) : Str := if path = [] then path else path ++ [slash]

/-- How `list` names the row of a child: containers end with `'/'`. -/
def childName (path : Str) (row : Str × SqlValue) : Str :=
  let name := lstrip (row.1.drop (childPrefix path).length)
  if row.2.falsy then name ++ [slash] else name

/-- The loop of `list` over the rows found. -/
def listLoop (path : Str) :
    List (Str × SqlValue) → Bool → List Str → Bool × List Str
  | [], parentExists, result => (parentExists, result)
  | row :: rest, parentExists, result =>
      if row.1 = path ∨ row.1 = childPrefix path then listLoop path rest true result
      else if ¬ (childPrefix path) <+: row.1 then listLoop path rest parentExists result
      else listLoop path rest parentExists (result ++ [childName path row])

/-- `sorted(names)`. -/
def sorted (names : List Str) : List Str := names.insertionSort (· ≤ ·)

/-- `SqliteStore.list`. -/
def listing (t : Table) (keyfilter : Str) : Except Exc (Option (List Str)) :=
  let path := rstrip keyfilter
  let pattern := path ++ ['%']
  -- the length is looked at with every row, so never in an empty table
  if likePatternLimit < utf8Length pattern ∧ rows t ≠ [] then
    .error (.py .csStoreError "Error occurred while trying to list keys")
  else
    let found := (rows t).filter (fun row => like (cString pattern) (cString row.1))
    if found ≠ [] then
      let looped := listLoop path found false []
      if looped.2 ≠ [] then .ok (some (sorted looped.2))
      else if looped.1 = true then .ok (some [])
      else .ok none
    else if keyfilter = [] then .ok (some [])
    else .ok none

/-! ## The five methods -/

/-- The text of the errors of `set`. -/
def setErrorText : Str := "Error occurred while trying to store key"

/-- `CSStoreExists(str(err))`. -/
def keyExists : Exc := .py .csStoreExists "UNIQUE constraint failed"

/-- One method call: what it returns or raises, and the table after it. -/
def exec : (c : Call) → Table → Except Exc c.Ans × Table
  | .get key, t => (.ok ((t.lookup key).getD .null), t)
  | .set key value replace, t =>
      if endsInSlash key then
        (.error (.py .valueError "Invalid Key name, cannot end in \"/\""), t)
      else
        match bindValue setErrorText value with
        | .error e => (.error e, t)
        | .ok v =>
            if replace = false ∧ key ∈ t then (.error keyExists, t)
            else (.ok (), t.insert key v)
  | .span key, t =>
      if rstrip key ∈ t then (.error keyExists, t)
      else (.ok (), t.insert (rstrip key) (.text []))
  | .list keyfilter, t => (listing t keyfilter, t)
  | .cut key, t => if key ∈ t then (.ok true, t.erase key) else (.ok false, t)

@[simp] theorem exec_get (key : Str) (t : Table) :
    exec (.get key) t = (.ok ((t.lookup key).getD .null), t) := rfl

@[simp] theorem exec_list (keyfilter : Str) (t : Table) :
    exec (.list keyfilter) t = (listing t keyfilter, t) := rfl

/-- Cutting a key that is there removes its row and says so. -/
theorem exec_cut_mem {key : Str} {t : Table} (h : key ∈ t) :
    exec (.cut key) t = (.ok true, t.erase key) := if_pos h

/-- Cutting a key that is not there changes nothing and says so. -/
theorem exec_cut_not_mem {key : Str} {t : Table} (h : key ∉ t) :
    exec (.cut key) t = (.ok false, t) := if_neg h

/-- `cut` answers whether the row was there. -/
theorem exec_cut_answer (key : Str) (t : Table) :
    ∃ b, (exec (.cut key) t).1 = .ok b ∧ (b = true ↔ key ∈ t) := by
  by_cases hmem : key ∈ t
  · rw [exec_cut_mem hmem]
    exact ⟨true, rfl, iff_of_true rfl hmem⟩
  · rw [exec_cut_not_mem hmem]
    exact ⟨false, rfl, iff_of_false Bool.false_ne_true hmem⟩

/-- After `cut` the row is gone, and every other row is as it was. -/
theorem exec_cut_lookup (key other : Str) (t : Table) :
    (exec (.cut key) t).2.lookup other = if other = key then none else t.lookup other := by
  by_cases hmem : key ∈ t
  · rw [exec_cut_mem hmem]
    by_cases heq : other = key
    · subst heq
      rw [if_pos rfl]
      exact AList.lookup_erase other t
    · rw [if_neg heq]
      exact AList.lookup_erase_ne heq
  · rw [exec_cut_not_mem hmem]
    by_cases heq : other = key
    · subst heq
      rw [if_pos rfl]
      exact AList.lookup_eq_none.mpr hmem
    · rw [if_neg heq]

/-- After a `cut` the key is not there. -/
theorem exec_cut_gone (key : Str) (t : Table) : key ∉ (exec (.cut key) t).2 := by
  rw [← AList.lookup_eq_none, exec_cut_lookup, if_pos rfl]

/-- A container that is already there, or any row under its key, is an error. -/
theorem exec_span_mem {key : Str} {t : Table} (h : rstrip key ∈ t) :
    exec (.span key) t = (.error keyExists, t) := if_pos h

/-- A container that is not there is made, with the empty value. -/
theorem exec_span_not_mem {key : Str} {t : Table} (h : rstrip key ∉ t) :
    exec (.span key) t = (.ok (), t.insert (rstrip key) (.text [])) := if_neg h

/-- A key that ends in a slash is refused, before anything is looked at. -/
theorem exec_set_slash {key : Str} (h : endsInSlash key = true) (value : Json)
    (replace : Bool) (t : Table) :
    ∃ e, exec (.set key value replace) t = (.error e, t)
      ∧ e.isA .csStoreExists = false :=
  ⟨_, if_pos h, rfl⟩

/-- A value that cannot be bound is an error, and nothing is stored. -/
theorem exec_set_unbound {key : Str} (h : endsInSlash key = false) {value : Json} {e : Exc}
    (hb : bindValue setErrorText value = .error e) (replace : Bool) (t : Table) :
    exec (.set key value replace) t = (.error e, t) := by
  rw [exec, if_neg (by rw [h]; exact Bool.false_ne_true), hb]

/-- Without `replace`, a key that is there is an error, and keeps its value. -/
theorem exec_set_mem {key : Str} (h : endsInSlash key = false) {value : Json} {v : SqlValue}
    (hb : bindValue setErrorText value = .ok v) {t : Table} (hmem : key ∈ t) :
    exec (.set key value false) t = (.error keyExists, t) := by
  rw [exec, if_neg (by rw [h]; exact Bool.false_ne_true), hb]
  exact if_pos ⟨rfl, hmem⟩

/-- A key that is not there is stored. -/
theorem exec_set_not_mem {key : Str} (h : endsInSlash key = false) {value : Json}
    {v : SqlValue} (hb : bindValue setErrorText value = .ok v) {t : Table} (hmem : key ∉ t) :
    exec (.set key value false) t = (.ok (), t.insert key v) := by
  rw [exec, if_neg (by rw [h]; exact Bool.false_ne_true), hb]
  exact if_neg (fun hand => hmem hand.2)

/-- **When `set` stores**: the key does not end in a slash, the value can be
    bound, and the key is free or may be replaced. -/
theorem exec_set_done {key : Str} (h : endsInSlash key = false) {value : Json} {v : SqlValue}
    (hb : bindValue setErrorText value = .ok v) {replace : Bool} {t : Table}
    (hfree : ¬ (replace = false ∧ key ∈ t)) :
    exec (.set key value replace) t = (.ok (), t.insert key v) := by
  rw [exec, if_neg (by rw [h]; exact Bool.false_ne_true), hb]
  exact if_neg hfree

/-- **The only ways the table can move**: nothing changes, a fresh key gets a
    value, a key is removed, or a replacing `set` writes over one. -/
theorem exec_cases (c : Call) (t : Table) :
    (exec c t).2 = t
    ∨ (∃ key v, key ∉ t ∧ (exec c t).2 = t.insert key v
        ∧ ((∃ value, c = .set key value false ∧ bindValue setErrorText value = .ok v)
          ∨ ∃ k, c = .span k ∧ key = rstrip k ∧ v = .text []))
    ∨ (∃ key, key ∈ t ∧ c = .cut key ∧ (exec c t).2 = t.erase key)
    ∨ (∃ key value, c = .set key value true) := by
  cases c with
  | get key => exact Or.inl rfl
  | list keyfilter => exact Or.inl rfl
  | set key value replace =>
      cases replace with
      | true => exact Or.inr (Or.inr (Or.inr ⟨key, value, rfl⟩))
      | false =>
          cases hslash : endsInSlash key with
          | true =>
              obtain ⟨e, he, -⟩ := exec_set_slash hslash value false t
              exact Or.inl (by rw [he])
          | false =>
              cases hb : bindValue setErrorText value with
              | error e => exact Or.inl (by rw [exec_set_unbound hslash hb])
              | ok v =>
                  by_cases hmem : key ∈ t
                  · exact Or.inl (by rw [exec_set_mem hslash hb hmem])
                  · refine Or.inr (Or.inl ⟨key, v, hmem, ?_, Or.inl ⟨value, rfl, hb⟩⟩)
                    rw [exec_set_not_mem hslash hb hmem]
  | span key =>
      by_cases hmem : rstrip key ∈ t
      · rw [exec_span_mem hmem]
        exact Or.inl rfl
      · rw [exec_span_not_mem hmem]
        exact Or.inr (Or.inl ⟨rstrip key, .text [], hmem, rfl, Or.inr ⟨key, rfl, rfl, rfl⟩⟩)
  | cut key =>
      by_cases hmem : key ∈ t
      · rw [exec_cut_mem hmem]
        exact Or.inr (Or.inr (Or.inl ⟨key, hmem, rfl, rfl⟩))
      · rw [exec_cut_not_mem hmem]
        exact Or.inl rfl

/-- A row survives every call but its own removal and a replacing `set`. -/
theorem exec_row {c : Call} {t : Table} {key : Str} {v : SqlValue} (h : t.lookup key = some v)
    (hcut : c ≠ .cut key) (hset : c.replaces = false) :
    (exec c t).2.lookup key = some v := by
  have hmem : key ∈ t := AList.lookup_isSome.mp (by rw [h]; rfl)
  rcases exec_cases c t with heq | ⟨k, w, hfree, heq, -⟩ | ⟨k, -, hc, heq⟩ | ⟨k, value, hc⟩
  · rw [heq]; exact h
  · have hne : key ≠ k := by
      rintro rfl
      exact hfree hmem
    rw [heq, AList.lookup_insert_ne hne, h]
  · have hne : key ≠ k := by
      rintro rfl
      exact hcut hc
    rw [heq, AList.lookup_erase_ne hne, h]
  · rw [hc] at hset
    exact nomatch hset

/-- Binding a value never meets an existing row. -/
theorem bindValue_error {text : Str} {value : Json} {e : Exc}
    (h : bindValue text value = .error e) :
    ∃ cls mesg, e = .py cls mesg ∧ cls ≠ .csStoreExists := by
  cases value with
  | null => exact nomatch h
  | bool b => exact nomatch h
  | int n =>
      unfold bindValue at h
      simp only at h
      split_ifs at h
      exact ⟨_, _, (Except.error.inj h).symm, nofun⟩
  | float x =>
      cases x with
      | nan => exact nomatch h
      | inf negative => exact nomatch h
      | finite q => exact nomatch h
  | str s =>
      cases s with
      | text s => exact nomatch h
      | broken units => exact ⟨_, _, (Except.error.inj h).symm, nofun⟩
  | arr items => exact ⟨_, _, (Except.error.inj h).symm, nofun⟩
  | obj fields => exact ⟨_, _, (Except.error.inj h).symm, nofun⟩

/-- The call meets an existing row. -/
def Meets (c : Call) (t : Table) : Prop :=
  (∃ key value, c = .set key value false ∧ key ∈ t) ∨ ∃ key, c = .span key ∧ rstrip key ∈ t

/-- **Only an existing row is reported as one**: every other error of the store
    is of another class, and none is an `HTTPError`. -/
theorem exec_error {c : Call} {t : Table} {e : Exc} (h : (exec c t).1 = .error e) :
    (∃ cls mesg, e = .py cls mesg ∧ cls ≠ .csStoreExists) ∨ Meets c t := by
  cases c with
  | get key => exact nomatch h
  | list keyfilter =>
      refine Or.inl ?_
      have hlist : listing t keyfilter = .error e := h
      rw [listing] at hlist
      simp only at hlist
      split_ifs at hlist
      exact ⟨_, _, (Except.error.inj hlist).symm, nofun⟩
  | set key value replace =>
      cases hslash : endsInSlash key with
      | true =>
          rw [exec, if_pos hslash] at h
          exact Or.inl ⟨_, _, (Except.error.inj h).symm, nofun⟩
      | false =>
          cases hb : bindValue setErrorText value with
          | error e' =>
              rw [exec_set_unbound hslash hb] at h
              obtain rfl := Except.error.inj h
              exact Or.inl (bindValue_error hb)
          | ok v =>
              rw [exec, if_neg (by rw [hslash]; exact Bool.false_ne_true), hb] at h
              by_cases hmem : replace = false ∧ key ∈ t
              · obtain ⟨rfl, hmem⟩ := hmem
                exact Or.inr (Or.inl ⟨key, value, rfl, hmem⟩)
              · simp only [if_neg hmem] at h
                exact nomatch h
  | span key =>
      by_cases hmem : rstrip key ∈ t
      · exact Or.inr (Or.inr ⟨key, rfl, hmem⟩)
      · rw [exec_span_not_mem hmem] at h
        exact nomatch h
  | cut key =>
      obtain ⟨b, hb, -⟩ := exec_cut_answer key t
      rw [hb] at h
      exact nomatch h

/-! ## What `list` answers

    Only three facts about the table decide the shape of the answer: whether
    a row continues the path, and whether the path itself has a row. -/

/-- The row of the listed path is in the table, with or without a slash. -/
def HasParent (t : Table) (path : Str) : Prop := path ∈ t ∨ childPrefix path ∈ t

/-- Some other row continues the listed path. -/
def HasChild (t : Table) (path : Str) : Prop :=
  ∃ key ∈ t, key ≠ path ∧ key ≠ childPrefix path ∧ childPrefix path <+: key

/-- The keys of the rows are the keys of the table. -/
theorem mem_rows {t : Table} {key : Str} : (∃ v, (key, v) ∈ rows t) ↔ key ∈ t := by
  rw [AList.mem_keys]
  constructor
  · rintro ⟨v, hv⟩
    obtain ⟨e, he, heq⟩ := List.mem_map.mp hv
    obtain ⟨rfl, -⟩ := Prod.mk.inj heq
    exact List.mem_map.mpr ⟨e, he, rfl⟩
  · intro h
    obtain ⟨e, he, rfl⟩ := List.mem_map.mp h
    exact ⟨e.2, List.mem_map.mpr ⟨e, he, rfl⟩⟩

/-- What lies below a path begins with it. -/
theorem prefix_childPrefix (path : Str) : path <+: childPrefix path := by
  rw [childPrefix]
  split_ifs
  · exact List.prefix_refl path
  · exact List.prefix_append path [slash]

/-- The loop keeps what it has collected. -/
theorem listLoop_spec (path : Str) :
    ∀ (found : List (Str × SqlValue)) (b : Bool) (acc : List Str),
      ((listLoop path found b acc).1 = true ↔
        b = true ∨ ∃ row ∈ found, row.1 = path ∨ row.1 = childPrefix path)
      ∧ ((listLoop path found b acc).2 ≠ [] ↔
        acc ≠ [] ∨ ∃ row ∈ found, row.1 ≠ path ∧ row.1 ≠ childPrefix path
          ∧ childPrefix path <+: row.1) := by
  intro found
  induction found with
  | nil => intro b acc; simp [listLoop]
  | cons row rest ih =>
      intro b acc
      rw [listLoop]
      by_cases hparent : row.1 = path ∨ row.1 = childPrefix path
      · rw [if_pos hparent]
        obtain ⟨h1, h2⟩ := ih true acc
        refine ⟨by simp [h1, hparent], h2.trans ?_⟩
        have hno : ¬ (row.1 ≠ path ∧ row.1 ≠ childPrefix path ∧ childPrefix path <+: row.1) := by
          rintro ⟨hne, hne', -⟩
          rcases hparent with h | h
          · exact hne h
          · exact hne' h
        simp [hno]
      · rw [if_neg hparent]
        by_cases hbelow : childPrefix path <+: row.1
        · rw [if_neg (not_not.mpr hbelow)]
          obtain ⟨h1, h2⟩ := ih b (acc ++ [childName path row])
          refine ⟨h1.trans (by simp [hparent]), h2.trans ?_⟩
          have hrow : row.1 ≠ path ∧ row.1 ≠ childPrefix path ∧ childPrefix path <+: row.1 :=
            ⟨fun h => hparent (Or.inl h), fun h => hparent (Or.inr h), hbelow⟩
          simp [hrow]
        · rw [if_pos hbelow]
          obtain ⟨h1, h2⟩ := ih b acc
          exact ⟨h1.trans (by simp [hparent]), h2.trans (by simp [hbelow])⟩

/-- The rows that the search has to find are found. -/
theorem mem_found {t : Table} {path : Str} {row : Str × SqlValue}
    (h : path <+: row.1) :
    row ∈ (rows t).filter
        (fun row => like (cString (path ++ ['%'])) (cString row.1)) ↔ row ∈ rows t := by
  rw [List.mem_filter]
  exact ⟨fun hrow => hrow.1, fun hrow => ⟨hrow, like_of_prefix h⟩⟩

/-- A pattern that `LIKE` refuses, in a table with some row to compare. -/
def TooLong (t : Table) (keyfilter : Str) : Prop :=
  likePatternLimit < utf8Length (rstrip keyfilter ++ ['%']) ∧ rows t ≠ []

/-- Sorting loses no name. -/
theorem sorted_ne_nil {names : List Str} (h : names ≠ []) : sorted names ≠ [] := by
  intro hnil
  have hlen := List.length_insertionSort (· ≤ ·) names
  rw [show names.insertionSort (· ≤ ·) = [] from hnil] at hlen
  exact h (List.length_eq_zero_iff.mp hlen.symm)

/-- **What `list` answers**: an error for a pattern that is too long; else a
    non-empty list when some row continues the path, the empty list when only
    the path itself has a row, and `None` when there is nothing. -/
theorem listing_cases (t : Table) {keyfilter : Str} (hne : keyfilter ≠ []) :
    (TooLong t keyfilter ∧ ∃ text, listing t keyfilter = .error (.py .csStoreError text))
    ∨ (¬ TooLong t keyfilter ∧ HasChild t (rstrip keyfilter)
        ∧ ∃ names, names ≠ [] ∧ listing t keyfilter = .ok (some names))
    ∨ (¬ TooLong t keyfilter ∧ ¬ HasChild t (rstrip keyfilter) ∧ HasParent t (rstrip keyfilter)
        ∧ listing t keyfilter = .ok (some []))
    ∨ (¬ TooLong t keyfilter ∧ ¬ HasChild t (rstrip keyfilter) ∧ ¬ HasParent t (rstrip keyfilter)
        ∧ listing t keyfilter = .ok none) := by
  by_cases hlong : TooLong t keyfilter
  · exact Or.inl ⟨hlong, _, if_pos hlong⟩
  · refine Or.inr ?_
    obtain ⟨hloop1, hloop2⟩ := listLoop_spec (rstrip keyfilter)
      ((rows t).filter (fun row =>
        like (cString (rstrip keyfilter ++ ['%'])) (cString row.1))) false []
    -- what the loop has seen, said about the table
    have hparent : (listLoop (rstrip keyfilter) ((rows t).filter (fun row =>
          like (cString (rstrip keyfilter ++ ['%'])) (cString row.1))) false []).1 = true
        ↔ HasParent t (rstrip keyfilter) := by
      rw [hloop1]
      constructor
      · rintro (h | ⟨row, hrow, heq⟩)
        · exact nomatch h
        · have hmem := mem_rows.mp ⟨row.2, (List.mem_filter.mp hrow).1⟩
          rcases heq with heq | heq
          · exact Or.inl (heq ▸ hmem)
          · exact Or.inr (heq ▸ hmem)
      · rintro (h | h)
        · obtain ⟨v, hv⟩ := mem_rows.mpr h
          exact Or.inr ⟨_, (mem_found (List.prefix_refl _)).mpr hv, Or.inl rfl⟩
        · obtain ⟨v, hv⟩ := mem_rows.mpr h
          exact Or.inr ⟨_, (mem_found (prefix_childPrefix _)).mpr hv, Or.inr rfl⟩
    have hchild : (listLoop (rstrip keyfilter) ((rows t).filter (fun row =>
          like (cString (rstrip keyfilter ++ ['%'])) (cString row.1))) false []).2 ≠ []
        ↔ HasChild t (rstrip keyfilter) := by
      rw [hloop2]
      constructor
      · rintro (h | ⟨row, hrow, hne1, hne2, hpre⟩)
        · exact absurd rfl h
        · exact ⟨row.1, mem_rows.mp ⟨row.2, (List.mem_filter.mp hrow).1⟩, hne1, hne2, hpre⟩
      · rintro ⟨key, hkey, hne1, hne2, hpre⟩
        obtain ⟨v, hv⟩ := mem_rows.mpr hkey
        exact Or.inr ⟨(key, v),
          (mem_found ((prefix_childPrefix _).trans hpre)).mpr hv, hne1, hne2, hpre⟩
    have hrun : listing t keyfilter = _ := if_neg hlong
    by_cases hfound : (rows t).filter (fun row =>
        like (cString (rstrip keyfilter ++ ['%'])) (cString row.1)) = []
    · -- no row found at all
      rw [if_neg (not_not.mpr hfound), if_neg hne] at hrun
      rw [hfound] at hparent hchild
      have hnp : ¬ HasParent t (rstrip keyfilter) := fun h => nomatch hparent.mpr h
      have hnc : ¬ HasChild t (rstrip keyfilter) := fun h => absurd rfl (hchild.mpr h)
      exact Or.inr (Or.inr ⟨hlong, hnc, hnp, hrun⟩)
    · rw [if_pos hfound] at hrun
      by_cases hres : HasChild t (rstrip keyfilter)
      · rw [if_pos (hchild.mpr hres)] at hrun
        exact Or.inl ⟨hlong, hres, _, sorted_ne_nil (hchild.mpr hres), hrun⟩
      · rw [if_neg (fun h => hres (hchild.mp h))] at hrun
        by_cases hpar : HasParent t (rstrip keyfilter)
        · rw [if_pos (hparent.mpr hpar)] at hrun
          exact Or.inr (Or.inl ⟨hlong, hres, hpar, hrun⟩)
        · rw [if_neg (fun h => hpar (hparent.mp h))] at hrun
          exact Or.inr (Or.inr ⟨hlong, hres, hpar, hrun⟩)

end SqliteStore
