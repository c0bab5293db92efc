import Mathlib.Algebra.GroupWithZero.Nat
import Mathlib.Data.List.DropRight
import Mathlib.Data.List.Infix
import Mathlib.Data.List.Basic

/-! # SeparatedNames — hierarchical names spelled with a separator

    A flat text can spell a place in a tree: the names on the way from the
    root, joined by a separator. Over any alphabet with a separator `sep`
    this file relates the two views:

    * `spell` joins names; on proper names (non-empty, free of `sep`) it is
      injective and "spelled below" is "strictly longer path" (`below_spell`);
    * `Within` is the flat subtree relation, and distinct single names span
      disjoint subtrees (`within_disjoint`);
    * `trimRight` removes trailing separators. -/

namespace SeparatedNames

variable {α : Type} [DecidableEq α] (sep : α)

/-- The text that spells a path. -/
def spell (names : List (List α)) : List α := [sep].intercalate names

/-- A name that can be told apart in a spelled path. -/
def Proper (name : List α) : Prop := name ≠ [] ∧ sep ∉ name

instance (name : List α) : Decidable (Proper sep name) :=
  inferInstanceAs (Decidable (_ ∧ _))

/-- The text `t` is `base`, or lies in the subtree below `base`. -/
def Within (base t : List α) : Prop := t = base ∨ base ++ [sep] <+: t

instance (base t : List α) : Decidable (Within sep base t) :=
  inferInstanceAs (Decidable (_ ∨ _))

/-- Remove all trailing separators. -/
def trimRight (t : List α) : List α := t.rdropWhile (fun c => decide (c = sep))

/-- Remove all leading separators. -/
def trimLeft (t : List α) : List α := t.dropWhile (fun c => decide (c = sep))

/-! ## Spelling -/

omit [DecidableEq α] in
@[simp] theorem spell_singleton (name : List α) : spell sep [name] = name :=
  List.intercalate_singleton

omit [DecidableEq α] in
/-- Spelling puts a separator behind the first name, if others follow. -/
theorem spell_cons (name : List α) {names : List (List α)} (h : names ≠ []) :
    spell sep (name :: names) = name ++ sep :: spell sep names := by
  rw [spell, List.intercalate_cons_of_ne_nil h, spell]
  simp

omit [DecidableEq α] in
/-- **Two lists of names are spelled one behind the other**, with a separator
    between them. -/
theorem spell_append {names more : List (List α)} (hn : names ≠ []) (hm : more ≠ []) :
    spell sep (names ++ more) = spell sep names ++ sep :: spell sep more := by
  induction names with
  | nil => exact absurd rfl hn
  | cons a names ih =>
      cases names with
      | nil => rw [List.singleton_append, spell_cons sep a hm, spell_singleton]
      | cons b names =>
          rw [List.cons_append, spell_cons sep a (by simp), ih (List.cons_ne_nil b names),
            spell_cons sep a (List.cons_ne_nil b names)]
          simp

/-- **Splitting gives back the names that were spelled**, if they hold no
    separator. -/
theorem splitOn_spell {names : List (List α)} (hn : names ≠ [])
    (hp : ∀ name ∈ names, sep ∉ name) : (spell sep names).splitOn sep = names :=
  List.splitOn_intercalate sep hp hn

/-- Spelling is injective on paths whose names are free of the separator. -/
theorem spell_inj {names more : List (List α)} (hn : names ≠ []) (hm : more ≠ [])
    (hpn : ∀ name ∈ names, sep ∉ name) (hpm : ∀ name ∈ more, sep ∉ name)
    (h : spell sep names = spell sep more) : names = more := by
  rw [← splitOn_spell sep hn hpn, h, splitOn_spell sep hm hpm]

/-- **Spelled below is strictly longer**: one spelled path extends another
    across a separator exactly when the path itself is a proper extension. -/
theorem below_spell {names more : List (List α)} (hn : names ≠ []) (hm : more ≠ [])
    (hpn : ∀ name ∈ names, sep ∉ name) (hpm : ∀ name ∈ more, sep ∉ name) :
    spell sep names ++ [sep] <+: spell sep more ↔
      ∃ tail, tail ≠ [] ∧ more = names ++ tail := by
  constructor
  · rintro ⟨rest, hrest⟩
    refine ⟨rest.splitOn sep, List.splitOn_ne_nil sep rest, ?_⟩
    calc more = (spell sep more).splitOn sep := (splitOn_spell sep hm hpm).symm
      _ = (spell sep names ++ sep :: rest).splitOn sep := by rw [← hrest]; simp
      _ = (spell sep names).splitOn sep ++ rest.splitOn sep :=
          List.splitOn_append_cons_self _ _
      _ = names ++ rest.splitOn sep := by rw [splitOn_spell sep hn hpn]
  · rintro ⟨tail, htail, rfl⟩
    rw [spell_append sep hn htail]
    exact ⟨spell sep tail, by simp⟩

/-- Spelling adds one separator between two names. -/
theorem count_spell {names : List (List α)} (hn : names ≠ []) :
    (spell sep names).count sep + 1 = (names.map (List.count sep)).sum + names.length := by
  induction names with
  | nil => exact absurd rfl hn
  | cons a names ih =>
      cases names with
      | nil => simp
      | cons b names =>
          have hcount := ih (List.cons_ne_nil b names)
          rw [spell_cons sep a (List.cons_ne_nil b names), List.count_append,
            List.count_cons_self, List.map_cons, List.sum_cons, List.length_cons]
          omega

/-- Where no name contains the separator, these are all. -/
theorem count_spell_of_free {names : List (List α)} (hn : names ≠ [])
    (hfree : ∀ name ∈ names, sep ∉ name) : (spell sep names).count sep + 1 = names.length := by
  have hnone : (names.map (List.count sep)).sum = 0 := by
    refine List.sum_eq_zero_iff_forall_eq_nat.mpr ?_
    intro n hmem
    obtain ⟨name, hname, rfl⟩ := List.mem_map.mp hmem
    exact List.count_eq_zero.mpr (hfree name hname)
  rw [count_spell sep hn, hnone, Nat.zero_add]

omit [DecidableEq α] in
/-- The length of a spelled text. -/
theorem length_spell {names : List (List α)} (hn : names ≠ []) :
    (spell sep names).length + 1 = (names.map (fun name => name.length + 1)).sum := by
  induction names with
  | nil => exact absurd rfl hn
  | cons a names ih =>
      cases names with
      | nil => simp
      | cons b names =>
          have hlength := ih (List.cons_ne_nil b names)
          rw [spell_cons sep a (List.cons_ne_nil b names), List.length_append,
            List.length_cons, List.map_cons, List.sum_cons]
          omega

/-- Where every separator of the text stands between two names, none is in a
    name. -/
theorem free_of_count_spell {names : List (List α)} (hn : names ≠ [])
    (h : (spell sep names).count sep < names.length) : ∀ name ∈ names, sep ∉ name := by
  have hcount := count_spell sep hn
  have hsum : (names.map (List.count sep)).sum = 0 := by omega
  intro name hname
  exact List.count_eq_zero.mp
    (List.sum_eq_zero_iff_forall_eq_nat.mp hsum _ (List.mem_map_of_mem hname))

/-- Every text is spelled by names that are free of the separator. -/
theorem exists_spell (t : List α) :
    ∃ names, names ≠ [] ∧ (∀ name ∈ names, sep ∉ name) ∧ spell sep names = t := by
  induction t with
  | nil => exact ⟨[[]], List.cons_ne_nil _ _, by simp, spell_singleton sep []⟩
  | cons c t ih =>
      obtain ⟨names, hne, hfree, rfl⟩ := ih
      by_cases hc : c = sep
      · -- a separator begins a new name
        subst hc
        refine ⟨[] :: names, List.cons_ne_nil _ _, ?_, by rw [spell_cons c [] hne]; rfl⟩
        intro name hname
        rcases List.mem_cons.mp hname with rfl | hname
        · exact List.not_mem_nil
        · exact hfree name hname
      · -- any other character extends the first one
        cases names with
        | nil => exact absurd rfl hne
        | cons a names =>
            refine ⟨(c :: a) :: names, List.cons_ne_nil _ _, ?_, ?_⟩
            · intro name hname
              rcases List.mem_cons.mp hname with rfl | hname
              · intro hmem
                rcases List.mem_cons.mp hmem with heq | hmem
                · exact hc heq.symm
                · exact hfree a List.mem_cons_self hmem
              · exact hfree name (List.mem_cons_of_mem _ hname)
            · cases names with
              | nil => rw [spell_singleton, spell_singleton]
              | cons b names =>
                  rw [spell_cons sep _ (List.cons_ne_nil b names),
                    spell_cons sep _ (List.cons_ne_nil b names)]
                  rfl

/-! ## Words in a spelled text -/

omit [DecidableEq α] in
/-- A word free of the separator does not reach across it. -/
theorem infix_append_cons {w a b : List α} (hw : sep ∉ w) :
    w <:+: a ++ sep :: b ↔ w <:+: a ∨ w <:+: b := by
  have hstart {l : List α} (hl : sep ∉ l) (h : l <+: sep :: b) : l = [] := by
    cases l with
    | nil => rfl
    | cons c l =>
        obtain rfl : c = sep := (List.cons_prefix_cons.mp h).1
        exact absurd List.mem_cons_self hl
  constructor
  · intro h
    rcases List.infix_append_iff.mp h with h | h | ⟨l, r, rfl, hl, hr⟩
    · exact Or.inl h
    · rcases List.infix_cons_iff.mp h with h | h
      · rw [hstart hw h]
        exact Or.inl List.nil_infix
      · exact Or.inr h
    · -- nothing of the word is left behind the separator
      obtain rfl := hstart (fun hr => hw (List.mem_append_right l hr)) hr
      rw [List.append_nil]
      exact Or.inl hl.isInfix
  · rintro (h | h)
    · exact h.trans ⟨[], sep :: b, rfl⟩
    · exact h.trans ⟨a ++ [sep], [], by simp⟩

omit [DecidableEq α] in
/-- **A word free of the separator occurs in a spelled text exactly if it
    occurs in one of the names.** -/
theorem infix_spell_iff {w : List α} (hw : sep ∉ w) {names : List (List α)} (hn : names ≠ []) :
    w <:+: spell sep names ↔ ∃ name ∈ names, w <:+: name := by
  induction names with
  | nil => exact absurd rfl hn
  | cons a names ih =>
      cases names with
      | nil => simp
      | cons b names =>
          rw [spell_cons sep a (List.cons_ne_nil b names), infix_append_cons sep hw,
            ih (List.cons_ne_nil b names)]
          simp

omit [DecidableEq α] in
/-- The other characters of a spelled text are those of the names. -/
theorem mem_spell_iff {c : α} (hc : c ≠ sep) {names : List (List α)} (hn : names ≠ []) :
    c ∈ spell sep names ↔ ∃ name ∈ names, c ∈ name := by
  have hw : sep ∉ [c] := fun h => hc (List.mem_singleton.mp h).symm
  have hinfix := infix_spell_iff sep hw hn
  simpa only [List.singleton_infix_iff] using hinfix

/-! ## Subtrees -/

omit [DecidableEq α] in
/-- Whatever follows a text in a subtree is in the subtree, if the text
    already carries the separator. -/
theorem within_append {base t : List α} (rest : List α) (h : base ++ [sep] <+: t) :
    Within sep base (t ++ rest) :=
  Or.inr (h.trans (List.prefix_append t rest))

omit [DecidableEq α] in
/-- Within a subtree, the text continues the base by nothing or by the
    separator. -/
theorem within_iff {base t : List α} :
    Within sep base t ↔ ∃ rest, t = base ++ rest ∧ (rest = [] ∨ rest.head? = some sep) := by
  constructor
  · rintro (rfl | ⟨rest, rfl⟩)
    · exact ⟨[], by simp, Or.inl rfl⟩
    · exact ⟨sep :: rest, by simp, Or.inr rfl⟩
  · rintro ⟨rest, rfl, hrest⟩
    cases rest with
    | nil => exact Or.inl (List.append_nil base)
    | cons c rest =>
        rcases hrest with h | h
        · exact nomatch h
        · obtain rfl : c = sep := Option.some.inj h
          exact Or.inr ⟨rest, by simp⟩

/-- The part of a text before its first separator. -/
def firstName (t : List α) : List α := t.takeWhile (fun c => decide (c ≠ sep))

/-- The first name of a text ends where the text does, or at its first
    separator. -/
theorem firstName_append {name rest : List α} (hname : sep ∉ name)
    (hrest : rest = [] ∨ rest.head? = some sep) : firstName sep (name ++ rest) = name := by
  have hall : ∀ c ∈ name, decide (c ≠ sep) = true := by
    intro c hc
    have hne : c ≠ sep := by rintro rfl; exact hname hc
    simpa using hne
  rw [firstName, List.takeWhile_append_of_pos hall]
  cases rest with
  | nil => simp
  | cons c rest =>
      rcases hrest with h | h
      · exact nomatch h
      · obtain rfl : c = sep := Option.some.inj h
        simp

/-- Below a common root, a text in the subtree of a single name has that name
    first. -/
theorem firstName_of_within {root name t : List α} (hname : sep ∉ name)
    (h : Within sep (root ++ sep :: name) (root ++ sep :: t)) :
    firstName sep t = name := by
  obtain ⟨rest, heq, hrest⟩ := (within_iff sep).mp h
  have ht : t = name ++ rest := by simpa using heq
  rw [ht]
  exact firstName_append sep hname hrest

/-- **Distinct names span disjoint subtrees.** What lies at or below one name is
    neither at nor below another name in the same place. -/
theorem within_disjoint {root name other t : List α} (hname : sep ∉ name)
    (hother : sep ∉ other) (h : Within sep (root ++ sep :: name) t)
    (h' : Within sep (root ++ sep :: other) t) : name = other := by
  obtain ⟨rest, heq, hrest⟩ := (within_iff sep).mp h
  have ht : t = root ++ sep :: (name ++ rest) := by simpa using heq
  rw [ht] at h'
  rw [← firstName_append sep hname hrest]
  exact firstName_of_within sep hother h'

/-! ## Trailing separators -/

omit [DecidableEq α] in
/-- A text without separators does not end in one. -/
theorem getLast?_ne_of_not_mem {t : List α} (h : sep ∉ t) : t.getLast? ≠ some sep := by
  intro hlast
  exact h (List.mem_of_getLast? hlast)

/-- Trimming does nothing exactly where there is no separator at the end. -/
theorem trimRight_eq_self_iff {t : List α} :
    trimRight sep t = t ↔ t.getLast? ≠ some sep := by
  rw [trimRight, List.rdropWhile_eq_self_iff]
  constructor
  · intro h hlast
    have hne : t ≠ [] := by rintro rfl; exact nomatch hlast
    have hget : t.getLast hne = sep := by
      rw [List.getLast?_eq_getLast_of_ne_nil hne] at hlast
      exact Option.some.inj hlast
    exact h hne (by simp [hget])
  · intro h hne hdec
    refine h ?_
    rw [List.getLast?_eq_getLast_of_ne_nil hne]
    exact congrArg some (of_decide_eq_true hdec)

/-- Trimming removes one more separator as well. -/
theorem trimRight_concat (t : List α) : trimRight sep (t ++ [sep]) = trimRight sep t :=
  List.rdropWhile_concat_pos _ _ _ (by simp)

/-- What has been trimmed does not end in a separator. -/
theorem getLast?_trimRight (t : List α) : (trimRight sep t).getLast? ≠ some sep := by
  intro hlast
  have hne : trimRight sep t ≠ [] := by
    intro h
    rw [h] at hlast
    exact nomatch hlast
  have hnot := List.rdropWhile_last_not (fun c => decide (c = sep)) t hne
  rw [List.getLast?_eq_getLast_of_ne_nil hne] at hlast
  exact hnot (decide_eq_true (Option.some.inj hlast))

@[simp] theorem trimRight_trimRight (t : List α) :
    trimRight sep (trimRight sep t) = trimRight sep t :=
  (trimRight_eq_self_iff sep).mpr (getLast?_trimRight sep t)

/-- Trimming does nothing exactly where there is no separator at the beginning. -/
theorem trimLeft_eq_self_iff {t : List α} : trimLeft sep t = t ↔ t.head? ≠ some sep := by
  rw [trimLeft]
  cases t with
  | nil => simp
  | cons c t =>
      by_cases hc : c = sep
      · refine iff_of_false (fun h => ?_) (fun h => h (congrArg some hc))
        rw [List.dropWhile_cons_of_pos (by simpa using hc)] at h
        have hle := (List.dropWhile_suffix (fun c => decide (c = sep)) (l := t)).length_le
        rw [h, List.length_cons] at hle
        omega
      · rw [List.dropWhile_cons_of_neg (by simpa using hc)]
        exact iff_of_true rfl (fun h => hc (Option.some.inj h))

/-- A text is its trimmed part followed by separators only. -/
theorem trimRight_append (t : List α) :
    ∃ n, t = trimRight sep t ++ List.replicate n sep := by
  induction t using List.reverseRecOn with
  | nil => exact ⟨0, rfl⟩
  | append_singleton t c ih =>
      by_cases hc : c = sep
      · subst hc
        obtain ⟨n, hn⟩ := ih
        refine ⟨n + 1, ?_⟩
        rw [trimRight_concat, List.replicate_succ', ← List.append_assoc, ← hn]
      · refine ⟨0, ?_⟩
        have : trimRight sep (t ++ [c]) = t ++ [c] :=
          (trimRight_eq_self_iff sep).mpr (by simpa using hc)
        simp [this]

end SeparatedNames
