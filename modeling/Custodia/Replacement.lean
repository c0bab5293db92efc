import Mathlib.Data.List.Infix
import Mathlib.Data.List.Flatten

/-! # Replacement — names with a separator spelled as a doubled mark

    `replace` is the leftmost-first replacement of a text by another. A name
    is often made safe by spelling its separator `a` as two marks `b`, and read
    back by replacing two marks by the separator. Both directions work from
    left to right, so a mark NEXT TO a separator can be read in several ways.

    * `halve_double_iff`: a name is read back exactly if no mark stands before
      a separator;
    * `double_unique_iff`: its spelling is its own exactly if nothing stands
      next to a separator that is a mark or a separator. -/

namespace Replacement

variable {α : Type} [DecidableEq α]

/-! ## Replacement -/

/-- Replace in what is left after `skip` more letters. -/
def replaceFrom (old new : List α) : Nat → List α → List α
  | _, [] => []
  | skip + 1, _ :: s => replaceFrom old new skip s
  | 0, c :: s =>
      if old <+: c :: s then new ++ replaceFrom old new (old.length - 1) s
      else c :: replaceFrom old new 0 s

/-- `s.replace(old, new)`, for a text `old` that is not empty. -/
def replace (old new s : List α) : List α := replaceFrom old new 0 s

/-- Where the old text does not begin, one character is passed over. -/
theorem replace_cons_of_not {old new s : List α} {c : α} (h : ¬ old <+: c :: s) :
    replace old new (c :: s) = c :: replace old new s := if_neg h

/-- Replacing single characters is done one character at a time. -/
theorem replace_single (a : α) (new s : List α) (c : α) :
    replace [a] new (c :: s) = (if c = a then new else [c]) ++ replace [a] new s := by
  by_cases hc : c = a
  · subst hc
    rw [if_pos rfl]
    exact if_pos ⟨s, rfl⟩
  · rw [if_neg hc]
    refine replace_cons_of_not ?_
    rintro ⟨t, ht⟩
    exact hc (List.cons.inj ht).1.symm

/-- A pair that begins the text is replaced, and the search goes on behind it. -/
theorem replace_pair (b : α) (new s : List α) :
    replace [b, b] new (b :: b :: s) = new ++ replace [b, b] new s := by
  have hpre : [b, b] <+: b :: b :: s := ⟨s, rfl⟩
  exact if_pos hpre

/-! ## Doubling and halving -/

variable (a b : α)

/-- Spell every separator as two marks. -/
def double (w : List α) : List α := replace [a] [b, b] w

/-- Read two marks as a separator, from left to right. -/
def halve (v : List α) : List α := replace [b, b] [a] v

/-- No two marks stand side by side: the names that are spelled at all. -/
def Clean (w : List α) : Prop := ¬ [b, b] <:+: w

instance (w : List α) : Decidable (Clean b w) := inferInstanceAs (Decidable (¬ _))

variable {a b}

/-- The empty text has nothing to be doubled. -/
theorem double_nil : double a b [] = [] := rfl

/-- A separator is written as two marks. -/
theorem double_sep (w : List α) : double a b (a :: w) = b :: b :: double a b w := by
  rw [double, replace_single, if_pos rfl]
  rfl

/-- What is no separator is written as it is. -/
theorem double_cons {c : α} (hc : c ≠ a) (w : List α) :
    double a b (c :: w) = c :: double a b w := by
  rw [double, replace_single, if_neg hc]
  rfl

/-- The empty text has no marks to be halved. -/
theorem halve_nil : halve a b [] = [] := rfl

/-- Two marks are read as a separator. -/
theorem halve_pair (v : List α) : halve a b (b :: b :: v) = a :: halve a b v :=
  replace_pair b [a] v

/-- Where no two marks begin, one character is read as it is. -/
theorem halve_cons {c : α} {v : List α} (h : ¬ [b, b] <+: c :: v) :
    halve a b (c :: v) = c :: halve a b v := replace_cons_of_not h

/-- A mark is read as itself unless another follows. -/
theorem halve_mark {v : List α} (h : v.head? ≠ some b) :
    halve a b (b :: v) = b :: halve a b v := by
  refine halve_cons ?_
  rintro ⟨t, ht⟩
  have hv : b :: t = v := (List.cons.inj ht).2
  exact h (by rw [← hv]; rfl)

/-- What is no mark is read as it is. -/
theorem halve_other {c : α} (hc : c ≠ b) (v : List α) :
    halve a b (c :: v) = c :: halve a b v := by
  refine halve_cons ?_
  rintro ⟨t, ht⟩
  exact hc (List.cons.inj ht).1.symm

/-- Doubling goes character by character. -/
theorem double_eq_flatMap (w : List α) :
    double a b w = w.flatMap (fun c => if c = a then [b, b] else [c]) := by
  induction w with
  | nil => rfl
  | cons c w ih =>
      rw [double, replace_single, List.flatMap_cons, ← ih]
      rfl

/-- Doubling a text is doubling its parts. -/
theorem double_append (w w' : List α) :
    double a b (w ++ w') = double a b w ++ double a b w' := by
  rw [double_eq_flatMap, double_eq_flatMap, double_eq_flatMap, List.flatMap_append]

/-- Only the empty text is written as nothing. -/
theorem double_eq_nil {w : List α} : double a b w = [] ↔ w = [] := by
  cases w with
  | nil => exact iff_of_true rfl rfl
  | cons c w =>
      refine iff_of_false ?_ (List.cons_ne_nil c w)
      by_cases hc : c = a
      · subst hc
        rw [double_sep]
        exact List.cons_ne_nil _ _
      · rw [double_cons hc]
        exact List.cons_ne_nil _ _

/-- Two marks read the same in both directions. -/
theorem double_reverse (w : List α) :
    double a b w.reverse = (double a b w).reverse := by
  induction w with
  | nil => rfl
  | cons c w ih =>
      rw [List.reverse_cons, double_append, ih]
      by_cases hc : c = a
      · subst hc
        rw [double_sep, double_sep, double_nil]
        simp
      · rw [double_cons hc, double_cons hc, double_nil, List.reverse_cons]

/-- What is spelled begins with a mark only if the name does, or begins with a
    separator. -/
theorem head?_double {w : List α} (hab : a ≠ b) :
    (double a b w).head? = some b ↔ w.head? = some a ∨ w.head? = some b := by
  cases w with
  | nil => simp [double_nil]
  | cons c w =>
      by_cases hc : c = a
      · subst hc
        rw [double_sep]
        simp
      · rw [double_cons hc]
        simp [hc]

/-- **No separator is left in what is written**: each of them has become two
    marks, and everything else is kept. -/
theorem sep_not_mem_double (hab : a ≠ b) (w : List α) : a ∉ double a b w := by
  induction w with
  | nil => exact List.not_mem_nil
  | cons c w ih =>
      by_cases hc : c = a
      · subst hc
        rw [double_sep]
        simp [hab, ih]
      · rw [double_cons hc]
        simp [Ne.symm hc, ih]

omit [DecidableEq α] in
/-- A text without two marks in a row has none after its first character either. -/
theorem Clean.tail {c : α} {w : List α} (h : Clean b (c :: w)) : Clean b w :=
  fun hw => h (List.infix_cons hw)

omit [DecidableEq α] in
/-- In a text without two marks in a row, the first mark is followed by
    something else. -/
theorem Clean.head {w : List α} (h : Clean b (b :: w)) : w.head? ≠ some b := by
  intro hw
  cases w with
  | nil => cases hw
  | cons c w =>
      obtain rfl := Option.some.inj hw
      exact h ⟨[], w, rfl⟩

/-! ## Reading back -/

omit [DecidableEq α] in
/-- A mark before a separator is found in the rest, unless the first two
    characters are one. -/
theorem mark_sep_cons {c : α} {w : List α} (h : ¬ (c = b ∧ w.head? = some a)) :
    [b, a] <:+: c :: w ↔ [b, a] <:+: w := by
  rw [List.infix_cons_iff]
  refine or_iff_right ?_
  rintro ⟨t, ht⟩
  have ht : b :: a :: t = c :: w := ht
  obtain ⟨rfl, rfl⟩ := List.cons.inj ht
  exact h ⟨rfl, rfl⟩

/-- **A name is read back** from its spelling exactly if no mark stands before
    a separator. -/
theorem halve_double_iff (hab : a ≠ b) {w : List α} (hw : Clean b w) :
    halve a b (double a b w) = w ↔ ¬ [b, a] <:+: w := by
  induction w with
  | nil => exact iff_of_true rfl (by simp)
  | cons c w ih =>
      by_cases hmark : c = b ∧ w.head? = some a
      · -- the separator comes out first
        obtain ⟨rfl, hhead⟩ := hmark
        cases w with
        | nil => cases hhead
        | cons d w =>
            obtain rfl := Option.some.inj hhead
            refine iff_of_false ?_ (not_not.mpr ⟨[], w, rfl⟩)
            rw [double_cons (Ne.symm hab), double_sep, halve_pair]
            exact fun h => hab (List.cons.inj h).1
      · rw [mark_sep_cons hmark, ← ih hw.tail]
        have hread : halve a b (double a b (c :: w)) = c :: halve a b (double a b w) := by
          by_cases hsep : c = a
          · subst hsep
            rw [double_sep, halve_pair]
          · rw [double_cons hsep]
            by_cases hc : c = b
            · subst hc
              refine halve_mark (fun hhead => ?_)
              rcases (head?_double hab).mp hhead with h | h
              · exact hmark ⟨rfl, h⟩
              · exact hw.head h
            · exact halve_other hc _
        rw [hread]
        exact ⟨fun h => (List.cons.inj h).2, congrArg (c :: ·)⟩

/-! ## Names with the same spelling -/

/-- A letter that is read alone is no mark before a mark. -/
theorem halve_cases (v : List α) :
    v = [] ∨ (∃ v', v = b :: b :: v' ∧ halve a b v = a :: halve a b v')
    ∨ ∃ c v', v = c :: v' ∧ ¬ (c = b ∧ v'.head? = some b)
      ∧ halve a b v = c :: halve a b v' := by
  match v with
  | [] => exact Or.inl rfl
  | c :: v' =>
      by_cases hpair : [b, b] <+: c :: v'
      · obtain ⟨t, ht⟩ := hpair
        have ht : b :: b :: t = c :: v' := ht
        refine Or.inr (Or.inl ⟨t, ht.symm, ?_⟩)
        rw [← ht, halve_pair]
      · refine Or.inr (Or.inr ⟨c, v', rfl, ?_, halve_cons hpair⟩)
        rintro ⟨rfl, hhead⟩
        cases v' with
        | nil => cases hhead
        | cons d v' =>
            obtain rfl := Option.some.inj hhead
            exact hpair ⟨v', rfl⟩

/-- What is read is spelled as it was. -/
theorem double_halve {v : List α} (hv : a ∉ v) : double a b (halve a b v) = v := by
  induction hn : v.length using Nat.strong_induction_on generalizing v with
  | _ n ih =>
      subst hn
      rcases halve_cases (a := a) (b := b) v with rfl | ⟨v', rfl, hread⟩ |
        ⟨c, v', rfl, -, hread⟩
      · rfl
      · rw [hread, double_sep, ih v'.length (by simp only [List.length_cons]; omega)
          (fun h => hv (by simp [h])) rfl]
      · have hc : c ≠ a := by
          rintro rfl
          exact hv List.mem_cons_self
        rw [hread, double_cons hc, ih v'.length (by simp) (fun h => hv (by simp [h])) rfl]

/-- Where what is read begins with a mark, the text does. -/
theorem head?_halve {v : List α} (h : (halve a b v).head? = some b) :
    v.head? = some b := by
  rcases halve_cases (a := a) (b := b) v with rfl | ⟨v', rfl, hread⟩ | ⟨c, v', rfl, -, hread⟩
  · exact h
  · rfl
  · rw [hread] at h
    exact h

/-- What is read is clean. -/
theorem clean_halve (hab : a ≠ b) (v : List α) : Clean b (halve a b v) := by
  induction hn : v.length using Nat.strong_induction_on generalizing v with
  | _ n ih =>
      subst hn
      rcases halve_cases (a := a) (b := b) v with rfl | ⟨v', rfl, hread⟩ |
        ⟨c, v', rfl, hmark, hread⟩
      · exact fun h => by simp [halve_nil] at h
      · rw [hread]
        intro h
        rcases List.infix_cons_iff.mp h with ⟨t, ht⟩ | h
        · exact hab (List.cons.inj ht).1.symm
        · exact ih v'.length (by simp only [List.length_cons]; omega) v' rfl h
      · rw [hread]
        intro h
        rcases List.infix_cons_iff.mp h with ⟨t, ht⟩ | h
        · have ht : b :: b :: t = c :: halve a b v' := ht
          obtain ⟨hc, hrest⟩ := List.cons.inj ht
          exact hmark ⟨hc.symm, head?_halve (by rw [← hrest]; rfl)⟩
        · exact ih v'.length (by simp) v' rfl h

/-- Neither a mark nor a separator stands next to a separator. -/
def Apart (a b : α) (w : List α) : Prop :=
  ¬ [b, a] <:+: w ∧ ¬ [a, b] <:+: w ∧ ¬ [a, a] <:+: w

instance (a b : α) (w : List α) : Decidable (Apart a b w) :=
  inferInstanceAs (Decidable (_ ∧ _))

omit [DecidableEq α] in
/-- A text whose marks are apart from its separators stays so without its first
    character. -/
theorem Apart.tail {c : α} {w : List α} (h : Apart a b (c :: w)) : Apart a b w :=
  ⟨fun hw => h.1 (List.infix_cons hw), fun hw => h.2.1 (List.infix_cons hw),
    fun hw => h.2.2 (List.infix_cons hw)⟩

/-- After a separator or a mark, the spelling goes on with another letter. -/
theorem Apart.head?_double {c : α} {w : List α} (hab : a ≠ b) (hw : Clean b (c :: w))
    (h : Apart a b (c :: w)) (hc : c = a ∨ c = b) : (double a b w).head? ≠ some b := by
  intro hhead
  cases w with
  | nil => cases hhead
  | cons d w =>
      have hpair : [c, d] <:+: c :: d :: w := ⟨[], w, rfl⟩
      rcases (Replacement.head?_double hab).mp hhead with hd | hd
      · obtain rfl := Option.some.inj hd
        rcases hc with rfl | rfl
        · exact h.2.2 hpair
        · exact h.1 hpair
      · obtain rfl := Option.some.inj hd
        rcases hc with rfl | rfl
        · exact h.2.1 hpair
        · exact hw hpair

/-- Where all separators stand apart, the spelling is that of one name. -/
theorem double_unique (hab : a ≠ b) {w w' : List α} (hw : Clean b w) (hw' : Clean b w')
    (hapart : Apart a b w) (h : double a b w' = double a b w) : w' = w := by
  induction w generalizing w' with
  | nil => exact double_eq_nil.mp h
  | cons c w ih =>
      have hrest := fun {u : List α} (hu : Clean b u) => ih hw.tail hu hapart.tail
      cases w' with
      | nil => exact absurd (double_eq_nil.mp h.symm) (List.cons_ne_nil c w)
      | cons d w' =>
          by_cases hc : c = a
          · subst hc
            have hhead := hapart.head?_double hab hw (Or.inl rfl)
            by_cases hd : d = c
            · subst hd
              rw [double_sep, double_sep] at h
              rw [hrest hw'.tail (List.cons.inj (List.cons.inj h).2).2]
            · -- one mark of the other name, and what follows is no mark
              exfalso
              rw [double_cons hd, double_sep] at h
              obtain ⟨rfl, htail⟩ := List.cons.inj h
              have hmark : (double c d w').head? = some d := by rw [htail]; rfl
              rcases (head?_double hab).mp hmark with hsep | hsame
              · cases w' with
                | nil => cases hsep
                | cons e w' =>
                    obtain rfl := Option.some.inj hsep
                    rw [double_sep] at htail
                    exact hhead (by rw [← (List.cons.inj htail).2]; rfl)
              · exact hw'.head hsame
          · rw [double_cons hc] at h
            by_cases hd : d = a
            · exfalso
              subst hd
              rw [double_sep] at h
              obtain ⟨rfl, htail⟩ := List.cons.inj h
              exact hapart.head?_double hab hw (Or.inr rfl) (by rw [← htail]; rfl)
            · rw [double_cons hd] at h
              obtain ⟨rfl, htail⟩ := List.cons.inj h
              rw [hrest hw'.tail htail]

omit [DecidableEq α] in
/-- A text occurs in a reversed one exactly if its reverse occurs in the text
    itself. -/
theorem reverse_infix_iff {u w : List α} : u <:+: w.reverse ↔ u.reverse <:+: w := by
  rw [← List.reverse_infix, List.reverse_reverse]

omit [DecidableEq α] in
/-- Two marks in a row are two marks in a row from either end. -/
theorem clean_reverse {w : List α} : Clean b w.reverse ↔ Clean b w := by
  rw [Clean, Clean, reverse_infix_iff]
  rfl

/-- A name that is not read back shares its spelling with what is read. -/
theorem shared_of_mark_sep (hab : a ≠ b) {w : List α} (hw : Clean b w)
    (h : [b, a] <:+: w) : ∃ w', w' ≠ w ∧ Clean b w' ∧ double a b w' = double a b w :=
  ⟨halve a b (double a b w), fun heq => (halve_double_iff hab hw).mp heq h, clean_halve hab _,
    double_halve (sep_not_mem_double hab w)⟩

omit [DecidableEq α] in
/-- Instead of two separators, a separator between two marks. -/
theorem clean_marks_around (hab : a ≠ b) {x y : List α} (hw : Clean b (x ++ [a, a] ++ y))
    (hmark : ¬ [b, a] <:+: x ++ [a, a] ++ y) (hsep : ¬ [a, b] <:+: x ++ [a, a] ++ y) :
    Clean b (x ++ [b, a, b] ++ y) := by
  intro hin
  rw [List.append_assoc] at hin
  rcases List.infix_append_iff.mp hin with hx | hy | ⟨l, r, hlr, hl, hr⟩
  · exact hw (hx.trans ⟨[], [a, a] ++ y, by simp⟩)
  · have hy : [b, b] <:+: b :: a :: b :: y := hy
    rcases List.infix_cons_iff.mp hy with ⟨t, ht⟩ | hy
    · exact hab (List.cons.inj (List.cons.inj ht).2).1.symm
    · rcases List.infix_cons_iff.mp hy with ⟨t, ht⟩ | hy
      · exact hab (List.cons.inj ht).1.symm
      · rcases List.infix_cons_iff.mp hy with ⟨t, ht⟩ | hy
        · refine hsep ⟨x ++ [a], t, ?_⟩
          have hy : y = b :: t := (List.cons.inj ht).2.symm
          rw [hy]
          simp
        · exact hw (hy.trans ⟨x ++ [a, a], [], by simp⟩)
  · match l, r, hlr with
    | [], r, hlr =>
        obtain rfl : r = [b, b] := hlr.symm
        obtain ⟨t, ht⟩ := hr
        exact hab (List.cons.inj (List.cons.inj ht).2).1.symm
    | [c], r, hlr =>
        obtain ⟨rfl, -⟩ := List.cons.inj hlr
        obtain ⟨t, rfl⟩ := hl
        exact hmark ⟨t, a :: y, by simp⟩
    | [c, d], r, hlr =>
        have hlr : b :: b :: [] = c :: d :: r := hlr
        obtain ⟨hc, hlr⟩ := List.cons.inj hlr
        obtain ⟨hd, -⟩ := List.cons.inj hlr
        rw [← hc, ← hd] at hl
        exact hw (hl.isInfix.trans ⟨[], [a, a] ++ y, by simp⟩)
    | _ :: _ :: _ :: l, r, hlr =>
        have hlen := congrArg List.length hlr
        simp at hlen

/-- **The spelling is a name's own** exactly if its separators stand apart from
    marks and from one another, and not at an end. -/
theorem double_unique_iff (hab : a ≠ b) {w : List α} (hw : Clean b w) :
    (∀ w', Clean b w' → double a b w' = double a b w → w' = w) ↔ Apart a b w := by
  refine ⟨fun h => ?_, fun hapart w' hw' => double_unique hab hw hw' hapart⟩
  have hmark : ¬ [b, a] <:+: w := by
    intro hin
    obtain ⟨w', hne, hclean, hsame⟩ := shared_of_mark_sep hab hw hin
    exact hne (h w' hclean hsame)
  -- reading from the right instead
  have hsep : ¬ [a, b] <:+: w := by
    intro hin
    obtain ⟨w', hne, hclean, hsame⟩ := shared_of_mark_sep hab (clean_reverse.mpr hw)
      (reverse_infix_iff.mpr hin)
    refine hne ?_
    rw [← h w'.reverse (clean_reverse.mpr hclean) ?_, List.reverse_reverse]
    rw [double_reverse, hsame, double_reverse, List.reverse_reverse]
  refine ⟨hmark, hsep, ?_⟩
  -- two separators are four marks, and so is a separator between two marks
  rintro ⟨x, y, rfl⟩
  have hother := clean_marks_around hab hw hmark hsep
  have hsame : double a b (x ++ [b, a, b] ++ y) = double a b (x ++ [a, a] ++ y) := by
    simp only [double_append]
    rw [double_sep, double_sep, double_nil, double_cons (Ne.symm hab), double_sep,
      double_cons (Ne.symm hab), double_nil]
  have heq := congrArg List.length (h _ hother hsame)
  simp at heq

end Replacement
