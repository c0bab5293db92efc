import Mathlib.Data.List.Infix

/-! # QuotedText — two texts in one quoted line

    A line is made of two texts with a mark between them: a word in quotes, the
    first quote closing the first text and the last one opening the second.
    Nothing is escaped, so a line can have several readings.

    * `reading_unique_iff`: it has one reading exactly when neither text, with
      the quote that belongs to it, contains a mark;
    * `OneLine`: a text without line breaks. -/

namespace QuotedText

variable {α : Type}

/-! ## Marks -/

/-- A word between two quotes. -/
def mark (quote : α) (word : List α) : List α := quote :: (word ++ [quote])

/-- The first text, the mark and the second text. -/
def line (quote : α) (first word second : List α) : List α :=
  first ++ mark quote word ++ second

/-- A marked word is its quote, the word and the quote again, before whatever
    follows. -/
theorem mark_append (quote : α) (word rest : List α) :
    mark quote word ++ rest = quote :: (word ++ quote :: rest) := by
  rw [mark, List.cons_append, List.append_assoc]
  rfl

section Marks

variable {quote : α} {first first' word word' second second' : List α}

/-- What starts with a mark and starts with a later mark as well has read the
    first word, and the later mark is behind its opening quote. -/
theorem mark_append_eq {more : List α} (hquote : quote ∉ word) (hmore : more ≠ [])
    (h : mark quote word ++ second = more ++ (mark quote word' ++ second')) :
    ∃ rest, more = quote :: (word ++ rest)
      ∧ quote :: second = rest ++ (mark quote word' ++ second') := by
  obtain ⟨a, more, rfl⟩ := List.exists_cons_of_ne_nil hmore
  rw [mark_append] at h
  have hsplit : word ++ quote :: second = more ++ (mark quote word' ++ second') :=
    (List.cons.inj h).2
  obtain rfl : quote = a := (List.cons.inj h).1
  rcases List.append_eq_append_iff.mp hsplit with ⟨rest, rfl, hrest⟩ | ⟨rest, rfl, hrest⟩
  · exact ⟨rest, rfl, hrest⟩
  · -- the later mark would start inside the word
    cases rest with
    | nil => exact ⟨[], by rw [List.append_nil, List.append_nil], hrest.symm⟩
    | cons b rest =>
        have hb : quote = b := (List.cons.inj hrest).1
        refine absurd ?_ hquote
        rw [hb]
        exact List.mem_append_right _ List.mem_cons_self

/-- From the same start only one mark can be read. -/
theorem mark_append_inj (hquote : quote ∉ word) (hquote' : quote ∉ word')
    (h : mark quote word ++ second = mark quote word' ++ second') :
    word = word' ∧ second = second' := by
  rw [mark_append, mark_append] at h
  have hsplit : word ++ quote :: second = word' ++ quote :: second' := (List.cons.inj h).2
  rcases List.append_eq_append_iff.mp hsplit with ⟨rest, rfl, hrest⟩ | ⟨rest, rfl, hrest⟩
  · cases rest with
    | nil => exact ⟨(List.append_nil _).symm, (List.cons.inj hrest).2⟩
    | cons b rest =>
        obtain rfl : quote = b := (List.cons.inj hrest).1
        exact absurd (List.mem_append_right _ List.mem_cons_self) hquote'
  · cases rest with
    | nil => exact ⟨List.append_nil _, (List.cons.inj hrest).2.symm⟩
    | cons b rest =>
        obtain rfl : quote = b := (List.cons.inj hrest).1
        exact absurd (List.mem_append_right _ List.mem_cons_self) hquote

/-- A second reading whose first text is longer finds a mark in the second
    text, and the first mark in its own first text. -/
theorem marks_of_longer {more : List α} (hquote : quote ∉ word) (hmore : more ≠ [])
    (h : line quote first word second = line quote (first ++ more) word' second') :
    mark quote word <:+: (first ++ more) ++ [quote] ∧ mark quote word' <:+: quote :: second := by
  rw [line, line, List.append_assoc, List.append_assoc, List.append_assoc] at h
  obtain ⟨rest, rfl, hsecond⟩ := mark_append_eq hquote hmore (List.append_cancel_left h)
  refine ⟨?_, rest, second', by rw [hsecond, List.append_assoc]⟩
  cases rest with
  | nil => exact ⟨first, [], by simp [mark]⟩
  | cons b rest =>
      obtain rfl : quote = b := (List.cons.inj hsecond).1
      exact ⟨first, rest ++ [quote], by simp [mark]⟩

/-- A mark in the first text gives another reading. -/
theorem reading_of_mark_first (h : mark quote word' <:+: first ++ [quote]) :
    ∃ first' second', line quote first' word' second' = line quote first word second
      ∧ first'.length < first.length := by
  obtain ⟨before, after, heq⟩ := h
  refine ⟨before, after ++ (word ++ [quote]) ++ second, ?_, ?_⟩
  · have hline : line quote first word second
        = first ++ [quote] ++ ((word ++ [quote]) ++ second) := by simp [line, mark]
    rw [hline, ← heq]
    simp [line]
  · have hlength := congrArg List.length heq
    simp only [mark, List.length_append, List.length_cons, List.length_nil] at hlength
    omega

/-- A mark in the second text gives another reading. -/
theorem reading_of_mark_second (h : mark quote word' <:+: quote :: second) :
    ∃ first' second', line quote first' word' second' = line quote first word second
      ∧ first.length < first'.length := by
  obtain ⟨before, after, heq⟩ := h
  refine ⟨first ++ (quote :: word) ++ before, after, ?_, ?_⟩
  · have hline : line quote first word second
        = first ++ (quote :: word) ++ (quote :: second) := by simp [line, mark]
    rw [hline, ← heq]
    simp [line]
  · simp

end Marks

/-! ## Readings -/

section Readings

variable {quote : α} {words : List (List α)} {first word second : List α}

/-- There is no other way to read the line, with the marks of these words. -/
def Unique (quote : α) (words : List (List α)) (first word second : List α) : Prop :=
  ∀ first' word' second', word' ∈ words →
    line quote first' word' second' = line quote first word second →
    first' = first ∧ word' = word ∧ second' = second

/-- Neither text contains a mark of these words, with the quote that belongs to
    it. The quote before the second text and the one after the first are those
    of the line. -/
structure Unmarked (quote : α) (words : List (List α)) (first second : List α) : Prop where
  first : ∀ word ∈ words, ¬ mark quote word <:+: first ++ [quote]
  second : ∀ word ∈ words, ¬ mark quote word <:+: quote :: second

/-- **HEADLINE — when a line is read in one way**: exactly if neither of the two
    quoted texts contains a mark, one of the words with the quotes around it,
    that could be taken for the one in the middle. -/
theorem reading_unique_iff (hwords : ∀ word ∈ words, quote ∉ word) (hword : word ∈ words) :
    Unique quote words first word second ↔ Unmarked quote words first second := by
  constructor
  · intro hunique
    constructor
    · intro word' hword' hmark
      obtain ⟨first', second', heq, hlength⟩ :
          ∃ first' second', line quote first' word' second' = line quote first word second
            ∧ first'.length < first.length := reading_of_mark_first hmark
      rw [(hunique first' word' second' hword' heq).1] at hlength
      exact absurd hlength (lt_irrefl _)
    · intro word' hword' hmark
      obtain ⟨first', second', heq, hlength⟩ :
          ∃ first' second', line quote first' word' second' = line quote first word second
            ∧ first.length < first'.length := reading_of_mark_second hmark
      rw [(hunique first' word' second' hword' heq).1] at hlength
      exact absurd hlength (lt_irrefl _)
  · rintro hplain first' word' second' hword' heq
    -- one of the first texts is a prefix of the other
    have hprefix := heq
    rw [line, line, List.append_assoc, List.append_assoc] at hprefix
    rcases List.append_eq_append_iff.mp hprefix with ⟨more, hfirst, hrest⟩ | ⟨more, hfirst, hrest⟩
    · cases more with
      | nil =>
          rw [List.append_nil] at hfirst
          obtain ⟨rfl, rfl⟩ := mark_append_inj (hwords _ hword') (hwords _ hword) hrest
          exact ⟨hfirst.symm, rfl, rfl⟩
      | cons a more =>
          rw [hfirst] at heq
          have hmarks := marks_of_longer (hwords _ hword') (List.cons_ne_nil a more) heq
          rw [← hfirst] at hmarks
          exact absurd hmarks.1 (hplain.first word' hword')
    · cases more with
      | nil =>
          rw [List.append_nil] at hfirst
          obtain ⟨rfl, rfl⟩ := mark_append_inj (hwords _ hword) (hwords _ hword') hrest
          exact ⟨hfirst, rfl, rfl⟩
      | cons a more =>
          rw [hfirst] at heq
          have hmarks := marks_of_longer (hwords _ hword) (List.cons_ne_nil a more) heq.symm
          exact absurd hmarks.2 (hplain.second word' hword')

end Readings

/-! ## Lines -/

/-- No carriage return and no line feed. -/
def OneLine (text : List Char) : Prop := '\r' ∉ text ∧ '\n' ∉ text

instance (text : List Char) : Decidable (OneLine text) := inferInstanceAs (Decidable (_ ∧ _))

@[simp] theorem oneLine_nil : OneLine [] := ⟨List.not_mem_nil, List.not_mem_nil⟩

/-- Two parts are one line exactly if either is. -/
@[simp] theorem oneLine_append {s t : List Char} : OneLine (s ++ t) ↔ OneLine s ∧ OneLine t := by
  simp only [OneLine, List.mem_append, not_or]
  exact and_and_and_comm

/-- A text is one line exactly if its first character does not end one, and the
    rest is one. -/
@[simp] theorem oneLine_cons {c : Char} {s : List Char} :
    OneLine (c :: s) ↔ (c ≠ '\r' ∧ c ≠ '\n') ∧ OneLine s := by
  simp only [OneLine, List.mem_cons, not_or, ne_eq, eq_comm]
  exact and_and_and_comm

end QuotedText
