import Mathlib.Data.List.AList
import Custodia.PyValues
import Custodia.Replacement

/-! # ConfigParser — sections of options, and references between them

    `configparser.ConfigParser` with extended interpolation. An option of a
    section is looked up in the section and then in the defaults; in its text
    `$$` is a dollar sign, and `${option}` and `${section:option}` are replaced
    by the text of another option, which is interpolated in turn.

    * `pieces`: a text cut into characters and references;
    * `interpolateSome`: interpolation, to a bounded depth;
    * `interpolateSome_escaped`: a text with its dollar signs doubled stands
      for itself;
    * `ownOption_withOption_self`, `ownOption_readFile`: what is set, and what
      is left alone. -/

namespace ConfigParser

open PosixPath PyValues

/-- A dictionary of texts. -/
abbrev Options := AList (fun _ : Str => Str)

/-- The exceptions of the module, with what their texts name: sections and
    options that are not there, references that cannot be resolved, and values
    that cannot be set or read. -/
inductive ParserError where
  | noSection (name : Str)
  | noOption (option name : Str)
  | missingOption (option name : Str) (path : List Str)
  | badReference (option name : Str)
  | depth (option name : Str)
  | notBoolean (value : Str)
  | notAdded (name : Str)
  | notSet (value : Str)
  deriving DecidableEq

/-- `DEFAULTSECT`. -/
def defaultSection : Str := "DEFAULT"

/-- A parser: its sections in the order they were added, and the defaults of
    all sections, which are no section of their own. -/
structure Parser where
  defaults : Options
  sections : List (Str × Options)
  distinct : (sections.map Prod.fst).Nodup
  proper : defaultSection ∉ sections.map Prod.fst

/-! ## Texts with references -/

/-- A part of a text: a character, a reference by its path, or a dollar sign
    that nothing allowed follows. -/
inductive Piece where
  | char (c : Char)
  | reference (path : List Str)
  | bad
  deriving DecidableEq

/-- Where the scan is: outside of a reference, behind a dollar sign, or inside a
    reference, whose name has been read up to here. -/
inductive Scan where
  | outside
  | dollar
  | name (read : Str)

/-- The loop of `_interpolate_some` over its text; a bad dollar sign ends it. -/
def pieces : Scan → Str → List Piece
  | .outside, [] => []
  | .outside, c :: s => if c = '$' then pieces .dollar s else .char c :: pieces .outside s
  | .dollar, [] => [.bad]
  | .dollar, c :: s =>
      if c = '$' then .char '$' :: pieces .outside s
      else if c = '\x7b' then pieces (.name []) s
      else [.bad]
  | .name _, [] => [.bad]
  | .name read, c :: s =>
      if c = '\x7d' then
        if read = [] then [.bad]
        else .reference (read.splitOn ':') :: pieces .outside s
      else pieces (.name (read ++ [c])) s

/-- Put the parts together again, each reference resolved. -/
def expand (bad : ParserError) (resolve : List Str → Except ParserError Str) :
    List Piece → Except ParserError Str
  | [] => .ok []
  | .char c :: ps => (expand bad resolve ps).map (fun rest => c :: rest)
  | .reference path :: ps => do
      let value ← resolve path
      let rest ← expand bad resolve ps
      return value ++ rest
  | .bad :: _ => .error bad

/-- `value.replace('$', '$$')`. -/
def escaped (value : Str) : Str := Replacement.replace ['$'] ['$', '$'] value

/-- `${name:option}`. -/
def referenceTo (name option : Str) : Str :=
  '$' :: '\x7b' :: (name ++ ':' :: (option ++ ['\x7d']))

/-! ## Building a parser -/

namespace Parser

/-- A parser without sections. -/
def ofDefaults (defaults : Options) : Parser :=
  ⟨defaults, [], List.nodup_nil, List.not_mem_nil⟩

variable (p : Parser)

/-- `has_section`. -/
def hasSection (name : Str) : Bool := decide (name ∈ p.sections.map Prod.fst)

/-- A section more, unless it is there. -/
def withSection (name : Str) : Parser :=
  if h : name = defaultSection ∨ name ∈ p.sections.map Prod.fst then p
  else { p with
    sections := p.sections ++ [(name, ∅)]
    distinct := by
      rw [List.map_append, List.nodup_append]
      refine ⟨p.distinct, List.nodup_singleton _, ?_⟩
      rintro a ha b hb rfl
      obtain rfl : a = name := List.mem_singleton.mp hb
      exact h (Or.inr ha)
    proper := by
      rw [List.map_append, List.mem_append]
      rintro (hold | hnew)
      · exact p.proper hold
      · exact h (Or.inl (List.mem_singleton.mp hnew).symm) }

/-- One option of the sections of a name. -/
def setIn (name option value : Str) (sections : List (Str × Options)) : List (Str × Options) :=
  sections.map (fun e => if e.1 = name then (e.1, e.2.insert option value) else e)

theorem names_setIn (name option value : Str) (sections : List (Str × Options)) :
    (setIn name option value sections).map Prod.fst = sections.map Prod.fst := by
  rw [setIn, List.map_map]
  refine List.map_congr_left (fun e _ => ?_)
  show (if _ then _ else _ : Str × Options).1 = e.1
  split_ifs <;> rfl

/-- An option of a section, or of the defaults. -/
def withOption (name option value : Str) : Parser :=
  if name = defaultSection then { p with defaults := p.defaults.insert option value }
  else { p with
    sections := setIn name option value p.sections
    distinct := by rw [names_setIn]; exact p.distinct
    proper := by rw [names_setIn]; exact p.proper }

/-- `add_section`. -/
def addSection (name : Str) : Except ParserError Parser :=
  if name = defaultSection ∨ p.hasSection name = true then .error (.notAdded name)
  else .ok (p.withSection name)

/-- `before_set`: without what is escaped, every dollar sign begins a
    reference. -/
def beforeSet (value : Str) : Except ParserError Str :=
  if Piece.bad ∈ pieces .outside (Replacement.replace ['$', '$'] [] value) then
    .error (.notSet value)
  else .ok value

/-- `set`. -/
def set (name option value : Str) : Except ParserError Parser := do
  let value ← beforeSet value
  if name ≠ defaultSection ∧ p.hasSection name = false then .error (.noSection name)
  else .ok (p.withOption name option value)

/-- `read_file`, of a file that was parsed into its sections. -/
def readFile (file : List (Str × List (Str × Str))) : Parser :=
  file.foldl (fun p e =>
    e.2.foldl (fun p o => p.withOption e.1 o.1 o.2)
      (if e.1 = defaultSection then p else p.withSection e.1)) p

end Parser

/-! ## Looking options up -/

namespace Parser

variable (p : Parser)

/-- `_unify_values`: the options of a section over the defaults. -/
def unifyValues (name : Str) : Except ParserError Options :=
  match p.sections.lookup name with
  | some options => .ok (options ∪ p.defaults)
  | none => if name = defaultSection then .ok p.defaults else .error (.noSection name)

/-- `has_option`. -/
def hasOption (name option : Str) : Bool :=
  if name = [] ∨ name = defaultSection then decide (option ∈ p.defaults)
  else match p.sections.lookup name with
    | none => false
    | some options => decide (option ∈ options ∨ option ∈ p.defaults)

/-- `get(name, option, raw=True)`. -/
def getRaw (name option : Str) : Except ParserError Str := do
  let values ← p.unifyValues name
  match values.lookup option with
  | none => .error (.noOption option name)
  | some value => .ok value

/-- `_interpolate_some`, with the depth that is left. Only a text with a
    dollar sign is interpolated in turn. -/
def interpolateSome : Nat → Str → Str → Options → Str → Except ParserError Str
  | 0, option, name, _, _ => .error (.depth option name)
  | depth + 1, option, name, values, text =>
      let follow (option name value : Str) : Except ParserError Str :=
        if '$' ∈ value then do
          let values ← p.unifyValues name
          interpolateSome depth option name values value
        else .ok value
      let resolve : List Str → Except ParserError Str
        | [other] =>
            match values.lookup other with
            | none => .error (.missingOption option name [other])
            | some value => follow other name value
        | [other, otherOption] =>
            match p.getRaw other otherOption with
            | .error _ => .error (.missingOption option name [other, otherOption])
            | .ok value => follow otherOption other value
        | _ => .error (.badReference option name)
      expand (.badReference option name) resolve (pieces .outside text)

/-- `MAX_INTERPOLATION_DEPTH`. -/
def maxInterpolationDepth : Nat := 10

/-- `before_get`. -/
def beforeGet (option name : Str) (values : Options) (text : Str) : Except ParserError Str :=
  p.interpolateSome maxInterpolationDepth option name values text

/-- `get(name, option)`. -/
def get (name option : Str) : Except ParserError Str := do
  let values ← p.unifyValues name
  match values.lookup option with
  | none => .error (.noOption option name)
  | some text => p.beforeGet option name values text

/-- `get(name, option, fallback=fallback)`: the fallback stands for an option
    that is not there, not for one that cannot be interpolated. -/
def getOr {β : Type} (name option : Str) (fallback : β) (conv : Str → Except ParserError β) :
    Except ParserError β :=
  match p.getRaw name option with
  | .error _ => .ok fallback
  | .ok _ => do conv (← p.get name option)

/-- `items(name)`. -/
def items (name : Str) : Except ParserError (List (Str × Str)) := do
  let values ← p.unifyValues name
  values.entries.mapM (fun e => do
    let text ← p.beforeGet e.1 name values e.2
    return (e.1, text))

/-- `BOOLEAN_STATES`. -/
def booleanStates : List (Str × Bool) :=
  [("1", true), ("yes", true), ("true", true), ("on", true),
   ("0", false), ("no", false), ("false", false), ("off", false)]

/-- `_convert_to_boolean`. -/
def convertToBoolean (value : Str) : Except ParserError Bool :=
  match booleanStates.lookup (lower value) with
  | none => .error (.notBoolean value)
  | some b => .ok b

/-- `getboolean(name, option, fallback=fallback)`. -/
def getBoolean (name option : Str) (fallback : Bool) : Except ParserError Bool :=
  p.getOr name option fallback convertToBoolean

end Parser

/-- A computation in sequence succeeds when both of its parts do. -/
theorem ok_of_bind {ε α β : Type} {x : Except ε α} {f : α → Except ε β} {b : β}
    (h : x >>= f = .ok b) : ∃ a, x = .ok a ∧ f a = .ok b := by
  cases x with
  | error e => exact nomatch h
  | ok a => exact ⟨a, rfl, h⟩

theorem mapError_eq_ok {ε ε' α : Type} {f : ε → ε'} {x : Except ε α} {a : α} :
    x.mapError f = .ok a ↔ x = .ok a := by
  cases x with
  | error e => exact iff_of_false (fun h => nomatch h) (fun h => nomatch h)
  | ok b =>
      show (Except.ok b : Except ε' α) = .ok a ↔ _
      rw [Except.ok.injEq, Except.ok.injEq]

/-! ## Escaped texts -/

theorem escaped_cons (c : Char) (value : Str) :
    escaped (c :: value) = (if c = '$' then ['$', '$'] else [c]) ++ escaped value :=
  Replacement.replace_single '$' ['$', '$'] value c

/-- **An escaped text is cut into its characters.** -/
theorem pieces_escaped (value s : Str) :
    pieces .outside (escaped value ++ s) = value.map Piece.char ++ pieces .outside s := by
  induction value with
  | nil => rfl
  | cons c value ih =>
      rw [escaped_cons]
      split_ifs with hc
      · subst hc
        simp only [List.cons_append, List.nil_append, pieces, if_true, List.map_cons]
        rw [ih]
      · simp only [List.cons_append, List.nil_append, pieces, if_neg hc, List.map_cons]
        rw [ih]

/-- The name of a reference is read up to its brace. -/
theorem pieces_name (read rest s : Str) (hrest : '\x7d' ∉ rest) (hne : read ++ rest ≠ []) :
    pieces (.name read) (rest ++ '\x7d' :: s)
      = .reference ((read ++ rest).splitOn ':') :: pieces .outside s := by
  induction rest generalizing read with
  | nil =>
      rw [List.append_nil] at hne ⊢
      rw [List.nil_append, pieces, if_pos rfl, if_neg hne]
  | cons c rest ih =>
      obtain ⟨hc, hrest⟩ := not_or.mp (mt List.mem_cons.mpr hrest)
      rw [List.cons_append, pieces, if_neg (Ne.symm hc), ih (read ++ [c]) hrest (by simp),
        List.append_assoc]
      rfl

/-- **A reference is cut out as one.** -/
theorem pieces_referenceTo {name option : Str} (hname : '\x7d' ∉ name ∧ ':' ∉ name)
    (hoption : '\x7d' ∉ option ∧ ':' ∉ option) (s : Str) :
    pieces .outside (referenceTo name option ++ s)
      = .reference [name, option] :: pieces .outside s := by
  have hbrace : '\x7d' ∉ name ++ ':' :: option := by
    rw [List.mem_append, List.mem_cons]
    rintro (h | h | h)
    · exact hname.1 h
    · exact absurd h (by decide)
    · exact hoption.1 h
  have hpath : (name ++ ':' :: option).splitOn ':' = [name, option] := by
    rw [List.splitOn_append_cons_self, List.splitOn_eq_singleton hname.2,
      List.splitOn_eq_singleton hoption.2]
    rfl
  have hspell : referenceTo name option ++ s
      = '$' :: '\x7b' :: ((name ++ ':' :: option) ++ '\x7d' :: s) := by
    simp [referenceTo]
  have hdollar : ('\x7b' : Char) ≠ '$' := by decide
  rw [hspell, pieces, if_pos rfl, pieces, if_neg hdollar, if_pos rfl,
    pieces_name [] _ s hbrace (by simp), List.nil_append, hpath]

/-- Without what is escaped, an escaped text has no dollar sign. -/
theorem unescaped_escaped (value : Str) :
    Replacement.replace ['$', '$'] [] (escaped value)
      = value.filter (fun c => decide (c ≠ '$')) := by
  induction value with
  | nil => rfl
  | cons c value ih =>
      rw [escaped_cons]
      split_ifs with hc
      · rw [List.cons_append, List.singleton_append, Replacement.replace_pair, ih,
          List.filter_cons_of_neg (by simpa using hc)]
        rfl
      · have hstart : ¬ ['$', '$'] <+: c :: escaped value :=
          fun h => hc (List.cons_prefix_cons.mp h).1.symm
        rw [List.singleton_append, Replacement.replace_cons_of_not hstart, ih,
          List.filter_cons_of_pos (by simpa using hc)]

theorem pieces_plain {text : Str} (h : '$' ∉ text) :
    pieces .outside text = text.map Piece.char := by
  induction text with
  | nil => rfl
  | cons c text ih =>
      obtain ⟨hc, htext⟩ := not_or.mp (mt List.mem_cons.mpr h)
      rw [pieces, if_neg (Ne.symm hc), ih htext, List.map_cons]

/-- **An escaped text can be set.** -/
theorem beforeSet_escaped (value : Str) :
    Parser.beforeSet (escaped value) = .ok (escaped value) := by
  have hplain : '$' ∉ value.filter (fun c => decide (c ≠ '$')) := by
    intro h
    exact of_decide_eq_true (List.mem_filter.mp h).2 rfl
  have hgood : Piece.bad ∉ (value.filter (fun c => decide (c ≠ '$'))).map Piece.char := by
    intro h
    obtain ⟨c, -, hc⟩ := List.mem_map.mp h
    exact Piece.noConfusion hc
  rw [Parser.beforeSet, unescaped_escaped, pieces_plain hplain, if_neg hgood]

section Expand

variable {bad : ParserError} {resolve : List Str → Except ParserError Str}

theorem expand_chars (value : Str) (ps : List Piece) :
    expand bad resolve (value.map Piece.char ++ ps)
      = (expand bad resolve ps).map (fun rest => value ++ rest) := by
  induction value with
  | nil =>
      rw [List.map_nil, List.nil_append]
      cases expand bad resolve ps <;> rfl
  | cons c value ih =>
      rw [List.map_cons, List.cons_append, expand, ih]
      cases expand bad resolve ps <;> rfl

/-- A resolved reference stands for its text. -/
theorem expand_reference {path : List Str} {value : Str} (h : resolve path = .ok value)
    (ps : List Piece) :
    expand bad resolve (.reference path :: ps)
      = (expand bad resolve ps).map (fun rest => value ++ rest) := by
  rw [expand, h]
  cases expand bad resolve ps <;> rfl

end Expand

namespace Parser

variable (p : Parser)

/-- **An escaped text is interpolated to the text it was made from.** -/
theorem interpolateSome_escaped (depth : Nat) (option name : Str) (values : Options)
    (value : Str) :
    p.interpolateSome (depth + 1) option name values (escaped value) = .ok value := by
  have hpieces : pieces .outside (escaped value) = value.map Piece.char ++ [] := by
    have := pieces_escaped value []
    rwa [List.append_nil] at this
  rw [interpolateSome]
  dsimp only
  rw [hpieces, expand_chars]
  show Except.ok (value ++ []) = _
  rw [List.append_nil]

/-! ## Sections and options -/

/-- The option of a section itself, not of the defaults. -/
def ownOption (name option : Str) : Option Str :=
  (p.sections.lookup name).bind (fun options => options.lookup option)

theorem getRaw_of_own {name option value : Str} (h : p.ownOption name option = some value) :
    p.getRaw name option = .ok value := by
  obtain ⟨options, hoptions, hvalue⟩ := Option.bind_eq_some_iff.mp h
  have hlookup : AList.lookup option (options ∪ p.defaults) = some value := by
    rw [AList.lookup_union_left (AList.lookup_isSome.mp (by rw [hvalue]; rfl)), hvalue]
  rw [getRaw, unifyValues, hoptions]
  show (match AList.lookup option (options ∪ p.defaults) with
    | none => _
    | some value => _ : Except ParserError Str) = _
  rw [hlookup]

theorem getRaw_iff {name option text : Str} : p.getRaw name option = .ok text
    ↔ ∃ values, p.unifyValues name = .ok values ∧ values.lookup option = some text := by
  rw [getRaw]
  cases p.unifyValues name with
  | error e => exact iff_of_false (fun h => nomatch h) (fun ⟨_, h, _⟩ => nomatch h)
  | ok values =>
      show (match AList.lookup option values with
        | none => Except.error (ParserError.noOption option name)
        | some value => .ok value) = .ok text ↔ _
      constructor
      · intro h
        refine ⟨values, rfl, ?_⟩
        cases hlookup : AList.lookup option values with
        | none => rw [hlookup] at h; exact nomatch h
        | some value => rw [hlookup] at h; exact congrArg some (Except.ok.inj h)
      · rintro ⟨values', hvalues, hlookup⟩
        rw [Except.ok.inj hvalues, hlookup]

/-- An option is its text, interpolated. -/
theorem get_iff {name option text : Str} : p.get name option = .ok text
    ↔ ∃ values raw, p.unifyValues name = .ok values ∧ values.lookup option = some raw
      ∧ p.beforeGet option name values raw = .ok text := by
  rw [get]
  cases p.unifyValues name with
  | error e => exact iff_of_false (fun h => nomatch h) (fun ⟨_, _, h, _⟩ => nomatch h)
  | ok values =>
      show (match AList.lookup option values with
        | none => Except.error (ParserError.noOption option name)
        | some text => p.beforeGet option name values text) = .ok text ↔ _
      constructor
      · intro h
        cases hlookup : AList.lookup option values with
        | none => rw [hlookup] at h; exact nomatch h
        | some raw => rw [hlookup] at h; exact ⟨values, raw, rfl, hlookup, h⟩
      · rintro ⟨values', raw, hvalues, hlookup, h⟩
        rw [Except.ok.inj hvalues, hlookup]
        exact Except.ok.inj hvalues ▸ h

theorem mapM_names (f : Sigma (fun _ : Str => Str) → Except ParserError Str)
    {entries : List (Sigma (fun _ : Str => Str))} {items : List (Str × Str)}
    (h : entries.mapM (fun e => do return (e.1, ← f e)) = .ok items) :
    items.map Prod.fst = entries.map Sigma.fst := by
  induction entries generalizing items with
  | nil =>
      obtain rfl := Except.ok.inj h
      rfl
  | cons e entries ih =>
      rw [List.mapM_cons] at h
      obtain ⟨item, hitem, h⟩ := ok_of_bind h
      obtain ⟨text, -, hitem⟩ := ok_of_bind hitem
      obtain ⟨rest, hrest, h⟩ := ok_of_bind h
      obtain rfl := Except.ok.inj h
      obtain rfl := Except.ok.inj hitem
      rw [List.map_cons, List.map_cons, ih hrest]

/-- Reading all options keeps their names. -/
theorem items_names {name : Str} {items : List (Str × Str)} (h : p.items name = .ok items) :
    ∃ values, p.unifyValues name = .ok values ∧ items.map Prod.fst = values.keys := by
  obtain ⟨values, hvalues, h⟩ := ok_of_bind h
  exact ⟨values, hvalues, mapM_names (fun e => p.beforeGet e.1 name values e.2) h⟩

theorem mem_of_hasSection {name : Str} :
    p.hasSection name = true ↔ name ∈ p.sections.map Prod.fst := decide_eq_true_iff

theorem ownOption_withSection (name other option : Str) :
    (p.withSection name).ownOption other option = p.ownOption other option := by
  rw [withSection]
  split_ifs with h
  · rfl
  · rw [ownOption, List.lookup_append, ownOption, List.lookup_cons, List.lookup_nil]
    cases p.sections.lookup other with
    | some options => rfl
    | none =>
        rw [Option.none_or]
        split
        · exact AList.lookup_empty option
        · rfl

theorem hasSection_withSection {name : Str} (hname : name ≠ defaultSection) :
    (p.withSection name).hasSection name = true := by
  rw [mem_of_hasSection, withSection]
  split_ifs with h
  · exact h.resolve_left hname
  · rw [List.map_append]
    exact List.mem_append_right _ (List.mem_singleton_self name)

/-- Looking up in a dictionary with one value changed. -/
theorem lookup_changed (sections : List (Str × Options)) (name other : Str)
    (f : Options → Options) :
    (sections.map (fun e => if e.1 = name then (e.1, f e.2) else e)).lookup other
      = (sections.lookup other).map
          (fun options => if other = name then f options else options) := by
  induction sections with
  | nil => rfl
  | cons e sections ih =>
      have hcons : (e :: sections).map (fun e => if e.1 = name then (e.1, f e.2) else e)
          = (e.1, if e.1 = name then f e.2 else e.2)
            :: sections.map (fun e => if e.1 = name then (e.1, f e.2) else e) := by
        rw [List.map_cons]
        split_ifs <;> rfl
      rw [hcons, List.lookup_cons, List.lookup_cons, ih]
      by_cases he : other = e.1
      · rw [beq_iff_eq.mpr he, he]
        rfl
      · rw [beq_eq_false_iff_ne.mpr he]

theorem withOption_sections {name : Str} (h : name ≠ defaultSection) (option value : Str) :
    (p.withOption name option value).sections = setIn name option value p.sections := by
  rw [withOption, if_neg h]

theorem hasSection_withOption (name option value other : Str) :
    (p.withOption name option value).hasSection other = p.hasSection other := by
  by_cases h : name = defaultSection
  · rw [withOption, if_pos h]
    rfl
  · rw [hasSection, p.withOption_sections h, names_setIn]
    rfl

/-- The option that is set. -/
theorem ownOption_withOption_self {name : Str} (hname : name ≠ defaultSection)
    (hsection : p.hasSection name = true) (option value : Str) :
    (p.withOption name option value).ownOption name option = some value := by
  rw [ownOption, p.withOption_sections hname, setIn,
    lookup_changed p.sections name name (fun options => options.insert option value)]
  cases hlookup : p.sections.lookup name with
  | none =>
      obtain ⟨e, he, rfl⟩ := List.mem_map.mp (p.mem_of_hasSection.mp hsection)
      exact absurd rfl (bne_iff_ne.mp (List.lookup_eq_none_iff.mp hlookup e he))
  | some options =>
      show AList.lookup option (if name = name then options.insert option value else options)
        = some value
      rw [if_pos rfl, AList.lookup_insert]

/-- The options that are not set. -/
theorem ownOption_withOption_of_ne {name option other otherOption : Str}
    (h : ¬ (other = name ∧ otherOption = option)) (value : Str) :
    (p.withOption name option value).ownOption other otherOption
      = p.ownOption other otherOption := by
  by_cases hdefault : name = defaultSection
  · rw [withOption, if_pos hdefault]
    rfl
  rw [ownOption, ownOption, p.withOption_sections hdefault, setIn,
    lookup_changed p.sections name other (fun options => options.insert option value)]
  cases p.sections.lookup other with
  | none => rfl
  | some options =>
      show AList.lookup otherOption (if other = name then options.insert option value else options)
        = options.lookup otherOption
      split_ifs with hname
      · exact AList.lookup_insert_ne (fun hoption => h ⟨hname, hoption⟩)
      · rfl

/-- A file leaves the sections alone that it does not name. -/
theorem ownOption_readFile {file : List (Str × List (Str × Str))} {name : Str}
    (h : ∀ e ∈ file, e.1 ≠ name) (option : Str) :
    (p.readFile file).ownOption name option = p.ownOption name option := by
  have hoptions (other : Str) (hne : other ≠ name) (options : List (Str × Str)) (p : Parser) :
      (options.foldl (fun p o => p.withOption other o.1 o.2) p).ownOption name option
        = p.ownOption name option := by
    induction options generalizing p with
    | nil => rfl
    | cons o options ih =>
        rw [List.foldl_cons, ih]
        exact p.ownOption_withOption_of_ne (fun hsame => hne hsame.1.symm) o.2
  rw [readFile]
  induction file generalizing p with
  | nil => rfl
  | cons e file ih =>
      rw [List.foldl_cons, ih _ (fun e' he' => h e' (List.mem_cons_of_mem e he')),
        hoptions e.1 (h e List.mem_cons_self)]
      split_ifs
      · rfl
      · exact p.ownOption_withSection e.1 name option

/-- A file takes no section away. -/
theorem hasSection_readFile (file : List (Str × List (Str × Str))) {name : Str}
    (h : p.hasSection name = true) : (p.readFile file).hasSection name = true := by
  have hoptions (other : Str) (options : List (Str × Str)) (p : Parser) :
      (options.foldl (fun p o => p.withOption other o.1 o.2) p).hasSection name
        = p.hasSection name := by
    induction options generalizing p with
    | nil => rfl
    | cons o options ih => rw [List.foldl_cons, ih, p.hasSection_withOption]
  have hsection (other : Str) (p : Parser) (h : p.hasSection name = true) :
      (p.withSection other).hasSection name = true := by
    rw [withSection]
    split_ifs
    · exact h
    · rw [mem_of_hasSection, List.map_append]
      exact List.mem_append_left _ (p.mem_of_hasSection.mp h)
  rw [readFile]
  induction file generalizing p with
  | nil => exact h
  | cons e file ih =>
      rw [List.foldl_cons]
      refine ih _ ?_
      rw [hoptions]
      split_ifs
      · exact h
      · exact hsection e.1 p h

end Parser

end ConfigParser
