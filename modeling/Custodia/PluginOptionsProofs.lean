import Custodia.PluginOptions

/-! # PluginOptionsProofs — what a plugin's options are

    Over the getters stands one account of an option: it is what the section
    sets, or the defaults of all sections, or `[global]` where it is inherited,
    or its own default. A plugin is configured exactly if all its options have
    a value, and nothing is set that is no option.

    * `Effective`: the value of an option;
    * `read_iff`: what the getters read;
    * `configure_iff`: when a plugin is configured, and how;
    * `plugin_configured`: its attributes are the values of its options. -/

namespace PluginOptionsProofs

open PosixPath PyValues ConfigParser PluginOptions

variable {lib : Library} {parser : Parser}

/-! ## The getters -/

/-- The conversion of a text by the type of its option. -/
def ofText (lib : Library) (typ : OptionType) (text : Str) : Except PluginError OptionValue :=
  match typ with
  | .int => toInt lib 10 (.str text)
  | .oct => toInt lib 8 (.str text)
  | .hex => toInt lib 16 (.str text)
  | .float => toFloat lib text
  | .bool => (ofParser (Parser.convertToBoolean text)).map OptionValue.bool
  | .regex => toRegex lib (.str text)
  | .str => .ok (.str text)
  | .strSet => .ok (if strip text = [] then .none else .strSet (splitString text).dedup)
  | .strList => .ok (if strip text = [] then .none else .strList (splitString text))
  | .store => .ok (.str text)
  | .pwdUid => toId lib lib.getpwnam (.str text)
  | .grpGid => toId lib lib.getgrnam (.str text)
  | .json => toJson lib (.str text)

/-- What becomes of a default: some getters convert it like a text. -/
def ofDefault (lib : Library) (typ : OptionType) (value : OptionValue) :
    Except PluginError OptionValue :=
  match typ with
  | .oct => toInt lib 8 value
  | .hex => toInt lib 16 value
  | .regex => toRegex lib value
  | .pwdUid => toId lib lib.getpwnam value
  | .grpGid => toId lib lib.getgrnam value
  | .json => toJson lib value
  | _ => .ok value

/-- A section that is there, or the defaults. -/
def Readable (parser : Parser) (name : Str) : Prop :=
  name = defaultSection ∨ parser.hasSection name = true

/-- A section is not found exactly if no section has the name. -/
theorem lookup_eq_none_iff {name : Str} :
    parser.sections.lookup name = none ↔ name ∉ parser.sections.map Prod.fst := by
  rw [List.lookup_eq_none_iff, List.mem_map]
  constructor
  · rintro h ⟨e, he, rfl⟩
    exact absurd rfl (bne_iff_ne.mp (h e he))
  · intro h e he
    exact bne_iff_ne.mpr (fun heq => h ⟨e, he, heq.symm⟩)

/-- The options of `[DEFAULT]` are the defaults themselves. -/
theorem unifyValues_default (parser : Parser) :
    parser.unifyValues defaultSection = .ok parser.defaults := by
  rw [Parser.unifyValues, lookup_eq_none_iff.mpr parser.proper]
  exact if_pos rfl

/-- The options of a readable section can be put together with what it inherits. -/
theorem unifyValues_ok {name : Str} (h : Readable parser name) :
    ∃ values, parser.unifyValues name = .ok values := by
  rcases h with rfl | hthere
  · exact ⟨_, unifyValues_default parser⟩
  · rw [Parser.unifyValues]
    cases hlookup : parser.sections.lookup name with
    | some options => exact ⟨_, rfl⟩
    | none => exact absurd (parser.mem_of_hasSection.mp hthere) (lookup_eq_none_iff.mp hlookup)

/-- A readable section lacks at most the option. -/
theorem getRaw_cases {name : Str} (h : Readable parser name) (option : Str) :
    (∃ text, parser.getRaw name option = .ok text)
      ∨ parser.getRaw name option = .error (.noOption option name) := by
  obtain ⟨values, hvalues⟩ := unifyValues_ok h
  cases hlookup : AList.lookup option values with
  | none =>
      refine Or.inr ?_
      rw [Parser.getRaw, hvalues]
      dsimp only [bind, Except.bind]
      rw [hlookup]
  | some text => exact Or.inl ⟨text, parser.getRaw_iff.mpr ⟨values, hvalues, hlookup⟩⟩

section Getters

variable {name option : Str} {default : OptionValue}

/-- An option that is converted is the conversion of its text, or its default
    where there is no text. -/
theorem getConverted_eq (conv : Str → Except PluginError OptionValue) :
    OptionHandler.getConverted parser conv name option default
      = (OptionHandler.textOf parser name option).bind (fun text => match text with
        | none => .ok default
        | some text => conv text) := rfl

/-- An option whose default is converted as well is the conversion of either. -/
theorem getValue_eq (conv : OptionValue → Except PluginError OptionValue) :
    OptionHandler.getValue parser conv name option default
      = (OptionHandler.textOf parser name option).bind (fun text => match text with
        | none => conv default
        | some text => conv (.str text)) := rfl

/-- An option of words is what becomes of the words of its text, or its default. -/
theorem getWords_eq (h : Readable parser name) (conv : List Str → OptionValue) :
    OptionHandler.getWords parser conv name option default
      = (OptionHandler.textOf parser name option).bind (fun text => match text with
        | none => .ok default
        | some text => .ok (if strip text = [] then .none else conv (splitString text))) := by
  rw [OptionHandler.getWords, OptionHandler.textOf]
  rcases getRaw_cases h option with ⟨text, hraw⟩ | hraw
  · rw [hraw]
    dsimp only
    cases parser.get name option <;> rfl
  · rw [hraw]
    rfl

end Getters

/-- **Every getter converts the text that is there, or takes the default.** -/
theorem getter_eq {name : Str} (h : Readable parser name) (typ : OptionType) (option : Str)
    (default : OptionValue) :
    OptionHandler.getter lib parser typ name option default
      = (OptionHandler.textOf parser name option).bind (fun text => match text with
        | none => ofDefault lib typ default
        | some text => ofText lib typ text) := by
  cases typ with
  | strSet => exact getWords_eq h (fun values => .strSet values.dedup)
  | strList => exact getWords_eq h .strList
  | int => exact getConverted_eq (fun text => toInt lib 10 (.str text))
  | float => exact getConverted_eq (toFloat lib)
  | bool => exact getConverted_eq _
  | oct => exact getValue_eq (toInt lib 8)
  | hex => exact getValue_eq (toInt lib 16)
  | regex => exact getValue_eq (toRegex lib)
  | str => exact getValue_eq Except.ok
  | store => exact getValue_eq Except.ok
  | pwdUid => exact getValue_eq (toId lib lib.getpwnam)
  | grpGid => exact getValue_eq (toId lib lib.getgrnam)
  | json => exact getValue_eq (toJson lib)

/-! ## The value of an option -/

/-- The option is set in the section, or in the defaults of all sections. -/
def IsSet (parser : Parser) (name option : Str) : Prop :=
  ∃ text, parser.getRaw name option = .ok text

/-- **The value of an option**: what the section sets, or what `[global]` sets
    where the option inherits it, or a default, in this order, and converted as
    its type says. -/
inductive Effective (lib : Library) (parser : Parser) (name : Str) (po : PluginOption)
    (value : OptionValue) : Prop where
  | set (text : Str) (hget : parser.get name po.name = .ok text)
      (hconv : ofText lib po.typ text = .ok value)
  | inherited (default : OptionValue) (text : Str) (hunset : ¬ IsSet parser name po.name)
      (hdefault : po.default = .inheritGlobal default)
      (hget : parser.get "global" po.name = .ok text)
      (hconv : ofText lib po.typ text = .ok value)
  | inheritedDefault (default : OptionValue) (hunset : ¬ IsSet parser name po.name)
      (hdefault : po.default = .inheritGlobal default)
      (hglobal : ¬ IsSet parser "global" po.name)
      (hconv : ofDefault lib po.typ default = .ok value)
  | default (default : OptionValue) (hunset : ¬ IsSet parser name po.name)
      (hdefault : po.default = .value default)
      (hconv : ofDefault lib po.typ default = .ok value)

/-- What can be got from a section is set there. -/
theorem isSet_of_get {name option text : Str} (h : parser.get name option = .ok text) :
    IsSet parser name option := by
  obtain ⟨values, raw, hvalues, hlookup, -⟩ := parser.get_iff.mp h
  exact ⟨raw, parser.getRaw_iff.mpr ⟨values, hvalues, hlookup⟩⟩

/-- **An option is set in a section exactly if it is among the options that the
    section unifies**: its own, and those it inherits. -/
theorem isSet_iff {name : Str} {values : Options} (h : parser.unifyValues name = .ok values)
    (option : Str) : IsSet parser name option ↔ option ∈ values := by
  rw [← AList.lookup_isSome, Option.isSome_iff_exists]
  constructor
  · rintro ⟨text, htext⟩
    obtain ⟨values', hvalues, hlookup⟩ := parser.getRaw_iff.mp htext
    exact ⟨text, Except.ok.inj (h.symm.trans hvalues) ▸ hlookup⟩
  · rintro ⟨text, htext⟩
    exact ⟨text, parser.getRaw_iff.mpr ⟨values, h, htext⟩⟩

/-- **`has_option` says whether an option is set.** -/
theorem hasOption_iff {name : Str} (hne : name ≠ []) (option : Str) :
    parser.hasOption name option = true ↔ IsSet parser name option := by
  rw [Parser.hasOption]
  split_ifs with hdefault
  · obtain rfl : name = defaultSection := hdefault.resolve_left hne
    rw [decide_eq_true_iff, isSet_iff (unifyValues_default parser)]
  · have hname : name ≠ defaultSection := fun h => hdefault (Or.inr h)
    cases hlookup : parser.sections.lookup name with
    | some options =>
        have hvalues : parser.unifyValues name = .ok (options ∪ parser.defaults) := by
          rw [Parser.unifyValues, hlookup]
        rw [isSet_iff hvalues, AList.mem_union]
        exact decide_eq_true_iff
    | none =>
        refine iff_of_false Bool.noConfusion ?_
        rintro ⟨text, htext⟩
        obtain ⟨values, hvalues, -⟩ := parser.getRaw_iff.mp htext
        rw [Parser.unifyValues, hlookup] at hvalues
        simp only [if_neg hname, reduceCtorEq] at hvalues

/-- Where an option is not set, there is no text, and nothing goes wrong. -/
theorem textOf_unset {name option : Str} (h : ¬ IsSet parser name option) :
    OptionHandler.textOf parser name option = .ok none := by
  rw [OptionHandler.textOf]
  cases hraw : parser.getRaw name option with
  | error e => rfl
  | ok text => exact absurd ⟨text, hraw⟩ h

/-- Where an option is set, its text is what the parser gets, interpolation
    included. -/
theorem textOf_set {name option : Str} (h : IsSet parser name option) :
    OptionHandler.textOf parser name option = (ofParser (parser.get name option)).map some := by
  obtain ⟨text, hraw⟩ := h
  rw [OptionHandler.textOf, hraw]

/-- A getter that finds a text. -/
theorem getter_set {name : Str} (hname : Readable parser name) {typ : OptionType} {option : Str}
    (h : IsSet parser name option) {default value : OptionValue} :
    OptionHandler.getter lib parser typ name option default = .ok value
      ↔ ∃ text, parser.get name option = .ok text ∧ ofText lib typ text = .ok value := by
  rw [getter_eq hname, textOf_set h]
  cases parser.get name option with
  | error e => exact iff_of_false (fun h => nomatch h) (fun ⟨_, h, _⟩ => nomatch h)
  | ok text =>
      constructor
      · exact fun hvalue => ⟨text, rfl, hvalue⟩
      · rintro ⟨text', htext, hvalue⟩
        exact Except.ok.inj htext ▸ hvalue

/-- A getter that finds none. -/
theorem getter_unset {name : Str} (hname : Readable parser name) (typ : OptionType)
    {option : Str} (h : ¬ IsSet parser name option) (default : OptionValue) :
    OptionHandler.getter lib parser typ name option default = ofDefault lib typ default := by
  rw [getter_eq hname, textOf_unset h]
  rfl

/-- An option that is set is read as the conversion of its own text. -/
theorem read_iff_of_set {name : Str} (hname : Readable parser name) (hne : name ≠ [])
    (po : PluginOption) (hset : IsSet parser name po.name) (value : OptionValue) :
    OptionHandler.read lib parser name po = .ok value ↔ Effective lib parser name po value := by
  have hread : OptionHandler.read lib parser name po = .ok value
      ↔ ∃ text, parser.get name po.name = .ok text ∧ ofText lib po.typ text = .ok value := by
    rw [OptionHandler.read, if_pos ((hasOption_iff hne po.name).mpr hset)]
    cases po.default with
    | required => exact getter_set hname hset
    | inheritGlobal default => exact getter_set hname hset
    | value default => exact getter_set hname hset
  rw [hread]
  constructor
  · rintro ⟨text, hget, hconv⟩
    exact .set text hget hconv
  · intro heffective
    cases heffective with
    | set text hget hconv => exact ⟨text, hget, hconv⟩
    | inherited default text hunset => exact absurd hset hunset
    | inheritedDefault default hunset => exact absurd hset hunset
    | default default hunset => exact absurd hset hunset

/-- An option that is not set is read from `[global]`, or is its default. -/
theorem read_iff_of_unset {name : Str} (hname : Readable parser name) (hne : name ≠ [])
    (hglobal : parser.hasSection "global" = true) (po : PluginOption)
    (hset : ¬ IsSet parser name po.name) (value : OptionValue) :
    OptionHandler.read lib parser name po = .ok value ↔ Effective lib parser name po value := by
  -- what is not set falls back, as its default says
  rw [OptionHandler.read, if_neg (fun h => hset ((hasOption_iff hne po.name).mp h))]
  cases hdefault : po.default with
  | required =>
      refine iff_of_false (fun h => by cases h) (fun heffective => ?_)
      cases heffective with
      | set text hget => exact hset (isSet_of_get hget)
      | inherited default text _ hdef => rw [hdefault] at hdef; cases hdef
      | inheritedDefault default _ hdef => rw [hdefault] at hdef; cases hdef
      | default default _ hdef => rw [hdefault] at hdef; cases hdef
  | inheritGlobal default =>
      dsimp only
      -- `[global]` is asked before the default that comes with it
      by_cases hthere : IsSet parser "global" po.name
      · rw [getter_set (Or.inr hglobal) hthere]
        constructor
        · rintro ⟨text, hget, hconv⟩
          exact .inherited default text hset hdefault hget hconv
        · intro heffective
          cases heffective with
          | set text hget => exact absurd (isSet_of_get hget) hset
          | inherited default text _ _ hget hconv => exact ⟨text, hget, hconv⟩
          | inheritedDefault default _ _ hunset => exact absurd hthere hunset
          | default default _ hdef => rw [hdefault] at hdef; cases hdef
      · rw [getter_unset (Or.inr hglobal) po.typ hthere]
        constructor
        · exact fun hconv => .inheritedDefault default hset hdefault hthere hconv
        · intro heffective
          cases heffective with
          | set text hget => exact absurd (isSet_of_get hget) hset
          | inherited _ text _ _ hget => exact absurd (isSet_of_get hget) hthere
          | inheritedDefault default' _ hdef _ hconv =>
              rw [hdefault] at hdef
              obtain rfl := OptionDefault.inheritGlobal.inj hdef
              exact hconv
          | default default _ hdef => rw [hdefault] at hdef; cases hdef
  | value default =>
      dsimp only
      rw [getter_unset hname po.typ hset]
      constructor
      · exact fun hconv => .default default hset hdefault hconv
      · intro heffective
        cases heffective with
        | set text hget => exact absurd (isSet_of_get hget) hset
        | inherited _ text _ hdef => rw [hdefault] at hdef; cases hdef
        | inheritedDefault _ _ hdef => rw [hdefault] at hdef; cases hdef
        | default default' _ hdef hconv =>
            rw [hdefault] at hdef
            obtain rfl := OptionDefault.value.inj hdef
            exact hconv

/-- **What is read is the value of the option.** -/
theorem read_iff {name : Str} (hname : parser.hasSection name = true) (hne : name ≠ [])
    (hglobal : parser.hasSection "global" = true) (po : PluginOption) (value : OptionValue) :
    OptionHandler.read lib parser name po = .ok value ↔ Effective lib parser name po value := by
  by_cases hset : IsSet parser name po.name
  · exact read_iff_of_set (Or.inr hname) hne po hset value
  · exact read_iff_of_unset (Or.inr hname) hne hglobal po hset value

/-! ## A plugin -/

/-- The options of a class become settings, one after the other: each of them
    has a value, and the settings take it, which one for a store does under one
    name only. -/
inductive Assigned (lib : Library) (parser : Parser) (name : Str) :
    List PluginOption → Settings → Settings → Prop where
  | nil (settings : Settings) : Assigned lib parser name [] settings settings
  | cons {po : PluginOption} {options : List PluginOption} {settings next final : Settings}
      {value : OptionValue} (hvalue : Effective lib parser name po value)
      (hassign : settings.assign po value = .ok next)
      (hrest : Assigned lib parser name options next final) :
      Assigned lib parser name (po :: options) settings final

/-- The names that were asked for, after more options. -/
def seenAfter (options : List PluginOption) (seen : List Str) : List Str :=
  options.foldl (fun seen po => po.name :: seen) seen

/-- The names that have been seen after some options are those from before and
    those of the options. -/
theorem mem_seenAfter (options : List PluginOption) (seen : List Str) (name : Str) :
    name ∈ seenAfter options seen ↔ name ∈ seen ∨ ∃ po ∈ options, po.name = name := by
  induction options generalizing seen with
  | nil => exact (or_iff_left (fun ⟨_, h, _⟩ => List.not_mem_nil h)).symm
  | cons po options ih =>
      rw [seenAfter, List.foldl_cons]
      refine (ih (po.name :: seen)).trans ?_
      rw [List.mem_cons]
      constructor
      · rintro ((rfl | hseen) | ⟨po', hpo', rfl⟩)
        · exact Or.inr ⟨po, List.mem_cons_self, rfl⟩
        · exact Or.inl hseen
        · exact Or.inr ⟨po', List.mem_cons_of_mem po hpo', rfl⟩
      · rintro (hseen | ⟨po', hpo', rfl⟩)
        · exact Or.inl (Or.inr hseen)
        · rcases List.mem_cons.mp hpo' with rfl | hpo'
          · exact Or.inl (Or.inl rfl)
          · exact Or.inr ⟨po', hpo', rfl⟩

section Configure

variable {name : Str} (hname : parser.hasSection name = true) (hne : name ≠ [])
  (hglobal : parser.hasSection "global" = true)

include hname hne hglobal

/-- **The loop over the options assigns their values.** -/
theorem configureOptions_iff (options : List PluginOption) (seen : List Str)
    (settings final : Settings) (handler : OptionHandler) :
    configureOptions lib options ⟨parser, name, seen⟩ settings = .ok (handler, final)
      ↔ Assigned lib parser name options settings final
        ∧ handler = ⟨parser, name, seenAfter options seen⟩ := by
  induction options generalizing seen settings with
  | nil =>
      constructor
      · intro h
        obtain ⟨rfl, rfl⟩ := Prod.mk.inj (Except.ok.inj h)
        exact ⟨.nil settings, rfl⟩
      · rintro ⟨⟨-⟩, rfl⟩
        rfl
  | cons po options ih =>
      constructor
      · intro h
        obtain ⟨⟨value, handler'⟩, hget, h⟩ := ok_of_bind h
        obtain ⟨value', hread, hget⟩ := ok_of_bind hget
        obtain ⟨rfl, rfl⟩ := Prod.mk.inj (Except.ok.inj hget)
        obtain ⟨next, hassign, h⟩ := ok_of_bind h
        obtain ⟨hrest, hhandler⟩ := (ih (po.name :: seen) next).mp h
        exact ⟨.cons ((read_iff hname hne hglobal po value').mp hread) hassign hrest, hhandler⟩
      · rintro ⟨hassigned, rfl⟩
        cases hassigned with
        | @cons _ _ _ next _ value hvalue hassign hrest =>
            -- the handler passes from option to option, and remembers their names
            have hread := (read_iff hname hne hglobal po value).mpr hvalue
            have hget : OptionHandler.get lib ⟨parser, name, seen⟩ po
                = .ok (value, ⟨parser, name, po.name :: seen⟩) := by
              show (OptionHandler.read lib parser name po).bind _ = _
              rw [hread]
              rfl
            show ((OptionHandler.get lib ⟨parser, name, seen⟩ po).bind _ : Except _ _) = _
            rw [hget]
            show ((settings.assign po value).bind _ : Except _ _) = _
            rw [hassign]
            exact (ih (po.name :: seen) next).mpr ⟨hrest, rfl⟩

omit hname hne hglobal in
/-- **Nothing is surplus** if all options can be read, and each one was asked
    for or is a default. -/
theorem checkSurplus_iff (seen : List Str) :
    OptionHandler.checkSurplus ⟨parser, name, seen⟩ = .ok []
      ↔ (∃ items, parser.items name = .ok items)
        ∧ ∀ option, IsSet parser name option → option ∈ seen ∨ option ∈ parser.defaults := by
  -- what is set in the defaults of all sections is never surplus
  have hdefault (option : Str) : parser.hasOption defaultSection option = true
      ↔ option ∈ parser.defaults := by
    rw [hasOption_iff (by decide), isSet_iff (unifyValues_default parser)]
  have hsurplus (names : List Str) : names.filter (fun name => decide (name ∉ seen)
      && !parser.hasOption defaultSection name) = []
        ↔ ∀ option ∈ names, option ∈ seen ∨ option ∈ parser.defaults := by
    rw [List.filter_eq_nil_iff]
    refine forall₂_congr (fun option _ => ?_)
    rw [Bool.and_eq_true, Bool.not_eq_true', decide_eq_true_iff, ← hdefault]
    cases parser.hasOption defaultSection option <;> tauto
  cases hitems : parser.items name with
  | error e =>
      refine iff_of_false (fun h => ?_) (fun ⟨⟨_, h⟩, _⟩ => nomatch h)
      obtain ⟨items, hread, -⟩ := ok_of_bind h
      rw [hitems] at hread
      exact nomatch hread
  | ok items =>
      obtain ⟨values, hvalues, hnames⟩ := parser.items_names hitems
      have hchecked : OptionHandler.checkSurplus ⟨parser, name, seen⟩
          = .ok ((items.map Prod.fst).filter (fun name => decide (name ∉ seen)
            && !parser.hasOption defaultSection name)) := by
        rw [OptionHandler.checkSurplus, hitems]
        rfl
      rw [hchecked, Except.ok.injEq, hsurplus, hnames]
      simp only [isSet_iff hvalues, AList.mem_keys]
      exact ⟨fun h => ⟨⟨items, rfl⟩, h⟩, fun h => h.2⟩

/-- A plugin whose configuration is complete, with the settings that come of it:
    all options assigned, the section readable as a whole, and nothing in it
    unknown. -/
structure Configured (lib : Library) (parser : Parser) (name : Str)
    (options : List PluginOption) (settings : Settings) : Prop where
  assigned : Assigned lib parser name options ⟨[], none⟩ settings
  readable : ∃ items, parser.items name = .ok items
  known : ∀ option, IsSet parser name option →
    option = "handler" ∨ (∃ po ∈ options, po.name = option) ∨ option ∈ parser.defaults

/-- **A plugin is configured exactly if its options have values**, the whole
    section can be read, and nothing in it is unknown. -/
theorem configure_iff (options : List PluginOption) (settings : Settings) :
    configure lib options parser name = .ok settings
      ↔ Configured lib parser name options settings := by
  -- `handler` counts as asked for from the start
  have hknown (option : Str) : option ∈ seenAfter options ["handler"]
      ↔ option = "handler" ∨ ∃ po ∈ options, po.name = option := by
    rw [mem_seenAfter, List.mem_singleton]
  constructor
  · intro h
    obtain ⟨⟨handler, settings'⟩, hoptions, h⟩ := ok_of_bind h
    obtain ⟨hassigned, rfl⟩ :=
      (configureOptions_iff hname hne hglobal options ["handler"] _ settings' handler).mp hoptions
    obtain ⟨surplus, hsurplus, h⟩ := ok_of_bind h
    split_ifs at h with hempty
    obtain rfl := Except.ok.inj h
    rw [hempty] at hsurplus
    obtain ⟨hreadable, hall⟩ := (checkSurplus_iff _).mp hsurplus
    refine ⟨hassigned, hreadable, fun option hset => ?_⟩
    rcases hall option hset with hseen | hdefault
    · exact ((hknown option).mp hseen).imp id Or.inl
    · exact Or.inr (Or.inr hdefault)
  · rintro ⟨hassigned, hreadable, hall⟩
    have hoptions := (configureOptions_iff hname hne hglobal options ["handler"] _ settings _).mpr
      ⟨hassigned, rfl⟩
    have hsurplus : OptionHandler.checkSurplus ⟨parser, name, seenAfter options ["handler"]⟩
        = .ok [] := by
      refine (checkSurplus_iff _).mpr ⟨hreadable, fun option hset => ?_⟩
      rcases hall option hset with hhandler | hoption | hdefault
      · exact Or.inl ((hknown option).mpr (Or.inl hhandler))
      · exact Or.inl ((hknown option).mpr (Or.inr hoption))
      · exact Or.inr hdefault
    show ((configureOptions lib options (OptionHandler.init parser name) ⟨[], none⟩).bind _
      : Except _ _) = _
    rw [OptionHandler.init, hoptions]
    show ((OptionHandler.checkSurplus _).bind _ : Except _ _) = _
    rw [hsurplus]
    rfl

end Configure

/-! ## Attributes -/

section Attributes

variable {name : Str} {options : List PluginOption} {settings final : Settings}

/-- **A value is assigned to the store or to an attribute**: to the store if the
    option is of that type, which must then have its name. -/
theorem assign_cases {po : PluginOption} {value : OptionValue}
    (h : settings.assign po value = .ok final) :
    (po.typ = .store ∧ po.name = "store" ∧ final = { settings with storeName := some value })
      ∨ (po.typ ≠ .store
        ∧ final = { settings with attributes := settings.attributes ++ [(po.name, value)] }) := by
  rw [Settings.assign] at h
  split_ifs at h with hstore hnamed
  · exact Or.inl ⟨hstore, not_not.mp hnamed, (Except.ok.inj h).symm⟩
  · exact Or.inr ⟨hstore, (Except.ok.inj h).symm⟩

/-- **Every option has a value, and it is an attribute.** -/
theorem attribute_of_option (h : Assigned lib parser name options settings final)
    {po : PluginOption} (hpo : po ∈ options) :
    ∃ value, Effective lib parser name po value
      ∧ (po.typ ≠ .store → (po.name, value) ∈ final.attributes) := by
  have hkeeps : ∀ {options : List PluginOption} {settings final : Settings},
      Assigned lib parser name options settings final →
      ∀ a ∈ settings.attributes, a ∈ final.attributes := by
    intro options settings final h
    induction h with
    | nil => exact fun a ha => ha
    | cons hvalue hassign hrest ih =>
        intro a ha
        rcases assign_cases hassign with ⟨-, -, rfl⟩ | ⟨-, rfl⟩
        · exact ih a ha
        · exact ih a (List.mem_append_left _ ha)
  induction h with
  | nil => exact absurd hpo List.not_mem_nil
  | @cons po' options settings next final value hvalue hassign hrest ih =>
      rcases List.mem_cons.mp hpo with rfl | hpo
      · refine ⟨value, hvalue, fun htyp => ?_⟩
        rcases assign_cases hassign with ⟨hstore, -, -⟩ | ⟨-, rfl⟩
        · exact absurd hstore htyp
        · exact hkeeps hrest _ (List.mem_append_right _ (List.mem_singleton_self _))
      · exact ih hpo

/-- **Every attribute is the value of an option.** -/
theorem option_of_attribute (h : Assigned lib parser name options settings final)
    {option : Str} {value : OptionValue} (hattribute : (option, value) ∈ final.attributes) :
    (option, value) ∈ settings.attributes
      ∨ ∃ po ∈ options, po.typ ≠ .store ∧ po.name = option
        ∧ Effective lib parser name po value := by
  induction h with
  | nil => exact Or.inl hattribute
  | @cons po options settings next final value' hvalue hassign hrest ih =>
      rcases ih hattribute with hnext | ⟨po', hpo', hfound⟩
      · rcases assign_cases hassign with ⟨-, -, rfl⟩ | ⟨htyp, rfl⟩
        · exact Or.inl hnext
        · rcases List.mem_append.mp hnext with hold | hnew
          · exact Or.inl hold
          · obtain ⟨rfl, rfl⟩ := Prod.mk.inj (List.mem_singleton.mp hnew)
            exact Or.inr ⟨po, List.mem_cons_self, htyp, rfl, hvalue⟩
      · exact Or.inr ⟨po', List.mem_cons_of_mem po hpo', hfound⟩

/-- **The name of the store is the value of an option**, if one is for it. -/
theorem storeName_of_assigned (h : Assigned lib parser name options settings final) :
    (∀ value, final.storeName = some value → settings.storeName = some value
        ∨ ∃ po ∈ options, po.typ = .store ∧ Effective lib parser name po value)
      ∧ (final.storeName = none
        ↔ settings.storeName = none ∧ ∀ po ∈ options, po.typ ≠ .store) := by
  induction h with
  | nil => exact ⟨fun _ => Or.inl, by simp only [List.not_mem_nil, false_implies, implies_true,
      and_true]⟩
  | @cons po options settings next final value' hvalue hassign hrest ih =>
      obtain ⟨hsome, hnone⟩ := ih
      refine ⟨fun value hstore => ?_, ?_⟩
      · rcases hsome value hstore with hnext | ⟨po', hpo', hfound⟩
        · rcases assign_cases hassign with ⟨htyp, -, rfl⟩ | ⟨-, rfl⟩
          · obtain rfl := Option.some.inj hnext
            exact Or.inr ⟨po, List.mem_cons_self, htyp, hvalue⟩
          · exact Or.inl hnext
        · exact Or.inr ⟨po', List.mem_cons_of_mem po hpo', hfound⟩
      · rw [hnone, List.forall_mem_cons]
        rcases assign_cases hassign with ⟨htyp, -, rfl⟩ | ⟨htyp, rfl⟩
        · exact iff_of_false (fun h => nomatch h.1) (fun h => h.2.1 htyp)
        · exact and_congr_right (fun _ => (and_iff_right htyp).symm)

/-- Options that have values can be assigned. -/
theorem assigned_of_effective
    (hvalues : ∀ po ∈ options, ∃ value, Effective lib parser name po value)
    (hstores : ∀ po ∈ options, po.typ = .store → po.name = "store") (settings : Settings) :
    ∃ final, Assigned lib parser name options settings final := by
  induction options generalizing settings with
  | nil => exact ⟨settings, .nil settings⟩
  | cons po options ih =>
      rw [List.forall_mem_cons] at hvalues hstores
      obtain ⟨value, hvalue⟩ := hvalues.1
      have hassign : ∃ next, settings.assign po value = .ok next := by
        rw [Settings.assign]
        split_ifs with htyp hname
        · exact absurd (hstores.1 htyp) hname
        · exact ⟨_, rfl⟩
        · exact ⟨_, rfl⟩
      obtain ⟨next, hnext⟩ := hassign
      obtain ⟨final, hfinal⟩ := ih hvalues.2 hstores.2 next
      exact ⟨final, .cons hvalue hnext hfinal⟩

/-- Where all options have been assigned, a store option is named `store`. -/
theorem named_of_assigned (h : Assigned lib parser name options settings final) :
    ∀ po ∈ options, po.typ = .store → po.name = "store" := by
  induction h with
  | nil => exact fun po hpo => absurd hpo List.not_mem_nil
  | @cons po options settings next final value' hvalue hassign hrest ih =>
      rw [List.forall_mem_cons]
      refine ⟨fun htyp => ?_, ih⟩
      rcases assign_cases hassign with ⟨-, hname, -⟩ | ⟨hno, -⟩
      · exact hname
      · exact absurd htyp hno

end Attributes

/-! ## A plugin and its section -/

/-- A section that has all a plugin needs, and nothing else: a value for every
    option, stores under the name `store`, texts that can be interpolated, and
    no surplus. -/
structure Complete (lib : Library) (parser : Parser) (name : Str) (options : List PluginOption) :
    Prop where
  values : ∀ po ∈ options, ∃ value, Effective lib parser name po value
  stores : ∀ po ∈ options, po.typ = .store → po.name = "store"
  readable : ∃ items, parser.items name = .ok items
  known : ∀ option, IsSet parser name option →
    option = "handler" ∨ (∃ po ∈ options, po.name = option) ∨ option ∈ parser.defaults

/-- **HEADLINE — a plugin is configured exactly if its section is complete**, and
    then its attributes are the values of its options: what the section sets,
    or what it inherits, or their defaults, and nothing else. -/
theorem plugin_configured {name : Str} (hname : parser.hasSection name = true) (hne : name ≠ [])
    (hglobal : parser.hasSection "global" = true) (options : List PluginOption) :
    ((∃ settings, configure lib options parser name = .ok settings)
        ↔ Complete lib parser name options)
      ∧ ∀ settings, configure lib options parser name = .ok settings →
        (∀ option value, (option, value) ∈ settings.attributes
          ↔ ∃ po ∈ options, po.typ ≠ .store ∧ po.name = option
            ∧ Effective lib parser name po value)
        ∧ (∀ value, settings.storeName = some value →
          ∃ po ∈ options, po.typ = .store ∧ Effective lib parser name po value)
        ∧ (settings.storeName = none ↔ ∀ po ∈ options, po.typ ≠ .store) := by
  refine ⟨⟨?_, ?_⟩, fun settings h => ?_⟩
  · rintro ⟨settings, h⟩
    obtain ⟨hassigned, hreadable, hknown⟩ := (configure_iff hname hne hglobal options settings).mp h
    exact ⟨fun po hpo => (attribute_of_option hassigned hpo).imp (fun _ h => h.1),
      named_of_assigned hassigned, hreadable, hknown⟩
  · rintro ⟨hvalues, hstores, hreadable, hknown⟩
    obtain ⟨settings, hassigned⟩ := assigned_of_effective hvalues hstores ⟨[], none⟩
    exact ⟨settings, (configure_iff hname hne hglobal options settings).mpr
      ⟨hassigned, hreadable, hknown⟩⟩
  · obtain ⟨hassigned, -, -⟩ := (configure_iff hname hne hglobal options settings).mp h
    obtain ⟨hsome, hnone⟩ := storeName_of_assigned hassigned
    refine ⟨fun option value => ⟨fun hattribute => ?_, ?_⟩, fun value hstore => ?_, ?_⟩
    · exact (option_of_attribute hassigned hattribute).resolve_left List.not_mem_nil
    · rintro ⟨po, hpo, htyp, rfl, heffective⟩
      obtain ⟨value', heffective', hmem⟩ := attribute_of_option hassigned hpo
      have hread := (read_iff hname hne hglobal po value).mpr heffective
      rw [(read_iff hname hne hglobal po value').mpr heffective'] at hread
      obtain rfl := Except.ok.inj hread
      exact hmem htyp
    · exact (hsome value hstore).resolve_left (fun h => nomatch h)
    · rw [hnone]
      exact and_iff_right rfl

/-! ### A store that inherits its debug flag -/

/-- The options of a store with a table. -/
def tableOptions : List PluginOption :=
  collectOptions [⟨"dburi", .str, .required⟩, ⟨"tablename", .str, .value (.str "secrets")⟩]

/-- A configuration that sets one of them, and `debug` for all. -/
def tableParser : Parser :=
  ((((Parser.ofDefaults ∅).withSection "global").withOption "global" "debug" "true").withSection
    "store:db").withOption "store:db" "dburi" "secrets.db"

/-- Nothing is converted but the flag. -/
def plainLibrary : Library :=
  ⟨fun _ _ => none, fun _ => none, fun _ => .ok (), fun _ => .ok .null, fun _ => none,
    fun _ => none⟩

/-- The store is configured, with what it inherits from `[global]`. -/
theorem plugin_configured_table :
    ∃ settings, configure plainLibrary tableOptions tableParser "store:db" = .ok settings
      ∧ (("debug" : Str), OptionValue.bool true) ∈ settings.attributes
      ∧ settings.storeName = none := by
  have hok : (configure plainLibrary tableOptions tableParser "store:db").toOption.isSome
      = true := by decide +kernel
  cases hsettings : configure plainLibrary tableOptions tableParser "store:db" with
  | error e => rw [hsettings] at hok; exact Bool.noConfusion hok
  | ok settings =>
      have hname : tableParser.hasSection "store:db" = true := by decide +kernel
      have hne : ("store:db" : Str) ≠ [] := by decide
      have hglobal : tableParser.hasSection "global" = true := by decide +kernel
      obtain ⟨hattributes, -, hstore⟩ :=
        (plugin_configured hname hne hglobal tableOptions).2 settings hsettings
      refine ⟨settings, rfl, (hattributes _ _).mpr ?_, hstore.mpr (by decide +kernel)⟩
      have hdebug : debugOption ∈ tableOptions := by
        rw [tableOptions, collectOptions, List.mem_insertionSort]
        exact List.mem_cons_self
      refine ⟨debugOption, hdebug, by decide, rfl, ?_⟩
      refine .inherited (.bool false) "true" ?_ rfl (by decide +kernel) rfl
      rw [← hasOption_iff hne]
      decide +kernel

end PluginOptionsProofs
