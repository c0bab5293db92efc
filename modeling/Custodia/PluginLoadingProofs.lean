import Custodia.PluginLoading
import Custodia.PluginOptionsProofs
import Custodia.ConfigurationProofs

/-! # PluginLoadingProofs — the service is what its configuration says

    Loading goes through the sections in order and stops at the first one that
    makes no plugin. If it does not stop, the dictionaries hold the plugin of
    the last section of every name, each option with the value that the
    sections give it, and nothing else.

    * `Sound`: a section, and the plugin it stands for;
    * `service_configured`: when a server loads, and what it has loaded then;
    * `served_iff`: when every section has its plugin;
    * `started_service`: the stores and the routes of a server that starts. -/

namespace PluginLoadingProofs

open PosixPath PyValues ConfigParser PluginOptions Pipeline MappedValues PluginLoading
open PluginOptionsProofs SeparatedNames ConfigurationProofs
open Configuration (Host Args Source getDefaults createParser readConfigs)

variable {lib : Library} {modules : Modules} {parser : Parser}

/-! ## One section -/

/-- **A section, and the plugin it stands for**: its handler names a class that
    can be loaded, and the class, in the new style or the old one, can be
    configured from it. -/
inductive Sound (lib : Library) (modules : Modules) (parser : Parser) (s : Str) (menu : Menu) :
    Plugin → Prop where
  | newStyle {text : Str} {cls : PluginClass} {options : List PluginOption} {settings : Settings}
      {store : Option Str} (hhandler : parser.get s "handler" = .ok text)
      (hclass : loadPluginClass modules menu text = .ok cls) (hoptions : cls.options = some options)
      (hconfigured : Configured lib parser s options settings)
      (hinit : cls.init s settings = .ok store) :
      Sound lib modules parser s menu ⟨cls, s, originOf cls s, settings, [], store⟩
  | oldStyle {text : Str} {cls : PluginClass} {items : List (Str × Str)} {store : Option Str}
      (hhandler : parser.get s "handler" = .ok text)
      (hclass : loadPluginClass modules menu text = .ok cls) (hoptions : cls.options = none)
      (hitems : parser.items s = .ok items)
      (hinit : cls.initOld (oldConfig cls s items) = .ok store) :
      Sound lib modules parser s menu ⟨cls, s,
        ((oldConfig cls s items).lookup ("facility_name" : Str)).getD cls.name, ⟨[], none⟩,
        oldConfig cls s items, store⟩

/-- A plugin keeps the name of its section. -/
theorem Sound.sectionName {s : Str} {menu : Menu} {plugin : Plugin}
    (h : Sound lib modules parser s menu plugin) : plugin.sectionName = s := by
  cases h <;> rfl

section Create

variable {s : Str} (hs : parser.hasSection s = true) (hne : s ≠ [])
  (hglobal : parser.hasSection "global" = true)

include hne in
/-- **The class of a section is what its handler names**, and the handler must
    be set and readable. -/
theorem handlerOf_iff (menu : Menu) (cls : PluginClass) :
    handlerOf modules parser s menu = .ok cls
      ↔ ∃ text, parser.get s "handler" = .ok text
        ∧ loadPluginClass modules menu text = .ok cls := by
  by_cases hset : IsSet parser s "handler"
  · have hno : ¬ parser.hasOption s "handler" = false := by
      rw [(hasOption_iff hne "handler").mpr hset]
      exact Bool.noConfusion
    rw [handlerOf, if_neg hno]
    constructor
    · intro h
      obtain ⟨text, hget, h⟩ := ok_of_bind h
      exact ⟨text, mapError_eq_ok.mp hget, mapError_eq_ok.mp h⟩
    · rintro ⟨text, hget, hclass⟩
      rw [hget]
      exact mapError_eq_ok.mpr hclass
  · have hno : parser.hasOption s "handler" = false :=
      Bool.eq_false_iff.mpr (fun h => hset ((hasOption_iff hne "handler").mp h))
    rw [handlerOf, if_pos hno]
    refine iff_of_false (fun h => nomatch h) ?_
    rintro ⟨text, hget, -⟩
    exact hset (isSet_of_get hget)

include hs hne hglobal in
/-- **The plugin of a section is made exactly if the section is sound.** -/
theorem createPlugin_iff (menu : Menu) (plugin : Plugin) :
    createPlugin lib modules parser s menu = .ok plugin
      ↔ Sound lib modules parser s menu plugin := by
  constructor
  · intro h
    obtain ⟨cls, hcls, h⟩ := ok_of_bind h
    obtain ⟨text, hhandler, hclass⟩ := (handlerOf_iff hne menu cls).mp hcls
    rw [instantiate] at h
    -- a class without options takes the section as a dictionary
    cases hoptions : cls.options with
    | some options =>
        rw [hoptions] at h
        obtain ⟨settings, hsettings, h⟩ := ok_of_bind h
        obtain ⟨store, hinit, h⟩ := ok_of_bind h
        obtain rfl := Except.ok.inj h
        exact .newStyle hhandler hclass hoptions
          ((configure_iff hs hne hglobal options settings).mp hsettings) hinit
    | none =>
        rw [hoptions] at h
        obtain ⟨items, hitems, h⟩ := ok_of_bind h
        obtain ⟨store, hinit, h⟩ := ok_of_bind h
        obtain rfl := Except.ok.inj h
        exact .oldStyle hhandler hclass hoptions (mapError_eq_ok.mp hitems) hinit
  · intro h
    cases h with
    | @newStyle text cls options settings store hhandler hclass hoptions hconfigured hinit =>
        have hcls := (handlerOf_iff hne menu cls).mpr ⟨text, hhandler, hclass⟩
        have hsettings := (configure_iff hs hne hglobal options settings).mpr hconfigured
        show ((handlerOf modules parser s menu).bind _ : Except _ _) = _
        rw [hcls]
        show instantiate lib parser s cls = _
        rw [instantiate, hoptions]
        show ((configure lib options parser s).bind _ : Except _ _) = _
        rw [hsettings]
        show ((cls.init s settings).bind _ : Except _ _) = _
        rw [hinit]
        rfl
    | @oldStyle text cls items store hhandler hclass hoptions hitems hinit =>
        have hcls := (handlerOf_iff hne menu cls).mpr ⟨text, hhandler, hclass⟩
        show ((handlerOf modules parser s menu).bind _ : Except _ _) = _
        rw [hcls]
        show instantiate lib parser s cls = _
        rw [instantiate, hoptions]
        show ((ofParser (parser.items s)).bind _ : Except _ _) = _
        rw [ofParser, mapError_eq_ok.mpr hitems]
        show ((cls.initOld (oldConfig cls s items)).bind _ : Except _ _) = _
        rw [hinit]
        rfl

end Create

/-! ## All sections -/

/-- The section makes a plugin of this name. -/
def Names (s : Str) (menu : Menu) (name : List Str) : Prop :=
  reserved s = false ∧ menuOf s = some menu ∧ nameOf s = name

instance (s : Str) (menu : Menu) (name : List Str) : Decidable (Names s menu name) :=
  inferInstanceAs (Decidable (_ ∧ _))

/-- The last section of a name. -/
def lastNamed (menu : Menu) (name : List Str) : List Str → Option Str
  | [] => none
  | s :: sections =>
      (lastNamed menu name sections).or (if Names s menu name then some s else none)

/-- The last section of a name is one of the sections, and has the name. -/
theorem lastNamed_names {menu : Menu} {name : List Str} {sections : List Str} {s : Str}
    (h : lastNamed menu name sections = some s) : s ∈ sections ∧ Names s menu name := by
  induction sections with
  | nil => exact nomatch h
  | cons t sections ih =>
      rw [lastNamed] at h
      cases hlater : lastNamed menu name sections with
      | some u =>
          rw [hlater] at h
          obtain rfl := Option.some.inj h
          exact ⟨List.mem_cons_of_mem t (ih hlater).1, (ih hlater).2⟩
      | none =>
          rw [hlater, Option.none_or] at h
          split_ifs at h with hnames
          obtain rfl := Option.some.inj h
          exact ⟨List.mem_cons_self, hnames⟩

/-- Where a section has a name, there is a last one. -/
theorem lastNamed_isSome {menu : Menu} {name sections : List Str} {s : Str} (hs : s ∈ sections)
    (hnames : Names s menu name) : ∃ t, lastNamed menu name sections = some t := by
  induction sections with
  | nil => exact absurd hs List.not_mem_nil
  | cons t sections ih =>
      rw [lastNamed]
      rcases List.mem_cons.mp hs with rfl | hs
      · rw [if_pos hnames]
        cases lastNamed menu name sections with
        | none => exact ⟨s, rfl⟩
        | some u => exact ⟨u, rfl⟩
      · obtain ⟨u, hu⟩ := ih hs
        exact ⟨u, by rw [hu]; rfl⟩

/-- A section that makes a plugin. -/
def Makes (lib : Library) (modules : Modules) (parser : Parser) (s : Str) : Prop :=
  ∃ menu plugin, menuOf s = some menu ∧ createPlugin lib modules parser s menu = .ok plugin

/-- A section that makes none, and how that is reported: it is of no kind that
    there is, or what it names cannot be made into a plugin, which the error
    says with its kind and name. -/
inductive Fails (lib : Library) (modules : Modules) (parser : Parser) (s : Str) :
    PluginError → Prop where
  | unknown (hmenu : menuOf s = none) :
      Fails lib modules parser s
        (.valueError (("Invalid section name [" : Str) ++ s ++ ("].\n" : Str)))
  | broken {menu : Menu} {e : PluginError} (hmenu : menuOf s = some menu)
      (hcreate : createPlugin lib modules parser s menu = .error e) :
      Fails lib modules parser s (.runtimeError menu.text (nameOf s) e)

/-- What is found under a name: the plugin of its last section. -/
def foundIn (lib : Library) (modules : Modules) (parser : Parser) (sections : List Str)
    (start : Plugins) (menu : Menu) (name : List Str) : Option Plugin :=
  match lastNamed menu name sections with
  | some s => (createPlugin lib modules parser s menu).toOption
  | none => start.find menu name

/-- One more section at the front: it is found where no later one is. -/
theorem foundIn_cons {sections : List Str} {start : Plugins} {s : Str} {menu : Menu}
    {plugin : Plugin} (hreserved : reserved s = false) (hmenu : menuOf s = some menu)
    (hcreate : createPlugin lib modules parser s menu = .ok plugin) (menu' : Menu)
    (name : List Str) :
    foundIn lib modules parser sections (start.add s plugin) menu' name
      = foundIn lib modules parser (s :: sections) start menu' name := by
  rw [foundIn, foundIn, lastNamed]
  cases lastNamed menu' name sections with
  | some t => rfl
  | none =>
      rw [Option.none_or]
      dsimp only
      rw [find_add start hmenu plugin menu' name]
      by_cases hhere : menu' = menu ∧ name = nameOf s
      · obtain ⟨rfl, rfl⟩ := hhere
        rw [if_pos ⟨rfl, rfl⟩, if_pos ⟨hreserved, hmenu, rfl⟩]
        dsimp only
        rw [hcreate]
        rfl
      · have hno : ¬ Names s menu' name := by
          rintro ⟨-, hmenu', hname⟩
          exact hhere ⟨Option.some.inj (hmenu'.symm.trans hmenu), hname.symm⟩
        rw [if_neg hhere, if_neg hno]

/-- **A configuration that loads**: every section makes its plugin, and the
    last one of a name is found. -/
theorem loadSections_ok {sections : List Str} {start plugins : Plugins}
    (h : loadSections lib modules parser sections start = .ok plugins) :
    (∀ s ∈ sections, reserved s = false → Makes lib modules parser s)
      ∧ ∀ menu name, plugins.find menu name
        = foundIn lib modules parser sections start menu name := by
  induction sections generalizing start with
  | nil =>
      obtain rfl := Except.ok.inj h
      exact ⟨fun s hs => absurd hs List.not_mem_nil, fun _ _ => rfl⟩
  | cons s sections ih =>
      rw [loadSections] at h
      split_ifs at h with hreserved
      · -- a reserved section names no plugin
        obtain ⟨hmakes, hfind⟩ := ih h
        have hskip (menu : Menu) (name : List Str) :
            lastNamed menu name (s :: sections) = lastNamed menu name sections := by
          have hno : ¬ Names s menu name := by
            rintro ⟨hfree, -⟩
            rw [hreserved] at hfree
            exact Bool.noConfusion hfree
          rw [lastNamed, if_neg hno, Option.or_none]
        refine ⟨fun t ht hfree => ?_, fun menu name => ?_⟩
        · rcases List.mem_cons.mp ht with rfl | ht
          · rw [hreserved] at hfree
            exact Bool.noConfusion hfree
          · exact hmakes t ht hfree
        · rw [hfind, foundIn, foundIn, hskip]
      · cases hmenu : menuOf s with
        | none => rw [hmenu] at h; exact nomatch h
        | some menu =>
            rw [hmenu] at h
            dsimp only at h
            cases hcreate : createPlugin lib modules parser s menu with
            | error e => rw [hcreate] at h; exact nomatch h
            | ok plugin =>
                rw [hcreate] at h
                -- its plugin is found unless a later section has the same name
                obtain ⟨hmakes, hfind⟩ := ih h
                refine ⟨fun t ht hfree => ?_, fun menu' name => ?_⟩
                · rcases List.mem_cons.mp ht with rfl | ht
                  · exact ⟨menu, plugin, hmenu, hcreate⟩
                  · exact hmakes t ht hfree
                · rw [hfind]
                  exact foundIn_cons (Bool.eq_false_iff.mpr hreserved) hmenu hcreate menu' name

/-- **A configuration that does not load** is reported by the first section
    that makes no plugin. -/
theorem loadSections_error {sections : List Str} {start : Plugins} {e : PluginError}
    (h : loadSections lib modules parser sections start = .error e) :
    ∃ before s after, sections = before ++ s :: after
      ∧ (∀ t ∈ before, reserved t = false → Makes lib modules parser t)
      ∧ reserved s = false ∧ Fails lib modules parser s e := by
  induction sections generalizing start with
  | nil => exact nomatch h
  | cons s sections ih =>
      -- the error is that of a later section, or of this one
      have hlater : (reserved s = false → Makes lib modules parser s) →
          ∀ {start : Plugins}, loadSections lib modules parser sections start = .error e →
          ∃ before t after, s :: sections = before ++ t :: after
            ∧ (∀ u ∈ before, reserved u = false → Makes lib modules parser u)
            ∧ reserved t = false ∧ Fails lib modules parser t e := by
        intro hmakes start h
        obtain ⟨before, t, after, rfl, hbefore, hfree, hfails⟩ := ih h
        refine ⟨s :: before, t, after, rfl, fun u hu => ?_, hfree, hfails⟩
        rcases List.mem_cons.mp hu with rfl | hu
        · exact hmakes
        · exact hbefore u hu
      rw [loadSections] at h
      split_ifs at h with hreserved
      · refine hlater (fun hfree => ?_) h
        rw [hreserved] at hfree
        exact Bool.noConfusion hfree
      · have hfree : reserved s = false := Bool.eq_false_iff.mpr hreserved
        have hhere (hfails : Fails lib modules parser s e) :
            ∃ before t after, s :: sections = before ++ t :: after
              ∧ (∀ u ∈ before, reserved u = false → Makes lib modules parser u)
              ∧ reserved t = false ∧ Fails lib modules parser t e :=
          ⟨[], s, sections, rfl, fun u hu => absurd hu List.not_mem_nil, hfree, hfails⟩
        cases hmenu : menuOf s with
        | none =>
            rw [hmenu] at h
            obtain rfl := Except.error.inj h
            exact hhere (.unknown hmenu)
        | some menu =>
            rw [hmenu] at h
            dsimp only at h
            cases hcreate : createPlugin lib modules parser s menu with
            | error e' =>
                rw [hcreate] at h
                obtain rfl := Except.error.inj h
                exact hhere (.broken hmenu hcreate)
            | ok plugin =>
                rw [hcreate] at h
                exact hlater (fun _ => ⟨menu, plugin, hmenu, hcreate⟩) h

section Service

variable (hglobal : parser.hasSection "global" = true)

/-- Where nothing was put, nothing is found. -/
theorem find_empty (menu : Menu) (name : List Str) : Plugins.empty.find menu name = none := by
  have hsingle : single ∅ name = none := by
    match name with
    | [] => rfl
    | [a] => exact AList.lookup_empty a
    | _ :: _ :: _ => rfl
  cases menu with
  | consumers => exact AList.lookup_empty name
  | _ => exact hsingle

include hglobal in
/-- The plugin that is made of a section is the one the section stands for. -/
theorem createPlugin_sound {s : Str} (hs : s ∈ parser.sections.map Prod.fst) {menu : Menu}
    (hmenu : menuOf s = some menu) (plugin : Plugin) :
    createPlugin lib modules parser s menu = .ok plugin
      ↔ Sound lib modules parser s menu plugin := by
  refine createPlugin_iff (parser.mem_of_hasSection.mpr hs) ?_ hglobal menu plugin
  rintro rfl
  have hnone : menuOf [] = none := by decide
  rw [hnone] at hmenu
  exact nomatch hmenu

include hglobal in
/-- A section makes a plugin exactly if it names a kind of plugin and stands for
    one. -/
theorem makes_iff {s : Str} (hs : s ∈ parser.sections.map Prod.fst) :
    Makes lib modules parser s
      ↔ ∃ menu plugin, menuOf s = some menu ∧ Sound lib modules parser s menu plugin :=
  exists_congr (fun _ => exists_congr (fun plugin =>
    and_congr_right (fun hmenu => createPlugin_sound hglobal hs hmenu plugin)))

include hglobal in
/-- The plugins load exactly if every section is sound. -/
theorem firstStage_ok_iff :
    (∃ plugins, firstStage lib modules parser = .ok plugins)
      ↔ ∀ s ∈ parser.sections.map Prod.fst, reserved s = false →
        ∃ menu plugin, menuOf s = some menu ∧ Sound lib modules parser s menu plugin := by
  constructor
  · rintro ⟨plugins, h⟩ s hs hfree
    exact (makes_iff hglobal hs).mp ((loadSections_ok h).1 s hs hfree)
  · intro hall
    cases h : firstStage lib modules parser with
    | ok plugins => exact ⟨plugins, rfl⟩
    | error e =>
        obtain ⟨before, s, after, hsections, -, hfree, hfails⟩ := loadSections_error h
        have hs : s ∈ parser.sections.map Prod.fst := by
          rw [hsections]
          exact List.mem_append_right _ List.mem_cons_self
        obtain ⟨menu, plugin, hmenu, hsound⟩ := hall s hs hfree
        cases hfails with
        | unknown hnone => rw [hmenu] at hnone; exact nomatch hnone
        | broken hmenu' hcreate =>
            obtain rfl := Option.some.inj (hmenu.symm.trans hmenu')
            rw [(createPlugin_sound hglobal hs hmenu plugin).mpr hsound] at hcreate
            exact nomatch hcreate

include hglobal in
/-- **What is found under a name is the plugin of its last section.** -/
theorem find_iff {plugins : Plugins} (h : firstStage lib modules parser = .ok plugins)
    (menu : Menu) (name : List Str) (plugin : Plugin) :
    plugins.find menu name = some plugin
      ↔ ∃ s, lastNamed menu name (parser.sections.map Prod.fst) = some s
        ∧ Sound lib modules parser s menu plugin := by
  rw [(loadSections_ok h).2, foundIn]
  cases hlast : lastNamed menu name (parser.sections.map Prod.fst) with
  | none =>
      dsimp only
      rw [find_empty]
      exact iff_of_false (fun h => nomatch h) (fun ⟨_, h, _⟩ => nomatch h)
  | some s =>
      obtain ⟨hs, -, hmenu, -⟩ := lastNamed_names hlast
      have hsound : createPlugin lib modules parser s menu = .ok plugin ↔ _ :=
        createPlugin_sound hglobal hs hmenu plugin
      dsimp only
      constructor
      · intro hplugin
        refine ⟨s, rfl, hsound.mp ?_⟩
        cases hcreate : createPlugin lib modules parser s menu with
        | error e => rw [hcreate] at hplugin; exact nomatch hplugin
        | ok plugin' => rw [hcreate] at hplugin; exact congrArg _ (Option.some.inj hplugin)
      · rintro ⟨t, ht, hplugin⟩
        obtain rfl := Option.some.inj ht
        rw [hsound.mpr hplugin]
        rfl

end Service

/-! ## Sections that share a name -/

/-- A section is spelled by its chain, and perhaps one more slash. -/
theorem mountOf_cases {s : Str} (h : isAbsolute s = true) :
    endsInSlash s = false ∧ mountOf s = s.splitOn slash ∧ spell slash (mountOf s) = s
      ∨ endsInSlash s = true ∧ spell slash (mountOf s) ++ [slash] = s := by
  have hspell : spell slash (s.splitOn slash) = s := List.intercalate_splitOn slash
  -- the last component is empty exactly behind a slash, and only then it is dropped
  by_cases hlast : (s.splitOn slash).getLast? = some []
  · have hsplit : (s.splitOn slash).dropLast ++ [[]] = s.splitOn slash :=
      List.dropLast_append_getLast? [] hlast
    have hne : (s.splitOn slash).dropLast ≠ [] := by
      intro hempty
      rw [hempty] at hsplit
      rw [← hsplit] at hspell
      obtain rfl : [] = s := hspell
      exact Bool.noConfusion h
    have hs : spell slash (s.splitOn slash).dropLast ++ [slash] = s := by
      rw [← hsplit, spell_append slash hne (List.cons_ne_nil _ _), spell_singleton] at hspell
      exact hspell
    have hmount : mountOf s = (s.splitOn slash).dropLast := if_pos hlast
    refine Or.inr ⟨?_, by rw [hmount, hs]⟩
    rw [← hs]
    exact endsInSlash_concat _
  · have hmount : mountOf s = s.splitOn slash := if_neg hlast
    refine Or.inl ⟨?_, hmount, by rw [hmount, hspell]⟩
    refine Bool.eq_false_iff.mpr (fun hends => hlast ?_)
    obtain ⟨r, rfl⟩ := List.getLast?_eq_some_iff.mp (endsInSlash_iff.mp hends)
    rw [show r ++ [slash] = r ++ slash :: [] from rfl, List.splitOn_append_cons_self,
      List.getLast?_append]
    rfl

/-- A slash at the end of a section is no part of its chain. -/
theorem mountOf_doubled {s : Str} (h : isAbsolute s = true) (hends : endsInSlash s = false) :
    mountOf (s ++ [slash]) = mountOf s := by
  have hsplit : (s ++ [slash]).splitOn slash = s.splitOn slash ++ [[]] := by
    rw [show s ++ [slash] = s ++ slash :: [] from rfl, List.splitOn_append_cons_self]
    rfl
  have hlast : ((s ++ [slash]).splitOn slash).getLast? = some [] := by
    rw [hsplit]
    exact List.getLast?_concat
  have hdropped : mountOf (s ++ [slash]) = s.splitOn slash := by
    refine (if_pos hlast).trans ?_
    rw [hsplit, List.dropLast_concat]
  rw [hdropped]
  rcases mountOf_cases h with ⟨-, hmount, -⟩ | ⟨hyes, -⟩
  · exact hmount.symm
  · rw [hends] at hyes
    exact Bool.noConfusion hyes

/-- The two spellings of one chain. -/
def Doubled (s t : Str) : Prop :=
  isAbsolute s = true ∧ endsInSlash s = false ∧ t = s ++ [slash]

/-- How the sections of a dictionary start. -/
def headOf : Menu → Str
  | .consumers => []
  | .authenticators => "auth:"
  | .authorizers => "authz:"
  | .stores => "store:"

/-- The name of a plugin that is no consumer is the rest of its section. -/
theorem spelled {s : Str} {menu : Menu} (h : menuOf s = some menu) (hno : menu ≠ .consumers) :
    ∃ name, s = headOf menu ++ name ∧ nameOf s = [name] := by
  have hmenu := h
  rw [menuOf] at h
  split_ifs at h with habs hauth hauthz hstore
  · exact absurd (Option.some.inj h).symm hno
  · obtain rfl := Option.some.inj h
    obtain ⟨name, rfl⟩ := hauth
    refine ⟨name, rfl, ?_⟩
    rw [nameOf, hmenu]
    rfl
  · obtain rfl := Option.some.inj h
    obtain ⟨name, rfl⟩ := hauthz
    refine ⟨name, rfl, ?_⟩
    rw [nameOf, hmenu]
    rfl
  · obtain rfl := Option.some.inj h
    obtain ⟨name, rfl⟩ := hstore
    refine ⟨name, rfl, ?_⟩
    rw [nameOf, hmenu]
    rfl

/-- The sections of consumers are the absolute paths. -/
theorem menuOf_consumers {s : Str} :
    menuOf s = some .consumers ↔ isAbsolute s = true := by
  rw [menuOf]
  split_ifs with habs hauth hauthz hstore
  · exact iff_of_true rfl habs
  all_goals exact iff_of_false (by decide) habs

/-- Consumers have sections of their own. -/
theorem not_reserved {s : Str} (h : isAbsolute s = true) : reserved s = false := by
  refine decide_eq_false ?_
  rintro (rfl | rfl)
  · exact Bool.noConfusion h
  · exact Bool.noConfusion h

/-- **Two sections share a name exactly if they are the two spellings of one
    chain.** -/
theorem nameOf_eq {s t : Str} {menu : Menu} (hs : menuOf s = some menu)
    (ht : menuOf t = some menu) :
    nameOf s = nameOf t ↔ s = t ∨ Doubled s t ∨ Doubled t s := by
  by_cases hmenu : menu = .consumers
  · subst hmenu
    have habs := menuOf_consumers.mp hs
    have habt := menuOf_consumers.mp ht
    have hname {u : Str} (hu : menuOf u = some .consumers) : nameOf u = mountOf u := by
      rw [nameOf, hu]
    rw [hname hs, hname ht]
    constructor
    · intro h
      rcases mountOf_cases habs with ⟨hends, -, hspell⟩ | ⟨hends, hspell⟩ <;>
        rcases mountOf_cases habt with ⟨hendt, -, hspelt⟩ | ⟨hendt, hspelt⟩
      · exact Or.inl (hspell.symm.trans ((congrArg _ h).trans hspelt))
      · refine Or.inr (Or.inl ⟨habs, hends, ?_⟩)
        rw [← hspelt, ← h, hspell]
      · refine Or.inr (Or.inr ⟨habt, hendt, ?_⟩)
        rw [← hspell, h, hspelt]
      · refine Or.inl ?_
        rw [← hspell, h, hspelt]
    · rintro (rfl | ⟨-, hends, rfl⟩ | ⟨-, hends, rfl⟩)
      · rfl
      · exact (mountOf_doubled habs hends).symm
      · exact mountOf_doubled habt hends
  · -- the other names are what follows a fixed beginning
    obtain ⟨a, hsa, hna⟩ := spelled hs hmenu
    obtain ⟨b, htb, hnb⟩ := spelled ht hmenu
    have hno : ∀ u, menuOf u = some menu → isAbsolute u = false :=
      fun u hu => Bool.eq_false_iff.mpr (fun habs => hmenu
        (Option.some.inj (hu.symm.trans (menuOf_consumers.mpr habs))))
    rw [hna, hnb]
    constructor
    · intro h
      exact Or.inl (by rw [hsa, htb, (List.cons.inj h).1])
    · rintro (rfl | ⟨habs, -⟩ | ⟨habs, -⟩)
      · rw [← hna, hnb]
      · rw [hno s hs] at habs
        exact Bool.noConfusion habs
      · rw [hno t ht] at habs
        exact Bool.noConfusion habs

/-! ## The service -/

section Read

variable {host : Host} {args : Args} {file : Source} {glob : Str → List (Str × Source)}
  {names : List Str}
  (hread : (createParser host (getDefaults host args)).bind (readConfigs args file glob)
    = .ok (parser, names))

include hread in
/-- **HEADLINE — the service is what its configuration says.** It loads exactly
    if every section is sound; then under every name there is the plugin of the
    last section of that name, and nothing else; and where it does not load, the
    error names the first section that is not sound. -/
theorem service_configured :
    ((∃ plugins, firstStage lib modules parser = .ok plugins)
        ↔ ∀ s ∈ parser.sections.map Prod.fst, reserved s = false →
          ∃ menu plugin, menuOf s = some menu ∧ Sound lib modules parser s menu plugin)
      ∧ (∀ plugins, firstStage lib modules parser = .ok plugins → ∀ menu name plugin,
        plugins.find menu name = some plugin
          ↔ ∃ s, lastNamed menu name (parser.sections.map Prod.fst) = some s
            ∧ Sound lib modules parser s menu plugin)
      ∧ ∀ e, firstStage lib modules parser = .error e →
        ∃ before s after, parser.sections.map Prod.fst = before ++ s :: after
          ∧ (∀ t ∈ before, reserved t = false →
            ∃ menu plugin, menuOf t = some menu ∧ Sound lib modules parser t menu plugin)
          ∧ reserved s = false ∧ Fails lib modules parser s e := by
  have hglobal := hasSection_global hread
  refine ⟨firstStage_ok_iff hglobal, fun plugins h => find_iff hglobal h, fun e h => ?_⟩
  obtain ⟨before, s, after, hsections, hbefore, hfree, hfails⟩ := loadSections_error h
  refine ⟨before, s, after, hsections, fun t ht hfree => ?_, hfree, hfails⟩
  refine (makes_iff hglobal ?_).mp (hbefore t ht hfree)
  rw [hsections]
  exact List.mem_append_left _ ht

include hread in
/-- **HEADLINE — what is lost.** In a service that loads, every section finds
    its own plugin under its name exactly if no consumer's section is there
    twice, once with a slash at its end and once without. -/
theorem served_iff {plugins : Plugins} (hload : firstStage lib modules parser = .ok plugins) :
    (∀ s ∈ parser.sections.map Prod.fst, reserved s = false →
        ∃ menu plugin, menuOf s = some menu ∧ plugins.find menu (nameOf s) = some plugin
          ∧ Sound lib modules parser s menu plugin)
      ↔ ∀ s ∈ parser.sections.map Prod.fst, ∀ t ∈ parser.sections.map Prod.fst,
        ¬ Doubled s t := by
  have hglobal := hasSection_global hread
  constructor
  · intro hall s hs t ht hdoubled
    have habs : isAbsolute s = true := hdoubled.1
    have habt : isAbsolute t = true := by
      rw [hdoubled.2.2]
      obtain ⟨r, rfl⟩ := isAbsolute_iff.mp habs
      rfl
    obtain ⟨menu, plugin, hmenu, hfind, hsound⟩ := hall s hs (not_reserved habs)
    obtain ⟨menu', plugin', hmenu', hfind', hsound'⟩ := hall t ht (not_reserved habt)
    obtain rfl := Option.some.inj ((menuOf_consumers.mpr habs).symm.trans hmenu)
    obtain rfl := Option.some.inj ((menuOf_consumers.mpr habt).symm.trans hmenu')
    rw [← (nameOf_eq hmenu hmenu').mpr (Or.inr (Or.inl hdoubled)), hfind] at hfind'
    obtain rfl := Option.some.inj hfind'
    have hsame : s = t := hsound.sectionName.symm.trans hsound'.sectionName
    have hlength := congrArg List.length (hsame.trans hdoubled.2.2)
    rw [List.length_append] at hlength
    simp at hlength
  · intro hnone s hs hfree
    obtain ⟨menu, plugin, hmenu, hsound⟩ :=
      (firstStage_ok_iff hglobal).mp ⟨plugins, hload⟩ s hs hfree
    -- what is found is the last section of the name, which is this one if none is doubled
    obtain ⟨t, hlast⟩ := lastNamed_isSome hs ⟨hfree, hmenu, rfl⟩
    obtain ⟨ht, -, hmenu', hname⟩ := lastNamed_names hlast
    refine ⟨menu, plugin, hmenu, ?_, hsound⟩
    rcases (nameOf_eq hmenu hmenu').mp hname.symm with rfl | hdoubled | hdoubled
    · exact (find_iff hglobal hload menu _ plugin).mpr ⟨s, hlast, hsound⟩
    · exact absurd hdoubled (hnone s hs t ht)
    · exact absurd hdoubled (hnone t ht s hs)

end Read

/-! ### A consumer that is there twice -/

/-- No option of the demonstration is converted. -/
def demoLibrary : Library :=
  ⟨fun _ _ => none, fun _ => none, fun _ => .ok (), fun _ => .ok .null, fun _ => none,
    fun _ => none⟩

/-- A class that keeps its secrets in a store. -/
def demoConsumer : PluginClass where
  name := "Secrets"
  options := some (collectOptions [⟨"store", .store, .required⟩])
  finalize := .plugin
  init _ settings := match settings.storeName with
    | some (.str name) => .ok (some name)
    | _ => .ok none
  initOld _ := .ok none

/-- A class of stores. -/
def demoStore : PluginClass where
  name := "SqliteStore"
  options := some (collectOptions [⟨"dburi", .str, .required⟩])
  finalize := .plugin
  init _ _ := .ok none
  initOld _ := .ok none

/-- Where both classes come from: the entry points of the program. -/
def demoModules : Modules where
  entryPoints group name :=
    if group = "custodia.consumers" ∧ name = "Secrets" then [.ok demoConsumer]
    else if group = "custodia.stores" ∧ name = "SqliteStore" then [.ok demoStore]
    else []
  importClass _ _ := .error "No module"

/-- A host without environment variables. -/
def demoHost : Host := ⟨"node", "/", ∅⟩

/-- The arguments of a server that is started without any. -/
def demoArgs : Args := ⟨"/etc/custodia.conf", none, false⟩

/-- `[/secrets]` and `[/secrets/]`; no further files are read. -/
def demoFile : Source :=
  [("DEFAULT", [("confdpattern", "")]),
   ("store:main", [("handler", "SqliteStore"), ("dburi", "main.db")]),
   ("/secrets", [("handler", "Secrets"), ("store", "main")]),
   ("/secrets/", [("handler", "Secrets"), ("store", "main")])]

/-- What the parser holds after reading the file. -/
def demoParser : Parser := (created demoHost (getDefaults demoHost demoArgs)).readFile demoFile

/-- Reading goes through, and no further file is there. -/
theorem demo_read : (createParser demoHost (getDefaults demoHost demoArgs)).bind
    (readConfigs demoArgs demoFile (fun _ => [])) = .ok (demoParser, [demoArgs.configfile]) := by
  have hpattern : demoParser.get defaultSection "confdpattern" = .ok [] := by decide +kernel
  rw [createParser_ok]
  show readConfigs demoArgs demoFile (fun _ => []) _ = _
  rw [readConfigs]
  show ((demoParser.get defaultSection "confdpattern").bind _ : Except _ _) = _
  rw [hpattern]
  rfl

/-- The first stage goes through. -/
theorem demo_loads : ∃ plugins, firstStage demoLibrary demoModules demoParser = .ok plugins := by
  have hloads : (firstStage demoLibrary demoModules demoParser).toOption.isSome = true := by
    decide +kernel
  cases h : firstStage demoLibrary demoModules demoParser with
  | error e => rw [h] at hloads; exact Bool.noConfusion hloads
  | ok plugins => exact ⟨plugins, rfl⟩

/-- Under the one name of the two sections there is the plugin of the last of
    them. -/
theorem service_configured_demo :
    ∃ plugins, firstStage demoLibrary demoModules demoParser = .ok plugins
      ∧ ∀ plugin, plugins.find .consumers [[], "secrets"] = some plugin →
        plugin.sectionName = "/secrets/" := by
  obtain ⟨plugins, hload⟩ := demo_loads
  refine ⟨plugins, hload, fun plugin hfind => ?_⟩
  obtain ⟨s, hlast, hsound⟩ :=
    ((service_configured demo_read).2.1 plugins hload .consumers _ plugin).mp hfind
  have hslashed : lastNamed .consumers [[], "secrets"] (demoParser.sections.map Prod.fst)
      = some "/secrets/" := by decide +kernel
  rw [hsound.sectionName]
  exact Option.some.inj (hlast.symm.trans hslashed)

/-- And so the first of them has lost its own plugin. -/
theorem served_iff_demo :
    ∃ plugins, firstStage demoLibrary demoModules demoParser = .ok plugins
      ∧ ¬ ∀ s ∈ demoParser.sections.map Prod.fst, reserved s = false →
        ∃ menu plugin, menuOf s = some menu ∧ plugins.find menu (nameOf s) = some plugin
          ∧ Sound demoLibrary demoModules demoParser s menu plugin := by
  obtain ⟨plugins, hload⟩ := demo_loads
  refine ⟨plugins, hload, fun hall => ?_⟩
  refine (served_iff demo_read hload).mp hall "/secrets" ?_ "/secrets/" ?_ ⟨rfl, by decide, rfl⟩
  · decide +kernel
  · decide +kernel

end PluginLoadingProofs
