import Custodia.PluginOptions
import Custodia.Pipeline
import Custodia.StoreAttachment
import Custodia.MappedValues

/-! # PluginLoading — from the sections of the configuration to the plugins

    Every section but two makes one plugin: its name says what the plugin is
    for, its `handler` names the class, and its other options are those of the
    class. What is made is put under its name, in the order of the sections.

    * `createPlugin`: the plugin of one section;
    * `loadSections`: the first stage of `_load_plugins`;
    * `find_add`: where a plugin is found that was put somewhere;
    * `setupOf`: what the second stage starts from. -/

namespace PluginLoading

open PosixPath PyValues ConfigParser PluginOptions Pipeline MappedValues

/-- The dictionaries of plugins, one for each kind of section. The names of
    their sections begin with `auth:`, `authz:`, a slash and `store:`. -/
inductive Menu where
  | authenticators
  | authorizers
  | consumers
  | stores
  deriving DecidableEq

/-- The name of the dictionary. -/
def Menu.text : Menu → Str
  | .authenticators => "authenticators"
  | .authorizers => "authorizers"
  | .consumers => "consumers"
  | .stores => "stores"

/-! ## The plugin of a section -/

/-- A plugin class: its options, unless it is an old one that takes the section
    as a dictionary; and what its own `__init__` makes of the name of the
    section and of what was configured, which is the name of its store, or an
    exception. -/
structure PluginClass where
  name : Str
  options : Option (List PluginOption)
  finalize : StoreAttachment.PluginClass
  init : Str → Settings → Except PluginError (Option Str)
  initOld : List (Str × Str) → Except PluginError (Option Str)

/-- A plugin, after the first stage: its class, its section, what the section
    has made of its attributes, and the store it has yet to be attached to. -/
structure Plugin where
  cls : PluginClass
  sectionName : Str
  origin : Str
  settings : Settings
  config : List (Str × Str)
  storeName : Option Str

/-- Where classes come from: the entry points of a group by their name, and
    the classes of modules. Either can fail to be imported. -/
structure Modules where
  entryPoints : Str → Str → List (Except Str PluginClass)
  importClass : Str → Str → Except Str PluginClass

variable (lib : Library) (modules : Modules)

/-- `name.rsplit('.', 1)`. -/
def rsplitDot (name : Str) : Str × Str :=
  (((name.reverse.dropWhile (fun c => decide (c ≠ '.'))).drop 1).reverse,
    (name.reverse.takeWhile (fun c => decide (c ≠ '.'))).reverse)

/-- `_load_plugin_class`. -/
def loadPluginClass (menu : Menu) (name : Str) : Except PluginError PluginClass :=
  match modules.entryPoints (("custodia." : Str) ++ menu.text) name with
  | [ep] => ep.mapError PluginError.library
  | _ :: _ :: _ =>
      .error (.valueError (("Multiple entry points for " : Str) ++ menu.text ++ (" " : Str)
        ++ name))
  | [] =>
      if '.' ∈ name then
        (modules.importClass (rsplitDot name).1 (rsplitDot name).2).mapError PluginError.library
      else .error (.valueError (menu.text ++ (": " : Str) ++ name ++ (" not found" : Str)))

/-- `'%s-[%s]' % (classname, section)`. -/
def originOf (cls : PluginClass) (s : Str) : Str :=
  cls.name ++ ("-[" : Str) ++ s ++ ("]" : Str)

/-- `hconf`: the facility, the options of the section, and no handler. -/
def oldConfig (cls : PluginClass) (s : Str) (items : List (Str × Str)) : List (Str × Str) :=
  (if items.any (fun e => decide (e.1 = "facility_name")) then items
    else ("facility_name", originOf cls s) :: items).filter (fun e => decide (e.1 ≠ "handler"))

/-- `handler(cfgparser, section)`, or `handler(hconf)`. -/
def instantiate (parser : Parser) (s : Str) (cls : PluginClass) : Except PluginError Plugin :=
  match cls.options with
  | some options => do
      let settings ← configure lib options parser s
      let storeName ← cls.init s settings
      return ⟨cls, s, originOf cls s, settings, [], storeName⟩
  | none => do
      let items ← ofParser (parser.items s)
      let config := oldConfig cls s items
      let storeName ← cls.initOld config
      let origin := (config.lookup ("facility_name" : Str)).getD cls.name
      return ⟨cls, s, origin, ⟨[], none⟩, config, storeName⟩

/-- The class of a section. -/
def handlerOf (parser : Parser) (s : Str) (menu : Menu) : Except PluginError PluginClass :=
  if parser.hasOption s "handler" = false then
    .error (.valueError "Invalid section, missing \"handler\"")
  else do
    let name ← ofParser (parser.get s "handler")
    (loadPluginClass modules menu name).mapError (fun e => .invalidHandler e name)

/-- `_create_plugin`. -/
def createPlugin (parser : Parser) (s : Str) (menu : Menu) : Except PluginError Plugin := do
  let cls ← handlerOf modules parser s menu
  instantiate lib parser s cls

/-! ## All sections -/

/-- What a section is for, by how its name starts. -/
def menuOf (s : Str) : Option Menu :=
  if isAbsolute s then some .consumers
  else if ("auth:" : Str) <+: s then some .authenticators
  else if ("authz:" : Str) <+: s then some .authorizers
  else if ("store:" : Str) <+: s then some .stores
  else none

/-- The name of the plugin in its dictionary; that of a consumer is a chain. -/
def nameOf (s : Str) : List Str :=
  match menuOf s with
  | some .consumers => mountOf s
  | some .authenticators => [s.drop 5]
  | _ => [s.drop 6]

/-- The dictionaries of the configuration: under each name the plugin of a
    section. Those of the consumers are known by chains of segments, which are
    never empty. -/
structure Plugins where
  authenticators : AList (fun _ : Str => Plugin)
  authorizers : AList (fun _ : Str => Plugin)
  consumers : Mounts Plugin
  stores : AList (fun _ : Str => Plugin)

/-- No plugin. -/
def Plugins.empty : Plugins := ⟨∅, ∅, Mounts.empty, ∅⟩

/-- `config[menu][name] = plugin`. -/
def Plugins.add (plugins : Plugins) (s : Str) (plugin : Plugin) : Plugins :=
  if h : isAbsolute s = true then
    { plugins with consumers := plugins.consumers.load s h plugin }
  else match menuOf s with
    | some .authenticators =>
        { plugins with authenticators := plugins.authenticators.insert (s.drop 5) plugin }
    | some .authorizers =>
        { plugins with authorizers := plugins.authorizers.insert (s.drop 6) plugin }
    | some .stores => { plugins with stores := plugins.stores.insert (s.drop 6) plugin }
    | _ => plugins

/-- A plugin by a name that is no chain. -/
def single (t : AList (fun _ : Str => Plugin)) (name : List Str) : Option Plugin :=
  match name with
  | [name] => t.lookup name
  | _ => none

/-- `config[menu].get(name)`. -/
def Plugins.find (plugins : Plugins) (menu : Menu) (name : List Str) : Option Plugin :=
  match menu with
  | .consumers => plugins.consumers.map.lookup name
  | .authenticators => single plugins.authenticators name
  | .authorizers => single plugins.authorizers name
  | .stores => single plugins.stores name

/-- A section that is no plugin. -/
def reserved (s : Str) : Bool := decide (s = "ENV" ∨ s = "global")

/-- The loop of `_load_plugins`. -/
def loadSections (parser : Parser) : List Str → Plugins → Except PluginError Plugins
  | [], plugins => .ok plugins
  | s :: sections, plugins =>
      if reserved s then loadSections parser sections plugins
      else match menuOf s with
        | none => .error (.valueError (("Invalid section name [" : Str) ++ s ++ ("].\n" : Str)))
        | some menu =>
            match createPlugin lib modules parser s menu with
            | .error e => .error (.runtimeError menu.text (nameOf s) e)
            | .ok plugin => loadSections parser sections (plugins.add s plugin)

/-- The first stage of `_load_plugins`. -/
def firstStage (parser : Parser) : Except PluginError Plugins :=
  loadSections lib modules parser (parser.sections.map Prod.fst) .empty

/-- What the start of a name says. -/
theorem menuOf_cases {s : Str} {menu : Menu} (h : menuOf s = some menu) :
    isAbsolute s = true ∧ menu = .consumers ∧ nameOf s = mountOf s
      ∨ isAbsolute s = false ∧ menu = .authenticators ∧ nameOf s = [s.drop 5]
      ∨ isAbsolute s = false ∧ menu = .authorizers ∧ nameOf s = [s.drop 6]
      ∨ isAbsolute s = false ∧ menu = .stores ∧ nameOf s = [s.drop 6] := by
  have hname : nameOf s = (match some menu with
      | some .consumers => mountOf s
      | some .authenticators => [s.drop 5]
      | _ => [s.drop 6] : List Str) := by
    rw [nameOf, h]
  rw [menuOf] at h
  split_ifs at h with habs hauth hauthz hstore
  · obtain rfl := Option.some.inj h
    exact Or.inl ⟨habs, rfl, hname⟩
  · obtain rfl := Option.some.inj h
    exact Or.inr (Or.inl ⟨Bool.eq_false_iff.mpr habs, rfl, hname⟩)
  · obtain rfl := Option.some.inj h
    exact Or.inr (Or.inr (Or.inl ⟨Bool.eq_false_iff.mpr habs, rfl, hname⟩))
  · obtain rfl := Option.some.inj h
    exact Or.inr (Or.inr (Or.inr ⟨Bool.eq_false_iff.mpr habs, rfl, hname⟩))

/-- Looking up in a dictionary with one entry put into it. -/
theorem lookup_put {α β : Type} [DecidableEq α] (t : AList (fun _ : α => β)) (a b : α) (v : β) :
    (t.insert a v).lookup b = if b = a then some v else t.lookup b := by
  split_ifs with h
  · rw [h, AList.lookup_insert]
  · exact AList.lookup_insert_ne h

theorem single_put (t : AList (fun _ : Str => Plugin)) (a : Str) (plugin : Plugin)
    (name : List Str) :
    single (t.insert a plugin) name = if name = [a] then some plugin else single t name := by
  match name with
  | [] => rfl
  | [b] =>
      refine (lookup_put t a b plugin).trans ?_
      simp only [List.cons.injEq, and_true]
      rfl
  | _ :: _ :: _ => simp [single]

/-- **A plugin is found under the name it was put under, and nowhere else.** -/
theorem find_add (plugins : Plugins) {s : Str} {menu : Menu} (hmenu : menuOf s = some menu)
    (plugin : Plugin) (menu' : Menu) (name : List Str) :
    (plugins.add s plugin).find menu' name
      = if menu' = menu ∧ name = nameOf s then some plugin else plugins.find menu' name := by
  rcases menuOf_cases hmenu with ⟨habs, rfl, hname⟩ | ⟨habs, rfl, hname⟩ | ⟨habs, rfl, hname⟩
    | ⟨habs, rfl, hname⟩
  · rw [Plugins.add, dif_pos habs, hname]
    cases menu' with
    | consumers =>
        refine (lookup_put plugins.consumers.map (mountOf s) name plugin).trans ?_
        simp only [true_and]
        rfl
    | _ => simp only [reduceCtorEq, false_and, if_false]; rfl
  all_goals
    have hno : ¬ isAbsolute s = true := by rw [habs]; exact Bool.noConfusion
    rw [Plugins.add, dif_neg hno, hmenu, hname]
    cases menu' <;> simp only [Plugins.find, single_put, reduceCtorEq, true_and, false_and,
      if_false]

/-! ## The second stage -/

/-- The plugin that is loaded for a section. -/
def Plugins.ofSection (plugins : Plugins) (s : Str) : Option Plugin :=
  (menuOf s).bind (fun menu => plugins.find menu (nameOf s))

/-- What the second stage starts from; a plugin is known by its section. -/
def setupOf (plugins : Plugins) (bootstrap connect : Str → Except Exc Unit) :
    StoreAttachment.Setup Str where
  pluginClass s := ((plugins.ofSection s).map (fun plugin => plugin.cls.finalize)).getD .plugin
  sectionName s := s
  storeName s := (plugins.ofSection s).bind Plugin.storeName
  authenticators := mapValues Plugin.sectionName plugins.authenticators
  authorizers := mapValues Plugin.sectionName plugins.authorizers
  consumers := mapValues Plugin.sectionName plugins.consumers.map
  stores := mapValues Plugin.sectionName plugins.stores
  bootstrap := bootstrap
  connect := connect

/-- An exception of either stage: while the plugins are made, or while they are
    attached to their stores and to IPA. -/
inductive LoadError where
  | first (e : PluginError)
  | second (e : Exc)

/-- How the second stage ends, with the plugins. -/
def ended (plugins : Plugins) (r : Except Exc Unit × StoreAttachment.Progress Str) :
    Except LoadError (Plugins × StoreAttachment.Progress Str) :=
  match r.1 with
  | .ok () => .ok (plugins, r.2)
  | .error e => .error (.second e)

/-- `_load_plugins`: the plugins, and what is attached to them. -/
def loadPlugins (bootstrap connect : Str → Except Exc Unit) (parser : Parser) :
    Option (Except LoadError (Plugins × StoreAttachment.Progress Str)) :=
  match firstStage lib modules parser with
  | .error e => some (.error (.first e))
  | .ok plugins =>
      let setup := setupOf plugins bootstrap connect
      (StoreAttachment.secondStage setup setup.depth setup.loaded).map (ended plugins)

/-- The consumers as requests find them, each with the section of its store. -/
def routesOf {β : Type} (handle : Plugin → Option Str → SecretsConsumer.Request → β)
    (plugins : Plugins) (progress : StoreAttachment.Progress Str) :
    Mounts (SecretsConsumer.Request → β) where
  map := mapValues (fun plugin => handle plugin (progress.store plugin.sectionName))
    plugins.consumers.map
  proper chain h := plugins.consumers.proper chain ((mem_mapValues _ _).mp h)

end PluginLoading
