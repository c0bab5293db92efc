import Custodia.PluginLoadingProofs
import Custodia.AttachmentProofs

/-! # StartupProofs — the routes and the stores of a server that starts

    Where loading goes through, a request is routed by the sections alone: to
    the last one that names the longest chain above its path; and every plugin
    that names a store works on the plugin of the store's section.

    * `store_of_started`: what a plugin is attached to;
    * `Routed`: the section that a path belongs to;
    * `started_service`: when a server starts, and how it routes then. -/

namespace StartupProofs

open PosixPath PyValues ConfigParser PluginOptions Pipeline MappedValues PluginLoading
open SecretsConsumer (Request)
open PluginOptionsProofs PluginLoadingProofs ConfigurationProofs StoreAttachment
open AttachmentProofs hiding Sound
open Configuration (Host Args Source getDefaults createParser readConfigs)

variable {lib : Library} {modules : Modules} {parser : Parser}
  {bootstrap connect : Str → Except Exc Unit} {plugins : Plugins} {progress : Progress Str}

/-- The section of a store. -/
def storeSection (name : Str) : Str := ("store:" : Str) ++ name

/-- The section of a store is one of the stores. -/
theorem menuOf_storeSection (n : Str) : menuOf (storeSection n) = some .stores := by
  have hstart (p : Str) (hp : ¬ p.isPrefixOf (storeSection n) = true) : ¬ p <+: storeSection n :=
    fun h => hp (List.isPrefixOf_iff_prefix.mpr h)
  have habs : ¬ isAbsolute (storeSection n) = true := Bool.noConfusion
  have hstore : ("store:" : Str) <+: storeSection n := List.prefix_append _ n
  rw [menuOf, if_neg habs, if_neg (hstart "auth:" Bool.noConfusion),
    if_neg (hstart "authz:" Bool.noConfusion), if_pos hstore]

/-- The section of a store names the store. -/
theorem names_storeSection (n : Str) : Names (storeSection n) .stores [n] := by
  refine ⟨decide_eq_false ?_, menuOf_storeSection n, ?_⟩
  · rintro (h | h)
    · exact absurd (congrArg List.head? h) (show ¬ some 's' = some 'E' by decide)
    · exact absurd (congrArg List.head? h) (show ¬ some 's' = some 'g' by decide)
  · rw [nameOf, menuOf_storeSection]
    rfl

/-! ## The plugins by their sections -/

section Sections

variable (hglobal : parser.hasSection "global" = true)
  (hload : firstStage lib modules parser = .ok plugins)

include hglobal hload

/-- A plugin is that of its own section. -/
theorem ofSection_of_find {menu : Menu} {name : List Str} {plugin : Plugin}
    (h : plugins.find menu name = some plugin) :
    plugins.ofSection plugin.sectionName = some plugin := by
  obtain ⟨s, hlast, hsound⟩ := (find_iff hglobal hload menu name plugin).mp h
  obtain ⟨-, -, hmenu, rfl⟩ := lastNamed_names hlast
  rw [hsound.sectionName, Plugins.ofSection, hmenu]
  exact h

/-- The stores, by their sections. -/
theorem store_of_find {name : List Str} {plugin : Plugin}
    (h : plugins.find .stores name = some plugin) :
    ∃ n, name = [n] ∧ plugin.sectionName = storeSection n
      ∧ storeSection n ∈ parser.sections.map Prod.fst := by
  obtain ⟨s, hlast, hsound⟩ := (find_iff hglobal hload .stores name plugin).mp h
  obtain ⟨hs, -, hmenu, rfl⟩ := lastNamed_names hlast
  obtain ⟨n, rfl, hname⟩ := spelled hmenu (by decide)
  exact ⟨n, hname, hsound.sectionName, hs⟩

end Sections

/-- A plugin is one of its dictionary exactly if it is found there under some
    name. -/
theorem mem_menu_iff {κ : Type} [DecidableEq κ] [LE κ] [DecidableLE κ]
    (t : AList (fun _ : κ => Plugin)) (p : Str) :
    p ∈ menu (mapValues Plugin.sectionName t)
      ↔ ∃ name plugin, t.lookup name = some plugin ∧ plugin.sectionName = p := by
  constructor
  · intro h
    obtain ⟨e, he, rfl⟩ := List.mem_map.mp h
    rw [List.mem_insertionSort] at he
    obtain ⟨e', he', rfl⟩ := List.mem_map.mp he
    exact ⟨e'.1, e'.2, AList.mem_lookup_iff.mpr he', rfl⟩
  · rintro ⟨name, plugin, hlookup, rfl⟩
    have hview : (mapValues Plugin.sectionName t).lookup name = some plugin.sectionName := by
      rw [lookup_mapValues, hlookup]
      rfl
    exact mem_menu hview

/-- A plugin that is found under a name that is no chain is found in the
    dictionary itself. -/
theorem single_iff (t : AList (fun _ : Str => Plugin)) (p : Str) :
    (∃ name plugin, single t name = some plugin ∧ plugin.sectionName = p)
      ↔ ∃ name plugin, t.lookup name = some plugin ∧ plugin.sectionName = p := by
  constructor
  · rintro ⟨name, plugin, h, hp⟩
    match name, h with
    | [n], h => exact ⟨n, plugin, h, hp⟩
  · rintro ⟨n, plugin, h, hp⟩
    exact ⟨[n], plugin, h, hp⟩

/-- What the second stage goes through are the plugins that are found. -/
theorem mem_loaded_iff (p : Str) :
    p ∈ (setupOf plugins bootstrap connect).loaded
      ↔ ∃ menu name plugin, plugins.find menu name = some plugin ∧ plugin.sectionName = p := by
  have hloaded : p ∈ (setupOf plugins bootstrap connect).loaded
      ↔ ((p ∈ menu (mapValues Plugin.sectionName plugins.authenticators)
        ∨ p ∈ menu (mapValues Plugin.sectionName plugins.authorizers))
        ∨ p ∈ menu (mapValues Plugin.sectionName plugins.consumers.map))
        ∨ p ∈ menu (mapValues Plugin.sectionName plugins.stores) := by
    rw [Setup.loaded, List.mem_append, List.mem_append, List.mem_append]
    rfl
  rw [hloaded, mem_menu_iff, mem_menu_iff, mem_menu_iff, mem_menu_iff,
    ← single_iff plugins.authenticators, ← single_iff plugins.authorizers,
    ← single_iff plugins.stores]
  constructor
  · rintro (((h | h) | h) | h)
    · exact ⟨.authenticators, h⟩
    · exact ⟨.authorizers, h⟩
    · exact ⟨.consumers, h⟩
    · exact ⟨.stores, h⟩
  · rintro ⟨menu, h⟩
    cases menu with
    | authenticators => exact Or.inl (Or.inl (Or.inl h))
    | authorizers => exact Or.inl (Or.inl (Or.inr h))
    | consumers => exact Or.inl (Or.inr h)
    | stores => exact Or.inr h

/-! ## The stores -/

section Stores

variable (hglobal : parser.hasSection "global" = true)
  (hload : firstStage lib modules parser = .ok plugins)

include hglobal hload

/-- The store of a name is that of its section, if there is one. -/
theorem lookup_stores_iff (n q : Str) :
    (setupOf plugins bootstrap connect).stores.lookup n = some q
      ↔ q = storeSection n ∧ storeSection n ∈ parser.sections.map Prod.fst := by
  have hview : (setupOf plugins bootstrap connect).stores.lookup n
      = (plugins.find .stores [n]).map Plugin.sectionName :=
    lookup_mapValues Plugin.sectionName plugins.stores n
  rw [hview, Option.map_eq_some_iff]
  constructor
  · rintro ⟨plugin, hplugin, rfl⟩
    obtain ⟨n', hname, hsection, hs⟩ := store_of_find hglobal hload hplugin
    obtain rfl := (List.cons.inj hname).1
    exact ⟨hsection, hs⟩
  · rintro ⟨rfl, hs⟩
    have hnames := names_storeSection n
    obtain ⟨t, hlast⟩ := lastNamed_isSome hs hnames
    obtain ⟨-, -, hmenu, hname⟩ := lastNamed_names hlast
    obtain ⟨n', rfl, hname'⟩ := spelled hmenu (by decide)
    obtain rfl : n = n' := (List.cons.inj (hname.symm.trans hname')).1
    obtain ⟨menu, plugin, hmenu', hsound⟩ :=
      (firstStage_ok_iff hglobal).mp ⟨plugins, hload⟩ _ hs hnames.1
    obtain rfl := Option.some.inj (hmenu.symm.trans hmenu')
    exact ⟨plugin, (find_iff hglobal hload .stores [n] plugin).mpr ⟨_, hlast, hsound⟩,
      hsound.sectionName⟩

/-- Which store the second stage gives a plugin. -/
theorem storeName_of_find {menu : Menu} {name : List Str} {plugin : Plugin}
    (h : plugins.find menu name = some plugin) :
    (setupOf plugins bootstrap connect).storeName plugin.sectionName = plugin.storeName := by
  show (plugins.ofSection plugin.sectionName).bind Plugin.storeName = _
  rw [ofSection_of_find hglobal hload h]
  rfl

end Stores

/-! ## Starting -/

/-- Every store that a plugin names has a section. -/
def Supplied (parser : Parser) (plugins : Plugins) : Prop :=
  ∀ menu name plugin n, plugins.find menu name = some plugin → plugin.storeName = some n →
    storeSection n ∈ parser.sections.map Prod.fst

/-- Start-up has gone through exactly if the second stage has, with the plugins
    of the first. -/
theorem ended_ok_iff {plugins plugins' : Plugins} {r : Except Exc Unit × Progress Str}
    {progress : Progress Str} :
    ended plugins r = .ok (plugins', progress) ↔ r = (.ok (), progress) ∧ plugins = plugins' := by
  obtain ⟨r, s⟩ := r
  cases r with
  | error e => exact iff_of_false (fun h => nomatch h) (fun h => nomatch (Prod.mk.inj h.1).1)
  | ok u =>
      constructor
      · intro h
        obtain ⟨rfl, rfl⟩ := Prod.mk.inj (Except.ok.inj h)
        exact ⟨rfl, rfl⟩
      · rintro ⟨h, rfl⟩
        obtain ⟨-, rfl⟩ := Prod.mk.inj h
        rfl

/-- Loading goes through if both stages do. -/
theorem loadPlugins_ok_iff :
    loadPlugins lib modules bootstrap connect parser = some (.ok (plugins, progress))
      ↔ firstStage lib modules parser = .ok plugins
        ∧ secondStage (setupOf plugins bootstrap connect) (setupOf plugins bootstrap connect).depth
          (setupOf plugins bootstrap connect).loaded = some (.ok (), progress) := by
  rw [loadPlugins]
  cases hload : firstStage lib modules parser with
  | error e =>
      exact iff_of_false (fun h => nomatch Option.some.inj h) (fun h => nomatch h.1)
  | ok plugins' =>
      dsimp only
      rw [Option.map_eq_some_iff]
      constructor
      · rintro ⟨r, hr, hended⟩
        obtain ⟨rfl, rfl⟩ := ended_ok_iff.mp hended
        exact ⟨rfl, hr⟩
      · rintro ⟨hsame, hr⟩
        obtain rfl := Except.ok.inj hsame
        exact ⟨_, hr, ended_ok_iff.mpr ⟨rfl, rfl⟩⟩

/-- Loading ends, whatever the plugins refer to. -/
theorem loadPlugins_ends : ∃ r, loadPlugins lib modules bootstrap connect parser = some r := by
  rw [loadPlugins]
  cases firstStage lib modules parser with
  | error e => exact ⟨_, rfl⟩
  | ok plugins =>
      obtain ⟨r, s, hrun⟩ := secondStage_ends
        (List.Perm.refl (setupOf plugins bootstrap connect).loaded)
      dsimp only
      rw [hrun _ (Nat.le_refl _)]
      exact ⟨_, rfl⟩

section Started

variable (hglobal : parser.hasSection "global" = true)

include hglobal

/-- **A plugin that names a store is attached to the store's section**, and any
    other plugin to nothing. -/
theorem store_of_started
    (h : loadPlugins lib modules bootstrap connect parser = some (.ok (plugins, progress)))
    {menu : Menu} {name : List Str} {plugin : Plugin}
    (hfind : plugins.find menu name = some plugin) :
    progress.store plugin.sectionName = plugin.storeName.map storeSection
      ∧ ∀ n, plugin.storeName = some n → storeSection n ∈ parser.sections.map Prod.fst := by
  obtain ⟨hload, hrun⟩ := loadPlugins_ok_iff.mp h
  obtain ⟨hvalid, hended⟩ := secondStage_ended (List.Perm.refl _) hrun
  have hcomplete := complete_of_ended hended rfl
  have hp : plugin.sectionName ∈ (setupOf plugins bootstrap connect).loaded :=
    (mem_loaded_iff _).mpr ⟨menu, name, plugin, hfind, rfl⟩
  have hname : (setupOf plugins bootstrap connect).storeName plugin.sectionName
      = plugin.storeName := storeName_of_find hglobal hload hfind
  have hstores (n : Str) (hn : plugin.storeName = some n) :
      storeSection n ∈ parser.sections.map Prod.fst := by
    obtain ⟨q, hlookup, -⟩ := hcomplete _ hp n (hname.trans hn)
    exact ((lookup_stores_iff hglobal hload n q).mp hlookup).2
  refine ⟨?_, hstores⟩
  rw [store_of_complete hvalid hcomplete, if_pos hp, hname]
  cases hn : plugin.storeName with
  | none => rfl
  | some n => exact (lookup_stores_iff hglobal hload n _).mpr ⟨rfl, hstores n hn⟩

/-- When a server starts. -/
theorem loadPlugins_started_iff (hload : firstStage lib modules parser = .ok plugins) :
    (∃ progress, loadPlugins lib modules bootstrap connect parser = some (.ok (plugins, progress)))
      ↔ Supplied parser plugins
        ∧ ∀ p ∈ (setupOf plugins bootstrap connect).loaded, ∀ e,
          ¬ IpaError (setupOf plugins bootstrap connect) p e := by
  constructor
  · rintro ⟨progress, h⟩
    refine ⟨fun menu name plugin n hfind hn => (store_of_started hglobal h hfind).2 n hn, ?_⟩
    exact not_ipaError_of_ok (List.Perm.refl _) (loadPlugins_ok_iff.mp h).2
  · rintro ⟨hsupplied, hipa⟩
    obtain ⟨r, s, hrun⟩ := secondStage_ends
      (List.Perm.refl (setupOf plugins bootstrap connect).loaded)
    have hrun := hrun _ (Nat.le_refl _)
    obtain ⟨-, hended⟩ := secondStage_ended (List.Perm.refl _) hrun
    cases hended with
    | complete _ _ => exact ⟨s, loadPlugins_ok_iff.mpr ⟨hload, hrun⟩⟩
    | missing _ p n hp hname hnone =>
        obtain ⟨menu, name, plugin, hfind, rfl⟩ := (mem_loaded_iff p).mp hp
        rw [storeName_of_find hglobal hload hfind] at hname
        have hsection := hsupplied menu name plugin n hfind hname
        rw [(lookup_stores_iff hglobal hload n _).mpr ⟨rfl, hsection⟩] at hnone
        exact nomatch hnone
    | ipa _ p e hp herror => exact absurd herror (hipa p hp e)

end Started

/-! ## Routing -/

/-- The section that a path belongs to: of all mount points above the path the
    longest, and of the sections of that mount point the last; what follows is
    the trail. -/
structure Routed (parser : Parser) (chain trail : List Str) (s : Str) : Prop where
  last : lastNamed .consumers (mountOf s) (parser.sections.map Prod.fst) = some s
  whole : mountOf s ++ trail = chain
  longest : ∀ t ∈ parser.sections.map Prod.fst, isAbsolute t = true → mountOf t <+: chain →
    (mountOf t).length ≤ (mountOf s).length

/-- The section of a consumer is an absolute path, and names the chain of that
    path. -/
theorem names_consumers_iff (s : Str) (name : List Str) :
    Names s .consumers name ↔ isAbsolute s = true ∧ mountOf s = name := by
  have hname (hmenu : menuOf s = some .consumers) : nameOf s = mountOf s := by rw [nameOf, hmenu]
  constructor
  · rintro ⟨-, hmenu, rfl⟩
    exact ⟨menuOf_consumers.mp hmenu, (hname hmenu).symm⟩
  · rintro ⟨habs, rfl⟩
    have hmenu := menuOf_consumers.mpr habs
    exact ⟨not_reserved habs, hmenu, hname hmenu⟩

section Routing

variable (hglobal : parser.hasSection "global" = true)

include hglobal

/-- **There is a consumer at a path exactly if some section belongs there.** -/
theorem mem_consumers_iff (hload : firstStage lib modules parser = .ok plugins)
    (name : List Str) :
    name ∈ plugins.consumers.map
      ↔ ∃ s ∈ parser.sections.map Prod.fst, isAbsolute s = true ∧ mountOf s = name := by
  rw [← AList.lookup_isSome, Option.isSome_iff_exists]
  constructor
  · rintro ⟨plugin, hfind⟩
    obtain ⟨s, hlast, -⟩ := (find_iff hglobal hload .consumers name plugin).mp hfind
    obtain ⟨hs, hnames⟩ := lastNamed_names hlast
    exact ⟨s, hs, (names_consumers_iff s name).mp hnames⟩
  · rintro ⟨s, hs, hnames⟩
    obtain ⟨t, hlast⟩ := lastNamed_isSome hs ((names_consumers_iff s name).mpr hnames)
    obtain ⟨ht, hfree, hmenu, -⟩ := lastNamed_names hlast
    obtain ⟨menu, plugin, hmenu', hsound⟩ :=
      (firstStage_ok_iff hglobal).mp ⟨plugins, hload⟩ t ht hfree
    obtain rfl := Option.some.inj (hmenu.symm.trans hmenu')
    exact ⟨plugin, (find_iff hglobal hload .consumers name plugin).mpr ⟨t, hlast, hsound⟩⟩

/-- **Requests are routed by the sections.** -/
theorem select_routes_iff {β : Type} (handle : Plugin → Option Str → Request → β)
    (h : loadPlugins lib modules bootstrap connect parser = some (.ok (plugins, progress)))
    (chain trail : List Str) (con : Request → β) :
    select (routesOf handle plugins progress) chain = some (con, trail)
      ↔ ∃ s plugin, Routed parser chain trail s ∧ Sound lib modules parser s .consumers plugin
        ∧ con = handle plugin (plugin.storeName.map storeSection) := by
  obtain ⟨hload, -⟩ := loadPlugins_ok_iff.mp h
  have hlookup (name : List Str) : (routesOf handle plugins progress).map.lookup name
      = (plugins.find .consumers name).map
        (fun plugin => handle plugin (progress.store plugin.sectionName)) :=
    lookup_mapValues _ plugins.consumers.map name
  have hmem (name : List Str) : name ∈ (routesOf handle plugins progress).map
      ↔ ∃ s ∈ parser.sections.map Prod.fst, isAbsolute s = true ∧ mountOf s = name :=
    (mem_mapValues _ _).trans (mem_consumers_iff hglobal hload name)
  -- the walk takes the longest mount, so no section of a longer one lies on the path
  rw [select_iff]
  constructor
  · rintro ⟨pre, rfl, hfound, hmax⟩
    rw [hlookup, Option.map_eq_some_iff] at hfound
    obtain ⟨plugin, hfind, rfl⟩ := hfound
    obtain ⟨s, hlast, hsound⟩ := (find_iff hglobal hload .consumers pre plugin).mp hfind
    obtain ⟨-, rfl⟩ := (names_consumers_iff s pre).mp (lastNamed_names hlast).2
    refine ⟨s, plugin, ⟨hlast, rfl, fun t ht habs hpre => ?_⟩, hsound, ?_⟩
    · exact hmax (mountOf t) hpre ((hmem _).mpr ⟨t, ht, habs, rfl⟩)
    · rw [(store_of_started hglobal h hfind).1]
  · rintro ⟨s, plugin, ⟨hlast, rfl, hlongest⟩, hsound, rfl⟩
    have hfind := (find_iff hglobal hload .consumers (mountOf s) plugin).mpr ⟨s, hlast, hsound⟩
    refine ⟨mountOf s, rfl, ?_, fun other hpre hother => ?_⟩
    · rw [hlookup, hfind, ← (store_of_started hglobal h hfind).1]
      rfl
    · obtain ⟨t, ht, habs, rfl⟩ := (hmem other).mp hother
      exact hlongest t ht habs hpre

end Routing

section Read

variable {host : Host} {args : Args} {file : Source} {glob : Str → List (Str × Source)}
  {names : List Str} {β : Type}
  (hread : (createParser host (getDefaults host args)).bind (readConfigs args file glob)
    = .ok (parser, names))

include hread

/-- **HEADLINE — what starts is routed and stored as the sections say.**
    Loading always ends; it goes through exactly if the plugins of the sections
    can be made, every store that one of them names is a section, and IPA has
    nothing to report; and then a request goes to the plugin of the section its
    path belongs to, which works on the plugin of the section it names as its
    store. -/
theorem started_service :
    (∃ r, loadPlugins lib modules bootstrap connect parser = some r)
      ∧ (∀ plugins, (∃ progress,
          loadPlugins lib modules bootstrap connect parser = some (.ok (plugins, progress)))
        ↔ firstStage lib modules parser = .ok plugins ∧ Supplied parser plugins
          ∧ ∀ p ∈ (setupOf plugins bootstrap connect).loaded, ∀ e,
            ¬ IpaError (setupOf plugins bootstrap connect) p e)
      ∧ ∀ plugins progress,
        loadPlugins lib modules bootstrap connect parser = some (.ok (plugins, progress)) →
        (∀ menu name plugin, plugins.find menu name = some plugin →
          progress.store plugin.sectionName = plugin.storeName.map storeSection)
        ∧ ∀ (handle : Plugin → Option Str → Request → β) chain con trail,
          select (routesOf handle plugins progress) chain = some (con, trail)
            ↔ ∃ s plugin, Routed parser chain trail s
              ∧ Sound lib modules parser s .consumers plugin
              ∧ con = handle plugin (plugin.storeName.map storeSection) := by
  have hglobal := hasSection_global hread
  refine ⟨loadPlugins_ends, fun plugins => ⟨?_, ?_⟩, fun plugins progress h => ⟨?_, ?_⟩⟩
  · rintro ⟨progress, h⟩
    have hload := (loadPlugins_ok_iff.mp h).1
    exact ⟨hload, (loadPlugins_started_iff hglobal hload).mp ⟨progress, h⟩⟩
  · rintro ⟨hload, hstarts⟩
    exact (loadPlugins_started_iff hglobal hload).mpr hstarts
  · intro menu name plugin hfind
    exact (store_of_started hglobal h hfind).1
  · intro handle chain con trail
    exact select_routes_iff hglobal handle h chain trail con

end Read

/-- The demonstration goes through both stages. -/
theorem demo_starts : ∃ plugins progress,
    loadPlugins demoLibrary demoModules (fun _ => .ok ()) (fun _ => .ok ()) demoParser
      = some (.ok (plugins, progress)) := by
  have hstarts : (loadPlugins demoLibrary demoModules (fun _ => .ok ()) (fun _ => .ok ())
      demoParser).any (fun r => r.toOption.isSome) = true := by decide +kernel
  cases h : loadPlugins demoLibrary demoModules (fun _ => .ok ()) (fun _ => .ok ())
      demoParser with
  | none => rw [h] at hstarts; exact Bool.noConfusion hstarts
  | some r =>
      cases r with
      | error e => rw [h] at hstarts; exact Bool.noConfusion hstarts
      | ok r => exact ⟨r.1, r.2, rfl⟩

/-- Its consumer names the store `main`. -/
theorem demo_consumer : ∃ plugin : Plugin, plugin.storeName = some ("main" : Str)
    ∧ Sound demoLibrary demoModules demoParser "/secrets/" .consumers plugin := by
  have hnamed : (createPlugin demoLibrary demoModules demoParser "/secrets/"
      .consumers).toOption.any (fun plugin => decide (plugin.storeName = some ("main" : Str)))
      = true := by decide +kernel
  cases hcreate : createPlugin demoLibrary demoModules demoParser "/secrets/" .consumers with
  | error e => rw [hcreate] at hnamed; exact Bool.noConfusion hnamed
  | ok plugin =>
      rw [hcreate] at hnamed
      exact ⟨plugin, of_decide_eq_true hnamed, (createPlugin_sound (hasSection_global demo_read)
        (by decide +kernel) (by decide) plugin).mp hcreate⟩

/-- A request below `/secrets` reaches the consumer of that section, on the
    store that it names. -/
theorem started_service_demo :
    ∃ plugins progress,
      loadPlugins demoLibrary demoModules (fun _ => .ok ()) (fun _ => .ok ()) demoParser
        = some (.ok (plugins, progress))
      ∧ select (routesOf (fun plugin store _ => (plugin.sectionName, store)) plugins progress)
          [[], "secrets", "a"]
        = some (fun _ => (("/secrets/" : Str), some ("store:main" : Str)), [("a" : Str)]) := by
  obtain ⟨plugins, progress, h⟩ := demo_starts
  obtain ⟨plugin, hname, hsound⟩ := demo_consumer
  refine ⟨plugins, progress, h, ?_⟩
  refine (((started_service demo_read).2.2 plugins progress h).2 _ _ _ _).mpr
    ⟨"/secrets/", plugin, ⟨by decide +kernel, by decide, by decide +kernel⟩, hsound, ?_⟩
  rw [hname, hsound.sectionName]
  rfl

end StartupProofs
