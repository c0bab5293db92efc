import Custodia.Configuration

/-! # ConfigurationProofs — what a configuration means

    The parser tells the environment in a section of its own, with dollar signs
    doubled, so that a variable stands for its value in any option, whatever
    the value is made of.

    * `createParser_ok`: no environment keeps the parser from being made;
    * `environment_verbatim`: a variable stands for its value. -/

namespace ConfigurationProofs

open PosixPath PyValues Unquote PercentQuoting ConfigParser Forwarding SeparatedNames
open Configuration

/-! ## The environment -/

/-- A section that is there, and a text without bad references. -/
theorem set_ok {p : Parser} {name value : Str} (hsection : p.hasSection name = true)
    (hvalue : Parser.beforeSet value = .ok value) (option : Str) :
    p.set name option value = .ok (p.withOption name option value) := by
  have hset : ¬ (name ≠ defaultSection ∧ p.hasSection name = false) := by
    rintro ⟨-, hno⟩
    rw [hsection] at hno
    exact Bool.noConfusion hno
  rw [Parser.set, hvalue]
  exact if_neg hset

/-- The loop over the environment, without its errors. -/
def told (es : List (Sigma (fun _ : Str => Str))) (p : Parser) : Parser :=
  es.foldl (fun p e => if carried e.2 then p.withOption "ENV" e.1 (escaped e.2) else p) p

/-- Telling the parser the variables makes no section. -/
theorem hasSection_told (es : List (Sigma (fun _ : Str => Str))) (p : Parser) (name : Str) :
    (told es p).hasSection name = p.hasSection name := by
  induction es generalizing p with
  | nil => rfl
  | cons e es ih =>
      rw [told, List.foldl_cons]
      refine (ih _).trans ?_
      split_ifs
      · exact p.hasSection_withOption "ENV" e.1 (escaped e.2) name
      · rfl

/-- No variable is refused. -/
theorem foldlM_told (es : List (Sigma (fun _ : Str => Str))) (p : Parser)
    (h : p.hasSection "ENV" = true) :
    es.foldlM (fun p e => if carried e.2 then p.set "ENV" e.1 (escaped e.2) else .ok p) p
      = (.ok (told es p) : Except ParserError Parser) := by
  induction es generalizing p with
  | nil => rfl
  | cons e es ih =>
      have hstep : (if carried e.2 then p.set "ENV" e.1 (escaped e.2) else .ok p)
          = (.ok (if carried e.2 then p.withOption "ENV" e.1 (escaped e.2) else p)
              : Except ParserError Parser) := by
        split_ifs
        · exact set_ok h (beforeSet_escaped e.2) e.1
        · rfl
      rw [List.foldlM_cons, hstep]
      refine (ih _ ?_).trans rfl
      split_ifs
      · rw [p.hasSection_withOption]
        exact h
      · exact h

/-- What the loop leaves in the section. -/
theorem ownOption_told {es : List (Sigma (fun _ : Str => Str))} (hkeys : es.NodupKeys)
    {p : Parser} (hsection : p.hasSection "ENV" = true) {e : Sigma (fun _ : Str => Str)}
    (he : e ∈ es) (hcarried : carried e.2 = true) :
    (told es p).ownOption "ENV" e.1 = some (escaped e.2) := by
  have hdefault : ("ENV" : Str) ≠ defaultSection := by decide
  -- the options that come later have other names
  have hlater : ∀ (es : List (Sigma (fun _ : Str => Str))) (p : Parser) (option : Str),
      option ∉ es.keys → (told es p).ownOption "ENV" option = p.ownOption "ENV" option := by
    intro es
    induction es with
    | nil => exact fun _ _ _ => rfl
    | cons e es ih =>
        intro p option hout
        obtain ⟨hne, hout⟩ := not_or.mp (mt List.mem_cons.mpr hout)
        rw [told, List.foldl_cons]
        refine (ih _ option hout).trans ?_
        split_ifs
        · exact p.ownOption_withOption_of_ne (fun hsame => hne hsame.2) (escaped e.2)
        · rfl
  induction es generalizing p with
  | nil => exact absurd he List.not_mem_nil
  | cons e' es ih =>
      obtain ⟨hout, hkeys⟩ := List.nodupKeys_cons.mp hkeys
      rw [told, List.foldl_cons]
      rcases List.mem_cons.mp he with rfl | he
      · refine (hlater es _ e.1 hout).trans ?_
        rw [if_pos hcarried]
        exact p.ownOption_withOption_self hdefault hsection e.1 (escaped e.2)
      · refine ih hkeys ?_ he
        split_ifs
        · rw [p.hasSection_withOption]
          exact hsection
        · exact hsection

/-- What `create_parser` makes. -/
def created (host : Host) (defaults : Options) : Parser :=
  let parser := (told host.environ.entries ((Parser.ofDefaults defaults).withSection "ENV"))
  ((((parser.withSection "global").withOption "global" "auditlog"
    "$\x7blogdir\x7d/audit.log").withOption "global" "debug" "false").withOption
      "global" "umask" "027").withOption "global" "makedirs" "false"

/-- **No environment keeps the parser from being made.** -/
theorem createParser_ok (host : Host) (defaults : Options) :
    createParser host defaults = .ok (created host defaults) := by
  have henv : ((Parser.ofDefaults defaults).withSection "ENV").hasSection "ENV" = true :=
    (Parser.ofDefaults defaults).hasSection_withSection (by decide)
  -- no environment variable makes a section
  have hglobal : (told host.environ.entries
      ((Parser.ofDefaults defaults).withSection "ENV")).hasSection "global" = false := by
    rw [hasSection_told]
    rfl
  have hadd : (told host.environ.entries
      ((Parser.ofDefaults defaults).withSection "ENV")).addSection "global"
      = .ok ((told host.environ.entries
        ((Parser.ofDefaults defaults).withSection "ENV")).withSection "global") := by
    rw [Parser.addSection, if_neg]
    rintro (hname | hthere)
    · exact absurd hname (by decide)
    · rw [hglobal] at hthere
      exact Bool.noConfusion hthere
  -- each of the four settings goes into the new section
  have hstep (p : Parser) (hp : p.hasSection "global" = true) (option value : Str)
      (hvalue : Parser.beforeSet value = .ok value) :
      p.set "global" option value = .ok (p.withOption "global" option value)
        ∧ (p.withOption "global" option value).hasSection "global" = true :=
    ⟨set_ok hp hvalue option, by rw [p.hasSection_withOption, hp]⟩
  have hstart := (told host.environ.entries
    ((Parser.ofDefaults defaults).withSection "ENV")).hasSection_withSection
      (show ("global" : Str) ≠ defaultSection by decide)
  obtain ⟨hauditlog, hs⟩ := hstep _ hstart "auditlog" "$\x7blogdir\x7d/audit.log"
    (by decide)
  obtain ⟨hdebug, hs⟩ := hstep _ hs "debug" "false" (by decide)
  obtain ⟨humask, hs⟩ := hstep _ hs "umask" "027" (by decide)
  obtain ⟨hmakedirs, -⟩ := hstep _ hs "makedirs" "false" (by decide)
  have hfirst : (Parser.ofDefaults defaults).addSection "ENV"
      = .ok ((Parser.ofDefaults defaults).withSection "ENV") := rfl
  simp only [createParser, hfirst, foldlM_told _ _ henv, hadd, hauditlog, hdebug, humask,
    bind, Except.bind]
  exact hmakedirs

/-- The variables that the parser is told. -/
theorem ownOption_created (host : Host) (defaults : Options) {k value : Str}
    (h : host.environ.lookup k = some value) (hcarried : carried value = true) :
    (created host defaults).ownOption "ENV" k = some (escaped value) := by
  have hmem : (⟨k, value⟩ : Sigma (fun _ : Str => Str)) ∈ host.environ.entries :=
    AList.mem_lookup_iff.mp h
  have hother (p : Parser) (option value : Str) :
      (p.withOption "global" option value).ownOption "ENV" k = p.ownOption "ENV" k :=
    p.ownOption_withOption_of_ne (fun hsame => absurd hsame.1 (by decide)) value
  rw [created, hother, hother, hother, hother, Parser.ownOption_withSection]
  exact ownOption_told host.environ.nodupKeys
    ((Parser.ofDefaults defaults).hasSection_withSection (by decide)) hmem hcarried

/-- Files without a section `ENV` leave what `ENV` says alone. -/
theorem ownOption_files {found : List (Str × Source)}
    (h : ∀ f ∈ found, ∀ e ∈ f.2, e.1 ≠ "ENV") (p : Parser) (option : Str) :
    (found.foldl (fun parser f => parser.readFile f.2) p).ownOption "ENV" option
      = p.ownOption "ENV" option := by
  induction found generalizing p with
  | nil => rfl
  | cons f found ih =>
      rw [List.foldl_cons, ih (fun f' hf' => h f' (List.mem_cons_of_mem f hf'))]
      exact p.ownOption_readFile (h f List.mem_cons_self) option

/-- Files that have no section of the environment leave it alone. -/
theorem ownOption_readConfigs {args : Args} {file : Source} {glob : Str → List (Str × Source)}
    {p parser : Parser} {names : List Str}
    (h : readConfigs args file glob p = .ok (parser, names))
    (hfile : ∀ e ∈ file, e.1 ≠ "ENV")
    (hglob : ∀ pattern, ∀ f ∈ glob pattern, ∀ e ∈ f.2, e.1 ≠ "ENV") (option : Str) :
    parser.ownOption "ENV" option = p.ownOption "ENV" option := by
  have hread := p.ownOption_readFile hfile option
  obtain ⟨pattern, -, h⟩ := ok_of_bind h
  split_ifs at h with hempty
  · obtain ⟨rfl, -⟩ := Prod.mk.inj (Except.ok.inj h)
    exact hread
  · obtain ⟨rfl, -⟩ := Prod.mk.inj (Except.ok.inj h)
    have hfound : ∀ f ∈ (glob pattern).insertionSort (fun a b => a.1 ≤ b.1), ∀ e ∈ f.2,
        e.1 ≠ "ENV" := fun f hf => hglob pattern f ((List.mem_insertionSort _).mp hf)
    exact (ownOption_files hfound (p.readFile file) option).trans hread

/-- The parser always has a section `[global]`. -/
theorem hasSection_created (host : Host) (defaults : Options) :
    (created host defaults).hasSection "global" = true := by
  rw [created, Parser.hasSection_withOption, Parser.hasSection_withOption,
    Parser.hasSection_withOption, Parser.hasSection_withOption]
  exact Parser.hasSection_withSection _ (by decide)

/-- The sections of the parser stay, whatever the files say. -/
theorem hasSection_readConfigs {args : Args} {file : Source} {glob : Str → List (Str × Source)}
    {p parser : Parser} {names : List Str}
    (h : readConfigs args file glob p = .ok (parser, names)) {name : Str}
    (hname : p.hasSection name = true) : parser.hasSection name = true := by
  have hfiles (found : List (Str × Source)) (p : Parser) (hp : p.hasSection name = true) :
      (found.foldl (fun parser f => parser.readFile f.2) p).hasSection name = true := by
    induction found generalizing p with
    | nil => exact hp
    | cons f found ih => exact ih _ (p.hasSection_readFile f.2 hp)
  have hread := p.hasSection_readFile file hname
  obtain ⟨pattern, -, h⟩ := ok_of_bind h
  split_ifs at h with hempty
  · obtain ⟨rfl, -⟩ := Prod.mk.inj (Except.ok.inj h)
    exact hread
  · obtain ⟨rfl, -⟩ := Prod.mk.inj (Except.ok.inj h)
    exact hfiles _ _ hread

/-- There is always a section of the globals. -/
theorem hasSection_global {host : Host} {args : Args} {file : Source}
    {glob : Str → List (Str × Source)} {parser : Parser} {names : List Str}
    (hread : (createParser host (getDefaults host args)).bind (readConfigs args file glob)
      = .ok (parser, names)) : parser.hasSection "global" = true := by
  rw [createParser_ok] at hread
  exact hasSection_readConfigs hread (hasSection_created host _)

/-- A part of an option as it is meant: text that stands for itself, or a
    variable that stands for its value. -/
inductive Part where
  | text (s : Str)
  | env (name : Str)

/-- How the parts are written. -/
def written (parts : List Part) : Str :=
  parts.flatMap (fun part => match part with
    | .text s => escaped s
    | .env name => referenceTo "ENV" name)

/-- What the parts stand for. -/
def meant (environ : Options) (parts : List Part) : Str :=
  parts.flatMap (fun part => match part with
    | .text s => s
    | .env name => (environ.lookup name).getD [])

/-- A variable that an option can name, with a value the parser is told. -/
def Referable (environ : Options) (name : Str) : Prop :=
  ':' ∉ name ∧ '\x7d' ∉ name
    ∧ ∃ value, environ.lookup name = some value ∧ carried value = true

/-- The parts as the parser cuts them out. -/
def cut (parts : List Part) : List Piece :=
  parts.flatMap (fun part => match part with
    | .text s => s.map Piece.char
    | .env name => [.reference ["ENV", name]])

/-- A text with references is cut into the text and the references again. -/
theorem pieces_written {parts : List Part}
    (h : ∀ k, .env k ∈ parts → ':' ∉ k ∧ '\x7d' ∉ k) :
    pieces .outside (written parts) = cut parts := by
  induction parts with
  | nil => rfl
  | cons part parts ih =>
      have hrest := ih (fun k hk => h k (List.mem_cons_of_mem part hk))
      cases part with
      | text s =>
          exact (pieces_escaped s (written parts)).trans
            (congrArg (s.map Piece.char ++ ·) hrest)
      | env name =>
          obtain ⟨hcolon, hbrace⟩ := h name List.mem_cons_self
          exact (pieces_referenceTo (by decide) ⟨hbrace, hcolon⟩ (written parts)).trans
            (congrArg (Piece.reference ["ENV", name] :: ·) hrest)

/-- The parts put together, where every variable is resolved. -/
theorem expand_cut {bad : ParserError} {resolve : List Str → Except ParserError Str}
    {environ : Options} {parts : List Part}
    (h : ∀ k, .env k ∈ parts → resolve ["ENV", k] = .ok ((environ.lookup k).getD [])) :
    expand bad resolve (cut parts) = .ok (meant environ parts) := by
  induction parts with
  | nil => rfl
  | cons part parts ih =>
      have hrest := ih (fun k hk => h k (List.mem_cons_of_mem part hk))
      cases part with
      | text s =>
          refine (expand_chars s (cut parts)).trans ?_
          rw [hrest]
          rfl
      | env name =>
          refine (expand_reference (h name List.mem_cons_self) (cut parts)).trans ?_
          rw [hrest]
          rfl

/-- A text without doubled dollar signs had none. -/
theorem escaped_of_not_mem {value : Str} (h : '$' ∉ escaped value) : escaped value = value := by
  induction value with
  | nil => rfl
  | cons c value ih =>
      rw [escaped_cons] at h ⊢
      split_ifs at h ⊢ with hc
      · exact absurd List.mem_cons_self h
      · rw [ih (fun hmem => h (List.mem_append_right _ hmem))]
        rfl

/-- **HEADLINE — a variable stands for its value, whatever characters it is
    made of.** The value is neither cut nor interpolated again, and the text
    around it stays. -/
theorem environment_verbatim {host : Host} {args : Args} {file : Source}
    {glob : Str → List (Str × Source)} {parser : Parser} {names : List Str}
    (hread : (createParser host (getDefaults host args)).bind (readConfigs args file glob)
      = .ok (parser, names))
    (hfile : ∀ e ∈ file, e.1 ≠ "ENV")
    (hglob : ∀ pattern, ∀ f ∈ glob pattern, ∀ e ∈ f.2, e.1 ≠ "ENV")
    {name option : Str} {parts : List Part}
    (hwritten : parser.getRaw name option = .ok (written parts))
    (hparts : ∀ k, .env k ∈ parts → Referable host.environ k) :
    parser.get name option = .ok (meant host.environ parts) := by
  have hcreate : (createParser host (getDefaults host args)).bind (readConfigs args file glob)
      = readConfigs args file glob (created host (getDefaults host args)) := by
    rw [createParser_ok]
    rfl
  rw [hcreate] at hread
  obtain ⟨values, hvalues, hlookup⟩ := parser.getRaw_iff.mp hwritten
  refine parser.get_iff.mpr ⟨values, _, hvalues, hlookup, ?_⟩
  rw [Parser.beforeGet, Parser.maxInterpolationDepth, Parser.interpolateSome,
    pieces_written (fun k hk => ⟨(hparts k hk).1, (hparts k hk).2.1⟩)]
  refine expand_cut (fun k hk => ?_)
  obtain ⟨-, -, value, hvalue, hcarried⟩ := hparts k hk
  have hown : parser.ownOption "ENV" k = some (escaped value) := by
    rw [ownOption_readConfigs hread hfile hglob]
    exact ownOption_created host _ hvalue hcarried
  have hraw := parser.getRaw_of_own hown
  dsimp only
  rw [hraw, hvalue]
  dsimp only
  split_ifs with hdollar
  · -- the value is interpolated in turn, which undoes its escapes
    obtain ⟨values, hvalues, -⟩ := parser.getRaw_iff.mp hraw
    rw [hvalues]
    exact parser.interpolateSome_escaped 8 k "ENV" values value
  · rw [escaped_of_not_mem hdollar]
    rfl

/-! ### A home with a dollar sign -/

/-- A host with one variable, whose value holds a dollar sign. -/
def homeHost : Host := ⟨"node", "/", (∅ : Options).insert ("HOME" : Str) "/ho$me"⟩

/-- The arguments of a server that is started without any. -/
def homeArgs : Args := ⟨"/etc/custodia.conf", none, false⟩

/-- The option is written as `${ENV:HOME}/$$1`; no further files are read. -/
def homeFile : Source :=
  [("DEFAULT", [("confdpattern", "")]),
   ("global", [("banner", "$\x7bENV:HOME\x7d/$$1")])]

/-- The dollar sign of the value is read as it is, and so is that of the text. -/
theorem environment_verbatim_home :
    ((created homeHost (getDefaults homeHost homeArgs)).readFile homeFile).get "global" "banner"
      = .ok "/ho$me/$1" := by
  have hpattern : ((created homeHost (getDefaults homeHost homeArgs)).readFile homeFile).get
      defaultSection "confdpattern" = .ok [] := by decide +kernel
  have hread : (createParser homeHost (getDefaults homeHost homeArgs)).bind
      (readConfigs homeArgs homeFile (fun _ => []))
      = .ok ((created homeHost (getDefaults homeHost homeArgs)).readFile homeFile,
          [homeArgs.configfile]) := by
    rw [createParser_ok]
    show readConfigs homeArgs homeFile (fun _ => []) _ = _
    rw [readConfigs, hpattern]
    rfl
  have hraw : ((created homeHost (getDefaults homeHost homeArgs)).readFile homeFile).getRaw
      "global" "banner" = .ok (written [.env "HOME", .text "/$1"]) := by decide +kernel
  have hhome : ∀ k, Part.env k ∈ [Part.env "HOME", Part.text "/$1"]
      → Referable homeHost.environ k := by
    intro k hk
    rcases List.mem_cons.mp hk with heq | hrest
    · obtain rfl := Part.env.inj heq
      exact ⟨by decide, by decide, "/ho$me", by decide, by decide⟩
    · exact Part.noConfusion (List.mem_singleton.mp hrest)
  exact environment_verbatim hread (by decide) (fun _ f hf => absurd hf List.not_mem_nil) hraw hhome

end ConfigurationProofs
