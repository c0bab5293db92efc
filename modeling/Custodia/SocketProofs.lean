import Custodia.Configuration

/-! # SocketProofs — the socket that client and server meet at

    The path of a socket is quoted into the location of an URL, and unquoted
    from it on the other side, after more of a path was put behind it.

    * `urlparse_unix`: the location of such an URL is what was quoted;
    * `client_reaches_iff`: a client reaches its server exactly if both name
      one path;
    * `instance_reaches_iff`: without a path, exactly if both name one
      instance. -/

namespace SocketProofs

open PosixPath PyValues Unquote PercentQuoting ConfigParser Forwarding SeparatedNames
open Configuration

/-! ## The URL of a socket -/

/-- The characters of a quoted path. -/
def Quoted (loc : Str) : Prop := ∀ c ∈ loc, c = '%' ∨ alwaysSafe c = true

/-- What has been quoted without exceptions holds no character that could be
    quoted again. -/
theorem quoted_quote (path : Str) : Quoted (quote [] path) := by
  intro c hc
  rcases (quote_plain hc).2 with h | h | h
  · exact Or.inl h
  · exact Or.inr h
  · exact absurd h List.not_mem_nil

/-- A character that ends or changes a location is not in it. -/
theorem Quoted.ne {loc : Str} (h : Quoted loc) {c d : Char} (hc : c ∈ loc)
    (hd : d ≠ '%' ∧ alwaysSafe d = false) : c ≠ d := by
  rintro rfl
  rcases h c hc with heq | hsafe
  · exact hd.1 heq
  · rw [hd.2] at hsafe
    exact Bool.noConfusion hsafe

/-- **The location of an URL is what was quoted.** -/
theorem urlparse_unix {loc rest : Str} (hloc : Quoted loc)
    (hrest : rest = [] ∨ ∃ t, rest = slash :: t) :
    urlparse (unixScheme ++ loc ++ rest) = .ok ⟨"http+unix", loc⟩ := by
  let kept : Char → Bool := fun c => decide (c ≠ '\t' ∧ c ≠ '\r' ∧ c ≠ '\n')
  let part : Char → Bool := fun c => decide (c ≠ '/' ∧ c ≠ '?' ∧ c ≠ '#')
  -- nothing in the location is cleaned away, and nothing in it ends it
  have hkept : loc.filter kept = loc := by
    refine List.filter_eq_self.mpr (fun c hc => decide_eq_true ⟨?_, ?_, ?_⟩)
    all_goals exact hloc.ne hc ⟨by decide, by decide⟩
  have hpart : ∀ c ∈ loc, part c = true := by
    refine fun c hc => decide_eq_true ⟨?_, ?_, ?_⟩
    all_goals exact hloc.ne hc ⟨by decide, by decide⟩
  have hcleaned : cleaned (unixScheme ++ loc ++ rest)
      = unixScheme ++ (loc ++ rest.filter kept) := by
    show (unixScheme ++ loc ++ rest).filter kept = _
    rw [List.filter_append, List.filter_append, hkept, List.append_assoc]
    rfl
  have hend : (rest.filter kept).takeWhile part = [] := by
    rcases hrest with rfl | ⟨t, rfl⟩
    · rfl
    · rfl
  have hcolon : ':' ∈ unixScheme ++ (loc ++ rest.filter kept) :=
    List.mem_append_left _ (by decide)
  have hsplit : splitScheme (unixScheme ++ (loc ++ rest.filter kept))
      = (("http+unix" : Str), ['/', '/'] ++ (loc ++ rest.filter kept)) := by
    rw [splitScheme]
    exact if_pos ⟨hcolon, rfl, rfl⟩
  have hnetloc : splitNetloc (['/', '/'] ++ (loc ++ rest.filter kept)) = loc := by
    rw [splitNetloc, if_pos (List.prefix_append _ _)]
    show (loc ++ rest.filter kept).takeWhile part = loc
    rw [List.takeWhile_append_of_pos hpart, hend, List.append_nil]
  have hbrackets : ('[' ∈ loc) ↔ (']' ∈ loc) :=
    iff_of_false (fun h => hloc.ne h ⟨by decide, by decide⟩ rfl)
      (fun h => hloc.ne h ⟨by decide, by decide⟩ rfl)
  rw [urlparse, hcleaned, hsplit]
  dsimp only
  rw [hnetloc]
  exact if_pos hbrackets

/-! ## The two sides -/

/-- Only the empty path is quoted as nothing. -/
theorem quote_ne_nil {path : Str} (h : path ≠ []) : quote [] path ≠ [] := by
  intro hnil
  have hpath : unquote (quote [] path) = path := unquote_quote List.not_mem_nil path
  rw [hnil] at hpath
  exact h hpath.symm

/-- A normalized path is never empty: nothing becomes a dot. -/
theorem normpath_ne_nil (path : Str) : normpath path ≠ [] := by
  rw [normpath]
  split_ifs with hempty
  · exact List.cons_ne_nil _ _
  · dsimp only
    split_ifs with htext
    · exact List.cons_ne_nil _ _
    · exact htext

/-- **The server listens on the path its URL was made of.** -/
theorem getServerclass_socketUrl (conv : Conversions) {path : Str} (h : path ≠ []) :
    (urlparse (socketUrl path) >>= getServerclass conv) = .ok (.unix path) := by
  have hurl : urlparse (socketUrl path) = .ok ⟨"http+unix", quote [] path⟩ :=
    @urlparse_unix (quote [] path) "/" (quoted_quote path) (Or.inr ⟨[], rfl⟩)
  have hpath : unquote (quote [] path) = path := unquote_quote List.not_mem_nil path
  have hscheme : Url.scheme ⟨"http+unix", quote [] path⟩ = ("http+unix" : Str) := rfl
  rw [hurl]
  show getServerclass conv ⟨"http+unix", quote [] path⟩ = _
  rw [getServerclass, if_pos hscheme, hpath, if_neg h]

/-- Trailing slashes are taken from what follows a location, not from it. -/
theorem rstrip_location {loc : Str} (hloc : Quoted loc) (hne : loc ≠ []) (t : Str) :
    rstrip (unixScheme ++ loc ++ t) = unixScheme ++ loc ++ rstrip t := by
  have hlast : (unixScheme ++ loc).getLast? ≠ some slash := by
    rw [List.getLast?_append_of_ne_nil _ hne]
    intro hslash
    exact hloc.ne (List.mem_of_getLast? hslash) ⟨by decide, by decide⟩ rfl
  induction t using List.reverseRecOn with
  | nil =>
      rw [List.append_nil]
      refine ((trimRight_eq_self_iff slash).mpr hlast).trans ?_
      exact (List.append_nil _).symm
  | append_singleton t c ih =>
      rw [← List.append_assoc]
      by_cases hc : c = slash
      · subst hc
        rw [rstrip_concat, rstrip_concat, ih]
      · have hself (s : Str) : rstrip (s ++ [c]) = s ++ [c] :=
          (trimRight_eq_self_iff slash).mpr (by simpa using hc)
        rw [hself, hself, List.append_assoc]

/-- What stays of a path that is put behind a location. -/
theorem rstrip_path {t : Str} (h : t = [] ∨ ∃ s, t = slash :: s) (path : Str) :
    ∃ s, rstrip t ++ slash :: lstrip path = slash :: s := by
  have hprefix : rstrip t <+: t := List.rdropWhile_prefix _ t
  cases hr : rstrip t with
  | nil => exact ⟨lstrip path, rfl⟩
  | cons c r =>
      rw [hr] at hprefix
      rcases h with rfl | ⟨s, rfl⟩
      · exact absurd (List.prefix_nil.mp hprefix) (List.cons_ne_nil c r)
      · obtain rfl := (List.cons_prefix_cons.mp hprefix).1
        exact ⟨_, rfl⟩

/-- **The client connects to the path its URL was made of**, whatever it
    asks for. -/
theorem getConnection_joinUrl {path : Str} (h : path ≠ []) {t : Str}
    (ht : t = [] ∨ ∃ s, t = slash :: s) (headers : Headers) (name : Str) :
    getConnection (CustodiaHTTPClient.joinUrl ⟨unixScheme ++ quote [] path ++ t, headers⟩ name)
      = .ok path := by
  obtain ⟨s, hs⟩ := rstrip_path ht name
  have hjoined : CustodiaHTTPClient.joinUrl ⟨unixScheme ++ quote [] path ++ t, headers⟩ name
      = unixScheme ++ quote [] path ++ slash :: s := by
    show rstrip (unixScheme ++ quote [] path ++ t) ++ slash :: lstrip name = _
    rw [rstrip_location (quoted_quote path) (quote_ne_nil h), List.append_assoc, hs]
  have hpath : unquote (quote [] path) = path := unquote_quote List.not_mem_nil path
  rw [hjoined, getConnection, urlparse_unix (quoted_quote path) (Or.inr ⟨s, rfl⟩)]
  show Except.ok (unquote (quote [] path)) = _
  rw [hpath]

/-! ## The client -/

/-- The path that the command line of a client names, in its directory: by
    `--server`, or by the name of an instance. -/
inductive Aims (cwd inst : Str) : Option Str → Str → Prop where
  | path {arg : Str} (h : isAbsolute arg = true) : Aims cwd inst (some arg) arg
  | relative {arg : Str} (h : ("./" : Str) <+: arg) :
      Aims cwd inst (some arg) (abspath cwd arg)
  | byName : Aims cwd inst none (("/var/run/custodia/" : Str) ++ inst ++ (".sock" : Str))

/-- A client always has a target. -/
theorem Aims.ne_nil {cwd inst target : Str} {server : Option Str}
    (h : Aims cwd inst server target) : target ≠ [] := by
  cases h with
  | path habs =>
      rintro rfl
      exact Bool.noConfusion habs
  | relative => exact normpath_ne_nil _
  | byName => exact List.cons_ne_nil _ _

/-- The argument is accepted, and quoted. -/
theorem serverCheck_aims {cwd inst arg target : Str} (h : Aims cwd inst (some arg) target) :
    serverCheck cwd arg = some (unixScheme ++ quote [] target) := by
  have hhead (c : Char) (rest : Str) (harg : arg.head? = some c) (hc : c ≠ 'h') :
      ¬ ('h' :: rest) <+: arg := by
    rintro ⟨t, rfl⟩
    exact hc (Option.some.inj harg).symm
  cases h with
  | path habs =>
      have harg : arg.head? = some '/' := by simpa [isAbsolute] using habs
      have hdot : ¬ ("./" : Str) <+: arg := by
        rintro ⟨t, rfl⟩
        exact absurd (Option.some.inj harg) (by decide)
      -- neither kind of path is taken for a URL
      have hurl : ¬ (("http://" : Str) <+: arg ∨ ("https://" : Str) <+: arg
          ∨ unixScheme <+: arg) := by
        rintro (h | h | h)
        all_goals exact hhead '/' _ harg (by decide) h
      rw [serverCheck, if_neg hurl, if_neg hdot, if_neg (by rw [habs]; decide)]
  | relative hdot =>
      have harg : arg.head? = some '.' := by
        obtain ⟨t, rfl⟩ := hdot
        rfl
      have hurl : ¬ (("http://" : Str) <+: arg ∨ ("https://" : Str) <+: arg
          ∨ unixScheme <+: arg) := by
        rintro (h | h | h)
        all_goals exact hhead '.' _ harg (by decide) h
      rw [serverCheck, if_neg hurl, if_pos hdot]

/-- The command line is parsed: its `--server` is checked. -/
def Parsed (cwd : Str) (server : Option Str) (cli : CliArgs) : Prop :=
  match server with
  | none => cli.server = none
  | some arg => cli.server.isSome = true ∧ cli.server = serverCheck cwd arg

/-- The URL that the client is made with. -/
theorem cliServer_aims {cwd target : Str} {server : Option Str} {cli : CliArgs}
    (haims : Aims cwd cli.instanceName server target) (hparsed : Parsed cwd server cli) :
    ∃ t, cliServer cli = unixScheme ++ quote [] target ++ slash :: t := by
  have hserver : named cli.server (unixScheme
      ++ quote [] (("/var/run/custodia/" : Str) ++ cli.instanceName ++ (".sock" : Str)))
      = unixScheme ++ quote [] target := by
    cases server with
    | none =>
        obtain ⟨-⟩ := haims
        rw [show cli.server = none from hparsed]
        rfl
    | some arg =>
        have hne : unixScheme ++ quote [] target ≠ [] :=
          List.append_ne_nil_of_left_ne_nil (by decide) _
        rw [hparsed.2, serverCheck_aims haims]
        exact named_some hne _
  -- a quoted path has no slash at its end, so that a URL path is always added
  have hlast : endsInSlash (unixScheme ++ quote [] target) = false := by
    refine beq_eq_false_iff_ne.mpr ?_
    rw [List.getLast?_append_of_ne_nil _ (quote_ne_nil haims.ne_nil)]
    intro hslash
    exact (quoted_quote target).ne (List.mem_of_getLast? hslash) ⟨by decide, by decide⟩ rfl
  have hcli : cliServer cli = unixScheme ++ quote [] target
      ++ (if isAbsolute cli.udsUrlpath then cli.udsUrlpath else slash :: cli.udsUrlpath) := by
    show (if unixScheme <+: named cli.server _ ∧ endsInSlash (named cli.server _) = false then _
      else _ : Str) = _
    rw [hserver]
    exact if_pos ⟨List.prefix_append _ _, hlast⟩
  rw [hcli]
  split_ifs with habs
  · obtain ⟨t, ht⟩ := isAbsolute_iff.mp habs
    exact ⟨t, by rw [ht]⟩
  · exact ⟨_, rfl⟩

/-- **The client connects to the path that its command line names.** -/
theorem client_connects {cwd target : Str} {server : Option Str} {cli : CliArgs}
    (haims : Aims cwd cli.instanceName server target) (hparsed : Parsed cwd server cli)
    (name : Str) : getConnection ((cliClient cli).joinUrl name) = .ok target := by
  obtain ⟨t, ht⟩ := cliServer_aims haims hparsed
  rw [cliClient, ht]
  exact getConnection_joinUrl haims.ne_nil (Or.inr ⟨t, rfl⟩) defaultHeaders name

/-! ## The server -/

/-- The socket that the configuration chooses: `server_socket`, or the socket
    of the instance. -/
def Chosen (args : Args) (parser : Parser) (config : Config) (sock : Str) : Prop :=
  (config.settings.lookup ("server_socket" : Str) = some sock ∧ sock ≠ [])
    ∨ (config.settings.lookup ("server_socket" : Str)).getD [] = []
      ∧ ∃ dir, parser.get defaultSection "socketdir" = .ok dir
        ∧ sock = joinStep dir (named args.instanceName "custodia" ++ (".sock" : Str))

/-- The socket that a configuration leads to is the chosen one, where no URL is
    set. -/
theorem socketOf_chosen {args : Args} {parser : Parser} {config : Config} {sock : Option Str}
    (hurl : (config.settings.lookup ("server_url" : Str)).getD [] = [])
    (h : socketOf args parser (config.settings.lookup ("server_url" : Str))
      (config.settings.lookup ("server_socket" : Str)) = .ok sock) :
    ∃ path, sock = some path ∧ Chosen args parser config path := by
  have hgiven (text : Option Str) : (text.any (fun s => decide (s ≠ [])) = true)
      ↔ text.getD [] ≠ [] := by
    cases text with
    | none => exact iff_of_false Bool.noConfusion (fun h => h rfl)
    | some s => exact decide_eq_true_iff
  rw [socketOf] at h
  dsimp only at h
  rw [if_neg (fun hboth => (hgiven _).mp hboth.1 hurl), if_neg (fun hu => (hgiven _).mp hu hurl)]
    at h
  split_ifs at h with hsock
  · rw [hgiven] at hsock
    cases hset : config.settings.lookup ("server_socket" : Str) with
    | none => rw [hset] at hsock; exact absurd rfl hsock
    | some path =>
        rw [hset] at h hsock
        exact ⟨path, (Except.ok.inj h).symm, Or.inl ⟨hset, hsock⟩⟩
  · obtain ⟨dir, hdir, h⟩ := ok_of_bind h
    refine ⟨_, (Except.ok.inj h).symm, Or.inr ⟨?_, dir, mapError_eq_ok.mp hdir, rfl⟩⟩
    exact not_not.mp (fun hne => hsock ((hgiven _).mpr hne))

/-- The URL of a configuration, from its settings. -/
theorem populateConfig_url {conv : Conversions} {host : Host} {args : Args} {parser : Parser}
    {config : Config} (h : populateConfig conv host args parser = .ok config) :
    ∃ sock, socketOf args parser (config.settings.lookup ("server_url" : Str))
        (config.settings.lookup ("server_socket" : Str)) = .ok sock
      ∧ ∀ path, sock = some path
        → config.serverUrl = some (socketUrl (abspath host.cwd path)) := by
  obtain ⟨items, -, h⟩ := ok_of_bind h
  obtain ⟨settings, -, h⟩ := ok_of_bind h
  obtain ⟨tlsVerifyClient, -, h⟩ := ok_of_bind h
  obtain ⟨debug, -, h⟩ := ok_of_bind h
  obtain ⟨makedirs, -, h⟩ := ok_of_bind h
  obtain ⟨auditlog, -, h⟩ := ok_of_bind h
  obtain ⟨umask, -, h⟩ := ok_of_bind h
  obtain ⟨sock, hsock, h⟩ := ok_of_bind h
  obtain rfl := Except.ok.inj h
  refine ⟨sock, hsock, ?_⟩
  rintro path rfl
  rfl

/-- **The server listens on the socket its configuration chooses.** -/
theorem server_listens {conv : Conversions} {host : Host} {args : Args} {parser : Parser}
    {config : Config} (hconfig : populateConfig conv host args parser = .ok config)
    (hurl : (config.settings.lookup ("server_url" : Str)).getD [] = []) :
    ∃ sock, Chosen args parser config sock
      ∧ serverAddress conv config = .ok (.unix (abspath host.cwd sock)) := by
  obtain ⟨sock, hsock, hset⟩ := populateConfig_url hconfig
  obtain ⟨path, rfl, hchosen⟩ := socketOf_chosen hurl hsock
  refine ⟨path, hchosen, ?_⟩
  rw [serverAddress, hset path rfl]
  exact getServerclass_socketUrl conv (normpath_ne_nil _)

/-- **HEADLINE — a client reaches its server exactly if both name one path.**
    Whatever characters the path is made of, and whatever the client asks for,
    the URL in between changes nothing. -/
theorem client_reaches_iff {conv : Conversions} {host : Host} {args : Args} {parser : Parser}
    {config : Config} (hconfig : populateConfig conv host args parser = .ok config)
    (hurl : (config.settings.lookup ("server_url" : Str)).getD [] = []) :
    ∃ sock, Chosen args parser config sock
      ∧ ∀ cwd server cli target, Aims cwd cli.instanceName server target
        → Parsed cwd server cli → ∀ name,
          (∃ path, serverAddress conv config = .ok (.unix path)
              ∧ getConnection ((cliClient cli).joinUrl name) = .ok path)
            ↔ target = abspath host.cwd sock := by
  obtain ⟨sock, hchosen, hlistens⟩ := server_listens hconfig hurl
  refine ⟨sock, hchosen, fun cwd server cli target haims hparsed name => ?_⟩
  rw [hlistens, client_connects haims hparsed name]
  constructor
  · rintro ⟨path, hserver, hclient⟩
    obtain rfl := Address.unix.inj (Except.ok.inj hserver)
    exact Except.ok.inj hclient
  · rintro rfl
    exact ⟨_, rfl, rfl⟩

/-! ## Instances -/

/-- A component that `normpath` keeps. -/
def Kept (comp : Str) : Prop := comp ≠ [] ∧ comp ≠ "." ∧ comp ≠ ".."

/-- Where every component is kept, normalizing keeps them all in their order. -/
theorem foldl_normStep {comps : List Str} (h : ∀ comp ∈ comps, Kept comp) (kept : List Str) :
    comps.foldl (normStep true) kept = kept ++ comps := by
  induction comps generalizing kept with
  | nil => exact (List.append_nil kept).symm
  | cons comp comps ih =>
      obtain ⟨hempty, hdot, hdots⟩ := h comp List.mem_cons_self
      have hstep : normStep true kept comp = kept ++ [comp] := by
        rw [normStep, if_neg (not_or.mpr ⟨hempty, hdot⟩), if_pos (Or.inl hdots)]
      rw [List.foldl_cons, hstep, ih (fun c hc => h c (List.mem_cons_of_mem comp hc)),
        List.append_assoc]
      rfl

/-- **A path without empty or dotted components is normal.** -/
theorem normpath_spell {comps : List Str} (hne : comps ≠ [])
    (h : ∀ comp ∈ comps, Kept comp ∧ slash ∉ comp) :
    normpath (slash :: spell slash comps) = slash :: spell slash comps := by
  have hsplit : (slash :: spell slash comps).splitOn slash = [] :: comps := by
    refine (List.splitOn_append_cons_self [] (spell slash comps)).trans ?_
    rw [splitOn_spell slash hne (fun comp hc => (h comp hc).2)]
    rfl
  -- only two slashes at the start are kept as two
  have hhead : ¬ ['/', '/'] <+: slash :: spell slash comps := by
    intro htwo
    have hone : [slash] <+: spell slash comps := (List.cons_prefix_cons.mp htwo).2
    cases comps with
    | nil => exact hne rfl
    | cons comp comps =>
        obtain ⟨⟨hempty, -, -⟩, hslash⟩ := h comp List.mem_cons_self
        obtain ⟨c, comp', rfl⟩ := List.exists_cons_of_ne_nil hempty
        have hfirst : (spell slash ((c :: comp') :: comps)).head? = some c := by
          cases comps with
          | nil => rw [spell_singleton]; rfl
          | cons d ds => rw [spell_cons slash _ (List.cons_ne_nil d ds)]; rfl
        obtain ⟨t, ht⟩ := hone
        rw [← ht] at hfirst
        exact hslash (Option.some.inj hfirst ▸ List.mem_cons_self)
  have hslashes : initialSlashes (slash :: spell slash comps) = 1 := by
    rw [initialSlashes, if_neg (by rintro ⟨⟩), if_neg (fun htwo => hhead htwo.1)]
  have hfold : ([] :: comps).foldl (normStep true) [] = comps :=
    (foldl_normStep (fun comp hc => (h comp hc).1) []).trans (List.nil_append comps)
  rw [normpath, if_neg (List.cons_ne_nil _ _), hsplit, hslashes]
  dsimp only
  rw [show isAbsolute (slash :: spell slash comps) = true from rfl, hfold]
  exact if_neg (List.cons_ne_nil _ _)

/-- The socket of an instance. -/
def instanceSocket (name : Str) : Str := ("/var/run/custodia/" : Str) ++ name ++ (".sock" : Str)

/-- The name of an instance stays in the directory of the sockets. -/
theorem abspath_instanceSocket (cwd : Str) {name : Str} (h : instanceCheck name = true) :
    abspath cwd (joinStep "/var/run/custodia" (name ++ (".sock" : Str))) = instanceSocket name := by
  -- the check of the name keeps slashes out of the file name
  have hslash : slash ∉ name ++ (".sock" : Str) := by
    intro hmem
    rcases List.mem_append.mp hmem with hname | hsuffix
    · have := List.all_eq_true.mp h slash hname
      exact (of_decide_eq_true this).2.1 rfl
    · exact absurd hsuffix (by decide)
  have hlong : 5 ≤ (name ++ (".sock" : Str)).length := by
    rw [List.length_append]
    exact Nat.le_add_left _ _
  have hkept : Kept (name ++ (".sock" : Str)) := by
    refine ⟨?_, ?_, ?_⟩
    all_goals
      intro heq
      rw [heq] at hlong
      exact absurd hlong (by decide)
  have hjoin : joinStep "/var/run/custodia" (name ++ (".sock" : Str)) = instanceSocket name := by
    rw [joinStep_inside (isAbsolute_of_not_mem hslash) (by decide) (by decide)]
    rfl
  have hcomps : ∀ comp ∈ [("var" : Str), "run", "custodia", name ++ (".sock" : Str)],
      Kept comp ∧ slash ∉ comp := by
    simp only [List.forall_mem_cons]
    exact ⟨⟨⟨by decide, by decide, by decide⟩, by decide⟩,
      ⟨⟨by decide, by decide, by decide⟩, by decide⟩,
      ⟨⟨by decide, by decide, by decide⟩, by decide⟩, ⟨hkept, hslash⟩,
      fun comp hc => absurd hc List.not_mem_nil⟩
  have hspell : instanceSocket name
      = slash :: spell slash [("var" : Str), "run", "custodia", name ++ (".sock" : Str)] := by
    rw [spell_cons slash _ (List.cons_ne_nil _ _), spell_cons slash _ (List.cons_ne_nil _ _),
      spell_cons slash _ (List.cons_ne_nil _ _), spell_singleton]
    rfl
  rw [hjoin, abspath, if_pos (by rw [hspell]; rfl), hspell]
  exact normpath_spell (List.cons_ne_nil _ _) hcomps

/-! ### A host -/

/-- `int`, of a text that is all digits. -/
def readNumber : Conversions :=
  ⟨fun base text => some (text.foldl (fun n c => n * base + (c.toNat - 48)) 0)⟩

/-- A host, and the directory in which the server is started. -/
def demoHost : Host := ⟨"node", "/root", ∅⟩

/-- The defaults of the server, and its log. -/
def demoParser : Parser :=
  ((Parser.ofDefaults ((∅ : Options).insert ("socketdir" : Str) "/var/run/custodia")).withSection
    "global").withOption "global" "auditlog" "/var/log/audit.log"

/-- The instance `é`. -/
def demoArgs : Args := ⟨"/etc/custodia/demo.conf", some "é", false⟩

/-- A client that names no server. -/
def demoCli : CliArgs := ⟨none, "é", "/secrets/"⟩

/-- The demonstration is configured, with no URL and no socket. -/
theorem demoConfig : ∃ config, populateConfig readNumber demoHost demoArgs demoParser = .ok config
    ∧ (config.settings.lookup ("server_url" : Str)).getD [] = []
    ∧ (config.settings.lookup ("server_socket" : Str)).getD [] = [] := by
  have hread : (populateConfig readNumber demoHost demoArgs demoParser).toOption.any
      (fun config => decide ((config.settings.lookup ("server_url" : Str)).getD [] = []
        ∧ (config.settings.lookup ("server_socket" : Str)).getD [] = [])) = true := by
    decide +kernel
  cases hconfig : populateConfig readNumber demoHost demoArgs demoParser with
  | error e => rw [hconfig] at hread; exact Bool.noConfusion hread
  | ok config => rw [hconfig] at hread; exact ⟨config, rfl, of_decide_eq_true hread⟩

/-- There the two meet exactly if the target is the socket of the server. -/
theorem client_reaches_iff_demo :
    ∃ config, populateConfig readNumber demoHost demoArgs demoParser = .ok config
      ∧ (config.settings.lookup ("server_url" : Str)).getD [] = []
      ∧ ∃ sock, Chosen demoArgs demoParser config sock
        ∧ ∀ cwd server cli target, Aims cwd cli.instanceName server target
          → Parsed cwd server cli → ∀ name,
            (∃ path, serverAddress readNumber config = .ok (.unix path)
                ∧ getConnection ((cliClient cli).joinUrl name) = .ok path)
              ↔ target = abspath demoHost.cwd sock := by
  obtain ⟨config, hconfig, hurl, -⟩ := demoConfig
  exact ⟨config, hconfig, hurl, client_reaches_iff hconfig hurl⟩

/-- **HEADLINE — without a path, a client and a server meet exactly if they
    name one instance.** No name of an instance is taken for another one. -/
theorem instance_reaches_iff {conv : Conversions} {host : Host} {args : Args} {parser : Parser}
    {config : Config} (hconfig : populateConfig conv host args parser = .ok config)
    (hurl : (config.settings.lookup ("server_url" : Str)).getD [] = [])
    (hsock : (config.settings.lookup ("server_socket" : Str)).getD [] = [])
    (hdir : parser.get defaultSection "socketdir" = .ok "/var/run/custodia")
    (hserver : ∀ name, args.instanceName = some name → instanceCheck name = true)
    (cli : CliArgs) (hcli : cli.server = none) (name : Str) :
    (∃ path, serverAddress conv config = .ok (.unix path)
        ∧ getConnection ((cliClient cli).joinUrl name) = .ok path)
      ↔ cli.instanceName = named args.instanceName "custodia" := by
  obtain ⟨sock, hchosen, hlistens⟩ := server_listens hconfig hurl
  have hname : instanceCheck (named args.instanceName "custodia") = true := by
    cases hgiven : args.instanceName with
    | none => rfl
    | some given =>
        rw [named]
        split_ifs with hempty
        · rfl
        · exact hserver given hgiven
  have hpath : abspath host.cwd sock = instanceSocket (named args.instanceName "custodia") := by
    rcases hchosen with ⟨hset, hne⟩ | ⟨-, dir, hget, rfl⟩
    · rw [hset] at hsock
      exact absurd hsock hne
    · rw [hdir] at hget
      rw [← Except.ok.inj hget]
      exact abspath_instanceSocket host.cwd hname
  -- both paths are those of instances, and these tell their names
  have haims : Aims [] cli.instanceName none (instanceSocket cli.instanceName) := .byName
  rw [hlistens, client_connects haims hcli name, hpath]
  constructor
  · rintro ⟨path, hunix, hclient⟩
    obtain rfl := Address.unix.inj (Except.ok.inj hunix)
    exact List.append_cancel_left (List.append_cancel_right (Except.ok.inj hclient))
  · intro heq
    exact ⟨_, rfl, by rw [heq]⟩

/-- And so they meet exactly if they name one instance. -/
theorem instance_reaches_iff_demo :
    ∃ config, populateConfig readNumber demoHost demoArgs demoParser = .ok config
      ∧ (config.settings.lookup ("server_url" : Str)).getD [] = []
      ∧ (config.settings.lookup ("server_socket" : Str)).getD [] = []
      ∧ ((∃ path, serverAddress readNumber config = .ok (.unix path)
          ∧ getConnection ((cliClient demoCli).joinUrl "key") = .ok path)
        ↔ demoCli.instanceName = named demoArgs.instanceName "custodia") := by
  obtain ⟨config, hconfig, hurl, hsock⟩ := demoConfig
  have hname : ∀ name, demoArgs.instanceName = some name → instanceCheck name = true := by
    intro name h
    obtain rfl := Option.some.inj h
    decide
  have hdir : demoParser.get defaultSection "socketdir" = .ok "/var/run/custodia" := by
    decide +kernel
  exact ⟨config, hconfig, hurl, hsock,
    instance_reaches_iff hconfig hurl hsock hdir hname demoCli rfl "key"⟩

end SocketProofs
