import Custodia.ConfigParser
import Custodia.PercentQuoting
import Custodia.Forwarding

/-! # Configuration — from the command line to the socket

    The server reads its configuration, with the environment of the process in
    a section of its own, and makes an URL of the socket it listens on; the
    command line client makes an URL of the socket it connects to. Both take
    the socket from the URL again.

    * `CustodiaConfig`: the parser, the files and the settings of the server;
    * `getServerclass`: the address the server listens on;
    * `cliServer`, `getConnection`: the address the client connects to. -/

namespace Configuration

open PosixPath PyValues Unquote PercentQuoting ConfigParser Forwarding SeparatedNames

/-! ## Paths of the file system -/

/-- One component in the loop of `normpath`. -/
def normStep (absolute : Bool) (kept : List Str) (comp : Str) : List Str :=
  if comp = [] ∨ comp = "." then kept
  else if comp ≠ ".." ∨ (absolute = false ∧ kept = []) ∨ kept.getLast? = some ".." then
    kept ++ [comp]
  else kept.dropLast

/-- How many slashes a path keeps at its start: two are kept, and three are
    one. -/
def initialSlashes (path : Str) : Nat :=
  if isAbsolute path = false then 0
  else if ['/', '/'] <+: path ∧ ¬ ['/', '/', '/'] <+: path then 2
  else 1

/-- `os.path.normpath`. -/
def normpath (path : Str) : Str :=
  if path = [] then "."
  else
    let comps := (path.splitOn slash).foldl (normStep (isAbsolute path)) []
    let text := List.replicate (initialSlashes path) slash ++ spell slash comps
    if text = [] then "." else text

/-- `os.path.abspath`. -/
def abspath (cwd path : Str) : Str :=
  normpath (if isAbsolute path then path else joinStep cwd path)

/-! ## The configuration of the server -/

/-- The arguments of the server: the path of its configuration file, the name of
    its instance, if it has one, and whether to log what is for debugging. -/
structure Args where
  configfile : Str
  instanceName : Option Str
  debug : Bool

/-- What the process finds on its host: its name, the directory it is started
    in, and the variables of its environment. -/
structure Host where
  hostname : Str
  cwd : Str
  environ : Options

/-- A configuration file as it is parsed: its sections, in order. -/
abbrev Source := List (Str × List (Str × Str))

/-- What a setting is converted with: `int` of a text in a base, which may
    refuse it. Nothing is assumed of it. -/
structure Conversions where
  int : Nat → Str → Option Int

/-- An exception while the configuration is read, by the parser or by what is
    made of its settings. -/
inductive ConfigError where
  | parser (e : ParserError)
  | valueError (text : Str)
  | typeError (text : Str)
  deriving DecidableEq

/-- A call to the parser. -/
def ofParser {α : Type} (r : Except ParserError α) : Except ConfigError α :=
  r.mapError ConfigError.parser

/-- `CONFIG_SPECIALS`. -/
def configSpecials : List Str := ["authenticators", "authorizers", "consumers", "stores"]

/-- `DEFAULT_PATHS`. -/
def defaultPaths : List (Str × Str) :=
  [("libdir", "/var/lib/custodia/\x7binstance\x7d"),
   ("logdir", "/var/log/custodia/\x7binstance\x7d"),
   ("rundir", "/var/run/custodia/\x7binstance\x7d"),
   ("socketdir", "/var/run/custodia")]

/-- `instance if instance else fallback`. -/
def named (instanceName : Option Str) (fallback : Str) : Str :=
  match instanceName with
  | none => fallback
  | some name => if name = [] then fallback else name

/-- `path.format(**defaults)`; the paths name only the instance. -/
def formatted (inst path : Str) : Str :=
  Replacement.replace ("\x7binstance\x7d" : Str) inst path

theorem named_some {name : Str} (h : name ≠ []) (fallback : Str) :
    named (some name) fallback = name := if_neg h

/-- `d[key] = value`. -/
def setItem (key value : Str) (d : Options) : Options := d.insert key value

/-- `get_defaults`. -/
def getDefaults (host : Host) (args : Args) : Options :=
  let inst := named args.instanceName []
  let defaults := setItem "instance" inst (setItem "confdpattern"
    (joinStep (args.configfile ++ (".d" : Str)) "*.conf") (setItem "configdir"
      (splitHead args.configfile) (setItem "hostname" host.hostname ∅)))
  defaultPaths.foldl (fun defaults path =>
    setItem path.1 (abspath host.cwd (formatted inst path.2)) defaults) defaults

/-! ### The parser -/

/-- An environment variable that the parser is told: `set(v)` and `'\r\n\x00'`
    have nothing in common. -/
def carried (value : Str) : Bool :=
  value.all (fun c => decide (c ≠ '\r' ∧ c ≠ '\n' ∧ c ≠ '\x00'))

/-- `create_parser`. -/
def createParser (host : Host) (defaults : Options) : Except ParserError Parser := do
  let parser ← (Parser.ofDefaults defaults).addSection "ENV"
  let parser ← host.environ.entries.foldlM (fun parser e =>
    if carried e.2 then parser.set "ENV" e.1 (escaped e.2) else .ok parser) parser
  let parser ← parser.addSection "global"
  let parser ← parser.set "global" "auditlog" "$\x7blogdir\x7d/audit.log"
  let parser ← parser.set "global" "debug" "false"
  let parser ← parser.set "global" "umask" "027"
  parser.set "global" "makedirs" "false"

/-- `read_configs`: the configuration file, and the files of its directory,
    which `glob` finds by their pattern. -/
def readConfigs (args : Args) (file : Source) (glob : Str → List (Str × Source))
    (parser : Parser) : Except ParserError (Parser × List Str) := do
  let parser := parser.readFile file
  let pattern ← parser.get defaultSection "confdpattern"
  if pattern = [] then return (parser, [args.configfile])
  let found := (glob pattern).insertionSort (fun a b => a.1 ≤ b.1)
  return (found.foldl (fun parser f => parser.readFile f.2) parser,
    args.configfile :: found.map Prod.fst)

/-! ### The settings -/

/-- `config`, without the plugins: the settings as texts, and those that are
    converted or computed from others, the URL of the server among them. -/
structure Config where
  settings : Options
  tlsVerifyClient : Bool
  debug : Bool
  makedirs : Bool
  auditlog : Str
  umask : Int
  serverUrl : Option Str

/-- The loop over the options of `[global]`. -/
def settingsOf : List (Str × Str) → Options → Except ConfigError Options
  | [], settings => .ok settings
  | (opt, val) :: items, settings =>
      if opt ∈ configSpecials then
        .error (.valueError (("\"" : Str) ++ opt ++ ("\" is an invalid [global] option" : Str)))
      else settingsOf items (setItem opt val settings)

/-- The socket by its path: as it is set, or in `socketdir` under the name of
    the instance. -/
def socketOf (args : Args) (parser : Parser) (url sock : Option Str) :
    Except ConfigError (Option Str) :=
  let given (text : Option Str) : Bool := text.any (fun s => decide (s ≠ []))
  if given url ∧ given sock then
    .error (.valueError "'server_url' and 'server_socket' are mutually exclusive.")
  else if given url then .ok none
  else if given sock then .ok sock
  else do
    let socketdir ← ofParser (parser.get defaultSection "socketdir")
    return some (joinStep socketdir (named args.instanceName "custodia" ++ (".sock" : Str)))

/-- `'http+unix://'`. -/
def unixScheme : Str := "http+unix://"

/-- `'http+unix://{}/'.format(url_escape(server_socket, ''))`. -/
def socketUrl (path : Str) : Str := unixScheme ++ quote [] path ++ ("/" : Str)

/-- `os.path.abspath(config.get('auditlog'))`. -/
def auditlogOf (host : Host) (settings : Options) : Except ConfigError Str :=
  match settings.lookup ("auditlog" : Str) with
  | none => .error (.typeError "expected str, bytes or os.PathLike object, not NoneType")
  | some path => .ok (abspath host.cwd path)

/-- `int(config.get('umask', '027'), 8)`. -/
def umaskOf (conv : Conversions) (settings : Options) : Except ConfigError Int :=
  match conv.int 8 ((settings.lookup ("umask" : Str)).getD "027") with
  | none => .error (.valueError "invalid literal for int() with base 8")
  | some n => .ok n

/-- `populate_config`. -/
def populateConfig (conv : Conversions) (host : Host) (args : Args) (parser : Parser) :
    Except ConfigError Config := do
  let items ← ofParser (parser.items "global")
  let settings ← settingsOf items ∅
  let tlsVerifyClient ← ofParser (parser.getBoolean "global" "tls_verify_client" false)
  let debug ← ofParser (parser.getBoolean "global" "debug" false)
  let makedirs ← ofParser (parser.getBoolean "global" "makedirs" false)
  let auditlog ← auditlogOf host settings
  let umask ← umaskOf conv settings
  let sock ← socketOf args parser (settings.lookup ("server_url" : Str))
    (settings.lookup ("server_socket" : Str))
  return {
    settings := settings
    tlsVerifyClient := tlsVerifyClient
    debug := debug || args.debug
    makedirs := makedirs
    auditlog := auditlog
    umask := umask
    serverUrl := match sock with
      | some path => some (socketUrl (abspath host.cwd path))
      | none => settings.lookup ("server_url" : Str) }

/-! ## URLs -/

/-- The parts of an URL that tell where a server is: the scheme, which chooses
    the server class, and the location, a host or the quoted path of a socket. -/
structure Url where
  scheme : Str
  netloc : Str
  deriving DecidableEq

/-- The characters that a scheme is made of. -/
def schemeChar (c : Char) : Bool := c.isAlphanum || c == '+' || c == '-' || c == '.'

/-- The scheme of an URL, and what follows its colon. -/
def splitScheme (url : Str) : Str × Str :=
  let scheme := url.takeWhile (fun c => decide (c ≠ ':'))
  if ':' ∈ url ∧ scheme.head?.any Char.isAlpha = true ∧ scheme.all schemeChar = true then
    (lower scheme, url.drop (scheme.length + 1))
  else ([], url)

/-- What `urlsplit` does not read: what is not printed before an URL, and the
    ends of lines in it. -/
def cleaned (url : Str) : Str :=
  (url.dropWhile (fun c => decide (c.toNat ≤ 0x20))).filter
    (fun c => decide (c ≠ '\t' ∧ c ≠ '\r' ∧ c ≠ '\n'))

/-- `_splitnetloc`, of an URL without its scheme. -/
def splitNetloc (rest : Str) : Str :=
  if ['/', '/'] <+: rest then
    (rest.drop 2).takeWhile (fun c => decide (c ≠ '/' ∧ c ≠ '?' ∧ c ≠ '#'))
  else []

/-- `urlparse`, as far as the scheme and the location. -/
def urlparse (url : Str) : Except ConfigError Url :=
  let split := splitScheme (cleaned url)
  let netloc := splitNetloc split.2
  if ('[' ∈ netloc) ↔ (']' ∈ netloc) then .ok ⟨split.1, netloc⟩
  else .error (.valueError "Invalid IPv6 URL")

/-! ## The server -/

/-- Where a server listens, and which server class does: at the path of a
    socket, or at a host and a port, with or without TLS. -/
inductive Address where
  | unix (path : Str)
  | inet (tls : Bool) (host : Str) (port : Int)
  deriving DecidableEq

/-- The host and the port of an address. -/
def inetAddress (conv : Conversions) (tls : Bool) (netloc : Str) : Except ConfigError Address :=
  match netloc.splitOn ':' with
  | [host, port] =>
      match conv.int 10 port with
      | none => .error (.valueError "invalid literal for int() with base 10")
      | some n => .ok (.inet tls host n)
  | _ => .error (.valueError "not two values to unpack")

/-- `_get_serverclass`. -/
def getServerclass (conv : Conversions) (url : Url) : Except ConfigError Address :=
  if url.scheme = "http+unix" then
    if unquote url.netloc = [] then .error (.valueError "Empty address")
    else .ok (.unix (unquote url.netloc))
  else if url.scheme = "http" then inetAddress conv false url.netloc
  else if url.scheme = "https" then inetAddress conv true url.netloc
  else .error (.valueError (("Unknown URL Scheme: " : Str) ++ url.scheme))

/-- `HTTPServer(config['server_url'], config)`, without systemd. -/
def serverAddress (conv : Conversions) (config : Config) : Except ConfigError Address :=
  match config.serverUrl with
  | none => .error (.typeError "server_url")
  | some url => do getServerclass conv (← urlparse url)

/-! ## The command line client -/

/-- `instance_name` of the server and `instance_check` of the client. -/
def instanceCheck (arg : Str) : Bool :=
  arg.all (fun c => decide (c ≠ ':' ∧ c ≠ '/' ∧ c ≠ '@'))

/-- `server_check`. -/
def serverCheck (cwd arg : Str) : Option Str :=
  if ("http://" : Str) <+: arg ∨ ("https://" : Str) <+: arg ∨ unixScheme <+: arg then some arg
  else if ("./" : Str) <+: arg then some (unixScheme ++ quote [] (abspath cwd arg))
  else if isAbsolute arg = false then none
  else some (unixScheme ++ quote [] arg)

/-- The arguments that tell the client where the server is: `--server` after
    `server_check`, if it is given, and the name of an instance, which has a
    default. -/
structure CliArgs where
  server : Option Str
  instanceName : Str
  udsUrlpath : Str

/-- `args.server` at the end of `parse_args`. -/
def cliServer (args : CliArgs) : Str :=
  let server := named args.server (unixScheme
    ++ quote [] (("/var/run/custodia/" : Str) ++ args.instanceName ++ (".sock" : Str)))
  if unixScheme <+: server ∧ endsInSlash server = false then
    server ++ (if isAbsolute args.udsUrlpath then args.udsUrlpath else slash :: args.udsUrlpath)
  else server

/-- `CustodiaSimpleClient(args.server)`. -/
def cliClient (args : CliArgs) : CustodiaHTTPClient := ⟨cliServer args, defaultHeaders⟩

/-- `HTTPUnixAdapter.get_connection`: the path of the socket. -/
def getConnection (url : Str) : Except ConfigError Str := do
  let parts ← urlparse url
  return unquote parts.netloc

end Configuration
