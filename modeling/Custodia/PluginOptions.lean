import Mathlib.Data.Char
import Mathlib.Data.List.Lex
import Mathlib.Data.List.Sort
import Custodia.ConfigParser

/-! # PluginOptions — the options of a plugin and their values

    A plugin class declares its options. For each of them the option handler
    reads the section of the plugin, converts what it finds by the type of the
    option, and falls back on a default; what the section sets beyond the
    declared options is an error.

    * `OptionHandler`: one look-up, and the surplus;
    * `configure`: all options of a plugin;
    * `collectOptions`: the options of a class, as its metaclass collects
      them. -/

namespace PluginOptions

open PosixPath PyValues ConfigParser

/-- The value of an option, as the plugin gets it. Sets have no order in the
    program, so theirs is left open here. -/
inductive OptionValue where
  | none
  | bool (b : Bool)
  | int (n : Int)
  | float (x : PyFloat)
  | str (s : Str)
  | strSet (values : List Str)
  | strList (values : List Str)
  | regex (pattern : Str)
  | json (value : Json)

/-- The supported value types, each with a getter of its own. An option of
    another type cannot be declared here. -/
inductive OptionType where
  | int | oct | hex | float | bool | regex | str | strSet | strList | store
  | pwdUid | grpGid | json
  deriving DecidableEq

/-- What is taken where an option is not set: nothing, so that it must be; the
    value of `[global]`, or else a value; or a value. -/
inductive OptionDefault where
  | required
  | inheritGlobal (value : OptionValue)
  | value (value : OptionValue)

/-- `PluginOption`: the name of an option, under which the section sets it and
    the plugin has its attribute, its type and its default. -/
structure PluginOption where
  name : Str
  typ : OptionType
  default : OptionDefault

/-- An exception while a plugin is made: of the parser, of a conversion or of
    the plugin itself, and around them those that say for which section it was. -/
inductive PluginError where
  | parser (e : ParserError)
  | nameError (name option : Str)
  | valueError (text : Str)
  | typeError (text : Str)
  | library (text : Str)
  | invalidHandler (e : PluginError) (name : Str)
  | runtimeError (menu : Str) (name : List Str) (e : PluginError)

/-- The functions of the standard library and of the system that convert. Each
    may refuse a text; nothing more is assumed of them. -/
structure Library where
  int : Nat → Str → Option Int
  float : Str → Option PyFloat
  compile : Str → Except Str Unit
  loads : Str → Except Str Json
  getpwnam : Str → Option Int
  getgrnam : Str → Option Int

/-- A call to the parser. -/
def ofParser {α : Type} (r : Except ParserError α) : Except PluginError α :=
  r.mapError PluginError.parser

/-! ## Converting -/

section Convert

variable (lib : Library)

/-- `int(value, base)`. -/
def toInt (base : Nat) : OptionValue → Except PluginError OptionValue
  | .str text =>
      match lib.int base text with
      | some n => .ok (.int n)
      | none => .error (.valueError "invalid literal for int()")
  | _ => .error (.typeError "int() can't convert non-string with explicit base")

/-- `float(value)`. -/
def toFloat (text : Str) : Except PluginError OptionValue :=
  match lib.float text with
  | some x => .ok (.float x)
  | none => .error (.valueError "could not convert string to float")

/-- `not value`. -/
def falsy : OptionValue → Bool
  | .none => true
  | .bool b => !b
  | .int n => decide (n = 0)
  | .float x => decide (x = .finite 0)
  | .str s => decide (s = [])
  | .strSet values => decide (values = [])
  | .strList values => decide (values = [])
  | .regex _ => false
  | .json value => match value with
      | .null => true
      | _ => false

/-- `re.compile(value)`, unless there is none. -/
def toRegex (value : OptionValue) : Except PluginError OptionValue :=
  if falsy value then .ok .none
  else match value with
    | .str pattern => ((lib.compile pattern).mapError PluginError.library).map
        (fun _ => .regex pattern)
    | .regex pattern => .ok (.regex pattern)
    | _ => .error (.typeError "first argument must be string or compiled pattern")

/-- `_split_string`. -/
def splitString (value : Str) : List Str :=
  (((if ',' ∈ value then value.splitOn ',' else value.splitOn ' ').map strip).filter
    (fun v => decide (v ≠ [])))

/-- `int(value)`, or the number of a name. -/
def toId (getnam : Str → Option Int) : OptionValue → Except PluginError OptionValue
  | .int n => .ok (.int n)
  | .bool b => .ok (.int (if b then 1 else 0))
  | .str name =>
      match lib.int 10 name with
      | some n => .ok (.int n)
      | none =>
          match getnam name with
          | some n => .ok (.int n)
          | none => .error (.library (("name not found: " : Str) ++ name))
  | _ => .error (.typeError "int() argument must be a string or a number")

/-- `json.loads(value)`. -/
def toJson : OptionValue → Except PluginError OptionValue
  | .str text => ((lib.loads text).mapError PluginError.library).map OptionValue.json
  | _ => .error (.typeError "the JSON object must be str, bytes or bytearray")

end Convert

/-! ## The option handler -/

/-- `OptionHandler`: the parser, the section, and the names that were asked for,
    by which it can tell what is surplus in the end. -/
structure OptionHandler where
  parser : Parser
  sectionName : Str
  seen : List Str

namespace OptionHandler

/-- `OptionHandler(parser, section)`. -/
def init (parser : Parser) (sectionName : Str) : OptionHandler := ⟨parser, sectionName, ["handler"]⟩

variable (lib : Library) (parser : Parser)

/-- The text of an option, if it is set. -/
def textOf (name option : Str) : Except PluginError (Option Str) :=
  match parser.getRaw name option with
  | .error _ => .ok none
  | .ok _ => (ofParser (parser.get name option)).map some

/-- A getter that converts the text, and gives the default as it is. -/
def getConverted (conv : Str → Except PluginError OptionValue) (name option : Str)
    (default : OptionValue) : Except PluginError OptionValue := do
  match ← textOf parser name option with
  | none => return default
  | some text => conv text

/-- A getter that converts the text, or the default. -/
def getValue (conv : OptionValue → Except PluginError OptionValue) (name option : Str)
    (default : OptionValue) : Except PluginError OptionValue := do
  match ← textOf parser name option with
  | none => conv default
  | some text => conv (.str text)

/-- A getter of several words; only a missing option is caught, and no words
    are `None`. -/
def getWords (conv : List Str → OptionValue) (name option : Str) (default : OptionValue) :
    Except PluginError OptionValue :=
  match parser.getRaw name option with
  | .error (.noOption _ _) => .ok default
  | .error e => .error (.parser e)
  | .ok _ => do
      let value ← ofParser (parser.get name option)
      return if strip value = [] then .none else conv (splitString value)

/-- `_get_int`. -/
def getInt := getConverted parser (fun text => toInt lib 10 (.str text))

/-- `_get_oct`. -/
def getOct := getValue parser (toInt lib 8)

/-- `_get_hex`. -/
def getHex := getValue parser (toInt lib 16)

/-- `_get_float`. -/
def getFloat := getConverted parser (toFloat lib)

/-- `_get_bool`. -/
def getBool := getConverted parser
  (fun text => (ofParser (Parser.convertToBoolean text)).map OptionValue.bool)

/-- `_get_regex`. -/
def getRegex := getValue parser (toRegex lib)

/-- `_get_str`. -/
def getStr := getValue parser .ok

/-- `_get_str_set`. -/
def getStrSet := getWords parser (fun values => .strSet values.dedup)

/-- `_get_str_list`. -/
def getStrList := getWords parser .strList

/-- `_get_store`. -/
def getStore := getValue parser .ok

/-- `_get_pwd_uid`. -/
def getPwdUid := getValue parser (toId lib lib.getpwnam)

/-- `_get_grp_gid`. -/
def getGrpGid := getValue parser (toId lib lib.getgrnam)

/-- `_get_json`. -/
def getJson := getValue parser (toJson lib)

/-- `getattr(self, '_get_{}'.format(typ))`. -/
def getter : OptionType → Str → Str → OptionValue → Except PluginError OptionValue
  | .int => getInt lib parser
  | .oct => getOct lib parser
  | .hex => getHex lib parser
  | .float => getFloat lib parser
  | .bool => getBool parser
  | .regex => getRegex lib parser
  | .str => getStr parser
  | .strSet => getStrSet parser
  | .strList => getStrList parser
  | .store => getStore parser
  | .pwdUid => getPwdUid lib parser
  | .grpGid => getGrpGid lib parser
  | .json => getJson lib parser

/-- The value of an option of a section. -/
def read (name : Str) (po : PluginOption) : Except PluginError OptionValue :=
  let getter := getter lib parser po.typ
  if parser.hasOption name po.name then
    match po.default with
    | .required => getter name po.name .none
    | .inheritGlobal _ => getter name po.name .none
    | .value default => getter name po.name default
  else
    match po.default with
    | .required => .error (.nameError name po.name)
    | .inheritGlobal default => getter "global" po.name default
    | .value default => getter name po.name default

/-- `get`. -/
def get (handler : OptionHandler) (po : PluginOption) :
    Except PluginError (OptionValue × OptionHandler) := do
  let value ← read lib handler.parser handler.sectionName po
  return (value, { handler with seen := po.name :: handler.seen })

/-- `check_surplus`. -/
def checkSurplus (handler : OptionHandler) : Except PluginError (List Str) := do
  let items ← ofParser (handler.parser.items handler.sectionName)
  return (items.map Prod.fst).filter (fun name =>
    decide (name ∉ handler.seen) && !handler.parser.hasOption defaultSection name)

end OptionHandler

/-! ## Plugins -/

/-- The attributes that a plugin gets from its options, in the order of the
    options, and `store_name`, which an option for a store sets in place of an
    attribute. -/
structure Settings where
  attributes : List (Str × OptionValue)
  storeName : Option OptionValue

/-- The value of one option becomes an attribute; that of a store is its
    name, and the option has to be called `store`. -/
def Settings.assign (settings : Settings) (option : PluginOption) (value : OptionValue) :
    Except PluginError Settings :=
  if option.typ = .store then
    if option.name ≠ "store" then .error (.valueError option.name)
    else .ok { settings with storeName := some value }
  else .ok { settings with attributes := settings.attributes ++ [(option.name, value)] }

/-- The loop of `_configure` over the options. -/
def configureOptions (lib : Library) : List PluginOption → OptionHandler → Settings →
    Except PluginError (OptionHandler × Settings)
  | [], handler, settings => .ok (handler, settings)
  | option :: options, handler, settings => do
      let (value, handler) ← handler.get lib option
      let settings ← settings.assign option value
      configureOptions lib options handler settings

/-- The names in the text of an error. -/
def listed : List Str → Str
  | [] => []
  | [name] => ("'" : Str) ++ name ++ ("'" : Str)
  | name :: names => ("'" : Str) ++ name ++ ("', " : Str) ++ listed names

/-- `_configure` of a plugin with options. -/
def configure (lib : Library) (options : List PluginOption) (parser : Parser)
    (sectionName : Str) : Except PluginError Settings := do
  let (handler, settings) ←
    configureOptions lib options (OptionHandler.init parser sectionName) ⟨[], none⟩
  let surplus ← handler.checkSurplus
  if surplus = [] then return settings
  else .error (.valueError (("Surplus options in " : Str) ++ sectionName ++ (": [" : Str)
    ++ listed surplus ++ ("]" : Str)))

/-- The option that every plugin has. -/
def debugOption : PluginOption := ⟨"debug", .bool, .inheritGlobal (.bool false)⟩

/-- The options of a class, as its metaclass collects them: by their names. -/
def collectOptions (declared : List PluginOption) : List PluginOption :=
  (if declared.any (fun po => decide (po.name = "debug")) then declared
    else debugOption :: declared).insertionSort (fun a b => a.name ≤ b.name)

end PluginOptions
