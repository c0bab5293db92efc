import Mathlib.Data.Rat.Defs
import Mathlib.Algebra.Order.Ring.Unbundled.Rat
import Custodia.Doubles
import Custodia.PosixPath
import Custodia.Unquote

/-! # PyValues — the Python values the handlers pass around

    JSON as `json.loads` produces it, the values an SQLite column holds, the
    exceptions of the program, and the few text functions of the standard
    library that the handlers call. -/

namespace PyValues

open PosixPath Unquote

instance : Coe String Str := ⟨String.toList⟩

/-! ## JSON -/

/-- A Python string. `broken` ones, given by their code units, hold lone
    surrogates: a JSON escape can spell them, but no text that is encoded can,
    so `encode` raises on them. -/
inductive PyStr where
  | text (s : Str)
  | broken (units : List Nat)
  deriving DecidableEq

/-- A Python float: NaN, one of the two infinities, or a number, which is kept
    as the rational that it is. `Doubles.round` says which rationals are
    doubles, and what a computation makes of the others. -/
inductive PyFloat where
  | nan
  | inf (negative : Bool)
  | finite (q : ℚ)
  deriving DecidableEq

/-- What `json.loads` can produce, and what is built of it. A dictionary is
    the list of its items; see `Json.Spellable` for what this leaves open. -/
inductive Json where
  | null
  | bool (b : Bool)
  | int (n : Int)
  | float (x : PyFloat)
  | str (s : PyStr)
  | arr (items : List Json)
  | obj (fields : List (PyStr × Json))

namespace Json

/-- A string without surrogates. -/
abbrev ofText (s : Str) : Json := .str (.text s)

/-- `fields[name]`, if it is there. -/
def lookup (fields : List (PyStr × Json)) (name : Str) : Option Json :=
  match fields with
  | [] => none
  | (k, v) :: rest => if k = .text name then some v else lookup rest name

/-- `value == text`. -/
def isText (value : Json) (text : Str) : Bool :=
  match value with
  | .str s => decide (s = .text text)
  | _ => false

theorem isText_iff {value : Json} {t : Str} : value.isText t = true ↔ value = ofText t := by
  cases value <;> simp [isText]

/-- The name of the type, as Python writes it in its own messages. -/
def typeName : Json → Str
  | .null => "NoneType"
  | .bool _ => "bool"
  | .int _ => "int"
  | .float _ => "float"
  | .str _ => "str"
  | .arr _ => "list"
  | .obj _ => "dict"

end Json

/-! ### What JSON text can spell -/

/-- The first half of a pair of surrogates. -/
def HighSurrogate (u : Nat) : Prop := 0xD800 ≤ u ∧ u < 0xDC00

/-- The second half of a pair of surrogates. -/
def LowSurrogate (u : Nat) : Prop := 0xDC00 ≤ u ∧ u < 0xE000

/-- A string that is read as it was written. A pair of surrogates is not: it
    is read as one character. -/
inductive PyStr.Spellable : PyStr → Prop where
  | text (s : Str) : Spellable (.text s)
  | broken (units : List Nat) (lone : ∃ u ∈ units, HighSurrogate u ∨ LowSurrogate u)
      (unpaired : units.IsChain (fun u v => ¬ (HighSurrogate u ∧ LowSurrogate v))) :
      Spellable (.broken units)

/-- A float that is a double, so that its shortest text is read as the same
    number again. NaN and the infinities have spellings of their own in Python's
    JSON. -/
inductive PyFloat.Spellable : PyFloat → Prop where
  | nan : Spellable .nan
  | inf (negative : Bool) : Spellable (.inf negative)
  | finite (q : ℚ) (double : Doubles.IsDouble q) : Spellable (.finite q)

/-- A value that is read as it was written: its numbers are doubles, its
    strings hold no pair of surrogates, and no dictionary has a name twice. -/
inductive Json.Spellable : Json → Prop where
  | null : Spellable .null
  | bool (b : Bool) : Spellable (.bool b)
  | int (n : Int) : Spellable (.int n)
  | float (x : PyFloat) (h : x.Spellable) : Spellable (.float x)
  | str (s : PyStr) (h : s.Spellable) : Spellable (.str s)
  | arr (items : List Json) (h : ∀ item ∈ items, Spellable item) : Spellable (.arr items)
  | obj (fields : List (PyStr × Json)) (names : (fields.map Prod.fst).Nodup)
      (spelled : ∀ f ∈ fields, f.1.Spellable) (h : ∀ f ∈ fields, Spellable f.2) :
      Spellable (.obj fields)

/-- What JSON carries. -/
abbrev JsonValue := { value : Json // value.Spellable }

/-! ## Numbers -/

/-- A number as Python computes with it: integers and booleans are exact, the
    results of floats are rounded. Comparisons between the two are exact, and
    false for NaN. -/
inductive PyNumber where
  | int (n : Int)
  | float (x : PyFloat)

/-- The number that a value is, if it is one. -/
def Json.number? : Json → Option PyNumber
  | .bool b => some (.int (if b then 1 else 0))
  | .int n => some (.int n)
  | .float x => some (.float x)
  | .null => none
  | .str _ => none
  | .arr _ => none
  | .obj _ => none

/-- `x - d`, for an integer that is itself a double and too small for an
    overflow. -/
def PyFloat.minus (x : PyFloat) (d : Int) : PyFloat :=
  match x with
  | .finite q => .finite (Doubles.round (q - d))
  | .inf negative => .inf negative
  | .nan => .nan

/-- `x > n`; never true of NaN. -/
def PyFloat.gt (x : PyFloat) (n : Int) : Bool :=
  match x with
  | .finite q => decide ((n : ℚ) < q)
  | .inf negative => !negative
  | .nan => false

/-- `x < n`; never true of NaN. -/
def PyFloat.lt (x : PyFloat) (n : Int) : Bool :=
  match x with
  | .finite q => decide (q < (n : ℚ))
  | .inf negative => negative
  | .nan => false

namespace PyNumber

/-- `x - d`. -/
def minus (x : PyNumber) (d : Int) : PyNumber :=
  match x with
  | .int n => .int (n - d)
  | .float x => .float (x.minus d)

/-- The number as it is compared, which is exact. -/
def exact : PyNumber → PyFloat
  | .int n => .finite n
  | .float x => x

/-- `x > n`. -/
def gt (x : PyNumber) (n : Int) : Bool := x.exact.gt n

/-- `x < n`. -/
def lt (x : PyNumber) (n : Int) : Bool := x.exact.lt n

end PyNumber

/-! ## Exceptions -/

/-- The exception classes the program raises or catches. `other` are those of
    libraries, which no `except` clause of the program names, so that only the
    handler of the server ends them. -/
inductive ExcClass where
  | csStoreError
  | csStoreExists
  | csStoreUnsupported
  | csStoreDenied
  | invalidMessage
  | unknownMessageType
  | unallowedMessage
  | unknownPublicKey
  | notFound
  | duplicateEntry
  | authorizationError
  | valueError
  | typeError
  | plain
  | other
  deriving DecidableEq

/-- An exception: an `HTTPError` with its code and message, which the server
    answers as they are, or an instance of another class with its text, which is
    answered with 500. -/
inductive Exc where
  | http (code : Nat) (mesg : Option Str)
  | py (cls : ExcClass) (text : Str)
  deriving DecidableEq

/-- The decimal digits of a number. -/
def decimal (n : Nat) : Str := Nat.toDigits 10 n

/-- `str(e)`. -/
def Exc.str : Exc → Str
  | .http code mesg => decimal code ++ (": " : Str) ++ mesg.getD "None"
  | .py _ text => text

/-- `isinstance(e, cls)`. -/
def Exc.isA (e : Exc) (cls : ExcClass) : Bool :=
  match e with
  | .http _ _ => false
  | .py c _ => decide (c = cls)

/-- A computation in sequence succeeds when both of its parts do. -/
theorem bind_ok {α β : Type} {x : Except Exc α} {f : α → Except Exc β} {b : β}
    (h : x >>= f = .ok b) : ∃ a, x = .ok a ∧ f a = .ok b := by
  cases x with
  | error e => exact nomatch h
  | ok a => exact ⟨a, rfl, h⟩

/-- An exception of library code, with its class and text. It is never an
    `HTTPError`, as no library knows that class, so the server never answers it
    as one. -/
structure Fault where
  cls : ExcClass
  text : Str

/-- The exception of a fault. -/
def failure (f : Fault) : Exc := .py f.cls f.text

/-- A library call: its exceptions are passed on. -/
def raised {α : Type} (r : Except Fault α) : Except Exc α :=
  r.mapError (fun f => .py f.cls f.text)

theorem raised_ok {α : Type} {r : Except Fault α} {a : α} (h : raised r = .ok a) : r = .ok a := by
  cases r with
  | error f => exact nomatch h
  | ok b => exact congrArg _ (Except.ok.inj h)

theorem raised_error {α : Type} {r : Except Fault α} {e : Exc} (h : raised r = .error e) :
    ∃ cls text, e = .py cls text := by
  cases r with
  | error f => exact ⟨f.cls, f.text, (Except.error.inj h).symm⟩
  | ok a => exact nomatch h

/-- Whatever the computation raises, it is not an `HTTPError`. -/
def RaisesPy {α : Type} (x : Except Exc α) : Prop :=
  ∀ e, x = .error e → ∃ cls text, e = .py cls text

theorem raisesPy_ok {α : Type} (a : α) : RaisesPy (.ok a : Except Exc α) :=
  fun _ h => nomatch h

theorem raisesPy_py {α : Type} (cls : ExcClass) (text : Str) :
    RaisesPy (.error (.py cls text) : Except Exc α) :=
  fun _ h => ⟨cls, text, (Except.error.inj h).symm⟩

theorem raisesPy_raised {α : Type} (r : Except Fault α) : RaisesPy (raised r) :=
  fun _ h => raised_error h

theorem raisesPy_bind {α β : Type} {x : Except Exc α} {f : α → Except Exc β} (hx : RaisesPy x)
    (hf : ∀ a, RaisesPy (f a)) : RaisesPy (x >>= f) := by
  intro e h
  cases x with
  | error e' => exact hx e (congrArg Except.error (Except.error.inj h))
  | ok a => exact hf a e h

/-! ## What a database column holds -/

/-- A value in an SQLite column, as a row of the table holds it and a `get`
    returns it; `null` is Python's `None`. A program that asks for its length
    raises on anything but a text. -/
inductive SqlValue where
  | null
  | integer (n : Int)
  | real (x : PyFloat)
  | text (s : Str)
  deriving DecidableEq

/-- `not value`. -/
def SqlValue.falsy : SqlValue → Bool
  | .null => true
  | .integer n => decide (n = 0)
  | .real x => decide (x = .finite 0)
  | .text s => decide (s = [])

/-- The value as it appears in a JSON reply. -/
def SqlValue.toJson : SqlValue → Json
  | .null => .null
  | .integer n => .int n
  | .real x => .float x
  | .text s => .ofText s

/-- `len(value)`. -/
def SqlValue.len : SqlValue → Except Exc Nat
  | .text s => .ok s.length
  | .null => .error (.py .typeError "object of type 'NoneType' has no len()")
  | .integer _ => .error (.py .typeError "object of type 'int' has no len()")
  | .real _ => .error (.py .typeError "object of type 'float' has no len()")

/-- Binding a Python object to an SQL parameter. Integers beyond 64 bits and
    lone surrogates raise errors that are not `sqlite3.Error`; NaN becomes
    NULL; containers are an `sqlite3.Error`, which the store reports. -/
def bindValue (errText : Str) : Json → Except Exc SqlValue
  | .null => .ok .null
  | .bool b => .ok (.integer (if b then 1 else 0))
  | .int n =>
      if -2 ^ 63 ≤ n ∧ n < 2 ^ 63 then .ok (.integer n)
      else .error (.py .other "Python int too large to convert to SQLite INTEGER")
  | .float .nan => .ok .null
  | .float (.inf negative) => .ok (.real (.inf negative))
  | .float (.finite q) => .ok (.real (.finite q))
  | .str (.text s) => .ok (.text s)
  | .str (.broken _) => .error (.py .valueError "surrogates not allowed")
  | .arr _ => .error (.py .csStoreError errText)
  | .obj _ => .error (.py .csStoreError errText)

@[simp] theorem bindValue_ofText (errText s : Str) :
    bindValue errText (.ofText s) = .ok (.text s) := rfl

/-! ## Text functions -/

/-- `'/'.join(trail)`. -/
def joinSlash (trail : List Str) : Str := SeparatedNames.spell slash trail

/-- `c.isspace()`. -/
def isSpace (c : Char) : Bool :=
  let n := c.toNat
  decide ((9 ≤ n ∧ n ≤ 13) ∨ (28 ≤ n ∧ n ≤ 32) ∨ n = 0x85 ∨ n = 0xA0 ∨ n = 0x1680
    ∨ (0x2000 ≤ n ∧ n ≤ 0x200A) ∨ n = 0x2028 ∨ n = 0x2029 ∨ n = 0x202F ∨ n = 0x205F
    ∨ n = 0x3000)

/-- `s.strip()`. -/
def strip (s : Str) : Str := (s.dropWhile isSpace).rdropWhile isSpace

/-- `s.lower()` on the ASCII letters. -/
def lower (s : Str) : Str := s.map Char.toLower

/-- `s.split(sep)[0]`. -/
def splitFirst (sep : Char) (s : Str) : Str := (s.splitOn sep).headD []

/-! ## Base 64 -/

/-- The digit of a 6-bit number. -/
def base64Digit (n : Nat) : Char :=
  if n < 26 then Char.ofNat (0x41 + n)
  else if n < 52 then Char.ofNat (0x61 + (n - 26))
  else if n < 62 then Char.ofNat (0x30 + (n - 52))
  else if n = 62 then '+'
  else '/'

/-- The 6-bit number of a digit. -/
def base64Value (c : Char) : Option Nat :=
  let n := c.toNat
  if 0x41 ≤ n ∧ n ≤ 0x5A then some (n - 0x41)
  else if 0x61 ≤ n ∧ n ≤ 0x7A then some (n - 0x61 + 26)
  else if 0x30 ≤ n ∧ n ≤ 0x39 then some (n - 0x30 + 52)
  else if c = '+' then some 62
  else if c = '/' then some 63
  else none

/-- `b64encode(data).decode('utf-8')`. -/
def b64encode : List Byte → Str
  | [] => []
  | [a] => [base64Digit (a / 4), base64Digit (a % 4 * 16), '=', '=']
  | [a, b] =>
      [base64Digit (a / 4), base64Digit (a % 4 * 16 + b / 16), base64Digit (b % 16 * 4), '=']
  | a :: b :: c :: rest =>
      base64Digit (a / 4) :: base64Digit (a % 4 * 16 + b / 16)
        :: base64Digit (b % 16 * 4 + c / 64) :: base64Digit (c % 64) :: b64encode rest

/-- The loop of `binascii.a2b_base64`: `quad` digits of the current group are
    read, `left` holds their unused bits, `pads` the padding seen. Characters
    outside the alphabet are skipped. -/
def b64decodeFrom (quad left pads : Nat) : Str → Except Exc (List Byte)
  | [] =>
      if quad = 0 then .ok []
      else if quad = 1 then
        .error (.py .valueError "Invalid base64-encoded string")
      else .error (.py .valueError "Incorrect padding")
  | c :: s =>
      if c = '=' then
        if 2 ≤ quad ∧ 4 ≤ quad + (pads + 1) then .ok []
        else b64decodeFrom quad left (if 2 ≤ quad then pads + 1 else pads) s
      else
        match base64Value c with
        | none => b64decodeFrom quad left pads s
        | some v =>
            match quad with
            | 0 => b64decodeFrom 1 v 0 s
            | 1 => (b64decodeFrom 2 (v % 16) 0 s).map ((left * 4 + v / 16) :: ·)
            | 2 => (b64decodeFrom 3 (v % 4) 0 s).map ((left * 16 + v / 4) :: ·)
            | _ => (b64decodeFrom 0 0 0 s).map ((left * 64 + v) :: ·)

/-- `b64decode(text)`. -/
def b64decode (s : Str) : Except Exc (List Byte) :=
  if s.all (fun c => decide (c.toNat < 0x80)) then b64decodeFrom 0 0 0 s
  else .error (.py .valueError "string argument should contain only ASCII characters")

end PyValues
