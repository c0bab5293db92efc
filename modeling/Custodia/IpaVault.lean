import Mathlib.Data.List.AList
import Custodia.PyValues
import Custodia.Replacement
import Custodia.FaultyService

/-! # IpaVault — secrets in the vaults of an IPA server

    The vaults of one owner are a map from names to optional contents: adding
    a vault and archiving data in it are TWO commands. `IPAVault` names the
    vault of a key by spelling its slashes as two underscores.

    * `serve`: the commands of the server, any of which may also fail;
    * `set`, `get`, `list`, `cut`: the methods of the store, over them. -/

namespace IpaVault

open Interaction PosixPath PyValues Unquote FaultyService

/-! ## The server -/

/-- The vaults of the configured owner, by name. -/
abbrev Vaults := AList (fun _ : Str => Option (List Byte))

/-- The commands the store issues, each of which is one call of the server and
    may fail on its own. The vault type and the owner are the same in all of
    them. -/
inductive VaultCommand where
  | add (name : Str)
  | archive (name : Str) (data : List Byte)
  | retrieve (name : Str)
  | find
  | del (name : Str)

/-- What the store uses of the result of a command. -/
@[reducible] def VaultCommand.Ans : VaultCommand → Type
  | .add _ => Unit
  | .archive _ _ => Unit
  | .retrieve _ => List Byte
  | .find => List Str
  | .del _ => Unit

/-- `NotFound` for a name. -/
def noVault (name : Str) : Exc := .py .notFound (name ++ (": vault not found" : Str))

/-- `DuplicateEntry` for a name. -/
def vaultTaken (name : Str) : Exc :=
  .py .duplicateEntry (("vault with name \"" : Str) ++ name ++ ("\" already exists" : Str))

/-- A command that is carried out. -/
def serve : (o : VaultCommand) → Vaults → Except Exc o.Ans × Vaults
  | .add name, vs =>
      if name ∈ vs then (.error (vaultTaken name), vs) else (.ok (), vs.insert name none)
  | .archive name data, vs =>
      if name ∈ vs then (.ok (), vs.insert name (some data))
      else (.error (noVault name), vs)
  | .retrieve name, vs =>
      match vs.lookup name with
      | none => (.error (noVault name), vs)
      | some none => (.error (.py .notFound "No archived data."), vs)
      | some (some data) => (.ok data, vs)
  | .find, vs => (.ok vs.keys, vs)
  | .del name, vs => if name ∈ vs then (.ok (), vs.erase name) else (.error (noVault name), vs)

/-- A command, which may fail instead of being carried out. -/
def command : (o : VaultCommand) → Faulty Fault Vaults → Except Exc o.Ans × Faulty Fault Vaults :=
  execFaulty serve failure

/-! ## Names and values -/

/-- `'__'`. -/
def twoMarks : Str := ['_', '_']

/-- `IPAVault._mangle_key`. -/
def mangleKey (key : Str) : Except Exc Str :=
  if twoMarks <:+: key then .error (.py .valueError [])
  else .ok (Replacement.replace [slash] twoMarks key)

/-- The key that `list` reads from the name of a vault. -/
def unmangled (cn : Str) : Str := Replacement.replace twoMarks [slash] cn

/-- A value as `set` is given it: bytes, or any other Python value. -/
inductive VaultValue where
  | bytes (data : List Byte)
  | value (v : Json)

/-- `value.encode('utf-8')`, unless the value is bytes. -/
def encoded : VaultValue → Except Exc (List Byte)
  | .bytes data => .ok data
  | .value (.str (.text s)) =>
      .ok (s.flatMap (fun c => (String.utf8EncodeChar c).map UInt8.toNat))
  | .value (.str (.broken _)) => .error (.py .valueError "surrogates not allowed")
  | .value v => .error (.py .other
      (("'" : Str) ++ v.typeName ++ ("' object has no attribute 'encode'" : Str)))

/-! ## The methods of the store -/

/-- A method of the store. -/
abbrev VaultProg := Prog Exc VaultCommand VaultCommand.Ans

/-- `except AuthorizationError` and `except Exception`, each with its text. -/
def reported (denied failed : Str) (e : Exc) : Exc :=
  if e.isA .authorizationError then .py .csStoreDenied denied else .py .csStoreError failed

/-- `IPAVault.get`; `None` when there is no vault, or nothing in it. -/
def get (key : Str) : VaultProg (Option (List Byte)) := do
  let key ← Prog.ofExcept (mangleKey key)
  Prog.catching
    (do
      let data ← Prog.perform (VaultCommand.retrieve key)
      return some data)
    (fun e =>
      if e.isA .notFound then return none
      else .raise (.py .csStoreError (("Failed to retrieve entry " : Str) ++ key)))

/-- `IPAVault.set`. -/
def set (key : Str) (value : VaultValue) (replace : Bool) : VaultProg Unit := do
  let key ← Prog.ofExcept (mangleKey key)
  let value ← Prog.ofExcept (encoded value)
  (Prog.perform (VaultCommand.add key)).catching (fun e =>
    if e.isA .duplicateEntry then
      if replace = false then .raise (.py .csStoreExists key)
      else return ()
    else .raise (reported (("vault_add denied for entry " : Str) ++ key)
      (("Failed to add entry " : Str) ++ key) e))
  (Prog.perform (VaultCommand.archive key value)).catching (fun e =>
    .raise (reported (("vault_archive denied for entry " : Str) ++ key)
      (("Failed to archive entry " : Str) ++ key) e))

/-- `IPAVault.span`. -/
def span (_key : Str) : VaultProg Unit :=
  .raise (.py .csStoreUnsupported "span is not implemented")

/-- The loop of `list` over the vaults found: `rsplit('/', 1)[-1]` of the keys
    that start with the filter. -/
def listNames (keyfilter : Option Str) (found : List Str) : List Str :=
  found.filterMap (fun cn =>
    let key := unmangled cn
    if ∃ p ∈ keyfilter, ¬ p <+: key then none
    else some (key.rtakeWhile (fun c => decide (c ≠ slash))))

/-- `IPAVault.list`. -/
def list (keyfilter : Option Str) : VaultProg (List Str) := do
  let result ← (Prog.perform VaultCommand.find).catching (fun e =>
    .raise (reported "vault_find denied" "Failed to list entries" e))
  return listNames keyfilter result

/-- `IPAVault.cut`. -/
def cut (key : Str) : VaultProg Bool := do
  let key ← Prog.ofExcept (mangleKey key)
  Prog.catching
    (do
      Prog.perform (VaultCommand.del key)
      return true)
    (fun e =>
      if e.isA .notFound then return false
      else .raise (reported (("vault_del denied for entry " : Str) ++ key)
        (("Failed to delete entry " : Str) ++ key) e))

/-- What `cut` makes of the reply to `vault_del`. -/
def cutFinish (name : Str) : Except Exc Unit → Except Exc Bool
  | .ok () => .ok true
  | .error e =>
      if e.isA .notFound then .ok false
      else .error (reported (("vault_del denied for entry " : Str) ++ name)
        (("Failed to delete entry " : Str) ++ name) e)

/-- **`cut` is one command**, once the key is accepted. -/
theorem cut_eq {key name : Str} (hname : mangleKey key = .ok name) :
    cut key = .call (.del name) (fun (r : Except Exc Unit) => .ofExcept (cutFinish name r)) := by
  rw [cut, hname]
  refine congrArg (Prog.call _) (funext fun (r : Except Exc Unit) => ?_)
  cases r with
  | ok u => rfl
  | error e =>
      show (if e.isA .notFound = true then _ else _)
        = Prog.ofExcept (if e.isA .notFound = true then _ else _)
      by_cases hnone : e.isA .notFound = true
      · rw [if_pos hnone, if_pos hnone]
        rfl
      · rw [if_neg hnone, if_neg hnone]
        rfl

/-! ## What the server keeps -/

/-- The vault a command is about; `vault_find` is about none in particular. -/
def VaultCommand.name? : VaultCommand → Option Str
  | .add name => some name
  | .archive name _ => some name
  | .retrieve name => some name
  | .find => none
  | .del name => some name

/-- **A command leaves every other vault as it was.** -/
theorem serve_other {o : VaultCommand} {name other : Str} (hname : o.name? = some name)
    (hother : other ≠ name) (vs : Vaults) : (serve o vs).2.lookup other = vs.lookup other := by
  cases o with
  | add n =>
      obtain rfl := Option.some.inj hname
      by_cases hmem : n ∈ vs
      · rw [serve, if_pos hmem]
      · rw [serve, if_neg hmem]
        exact AList.lookup_insert_ne hother
  | archive n data =>
      obtain rfl := Option.some.inj hname
      by_cases hmem : n ∈ vs
      · rw [serve, if_pos hmem]
        exact AList.lookup_insert_ne hother
      · rw [serve, if_neg hmem]
  | retrieve n =>
      rw [serve]
      cases vs.lookup n with
      | none => rfl
      | some content => cases content <;> rfl
  | find => cases hname
  | del n =>
      obtain rfl := Option.some.inj hname
      by_cases hmem : n ∈ vs
      · rw [serve, if_pos hmem]
        exact AList.lookup_erase_ne hother
      · rw [serve, if_neg hmem]

end IpaVault
