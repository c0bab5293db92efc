import Mathlib.Tactic.DeriveEncodable
import Mathlib.Data.Rat.Encodable
import Mathlib.Logic.Equiv.List
import Custodia.PyValues

/-! # JsonCodes — JSON documents as texts

    Some writing of JSON values as texts that can be read again. Which one is
    of no importance; where a library writes and reads JSON, this is a library
    that does. -/

namespace JsonCodes

open PosixPath PyValues

/-- Characters are numbered by their code points. -/
instance encodableChar : Encodable Char :=
  Encodable.ofLeftInjection Char.toNat (fun n => some (Char.ofNat n)) (by
    intro c
    rw [Char.ofNat_toNat])

deriving instance Encodable for PyStr
deriving instance Encodable for PyFloat

/-- A value as a binary tree, a list being a comb of its items. Trees can be
    encoded as numbers by what Mathlib derives, which values with their nested
    lists cannot directly. -/
inductive Tree where
  | leaf
  | bool (b : Bool)
  | int (n : Int)
  | float (x : PyFloat)
  | str (s : PyStr)
  | pair (left right : Tree)
  deriving Encodable

mutual

/-- The tree that a value is written as; a list and a dictionary are told apart
    by their left branch. -/
def toTree : Json → Tree
  | .null => .leaf
  | .bool b => .bool b
  | .int n => .int n
  | .float x => .float x
  | .str s => .str s
  | .arr items => .pair .leaf (itemsTree items)
  | .obj fields => .pair (.bool true) (fieldsTree fields)

/-- The items of a list, one behind the other. -/
def itemsTree : List Json → Tree
  | [] => .leaf
  | item :: items => .pair (toTree item) (itemsTree items)

/-- The items of a dictionary, each with its name before the value. -/
def fieldsTree : List (PyStr × Json) → Tree
  | [] => .leaf
  | (name, value) :: fields => .pair (.pair (.str name) (toTree value)) (fieldsTree fields)

end

mutual

/-- Trees that stand for no value are read as `null`. -/
def ofTree : Tree → Json
  | .leaf => .null
  | .bool b => .bool b
  | .int n => .int n
  | .float x => .float x
  | .str s => .str s
  | .pair (.bool _) fields => .obj (ofFieldsTree fields)
  | .pair _ items => .arr (ofItemsTree items)

/-- The items of a list, as they are read from a tree. -/
def ofItemsTree : Tree → List Json
  | .pair item items => ofTree item :: ofItemsTree items
  | _ => []

/-- The items of a dictionary, as they are read from a tree. -/
def ofFieldsTree : Tree → List (PyStr × Json)
  | .pair (.pair (.str name) value) fields => (name, ofTree value) :: ofFieldsTree fields
  | _ => []

end

mutual

/-- **What is written is read again**, by induction on the value. -/
theorem ofTree_toTree : ∀ value : Json, ofTree (toTree value) = value
  | .null => rfl
  | .bool _ => rfl
  | .int _ => rfl
  | .float _ => rfl
  | .str _ => rfl
  | .arr items => congrArg Json.arr (ofItemsTree_itemsTree items)
  | .obj fields => congrArg Json.obj (ofFieldsTree_fieldsTree fields)

/-- The same for the items of a list. -/
theorem ofItemsTree_itemsTree : ∀ items : List Json, ofItemsTree (itemsTree items) = items
  | [] => rfl
  | item :: items => by
      show ofTree (toTree item) :: ofItemsTree (itemsTree items) = _
      rw [ofTree_toTree item, ofItemsTree_itemsTree items]

/-- The same for the items of a dictionary. -/
theorem ofFieldsTree_fieldsTree :
    ∀ fields : List (PyStr × Json), ofFieldsTree (fieldsTree fields) = fields
  | [] => rfl
  | (name, value) :: fields => by
      show (name, ofTree (toTree value)) :: ofFieldsTree (fieldsTree fields) = _
      rw [ofTree_toTree value, ofFieldsTree_fieldsTree fields]

end

/-- The value as a text: its number in unary. -/
def encodeText (value : Json) : Str := List.replicate (Encodable.encode (toTree value)) '.'

/-- The value of a text. -/
def decodeText (text : Str) : Option Json :=
  (Encodable.decode text.length : Option Tree).map ofTree

/-- **What is written is read again**: the text of a value is the number of its
    tree in unary digits, and both encodings can be undone. -/
theorem decodeText_encodeText (value : Json) : decodeText (encodeText value) = some value := by
  rw [decodeText, encodeText, List.length_replicate, Encodable.encodek]
  exact congrArg some (ofTree_toTree value)

end JsonCodes
