/-
# Records in JSON

A record has fields with fixed names. In a document it is an object, its members in any order,
where members of other names are passed over and no field may be given twice; or it is a list of
the fields' values in their order. A list has to give every field, unless the record says that it
may end early. A key that is no Unicode text makes an object no record, even where no field is
meant.

Reading a record gives the fields that are there. A field may be *required*, or *optional*: then it
may be left out, and `null` says the same.
-/

import StateMachine.Json.Number
import StateMachine.Json.Text

namespace StateMachine
namespace Json

universe u

/-- The fields of a record that a document gives, with their values. -/
abbrev Fields := List (String × Json)

/-- How a list may stand for a record. -/
inductive ListForm where
  /-- Every field has to be there. -/
  | full
  /-- The list may end before the last field. -/
  | open
  deriving DecidableEq, Repr

/-- The members of an object by their keys; `none` if a key is no Unicode text. -/
def members? (members : List (List Char × Json)) : Option Fields :=
  members.mapM fun (key, value) => (unescape key).map (·, value)

/-- The fields of a record with the given names. -/
def fields? (names : List String) (form : ListForm) : Json → Option Fields
  | object members =>
    (members? members).bind fun all =>
      let known := all.filter fun m => names.contains m.1
      if (known.map Prod.fst).Nodup then some known else none
  | list elements =>
    if elements.length = names.length ∨ (form = .open ∧ elements.length ≤ names.length) then
      some (names.zip elements)
    else none
  | _ => none

namespace Fields

variable {α : Type u}

/-- The value of a field that has to be there. -/
def required (fs : Fields) (name : String) (decode : Json → Option α) : Option α :=
  (fs.lookup name).bind decode

/-- The value of a field that may be left out or be `null`. -/
def optional (fs : Fields) (name : String) (decode : Json → Option α) : Option (Option α) :=
  match fs.lookup name with
  | none => some none
  | some .null => some none
  | some j => (decode j).map some

end Fields

/-- The truth value that a JSON value is. -/
def bool? : Json → Option Bool
  | bool b => some b
  | _ => none

/-- The list of values that a JSON value is. -/
def list? {α : Type u} (decode : Json → Option α) : Json → Option (List α)
  | list elements => elements.mapM decode
  | _ => none

/-- A value that may be absent, `null` if it is. -/
def ofOption {α : Type u} (encode : α → Json) : Option α → Json
  | none => null
  | some a => encode a

/-- An object with the given members. -/
def ofMembers (members : List (String × Json)) : Json :=
  .object (members.map fun (key, value) => (escape key.toList, value))

end Json
end StateMachine
