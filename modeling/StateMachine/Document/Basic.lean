/-
# Documents

Values that can be kept as JSON. Such a value is written as a JSON value and read back from one;
its document is the text of that JSON value. Reading refuses what is no JSON document and what is
not of the value's shape alike.
-/

import StateMachine.Json.Reader
import StateMachine.Json.Record
import StateMachine.Json.Writer

namespace StateMachine

universe u

/-- Values with a form in JSON. -/
class Document (α : Type u) where
  toJson : α → Json
  ofJson? : Json → Option α

namespace Document

variable {α : Type u} [Document α]

/-- The document of a value. -/
def render (layout : Json.Layout) (a : α) : String := (toJson a).render layout

/-- The value that a document holds. -/
def read (document : String) : Option α := (Json.read document).bind ofJson?

instance : Document String where
  toJson := .ofString
  ofJson? := Json.string?

instance : Document Bool where
  toJson := .bool
  ofJson? := Json.bool?

/-- Natural numbers are read up to the greatest that a machine word holds. -/
instance : Document Nat where
  toJson := .ofNat
  ofJson? := Json.nat?

instance : Document (List α) where
  toJson l := .list (l.map toJson)
  ofJson? := Json.list? ofJson?

end Document
end StateMachine
