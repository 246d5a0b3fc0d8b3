/-
# Terms: the shown form of structured values

The shown form of a value is a term: a word, a word applied to arguments, a list, or a record with
named fields. A record may say that it has further fields that are not shown. Terms are written on
one line, or indented with each part on a line of its own and a comma after it.
-/

namespace StateMachine

/-- The form in which a value is shown. -/
inductive Term where
  | word (text : String)
  | call (name : String) (arguments : List Term)
  | list (elements : List Term)
  /-- Named fields; `partly` if there are others that are not shown. -/
  | record (name : String) (partly : Bool) (fields : List (String × Term))
  deriving Repr

namespace Term

/-- A value that may be absent. -/
def ofOption : Option Term → Term
  | none => word "None"
  | some t => call "Some" [t]

def ofBool : Bool → Term
  | true => word "true"
  | false => word "false"

mutual

/-- The term on one line. -/
def inline : Term → String
  | word text => text
  | call name arguments => name ++ "(" ++ String.intercalate ", " (inlineAll arguments) ++ ")"
  | list elements => "[" ++ String.intercalate ", " (inlineAll elements) ++ "]"
  | record name partly fields =>
    let parts := inlineFields fields ++ if partly then [".."] else []
    if parts.isEmpty then name
    else name ++ " \x7b " ++ String.intercalate ", " parts ++ " \x7d"

/-- The terms, each on one line. -/
def inlineAll : List Term → List String
  | [] => []
  | t :: ts => inline t :: inlineAll ts

/-- The fields, each on one line. -/
def inlineFields : List (String × Term) → List String
  | [] => []
  | (name, t) :: fs => (name ++ ": " ++ inline t) :: inlineFields fs

end

/-- The beginning of a line at the given depth. -/
def margin (depth : Nat) : String := String.ofList (List.replicate (4 * depth) ' ')

/-- Parts on lines of their own, one step deeper than the brackets around them. -/
def block (opening : String) (depth : Nat) (lines : List String) (closing : String) : String :=
  if lines.isEmpty then opening ++ closing
  else opening ++ "\n" ++ String.join (lines.map fun l => margin (depth + 1) ++ l ++ "\n") ++
    margin depth ++ closing

mutual

/-- The term with each part on a line of its own, at the given depth. -/
def indented (depth : Nat) : Term → String
  | word text => text
  | call name arguments => block (name ++ "(") depth (indentedAll (depth + 1) arguments) ")"
  | list elements => block "[" depth (indentedAll (depth + 1) elements) "]"
  | record name partly fields =>
    let lines := indentedFields (depth + 1) fields ++ if partly then [".."] else []
    if lines.isEmpty then name else block (name ++ " \x7b") depth lines "\x7d"

/-- The terms, each with a comma after it. -/
def indentedAll (depth : Nat) : List Term → List String
  | [] => []
  | t :: ts => (indented depth t ++ ",") :: indentedAll depth ts

/-- The fields, each with a comma after it. -/
def indentedFields (depth : Nat) : List (String × Term) → List String
  | [] => []
  | (name, t) :: fs => (name ++ ": " ++ indented depth t ++ ",") :: indentedFields depth fs

end

end Term
end StateMachine
