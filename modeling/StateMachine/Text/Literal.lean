/-
# Literals

A literal shows a value unambiguously: texts in double quotes, characters in single ones, integers
in decimal. In a text or a character, the backslash, the quote around it and four control
characters are shown by a backslash and a sign, and everything else that is not visible by its
number in hexadecimal.
-/

import StateMachine.Symbol
import StateMachine.Text.Hex
import StateMachine.Text.Visible

namespace StateMachine

universe u

/-- Values that have a literal. -/
class Literal (α : Type u) where
  literal : α → String

namespace Literal

/-- A character shown by its number. -/
def escapeNumber (c : Char) : List Char :=
  ['\\', 'u', '\x7b'] ++ Hex.numeral c.toNat ++ ['\x7d']

/-- A character as it is shown between the given quotes. -/
def escapeChar (quote c : Char) : List Char :=
  if c = '\x00' then ['\\', '0']
  else if c = '\t' then ['\\', 't']
  else if c = '\n' then ['\\', 'n']
  else if c = '\r' then ['\\', 'r']
  else if c = '\\' ∨ c = quote then ['\\', c]
  else if isVisible c then [c]
  else escapeNumber c

/-- Characters in quotes. -/
def quoted (quote : Char) (l : List Char) : String :=
  String.ofList (quote :: (l.flatMap (escapeChar quote) ++ [quote]))

instance : Literal String where
  literal s := quoted '"' s.toList

instance : Literal Char where
  literal c := quoted '\'' [c]

instance : Literal Int where
  literal n := toString n

instance : Literal Nat where
  literal n := toString n

instance : Literal Symbol where
  literal
    | .text s => literal s
    | .int n => literal n
    | .char c => literal c

/-- The other quote stands as it is, the soft hyphen is not visible. -/
example : literal "\"it's\"\u00ad" = "\"\\\"it's\\\"\\u\x7bad\x7d\"" := by decide +kernel

example : literal '\'' = "'\\''" := by decide +kernel

end Literal
end StateMachine
