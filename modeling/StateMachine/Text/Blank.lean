/-
# White space

The characters that Unicode counts as white space.
-/

namespace StateMachine

/-- The character is white space in Unicode. -/
def isWhiteSpace (c : Char) : Bool :=
  let n := c.toNat
  (9 ≤ n && n ≤ 13) || n == 0x20 || n == 0x85 || n == 0xA0 || n == 0x1680 ||
    (0x2000 ≤ n && n ≤ 0x200A) || n == 0x2028 || n == 0x2029 || n == 0x202F || n == 0x205F ||
    n == 0x3000

/-- What follows the white space at the beginning. -/
def skipWhiteSpace (s : List Char) : List Char := s.dropWhile isWhiteSpace

end StateMachine
