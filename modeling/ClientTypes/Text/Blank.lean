/-!
White space of every script, and trimming.

The class is wider than the blanks of ASCII: it also holds the information separators, the next
line character, the no-break space and the spaces of typography.
-/

namespace ClientTypes.Text

/-- White space of any script: tab, the line breaks and form feeds, the four information
separators, space, next line, no-break space, and the separators of Unicode. -/
def isBlank (c : Char) : Bool :=
  let n := c.toNat
  (0x9 ≤ n && n ≤ 0xd) || (0x1c ≤ n && n ≤ 0x20) || n == 0x85 || n == 0xa0 || n == 0x1680 ||
    (0x2000 ≤ n && n ≤ 0x200a) || n == 0x2028 || n == 0x2029 || n == 0x202f || n == 0x205f ||
    n == 0x3000

def trimStart (cut : Char → Bool) (s : List Char) : List Char := s.dropWhile cut

def trimEnd (cut : Char → Bool) (s : List Char) : List Char := (s.reverse.dropWhile cut).reverse

/-- Drop the characters of a class from both ends. Characters of the class between two others
stay. -/
def trimBoth (cut : Char → Bool) (s : List Char) : List Char := trimEnd cut (trimStart cut s)

end ClientTypes.Text
