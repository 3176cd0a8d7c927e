/-!
Classes of characters of YAML text.

A line ends at a line feed, at the next line character, or at one of the two separators of Unicode.
The end of the text counts as a gap wherever a gap is asked for.
-/

namespace ClientTypes.Yaml

def isBreak (c : Char) : Bool := c == '\n' || c == '\u0085' || c == '\u2028' || c == '\u2029'

/-- A space, a tab, or the end of a line. -/
def isGap (c : Char) : Bool := c == ' ' || c == '\t' || isBreak c

def isSpacing (c : Char) : Bool := c == ' ' || c == '\t'

def atGap : List Char → Bool
  | [] => true
  | c :: _ => isGap c

/-- A character that may stand in YAML text. Control characters may not, the tab and the ends of
lines apart. -/
def isAllowed (c : Char) : Bool :=
  let n := c.toNat
  c == '\t' || c == '\n' || c == '\r' || (0x20 ≤ n && n ≤ 0x7e) || n == 0x85 ||
    (0xa0 ≤ n && n ≤ 0xfffd) || 0x10000 ≤ n

/-- A character that ends a part of a collection in brackets. -/
def isBracketMark (c : Char) : Bool := c == ',' || c == '[' || c == ']' || c == '\x7b' || c == '\x7d'

def isNameChar (c : Char) : Bool := c.isAlphanum || c == '-' || c == '_'

/-- What may follow the name of an anchor: a gap, or a mark that cannot begin a plain scalar. -/
def endsName : List Char → Bool
  | [] => true
  | c :: _ => isGap c || ['?', ':', ',', ']', '\x7d', '%', '@', '\x60'].contains c

/-- Characters that begin something other than a plain scalar. -/
def indicators : List Char :=
  ['-', '?', ':', ',', '[', ']', '\x7b', '\x7d', '#', '&', '*', '!', '|', '>', '\x27', '"', '%', '@',
    '\x60']

end ClientTypes.Yaml
