import ScriptReader.Text.Ranges

/-! Three notions of white space. Between tokens only four layout characters
count, and two of them indent a line; at the end of a line that is shown, every
character with the Unicode property White_Space counts. -/

namespace ScriptReader.Text

/-- The characters that may stand between tokens. -/
def isLayout (c : Char) : Bool := c == ' ' || c == '\t' || c == '\n' || c == '\r'

def isIndent (c : Char) : Bool := c == ' ' || c == '\t'

def whiteSpaceRanges : List (Nat × Nat) :=
  [(0x9, 0xD), (0x20, 0x20), (0x85, 0x85), (0xA0, 0xA0), (0x1680, 0x1680), (0x2000, 0x200A),
   (0x2028, 0x2029), (0x202F, 0x202F), (0x205F, 0x205F), (0x3000, 0x3000)]

def isWhiteSpace (c : Char) : Bool := inRanges whiteSpaceRanges c

/-- Drops the longest suffix of characters that satisfy `p`. -/
def dropEndWhile (p : Char → Bool) (cs : List Char) : List Char :=
  (cs.reverse.dropWhile p).reverse

end ScriptReader.Text
