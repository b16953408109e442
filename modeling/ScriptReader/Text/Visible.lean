import ScriptReader.Text.GraphemeExtend
import ScriptReader.Text.Unprintable

/-! Which characters can be read off a text. Those cannot that are drawn onto
the character before them, or not at all. -/

namespace ScriptReader.Text

/-- The halfwidth sound marks. They extend a grapheme, but being letters they
have a cell of their own. -/
def soundMarkRanges : List (Nat × Nat) := [(0xFF9E, 0xFF9F)]

/-- The Hangul fillers, which are letters and drawn as nothing. -/
def fillerRanges : List (Nat × Nat) := [(0x115F, 0x1160), (0x3164, 0x3164), (0xFFA0, 0xFFA0)]

def isSoundMark (c : Char) : Bool := inRanges soundMarkRanges c

def isFiller (c : Char) : Bool := inRanges fillerRanges c

def isVisible (c : Char) : Bool :=
  !isUnprintable c && !isFiller c && (!extendsGrapheme c || isSoundMark c)

end ScriptReader.Text
