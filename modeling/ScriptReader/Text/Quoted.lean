import ScriptReader.Text.Visible

/-! Quoted text as messages show it: between double quotes, with an escape
for whatever would not be seen as itself. -/

namespace ScriptReader.Text

/-- The letter that stands behind a backslash for `c`, if `c` has one. -/
def escapeLetter? (c : Char) : Option Char :=
  [('\x00', '0'), ('\t', 't'), ('\r', 'r'), ('\n', 'n'), ('"', '"'), ('\\', '\\')].lookup c

/-- A character by its code point, in lower case hexadecimal without padding. -/
def codePointEscape (c : Char) : List Char :=
  ['\\', 'u', '\x7b'] ++ Nat.toDigits 16 c.toNat ++ ['\x7d']

def escape (c : Char) : List Char :=
  match escapeLetter? c with
  | some l => ['\\', l]
  | none => if isVisible c then [c] else codePointEscape c

def quote (s : String) : String :=
  String.ofList ('"' :: s.toList.flatMap escape ++ ['"'])

end ScriptReader.Text
