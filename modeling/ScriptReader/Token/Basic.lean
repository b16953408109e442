import ScriptReader.Source.Position
import ScriptReader.Token.Kind

/-! Tokens: a kind, the text as it stands in the source, and where it stands. -/

namespace ScriptReader

structure Token where
  kind : TokenKind
  text : String
  span : Span
deriving DecidableEq, Repr

namespace Token

/-- The token that stands for the end of a source, however often it is asked for. -/
def ofEnd (stop : Position) : Token := ⟨.eof, "", ⟨stop, stop⟩⟩

def isOneOf (t : Token) (kinds : List TokenKind) : Bool := kinds.contains t.kind

/-- The kinds that do not determine the text of a token. -/
def variableKinds : List TokenKind := [.identifier, .integer, .illegal]

/-- A token in words: its kind, and its text where the kind leaves it open. -/
def describe (t : Token) : String :=
  t.kind.name ++ " (" ++ (if t.isOneOf variableKinds then t.text else "") ++ ")"

def traceLine (t : Token) : String := t.describe ++ "\n"

end Token

end ScriptReader
