import ScriptReader.Source.Position
import ScriptReader.Text.Decimal
import ScriptReader.Text.Quoted
import ScriptReader.Token.Kind

/-! What may be wrong with a source, and how it is said. -/

namespace ScriptReader

open Text

inductive Cause where
  /-- A text that is no token. -/
  | unrecognised (text : String)
  /-- A token of one kind where another has to stand. -/
  | unexpected (expected found : TokenKind)
  /-- A token at the start of an expression that cannot start one. -/
  | noOperand (kind : TokenKind)
  /-- The text of a number that is out of range. -/
  | badNumber (text : String)
  /-- More than `limit` expressions within one another. -/
  | tooDeep (limit : Nat)
deriving DecidableEq, Repr

namespace Cause

def name : Cause → String
  | unrecognised _ => "UnrecognisedToken"
  | unexpected _ _ => "UnexpectedToken"
  | noOperand _ => "NoPrefixParseFn"
  | badNumber _ => "NumberParseError"
  | tooDeep _ => "NestingTooDeep"

def message : Cause → String
  | unrecognised text => "unrecognised token: " ++ quote text
  | unexpected expected found =>
    "expected next token to be " ++ expected.name ++ ", got " ++ found.name ++ " instead"
  | noOperand kind => "no prefix parse function for " ++ kind.name ++ " found"
  | badNumber text => "could not parse " ++ quote text ++ " as integer"
  | tooDeep limit => "expression nested deeper than " ++ decimal limit ++ " levels"

/-- A hint for whoever wrote the source. Nothing is known of a text that is no token. -/
def tip? : Cause → Option String
  | unrecognised _ => none
  | unexpected expected found => some (unexpected expected found).message
  | noOperand kind => some ("an expression cannot start with `" ++ kind.name ++ "`")
  | badNumber text =>
    some ("Invalid number: `" ++ text ++ "`, is it above the integer limit?")
  | tooDeep _ => some "split the expression up with intermediate `let` bindings"

def title (c : Cause) : String :=
  match c.tip? with
  | none => c.name
  | some tip => c.name ++ " (" ++ tip ++ ")"

end Cause

structure Diagnostic where
  cause : Cause
  position : Position
deriving DecidableEq, Repr

end ScriptReader
