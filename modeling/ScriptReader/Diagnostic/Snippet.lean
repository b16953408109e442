import ScriptReader.Diagnostic.Basic
import ScriptReader.Source.Line
import ScriptReader.Text.Blank

/-! A diagnostic with the line of the source that it is about, and a caret under
the place. The line is shown without its indentation. -/

namespace ScriptReader

open Text

inductive SnippetError where
  /-- The caret would stand too far to the right. -/
  | caretOutOfRange
deriving DecidableEq, Repr

def SnippetError.message : SnippetError → String
  | caretOutOfRange => "Formatting argument out of range"

/-- The last column, counted from 1, in which a caret can stand. -/
def lastCaretColumn : Nat := 65535

structure Snippet where
  title : String
  file : String
  line : Nat
  /-- The place in bytes from the start of the line, counted from 1. -/
  column : Nat
  /-- The line without its indentation and the blanks at its end. -/
  code : List Char
  /-- How many dashes lead to the caret. -/
  dashes : Nat
deriving DecidableEq, Repr

namespace Snippet

def ofDiagnostic (d : Diagnostic) (source : String) : Snippet :=
  let line := locate source d.position.offset
  { title := d.cause.title
    file := d.position.file
    line := line.number
    column := line.offset + 1
    code := dropEndWhile isWhiteSpace (line.chars.dropWhile isIndent)
    dashes := line.offset - byteLength (line.chars.takeWhile isIndent) }

/-- The left margin of the lines that bear no number, as wide as the number. -/
def margin (s : Snippet) : String :=
  String.ofList ((decimal s.line).toList.map fun _ => ' ') ++ " |"

def lines (s : Snippet) : List String :=
  ["Error: " ++ s.title,
   "-> " ++ s.file ++ ":" ++ decimal s.line ++ ":" ++ decimal s.column,
   s.margin,
   decimal s.line ++ " | " ++ String.ofList s.code,
   s.margin ++ " " ++ String.ofList (List.replicate s.dashes '-') ++ "^"]

def text (s : Snippet) : String := "\n".intercalate s.lines

end Snippet

def Diagnostic.render (d : Diagnostic) (source : String) : Except SnippetError String :=
  let s := Snippet.ofDiagnostic d source
  if s.dashes < lastCaretColumn then .ok s.text else .error .caretOutOfRange

end ScriptReader
