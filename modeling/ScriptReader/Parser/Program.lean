import ScriptReader.Parser.Expression
import ScriptReader.Tree.Equality

/-! Reading programs. Each turn reads a statement, or gives up on it with a
diagnostic and goes on behind. -/

namespace ScriptReader

structure Turn where
  item : Except Diagnostic Stmt
  next : Cursor

namespace Turn

/-- Where to go on after a diagnostic: at once as a rule, but at the end of the
statement if it was nested too deep. -/
def recover (e : Diagnostic) (c : Cursor) : Cursor :=
  match e.cause with
  | .tooDeep _ => c.skipTo [.semicolon, .eof]
  | _ => c

theorem reaches_recover (e : Diagnostic) (c : Cursor) : c.Reaches (recover e c) := by
  unfold recover
  split
  · exact Cursor.reaches_skipTo _ c
  · exact .refl c

/-- The turn that starts at a cursor. It takes at least the current token. -/
def ofCursor (c : Cursor) : Turn :=
  match (Parser.statement Parser.expression).run c with
  | .ok s d => ⟨.ok s, d.advance⟩
  | .error e d => ⟨.error e, (recover e d).advance⟩

theorem next_length_lt {c : Cursor} (h : c.ahead ≠ []) :
    (ofCursor c).next.ahead.length < c.ahead.length := by
  have hc := List.length_pos_iff.mpr h
  have hf := (Parser.statement Parser.expression).forward c
  unfold ofCursor
  cases hr : (Parser.statement Parser.expression).run c with
  | ok s d =>
    have hd := hf.length_le
    simp only [hr, Outcome.cursor_ok] at hd
    simp only [Cursor.length_advance]
    omega
  | error e d =>
    simp only [hr, Outcome.cursor_error] at hf
    have hd := (hf.trans (reaches_recover e d)).length_le
    simp only [Cursor.length_advance]
    omega

def statement? (t : Turn) : Option Stmt := t.item.toOption

def diagnostic? (t : Turn) : Option Diagnostic :=
  match t.item with
  | .ok _ => none
  | .error e => some e

end Turn

def turns (c : Cursor) : List Turn :=
  if h : c.ahead = [] then []
  else
    let t := Turn.ofCursor c
    have := Turn.next_length_lt h
    t :: turns t.next
termination_by c.ahead.length

/-- A program and what was wrong with its source, both in the order of the source. -/
structure Report where
  program : Program
  diagnostics : List Diagnostic
deriving DecidableEq

namespace Report

def ofTurns (ts : List Turn) : Report :=
  ⟨⟨ts.filterMap Turn.statement?⟩, ts.filterMap Turn.diagnostic?⟩

def ofLexer (l : Lexer) : Report := ofTurns (turns (.ofLexer l))

def ofSource (source : String) (file : Option String) : Report := ofLexer (.ofSource source file)

end Report

end ScriptReader
