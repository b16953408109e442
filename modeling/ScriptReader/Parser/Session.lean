import ScriptReader.Parser.Program

/-! Reading by hand: any parser may be run at the place that was left by those
before it. The diagnostics kept are those of the last whole program. -/

namespace ScriptReader

structure Session where
  cursor : Cursor
  diagnostics : List Diagnostic

namespace Session

def ofLexer (l : Lexer) : Session := ⟨.ofLexer l, []⟩

/-- Runs a parser. Its diagnostic is given back, but not kept. -/
def run {α : Type} (s : Session) (p : Parser α) : Except Diagnostic α × Session :=
  let o := p.run s.cursor
  (o.result, ⟨o.cursor, s.diagnostics⟩)

def readProgram (s : Session) : Program × Session :=
  let r := Report.ofTurns (turns s.cursor)
  (r.program, ⟨s.cursor.finish, r.diagnostics⟩)

end Session

end ScriptReader
