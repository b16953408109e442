import ScriptReader.Token.Lexer

/-! A place between the tokens of a source: those ahead, the first of which is
the current one, and where the source ends. Behind the last token stands the end
token, as often as it is asked for. -/

namespace ScriptReader

structure Cursor where
  ahead : List Token
  stop : Position
deriving DecidableEq, Repr

namespace Cursor

def ofLexer (l : Lexer) : Cursor := ⟨l.tokens, l.stop⟩

def endToken (c : Cursor) : Token := .ofEnd c.stop

def current (c : Cursor) : Token := c.ahead.headD c.endToken

/-- The token behind the current one. -/
def peek (c : Cursor) : Token := c.ahead.tail.headD c.endToken

def advance (c : Cursor) : Cursor := ⟨c.ahead.tail, c.stop⟩

def finish (c : Cursor) : Cursor := ⟨[], c.stop⟩

/-- The nearest cursor at a token of one of the kinds, or at the end. -/
def skipTo (kinds : List TokenKind) (c : Cursor) : Cursor :=
  ⟨c.ahead.dropWhile fun t => !t.isOneOf kinds, c.stop⟩

/-- A cursor reaches those ahead of it in the same source. -/
structure Reaches (c d : Cursor) : Prop where
  suffix : d.ahead <:+ c.ahead
  stop : d.stop = c.stop

theorem Reaches.refl (c : Cursor) : c.Reaches c := ⟨List.suffix_rfl, rfl⟩

theorem Reaches.trans {c d e : Cursor} (h : c.Reaches d) (h' : d.Reaches e) : c.Reaches e :=
  ⟨h'.suffix.trans h.suffix, h'.stop.trans h.stop⟩

theorem Reaches.length_le {c d : Cursor} (h : c.Reaches d) : d.ahead.length ≤ c.ahead.length :=
  h.suffix.length_le

theorem reaches_advance (c : Cursor) : c.Reaches c.advance := ⟨List.tail_suffix _, rfl⟩

theorem reaches_skipTo (kinds : List TokenKind) (c : Cursor) : c.Reaches (c.skipTo kinds) :=
  ⟨List.dropWhile_suffix _, rfl⟩

theorem length_advance (c : Cursor) : c.advance.ahead.length = c.ahead.length - 1 := by
  simp [advance]

theorem ahead_length_pos_of_current {c : Cursor} (h : c.current.kind ≠ .eof) :
    0 < c.ahead.length := by
  rw [List.length_pos_iff]
  intro he
  simp [current, he, endToken, Token.ofEnd] at h

theorem ahead_length_pos_of_peek {c : Cursor} (h : c.peek.kind ≠ .eof) : 0 < c.ahead.length := by
  rw [List.length_pos_iff]
  intro he
  simp [peek, he, endToken, Token.ofEnd] at h

end Cursor

end ScriptReader
