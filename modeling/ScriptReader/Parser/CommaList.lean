import ScriptReader.Parser.Repeat

/-! Items with commas between them, as parameters and arguments have them. -/

namespace ScriptReader.Parser

variable {α : Type}

def commaItem (item : Parser α) : Parser (Option α) := do
  let t ← peek
  if t.kind = .comma then
    advance
    let a ← item
    pure (some a)
  else pure none

theorem commaItem_advances (item : Parser α) : (commaItem item).Advances := by
  intro c a d h
  simp only [commaItem, run_bind, peek] at h
  split at h
  · rename_i hk
    have hc := Cursor.ahead_length_pos_of_peek (c := c) (by simp [hk])
    have hi := (item.forward c.advance).length_le
    simp only [run_bind, advance] at h
    cases hr : item.run c.advance with
    | error e d => simp [hr] at h
    | ok a d =>
      simp only [hr, Outcome.cursor_ok, run_pure, Outcome.ok.injEq, Cursor.length_advance] at h hi
      rw [← h.2]
      omega
  · simp [run_pure] at h

/-- Items with commas between them, up to a closing parenthesis. An item starts
behind the current token. -/
def commaList (item : Parser α) : Parser (List α) := do
  if ← accept .rightParen then pure []
  else
    let first ← item
    let others ← many (commaItem item) (commaItem_advances item)
    let _ ← expect .rightParen
    pure (first :: others)

end ScriptReader.Parser
