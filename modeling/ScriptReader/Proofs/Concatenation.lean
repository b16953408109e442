import ScriptReader.Proofs.Joining

/-! Sources one behind the other, on lines of their own. The first is read as it
is alone if it ends with a semicolon and closes its braces, and so is the second
wherever the first is sealed, whatever is wrong with either. -/

namespace ScriptReader

open Text

namespace Lexer

/-- The text with another behind it, on a line of its own. -/
def followedBy (b : List Char) (l : Lexer) : Lexer := ⟨l.rest ++ '\n' :: b, l.offset, l.file⟩

def behind (b : List Char) (l : Lexer) : Lexer := ⟨b, l.limit + 1, l.file⟩

theorem stop_followedBy (b : List Char) (l : Lexer) :
    (l.followedBy b).stop = (l.behind b).stop := by
  have hn : Char.utf8Size '\n' = 1 := by decide
  have h : l.offset + byteLength (l.rest ++ '\n' :: b) = l.limit + 1 + byteLength b := by
    rw [byteLength_append, byteLength_cons, hn, limit]
    omega
  rw [stop, followedBy, h]
  rfl

theorem skipLayout_past_lineFeed (b : List Char) (l : Lexer) :
    (l.past ('\n' :: b)).skipLayout = (l.behind b).skipLayout := by
  have hn : isLayout '\n' = true := by decide
  have hs : Char.utf8Size '\n' = 1 := by decide
  simp only [past, behind, skipLayout, List.dropWhile_cons_of_pos hn, List.takeWhile_cons_of_pos hn,
    byteLength_cons, hs, Nat.add_assoc]

theorem tokens_followedBy (b : List Char) (l : Lexer) :
    (l.followedBy b).tokens = l.tokens ++ (l.behind b).tokens := by
  have happend : (l.append ('\n' :: b)).tokens = l.tokens ++ (l.past ('\n' :: b)).tokens := by
    refine tokens_append fun t c _ _ hc => ?_
    obtain rfl : '\n' = c := Option.some.inj hc
    exact t.kind.not_joinsWith_of_isLayout (by decide)
  rw [← tokens_of_skipLayout (skipLayout_past_lineFeed b l), ← happend]
  rfl

end Lexer

theorem Relocation.report_same (r : Report) : Relocation.same.report r = r := by
  have hp : r.program.mapTokens id = r.program := by
    have hs : Stmt.mapTokens id = id := funext Stmt.mapTokens_id
    rw [Program.mapTokens, hs, List.map_id]
  have hd : r.diagnostics.map Relocation.same.diagnostic = r.diagnostics := List.map_id _
  rw [report, hd]
  exact congrArg (Report.mk · r.diagnostics) hp

theorem Report.ofLexer_followedBy {l : Lexer} (h : Sealed l.tokens) (b : List Char) :
    Report.ofLexer (l.followedBy b) = Report.ofLexer l ++ Report.ofLexer (l.behind b) := by
  let m : Embedding := ⟨.same, (l.behind b).tokens, (l.behind b).stop⟩
  have hcursor : Cursor.ofLexer (l.followedBy b) = m.cursor (.ofLexer l) := by
    have hmap : l.tokens.map m.token = l.tokens := List.map_id _
    rw [Cursor.ofLexer, Embedding.cursor, Cursor.ofLexer, hmap, Lexer.tokens_followedBy,
      Lexer.stop_followedBy]
  have hread := m.ofTurns_cursor m.sealedRegion (c := .ofLexer l) fun hne => ⟨hne, h⟩
  rw [Report.ofLexer, hcursor, hread, Relocation.report_same]
  rfl

/-- A source behind another is read as it is alone, with its places shifted, and the other as it
is alone. -/
theorem ofSource_append {a b : String} {file : Option String}
    (ha : Sealed (Lexer.ofSource a file).tokens)
    (hlength : byteLength a.toList + 1 + byteLength b.toList < 4294967296) :
    Report.ofSource (a ++ "\n" ++ b) file =
      Report.ofSource a file ++ (Report.ofSource b file).shift (byteLength a.toList + 1) := by
  have hfollowed : Lexer.ofSource (a ++ "\n" ++ b) file =
      (Lexer.ofSource a file).followedBy b.toList := by
    simp [Lexer.ofSource, Lexer.followedBy]
  have hbehind : (Lexer.ofSource a file).behind b.toList =
      (Lexer.ofSource b file).shift (byteLength a.toList + 1) := by
    simp [Lexer.ofSource, Lexer.behind, Lexer.shift, Lexer.limit]
  have hlimit : (Lexer.ofSource b file).limit + (byteLength a.toList + 1) ≤ maxOffset := by
    simp only [Lexer.ofSource, Lexer.limit, maxOffset]
    omega
  rw [Report.ofSource, hfollowed, Report.ofLexer_followedBy ha, hbehind,
    Report.ofLexer_shift hlimit]
  rfl

/-- Behind a line with a stray brace and an error in braces, another is read as it is alone. -/
theorem ofSource_append_stray :
    let a := String.ofList ['}', '{', '!', '}', ';']
    Sealed (Lexer.ofSource a none).tokens ∧
      byteLength a.toList + 1 + byteLength "x".toList < 4294967296 ∧
      Report.ofSource (a ++ "\n" ++ "x") none =
        Report.ofSource a none ++ (Report.ofSource "x" none).shift (byteLength a.toList + 1) := by
  intro a
  have hsource : Lexer.ofSource a none = ⟨['}', '{', '!', '}', ';'], 0, "shell"⟩ := by decide
  have hs : Sealed (Lexer.ofSource a none).tokens := by
    rw [hsource, Lexer.tokens_of_next?_some rfl, Lexer.tokens_of_next?_some rfl,
      Lexer.tokens_of_next?_some rfl, Lexer.tokens_of_next?_some rfl,
      Lexer.tokens_of_next?_some rfl, Lexer.tokens_of_next?_none rfl]
    decide
  have hlength : byteLength a.toList + 1 + byteLength "x".toList < 4294967296 := by decide
  exact ⟨hs, hlength, ofSource_append hs hlength⟩

end ScriptReader
