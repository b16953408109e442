import ScriptReader.Proofs.Embedding.Turns
import ScriptReader.Proofs.Lexing

/-! Places further on in a source. A text that stands `k` bytes further on has
the same tokens at places `k` bytes further on, as long as their offsets can be
recorded. -/

namespace ScriptReader

open Text

def Position.shift (k : Nat) (p : Position) : Position := ⟨p.offset + k, p.file⟩

def Span.shift (k : Nat) (s : Span) : Span := ⟨s.start.shift k, s.stop.shift k⟩

def Token.shift (k : Nat) (t : Token) : Token := ⟨t.kind, t.text, t.span.shift k⟩

def Relocation.shift (k : Nat) : Relocation where
  token := Token.shift k
  place := Position.shift k
  kind_token _ := rfl
  text_token _ := rfl
  start_token _ := rfl

/-- The report with all places in it `k` bytes further on. -/
def Report.shift (k : Nat) (r : Report) : Report := (Relocation.shift k).report r

theorem saturate_add {n k : Nat} (h : n + k ≤ maxOffset) :
    saturate ↑(n + k) = saturate ↑n + k := by
  rw [saturate_natCast, saturate_natCast]
  omega

theorem Span.ofOffsets_shift (file : String) {m n k : Nat} (hm : m + k ≤ maxOffset)
    (hn : n + k ≤ maxOffset) :
    Span.ofOffsets file ↑(m + k) ↑(n + k) = (Span.ofOffsets file ↑m ↑n).shift k := by
  rw [Span.ofOffsets, saturate_add hm, saturate_add hn]
  rfl

namespace Lexer

def shift (k : Nat) (l : Lexer) : Lexer := ⟨l.rest, l.offset + k, l.file⟩

theorem skipLayout_shift (k : Nat) (l : Lexer) :
    (l.shift k).skipLayout = l.skipLayout.shift k := by
  simp only [shift, skipLayout, Nat.add_right_comm]

theorem next?_shift {k : Nat} {l l' : Lexer} {t : Token} (h : l.limit + k ≤ maxOffset)
    (hl : l.next? = some (t, l')) : (l.shift k).next? = some (t.shift k, l'.shift k) := by
  have hlimit := limit_of_next? hl
  obtain ⟨c, cs, hd, rfl, rfl⟩ := eq_of_next? hl
  have hshift : (l.shift k).skipLayout.rest = c :: cs := by rw [skipLayout_shift, shift, hd]
  simp only [limit] at h hlimit
  rw [next?_of_skipLayout hshift, skipLayout_shift, shift, Token.shift,
    ← Span.ofOffsets_shift l.file (by omega) (by omega)]
  simp only [shift, Nat.add_right_comm]

theorem tokens_shift {k : Nat} {l : Lexer} (h : l.limit + k ≤ maxOffset) :
    (l.shift k).tokens = l.tokens.map (Token.shift k) := by
  induction l using tokens.induct with
  | case1 l hn =>
    have hd : l.rest.dropWhile isLayout = [] := next?_eq_none_iff.mp hn
    have hshift : (l.shift k).next? = none := next?_eq_none_iff.mpr hd
    rw [tokens_of_next?_none hn, tokens_of_next?_none hshift, List.map_nil]
  | case2 l t l' hl _ ih =>
    rw [tokens_of_next?_some hl, tokens_of_next?_some (next?_shift h hl), List.map_cons,
      ih (limit_of_next? hl ▸ h)]

theorem stop_shift {k : Nat} {l : Lexer} (h : l.limit + k ≤ maxOffset) :
    (l.shift k).stop = l.stop.shift k := by
  have hs : l.offset + k + byteLength l.rest = l.limit + k := Nat.add_right_comm _ _ _
  rw [stop, shift, hs, saturate_add h]
  rfl

end Lexer

theorem Report.ofLexer_shift {k : Nat} {l : Lexer} (h : l.limit + k ≤ maxOffset) :
    Report.ofLexer (l.shift k) = (Report.ofLexer l).shift k := by
  refine Report.ofLexer_relocated (.shift k) (Lexer.tokens_shift h) ?_
  change Token.shift k (.ofEnd l.stop) = .ofEnd (l.shift k).stop
  rw [Lexer.stop_shift h]
  rfl

end ScriptReader
