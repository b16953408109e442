import Mathlib.Data.List.TakeWhile
import ScriptReader.Proofs.Vocabulary

/-! Nothing of a source is lost in its tokens. The texts of the tokens and the
layout between them put together are the source, and every token knows the bytes
at which it stands. -/

namespace ScriptReader

open Text

theorem utf8ByteSize_ofList (cs : List Char) :
    (String.ofList cs).utf8ByteSize = byteLength cs := by
  induction cs with
  | nil => rfl
  | cons c cs ih =>
    rw [String.ofList_cons, String.utf8ByteSize_append, String.utf8ByteSize_singleton, ih,
      byteLength_cons]

theorem byteLength_toList (s : String) : byteLength s.toList = s.utf8ByteSize := by
  rw [← utf8ByteSize_ofList, String.ofList_toList]

/-- The bytes between the lengths of two prefixes are those of the characters between them. -/
theorem extract_bytes {s : String} {before text after : List Char}
    (h : s.toList = before ++ text ++ after) :
    s.toByteArray.extract (byteLength before) (byteLength (before ++ text)) =
      (String.ofList text).toByteArray := by
  have hs : s = String.ofList before ++ (String.ofList text ++ String.ofList after) := by
    rw [← String.ofList_append, ← String.ofList_append, ← List.append_assoc, ← h,
      String.ofList_toList]
  have hbefore := utf8ByteSize_ofList before
  have htext := utf8ByteSize_ofList text
  rw [← String.size_toByteArray] at hbefore htext
  rw [hs, byteLength_append, ← hbefore, ← htext, String.toByteArray_append,
    String.toByteArray_append, ← Nat.add_zero (String.ofList before).toByteArray.size,
    Nat.add_assoc, ByteArray.extract_append_size_add, Nat.zero_add,
    ByteArray.extract_append_eq_left rfl]

theorem getD_concat {α : Type} (as : List α) (a : α) (n : Nat) :
    (as ++ [a]).getD n a = as.getD n a := by
  induction as generalizing n with
  | nil => cases n <;> simp
  | cons b bs ih =>
    cases n with
    | zero => rfl
    | succ n => exact ih n

/-- A token and the layout in front of it. -/
structure Piece where
  gap : List Char
  token : Token

namespace Piece

def chars (p : Piece) : List Char := p.gap ++ p.token.text.toList

/-- There is nothing but layout in front of the token, and the token is more than an end. -/
structure WellFormed (p : Piece) : Prop where
  layout : ∀ c ∈ p.gap, isLayout c = true
  kind_ne : p.token.kind ≠ .eof
  text_ne : p.token.text ≠ ""

/-- The token knows its place in `file`, where the piece begins at the byte `n`. -/
def Placed (file : String) (n : Nat) (p : Piece) : Prop :=
  p.token.span = .ofOffsets file ↑(n + byteLength p.gap) ↑(n + byteLength p.chars)

/-- The token is the one with which its text begins, when `behind` stands behind it. -/
def CutFrom (behind : List Char) (p : Piece) : Prop :=
  ∃ c cs, p.token.text.toList ++ behind = c :: cs ∧ p.token.text.toList = (lexeme c cs).chars

end Piece

namespace Lexer

theorem piece_of_next? {l l' : Lexer} {t : Token} (h : l.next? = some (t, l')) :
    ∃ p : Piece, p.token = t ∧ l.rest = p.chars ++ l'.rest ∧
      l'.offset = l.offset + byteLength p.chars ∧ l'.file = l.file ∧ p.WellFormed ∧
      p.Placed l.file l.offset := by
  have hspelled := spelled_of_mem_tokens (l := l) (t := t) (by simp [tokens_of_next?_some h])
  obtain ⟨c, cs, hrest, rfl, rfl⟩ := eq_of_next? h
  have hd : l.rest.dropWhile isLayout = c :: cs := hrest
  have hoffset : l.skipLayout.offset = l.offset + byteLength (l.rest.takeWhile isLayout) := rfl
  refine ⟨⟨l.rest.takeWhile isLayout, _⟩, rfl, ?_, ?_, rfl,
    ⟨fun x hx => ?_, hspelled.kind_ne_eof, ?_⟩, ?_⟩
  · rw [Piece.chars, String.toList_ofList, List.append_assoc, lexeme_append, ← hd,
      List.takeWhile_append_dropWhile]
  · rw [Piece.chars, String.toList_ofList, byteLength_append, ← Nat.add_assoc, hoffset]
  · exact List.all_eq_true.mp List.all_takeWhile x hx
  · rw [ne_eq, String.ofList_eq_empty_iff]
    exact lexeme_chars_ne_nil c cs
  · rw [Piece.Placed, Piece.chars, String.toList_ofList, byteLength_append, ← Nat.add_assoc]
    rfl

theorem cutFrom_of_next? {l l' : Lexer} {p : Piece} (h : l.next? = some (p.token, l')) :
    p.CutFrom l'.rest := by
  obtain ⟨c, cs, -, ht, rfl⟩ := eq_of_next? h
  refine ⟨c, cs, ?_, ?_⟩ <;> rw [ht, String.toList_ofList]
  exact lexeme_append c cs

/-- What is left of a source is cut into pieces, and layout behind them. -/
theorem exists_pieces (l : Lexer) :
    ∃ (ps : List Piece) (last : List Char), l.tokens = ps.map Piece.token ∧
      l.rest = ps.flatMap Piece.chars ++ last ∧ (∀ c ∈ last, isLayout c = true) ∧
      (∀ p ∈ ps, p.WellFormed) ∧
      ∀ pre p post, ps = pre ++ p :: post →
        p.Placed l.file (l.offset + byteLength (pre.flatMap Piece.chars)) ∧
          p.CutFrom (post.flatMap Piece.chars ++ last) := by
  induction l using tokens.induct with
  | case1 l hn =>
    have hlayout : ∀ c ∈ l.rest, isLayout c = true :=
      List.dropWhile_eq_nil_iff.mp (next?_eq_none_iff.mp hn)
    exact ⟨[], l.rest, tokens_of_next?_none hn, rfl, hlayout, by simp, by simp⟩
  | case2 l t l' hl _ ih =>
    obtain ⟨ps, last, hts, hrest, hlast, hwf, hplaced⟩ := ih
    obtain ⟨p, rfl, hchars, hoffset, hfile, hp, hat⟩ := piece_of_next? hl
    refine ⟨p :: ps, last, ?_, ?_, hlast, List.forall_mem_cons.mpr ⟨hp, hwf⟩, ?_⟩
    · rw [tokens_of_next?_some hl, hts, List.map_cons]
    · rw [hchars, hrest, List.flatMap_cons, List.append_assoc]
    · intro pre q post hq
      rcases List.cons_eq_append_iff.mp hq with ⟨rfl, hpost⟩ | ⟨pre', rfl, hpost⟩
      · obtain ⟨rfl, rfl⟩ := List.cons.inj hpost
        exact ⟨hat, hrest ▸ cutFrom_of_next? hl⟩
      · have hbehind := hplaced pre' q post hpost
        rwa [hfile, hoffset, Nat.add_assoc, ← byteLength_append, ← List.flatMap_cons] at hbehind

theorem endToken_eq (l : Lexer) : l.endToken = .ofEnd ⟨saturate ↑l.limit, l.file⟩ := rfl

theorem endToken_of_next? {l l' : Lexer} {t : Token} (h : l.next? = some (t, l')) :
    l'.endToken = l.endToken := by
  obtain ⟨_, -, -, -, hfile, -, -⟩ := piece_of_next? h
  rw [endToken_eq, endToken_eq, limit_of_next? h, hfile]

theorem next?_skipLayout_of_none {l : Lexer} (h : l.next? = none) : l.skipLayout.next? = none := by
  have hd : l.skipLayout.rest = [] := next?_eq_none_iff.mp h
  exact next?_eq_none_iff.mpr (by rw [hd, List.dropWhile_nil])

theorem stop_skipLayout (l : Lexer) : l.skipLayout.stop = l.stop := by
  have hlimit := limit_skipLayout l
  simp only [limit] at hlimit
  simp only [stop, hlimit]
  rfl

/-- Once nothing but layout is left, a lexer gives the end token for ever. -/
theorem next_skip_of_none {l : Lexer} (h : l.next? = none) (n : Nat) :
    (l.skip n).next.1 = l.endToken := by
  have hnext : l.next = (l.endToken, l.skipLayout) := by rw [next, h, Option.getD_none]
  induction n generalizing l with
  | zero => rw [skip, hnext]
  | succ n ih =>
    have hskip := next?_skipLayout_of_none h
    have hend : l.skipLayout.endToken = l.endToken := congrArg Token.ofEnd (stop_skipLayout l)
    rw [skip, hnext]
    exact (ih hskip (by rw [next, hskip, Option.getD_none])).trans hend

/-- A lexer gives its tokens one by one, and then the end token for ever. -/
theorem next_skip (l : Lexer) (n : Nat) : (l.skip n).next.1 = l.tokens.getD n l.endToken := by
  induction l using tokens.induct generalizing n with
  | case1 l hn => rw [next_skip_of_none hn, tokens_of_next?_none hn, List.getD_nil]
  | case2 l t l' hl _ ih =>
    have hnext : l.next = (t, l') := by rw [next, hl, Option.getD_some]
    rw [tokens_of_next?_some hl]
    cases n with
    | zero => rw [skip, hnext, List.getD_cons_zero]
    | succ n => rw [skip, hnext, ih, List.getD_cons_succ, endToken_of_next? hl]

end Lexer

/-- The tokens of a source are spelled out in it one behind the other, with layout between them:
token texts and layout put together are the source. Every token but the last has a text, which is
that of the bytes where the token stands. The last is the end token at the end of the source. Asked
for one by one, the tokens come in this order, and then the end token comes for ever. -/
theorem tokenize_lossless (source : String) (file : Option String) :
    let endToken : Token := .ofEnd ⟨saturate source.utf8ByteSize, fileName file⟩
    ∃ (ps : List Piece) (last : List Char),
      tokenize source file = ps.map Piece.token ++ [endToken] ∧
      source.toList = ps.flatMap Piece.chars ++ last ∧
      (∀ c ∈ last, isLayout c = true) ∧
      (∀ p ∈ ps, (∀ c ∈ p.gap, isLayout c = true) ∧ p.token.kind ≠ .eof ∧ p.token.text ≠ "") ∧
      (∀ pre p post, ps = pre ++ p :: post →
        let start := byteLength (pre.flatMap Piece.chars ++ p.gap)
        let stop := byteLength (pre.flatMap Piece.chars ++ p.chars)
        p.token.span = .ofOffsets (fileName file) start stop ∧
          source.toByteArray.extract start stop = p.token.text.toByteArray) ∧
      ∀ n, ((Lexer.ofSource source file).skip n).next.1 =
        (tokenize source file).getD n endToken := by
  intro endToken
  have hend : (Lexer.ofSource source file).endToken = endToken := by
    rw [Lexer.endToken_eq, Lexer.limit, Lexer.ofSource, byteLength_toList, Nat.zero_add]
  obtain ⟨ps, last, hts, hrest, hlast, hwf, hplaced⟩ := (Lexer.ofSource source file).exists_pieces
  have hsource : source.toList = ps.flatMap Piece.chars ++ last := hrest
  refine ⟨ps, last, ?_, hsource, hlast, fun p hp => ?_, ?_, fun n => ?_⟩
  · rw [tokenize, hend, hts]
  · exact ⟨(hwf p hp).layout, (hwf p hp).kind_ne, (hwf p hp).text_ne⟩
  · rintro pre p post rfl start stop
    obtain ⟨hat, -⟩ := hplaced pre p post rfl
    constructor
    · have hstart : start = byteLength (pre.flatMap Piece.chars) + byteLength p.gap :=
        byteLength_append _ _
      have hstop : stop = byteLength (pre.flatMap Piece.chars) + byteLength p.chars :=
        byteLength_append _ _
      rw [hstart, hstop, hat]
      simp [Lexer.ofSource]
    · have hsplit : source.toList = pre.flatMap Piece.chars ++ p.gap ++ p.token.text.toList ++
          (post.flatMap Piece.chars ++ last) := by
        simp [hsource, Piece.chars]
      have hbytes := extract_bytes hsplit
      rwa [String.ofList_toList, List.append_assoc] at hbytes
  · rw [Lexer.next_skip, hend, tokenize, hend, getD_concat]

end ScriptReader
