import Mathlib.Data.List.Chain
import Mathlib.Data.List.Forall2
import ScriptReader.Proofs.Embedding.Turns
import ScriptReader.Proofs.Failing.Order
import ScriptReader.Proofs.Joining

/-! Nothing is read from the layout of a source or from its name. The same
tokens with other layout between them make the same program, and diagnostics
about the same tokens. -/

namespace ScriptReader

open Text

/-! The tokens of a text with other layout. -/

/-- The texts of the tokens in their order, with layout before and behind each. Between two tokens
there is some, unless they stood side by side. -/
def Respaced (ts : List Token) (cs : List Char) : Prop :=
  ∃ (ps : List Piece) (last : List Char), ps.map Piece.token = ts ∧
    cs = ps.flatMap Piece.chars ++ last ∧ (∀ p ∈ ps, ∀ c ∈ p.gap, isLayout c = true) ∧
    (∀ c ∈ last, isLayout c = true) ∧
    ps.IsChain fun p q => q.gap = [] → p.token.span.stop = q.token.span.start

/-- What may stand behind a token in place of the text `cs`: the same character or layout. -/
def Follows (cs ds : List Char) : Prop :=
  ∀ c, ds.head? = some c → isLayout c = true ∨ cs.head? = some c

theorem follows_of_layout {cs ds : List Char} (h : ∀ c ∈ ds, isLayout c = true) :
    Follows cs ds :=
  fun c hc => .inl (h c (List.mem_of_head? hc))

theorem follows_append {gap cs ds : List Char} (h : ∀ c ∈ gap, isLayout c = true)
    (hds : gap = [] → Follows cs ds) : Follows cs (gap ++ ds) := by
  cases gap with
  | nil => exact hds rfl
  | cons a gap =>
    rintro _ ⟨⟩
    exact .inl (h a List.mem_cons_self)

/-- A token is cut off before any text that may follow it. -/
theorem lexeme_follows {c : Char} {cs ds : List Char} (h : Follows (lexeme c cs).rest ds) :
    ∃ w, (lexeme c cs).chars = c :: w ∧
      lexeme c (w ++ ds) = ⟨(lexeme c cs).kind, c :: w, ds⟩ := by
  refine exists_lexeme_append fun d hd => ?_
  rcases h d hd with hlayout | hsame
  · exact TokenKind.not_joinsWith_of_isLayout _ hlayout
  · exact lexeme_not_joinsWith hsame

namespace Lexer

/-- A token that starts where the lexer stands has no layout in front of it. -/
theorem head?_of_next? {l l' : Lexer} {t : Token} (h : l.next? = some (t, l'))
    (hlimit : l.limit ≤ maxOffset) (hstart : t.span.start = ⟨saturate ↑l.offset, l.file⟩) :
    ∃ c w, t.text.toList = c :: w ∧ l.rest.head? = some c := by
  have hl' := limit_of_next? h
  obtain ⟨p, rfl, hrest, hoffset, -, hwf, hspan⟩ := piece_of_next? h
  have htext : p.token.text.toList ≠ [] := by simpa using hwf.text_ne
  obtain ⟨c, w, hw⟩ := List.exists_cons_of_ne_nil htext
  have hsame : saturate ↑(l.offset + byteLength p.gap) = saturate ↑l.offset := by
    rw [hspan] at hstart
    exact congrArg Position.offset hstart
  have hgap : p.gap = [] := by
    by_contra hne
    have hpos := byteLength_pos hne
    simp only [Piece.chars, byteLength_append] at hoffset
    simp only [limit] at hl' hlimit
    rw [saturate_natCast, saturate_natCast] at hsame
    omega
  refine ⟨c, w, hw, ?_⟩
  rw [hrest, Piece.chars, hgap, hw, List.nil_append, List.cons_append, List.head?_cons]

theorem follows_of_pieces {l : Lexer} (hlimit : l.limit ≤ maxOffset)
    {ps : List Piece} {last : List Char} (hts : ps.map Piece.token = l.tokens)
    (hgaps : ∀ p ∈ ps, ∀ c ∈ p.gap, isLayout c = true) (hlast : ∀ c ∈ last, isLayout c = true)
    (hnear : ∀ p, ps.head? = some p → p.gap = [] →
      p.token.span.start = ⟨saturate ↑l.offset, l.file⟩) :
    Follows l.rest (ps.flatMap Piece.chars ++ last) := by
  cases ps with
  | nil => exact follows_of_layout hlast
  | cons p ps =>
    rw [List.flatMap_cons, Piece.chars, List.append_assoc, List.append_assoc]
    refine follows_append (hgaps p List.mem_cons_self) fun hgap => ?_
    cases hl : l.next? with
    | none => simp [tokens_of_next?_none hl] at hts
    | some r =>
      obtain ⟨t, l'⟩ := r
      rw [tokens_of_next?_some hl, List.map_cons] at hts
      obtain ⟨rfl, -⟩ := List.cons.inj hts
      obtain ⟨c, w, hw, hhead⟩ := head?_of_next? hl hlimit (hnear p rfl hgap)
      rw [hw, List.cons_append]
      rintro _ ⟨⟩
      exact .inr hhead

/-- The tokens of a text do not depend on its layout, but for where there is none. -/
theorem signs_of_respaced {l : Lexer} {cs : List Char} (hlimit : l.limit ≤ maxOffset)
    (h : Respaced l.tokens cs) : signs cs = l.tokens.map Token.sign := by
  induction l using tokens.induct generalizing cs with
  | case1 l hn =>
    obtain ⟨ps, last, hts, rfl, -, hlast, -⟩ := h
    rw [tokens_of_next?_none hn] at hts ⊢
    obtain rfl := List.map_eq_nil_iff.mp hts
    have hsigns : signs (last ++ []) = signs [] := signs_layouts hlast
    rwa [List.append_nil, signs_nil] at hsigns
  | case2 l t l' hl _ ih =>
    obtain ⟨ps, last, hts, rfl, hgaps, hlast, hchain⟩ := h
    rw [tokens_of_next?_some hl] at hts ⊢
    obtain ⟨p, qs, rfl, rfl, hqs⟩ := List.map_eq_cons_iff.mp hts
    have hl' : l'.limit ≤ maxOffset := limit_of_next? hl ▸ hlimit
    obtain ⟨hnear, hchain⟩ := List.isChain_cons.mp hchain
    obtain ⟨hgap, hgaps⟩ := List.forall_mem_cons.mp hgaps
    have hbehind := ih hl' ⟨qs, last, hqs, rfl, hgaps, hlast, hchain⟩
    obtain ⟨c, cs, hd, ht, rfl⟩ := eq_of_next? hl
    -- What follows the token in both texts tells it from a longer one in the same way.
    have hfollows := follows_of_pieces hl' hqs hgaps hlast fun q hq hnone => by
      rw [← hnear q hq hnone, ht]
      rfl
    have hlayout : isLayout c = false := by
      have hnot := List.head?_dropWhile_not isLayout l.rest
      rwa [show l.rest.dropWhile isLayout = c :: cs from hd] at hnot
    obtain ⟨w, hw, hx⟩ := lexeme_follows hfollows
    have htext : p.token.text.toList = c :: w := by rw [ht, String.toList_ofList, hw]
    rw [List.flatMap_cons, Piece.chars, List.append_assoc, List.append_assoc, signs_layouts hgap,
      htext, List.cons_append, signs_lexeme hlayout, hx, hbehind, List.map_cons, ht, Token.sign, hw]

end Lexer

/-! The same tokens at other places. -/

/-- Like `r`, but the token at `p` is moved to `span`. -/
def Relocation.update (r : Relocation) (p : Position) (span : Span) : Relocation where
  token t := if t.span.start = p then ⟨t.kind, t.text, span⟩ else r.token t
  place q := if q = p then span.start else r.place q
  kind_token t := by
    split
    · rfl
    · exact r.kind_token t
  text_token t := by
    split
    · rfl
    · exact r.text_token t
  start_token t := by
    split
    · rfl
    · exact r.start_token t

/-- Tokens can be moved to any places if each starts at a place of its own. -/
theorem exists_relocation {ts us : List Token} (h : Ascending ts)
    (hsigns : ts.map Token.sign = us.map Token.sign) :
    ∃ r : Relocation, ts.map r.token = us := by
  induction ts generalizing us with
  | nil =>
    rw [List.map_nil, eq_comm, List.map_eq_nil_iff] at hsigns
    exact ⟨.same, hsigns.symm⟩
  | cons t ts ih =>
    rw [List.map_cons, eq_comm, List.map_eq_cons_iff] at hsigns
    obtain ⟨u, us, rfl, hu, hus⟩ := hsigns
    obtain ⟨hlt, hts⟩ := List.pairwise_cons.mp h
    obtain ⟨r, rfl⟩ := ih hts hus.symm
    refine ⟨r.update t.span.start u.span, ?_⟩
    have hhead : (r.update t.span.start u.span).token t = u := by
      obtain ⟨hkind, htext⟩ := Prod.mk.inj hu
      simp only [Relocation.update, if_true, ← hkind, ← htext]
    -- The other tokens start further on, so they stay where `r` has put them.
    have htail : ts.map (r.update t.span.start u.span).token = ts.map r.token := by
      refine List.map_congr_left fun t' ht' => if_neg fun heq => ?_
      exact Nat.lt_irrefl _ (heq ▸ hlt t' ht')
    rw [List.map_cons, hhead, htail]

def Token.unplaced (t : Token) : Token := ⟨t.kind, t.text, ⟨.null, .null⟩⟩

/-- The program with its tokens at no place at all. -/
def Program.unplaced (p : Program) : Program := p.mapTokens Token.unplaced

theorem Relocation.unplaced_report (r : Relocation) (R : Report) :
    (r.report R).program.unplaced = R.program.unplaced := by
  have hcomp : Token.unplaced ∘ r.token = Token.unplaced := by
    funext t
    simp only [Function.comp_apply, Token.unplaced, r.kind_token, r.text_token]
  rw [Relocation.report, Program.unplaced, Program.mapTokens_mapTokens, hcomp]
  rfl

/-- The diagnostic is about the token with the index `i`. -/
def Diagnostic.StandsAt (e : Diagnostic) (ts : List Token) (i : Nat) : Prop :=
  ∀ j, (∃ t, ts[j]? = some t ∧ t.span.start = e.position) ↔ j = i

theorem standsAt_of_ascending {ts : List Token} {t : Token} {e : Diagnostic} {i : Nat}
    (h : Ascending ts) (ht : ts[i]? = some t) (hstart : t.span.start = e.position) :
    e.StandsAt ts i := by
  intro j
  constructor
  · rintro ⟨u, hu, hustart⟩
    have hsame := hustart.trans hstart.symm
    exact Nat.le_antisymm (h.index_le hu ht hsame) (h.index_le ht hu hsame.symm)
  · rintro rfl
    exact ⟨t, ht, hstart⟩

/-- With other layout and another name, a source has the same tokens, the same program, and the
same diagnostics about the same tokens. -/
theorem ofSource_respaced {source source' : String} {file file' : Option String}
    (hlength : source.utf8ByteSize < 4294967296) (hlength' : source'.utf8ByteSize < 4294967296)
    (h : Respaced (tokenize source file).dropLast source'.toList) :
    (tokenize source' file').map Token.sign = (tokenize source file).map Token.sign ∧
      (Report.ofSource source' file').program.unplaced =
        (Report.ofSource source file).program.unplaced ∧
      List.Forall₂ (fun e' e => e'.cause = e.cause ∧
          ∃ i, e'.StandsAt (tokenize source' file') i ∧ e.StandsAt (tokenize source file) i)
        (Report.ofSource source' file').diagnostics (Report.ofSource source file).diagnostics := by
  let l := Lexer.ofSource source file
  let l' := Lexer.ofSource source' file'
  have hascending : Ascending (l.tokens ++ [l.endToken]) :=
    Lexer.ascending_tokens (Lexer.limit_ofSource_le hlength)
  have hascending' : Ascending (l'.tokens ++ [l'.endToken]) :=
    Lexer.ascending_tokens (Lexer.limit_ofSource_le hlength')
  rw [← ahead_ofSource] at h
  have hsigns : (l'.tokens ++ [l'.endToken]).map Token.sign =
      (l.tokens ++ [l.endToken]).map Token.sign := by
    have htokens := Lexer.signs_of_respaced (Lexer.limit_ofSource_le hlength) h
    rw [List.map_append, List.map_append, Lexer.map_sign_tokens]
    exact congrArg (· ++ [(TokenKind.eof, "")]) htokens
  obtain ⟨r, hr⟩ := exists_relocation hascending hsigns.symm
  obtain ⟨htokens, hend⟩ := List.append_inj' (List.map_append.symm.trans hr) rfl
  have hreport : Report.ofSource source' file' = r.report (Report.ofSource source file) :=
    Report.ofLexer_relocated r htokens.symm (List.cons.inj hend).1
  refine ⟨hsigns, hreport ▸ r.unplaced_report _, ?_⟩
  have hds : (Report.ofSource source' file').diagnostics =
      (Report.ofSource source file).diagnostics.map r.diagnostic :=
    congrArg Report.diagnostics hreport
  rw [hds, List.forall₂_map_left_iff, List.forall₂_same]
  intro e he
  obtain ⟨t, ht, hposition, -⟩ := exists_token_of_mem_diagnostics (orderly_ofSource hlength) he
  obtain ⟨i, hi⟩ := List.mem_iff_getElem?.mp ht
  have hi' : (l'.tokens ++ [l'.endToken])[i]? = some (r.token t) := by
    rw [← hr, List.getElem?_map]
    exact congrArg (Option.map r.token) hi
  refine ⟨rfl, i, standsAt_of_ascending hascending' hi' ?_,
    standsAt_of_ascending hascending hi hposition.symm⟩
  rw [r.start_token, ← hposition]
  rfl

/-- A sum with a stray sign in it, as it stands and on two lines of another source. -/
theorem ofSource_respaced_stray :
    let source := String.ofList ['1', '+', '@']
    let source' := String.ofList [' ', '1', '+', '\n', '@', '\t']
    let other := some "other"
    source.utf8ByteSize < 4294967296 ∧ source'.utf8ByteSize < 4294967296 ∧
      Respaced (tokenize source none).dropLast source'.toList ∧
      (Report.ofSource source none).diagnostics = [⟨.unrecognised "@", ⟨2, "shell"⟩⟩] ∧
      (tokenize source' other).map Token.sign = (tokenize source none).map Token.sign ∧
      (Report.ofSource source' other).program.unplaced =
        (Report.ofSource source none).program.unplaced ∧
      List.Forall₂ (fun e' e => e'.cause = e.cause ∧
          ∃ i, e'.StandsAt (tokenize source' other) i ∧ e.StandsAt (tokenize source none) i)
        (Report.ofSource source' other).diagnostics (Report.ofSource source none).diagnostics := by
  intro source source' other
  have hsource : Lexer.ofSource source none = ⟨['1', '+', '@'], 0, "shell"⟩ := by decide
  have hlength : source.utf8ByteSize < 4294967296 := by
    rw [utf8ByteSize_ofList]
    decide
  have hlength' : source'.utf8ByteSize < 4294967296 := by
    rw [utf8ByteSize_ofList]
    decide
  have hds : (Report.ofSource source none).diagnostics =
      [⟨.unrecognised "@", ⟨2, "shell"⟩⟩] := by
    rw [Report.ofSource, hsource]
    decide +kernel
  have hrespaced : Respaced (tokenize source none).dropLast source'.toList := by
    have htokens : (tokenize source none).dropLast =
        [⟨.integer, "1", .ofOffsets "shell" 0 1⟩, ⟨.plus, "+", .ofOffsets "shell" 1 2⟩,
          ⟨.illegal, "@", .ofOffsets "shell" 2 3⟩] := by
      rw [← ahead_ofSource, Cursor.ofSource, hsource]
      decide +kernel
    rw [htokens, String.toList_ofList]
    refine ⟨[⟨[' '], _⟩, ⟨[], _⟩, ⟨['\n'], _⟩], ['\t'], rfl, ?_, ?_, ?_, ?_⟩
    · decide
    · simp [isLayout]
    · simp [isLayout]
    · simp only [List.isChain_cons_cons, List.isChain_singleton, and_true]
      decide
  exact ⟨hlength, hlength', hrespaced, hds, ofSource_respaced hlength hlength' hrespaced⟩

end ScriptReader
