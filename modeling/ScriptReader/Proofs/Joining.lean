import ScriptReader.Proofs.LongestMatch
import ScriptReader.Proofs.Shift
import ScriptReader.Proofs.Source.Lines

/-! Texts one directly behind the other. Together they have the tokens of the
first and then those of the second, unless the second goes on with the last
token of the first. -/

namespace ScriptReader

open Text

/-- Directly behind a token of the kind, the character belongs to the token. -/
def TokenKind.JoinsWith (k : TokenKind) (c : Char) : Prop :=
  k ∈ wordKinds ∧ isLetter c = true ∨ k = .integer ∧ isDecimal c = true ∨
    (k = .assign ∨ k = .bang) ∧ c = '='

instance (k : TokenKind) (c : Char) : Decidable (k.JoinsWith c) :=
  inferInstanceAs (Decidable (_ ∨ _))

/-- A spelled out token is cut off in front of whatever does not join with it. -/
theorem Spelling.lexeme_append {k : TokenKind} {c : Char} {w cs : List Char}
    (h : Spelling k (c :: w)) (hcs : ∀ d, cs.head? = some d → ¬k.JoinsWith d) :
    lexeme c (w ++ cs) = ⟨k, c :: w, cs⟩ := by
  generalize hv : c :: w = v at h
  cases h with
  | word hne hw =>
    subst hv
    have hstop : ∀ d, cs.head? = some d → isWordChar d = false := by
      intro d hd
      refine Bool.eq_false_iff.mpr fun hletter => hcs d hd (.inl ⟨TokenKind.ofWord_mem _, ?_⟩)
      rw [isLetter_eq, hletter]
    have hrun := takeWhile_run (fun d hd => hw d (List.mem_cons_of_mem c hd)) hstop
    simp only [lexeme, hw c List.mem_cons_self, if_true, Lexeme.ofRun, hrun.1, hrun.2]
  | number hne hw =>
    subst hv
    have hc := hw c List.mem_cons_self
    have hstop : ∀ d, cs.head? = some d → d.isDigit = false := by
      intro d hd
      refine Bool.eq_false_iff.mpr fun hdigit => hcs d hd (.inr (.inl ⟨rfl, ?_⟩))
      rw [isDecimal_eq, hdigit]
    have hrun := takeWhile_run (fun d hd => hw d (List.mem_cons_of_mem c hd)) hstop
    simp only [lexeme, isWordChar_eq_false_of_isDigit hc, hc, if_true, Bool.false_eq_true, if_false,
      Lexeme.ofRun, hrun.1, hrun.2]
  | @symbol a hw hd =>
    obtain ⟨rfl, rfl⟩ := List.cons.inj hv
    simp only [lexeme, hw, hd, Bool.false_eq_true, if_false, List.nil_append, Lexeme.ofSymbol]
    split
    · rename_i kind rest hkind
      -- Only `=` and `!` have another kind with `=` behind them.
      have hsign : symbolKind c = .assign ∨ symbolKind c = .bang := by
        have hm := lookup_eq_some_mem hkind
        simp only [List.mem_cons, Prod.mk.injEq, List.not_mem_nil, or_false] at hm
        rcases hm with ⟨rfl, -⟩ | ⟨rfl, -⟩ <;> decide
      exact absurd (.inr (.inr ⟨hsign, rfl⟩)) (hcs '=' rfl)
    · rfl
  | @doubled a _ hk =>
    obtain ⟨rfl, rfl⟩ := List.cons.inj hv
    have hm := lookup_eq_some_mem hk
    simp only [List.mem_cons, Prod.mk.injEq, List.not_mem_nil, or_false] at hm
    rcases hm with ⟨rfl, rfl⟩ | ⟨rfl, rfl⟩ <;> rfl

/-- The character behind a token does not join with it. -/
theorem Piece.CutFrom.not_joinsWith {p : Piece} {behind : List Char} {c : Char}
    (h : p.CutFrom behind) (hspelled : p.token.Spelled) (hc : behind.head? = some c) :
    ¬p.token.kind.JoinsWith c := by
  obtain ⟨hword, hnumber, hsign⟩ := h.next_char hspelled hc
  rintro (⟨hk, hletter⟩ | ⟨hk, hdigit⟩ | ⟨hk, heq⟩)
  · simp [hword hk] at hletter
  · simp [hnumber hk] at hdigit
  · exact hsign hk heq

theorem TokenKind.not_joinsWith_of_isLayout (k : TokenKind) {c : Char} (h : isLayout c = true) :
    ¬k.JoinsWith c := by
  rintro (⟨-, hletter⟩ | ⟨-, hdigit⟩ | ⟨-, rfl⟩)
  · rw [isLetter_eq] at hletter
    simp [isLayout_eq_false_of_isWordChar hletter] at h
  · rw [isDecimal_eq] at hdigit
    simp [isLayout_eq_false_of_isDigit hdigit] at h
  · contradiction

theorem lexeme_not_joinsWith {c d : Char} {cs : List Char}
    (h : (lexeme c cs).rest.head? = some d) : ¬(lexeme c cs).kind.JoinsWith d := by
  let p : Piece := ⟨[], (lexeme c cs).kind, String.ofList (lexeme c cs).chars, ⟨.null, .null⟩⟩
  have hchars : p.token.text.toList = (lexeme c cs).chars := String.toList_ofList
  have hcut : p.CutFrom (lexeme c cs).rest := ⟨c, cs, by rw [hchars, lexeme_append], hchars⟩
  have hspelled : p.token.Spelled := by
    rw [Token.Spelled, hchars]
    exact lexeme_spelling c cs
  exact hcut.not_joinsWith hspelled h

/-- A token is cut off in the same way in front of another text that does not join with it. -/
theorem exists_lexeme_append {c : Char} {cs ds : List Char}
    (h : ∀ d, ds.head? = some d → ¬(lexeme c cs).kind.JoinsWith d) :
    ∃ w, (lexeme c cs).chars = c :: w ∧
      lexeme c (w ++ ds) = ⟨(lexeme c cs).kind, c :: w, ds⟩ := by
  obtain ⟨a, w, hw⟩ := List.exists_cons_of_ne_nil (lexeme_chars_ne_nil c cs)
  have hchars := lexeme_append c cs
  rw [hw, List.cons_append] at hchars
  obtain ⟨rfl, -⟩ := List.cons.inj hchars
  have hspelling := lexeme_spelling a cs
  rw [hw] at hspelling
  exact ⟨w, hw, hspelling.lexeme_append h⟩

namespace Lexer

/-- The text with another directly behind it. -/
def append (l : Lexer) (b : List Char) : Lexer := ⟨l.rest ++ b, l.offset, l.file⟩

/-- The text `b` where the text of the lexer ends. -/
def past (l : Lexer) (b : List Char) : Lexer := ⟨b, l.limit, l.file⟩

theorem limit_append (l : Lexer) (b : List Char) : (l.append b).limit = (l.past b).limit := by
  simp only [append, past, limit, byteLength_append, Nat.add_assoc]

theorem endToken_append (l : Lexer) (b : List Char) :
    (l.append b).endToken = (l.past b).endToken := by
  rw [endToken_eq, endToken_eq, limit_append]
  rfl

theorem tokens_of_skipLayout {l l' : Lexer} (h : l.skipLayout = l'.skipLayout) :
    l.tokens = l'.tokens := by
  have hn : l.next? = l'.next? := by rw [next?, h, next?]
  cases hl : l.next? with
  | none => rw [tokens_of_next?_none hl, tokens_of_next?_none (hn ▸ hl)]
  | some x =>
    obtain ⟨t, m⟩ := x
    have hl' : l'.next? = some (t, m) := hn ▸ hl
    rw [tokens_of_next?_some hl, tokens_of_next?_some hl']

theorem skipLayout_append_of_none {l : Lexer} (h : l.next? = none) (b : List Char) :
    (l.append b).skipLayout = (l.past b).skipLayout := by
  have hl : ∀ c ∈ l.rest, isLayout c = true := List.dropWhile_eq_nil_iff.mp (next?_eq_none_iff.mp h)
  simp only [append, past, skipLayout, limit, List.dropWhile_append_of_pos hl,
    List.takeWhile_append_of_pos hl, byteLength_append, Nat.add_assoc]

theorem skipLayout_append_of_cons {l : Lexer} {c : Char} {cs : List Char}
    (h : l.skipLayout.rest = c :: cs) (b : List Char) :
    (l.append b).skipLayout = l.skipLayout.append b := by
  have hd : l.rest.dropWhile isLayout = c :: cs := h
  have hstop : ∀ d, (c :: (cs ++ b)).head? = some d → isLayout d = false := by
    have hhead := List.head?_dropWhile_not isLayout l.rest
    rw [hd] at hhead
    rintro _ ⟨⟩
    exact hhead
  -- The layout ends at `c`, with or without another text behind.
  have hsplit : l.rest ++ b = l.rest.takeWhile isLayout ++ c :: (cs ++ b) := by
    rw [← List.cons_append, ← hd, ← List.append_assoc, List.takeWhile_append_dropWhile]
  have hlayout : ∀ d ∈ l.rest.takeWhile isLayout, isLayout d = true :=
    fun _ => List.mem_takeWhile_imp
  have hrun := takeWhile_run hlayout hstop
  rw [← hsplit] at hrun
  simp only [append, skipLayout, hrun.1, hrun.2, hd, List.cons_append]

theorem next?_append {l l' : Lexer} {t : Token} {b : List Char} (h : l.next? = some (t, l'))
    (hb : l'.rest = [] → ∀ c, b.head? = some c → ¬t.kind.JoinsWith c) :
    (l.append b).next? = some (t, l'.append b) := by
  obtain ⟨c, cs, hd, rfl, rfl⟩ := eq_of_next? h
  have hskip := skipLayout_append_of_cons hd b
  have hrest : (l.append b).skipLayout.rest = c :: (cs ++ b) := by
    rw [hskip, append, hd, List.cons_append]
  have hbehind : ∀ d, ((lexeme c cs).rest ++ b).head? = some d →
      ¬(lexeme c cs).kind.JoinsWith d := by
    cases hx : (lexeme c cs).rest with
    | nil => exact hb hx
    | cons a rest =>
      rintro _ ⟨⟩
      exact lexeme_not_joinsWith (by rw [hx, List.head?_cons])
  obtain ⟨w, hw, hlexeme⟩ := exists_lexeme_append hbehind
  have hchars := lexeme_append c cs
  rw [hw, List.cons_append] at hchars
  rw [← List.append_assoc, (List.cons.inj hchars).2, ← hw] at hlexeme
  rw [next?_of_skipLayout hrest, hlexeme, hskip]
  rfl

/-- The tokens of two texts come one behind the other, if what is at the seam does not join. -/
theorem tokens_append {l : Lexer} {b : List Char}
    (h : ∀ t c, l.tokens.getLast? = some t → t.span.stop = l.stop → b.head? = some c →
      ¬t.kind.JoinsWith c) :
    (l.append b).tokens = l.tokens ++ (l.past b).tokens := by
  induction l using tokens.induct with
  | case1 l hn =>
    rw [tokens_of_skipLayout (skipLayout_append_of_none hn b), tokens_of_next?_none hn,
      List.nil_append]
  | case2 l t l' hl _ ih =>
    have hlimit := limit_of_next? hl
    obtain ⟨p, rfl, -, hoffset, hfile, -, hplaced⟩ := piece_of_next? hl
    have hpast : l'.past b = l.past b := by rw [past, past, hlimit, hfile]
    have hstop : l'.stop = l.stop := congrArg (fun t => t.span.stop) (endToken_of_next? hl)
    rw [tokens_of_next?_some hl] at h ⊢
    have hnext : (l.append b).next? = some (p.token, l'.append b) := by
      refine next?_append hl fun hnil c hc => h p.token c ?_ ?_ hc
      · have hend : l'.next? = none := next?_eq_none_iff.mpr (by rw [hnil, List.dropWhile_nil])
        rw [tokens_of_next?_none hend, List.getLast?_singleton]
      · rw [hplaced, ← hstop, stop, hnil, hoffset, hfile]
        rfl
    rw [tokens_of_next?_some hnext, ih fun t c ht ht' => ?_, hpast, List.cons_append]
    exact h t c (by rw [List.getLast?_cons, ht, Option.getD_some]) (ht'.trans hstop)

/-- A token that is cut off as before with another text directly behind it does not join with it. -/
theorem not_joinsWith_of_tokens_append {l : Lexer} {b : List Char} {ts : List Token} {t : Token}
    {c : Char} (hlimit : (l.append b).limit ≤ maxOffset)
    (h : (l.append b).tokens = l.tokens ++ ts) (ht : l.tokens.getLast? = some t)
    (hstop : t.span.stop.offset = l.limit) (hc : b.head? = some c) : ¬t.kind.JoinsWith c := by
  obtain ⟨ps, last, hts, hrest, -, -, hat⟩ := (l.append b).exists_pieces
  obtain ⟨us, hus⟩ := List.getLast?_eq_some_iff.mp ht
  rw [h, hus, List.append_assoc, List.singleton_append] at hts
  obtain ⟨pre, _, rfl, rfl, hcons⟩ := List.map_eq_append_iff.mp hts.symm
  obtain ⟨p, post, rfl, rfl, rfl⟩ := List.map_eq_cons_iff.mp hcons
  obtain ⟨hplaced, hcut⟩ := hat pre p post rfl
  have hsplit : l.rest ++ b =
      (pre.flatMap Piece.chars ++ p.chars) ++ (post.flatMap Piece.chars ++ last) := by
    have hsame : (l.append b).rest = l.rest ++ b := rfl
    rw [← hsame, hrest]
    simp
  have hbytes := congrArg byteLength hsplit
  have hoffset : p.token.span.stop.offset =
      saturate ↑(l.offset + byteLength (pre.flatMap Piece.chars) + byteLength p.chars) :=
    congrArg (fun s => s.stop.offset) hplaced
  rw [saturate_natCast, hstop] at hoffset
  simp only [byteLength_append] at hbytes
  simp only [limit, append, byteLength_append] at hlimit hoffset
  have heq : byteLength l.rest = byteLength (pre.flatMap Piece.chars ++ p.chars) := by
    rw [byteLength_append]
    omega
  obtain ⟨-, rfl⟩ := append_inj_of_byteLength_eq hsplit heq
  exact hcut.not_joinsWith (spelled_of_mem_tokens (List.mem_of_getLast? ht)) hc

end Lexer

/-- Tokens split where texts do: those of two texts in one are those of the first, without its end
token, and then those of the second, moved on by as many bytes as the first has. This is so just if
the second does not go on, directly behind the first, with its last token. -/
theorem tokenize_append_iff {a b : String} {file : Option String}
    (hlength : a.utf8ByteSize + b.utf8ByteSize < 4294967296) :
    tokenize (a ++ b) file =
        (tokenize a file).dropLast ++ (tokenize b file).map (Token.shift a.utf8ByteSize) ↔
      ¬∃ t c, (tokenize a file).dropLast.getLast? = some t ∧
        t.span.stop.offset = a.utf8ByteSize ∧ b.toList.head? = some c ∧ t.kind.JoinsWith c := by
  let l := Lexer.ofSource a file
  have hfirst : (tokenize a file).dropLast = l.tokens := List.dropLast_concat
  have hboth : Lexer.ofSource (a ++ b) file = l.append b.toList := by
    simp [l, Lexer.ofSource, Lexer.append]
  have hlimit : l.limit = a.utf8ByteSize := by
    simp only [l, Lexer.limit, Lexer.ofSource, byteLength_toList, Nat.zero_add]
  have hsecond : l.past b.toList = (Lexer.ofSource b file).shift a.utf8ByteSize := by
    rw [Lexer.past, hlimit]
    simp [l, Lexer.ofSource, Lexer.shift]
  have hend : (Lexer.ofSource b file).limit + a.utf8ByteSize ≤ maxOffset := by
    simp only [Lexer.limit, Lexer.ofSource, byteLength_toList, maxOffset]
    omega
  have htokens : (l.past b.toList).tokens =
      (Lexer.ofSource b file).tokens.map (.shift a.utf8ByteSize) := by
    rw [hsecond, Lexer.tokens_shift hend]
  have hlast : (l.append b.toList).endToken =
      (Lexer.ofSource b file).endToken.shift a.utf8ByteSize := by
    rw [Lexer.endToken_append, hsecond, Lexer.endToken, Lexer.stop_shift hend]
    rfl
  rw [hfirst, tokenize, tokenize, hboth, List.map_append, List.map_singleton, ← hlast, ← htokens,
    ← List.append_assoc, List.append_cancel_right_eq]
  constructor
  · rintro heq ⟨t, c, ht, hstop, hc, hjoin⟩
    have hle : (l.append b.toList).limit ≤ maxOffset := by
      have hsum : (l.append b.toList).limit = l.limit + byteLength b.toList := l.limit_append _
      rw [hsum, hlimit, byteLength_toList, maxOffset]
      omega
    exact Lexer.not_joinsWith_of_tokens_append hle heq ht (hstop.trans hlimit.symm) hc hjoin
  · intro hapart
    refine Lexer.tokens_append fun t c ht hstop hc hjoin => hapart ⟨t, c, ht, ?_, hc, hjoin⟩
    have hle : l.limit ≤ maxOffset := by
      rw [hlimit, maxOffset]
      omega
    rw [hstop, Lexer.stop, ← Lexer.limit, saturate_natCast, Nat.min_eq_left hle, hlimit]

/-- Two signs of which the second goes on with none before it, and a reserved word that is the
beginning of a longer word. -/
theorem tokenize_append_iff_signs :
    "==".utf8ByteSize + "=".utf8ByteSize < 4294967296 ∧
      tokenize ("==" ++ "=") none =
        (tokenize "==" none).dropLast ++ (tokenize "=" none).map (Token.shift 2) ∧
      tokenize ("if" ++ "x") none ≠
        (tokenize "if" none).dropLast ++ (tokenize "x" none).map (Token.shift 2) := by
  have hsigns : "==".utf8ByteSize + "=".utf8ByteSize < 4294967296 := by decide
  have hwords : "if".utf8ByteSize + "x".utf8ByteSize < 4294967296 := by decide
  refine ⟨hsigns, (tokenize_append_iff hsigns).mpr ?_,
    fun h => (tokenize_append_iff hwords).mp h ?_⟩
  · rintro ⟨t, c, ht, -, hc, hjoin⟩
    have hlast : (tokenize "==" none).dropLast.getLast? =
        some ⟨.equal, "==", .ofOffsets "shell" 0 2⟩ := by decide +kernel
    obtain rfl : _ = t := Option.some.inj (hlast.symm.trans ht)
    obtain rfl : _ = c := Option.some.inj hc
    exact absurd hjoin (by decide)
  · exact ⟨⟨.ifWord, "if", .ofOffsets "shell" 0 2⟩, 'x', by decide +kernel, rfl, rfl, by decide⟩

end ScriptReader
