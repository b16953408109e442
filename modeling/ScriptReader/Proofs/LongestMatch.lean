import Mathlib.Data.List.Infix
import ScriptReader.Proofs.Lossless

/-! The lexer against one that knows nothing of first characters and lookahead.
It has one table of what tokens may be, tries all beginnings of the text that is
left, the longest first, and takes the first that is a token. -/

namespace ScriptReader

open Text

def isLetter (c : Char) : Bool := ('A' ≤ c && c ≤ 'Z') || ('a' ≤ c && c ≤ 'z') || c == '_'

def isDecimal (c : Char) : Bool := '0' ≤ c && c ≤ '9'

/-- The texts that are tokens without being words or numbers. -/
def fixedTexts : List (List Char × TokenKind) :=
  [(['=', '='], .equal), (['!', '='], .notEqual), (['='], .assign), (['!'], .bang),
   (['+'], .plus), (['-'], .minus), (['/'], .slash), (['*'], .asterisk), (['<'], .lessThan),
   (['>'], .greaterThan), ([';'], .semicolon), ([','], .comma), (['('], .leftParen),
   ([')'], .rightParen), (['{'], .leftBrace), (['}'], .rightBrace)]

/-- The kind of the token that a text is as a whole, if it is one. -/
def tokenKind? (w : List Char) : Option TokenKind :=
  if w = [] then none
  else if w.all isLetter then some (.ofWord (String.ofList w))
  else if w.all isDecimal then some .integer
  else fixedTexts.lookup w

/-- The kind of a text that stands for itself: one that is no token is illegal, and the empty one is
that of the end. -/
def kindOfText (w : List Char) : TokenKind :=
  if w = [] then .eof else (tokenKind? w).getD .illegal

/-- The longest token at the beginning of a text, or else its first character. -/
def longestMatch (cs : List Char) : List Char :=
  (cs.inits.reverse.find? fun w => (tokenKind? w).isSome).getD (cs.take 1)

theorem longestMatch_ne_nil {cs : List Char} (h : cs ≠ []) : longestMatch cs ≠ [] := by
  unfold longestMatch
  cases hf : cs.inits.reverse.find? fun w => (tokenKind? w).isSome with
  | none => simpa using h
  | some w =>
    have hw := List.find?_some hf
    rintro rfl
    simp [tokenKind?] at hw

theorem length_sub_longestMatch_lt {cs : List Char} (h : cs.dropWhile isLayout ≠ []) :
    (cs.dropWhile isLayout).length - (longestMatch (cs.dropWhile isLayout)).length <
      cs.length := by
  have hw := List.length_pos_iff.mpr (longestMatch_ne_nil h)
  have ht := List.length_pos_iff.mpr h
  have hd := (List.dropWhile_suffix isLayout (l := cs)).length_le
  omega

/-- The tokens of a text that stands at a byte offset of a file, the end token included. -/
def munch (file : String) (offset : Nat) (cs : List Char) : List Token :=
  let start := offset + byteLength (cs.takeWhile isLayout)
  if h : cs.dropWhile isLayout = [] then [.ofEnd ⟨saturate start, file⟩]
  else
    have := length_sub_longestMatch_lt h
    let w := longestMatch (cs.dropWhile isLayout)
    let stop := start + byteLength w
    ⟨kindOfText w, String.ofList w, .ofOffsets file start stop⟩ ::
      munch file stop ((cs.dropWhile isLayout).drop w.length)
termination_by cs.length

/-! The token that the lexer cuts off is the longest. -/

theorem isLetter_eq (c : Char) : isLetter c = isWordChar c := by
  have hword : isWordChar c = ((decide (65 ≤ c.val ∧ c.val ≤ 90) ||
      decide (97 ≤ c.val) && decide (c.val ≤ 122)) || c == '_') := rfl
  rw [Bool.eq_iff_iff, hword]
  simp [isLetter, Char.le_def]

theorem isDecimal_eq (c : Char) : isDecimal c = c.isDigit := by
  rw [Bool.eq_iff_iff]
  simp [isDecimal, Char.isDigit, Char.le_def]

theorem pairwise_length_inits (cs : List Char) :
    cs.inits.Pairwise fun v w => v.length < w.length := by
  induction cs with
  | nil => simp
  | cons c cs ih =>
    rw [List.inits_cons, List.pairwise_cons, List.pairwise_map]
    exact ⟨by simp, ih.imp fun h => Nat.succ_lt_succ h⟩

/-- Among the tokens at the beginning of a text the longest one is taken. -/
theorem longestMatch_eq {w cs : List Char} (hw : w <+: cs) (hk : (tokenKind? w).isSome)
    (hmax : ∀ v, v <+: cs → (tokenKind? v).isSome → v.length ≤ w.length) :
    longestMatch cs = w := by
  have hmem : w ∈ cs.inits.reverse := List.mem_reverse.mpr ((List.mem_inits _ _).mpr hw)
  have hsorted : cs.inits.reverse.Pairwise fun v w => w.length < v.length :=
    List.pairwise_reverse.mpr (pairwise_length_inits cs)
  unfold longestMatch
  cases hf : cs.inits.reverse.find? fun w => (tokenKind? w).isSome with
  | none => exact absurd hk (by simpa using List.find?_eq_none.mp hf w hmem)
  | some v =>
    obtain ⟨hv, longer, shorter, hsplit, hlonger⟩ := List.find?_eq_some_iff_append.mp hf
    have hle : v.length ≤ w.length := by
      refine hmax v ((List.mem_inits _ _).mp (List.mem_reverse.mp ?_)) hv
      simp [hsplit]
    rw [hsplit] at hmem hsorted
    rcases List.mem_append.mp hmem with hm | hm
    · simpa [hk] using hlonger w hm
    · rcases List.mem_cons.mp hm with rfl | hm
      · rfl
      · have hlt := (List.pairwise_cons.mp (List.pairwise_append.mp hsorted).2.1).1 w hm
        exact absurd hle (Nat.not_le.mpr hlt)

theorem longestMatch_of_none {c : Char} {cs : List Char}
    (h : ∀ v, v <+: c :: cs → tokenKind? v = none) : longestMatch (c :: cs) = [c] := by
  have hf : (c :: cs).inits.reverse.find? (fun w => (tokenKind? w).isSome) = none := by
    refine List.find?_eq_none.mpr fun v hv => ?_
    simp [h v ((List.mem_inits _ _).mp (List.mem_reverse.mp hv))]
  rw [longestMatch, hf, Option.getD_none, List.take_succ_cons, List.take_zero]

/-! The tables of the lexer against the one above. -/

theorem tokenKind?_of_word {w : List Char} (hne : w ≠ []) (hw : ∀ c ∈ w, isWordChar c = true) :
    tokenKind? w = some (.ofWord (String.ofList w)) := by
  rw [tokenKind?, if_neg hne, if_pos]
  simpa [isLetter_eq] using hw

theorem tokenKind?_of_number {w : List Char} (hne : w ≠ []) (hw : ∀ c ∈ w, c.isDigit = true) :
    tokenKind? w = some .integer := by
  have hletter : ¬w.all isLetter = true := by
    intro h
    obtain ⟨c, hc⟩ := List.exists_mem_of_ne_nil w hne
    have hword : isWordChar c = true := isLetter_eq c ▸ List.all_eq_true.mp h c hc
    simp [isWordChar_eq_false_of_isDigit (hw c hc)] at hword
  rw [tokenKind?, if_neg hne, if_neg hletter, if_pos]
  simpa [isDecimal_eq] using hw

theorem tokenKind?_cases {w : List Char} {k : TokenKind} (h : tokenKind? w = some k) :
    w ≠ [] ∧ ((∀ c ∈ w, isWordChar c = true) ∧ k = .ofWord (String.ofList w) ∨
      (∀ c ∈ w, c.isDigit = true) ∧ k = .integer ∨ (w, k) ∈ fixedTexts) := by
  unfold tokenKind? at h
  split at h
  · contradiction
  · rename_i hne
    refine ⟨hne, ?_⟩
    split at h
    · rename_i hall
      exact .inl ⟨by simpa [isLetter_eq] using hall, (Option.some.inj h).symm⟩
    · split at h
      · rename_i hall
        exact .inr (.inl ⟨by simpa [isDecimal_eq] using hall, (Option.some.inj h).symm⟩)
      · exact .inr (.inr (lookup_eq_some_mem h))

/-- What a fixed text is made of: a symbol, which may have an equals sign behind it. -/
def isSymbolText (p : List Char × TokenKind) : Bool :=
  p.2 != .illegal &&
    match p.1 with
    | [c] => !isWordChar c && !c.isDigit
    | [c, d] => !isWordChar c && !c.isDigit && d == '=' && doubledKind? c == some p.2
    | _ => false

theorem of_mem_fixedTexts {w : List Char} {k : TokenKind} (h : (w, k) ∈ fixedTexts) :
    ∃ c, isWordChar c = false ∧ c.isDigit = false ∧ k ≠ .illegal ∧
      (w = [c] ∨ w = [c, '='] ∧ doubledKind? c = some k) := by
  have hall : fixedTexts.all isSymbolText = true := by decide
  have htext := List.all_eq_true.mp hall _ h
  simp only [isSymbolText, Bool.and_eq_true, bne_iff_ne] at htext
  obtain ⟨hk, htext⟩ := htext
  split at htext
  · rename_i c
    simp only [Bool.and_eq_true, Bool.not_eq_true'] at htext
    exact ⟨c, htext.1, htext.2, hk, .inl rfl⟩
  · rename_i c d
    simp only [Bool.and_eq_true, Bool.not_eq_true', beq_iff_eq] at htext
    obtain ⟨⟨⟨hw, hd⟩, rfl⟩, hdoubled⟩ := htext
    exact ⟨c, hw, hd, hk, .inr ⟨rfl, hdoubled⟩⟩
  · contradiction

theorem lookup_fixedTexts (c : Char) : fixedTexts.lookup [c] = symbols.lookup c := by
  have hbeq : ∀ a : Char, ([c] == [a]) = (c == a) := fun a => by
    rw [Bool.eq_iff_iff]
    simp
  have hlong : ∀ a b : Char, ([c] == [a, b]) = false := fun a b => by simp
  simp only [fixedTexts, symbols, List.lookup_cons, List.lookup_nil, hbeq, hlong]

theorem Spelling.kindOfText_eq {k : TokenKind} {w : List Char} (h : Spelling k w) :
    kindOfText w = k := by
  rw [kindOfText, if_neg h.ne_nil]
  cases h with
  | word hne hw => rw [tokenKind?_of_word hne hw, Option.getD_some]
  | number hne hw => rw [tokenKind?_of_number hne hw, Option.getD_some]
  | @symbol c hw hd =>
    have hlookup : tokenKind? [c] = symbols.lookup c := by
      rw [← lookup_fixedTexts]
      simp [tokenKind?, isLetter_eq, isDecimal_eq, hw, hd]
    rw [hlookup, symbolKind]
  | @doubled c _ h =>
    have hm := lookup_eq_some_mem h
    simp only [List.mem_cons, Prod.mk.injEq, List.not_mem_nil, or_false] at hm
    rcases hm with ⟨rfl, rfl⟩ | ⟨rfl, rfl⟩ <;> decide

theorem length_le_takeWhile {p : Char → Bool} {v cs : List Char} (hv : v <+: cs)
    (hp : ∀ c ∈ v, p c = true) : v.length ≤ (cs.takeWhile p).length := by
  obtain ⟨rest, rfl⟩ := hv
  rw [List.takeWhile_append_of_pos hp, List.length_append]
  exact Nat.le_add_right _ _

/-- No token at the beginning of a text is longer than the one that the lexer cuts off. -/
theorem length_le_lexeme {c : Char} {cs v : List Char} {k : TokenKind} (hv : v <+: c :: cs)
    (hk : tokenKind? v = some k) : v.length ≤ (lexeme c cs).chars.length := by
  obtain ⟨hne, hcases⟩ := tokenKind?_cases hk
  obtain ⟨a, v, rfl⟩ := List.exists_cons_of_ne_nil hne
  obtain ⟨rfl, htail⟩ := List.cons_prefix_cons.mp hv
  rcases hcases with ⟨hw, -⟩ | ⟨hd, -⟩ | hfixed
  · rw [lexeme, if_pos (hw a List.mem_cons_self)]
    exact Nat.succ_le_succ (length_le_takeWhile htail fun c hc => hw c (List.mem_cons_of_mem _ hc))
  · have ha := hd a List.mem_cons_self
    rw [lexeme, if_neg (by simp [isWordChar_eq_false_of_isDigit ha]), if_pos ha]
    exact Nat.succ_le_succ (length_le_takeWhile htail fun c hc => hd c (List.mem_cons_of_mem _ hc))
  · obtain ⟨b, hw, hd, -, h | ⟨h, hdoubled⟩⟩ := of_mem_fixedTexts hfixed
    · rw [h]
      exact List.length_pos_iff.mpr (lexeme_chars_ne_nil a cs)
    · obtain ⟨rfl, rfl⟩ := List.cons.inj h
      obtain ⟨rest, rfl⟩ := htail
      simp [lexeme, hw, hd, Lexeme.ofSymbol, hdoubled]

theorem tokenKind?_ne_illegal {w : List Char} {k : TokenKind} (h : tokenKind? w = some k) :
    k ≠ .illegal := by
  obtain ⟨-, ⟨-, rfl⟩ | ⟨-, rfl⟩ | hfixed⟩ := tokenKind?_cases h
  · intro hk
    exact absurd (hk ▸ TokenKind.ofWord_mem (String.ofList w)) (by decide)
  · decide
  · obtain ⟨c, -, -, hk, -⟩ := of_mem_fixedTexts hfixed
    exact hk

/-- Just the texts that are no tokens are illegal. -/
theorem kindOfText_eq_illegal_iff {w : List Char} :
    kindOfText w = .illegal ↔ w ≠ [] ∧ tokenKind? w = none := by
  unfold kindOfText
  split
  · rename_i hnil
    simp [hnil]
  · rename_i hne
    cases hk : tokenKind? w with
    | none => simp [hne]
    | some k => simp [tokenKind?_ne_illegal hk]

theorem Spelling.length_of_illegal {k : TokenKind} {w : List Char} (h : Spelling k w)
    (hk : k = .illegal) : w.length = 1 := by
  cases h with
  | word => exact absurd (hk ▸ TokenKind.ofWord_mem (String.ofList w)) (by decide)
  | number => contradiction
  | symbol => rfl
  | doubled h => exact absurd (hk ▸ doubledKind?_mem h) (by decide)

theorem longestMatch_lexeme (c : Char) (cs : List Char) :
    longestMatch (c :: cs) = (lexeme c cs).chars := by
  have hspelling := lexeme_spelling c cs
  have hprefix : (lexeme c cs).chars <+: c :: cs := ⟨_, lexeme_append c cs⟩
  cases hk : tokenKind? (lexeme c cs).chars with
  | some k =>
    refine longestMatch_eq hprefix (by simp [hk]) fun v hv hsome => ?_
    obtain ⟨k', hk'⟩ := Option.isSome_iff_exists.mp hsome
    exact length_le_lexeme hv hk'
  | none =>
    have hkind := kindOfText_eq_illegal_iff.mpr ⟨hspelling.ne_nil, hk⟩
    have hlength := hspelling.length_of_illegal (hspelling.kindOfText_eq.symm.trans hkind)
    have hchars : (lexeme c cs).chars = [c] := by
      rw [List.prefix_iff_eq_take.mp hprefix, hlength, List.take_succ_cons, List.take_zero]
    rw [hchars]
    refine longestMatch_of_none fun v hv => ?_
    -- A token would be no longer than the one character, which is none.
    by_contra hv'
    obtain ⟨k', hk'⟩ := Option.ne_none_iff_exists'.mp hv'
    have hle := length_le_lexeme hv hk'
    have hpos := List.length_pos_iff.mpr (tokenKind?_cases hk').1
    have hone : v = [c] := by
      rw [List.prefix_iff_eq_take.mp hv, show v.length = 1 by omega, List.take_succ_cons,
        List.take_zero]
    rw [hone, ← hchars, hk] at hk'
    contradiction

theorem Lexer.munch_eq (l : Lexer) : munch l.file l.offset l.rest = l.tokens ++ [l.endToken] := by
  induction l using tokens.induct with
  | case1 l hn =>
    have hd := next?_eq_none_iff.mp hn
    have hall : l.rest.takeWhile isLayout = l.rest := by
      have h := List.takeWhile_append_dropWhile (p := isLayout) (l := l.rest)
      rwa [hd, List.append_nil] at h
    rw [munch, dif_pos hd, tokens_of_next?_none hn, hall]
    rfl
  | case2 l t l' hl _ ih =>
    have hend := endToken_of_next? hl
    rw [tokens_of_next?_some hl, ← hend, List.cons_append, ← ih]
    obtain ⟨c, cs, hrest, rfl, rfl⟩ := eq_of_next? hl
    have hd : l.rest.dropWhile isLayout = c :: cs := hrest
    have hbehind : (c :: cs).drop (lexeme c cs).chars.length = (lexeme c cs).rest := by
      rw [← lexeme_append c cs, List.drop_left]
    rw [munch, dif_neg (by simp [hd])]
    simp only [hd, longestMatch_lexeme, (lexeme_spelling c cs).kindOfText_eq, hbehind]
    rfl

/-! What stands behind a token. -/

def TokenKind.wordKinds : List TokenKind := .identifier :: reservedWords.map Prod.snd

theorem Spelling.of_wordKind {k : TokenKind} {w : List Char} (h : Spelling k w)
    (hk : k ∈ TokenKind.wordKinds) : ∀ c ∈ w, isWordChar c = true := by
  cases h with
  | word _ hw => exact hw
  | number => exact absurd hk (by decide)
  | @symbol c =>
    have hdisjoint : ∀ k ∈ TokenKind.illegal :: symbols.map Prod.snd, k ∉ TokenKind.wordKinds := by
      decide
    exact absurd hk (hdisjoint _ (symbolKind_mem c))
  | doubled h =>
    have hdisjoint : ∀ k ∈ [TokenKind.equal, .notEqual], k ∉ TokenKind.wordKinds := by decide
    exact absurd hk (hdisjoint _ (doubledKind?_mem h))

/-- With the character behind it a token would be no token. -/
theorem Piece.CutFrom.tokenKind?_eq_none {p : Piece} {behind : List Char} {c : Char}
    (h : p.CutFrom behind) (hc : behind.head? = some c) :
    tokenKind? (p.token.text.toList ++ [c]) = none := by
  obtain ⟨a, cs, htext, hchars⟩ := h
  obtain ⟨rest, rfl⟩ := List.head?_eq_some_iff.mp hc
  have hprefix : p.token.text.toList ++ [c] <+: a :: cs := ⟨rest, by simp [← htext]⟩
  by_contra hsome
  obtain ⟨k, hk⟩ := Option.ne_none_iff_exists'.mp hsome
  have hle := length_le_lexeme hprefix hk
  rw [← hchars, List.length_append] at hle
  exact absurd hle (by simp)

theorem Piece.CutFrom.next_char {p : Piece} {behind : List Char} {c : Char} (h : p.CutFrom behind)
    (hspelled : p.token.Spelled) (hc : behind.head? = some c) :
    (p.token.kind ∈ TokenKind.wordKinds → isLetter c = false) ∧
      (p.token.kind = .integer → isDecimal c = false) ∧
      (p.token.kind = .assign ∨ p.token.kind = .bang → c ≠ '=') := by
  have hnone := h.tokenKind?_eq_none hc
  refine ⟨fun hk => ?_, fun hk => ?_, ?_⟩
  · have hw := Spelling.of_wordKind hspelled hk
    refine Bool.eq_false_iff.mpr fun hletter => ?_
    rw [isLetter_eq] at hletter
    rw [tokenKind?_of_word (by simp) (List.forall_mem_append.mpr ⟨hw, by simpa using hletter⟩)]
      at hnone
    contradiction
  · have hd := Spelling.of_integer hspelled hk
    refine Bool.eq_false_iff.mpr fun hdecimal => ?_
    rw [isDecimal_eq] at hdecimal
    rw [tokenKind?_of_number (by simp) (List.forall_mem_append.mpr ⟨hd, by simpa using hdecimal⟩)]
      at hnone
    contradiction
  · rintro (hk | hk) rfl
    · have htext : p.token.text = "=" := by
        simpa [spellings, TokenKind.reservedWords, symbols]
          using hspelled.text_of_kind hk (by decide)
      exact absurd hnone (by rw [htext]; decide)
    · have htext : p.token.text = "!" := by
        simpa [spellings, TokenKind.reservedWords, symbols]
          using hspelled.text_of_kind hk (by decide)
      exact absurd hnone (by rw [htext]; decide)

/-- The tokens of a source are those that are cut off by always taking the longest: words, numbers
and fixed texts, and single characters where there is none. So no word goes on behind its token, no
number does, and no `=` stands behind `=` or `!`. The text of a token alone says its kind. -/
theorem tokenize_munch (source : String) (file : Option String) :
    let endToken : Token := .ofEnd ⟨saturate source.utf8ByteSize, fileName file⟩
    tokenize source file = munch (fileName file) 0 source.toList ∧
      (∃ (ps : List Piece) (last : List Char),
        tokenize source file = ps.map Piece.token ++ [endToken] ∧
        source.toList = ps.flatMap Piece.chars ++ last ∧
        (∀ c ∈ last, isLayout c = true) ∧ (∀ p ∈ ps, ∀ c ∈ p.gap, isLayout c = true) ∧
        ∀ pre p post, ps = pre ++ p :: post →
          ∀ c, (post.flatMap Piece.chars ++ last).head? = some c →
            (p.token.kind ∈ TokenKind.wordKinds → isLetter c = false) ∧
            (p.token.kind = .integer → isDecimal c = false) ∧
            (p.token.kind = .assign ∨ p.token.kind = .bang → c ≠ '=')) ∧
      ∀ t ∈ tokenize source file, t.kind = kindOfText t.text.toList := by
  intro endToken
  have hend : (Lexer.ofSource source file).endToken = endToken := by
    rw [Lexer.endToken_eq, Lexer.limit, Lexer.ofSource, byteLength_toList, Nat.zero_add]
  obtain ⟨ps, last, hts, hrest, hlast, hwf, hat⟩ := (Lexer.ofSource source file).exists_pieces
  refine ⟨(Lexer.munch_eq _).symm, ⟨ps, last, ?_, hrest, hlast, fun p hp => (hwf p hp).layout, ?_⟩,
    fun t ht => ?_⟩
  · rw [tokenize, hend, hts]
  · rintro pre p post rfl c hc
    have hspelled := Lexer.spelled_of_mem_tokens (l := .ofSource source file) (t := p.token)
      (by simp [hts])
    exact (hat pre p post rfl).2.next_char hspelled hc
  · rcases List.mem_append.mp ht with ht | ht
    · exact (Spelling.kindOfText_eq (Lexer.spelled_of_mem_tokens ht)).symm
    · obtain rfl := List.mem_singleton.mp ht
      rfl

end ScriptReader
