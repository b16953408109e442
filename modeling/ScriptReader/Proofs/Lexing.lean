import ScriptReader.Token.Lexer

/-! The tokens of a text as they are without their places. They depend on
nothing but the text, and are cut from it one after the other. -/

namespace ScriptReader

open Text

/-- What there is to a token besides its place. -/
def Token.sign (t : Token) : TokenKind × String := (t.kind, t.text)

def signs (cs : List Char) : List (TokenKind × String) :=
  (Lexer.mk cs 0 "").tokens.map Token.sign

namespace Lexer

theorem next?_eq_none_iff {l : Lexer} : l.next? = none ↔ l.rest.dropWhile isLayout = [] := by
  cases h : l.rest.dropWhile isLayout <;> simp [next?, skipLayout, h]

theorem next?_of_skipLayout {l : Lexer} {c : Char} {cs : List Char}
    (h : l.skipLayout.rest = c :: cs) :
    l.next? = some
      (⟨(lexeme c cs).kind, String.ofList (lexeme c cs).chars, .ofOffsets l.file
        l.skipLayout.offset ↑(l.skipLayout.offset + byteLength (lexeme c cs).chars)⟩,
        ⟨(lexeme c cs).rest, l.skipLayout.offset + byteLength (lexeme c cs).chars, l.file⟩) := by
  simp only [next?, h]
  rfl

theorem eq_of_next? {l l' : Lexer} {t : Token} (h : l.next? = some (t, l')) :
    ∃ c cs, l.skipLayout.rest = c :: cs ∧
      t = ⟨(lexeme c cs).kind, String.ofList (lexeme c cs).chars, .ofOffsets l.file
        l.skipLayout.offset ↑(l.skipLayout.offset + byteLength (lexeme c cs).chars)⟩ ∧
      l' = ⟨(lexeme c cs).rest, l.skipLayout.offset + byteLength (lexeme c cs).chars, l.file⟩ := by
  cases hd : l.skipLayout.rest with
  | nil =>
    rw [next?_eq_none_iff.mpr hd] at h
    contradiction
  | cons c cs =>
    rw [next?_of_skipLayout hd] at h
    obtain ⟨rfl, rfl⟩ := Prod.mk.inj (Option.some.inj h)
    exact ⟨c, cs, rfl, rfl, rfl⟩

/-- Where the source of a lexer ends. -/
def limit (l : Lexer) : Nat := l.offset + byteLength l.rest

theorem limit_skipLayout (l : Lexer) : l.skipLayout.limit = l.limit := by
  have h := congrArg byteLength (List.takeWhile_append_dropWhile (p := isLayout) (l := l.rest))
  rw [byteLength_append] at h
  simp only [limit, skipLayout]
  omega

theorem limit_of_next? {l l' : Lexer} {t : Token} (h : l.next? = some (t, l')) :
    l'.limit = l.limit := by
  obtain ⟨c, cs, hd, -, rfl⟩ := eq_of_next? h
  have hx := congrArg byteLength (lexeme_append c cs)
  rw [byteLength_append] at hx
  rw [← limit_skipLayout l]
  simp only [limit, hd, ← hx]
  omega

theorem next?_of_cons {l : Lexer} {c : Char} {cs : List Char}
    (h : l.rest.dropWhile isLayout = c :: cs) :
    ∃ t l', l.next? = some (t, l') ∧
      t.sign = ((lexeme c cs).kind, String.ofList (lexeme c cs).chars) ∧
      l'.rest = (lexeme c cs).rest :=
  ⟨_, _, next?_of_skipLayout h, rfl, rfl⟩

theorem map_sign_tokens (l : Lexer) : l.tokens.map Token.sign = signs l.rest := by
  suffices h : ∀ n (l l' : Lexer), l.rest.length = n → l.rest = l'.rest →
      l.tokens.map Token.sign = l'.tokens.map Token.sign from h _ l ⟨l.rest, 0, ""⟩ rfl rfl
  intro n
  induction n using Nat.strongRecOn with
  | ind n ih =>
    intro l l' hn hr
    cases hd : l.rest.dropWhile isLayout with
    | nil =>
      rw [tokens_of_next?_none (next?_eq_none_iff.mpr hd),
        tokens_of_next?_none (next?_eq_none_iff.mpr (hr ▸ hd))]
    | cons c cs =>
      obtain ⟨t, m, h, ht, hm⟩ := next?_of_cons hd
      obtain ⟨t', m', h', ht', hm'⟩ := next?_of_cons (l := l') (hr ▸ hd)
      rw [tokens_of_next?_some h, tokens_of_next?_some h', List.map_cons, List.map_cons, ht, ht',
        ih _ (hn ▸ rest_length_of_next? h) m m' rfl (hm.trans hm'.symm)]

end Lexer

theorem signs_of_dropWhile_nil {cs : List Char} (h : cs.dropWhile isLayout = []) :
    signs cs = [] := by
  rw [signs, Lexer.tokens_of_next?_none (Lexer.next?_eq_none_iff.mpr h), List.map_nil]

theorem signs_of_dropWhile_cons {c : Char} {cs ds : List Char}
    (h : ds.dropWhile isLayout = c :: cs) :
    signs ds = ((lexeme c cs).kind, String.ofList (lexeme c cs).chars) ::
      signs (lexeme c cs).rest := by
  obtain ⟨t, l, hn, ht, hl⟩ := Lexer.next?_of_cons (l := ⟨ds, 0, ""⟩) h
  rw [signs, Lexer.tokens_of_next?_some hn, List.map_cons, ht, Lexer.map_sign_tokens, hl]

@[simp] theorem signs_nil : signs [] = [] := signs_of_dropWhile_nil rfl

theorem signs_layout {c : Char} {cs : List Char} (h : isLayout c) : signs (c :: cs) = signs cs := by
  have hd : (c :: cs).dropWhile isLayout = cs.dropWhile isLayout := List.dropWhile_cons_of_pos h
  cases hcs : cs.dropWhile isLayout with
  | nil => rw [signs_of_dropWhile_nil hcs, signs_of_dropWhile_nil (hd.trans hcs)]
  | cons c' cs' => rw [signs_of_dropWhile_cons hcs, signs_of_dropWhile_cons (hd.trans hcs)]

theorem signs_layouts {ws cs : List Char} (h : ∀ c ∈ ws, isLayout c = true) :
    signs (ws ++ cs) = signs cs := by
  induction ws with
  | nil => rfl
  | cons c ws ih =>
    rw [List.cons_append, signs_layout (h c List.mem_cons_self)]
    exact ih fun c hc => h c (List.mem_cons_of_mem _ hc)

theorem signs_lexeme {c : Char} {cs : List Char} (h : isLayout c = false) :
    signs (c :: cs) = ((lexeme c cs).kind, String.ofList (lexeme c cs).chars) ::
      signs (lexeme c cs).rest :=
  signs_of_dropWhile_cons (List.dropWhile_cons_of_neg (by simp [h]))

/-- A token of the one character `c`. -/
def symbol (c : Char) : TokenKind × String := (symbolKind c, String.ofList [c])

/-- Characters that are tokens by themselves, whatever stands around them. -/
def isSingle (c : Char) : Bool :=
  !isLayout c && !isWordChar c && !c.isDigit && (doubledKind? c).isNone

theorem signs_symbol {c : Char} {cs : List Char} (h : isSingle c = true) :
    signs (c :: cs) = symbol c :: signs cs := by
  simp only [isSingle, Bool.and_eq_true, Bool.not_eq_true', Option.isNone_iff_eq_none] at h
  obtain ⟨⟨⟨hl, hw⟩, hn⟩, hd⟩ := h
  have hx : lexeme c cs = ⟨symbolKind c, [c], cs⟩ := by
    simp [lexeme, hw, hn, Lexeme.ofSymbol, hd]
  rw [signs_lexeme hl, hx, symbol]

/-- Neither a word nor a number goes on with the text. -/
def Breaks (cs : List Char) : Prop :=
  ∀ c, cs.head? = some c → isWordChar c = false ∧ c.isDigit = false

theorem breaks_nil : Breaks [] := by
  intro c h
  contradiction

theorem breaks_cons {c : Char} {cs : List Char} (hw : isWordChar c = false)
    (hd : c.isDigit = false) : Breaks (c :: cs) := by
  rintro _ ⟨⟩
  exact ⟨hw, hd⟩

theorem isLayout_iff {c : Char} : isLayout c = true ↔ c = ' ' ∨ c = '\t' ∨ c = '\n' ∨ c = '\r' := by
  simp [isLayout, or_assoc]

theorem isLayout_eq_false_of_isWordChar {c : Char} (h : isWordChar c = true) :
    isLayout c = false := by
  refine Bool.eq_false_iff.mpr fun hl => ?_
  rcases isLayout_iff.mp hl with rfl | rfl | rfl | rfl <;> contradiction

theorem isLayout_eq_false_of_isDigit {c : Char} (h : c.isDigit = true) : isLayout c = false := by
  refine Bool.eq_false_iff.mpr fun hl => ?_
  rcases isLayout_iff.mp hl with rfl | rfl | rfl | rfl <;> contradiction

theorem isWordChar_eq_false_of_isDigit {c : Char} (h : c.isDigit = true) :
    isWordChar c = false := by
  refine Bool.eq_false_iff.mpr fun hw => ?_
  have hd : 48 ≤ c.toNat ∧ c.toNat ≤ 57 := Char.isDigit_iff_toNat.mp h
  have hletter : ((decide (65 ≤ c.val ∧ c.val ≤ 90) ||
      decide (97 ≤ c.val) && decide (c.val ≤ 122)) || c == '_') = true := hw
  simp only [Bool.or_eq_true, Bool.and_eq_true, decide_eq_true_eq, beq_iff_eq,
    UInt32.le_iff_toNat_le, UInt32.reduceToNat, Char.toNat_val] at hletter
  rcases hletter with (hu | hl) | rfl
  · omega
  · omega
  · contradiction

theorem takeWhile_run {p : Char → Bool} {w cs : List Char} (hw : ∀ c ∈ w, p c = true)
    (hcs : ∀ c, cs.head? = some c → p c = false) :
    (w ++ cs).takeWhile p = w ∧ (w ++ cs).dropWhile p = cs := by
  have ht : cs.takeWhile p = [] ∧ cs.dropWhile p = cs := by
    cases cs with
    | nil => exact ⟨rfl, rfl⟩
    | cons c cs => simp [hcs c rfl]
  rw [List.takeWhile_append_of_pos hw, List.dropWhile_append_of_pos hw, ht.1, ht.2, List.append_nil]
  exact ⟨rfl, rfl⟩

theorem signs_word {w cs : List Char} (hne : w ≠ []) (hw : ∀ c ∈ w, isWordChar c = true)
    (hcs : Breaks cs) :
    signs (w ++ cs) = (.ofWord (String.ofList w), String.ofList w) :: signs cs := by
  cases w with
  | nil => contradiction
  | cons c w =>
    have hc : isWordChar c = true := hw c List.mem_cons_self
    have hrun := takeWhile_run (fun c h => hw c (List.mem_cons_of_mem _ h))
      (fun c h => (hcs c h).1)
    rw [List.cons_append, signs_lexeme (isLayout_eq_false_of_isWordChar hc), lexeme, if_pos hc]
    simp only [Lexeme.ofRun, hrun.1, hrun.2]

theorem signs_digits {w cs : List Char} (hne : w ≠ []) (hw : ∀ c ∈ w, c.isDigit = true)
    (hcs : Breaks cs) : signs (w ++ cs) = (.integer, String.ofList w) :: signs cs := by
  cases w with
  | nil => contradiction
  | cons c w =>
    have hc : c.isDigit = true := hw c List.mem_cons_self
    have hword : ¬isWordChar c = true := by simp [isWordChar_eq_false_of_isDigit hc]
    have hrun := takeWhile_run (fun c h => hw c (List.mem_cons_of_mem _ h))
      (fun c h => (hcs c h).2)
    rw [List.cons_append, signs_lexeme (isLayout_eq_false_of_isDigit hc), lexeme, if_neg hword,
      if_pos hc]
    simp only [Lexeme.ofRun, hrun.1, hrun.2]

end ScriptReader
