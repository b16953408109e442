import ScriptReader.Proofs.Lexing

/-! How tokens are spelled. The text of a token determines its kind, and most
kinds leave no choice of the text. -/

namespace ScriptReader

open Text

/-- The characters of which tokens of a kind may consist. -/
inductive Spelling : TokenKind → List Char → Prop
  | word {w : List Char} (hne : w ≠ []) (hw : ∀ c ∈ w, isWordChar c = true) :
      Spelling (.ofWord (String.ofList w)) w
  | number {w : List Char} (hne : w ≠ []) (hw : ∀ c ∈ w, c.isDigit = true) : Spelling .integer w
  | symbol {c : Char} (hw : isWordChar c = false) (hd : c.isDigit = false) :
      Spelling (symbolKind c) [c]
  | doubled {c : Char} {k : TokenKind} (h : doubledKind? c = some k) : Spelling k [c, '=']

theorem forall_mem_run {p : Char → Bool} {c : Char} {cs : List Char} (hc : p c = true) :
    ∀ x ∈ c :: cs.takeWhile p, p x = true := by
  intro x hx
  rcases List.mem_cons.mp hx with rfl | hx
  · exact hc
  · exact List.all_eq_true.mp List.all_takeWhile x hx

theorem lexeme_spelling (c : Char) (cs : List Char) :
    Spelling (lexeme c cs).kind (lexeme c cs).chars := by
  rw [lexeme]
  by_cases hw : isWordChar c = true
  · rw [if_pos hw]
    exact .word (List.cons_ne_nil c _) (forall_mem_run hw)
  · rw [if_neg hw]
    by_cases hd : c.isDigit = true
    · rw [if_pos hd]
      exact .number (List.cons_ne_nil c _) (forall_mem_run hd)
    · rw [if_neg hd]
      unfold Lexeme.ofSymbol
      split
      · rename_i hk
        exact .doubled hk
      · exact .symbol (Bool.eq_false_iff.mpr hw) (Bool.eq_false_iff.mpr hd)

/-- The texts of the kinds that have but one. -/
def spellings : List (String × TokenKind) :=
  TokenKind.reservedWords ++ symbols.map (fun p => (String.ofList [p.1], p.2)) ++
    [("==", .equal), ("!=", .notEqual)]

theorem lookup_eq_some_mem {α β : Type} [BEq α] [LawfulBEq α] {l : List (α × β)} {a : α} {b : β}
    (h : l.lookup a = some b) : (a, b) ∈ l := by
  obtain ⟨pre, post, rfl, -⟩ := List.lookup_eq_some_iff.mp h
  simp

/-- A text is looked up in a table, or has the kind that all others have. -/
theorem getD_lookup_cases {α : Type} [BEq α] [LawfulBEq α] {l : List (α × TokenKind)} (a : α)
    (k : TokenKind) :
    (a, (l.lookup a).getD k) ∈ l ∨ (l.lookup a = none ∧ (l.lookup a).getD k = k) := by
  cases h : l.lookup a with
  | none => exact .inr ⟨rfl, rfl⟩
  | some b => exact .inl (lookup_eq_some_mem h)

/-- What is looked up in a table is of a kind that the table has, or of the kind that all others
have. -/
theorem getD_lookup_mem {α : Type} [BEq α] [LawfulBEq α] (l : List (α × TokenKind)) (a : α)
    (k : TokenKind) : (l.lookup a).getD k ∈ k :: l.map Prod.snd := by
  rcases getD_lookup_cases (l := l) a k with h | ⟨-, h⟩
  · exact List.mem_cons_of_mem _ (List.mem_map_of_mem h)
  · rw [h]
    exact List.mem_cons_self

theorem TokenKind.ofWord_mem (w : String) :
    ofWord w ∈ identifier :: reservedWords.map Prod.snd := getD_lookup_mem _ _ _

theorem symbolKind_mem (c : Char) : symbolKind c ∈ .illegal :: symbols.map Prod.snd :=
  getD_lookup_mem _ _ _

theorem doubledKind?_mem {c : Char} {k : TokenKind} (h : doubledKind? c = some k) :
    k ∈ [.equal, .notEqual] := by
  have hm := List.mem_map_of_mem (f := Prod.snd) (lookup_eq_some_mem h)
  exact hm

namespace Spelling

variable {k : TokenKind} {w : List Char}

theorem ne_nil (h : Spelling k w) : w ≠ [] := by
  cases h <;> simp_all

theorem mem_spellings (h : Spelling k w) (hk : k ∉ Token.variableKinds) :
    (String.ofList w, k) ∈ spellings := by
  cases h with
  | word hne hw =>
    rcases getD_lookup_cases (l := TokenKind.reservedWords) (String.ofList w) .identifier with
      h | ⟨-, h⟩
    · exact List.mem_append_left _ (List.mem_append_left _ h)
    · rw [TokenKind.ofWord, h] at hk
      exact absurd (by decide) hk
  | number => exact absurd (by decide) hk
  | @symbol c _ _ =>
    rcases getD_lookup_cases (l := symbols) c .illegal with h | ⟨-, h⟩
    · exact List.mem_append_left _ (List.mem_append_right _ (List.mem_map_of_mem h))
    · rw [symbolKind, h] at hk
      exact absurd (by decide) hk
  | @doubled c _ h =>
    refine List.mem_append_right _ ?_
    have hm := lookup_eq_some_mem h
    simp only [List.mem_cons, Prod.mk.injEq, List.not_mem_nil, or_false] at hm
    rcases hm with ⟨rfl, rfl⟩ | ⟨rfl, rfl⟩ <;> decide

theorem kind_ne_eof (h : Spelling k w) : k ≠ .eof := by
  rintro rfl
  have hne : ∀ p ∈ spellings, p.2 ≠ .eof := by decide
  exact hne _ (h.mem_spellings (by decide)) rfl

/-- An identifier is a word, and not a reserved one. -/
theorem of_identifier (h : Spelling k w) (hk : k = .identifier) :
    (∀ c ∈ w, isWordChar c = true) ∧
      String.ofList w ∉ TokenKind.reservedWords.map Prod.fst := by
  cases h with
  | word hne hw =>
    refine ⟨hw, fun hm => ?_⟩
    rcases getD_lookup_cases (l := TokenKind.reservedWords) (String.ofList w) .identifier with
      h | ⟨h, -⟩
    · have hreserved : ∀ p ∈ TokenKind.reservedWords, p.2 ≠ .identifier := by decide
      exact hreserved _ h hk
    · obtain ⟨p, hp, hfst⟩ := List.mem_map.mp hm
      exact absurd hfst.symm (by simpa using List.lookup_eq_none_iff.mp h p hp)
  | number => contradiction
  | @symbol c => exact absurd (hk ▸ symbolKind_mem c) (by decide)
  | doubled h => exact absurd (hk ▸ doubledKind?_mem h) (by decide)

/-- A number consists of digits. -/
theorem of_integer (h : Spelling k w) (hk : k = .integer) : ∀ c ∈ w, c.isDigit = true := by
  cases h with
  | word => exact absurd (hk ▸ TokenKind.ofWord_mem (String.ofList w)) (by decide)
  | number _ hw => exact hw
  | @symbol c => exact absurd (hk ▸ symbolKind_mem c) (by decide)
  | doubled h => exact absurd (hk ▸ doubledKind?_mem h) (by decide)

end Spelling

/-- The token is spelled as its kind asks for. -/
def Token.Spelled (t : Token) : Prop := Spelling t.kind t.text.toList

theorem Token.Spelled.text_of_kind {t : Token} (h : t.Spelled) {k : TokenKind} (hk : t.kind = k)
    (hfixed : k ∉ Token.variableKinds) : (t.text, k) ∈ spellings := by
  have hm := Spelling.mem_spellings h (hk ▸ hfixed)
  rwa [String.ofList_toList, hk] at hm

theorem Lexer.spelled_of_mem_tokens {l : Lexer} {t : Token} (h : t ∈ l.tokens) : t.Spelled := by
  induction l using tokens.induct with
  | case1 l hn => simp [tokens_of_next?_none hn] at h
  | case2 l t' l' hl _ ih =>
    rw [tokens_of_next?_some hl] at h
    rcases List.mem_cons.mp h with rfl | h
    · obtain ⟨c, cs, -, rfl, -⟩ := eq_of_next? hl
      rw [Token.Spelled, String.toList_ofList]
      exact lexeme_spelling c cs
    · exact ih h

end ScriptReader
