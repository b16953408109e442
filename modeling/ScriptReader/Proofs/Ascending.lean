import ScriptReader.Proofs.Lossless

/-! Tokens start one behind the other, as long as offsets can be recorded. The
place at which a token starts then tells it from all others. -/

namespace ScriptReader

open Text

/-- The tokens start one behind the other. -/
def Ascending (ts : List Token) : Prop :=
  ts.Pairwise fun t u => t.span.start.offset < u.span.start.offset

theorem Ascending.start_ne {ts us : List Token} {t u : Token} (h : Ascending (ts ++ t :: us))
    (hu : u ∈ us) : t.span.start ≠ u.span.start := by
  intro heq
  have hlt := (List.pairwise_cons.mp (List.pairwise_append.mp h).2.1).1 u hu
  exact Nat.lt_irrefl _ (heq ▸ hlt)

/-- No two of the tokens start at the same place. -/
theorem Ascending.split_unique {ts us vs ws : List Token} {t u : Token}
    (h : Ascending (ts ++ t :: us)) (heq : ts ++ t :: us = vs ++ u :: ws)
    (hstart : t.span.start = u.span.start) : ts = vs ∧ t = u := by
  rcases List.append_eq_append_iff.mp heq with ⟨as, rfl, has⟩ | ⟨as, rfl, has⟩
  · cases as with
    | nil => exact ⟨(List.append_nil _).symm, (List.cons.inj has).1⟩
    | cons a as =>
      obtain ⟨rfl, rfl⟩ := List.cons.inj has
      exact absurd hstart (h.start_ne (by simp))
  · cases as with
    | nil => exact ⟨List.append_nil _, (List.cons.inj has).1.symm⟩
    | cons a as =>
      obtain ⟨rfl, rfl⟩ := List.cons.inj has
      rw [heq] at h
      exact absurd hstart.symm (h.start_ne (by simp))

theorem Ascending.index_le {ts : List Token} {i j : Nat} {t u : Token} (h : Ascending ts)
    (ht : ts[i]? = some t) (hu : ts[j]? = some u) (hstart : t.span.start = u.span.start) :
    i ≤ j := by
  obtain ⟨hi, rfl⟩ := List.getElem?_eq_some_iff.mp ht
  obtain ⟨hj, rfl⟩ := List.getElem?_eq_some_iff.mp hu
  by_contra hlt
  have hoffset := List.pairwise_iff_getElem.mp h j i hj hi (Nat.not_le.mp hlt)
  rw [hstart] at hoffset
  exact Nat.lt_irrefl _ hoffset

namespace Lexer

theorem start_of_next? {l l' : Lexer} {t : Token} (h : l.next? = some (t, l'))
    (hlimit : l.limit ≤ maxOffset) :
    l.offset ≤ t.span.start.offset ∧ t.span.start.offset < l'.offset := by
  have hl' := limit_of_next? h
  obtain ⟨p, rfl, -, hoffset, -, hwf, hspan⟩ := piece_of_next? h
  have htext : p.token.text.toList ≠ [] := by simpa using hwf.text_ne
  have hpos := byteLength_pos htext
  simp only [Piece.chars, byteLength_append] at hoffset
  have hle : l.offset + byteLength p.gap ≤ maxOffset := by
    simp only [limit] at hl' hlimit
    omega
  have hstart : p.token.span.start.offset = l.offset + byteLength p.gap := by
    rw [hspan]
    exact (saturate_natCast _).trans (Nat.min_eq_left hle)
  omega

theorem limit_ofSource_le {source : String} {file : Option String}
    (h : source.utf8ByteSize < 4294967296) : (ofSource source file).limit ≤ maxOffset := by
  simp only [limit, ofSource, byteLength_toList, maxOffset]
  omega

theorem le_start {l : Lexer} (h : l.limit ≤ maxOffset) :
    ∀ t ∈ l.tokens ++ [l.endToken], l.offset ≤ t.span.start.offset := by
  induction l using tokens.induct with
  | case1 l hn =>
    have hend : l.endToken.span.start.offset = l.limit := by
      rw [endToken_eq]
      exact (saturate_natCast _).trans (Nat.min_eq_left h)
    rw [tokens_of_next?_none hn, List.nil_append, List.forall_mem_singleton, hend]
    exact Nat.le_add_right _ _
  | case2 l t l' hl _ ih =>
    have ht := start_of_next? hl h
    rw [tokens_of_next?_some hl, List.cons_append, ← endToken_of_next? hl]
    refine List.forall_mem_cons.mpr ⟨ht.1, fun u hu => ?_⟩
    have hle := ih (limit_of_next? hl ▸ h) u hu
    omega

theorem ascending_tokens {l : Lexer} (h : l.limit ≤ maxOffset) :
    Ascending (l.tokens ++ [l.endToken]) := by
  induction l using tokens.induct with
  | case1 l hn =>
    rw [tokens_of_next?_none hn]
    exact List.pairwise_singleton ..
  | case2 l t l' hl _ ih =>
    have hl' := limit_of_next? hl ▸ h
    rw [tokens_of_next?_some hl, List.cons_append, ← endToken_of_next? hl]
    refine List.pairwise_cons.mpr ⟨fun u hu => ?_, ih hl'⟩
    exact Nat.lt_of_lt_of_le (start_of_next? hl h).2 (le_start hl' u hu)

end Lexer

end ScriptReader
