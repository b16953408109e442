import ScriptReader.Proofs.Ascending
import ScriptReader.Source.Line

/-! Lines as parts of their source. The line that is found for an offset begins
behind a line feed and goes on up to the next one, and the offset falls within it.
A token stands in the line that is found for its start. -/

namespace ScriptReader

open Text

theorem splitLines_eq_singleton {cs : List Char} (h : '\n' ∉ cs) (hne : cs ≠ []) :
    splitLines cs = [cs] := by
  induction cs with
  | nil => contradiction
  | cons c cs ih =>
    rw [List.mem_cons, not_or] at h
    have hc : (c == '\n') = false := beq_false_of_ne (Ne.symm h.1)
    cases cs with
    | nil => simp [splitLines, hc]
    | cons d ds => rw [splitLines, ih h.2 (List.cons_ne_nil d ds), hc]

theorem splitLines_append_lineFeed {w : List Char} (hw : '\n' ∉ w) (cs : List Char) :
    splitLines (w ++ '\n' :: cs) = (w ++ ['\n']) :: splitLines cs := by
  induction w with
  | nil => rfl
  | cons c w ih =>
    rw [List.mem_cons, not_or] at hw
    have hc : (c == '\n') = false := beq_false_of_ne (Ne.symm hw.1)
    rw [List.cons_append, splitLines, ih hw.2, hc, List.cons_append]

/-- In a text of one line, offsets past the end fall on its end. -/
theorem locateFrom_of_not_mem {cs : List Char} (h : '\n' ∉ cs) (number offset : Nat) :
    locateFrom number (splitLines cs) offset = ⟨number, cs, min offset (byteLength cs)⟩ := by
  by_cases hne : cs = []
  · subst hne
    simp [splitLines, locateFrom]
  · have hlast : cs.getLast? ≠ some '\n' := fun hl => h (List.mem_of_getLast? hl)
    rw [splitLines_eq_singleton h hne, locateFrom]
    by_cases hlt : offset < byteLength cs
    · rw [if_pos hlt, Nat.min_eq_left (Nat.le_of_lt hlt)]
    · rw [if_neg hlt, if_pos ⟨rfl, hlast⟩, Nat.min_eq_right (Nat.not_lt.mp hlt)]

/-- The first line holds the offsets up to that of its line feed. -/
theorem locateFrom_append_lineFeed {w : List Char} (hw : '\n' ∉ w) (cs : List Char)
    (number offset : Nat) :
    locateFrom number (splitLines (w ++ '\n' :: cs)) offset =
      if offset ≤ byteLength w then ⟨number, w ++ ['\n'], offset⟩
      else locateFrom (number + 1) (splitLines cs) (offset - (byteLength w + 1)) := by
  have hfeed : byteLength (w ++ ['\n']) = byteLength w + 1 := byteLength_append _ _
  have hlast : ¬(splitLines cs = [] ∧ (w ++ ['\n']).getLast? ≠ some '\n') := by simp
  rw [splitLines_append_lineFeed hw, locateFrom, hfeed, if_neg hlast]
  exact if_congr Nat.lt_succ_iff rfl rfl

/-- `l` is the line `body` of a text, with the line feed that ends it. The text goes on with
`behind`, and its lines are counted from `number` on. The offset falls into the line or on its
end. -/
structure Line.Cuts (l : Line) (number : Nat) (before body behind : List Char) : Prop where
  number_eq : l.number = number + before.count '\n'
  chars_eq : l.chars = body ++ behind.take 1
  offset_le : l.offset ≤ byteLength body
  begins : before = [] ∨ before.getLast? = some '\n'
  unbroken : '\n' ∉ body
  ends : behind = [] ∨ behind.head? = some '\n'

/-- A line of what stands behind a line feed is one of the whole text. -/
theorem Line.Cuts.behind_lineFeed {l : Line} {number : Nat} {w before body behind : List Char}
    (h : l.Cuts (number + 1) before body behind) (hw : '\n' ∉ w) :
    l.Cuts number (w ++ '\n' :: before) body behind where
  number_eq := by
    rw [h.number_eq, List.count_append, List.count_cons_self, List.count_eq_zero_of_not_mem hw]
    omega
  chars_eq := h.chars_eq
  offset_le := h.offset_le
  begins := by
    rcases h.begins with rfl | hlast
    · simp
    · simp [List.getLast?_cons, hlast]
  unbroken := h.unbroken
  ends := h.ends

theorem exists_cuts_locateFrom (cs : List Char) (number offset : Nat) :
    ∃ before body behind, cs = before ++ body ++ behind ∧
      (locateFrom number (splitLines cs) offset).Cuts number before body behind ∧
      byteLength before + (locateFrom number (splitLines cs) offset).offset =
        min offset (byteLength cs) := by
  induction hn : cs.length using Nat.strongRecOn generalizing cs number offset with
  | ind n ih =>
    by_cases hbreak : '\n' ∈ cs
    · obtain ⟨w, rest, rfl, hw⟩ := List.eq_append_cons_of_mem hbreak
      have hcs : byteLength (w ++ '\n' :: rest) = byteLength w + (1 + byteLength rest) :=
        byteLength_append _ _
      rw [locateFrom_append_lineFeed hw]
      by_cases hle : offset ≤ byteLength w
      · rw [if_pos hle]
        refine ⟨[], w, '\n' :: rest, rfl, ⟨rfl, rfl, hle, .inl rfl, hw, .inr rfl⟩, ?_⟩
        rw [byteLength_nil, Nat.zero_add, Nat.min_eq_left (by omega)]
      · have hrest : rest.length < n := by
          rw [← hn, List.length_append, List.length_cons]
          omega
        obtain ⟨before, body, behind, rfl, hcuts, hoffset⟩ :=
          ih _ hrest rest (number + 1) (offset - (byteLength w + 1)) rfl
        rw [if_neg hle]
        refine ⟨w ++ '\n' :: before, body, behind, by simp, hcuts.behind_lineFeed hw, ?_⟩
        have hbefore : byteLength (w ++ '\n' :: before) = byteLength w + (1 + byteLength before) :=
          byteLength_append _ _
        rw [hbefore, hcs]
        omega
    · rw [locateFrom_of_not_mem hbreak]
      refine ⟨[], cs, [], by simp, ⟨rfl, (List.append_nil cs).symm, Nat.min_le_right _ _, .inl rfl,
        hbreak, .inl rfl⟩, ?_⟩
      rw [byteLength_nil, Nat.zero_add]

/-- The line of a source that is found for an offset. -/
theorem exists_cuts_locate (source : String) (offset : Nat) :
    ∃ before body behind, source.toList = before ++ body ++ behind ∧
      (locate source offset).Cuts 1 before body behind ∧
      byteLength before + (locate source offset).offset = min offset source.utf8ByteSize := by
  rw [← byteLength_toList]
  exact exists_cuts_locateFrom source.toList 1 offset

/-! Tokens in their lines. -/

theorem lexeme_not_layout {c : Char} (h : isLayout c = false) (cs : List Char) :
    ∀ x ∈ (lexeme c cs).chars, isLayout x = false := by
  rw [lexeme]
  by_cases hw : isWordChar c = true
  · rw [if_pos hw]
    exact fun x hx => isLayout_eq_false_of_isWordChar (forall_mem_run hw x hx)
  · rw [if_neg hw]
    by_cases hd : c.isDigit = true
    · rw [if_pos hd]
      exact fun x hx => isLayout_eq_false_of_isDigit (forall_mem_run hd x hx)
    · rw [if_neg hd]
      unfold Lexeme.ofSymbol
      split
      · simpa using ⟨h, by decide⟩
      · simpa using h

theorem Lexer.not_layout_of_mem_tokens {l : Lexer} {t : Token} (h : t ∈ l.tokens) :
    ∀ c ∈ t.text.toList, isLayout c = false := by
  induction l using tokens.induct with
  | case1 l hn => simp [tokens_of_next?_none hn] at h
  | case2 l t' l' hl _ ih =>
    rw [tokens_of_next?_some hl] at h
    rcases List.mem_cons.mp h with rfl | h
    · obtain ⟨c, cs, hrest, rfl, -⟩ := eq_of_next? hl
      have hd : l.rest.dropWhile isLayout = c :: cs := hrest
      have hc := List.head?_dropWhile_not isLayout l.rest
      rw [hd] at hc
      rw [String.toList_ofList]
      exact lexeme_not_layout (by simpa using hc) cs
    · exact ih h

theorem saturate_of_le {n m : Nat} (hn : n ≤ m) (hm : m < 4294967296) : saturate n = n := by
  rw [saturate_natCast, maxOffset]
  omega

/-- A token stands in its source where it says that it starts. -/
theorem exists_split_at_start {source : String} {file : Option String} {t : Token}
    (hlength : source.utf8ByteSize < 4294967296) (ht : t ∈ tokenize source file) :
    ∃ pre post, source.toList = pre ++ (t.text.toList ++ post) ∧
      t.span.start = ⟨byteLength pre, fileName file⟩ ∧ ∀ c ∈ t.text.toList, isLayout c = false := by
  rw [← byteLength_toList] at hlength
  rcases List.mem_append.mp ht with ht | ht
  · have hlayout := Lexer.not_layout_of_mem_tokens ht
    obtain ⟨ps, last, hts, hrest, -, -, hat⟩ := (Lexer.ofSource source file).exists_pieces
    obtain ⟨p, hp, rfl⟩ := List.mem_map.mp (hts ▸ ht)
    obtain ⟨before, after, rfl⟩ := List.append_of_mem hp
    have hsource : source.toList = before.flatMap Piece.chars ++ p.gap ++
        (p.token.text.toList ++ (after.flatMap Piece.chars ++ last)) := by
      change source.toList = _ at hrest
      simp [hrest, Piece.chars]
    have hle := Nat.le_add_right (byteLength (before.flatMap Piece.chars ++ p.gap))
      (byteLength (p.token.text.toList ++ (after.flatMap Piece.chars ++ last)))
    rw [← byteLength_append, ← hsource] at hle
    have hoffset : 0 + byteLength (before.flatMap Piece.chars) + byteLength p.gap =
        byteLength (before.flatMap Piece.chars ++ p.gap) := by
      rw [Nat.zero_add, byteLength_append]
    refine ⟨_, _, hsource, ?_, hlayout⟩
    rw [← saturate_of_le hle hlength, ← hoffset, (hat before p after rfl).1]
    rfl
  · obtain rfl := List.mem_singleton.mp ht
    have hlimit : (Lexer.ofSource source file).limit = byteLength source.toList := Nat.zero_add _
    refine ⟨source.toList, [], (List.append_nil _).symm, ?_, List.forall_mem_nil _⟩
    rw [Lexer.endToken_eq, hlimit, saturate_of_le (Nat.le_refl _) hlength]
    rfl

theorem eq_append_of_byteLength_le {as bs cs ds : List Char} (h : as ++ bs = cs ++ ds)
    (hle : byteLength as ≤ byteLength cs) : ∃ es, cs = as ++ es ∧ bs = es ++ ds := by
  rcases List.append_eq_append_iff.mp h with ⟨es, hes, hbs⟩ | ⟨es, rfl, rfl⟩
  · exact ⟨es, hes, hbs⟩
  · have hnil : es = [] := by
      by_contra hne
      have hpos := byteLength_pos hne
      rw [byteLength_append] at hle
      omega
    subst hnil
    exact ⟨[], by simp, by simp⟩

theorem append_inj_of_byteLength_eq {as bs cs ds : List Char} (h : as ++ bs = cs ++ ds)
    (heq : byteLength as = byteLength cs) : as = cs ∧ bs = ds := by
  obtain ⟨es, hcs, hbs⟩ := eq_append_of_byteLength_le h (Nat.le_of_eq heq)
  have hnil : es = [] := by
    by_contra hne
    have hpos := byteLength_pos hne
    rw [hcs, byteLength_append] at heq
    omega
  rw [hnil] at hcs hbs
  exact ⟨by rw [hcs, List.append_nil], hbs⟩

/-- What stands at the place of a line and holds no line feed stands in the line. -/
theorem Line.Cuts.exists_lead {l : Line} {number : Nat} {before body behind pre w post : List Char}
    (h : l.Cuts number before body behind) (hsplit : before ++ body ++ behind = pre ++ (w ++ post))
    (hpre : byteLength pre = byteLength before + l.offset) (hw : '\n' ∉ w) :
    ∃ lead rest, pre = before ++ lead ∧ body = lead ++ w ++ rest ∧ byteLength lead = l.offset := by
  rw [List.append_assoc] at hsplit
  obtain ⟨lead, rfl, hbody⟩ := eq_append_of_byteLength_le hsplit (by omega)
  have hlead : byteLength lead = l.offset := by
    rw [byteLength_append] at hpre
    omega
  obtain ⟨es, rfl, hes⟩ := eq_append_of_byteLength_le hbody.symm (hlead ▸ h.offset_le)
  refine ⟨lead, ?_⟩
  rcases List.append_eq_append_iff.mp hes with ⟨rest, rfl, -⟩ | ⟨rest, rfl, hbehind⟩
  · exact ⟨rest, rfl, by simp, hlead⟩
  · -- What is behind the line begins with a line feed, and so does not reach into `w`.
    have hnil : rest = [] := by
      cases rest with
      | nil => rfl
      | cons c rest =>
        rcases h.ends with rfl | hhead
        · simp at hbehind
        · rw [hbehind] at hhead
          obtain rfl : c = '\n' := by simpa using hhead
          exact absurd (by simp) hw
    exact ⟨[], rfl, by simp [hnil], hlead⟩

/-- The line that is found for the start of a token has the token in it, behind `lead`. -/
theorem exists_cuts_of_mem_tokenize {source : String} {file : Option String} {t : Token}
    (hlength : source.utf8ByteSize < 4294967296) (ht : t ∈ tokenize source file) :
    ∃ before lead rest behind,
      source.toList = before ++ (lead ++ t.text.toList ++ rest) ++ behind ∧
      (locate source t.span.start.offset).Cuts 1 before (lead ++ t.text.toList ++ rest) behind ∧
      byteLength lead = (locate source t.span.start.offset).offset ∧
      t.span.start = ⟨byteLength (before ++ lead), fileName file⟩ ∧
      ∀ c ∈ t.text.toList, isLayout c = false := by
  obtain ⟨pre, post, hsource, hpre, hlayout⟩ := exists_split_at_start hlength ht
  obtain ⟨before, body, behind, hcut, hcuts, hoffset⟩ :=
    exists_cuts_locate source t.span.start.offset
  have hstart : t.span.start.offset = byteLength pre := congrArg Position.offset hpre
  have hle : t.span.start.offset ≤ source.utf8ByteSize := by
    rw [hstart, ← byteLength_toList, hsource, byteLength_append]
    exact Nat.le_add_right _ _
  have hfeed : '\n' ∉ t.text.toList := fun h => by simpa [isLayout] using hlayout _ h
  rw [Nat.min_eq_left hle] at hoffset
  obtain ⟨lead, rest, rfl, rfl, hlead⟩ :=
    hcuts.exists_lead (hcut ▸ hsource) (hstart.symm.trans hoffset.symm) hfeed
  exact ⟨before, lead, rest, behind, hcut, hcuts, hlead, hpre, hlayout⟩

end ScriptReader
