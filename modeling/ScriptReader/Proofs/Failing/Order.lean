import ScriptReader.Proofs.Ascending
import ScriptReader.Proofs.Failing.Stops
import ScriptReader.Proofs.Segments

/-! The order of diagnostics. They come in the order of the source, and those
at the same place are two at most: a token that was not expected and, in the
turn that begins with it, that it starts no operand. -/

namespace ScriptReader

variable {c d m s s' : Cursor} {e e' : Diagnostic}

/-- A cursor at tokens that start one behind the other, and among which there is no end token. -/
structure Cursor.Orderly (c : Cursor) : Prop where
  ascending : Ascending (c.ahead ++ [c.endToken])
  noEnd : ∀ t ∈ c.ahead, t.kind ≠ .eof

namespace Cursor

theorem reaches_finish (c : Cursor) : c.Reaches c.finish := ⟨List.nil_suffix, rfl⟩

/-- The current token of a cursor that is reached, among the tokens with the end behind them. -/
theorem Reaches.exists_split (h : c.Reaches d) :
    ∃ pre post, c.ahead ++ [c.endToken] = pre ++ d.current :: post ∧
      pre.length + d.ahead.length = c.ahead.length := by
  obtain ⟨pre, hpre⟩ := h.suffix
  obtain ⟨post, hpost⟩ := d.exists_current
  rw [endToken, h.stop] at hpost
  refine ⟨pre, post, ?_, by rw [← hpre, List.length_append]⟩
  rw [← hpre, List.append_assoc, endToken, hpost]

theorem Orderly.of_reaches (h : c.Orderly) (hd : c.Reaches d) : d.Orderly := by
  refine ⟨?_, fun t ht => h.noEnd t (hd.suffix.subset ht)⟩
  rw [endToken, hd.stop]
  exact h.ascending.sublist (hd.suffix.sublist.append_right _)

theorem Orderly.ahead_eq_nil (h : c.Orderly) (hk : c.current.kind = .eof) : c.ahead = [] := by
  cases ha : c.ahead with
  | nil => rfl
  | cons t ts =>
    rw [current_of_head? (by rw [ha, List.head?_cons])] at hk
    exact absurd hk (h.noEnd t (by simp [ha]))

theorem Orderly.offset_lt (h : c.Orderly) (hd : c.Reaches d)
    (hlt : d.ahead.length < c.ahead.length) :
    c.current.span.start.offset < d.current.span.start.offset := by
  obtain ⟨pre, hpre⟩ := hd.suffix
  obtain ⟨rest, hrest⟩ := d.exists_current
  have hmem : d.current ∈ d.ahead ++ [c.endToken] := by
    rw [endToken, ← hd.stop]
    exact hrest ▸ List.mem_cons_self
  cases pre with
  | nil =>
    rw [List.nil_append] at hpre
    exact absurd (congrArg List.length hpre) (Nat.ne_of_lt hlt)
  | cons t pre =>
    have hhead : c.ahead.head? = some t := by rw [← hpre, List.cons_append, List.head?_cons]
    have hc := h.ascending
    rw [← hpre, List.cons_append, List.cons_append, List.append_assoc] at hc
    rw [current_of_head? hhead]
    exact (List.pairwise_cons.mp hc).1 _ (List.mem_append_right _ hmem)

theorem Reaches.eq_of_length_le (h : c.Reaches d) (hle : c.ahead.length ≤ d.ahead.length) :
    d = c := by
  obtain ⟨ds, ds'⟩ := d
  obtain ⟨cs, cs'⟩ := c
  obtain rfl : ds' = cs' := h.stop
  obtain rfl : ds = cs := h.suffix.eq_of_length_le hle
  rfl

theorem Orderly.offset_le (h : c.Orderly) (hd : c.Reaches d) :
    c.current.span.start.offset ≤ d.current.span.start.offset := by
  by_cases hlt : d.ahead.length < c.ahead.length
  · exact Nat.le_of_lt (h.offset_lt hd hlt)
  · rw [hd.eq_of_length_le (Nat.not_lt.mp hlt)]

end Cursor

/-- The cause is about the token with which an operand should start. -/
def Cause.AboutOperand : Cause → Prop
  | .unrecognised _ | .noOperand _ | .badNumber _ => True
  | .unexpected _ _ | .tooDeep _ => False

/-- The turn at `c` gives the diagnostic `e`, which is about the token at `s`. It goes on behind
this token, or at it if another was expected. -/
structure FaultAt (c s : Cursor) (e : Diagnostic) : Prop where
  reaches : c.Reaches s
  position : e.position = s.current.span.start
  fits : e.cause.Fits s.current
  next : s.Reaches (Turn.ofCursor c).next
  begun : e.cause.AboutOperand ∨ s.ahead.length < c.ahead.length
  left : s.ahead = [] ∨ (Turn.ofCursor c).next.ahead.length < s.ahead.length ∨
    ∃ expected found, e.cause = .unexpected expected found
  skipped (n : Nat) (h : e.cause = .tooDeep n) :
    (Turn.ofCursor c).next.ahead = [] ∨
      ∃ pre t, s.ahead = pre ++ t :: (Turn.ofCursor c).next.ahead ∧ t.kind = .semicolon

theorem Cursor.advance_left (c : Cursor) :
    c.ahead = [] ∨ c.advance.ahead.length < c.ahead.length := by
  by_cases h : c.ahead = []
  · exact .inl h
  · have hpos := List.length_pos_iff.mpr h
    rw [length_advance]
    exact .inr (by omega)

/-- Behind the end of the statement, there is a semicolon in front or nothing is left. -/
theorem Cursor.Orderly.skipTo_semicolon (h : c.Orderly) :
    (c.skipTo [.semicolon, .eof]).advance.ahead = [] ∨
      ∃ pre t, c.ahead = pre ++ t :: (c.skipTo [.semicolon, .eof]).advance.ahead ∧
        t.kind = .semicolon := by
  let p : Token → Bool := fun t => !t.isOneOf [.semicolon, .eof]
  have hsplit : c.ahead.takeWhile p ++ c.ahead.dropWhile p = c.ahead :=
    List.takeWhile_append_dropWhile
  change (c.ahead.dropWhile p).tail = [] ∨
    ∃ pre t, c.ahead = pre ++ t :: (c.ahead.dropWhile p).tail ∧ t.kind = .semicolon
  cases hd : c.ahead.dropWhile p with
  | nil => exact .inl rfl
  | cons t rest =>
    rw [hd] at hsplit
    refine .inr ⟨c.ahead.takeWhile p, t, hsplit.symm, ?_⟩
    have ht : p t = false := by
      have hhead := c.ahead.head?_dropWhile_not p
      rwa [hd] at hhead
    have hmem : t ∈ c.ahead := hsplit ▸ List.mem_append_right _ List.mem_cons_self
    simpa [p, Token.isOneOf, h.noEnd t hmem] using ht

theorem Cause.reaches_site (cause : Cause) (d : Cursor) : d.Reaches (cause.site d) := by
  unfold site
  split
  · exact .refl d
  · exact d.reaches_advance
  · exact .refl d

theorem Turn.site_reaches_recover (e : Diagnostic) (d : Cursor) :
    (e.cause.site d).Reaches (recover e d).advance := by
  obtain ⟨cause, position⟩ := e
  cases cause with
  | unexpected expected found =>
    by_cases hk : expected = .rightBrace
    · subst hk
      exact d.reaches_advance
    · rw [Cause.site_unexpected hk]
      exact .refl _
  | tooDeep n => exact (d.reaches_skipTo _).trans (Cursor.reaches_advance _)
  | unrecognised text | noOperand kind | badNumber text => exact d.reaches_advance

/-- If a block is not closed, nothing is left. -/
theorem Stops.ahead_eq_nil {n : Nat} {found : TokenKind} (h : Stops n c e d) (hd : d.Orderly)
    (hcause : e.cause = .unexpected .rightBrace found) : d.ahead = [] := by
  obtain rfl := h.unclosed found hcause
  have hfits := h.fits
  rw [hcause] at hfits
  exact hd.ahead_eq_nil hfits.1

theorem Stops.begun (h : Stops Parser.maxNesting c e d) (hd : d.Orderly) (hreach : c.Reaches d)
    (hc : c.ahead ≠ []) :
    e.cause.AboutOperand ∨ (e.cause.site d).ahead.length < c.ahead.length := by
  have hpos := List.length_pos_iff.mpr hc
  obtain ⟨cause, position⟩ := e
  cases cause with
  | unexpected expected found =>
    right
    by_cases hk : expected = .rightBrace
    · subst hk
      change d.ahead.length < c.ahead.length
      rwa [h.ahead_eq_nil hd rfl]
    · have hle := hreach.length_le
      rw [Cause.site_unexpected hk, Cursor.length_advance]
      omega
  | tooDeep n =>
    have hdeep : d.ahead.length + 256 ≤ c.ahead.length := h.deep n rfl
    exact .inr (show d.ahead.length < c.ahead.length by omega)
  | unrecognised text | noOperand kind | badNumber text => exact .inl trivial

theorem Turn.recover_left (e : Diagnostic) (d : Cursor) :
    (e.cause.site d).ahead = [] ∨
      (recover e d).advance.ahead.length < (e.cause.site d).ahead.length ∨
      ∃ expected found, e.cause = .unexpected expected found := by
  obtain ⟨cause, position⟩ := e
  cases cause with
  | unexpected expected found => exact .inr (.inr ⟨expected, found, rfl⟩)
  | tooDeep n =>
    have hle := (d.reaches_skipTo [.semicolon, .eof]).length_le
    refine d.advance_left.imp_right fun hlt => .inl ?_
    rw [Cursor.length_advance] at hlt
    change (d.skipTo [.semicolon, .eof]).advance.ahead.length < d.ahead.length
    rw [Cursor.length_advance]
    omega
  | unrecognised text | noOperand kind | badNumber text =>
    exact d.advance_left.imp_right .inl

theorem exists_faultAt_of_item (h : c.Orderly) (hc : c.ahead ≠ [])
    (he : (Turn.ofCursor c).item = .error e) : ∃ s, FaultAt c s e := by
  cases hr : (Parser.statement Parser.expression).run c with
  | ok v d => simp [Turn.ofCursor_of_ok hr] at he
  | error e' d =>
    obtain rfl : e' = e := by simpa [Turn.ofCursor_of_error hr] using he
    have hstop := Parser.statement_stopping hr
    have hreach := Parser.reaches_of_error hr
    have hd := h.of_reaches hreach
    have hnext : (Turn.ofCursor c).next = (Turn.recover e' d).advance := by
      rw [Turn.ofCursor_of_error hr]
    refine ⟨e'.cause.site d, hreach.trans (e'.cause.reaches_site d), hstop.position, hstop.fits,
      ?_, hstop.begun hd hreach hc, ?_, fun n hn => ?_⟩
    · exact hnext ▸ Turn.site_reaches_recover e' d
    · exact hnext ▸ Turn.recover_left e' d
    · rw [hnext, Turn.recover, hn]
      exact hd.skipTo_semicolon

theorem exists_faultAt (h : c.Orderly) (he : e ∈ (Report.ofTurns (turns c)).diagnostics) :
    ∃ m s, c.Reaches m ∧ m.ahead ≠ [] ∧ FaultAt m s e := by
  obtain ⟨m, hm, hne, hitem⟩ := exists_item_of_mem_diagnostics he
  obtain ⟨s, hs⟩ := exists_faultAt_of_item (h.of_reaches hm) hne hitem
  exact ⟨m, s, hm, hne, hs⟩

/-- Each diagnostic is about a token, of which it says what is so. -/
theorem exists_token_of_mem_diagnostics (h : c.Orderly)
    (he : e ∈ (Report.ofTurns (turns c)).diagnostics) :
    ∃ t ∈ c.ahead ++ [c.endToken], e.position = t.span.start ∧ e.cause.Fits t := by
  obtain ⟨m, s, hm, -, hs⟩ := exists_faultAt h he
  obtain ⟨pre, post, hsplit, -⟩ := (hm.trans hs.reaches).exists_split
  exact ⟨s.current, by simp [hsplit], hs.position, hs.fits⟩

/-- What holds of any two diagnostics, of which the turn of the one is before that of the other. -/
theorem pairwise_diagnostics {R : Diagnostic → Diagnostic → Prop} (h : c.Orderly)
    (hR : ∀ k m s s' e e', c.Reaches k → FaultAt k s e → (Turn.ofCursor k).next.Reaches m →
      m.ahead ≠ [] → FaultAt m s' e' → R e e') :
    (Report.ofTurns (turns c)).diagnostics.Pairwise R := by
  induction c using turns_induction with
  | hnil c hc =>
    rw [turns_of_nil hc]
    exact .nil
  | hturn c hc ih =>
    have hreach := Turn.reaches_next c
    have hnext := h.of_reaches hreach
    have htail := ih hnext fun k m s s' e e' hk => hR k m s s' e e' (hreach.trans hk)
    rw [turns_of_ne_nil hc, Report.ofTurns_cons]
    cases hitem : (Turn.ofCursor c).item with
    | ok v => simpa [Turn.diagnostic?, hitem] using htail
    | error e =>
      obtain ⟨s, hs⟩ := exists_faultAt_of_item h hc hitem
      simp only [Turn.diagnostic?, hitem, Option.toList_some, List.singleton_append]
      refine List.pairwise_cons.mpr ⟨fun e' he' => ?_, htail⟩
      obtain ⟨m, s', hm, hne, hs'⟩ := exists_faultAt hnext he'
      exact hR c m s s' e e' (.refl c) hs hm hne hs'

/-- How a diagnostic stands to a later one, if they are about tokens from `c` on. -/
structure Precedes (c : Cursor) (e e' : Diagnostic) : Prop where
  le : e.position.offset ≤ e'.position.offset
  lt_stop : e.position.offset < c.stop.offset
  shared (h : e.position.offset = e'.position.offset) :
    (∃ expected found, e.cause = .unexpected expected found) ∧ e'.cause.AboutOperand
  parted (n n' : Nat) (h : e.cause = .tooDeep n) (h' : e'.cause = .tooDeep n') :
    ∃ t ∈ c.ahead, t.kind = .semicolon ∧ e.position.offset ≤ t.span.start.offset ∧
      t.span.start.offset < e'.position.offset

section

variable {k : Cursor} (h : s.Orderly) (hs : FaultAt k s e)
  (hm : (Turn.ofCursor k).next.Reaches m) (hne : m.ahead ≠ []) (hs' : FaultAt m s' e')

include hs hm hs' in
theorem FaultAt.reaches_later : s.Reaches s' := hs.next.trans (hm.trans hs'.reaches)

include hs hm hne in
theorem FaultAt.length_pos : 0 < s.ahead.length := by
  have hpos := List.length_pos_iff.mpr hne
  have hle := (hs.next.trans hm).length_le
  omega

include h hs hm hne in
theorem FaultAt.offset_lt_stop : e.position.offset < s.stop.offset := by
  rw [hs.position]
  exact h.offset_lt s.reaches_finish (hs.length_pos hm hne)

include h hs hm hs' in
theorem FaultAt.offset_le : e.position.offset ≤ e'.position.offset := by
  rw [hs.position, hs'.position]
  exact h.offset_le (hs.reaches_later hm hs')

include h hs hm hne hs' in
/-- If both are about the same token, the turn of the later one starts at it, as the other turn
did not go on behind it. -/
theorem FaultAt.causes_of_offset_eq (heq : e.position.offset = e'.position.offset) :
    (∃ expected found, e.cause = .unexpected expected found) ∧ e'.cause.AboutOperand := by
  have hsame : s.ahead.length ≤ s'.ahead.length := by
    by_contra hlt
    have hoffset := h.offset_lt (hs.reaches_later hm hs') (Nat.not_le.mp hlt)
    rw [hs.position, hs'.position] at heq
    omega
  have hpos := hs.length_pos hm hne
  have hle := hm.length_le
  have hle' := hs'.reaches.length_le
  constructor
  · rcases hs.left with hnil | hlt | hunexpected
    · exact absurd hnil (List.length_pos_iff.mp hpos)
    · omega
    · exact hunexpected
  · rcases hs'.begun with habout | hlt
    · exact habout
    · have hnext := hs.next.length_le
      omega

include h hs hm hne hs' in
theorem FaultAt.exists_semicolon {n : Nat} (hn : e.cause = .tooDeep n) :
    ∃ t ∈ s.ahead, t.kind = .semicolon ∧ e.position.offset ≤ t.span.start.offset ∧
      t.span.start.offset < e'.position.offset := by
  have hafter := hm.trans hs'.reaches
  have hle := hafter.length_le
  rcases hs.skipped n hn with hnil | ⟨pre, t, hsplit, ht⟩
  · have hpos := List.length_pos_iff.mpr hne
    have hlem := hm.length_le
    rw [hnil, List.length_nil] at hlem
    omega
  · let j : Cursor := ⟨t :: (Turn.ofCursor k).next.ahead, s.stop⟩
    have hj : s.Reaches j := ⟨⟨pre, hsplit.symm⟩, rfl⟩
    have hj' : j.Reaches s' :=
      ⟨hafter.suffix.trans (List.suffix_cons _ _), (hs.reaches_later hm hs').stop⟩
    have hmem : t ∈ s.ahead := hsplit ▸ List.mem_append_right pre List.mem_cons_self
    rw [hs.position, hs'.position]
    exact ⟨t, hmem, ht, h.offset_le hj,
      (h.of_reaches hj).offset_lt hj' (Nat.lt_succ_of_le hle)⟩

end

theorem precedes_of_faultAt {k : Cursor} (h : c.Orderly) (hk : c.Reaches k) (hs : FaultAt k s e)
    (hm : (Turn.ofCursor k).next.Reaches m) (hne : m.ahead ≠ []) (hs' : FaultAt m s' e') :
    Precedes c e e' := by
  have hreach : c.Reaches s := hk.trans hs.reaches
  have hsite : s.Orderly := h.of_reaches hreach
  refine ⟨hs.offset_le hsite hm hs', hreach.stop ▸ hs.offset_lt_stop hsite hm hne,
    hs.causes_of_offset_eq hsite hm hne hs', fun n _ hn _ => ?_⟩
  obtain ⟨t, ht, hbetween⟩ := hs.exists_semicolon hsite hm hne hs' hn
  exact ⟨t, hreach.suffix.subset ht, hbetween⟩

theorem diagnostics_precede (h : c.Orderly) :
    (Report.ofTurns (turns c)).diagnostics.Pairwise (Precedes c) :=
  pairwise_diagnostics h fun _ _ _ _ _ _ => precedes_of_faultAt h

/-- Three diagnostics do not share a place: the second of them would be of two kinds. -/
theorem length_filter_offset_le {ds : List Diagnostic} (h : ds.Pairwise (Precedes c))
    (offset : Nat) : (ds.filter fun e => e.position.offset = offset).length ≤ 2 := by
  have hp := h.filter fun e => decide (e.position.offset = offset)
  have hmem : ∀ e ∈ ds.filter fun e => e.position.offset = offset, e.position.offset = offset :=
    fun e he => by simpa using (List.mem_filter.mp he).2
  generalize (ds.filter fun e => e.position.offset = offset) = es at hp hmem ⊢
  match es with
  | [] | [_] | [_, _] => simp
  | e₁ :: e₂ :: e₃ :: es =>
    simp only [List.forall_mem_cons] at hmem
    obtain ⟨h₁, h₂, h₃, -⟩ := hmem
    obtain ⟨hfirst, hp⟩ := List.pairwise_cons.mp hp
    have habout := ((hfirst e₂ (by simp)).shared (h₁.trans h₂.symm)).2
    obtain ⟨expected, found, hcause⟩ :=
      (((List.pairwise_cons.mp hp).1 e₃ (by simp)).shared (h₂.trans h₃.symm)).1
    rw [hcause] at habout
    exact habout.elim

theorem orderly_ofSource {source : String} {file : Option String}
    (hlength : source.utf8ByteSize < 4294967296) : (Cursor.ofSource source file).Orderly := by
  refine ⟨Lexer.ascending_tokens (Lexer.limit_ofSource_le hlength), fun t ht => ?_⟩
  exact (Lexer.spelled_of_mem_tokens ht).kind_ne_eof

/-- Diagnostics come in the order of the source. At most two are about the same place: first that
a token was not expected, then that it starts no operand. One about the end is the last, and two
about nesting have a semicolon between them. -/
theorem ofSource_diagnostics_ordered {source : String} {file : Option String}
    {ds : List Diagnostic} (hlength : source.utf8ByteSize < 4294967296)
    (hds : (Report.ofSource source file).diagnostics = ds) :
    ds.Pairwise (fun e e' => e.position.offset ≤ e'.position.offset) ∧
      (∀ offset, (ds.filter fun e => e.position.offset = offset).length ≤ 2) ∧
      ds.Pairwise (fun e e' => e.position.offset = e'.position.offset →
        (∃ expected found, e.cause = .unexpected expected found) ∧ e'.cause.AboutOperand) ∧
      (∀ pre e post, ds = pre ++ e :: post →
        e.position.offset = (Lexer.ofSource source file).stop.offset → post = []) ∧
      ds.Pairwise (fun e e' => ∀ n n', e.cause = .tooDeep n → e'.cause = .tooDeep n' →
        ∃ t ∈ tokenize source file, t.kind = .semicolon ∧
          e.position.offset ≤ t.span.start.offset ∧
          t.span.start.offset < e'.position.offset) := by
  have hp : ds.Pairwise (Precedes (.ofSource source file)) :=
    hds ▸ diagnostics_precede (orderly_ofSource hlength)
  refine ⟨hp.imp Precedes.le, length_filter_offset_le hp, hp.imp Precedes.shared, ?_, ?_⟩
  · intro pre e post hsplit hend
    cases post with
    | nil => rfl
    | cons e' post =>
      rw [hsplit] at hp
      have hlater := (List.pairwise_cons.mp (List.pairwise_append.mp hp).2.1).1
      exact absurd hend (Nat.ne_of_lt (hlater e' List.mem_cons_self).lt_stop)
  · refine hp.imp fun h n n' hn hn' => ?_
    obtain ⟨t, ht, hbetween⟩ := h.parted n n' hn hn'
    exact ⟨t, List.mem_append_left _ ht, hbetween⟩

/-- The name of a definition is missing, twice: the sign `=` is found in its place and then starts
no statement, and the end is found in its place. -/
theorem ofSource_diagnostics_ordered_define :
    let source := String.ofList ['l', 'e', 't', ' ', '=', ' ', 'l', 'e', 't']
    let ds : List Diagnostic :=
      [⟨.unexpected .identifier .assign, ⟨4, "shell"⟩⟩, ⟨.noOperand .assign, ⟨4, "shell"⟩⟩,
        ⟨.unexpected .identifier .eof, ⟨9, "shell"⟩⟩]
    source.utf8ByteSize < 4294967296 ∧ (Report.ofSource source none).diagnostics = ds ∧
      ds.Pairwise (fun e e' => e.position.offset ≤ e'.position.offset) ∧
      (∀ offset, (ds.filter fun e => e.position.offset = offset).length ≤ 2) ∧
      ds.Pairwise (fun e e' => e.position.offset = e'.position.offset →
        (∃ expected found, e.cause = .unexpected expected found) ∧ e'.cause.AboutOperand) := by
  intro source ds
  have hsource : Lexer.ofSource source none =
      ⟨['l', 'e', 't', ' ', '=', ' ', 'l', 'e', 't'], 0, "shell"⟩ := by
    decide
  have hlength : source.utf8ByteSize < 4294967296 := by
    rw [utf8ByteSize_ofList]
    decide
  have hds : (Report.ofSource source none).diagnostics = ds := by
    rw [Report.ofSource, hsource]
    decide +kernel
  obtain ⟨hle, htwo, hshared, -, -⟩ := ofSource_diagnostics_ordered hlength hds
  exact ⟨hlength, hds, hle, htwo, hshared⟩

end ScriptReader
