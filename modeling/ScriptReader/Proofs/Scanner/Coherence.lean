import ScriptReader.Proofs.Scanner.Basic
import ScriptReader.Proofs.Source.Lines

/-! A scanner stands between two parts of its input. What it does is read off
these: a step moves characters from the second part to the first, so that no
slice fails, and its tokens are those of the lexer. -/

namespace ScriptReader

open Text

namespace Text

variable {s : String} {before w rest : List Char}

theorem isValid_of_toList_eq (h : s.toList = before ++ rest) :
    String.Pos.Raw.IsValid s ⟨byteLength before⟩ := by
  refine String.Pos.Raw.isValid_iff_exists_append.mpr
    ⟨String.ofList before, String.ofList rest, ?_, ?_⟩
  · rw [← String.ofList_append, ← h, String.ofList_toList]
  · exact congrArg String.Pos.Raw.mk (utf8ByteSize_ofList before).symm

theorem exists_boundary (h : s.toList = before ++ rest) :
    ∃ p, boundary? s (byteLength before) = some p ∧
      p.Splits (String.ofList before) (String.ofList rest) := by
  have hs : s = String.ofList before ++ String.ofList rest := by
    rw [← String.ofList_append, ← h, String.ofList_toList]
  exact ⟨_, dif_pos (isValid_of_toList_eq h), hs,
    congrArg String.Pos.Raw.mk (utf8ByteSize_ofList before).symm⟩

theorem sliceFrom?_eq (h : s.toList = before ++ rest) :
    sliceFrom? s (byteLength before) = some (String.ofList rest) := by
  obtain ⟨p, hp, hsplits⟩ := exists_boundary h
  rw [sliceFrom?, hp, Option.map_some, hsplits.copy_sliceFrom_eq]

theorem slice?_eq (h : s.toList = before ++ w ++ rest) :
    slice? s (byteLength before) (byteLength (before ++ w)) = some (String.ofList w) := by
  obtain ⟨q, hq, hbehind⟩ := exists_boundary h
  rw [List.append_assoc] at h
  obtain ⟨p, hp, hfront⟩ := exists_boundary h
  rw [String.ofList_append] at hfront hbehind
  obtain ⟨hle, hcopy⟩ := String.copy_slice_eq_iff_splits.mpr ⟨_, _, hfront, hbehind⟩
  simp only [slice?, hp, hq, String.slice?, Option.bind_eq_bind, Option.bind_some, dif_pos hle,
    hcopy, Option.pure_def]

theorem utf8DecodeChar?_eq (h : s.toList = before ++ rest) :
    s.toByteArray.utf8DecodeChar? (byteLength before) = rest.head? := by
  have hs : s.toByteArray = before.utf8Encode ++ rest.utf8Encode := by
    rw [← String.utf8Encode_toList, h, List.utf8Encode_append]
  have hsize : before.utf8Encode.size = byteLength before := by
    rw [← String.toByteArray_ofList, ← utf8ByteSize_ofList]
    rfl
  rw [ByteArray.utf8DecodeChar?_eq_utf8DecodeChar?_extract, hs,
    ByteArray.extract_append_eq_right hsize.symm (by rw [ByteArray.size_append])]
  cases rest with
  | nil => rfl
  | cons c rest => exact List.utf8DecodeChar?_utf8Encode_cons

theorem runLength?_ofList_of_cons {p : Char → Bool} {c : Char} (cs : List Char) (h : p c = true) :
    runLength? p (String.ofList (c :: cs)) = some (byteLength ((c :: cs).takeWhile p)) := by
  rw [runLength?, String.toList_ofList, List.takeWhile_cons_of_pos h]

theorem getD_runLength?_ofList (p : Char → Bool) (cs : List Char) :
    (runLength? p (String.ofList cs)).getD 0 = byteLength (cs.takeWhile p) := by
  rw [runLength?, String.toList_ofList]
  split
  · rename_i hnil
    rw [hnil]
    rfl
  · rfl

end Text

namespace Scanner

section

variable (before rest : List Char) (file : String)

/-- The scanner that stands between the two parts of its input. -/
def between : Scanner where
  input := String.ofList (before ++ rest)
  position := byteLength before
  nextPosition := byteLength before + rest.head?.elim 0 Char.utf8Size
  current := rest.head?
  file := file

@[simp] theorem toList_input_between :
    (between before rest file).input.toList = before ++ rest := String.toList_ofList

@[simp] theorem position_between : (between before rest file).position = byteLength before := rfl

@[simp] theorem current_between : (between before rest file).current = rest.head? := rfl

@[simp] theorem file_between : (between before rest file).file = file := rfl

theorem nextPosition_between :
    (between before rest file).nextPosition = byteLength (before ++ rest.take 1) := by
  rw [byteLength_append]
  cases rest <;> rfl

/-- The input around the boundary behind the current character. -/
theorem toList_input_step :
    (between before rest file).input.toList = (before ++ rest.take 1) ++ rest.drop 1 := by
  rw [toList_input_between, List.append_assoc, List.take_append_drop]

theorem coherent_between : (between before rest file).Coherent := by
  have hinput := toList_input_between before rest file
  have hsize : (between before rest file).input.utf8ByteSize =
      byteLength before + byteLength rest := by
    rw [between, utf8ByteSize_ofList, byteLength_append]
  have hrest : rest.head? = none ↔ byteLength rest = 0 := by
    cases rest with
    | nil => simp
    | cons c rest =>
      have hpos := c.utf8Size_pos
      simp only [List.head?_cons, reduceCtorEq, byteLength_cons, false_iff]
      omega
  constructor
  case position_le => exact Nat.le_add_right _ _
  case nextPosition_le =>
    have h := congrArg byteLength (List.take_append_drop 1 rest)
    rw [byteLength_append] at h
    rw [nextPosition_between, hsize, byteLength_append]
    omega
  case boundary => exact isValid_of_toList_eq hinput
  case nextBoundary =>
    rw [nextPosition_between]
    exact isValid_of_toList_eq (toList_input_step before rest file)
  case current_eq => exact (utf8DecodeChar?_eq hinput).symm
  case current_eq_none_iff =>
    rw [hsize, current_between, hrest, position_between]
    omega
  case length_eq => exact Nat.add_sub_cancel_left _ _

end

/-- A coherent scanner stands between two parts of its input. -/
theorem Coherent.exists_between {s : Scanner} (h : s.Coherent) :
    ∃ before rest, s = between before rest s.file := by
  obtain ⟨t, u, hs, hoffset⟩ := String.Pos.Raw.isValid_iff_exists_append.mp h.boundary
  have hinput : s.input.toList = t.toList ++ u.toList := by rw [hs, String.toList_append]
  have hposition : s.position = byteLength t.toList := by
    rw [byteLength_toList]
    exact congrArg String.Pos.Raw.byteIdx hoffset
  have hcurrent : s.current = u.toList.head? := by
    rw [h.current_eq, hposition, utf8DecodeChar?_eq hinput]
  have hlength := h.length_eq
  have hle := h.position_le
  rw [hcurrent] at hlength
  refine ⟨t.toList, u.toList, ?_⟩
  cases s with
  | mk input position nextPosition current file =>
    simp only at hinput hposition hcurrent hlength hle
    simp only [between, ← hinput, String.ofList_toList, ← hposition, hcurrent, mk.injEq, true_and,
      and_true]
    omega

/-! What runs on a scanner, step by step. -/

@[simp] theorem run_look {α : Type} (v : Scanner → α) (s : Scanner) :
    (look v).run s = some (v s, s) := rfl

@[simp] theorem run_sliceFrom (n : Nat) (s : Scanner) :
    (sliceFrom n).run s = (sliceFrom? s.input n).map fun text => (text, s) := rfl

@[simp] theorem run_slice (m n : Nat) (s : Scanner) :
    (slice m n).run s = (slice? s.input m n).map fun text => (text, s) := rfl

@[simp] theorem run_token (kind : TokenKind) (text : String) (start : Nat) (s : Scanner) :
    (token kind text start).run s =
      some (⟨kind, text, .ofOffsets s.file start s.position⟩, s) := rfl

/-- A scanner goes on to what stands behind its current character. -/
theorem run_readChar {s : Scanner} {before rest : List Char}
    (hinput : s.input.toList = before ++ rest) (hnext : s.nextPosition = byteLength before) :
    readChar.run s = some ((), between before rest s.file) := by
  have hslice := sliceFrom?_eq hinput
  rw [← hnext] at hslice
  have hscanner : between before rest s.file = ⟨s.input, s.nextPosition,
      s.nextPosition + rest.head?.elim 0 Char.utf8Size, rest.head?, s.file⟩ := by
    rw [between, ← hinput, String.ofList_toList, ← hnext]
  simp [readChar, hslice, hscanner]

variable (before rest : List Char) (file : String)

theorem run_readChar_between :
    readChar.run (between before rest file) =
      some ((), between (before ++ rest.take 1) (rest.drop 1) file) :=
  run_readChar (toList_input_step before rest file) (nextPosition_between before rest file)

theorem run_readChar_cons (c : Char) :
    readChar.run (between before (c :: rest) file) =
      some ((), between (before ++ [c]) rest file) := run_readChar_between before (c :: rest) file

theorem run_peekChar :
    peekChar.run (between before rest file) = some (rest.tail.head?, between before rest file) := by
  have hslice := sliceFrom?_eq (toList_input_step before rest file)
  simp [-byteLength_append, peekChar, nextPosition_between, hslice]

/-- A loop moves the characters `w` to the first part if it goes on in front of each of them and
not behind the last. -/
theorem run_readOn (l : Loop) (w : List Char)
    (hgo : ∀ u c v, w = u ++ c :: v →
      l.goesOn (between (before ++ u) (c :: (v ++ rest)) file) = true)
    (hstop : l.goesOn (between (before ++ w) rest file) = false) :
    l.readOn.run (between before (w ++ rest) file) =
      some ((), between (before ++ w) rest file) := by
  induction w generalizing before with
  | nil =>
    rw [List.append_nil] at hstop
    rw [Loop.readOn]
    simp [hstop]
  | cons c w ih =>
    have hfirst := hgo [] c w rfl
    rw [List.append_nil] at hfirst
    have hrest := ih (before ++ [c]) (fun u d v hw => ?_) ?_
    · rw [List.append_assoc, List.singleton_append] at hrest
      rw [Loop.readOn]
      simp [hfirst, run_readChar_cons, hrest]
    · rw [List.append_assoc]
      exact hgo (c :: u) d v (congrArg (c :: ·) hw)
    · rw [List.append_assoc]
      exact hstop

theorem run_skipLayout :
    skipLayout.run (between before rest file) =
      some ((), between (before ++ rest.takeWhile isLayout) (rest.dropWhile isLayout) file) := by
  have hgo : ∀ u c v, rest.takeWhile isLayout = u ++ c :: v → isLayout c = true := by
    intro u c v hw
    have hc : c ∈ rest.takeWhile isLayout := by simp [hw]
    exact List.mem_takeWhile_imp hc
  have hstop : (rest.dropWhile isLayout).head?.any isLayout = false := by
    have hhead := List.head?_dropWhile_not isLayout rest
    cases hd : (rest.dropWhile isLayout).head? <;> simp_all
  have hrun := run_readOn before (rest.dropWhile isLayout) file
    ⟨fun s => s.current.any isLayout⟩ (rest.takeWhile isLayout) hgo hstop
  rwa [List.takeWhile_append_dropWhile] at hrun

theorem run_readTo (w : List Char) :
    (readTo (byteLength (before ++ w))).run (between before (w ++ rest) file) =
      some ((), between (before ++ w) rest file) := by
  refine run_readOn before rest file _ w (fun u c v hw => ?_) (decide_eq_false (Nat.lt_irrefl _))
  have hpos := c.utf8Size_pos
  have hlt : byteLength (before ++ u) < byteLength (before ++ w) := by
    rw [hw]
    simp only [byteLength_append, byteLength_cons]
    omega
  exact decide_eq_true hlt

/-- A run moves the characters that match to the first part. -/
theorem run_run (p : Char → Bool) :
    (run p).run (between before rest file) =
      some ((byteLength before, String.ofList (rest.takeWhile p)),
        between (before ++ rest.takeWhile p) (rest.dropWhile p) file) := by
  have hfrom := sliceFrom?_eq (toList_input_between before rest file)
  have hto := run_readTo before (rest.dropWhile p) file (rest.takeWhile p)
  rw [List.takeWhile_append_dropWhile, byteLength_append] at hto
  have hslice := slice?_eq
    (toList_input_between (before ++ rest.takeWhile p) (rest.dropWhile p) file)
  simp [-byteLength_append, run, hfrom, getD_runLength?_ofList, hto, hslice]

/-- The token whose characters `w` stand behind `before`. -/
def tokenBehind (before w : List Char) (kind : TokenKind) (file : String) : Token :=
  ⟨kind, String.ofList w, .ofOffsets file (byteLength before) (byteLength (before ++ w))⟩

theorem run_single (kind : TokenKind) :
    (single kind).run (between before rest file) =
      some (tokenBehind before (rest.take 1) kind file,
        between (before ++ rest.take 1) (rest.drop 1) file) := by
  have hslice := slice?_eq (toList_input_step before rest file)
  simp [-byteLength_append, single, nextPosition_between, hslice, run_readChar_between,
    tokenBehind]

theorem run_withEquals_pair (combined alone : TokenKind) (c : Char) :
    (withEquals combined alone).run (between before (c :: '=' :: rest) file) =
      some (tokenBehind before [c, '='] combined file, between (before ++ [c, '=']) rest file) := by
  have hslice := slice?_eq (toList_input_between (before ++ [c, '=']) rest file)
  simp [-byteLength_append, withEquals, run_peekChar, run_readChar_cons, hslice, tokenBehind]

theorem run_withEquals_alone (combined alone : TokenKind) (h : rest.tail.head? ≠ some '=') :
    (withEquals combined alone).run (between before rest file) =
      (single alone).run (between before rest file) := by
  simp [-List.head?_tail, withEquals, run_peekChar, h]

theorem run_withEquals {combined alone : TokenKind} {c : Char}
    (hcombined : doubledKind? c = some combined) (halone : symbolKind c = alone) :
    (withEquals combined alone).run (between before (c :: rest) file) =
      some (tokenBehind before (Lexeme.ofSymbol c rest).chars (Lexeme.ofSymbol c rest).kind file,
        between (before ++ (Lexeme.ofSymbol c rest).chars) (Lexeme.ofSymbol c rest).rest file) := by
  by_cases hequals : rest.head? = some '='
  · obtain ⟨rest, rfl⟩ := List.head?_eq_some_iff.mp hequals
    have hlexeme : Lexeme.ofSymbol c ('=' :: rest) = ⟨combined, [c, '='], rest⟩ := by
      simp [Lexeme.ofSymbol, hcombined]
    rw [run_withEquals_pair, hlexeme]
  · have hlexeme : Lexeme.ofSymbol c rest = ⟨alone, [c], rest⟩ := by
      unfold Lexeme.ofSymbol
      split
      · simp at hequals
      · rw [halone]
    rw [run_withEquals_alone before (c :: rest) file combined alone hequals, run_single, hlexeme]
    rfl

/-- What begins with a character becomes the token that the lexer makes of it. -/
theorem run_nextFrom (c : Char) :
    (nextFrom c).run (between before (c :: rest) file) =
      some (tokenBehind before (lexeme c rest).chars (lexeme c rest).kind file,
        between (before ++ (lexeme c rest).chars) (lexeme c rest).rest file) := by
  unfold nextFrom
  split
  case h_1 =>
    have hcombined : doubledKind? '=' = some .equal := rfl
    have halone : symbolKind '=' = .assign := rfl
    exact run_withEquals before rest file hcombined halone
  case h_2 =>
    have hcombined : doubledKind? '!' = some .notEqual := rfl
    have halone : symbolKind '!' = .bang := rfl
    exact run_withEquals before rest file hcombined halone
  case h_15 =>
    by_cases hword : isWordChar c = true
    · have hrun := run_run before (c :: rest) file isWordChar
      rw [List.takeWhile_cons_of_pos hword, List.dropWhile_cons_of_pos hword] at hrun
      simp [hword, lexeme, Lexeme.ofRun, hrun, tokenBehind, funext isLetter_eq]
    · by_cases hdigit : c.isDigit = true
      · have hrun := run_run before (c :: rest) file Char.isDigit
        rw [List.takeWhile_cons_of_pos hdigit, List.dropWhile_cons_of_pos hdigit] at hrun
        simp [hword, hdigit, lexeme, Lexeme.ofRun, hrun, tokenBehind, funext isDecimal_eq]
      · have hsymbol : symbols.lookup c = none := by
          refine List.lookup_eq_none_iff.mpr ?_
          simp_all [symbols]
        have hdoubled : doubledKind? c = none := by
          refine List.lookup_eq_none_iff.mpr ?_
          simp_all
        have hlexeme : lexeme c rest = ⟨.illegal, [c], rest⟩ := by
          simp [lexeme, hword, hdigit, Lexeme.ofSymbol, hdoubled, symbolKind, hsymbol]
        simp [hword, hdigit, hlexeme, run_single]
  all_goals exact run_single before _ file _

/-- The next token is that of the lexer, and its characters are moved to the first part. -/
theorem run_next :
    let l : Lexer := ⟨rest, byteLength before, file⟩
    ∃ w behind, rest = w ++ behind ∧ (rest ≠ [] → w ≠ []) ∧
      next.run (between before rest file) = some (l.next.1, between (before ++ w) behind file) ∧
      l.next.2 = ⟨behind, byteLength (before ++ w), file⟩ := by
  intro l
  have hsplit := List.takeWhile_append_dropWhile (p := isLayout) (l := rest)
  cases hd : rest.dropWhile isLayout with
  | nil =>
    have hnone : l.next? = none := Lexer.next?_eq_none_iff.mpr hd
    rw [hd, List.append_nil] at hsplit
    refine ⟨rest, [], (List.append_nil _).symm, id, ?_, ?_⟩
    · simp [next, run_skipLayout, hd, hsplit, Lexer.next, hnone, Lexer.endToken, Token.ofEnd,
        Lexer.stop, Span.ofOffsets, l]
    · simp [Lexer.next, hnone, Lexer.skipLayout, hd, hsplit, l]
  | cons c cs =>
    have hskip : l.skipLayout =
        ⟨c :: cs, byteLength (before ++ rest.takeWhile isLayout), file⟩ := by
      rw [Lexer.skipLayout, byteLength_append, hd]
    have hrest : l.skipLayout.rest = c :: cs := by rw [hskip]
    have hsome := Lexer.next?_of_skipLayout hrest
    rw [hskip, ← byteLength_append, List.append_assoc] at hsome
    rw [hd, ← lexeme_append c cs, ← List.append_assoc] at hsplit
    refine ⟨rest.takeWhile isLayout ++ (lexeme c cs).chars, (lexeme c cs).rest, hsplit.symm,
      fun _ => by simp [lexeme_chars_ne_nil], ?_, ?_⟩
    · simp [-byteLength_append, next, run_skipLayout, hd, run_nextFrom, Lexer.next, hsome,
        tokenBehind, l]
    · simp [-byteLength_append, Lexer.next, hsome, l]

/-- In a row the tokens are those of the lexer. -/
theorem run_nextTokens (n : Nat) :
    ∃ w behind, rest = w ++ behind ∧
      (nextTokens n).run (between before rest file) =
        some ((List.range n).map fun i =>
          ((Lexer.mk rest (byteLength before) file).skip i).next.1,
          between (before ++ w) behind file) := by
  induction n generalizing before rest with
  | zero => exact ⟨[], rest, rfl, by simp [nextTokens]⟩
  | succ n ih =>
    obtain ⟨v, behind, rfl, -, hnext, hlexer⟩ := run_next before rest file
    obtain ⟨w, behind, rfl, htokens⟩ := ih (before ++ v) behind
    refine ⟨v ++ w, behind, (List.append_assoc _ _ _).symm, ?_⟩
    have hskip : ∀ i, (Lexer.mk (v ++ (w ++ behind)) (byteLength before) file).skip (i + 1) =
        (Lexer.mk (w ++ behind) (byteLength (before ++ v)) file).skip i := by
      intro i
      rw [Lexer.skip, hlexer]
    simp [-byteLength_append, nextTokens, hnext, htokens, List.range_succ_eq_map, hskip]
    rfl

/-! What holds in between. -/

/-- On every coherent scanner there is a result, which no slice prevents, and the scanner is then
coherent again, has the same input and is no further back. -/
def Safe {α : Type} (r : Run α) : Prop :=
  ∀ s : Scanner, s.Coherent → ∃ a s', r.run s = some (a, s') ∧ s'.Coherent ∧ s'.input = s.input ∧
    s.position ≤ s'.position

/-- What moves characters from the second part of the input to the first is safe. -/
theorem safe_of_run {α : Type} {r : Run α}
    (h : ∀ before rest file, ∃ a w behind, rest = w ++ behind ∧
      r.run (between before rest file) = some (a, between (before ++ w) behind file)) : Safe r := by
  intro s hs
  obtain ⟨before, rest, hbetween⟩ := hs.exists_between
  obtain ⟨a, w, behind, rfl, hrun⟩ := h before rest s.file
  rw [hbetween]
  refine ⟨a, _, hrun, coherent_between _ _ _, ?_, ?_⟩
  · rw [between, between, List.append_assoc]
  · rw [position_between, position_between, byteLength_append]
    exact Nat.le_add_right _ _

theorem safe_readChar : Safe readChar :=
  safe_of_run fun before rest file =>
    ⟨_, _, _, (List.take_append_drop 1 rest).symm, run_readChar_between before rest file⟩

theorem safe_peekChar : Safe peekChar :=
  safe_of_run fun before rest file =>
    ⟨rest.tail.head?, [], rest, rfl, by rw [run_peekChar, List.append_nil]⟩

theorem safe_skipLayout : Safe skipLayout :=
  safe_of_run fun before rest file =>
    ⟨_, _, _, List.takeWhile_append_dropWhile.symm, run_skipLayout before rest file⟩

theorem safe_single (kind : TokenKind) : Safe (single kind) :=
  safe_of_run fun before rest file =>
    ⟨_, _, _, (List.take_append_drop 1 rest).symm, run_single before rest file kind⟩

theorem safe_withEquals (combined alone : TokenKind) : Safe (withEquals combined alone) := by
  refine safe_of_run fun before rest file => ?_
  by_cases hequals : rest.tail.head? = some '='
  · obtain ⟨behind, hbehind⟩ := List.head?_eq_some_iff.mp hequals
    cases rest with
    | nil => contradiction
    | cons c rest =>
      obtain rfl : rest = '=' :: behind := hbehind
      exact ⟨_, [c, '='], behind, rfl, run_withEquals_pair before behind file combined alone c⟩
  · exact ⟨_, _, _, (List.take_append_drop 1 rest).symm,
      (run_withEquals_alone before rest file combined alone hequals).trans
        (run_single before rest file alone)⟩

theorem safe_run (p : Char → Bool) : Safe (run p) :=
  safe_of_run fun before rest file =>
    ⟨_, _, _, List.takeWhile_append_dropWhile.symm, run_run before rest file p⟩

theorem safe_next : Safe next := by
  refine safe_of_run fun before rest file => ?_
  obtain ⟨w, behind, hrest, -, hrun, -⟩ := run_next before rest file
  exact ⟨_, w, behind, hrest, hrun⟩

/-- The run stops where the longest run of matching characters does, behind one of them at least. -/
def StopsAtMatch (p : Char → Bool) (s : Scanner) : Prop :=
  ∃ rest n word s', sliceFrom? s.input s.position = some rest ∧ runLength? p rest = some n ∧
    (run p).run s = some ((s.position, word), s') ∧ s'.position = s.position + n ∧
    slice? s.input s.position s'.position = some word ∧ word ≠ "" ∧ s.position < s'.position

theorem Coherent.stopsAtMatch {s : Scanner} {p : Char → Bool} {c : Char} (h : s.Coherent)
    (hc : s.current = some c) (hp : p c = true) : StopsAtMatch p s := by
  obtain ⟨before, rest, hs⟩ := h.exists_between
  rw [hs] at hc ⊢
  obtain ⟨rest, rfl⟩ := List.head?_eq_some_iff.mp hc
  have hne : (c :: rest).takeWhile p ≠ [] := by
    rw [List.takeWhile_cons_of_pos hp]
    exact List.cons_ne_nil _ _
  have hinput : (between before (c :: rest) s.file).input.toList =
      before ++ (c :: rest).takeWhile p ++ (c :: rest).dropWhile p := by
    rw [toList_input_between, List.append_assoc, List.takeWhile_append_dropWhile]
  refine ⟨_, _, _, _, sliceFrom?_eq (toList_input_between before (c :: rest) s.file),
    runLength?_ofList_of_cons rest hp, run_run before (c :: rest) s.file p, ?_, slice?_eq hinput,
    ?_, ?_⟩
  · rw [position_between, position_between, byteLength_append]
  · exact fun hword => hne (String.ofList_injective hword)
  · rw [position_between, position_between, byteLength_append]
    have hpos := byteLength_pos hne
    omega

/-- Between its steps a scanner is coherent, so that no slice fails, and its tokens are those of the
lexer. A run ends where its match does and is not empty. In front of the end of the input the next
token moves the scanner on. -/
theorem nextTokens_coherent :
    (∀ (source : String) (file : Option String) (n : Nat), ∃ s₀ s,
      ofSource source file = some s₀ ∧
      (nextTokens n).run s₀ =
        some ((List.range n).map fun i => ((Lexer.ofSource source file).skip i).next.1, s) ∧
      s.Coherent ∧ s.input = source) ∧
    (Safe readChar ∧ Safe peekChar ∧ Safe skipLayout ∧ (∀ kind, Safe (single kind)) ∧
      (∀ combined alone, Safe (withEquals combined alone)) ∧ (∀ p, Safe (run p)) ∧ Safe next) ∧
    (∀ s c, s.Coherent → s.current = some c →
      (isWordChar c = true → StopsAtMatch isLetter s) ∧
      (c.isDigit = true → StopsAtMatch isDecimal s)) ∧
    ∀ s, s.Coherent → s.position < s.input.utf8ByteSize →
      ∃ t s', next.run s = some (t, s') ∧ s.position < s'.position := by
  refine ⟨fun source file n => ?_, ?_, fun s c hs hc => ⟨fun hword => ?_, fun hdigit => ?_⟩,
    fun s hs hlt => ?_⟩
  · have hstart : ofSource source file = some (between [] source.toList (fileName file)) := by
      have hread : readChar.run ⟨source, 0, 0, none, fileName file⟩ =
          some ((), between [] source.toList (fileName file)) := run_readChar rfl rfl
      rw [ofSource, hread]
      rfl
    obtain ⟨w, behind, hrest, htokens⟩ := run_nextTokens [] source.toList (fileName file) n
    refine ⟨_, _, hstart, htokens, coherent_between _ _ _, ?_⟩
    rw [between, List.nil_append, ← hrest, String.ofList_toList]
  · exact ⟨safe_readChar, safe_peekChar, safe_skipLayout, safe_single, safe_withEquals, safe_run,
      safe_next⟩
  · exact hs.stopsAtMatch hc ((isLetter_eq c).trans hword)
  · exact hs.stopsAtMatch hc ((isDecimal_eq c).trans hdigit)
  · obtain ⟨before, rest, hbetween⟩ := hs.exists_between
    obtain ⟨w, behind, hrest, hne, hnext, -⟩ := run_next before rest s.file
    have hsize : s.input.utf8ByteSize = byteLength before + byteLength rest := by
      rw [hbetween, ← byteLength_toList, toList_input_between, byteLength_append]
    rw [hbetween] at hlt ⊢
    rw [position_between, ← hbetween, hsize] at hlt
    have hw : w ≠ [] := hne (by
      rintro rfl
      simp at hlt)
    have hpos := byteLength_pos hw
    refine ⟨_, _, hnext, ?_⟩
    rw [position_between, position_between, byteLength_append]
    omega

end Scanner

end ScriptReader
