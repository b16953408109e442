import ScriptReader.Proofs.Failing.Descriptions
import ScriptReader.Proofs.Snippet.Basic

/-! The caret of a snippet and the token that it is for. Columns of the caret are
counted in bytes and columns of the code in characters, so that the caret stands
below its token as long as all characters in front of the token are single bytes. -/

namespace ScriptReader

open Text

/-! The five lines of a snippet. -/

theorem lineFeed_not_mem_name (k : TokenKind) : '\n' ∉ k.name.toList := by
  cases k <;> decide

theorem lineFeed_not_mem_append {r s : String} (hr : '\n' ∉ r.toList) (hs : '\n' ∉ s.toList) :
    '\n' ∉ (r ++ s).toList := by
  rw [String.toList_append, List.mem_append, not_or]
  exact ⟨hr, hs⟩

theorem lineFeed_not_mem_around {r s t : String} (hr : '\n' ∉ r.toList) (hs : '\n' ∉ s.toList)
    (ht : '\n' ∉ t.toList) : '\n' ∉ (r ++ s ++ t).toList :=
  lineFeed_not_mem_append (lineFeed_not_mem_append hr hs) ht

theorem lineFeed_not_mem_tip {cause : Cause} {t : Token} {tip : String} (h : cause.Fits t)
    (hlayout : ∀ c ∈ t.text.toList, isLayout c = false) (htip : cause.tip? = some tip) :
    '\n' ∉ tip.toList := by
  have hname := lineFeed_not_mem_name
  cases cause with
  | unrecognised text => contradiction
  | unexpected expected found =>
    obtain rfl := Option.some.inj htip
    exact lineFeed_not_mem_around
      (lineFeed_not_mem_around (by decide) (hname expected) (by decide)) (hname found) (by decide)
  | noOperand kind =>
    obtain rfl := Option.some.inj htip
    exact lineFeed_not_mem_around (by decide) (hname kind) (by decide)
  | badNumber text =>
    obtain rfl := Option.some.inj htip
    obtain ⟨-, rfl, -⟩ := h
    have htext : '\n' ∉ t.text.toList := fun hm => by simpa [isLayout] using hlayout _ hm
    exact lineFeed_not_mem_around (by decide) htext (by decide)
  | tooDeep limit =>
    obtain rfl := Option.some.inj htip
    decide

theorem lineFeed_not_mem_title {cause : Cause} {t : Token} (h : cause.Fits t)
    (hlayout : ∀ c ∈ t.text.toList, isLayout c = false) : '\n' ∉ cause.title.toList := by
  have hname : '\n' ∉ cause.name.toList := by cases cause <;> simp [Cause.name]
  rw [Cause.title]
  split
  · exact hname
  · rename_i tip htip
    exact lineFeed_not_mem_around (lineFeed_not_mem_append hname (by decide))
      (lineFeed_not_mem_tip h hlayout htip) (by decide)

theorem isDigit_of_mem_decimal {n : Nat} {c : Char} (h : c ∈ (decimal n).toList) :
    c.isDigit = true := by
  change c ∈ (String.ofList (Nat.toDigits 10 n)).toList at h
  rw [String.toList_ofList] at h
  exact Nat.isDigit_of_mem_toDigits (by decide) (by decide) h

theorem lineFeed_not_mem_decimal (n : Nat) : '\n' ∉ (decimal n).toList := fun h => by
  simpa using isDigit_of_mem_decimal h

theorem Snippet.toList_margin (s : Snippet) :
    s.margin.toList = List.replicate (decimal s.line).toList.length ' ' ++ " |".toList := by
  rw [margin, String.toList_append, String.toList_ofList, List.map_const']

/-- No line feed is in what a snippet takes from its source and the name of the file. -/
structure Snippet.Unbroken (s : Snippet) : Prop where
  title : '\n' ∉ s.title.toList
  file : '\n' ∉ s.file.toList
  code : '\n' ∉ s.code

theorem Snippet.Unbroken.splitOn_text {s : Snippet} (h : s.Unbroken) :
    s.text.toList.splitOn '\n' = s.lines.map String.toList := by
  have hfeed : "\n".toList = ['\n'] := rfl
  rw [text, String.toList_intercalate, hfeed, List.splitOn_intercalate]
  · have hline := lineFeed_not_mem_decimal s.line
    have hcolumn := lineFeed_not_mem_decimal s.column
    simp [lines, Snippet.toList_margin, h.title, h.file, h.code, hline, hcolumn]
  · simp [lines]

theorem unbroken_of_mem_diagnostics {source : String} {file : Option String} {e : Diagnostic}
    (hlength : source.utf8ByteSize < 4294967296) (hfile : '\n' ∉ (fileName file).toList)
    (he : e ∈ (Report.ofSource source file).diagnostics) :
    (Snippet.ofDiagnostic e source).Unbroken := by
  obtain ⟨pre, t, post, hsplit, hposition, hfits, -⟩ := exists_fits he
  change tokenize source file = pre ++ t :: post at hsplit
  have ht : t ∈ tokenize source file := by simp [hsplit]
  obtain ⟨_, _, -, hstart, hlayout⟩ := exists_split_at_start hlength ht
  obtain ⟨before, body, behind, -, hcuts, -⟩ := exists_cuts_locate source e.position.offset
  refine ⟨lineFeed_not_mem_title hfits hlayout, ?_, ?_⟩
  · change '\n' ∉ e.position.file.toList
    rw [hposition, hstart]
    exact hfile
  · rw [hcuts.code_eq]
    exact fun hm => hcuts.unbroken
      ((List.dropWhile_suffix isIndent).subset ((dropEndWhile_sublist isWhiteSpace _).subset hm))

/-! The line with the code. -/

theorem isWhiteSpace_eq_false {c : Char} (h : 33 ≤ c.toNat ∧ c.toNat ≤ 126) :
    isWhiteSpace c = false := by
  simp only [isWhiteSpace, inRanges, whiteSpaceRanges, List.any_cons, List.any_nil, Bool.or_false,
    Bool.or_eq_false_iff, Bool.and_eq_false_iff, decide_eq_false_iff_not]
  omega

theorem isWhiteSpace_eq_false_of_isWordChar {c : Char} (h : isWordChar c = true) :
    isWhiteSpace c = false := by
  have hletter : ((decide (65 ≤ c.val ∧ c.val ≤ 90) ||
      decide (97 ≤ c.val) && decide (c.val ≤ 122)) || c == '_') = true := h
  simp only [Bool.or_eq_true, Bool.and_eq_true, decide_eq_true_eq, beq_iff_eq,
    UInt32.le_iff_toNat_le, UInt32.reduceToNat, Char.toNat_val] at hletter
  rcases hletter with (hu | hl) | rfl
  · exact isWhiteSpace_eq_false (by omega)
  · exact isWhiteSpace_eq_false (by omega)
  · rfl

theorem isWhiteSpace_eq_false_of_isDigit {c : Char} (h : c.isDigit = true) :
    isWhiteSpace c = false := by
  have hd : 48 ≤ c.toNat ∧ c.toNat ≤ 57 := Char.isDigit_iff_toNat.mp h
  exact isWhiteSpace_eq_false (by omega)

/-- A token that is not white space has none in it. -/
theorem Spelling.not_whiteSpace {k : TokenKind} {w : List Char} (h : Spelling k w)
    (hw : ∃ c ∈ w, isWhiteSpace c = false) : ∀ c ∈ w, isWhiteSpace c = false := by
  cases h with
  | word _ hall => exact fun c hc => isWhiteSpace_eq_false_of_isWordChar (hall c hc)
  | number _ hall => exact fun c hc => isWhiteSpace_eq_false_of_isDigit (hall c hc)
  | symbol => simpa using hw
  | @doubled c k h =>
    have hmem := lookup_eq_some_mem h
    simp only [List.mem_cons, Prod.mk.injEq, List.not_mem_nil, or_false] at hmem
    rcases hmem with ⟨rfl, -⟩ | ⟨rfl, -⟩ <;>
      exact List.forall_mem_cons.mpr ⟨rfl, List.forall_mem_singleton.mpr rfl⟩

/-- Trimming the end of a line does not cut off a part of a token. -/
theorem Spelling.exists_dropEndWhile {k : TokenKind} {w rest : List Char} (h : Spelling k w)
    (hshown : ∃ c ∈ w ++ rest, isWhiteSpace c = false) :
    ∃ y, dropEndWhile isWhiteSpace (w ++ rest) = w ++ y := by
  by_cases hrest : ∃ c ∈ rest, isWhiteSpace c = false
  · exact ⟨_, dropEndWhile_append_of_exists hrest w⟩
  · have hall : ∀ c ∈ rest, isWhiteSpace c = true := by simpa using hrest
    have hw : ∃ c ∈ w, isWhiteSpace c = false := by
      obtain ⟨c, hc, hn⟩ := hshown
      rcases List.mem_append.mp hc with hc | hc
      · exact ⟨c, hc, hn⟩
      · exact absurd ⟨c, hc, hn⟩ hrest
    exact ⟨[], by rw [dropEndWhile_append_of_all hall, dropEndWhile_eq_self (h.not_whiteSpace hw),
      List.append_nil]⟩

variable {t : Token}

section Token

variable {d : Diagnostic} {source : String} {number : Nat} {before lead rest behind : List Char}
  (h : (locate source d.position.offset).Cuts number before (lead ++ t.text.toList ++ rest) behind)
  (hspelled : t.Spelled) (hlayout : ∀ c ∈ t.text.toList, isLayout c = false)

include hspelled hlayout in
/-- The indentation of a line ends in front of each token of the line. -/
theorem takeWhile_isIndent_lead :
    (lead ++ t.text.toList ++ rest).takeWhile isIndent = lead.takeWhile isIndent ∧
      (lead ++ t.text.toList ++ rest).dropWhile isIndent =
        lead.dropWhile isIndent ++ (t.text.toList ++ rest) := by
  rw [List.append_assoc]
  refine takeWhile_append_of_stop fun c hc => ?_
  rw [List.head?_append_of_ne_nil _ (Spelling.ne_nil hspelled)] at hc
  have hnot := hlayout c (List.mem_of_mem_head? hc)
  simp_all [isLayout, isIndent]

include h hspelled hlayout

theorem Line.Cuts.dashes_eq_byteLength
    (hlead : byteLength lead = (locate source d.position.offset).offset) :
    (Snippet.ofDiagnostic d source).dashes = byteLength (lead.dropWhile isIndent) := by
  have hsplit := congrArg byteLength (List.takeWhile_append_dropWhile (p := isIndent) (l := lead))
  rw [byteLength_append] at hsplit
  rw [h.dashes_eq, (takeWhile_isIndent_lead hspelled hlayout).1, ← hlead]
  omega

theorem Line.Cuts.exists_code_eq (hshown : ∃ c ∈ t.text.toList ++ rest, isWhiteSpace c = false) :
    ∃ y, (Snippet.ofDiagnostic d source).code =
      lead.dropWhile isIndent ++ t.text.toList ++ y := by
  obtain ⟨y, hy⟩ := Spelling.exists_dropEndWhile hspelled hshown
  refine ⟨y, ?_⟩
  rw [h.code_eq, (takeWhile_isIndent_lead hspelled hlayout).2,
    dropEndWhile_append_of_exists hshown, hy, List.append_assoc]

/-- Nothing is shown of a token if only white space stands at it and behind it. -/
theorem Line.Cuts.length_code_le (hhidden : ∀ c ∈ t.text.toList ++ rest, isWhiteSpace c = true) :
    (Snippet.ofDiagnostic d source).code.length ≤ (lead.dropWhile isIndent).length := by
  rw [h.code_eq, (takeWhile_isIndent_lead hspelled hlayout).2, dropEndWhile_append_of_all hhidden]
  exact (dropEndWhile_sublist isWhiteSpace _).length_le

end Token

/-! Columns. -/

theorem length_le_byteLength (cs : List Char) : cs.length ≤ byteLength cs := by
  induction cs with
  | nil => exact Nat.le_refl _
  | cons c cs ih =>
    have hc := c.utf8Size_pos
    rw [List.length_cons, byteLength_cons]
    omega

theorem byteLength_eq_length_iff {cs : List Char} :
    byteLength cs = cs.length ↔ ∀ c ∈ cs, c.utf8Size = 1 := by
  induction cs with
  | nil => simp
  | cons c cs ih =>
    have hc := c.utf8Size_pos
    have hcs := length_le_byteLength cs
    rw [List.forall_mem_cons, ← ih, byteLength_cons, List.length_cons]
    omega

theorem utf8Size_of_isIndent {c : Char} (h : isIndent c = true) : c.utf8Size = 1 := by
  rcases (show c = ' ' ∨ c = '\t' by simpa [isIndent] using h) with rfl | rfl <;> rfl

theorem forall_mem_dropWhile_isIndent_iff {cs : List Char} :
    (∀ c ∈ cs.dropWhile isIndent, c.utf8Size = 1) ↔ ∀ c ∈ cs, c.utf8Size = 1 := by
  have hindent : ∀ c ∈ cs.takeWhile isIndent, c.utf8Size = 1 := fun c hc =>
    utf8Size_of_isIndent (List.all_eq_true.mp List.all_takeWhile c hc)
  conv_rhs => rw [← List.takeWhile_append_dropWhile (p := isIndent) (l := cs)]
  rw [List.forall_mem_append, and_iff_right hindent]

/-- In the fourth line of the text stands `x` in front of the token, and in the fifth `w` in front
of the only caret. -/
def Shows (text : String) (t : Token) (x w : List Char) : Prop :=
  ∃ first second third y,
    text.toList.splitOn '\n' = [first, second, third, x ++ t.text.toList ++ y, w ++ ['^']] ∧
      '^' ∉ w

theorem Snippet.Unbroken.shows {s : Snippet} {l y : List Char} (h : s.Unbroken)
    (hcode : s.code = l ++ t.text.toList ++ y) :
    Shows s.text t ((decimal s.line).toList ++ " | ".toList ++ l)
      (s.margin.toList ++ ' ' :: List.replicate s.dashes '-') := by
  refine ⟨("Error: " ++ s.title).toList,
    ("-> " ++ s.file ++ ":" ++ decimal s.line ++ ":" ++ decimal s.column).toList,
    s.margin.toList, y, ?_, ?_⟩
  · rw [h.splitOn_text]
    simp [lines, hcode]
  · simp [toList_margin]

/-- If the code ends in front of the caret, no token can begin above the caret. -/
theorem Snippet.Unbroken.not_shows {s : Snippet} (h : s.Unbroken)
    (hle : s.code.length ≤ s.dashes) (hne : t.text.toList ≠ []) :
    ¬∃ x w, Shows s.text t x w ∧ w.length = x.length := by
  rintro ⟨x, w, ⟨first, second, third, y, hlines, -⟩, hwidth⟩
  have hpos := List.length_pos_iff.mpr hne
  rw [h.splitOn_text] at hlines
  simp only [lines, List.map_cons, List.map_nil, List.cons.injEq, and_true] at hlines
  obtain ⟨-, -, -, hcode, hcaret⟩ := hlines
  have hcode := congrArg List.length hcode
  have hcaret := congrArg List.length hcaret
  simp [toList_margin] at hcode hcaret
  omega

theorem Snippet.length_eq_length_iff {s : Snippet} {l : List Char} (h : s.dashes = byteLength l) :
    (s.margin.toList ++ ' ' :: List.replicate s.dashes '-').length =
      ((decimal s.line).toList ++ " | ".toList ++ l).length ↔ ∀ c ∈ l, c.utf8Size = 1 := by
  rw [← byteLength_eq_length_iff, ← h]
  simp [toList_margin]

/-- The token that a diagnostic is about is shown behind what its line has in front of it, less the
indentation. The caret stands below the start of the token just if there are only characters of one
byte in front. A token is not shown if it is white space and there is no more than that behind it in
its line. -/
theorem ofSource_render_shows {source text : String} {file : Option String} {e : Diagnostic}
    {t : Token} (hlength : source.utf8ByteSize < 4294967296)
    (hfile : '\n' ∉ (fileName file).toList)
    (he : e ∈ (Report.ofSource source file).diagnostics) (htext : e.render source = .ok text)
    (ht : t ∈ tokenize source file) (hstart : t.span.start = e.position) (hkind : t.kind ≠ .eof) :
    ∃ before lead rest behind,
      source.toList = before ++ (lead ++ t.text.toList ++ rest) ++ behind ∧
      (before = [] ∨ before.getLast? = some '\n') ∧ '\n' ∉ lead ++ t.text.toList ++ rest ∧
      (behind = [] ∨ behind.head? = some '\n') ∧ byteLength (before ++ lead) = e.position.offset ∧
      ((∃ c ∈ t.text.toList ++ rest, isWhiteSpace c = false) →
        ∃ x w, Shows text t x w ∧
          x = (decimal (1 + before.count '\n')).toList ++ " | ".toList ++ lead.dropWhile isIndent ∧
          (w.length = x.length ↔ ∀ c ∈ lead, c.utf8Size = 1)) ∧
      ((∀ c ∈ t.text.toList ++ rest, isWhiteSpace c = true) →
        ¬∃ x w, Shows text t x w ∧ w.length = x.length) := by
  have hunbroken := unbroken_of_mem_diagnostics hlength hfile he
  have hspelled := spelled_of_mem_tokenize ht hkind
  obtain ⟨-, rfl⟩ := Diagnostic.render_eq_ok_iff.mp htext
  obtain ⟨before, lead, rest, behind, hsource, hcuts, hlead, hoffset, hlayout⟩ :=
    exists_cuts_of_mem_tokenize hlength ht
  rw [hstart] at hcuts hlead hoffset
  have hdashes := hcuts.dashes_eq_byteLength hspelled hlayout hlead
  refine ⟨before, lead, rest, behind, hsource, hcuts.begins, hcuts.unbroken, hcuts.ends,
    (congrArg Position.offset hoffset).symm, fun hshown => ?_, fun hhidden => ?_⟩
  · obtain ⟨y, hcode⟩ := hcuts.exists_code_eq hspelled hlayout hshown
    have hline : (Snippet.ofDiagnostic e source).line = 1 + before.count '\n' := hcuts.number_eq
    refine ⟨_, _, hunbroken.shows hcode, by rw [hline]; rfl, ?_⟩
    rw [Snippet.length_eq_length_iff hdashes, forall_mem_dropWhile_isIndent_iff]
  · have hle := hcuts.length_code_le hspelled hlayout hhidden
    exact hunbroken.not_shows (hle.trans (hdashes ▸ length_le_byteLength _))
      (Spelling.ne_nil hspelled)

/-- A stray character behind a tabulator and a name. -/
theorem ofSource_render_shows_indented :
    let source := String.ofList ['x', '\n', '\t', 'y', ' ', '@']
    let e : Diagnostic := ⟨.unrecognised "@", ⟨5, "shell"⟩⟩
    let t : Token := ⟨.illegal, "@", ⟨⟨5, "shell"⟩, ⟨6, "shell"⟩⟩⟩
    let text := "Error: UnrecognisedToken\n-> shell:2:4\n  |\n2 | y @\n  | --^"
    source.utf8ByteSize < 4294967296 ∧ '\n' ∉ (fileName none).toList ∧
      e ∈ (Report.ofSource source none).diagnostics ∧ e.render source = .ok text ∧
      t ∈ tokenize source none ∧ ∃ x w, Shows text t x w ∧ w.length = x.length := by
  intro source e t text
  have hlength : source.utf8ByteSize < 4294967296 := by
    rw [utf8ByteSize_ofList]
    decide
  have hfile : '\n' ∉ (fileName none).toList := by decide
  have he : e ∈ (Report.ofSource source none).diagnostics := by decide +kernel
  have htext : e.render source = .ok text := by decide +kernel
  have ht : t ∈ tokenize source none := by decide +kernel
  obtain ⟨before, lead, rest, behind, hsource, -, -, -, -, hshows, -⟩ :=
    ofSource_render_shows hlength hfile he htext ht rfl (by decide)
  have hlead : ∀ c ∈ lead, c.utf8Size = 1 := fun c hc => by
    have hbytes : byteLength source.toList = source.toList.length := by decide
    exact byteLength_eq_length_iff.mp hbytes c (by simp [hsource, hc])
  obtain ⟨x, w, hx, -, hwidth⟩ := hshows ⟨'@', by simp [t], rfl⟩
  exact ⟨hlength, hfile, he, htext, ht, x, w, hx, hwidth.mpr hlead⟩

/-- A character of two bytes moves the caret away from its token. -/
theorem not_ofSource_render_shows :
    ¬∀ (source text : String) (file : Option String) (e : Diagnostic) (t : Token),
      source.utf8ByteSize < 4294967296 → '\n' ∉ (fileName file).toList →
      e ∈ (Report.ofSource source file).diagnostics → e.render source = .ok text →
      t ∈ tokenize source file → t.span.start = e.position → t.kind ≠ .eof →
      ∃ x w, Shows text t x w ∧ w.length = x.length := by
  intro h
  let source := String.ofList ['é', ' ', '@']
  let text := "Error: UnrecognisedToken\n-> shell:1:4\n  |\n1 | é @\n  | ---^"
  have hlength : source.utf8ByteSize < 4294967296 := by
    rw [utf8ByteSize_ofList]
    decide
  have htext : text.toList.splitOn '\n' = ["Error: UnrecognisedToken".toList,
      "-> shell:1:4".toList, "  |".toList, "1 | é @".toList, "  | ---^".toList] := by
    decide +kernel
  obtain ⟨x, w, ⟨first, second, third, y, hlines, -⟩, hwidth⟩ :=
    h source text none ⟨.unrecognised "@", ⟨3, "shell"⟩⟩
      ⟨.illegal, "@", ⟨⟨3, "shell"⟩, ⟨4, "shell"⟩⟩⟩ hlength (by decide) (by decide +kernel)
      (by decide +kernel) (by decide +kernel) rfl (by decide)
  simp only [htext, List.cons.injEq, and_true] at hlines
  obtain ⟨-, -, -, hcode, hcaret⟩ := hlines
  have hcode := congrArg List.length hcode
  have hcaret := congrArg List.length hcaret
  simp at hcode hcaret
  omega

end ScriptReader
