import ScriptReader.Proofs.Failing.Order
import ScriptReader.Proofs.Tree.Nodes

/-! What diagnostics say of the source. Each is about the one token at its
place, and what it says is so of that token. Statements that were read are free
of all that there are diagnostics for. -/

namespace ScriptReader

open Text

/-- What the cause says of the token, in front of which the source has the tokens `pre`. -/
def Cause.Describes (cause : Cause) (pre : List Token) (t : Token) : Prop :=
  match cause with
  | .unrecognised text => t.kind = .illegal ∧ text = t.text
  | .unexpected expected found => found = t.kind ∧ found ≠ expected
  | .noOperand kind => kind = t.kind ∧ kind.operandForm? = none
  | .badNumber text =>
    t.kind = .integer ∧ text = t.text ∧ 9223372036854775807 < digitsValue text.toList
  | .tooDeep limit => limit = 256 ∧ 256 ≤ pre.length

theorem lt_digitsValue {t : Token} (ht : t.Spelled) (hk : t.kind = .integer)
    (h : Parser.integerValue? t.text = none) : 9223372036854775807 < digitsValue t.text.toList := by
  have hne : t.text.toList ≠ [] := Spelling.ne_nil ht
  have hdigits := Spelling.of_integer ht hk
  by_contra hle
  have hall : t.text.toList.all Char.isDigit = true := List.all_eq_true.mpr hdigits
  have hin : digitsValue t.text.toList ≤ Parser.maxInteger := Nat.not_lt.mp hle
  simp [Parser.integerValue?, hne, hall, hin] at h

variable {c : Cursor} {e : Diagnostic}

/-- The token that a diagnostic is about, and those in front of it. Before one about nesting, there
is a token for each expression that is open. -/
theorem exists_fits (he : e ∈ (Report.ofTurns (turns c)).diagnostics) :
    ∃ pre t post, c.ahead ++ [c.endToken] = pre ++ t :: post ∧ e.position = t.span.start ∧
      e.cause.Fits t ∧ ∀ n, e.cause = .tooDeep n → Parser.maxNesting ≤ pre.length := by
  obtain ⟨m, hm, -, hitem⟩ := exists_item_of_mem_diagnostics he
  cases hr : (Parser.statement Parser.expression).run m with
  | ok s d => simp [Turn.ofCursor_of_ok hr] at hitem
  | error e' d =>
    obtain rfl : e' = e := by simpa [Turn.ofCursor_of_error hr] using hitem
    have hstop := Parser.statement_stopping hr
    have hsite := (Parser.reaches_of_error hr).trans (e'.cause.reaches_site d)
    obtain ⟨pre, post, hsplit, hlength⟩ := (hm.trans hsite).exists_split
    refine ⟨pre, _, post, hsplit, hstop.position, hstop.fits, fun n hn => ?_⟩
    have hdeep := hstop.deep n hn
    have hle := hm.length_le
    have hd : (e'.cause.site d).ahead = d.ahead := by rw [hn]; rfl
    rw [hd] at hlength
    omega

theorem Cause.describes_of_fits {cause : Cause} {pre : List Token} {t : Token}
    (h : cause.Fits t) (hspelled : t.kind = .integer → t.Spelled)
    (hdeep : ∀ n, cause = .tooDeep n → Parser.maxNesting ≤ pre.length) :
    cause.Describes pre t := by
  cases cause with
  | unrecognised text => exact ⟨h.1, h.2.symm⟩
  | unexpected expected found => exact ⟨h.1.symm, h.2⟩
  | noOperand kind => exact ⟨h.1.symm, h.2⟩
  | badNumber text =>
    obtain ⟨hk, rfl, hvalue⟩ := h
    exact ⟨hk, rfl, lt_digitsValue (hspelled hk) hk hvalue⟩
  | tooDeep limit => exact ⟨h, hdeep limit rfl⟩

theorem spelled_or_of_mem_tokenize {source : String} {file : Option String} {t : Token}
    (h : t ∈ tokenize source file) : t.Spelled ∨ t.kind = .eof ∧ t.text = "" := by
  rcases List.mem_append.mp h with h | h
  · exact .inl (Lexer.spelled_of_mem_tokens h)
  · obtain rfl := List.mem_singleton.mp h
    exact .inr ⟨rfl, rfl⟩

theorem spelled_of_mem_tokenize {source : String} {file : Option String} {t : Token}
    (h : t ∈ tokenize source file) (hk : t.kind ≠ .eof) : t.Spelled :=
  (spelled_or_of_mem_tokenize h).resolve_right fun heof => hk heof.1

theorem Ascending.start_ne_of_mem {pre post : List Token} {t u : Token}
    (h : Ascending (pre ++ t :: post)) (hu : u ∈ pre ++ post) : u.span.start ≠ t.span.start := by
  rcases List.mem_append.mp hu with hpre | hpost
  · intro heq
    have hlt := (List.pairwise_append.mp h).2.2 u hpre t List.mem_cons_self
    exact Nat.lt_irrefl _ (heq ▸ hlt)
  · exact (h.start_ne hpost).symm

/-- A statement was read from legal tokens in a row, of which its nodes keep some. -/
theorem exists_legal_of_mem_statements {s : Stmt}
    (hs : s ∈ (Report.ofTurns (turns c)).program.statements) (depth : Nat) (role : Role) :
    ∃ ts, ts <:+: c.ahead ∧ Legal ts ∧ Outlined ts (s.outline depth role) := by
  obtain ⟨seg, hseg, D, -, -⟩ := exists_derivation_of_mem_statements hs
  refine ⟨seg, ?_, D.flat.legal, D.outlined depth role⟩
  rw [← flatten_segments c]
  exact List.infix_of_mem_flatten hseg

theorem Legal.digitsValue_le {ts : List Token} {t : Token} (h : Legal ts) (ht : t ∈ ts)
    (hk : t.kind = .integer) : digitsValue t.text.toList ≤ 9223372036854775807 := by
  obtain ⟨value, hv⟩ := (h t ht).numeral hk
  exact hv.value_eq ▸ hv.le

/-- Each diagnostic is about the only token that starts at its place, and what it says is so of that
token. A statement that was read has no token that is illegal or a number out of range. -/
theorem ofSource_diagnostics_describe {source : String} {file : Option String}
    (hlength : source.utf8ByteSize < 4294967296) :
    (∀ e ∈ (Report.ofSource source file).diagnostics,
      ∃ pre t post, tokenize source file = pre ++ t :: post ∧ t.span.start = e.position ∧
        (∀ u ∈ pre ++ post, u.span.start ≠ e.position) ∧ e.cause.Describes pre t) ∧
      ∀ s ∈ (Report.ofSource source file).program.statements,
        ∃ ts, ts <:+: tokenize source file ∧
          (∀ t ∈ ts, t.kind ≠ .illegal ∧
            (t.kind = .integer → digitsValue t.text.toList ≤ 9223372036854775807)) ∧
          ∀ x ∈ s.outline 0 .stmt, x.node.token ∈ ts ∧
            ∀ t value, x.node = .expr (.integer t value) →
              0 ≤ value ∧ value ≤ 9223372036854775807 := by
  constructor
  · intro e he
    obtain ⟨pre, t, post, hsplit, hposition, hfits, hdeep⟩ := exists_fits he
    change tokenize source file = pre ++ t :: post at hsplit
    have hmem : t ∈ tokenize source file := by simp [hsplit]
    have hspelled (hk : t.kind = .integer) : t.Spelled :=
      spelled_of_mem_tokenize hmem (by simp [hk])
    have hascending : Ascending (tokenize source file) := (orderly_ofSource hlength).ascending
    refine ⟨pre, t, post, hsplit, hposition.symm, fun u hu => ?_,
      Cause.describes_of_fits hfits hspelled hdeep⟩
    rw [hsplit] at hascending
    exact hposition ▸ hascending.start_ne_of_mem hu
  · intro s hs
    obtain ⟨ts, hts, hlegal, hnodes⟩ := exists_legal_of_mem_statements hs 0 .stmt
    refine ⟨ts, hts.trans (List.prefix_append _ _).isInfix, fun t ht => ?_, fun x hx => ?_⟩
    · exact ⟨(hlegal t ht).ne_illegal, hlegal.digitsValue_le ht⟩
    · have hread := hnodes x hx
      refine ⟨hread.mem, fun t value hnode => ?_⟩
      have hmem := hread.mem
      have hnumbered := hread.numbered
      rw [hnode] at hmem hnumbered
      obtain ⟨hk, rfl⟩ := hnumbered
      exact ⟨Int.natCast_nonneg _, Int.ofNat_le.mpr (hlegal.digitsValue_le hmem hk)⟩

/-- A number in place of a name, a stray character, a number that is too large and a parenthesis
that closes nothing, each with the token that is at fault. The first number is a statement. -/
theorem ofSource_diagnostics_describe_stray :
    let digits := ['9', '2', '2', '3', '3', '7', '2', '0', '3', '6', '8', '5', '4', '7', '7', '5',
      '8', '0', '8']
    let source := String.ofList (['l', 'e', 't', ' ', '1', ' ', '@', ' '] ++ digits ++ [')'])
    source.utf8ByteSize < 4294967296 ∧
      (Report.ofSource source none).diagnostics =
        [⟨.unexpected .identifier .integer, ⟨4, "shell"⟩⟩, ⟨.unrecognised "@", ⟨6, "shell"⟩⟩,
          ⟨.badNumber (String.ofList digits), ⟨8, "shell"⟩⟩,
          ⟨.noOperand .rightParen, ⟨27, "shell"⟩⟩] ∧
      (Report.ofSource source none).program.statements.length = 1 ∧
      (∀ e ∈ (Report.ofSource source none).diagnostics,
        ∃ pre t post, tokenize source none = pre ++ t :: post ∧ t.span.start = e.position ∧
          (∀ u ∈ pre ++ post, u.span.start ≠ e.position) ∧ e.cause.Describes pre t) ∧
      ∀ s ∈ (Report.ofSource source none).program.statements,
        ∃ ts, ts <:+: tokenize source none ∧
          (∀ t ∈ ts, t.kind ≠ .illegal ∧
            (t.kind = .integer → digitsValue t.text.toList ≤ 9223372036854775807)) ∧
          ∀ x ∈ s.outline 0 .stmt, x.node.token ∈ ts ∧
            ∀ t value, x.node = .expr (.integer t value) →
              0 ≤ value ∧ value ≤ 9223372036854775807 := by
  intro digits source
  have hlength : source.utf8ByteSize < 4294967296 := by
    rw [utf8ByteSize_ofList]
    decide
  have hreport : Report.ofSource source none =
      Report.ofLexer ⟨['l', 'e', 't', ' ', '1', ' ', '@', ' '] ++ digits ++ [')'], 0, "shell"⟩ := by
    rw [Report.ofSource, Lexer.ofSource, String.toList_ofList]
    rfl
  refine ⟨hlength, ?_, ?_, ofSource_diagnostics_describe hlength⟩
  · rw [hreport]
    decide +kernel
  · rw [hreport]
    decide +kernel

end ScriptReader
