import ScriptReader.Proofs.Lexing
import ScriptReader.Proofs.Tree.WellFormed
import ScriptReader.Tree.Print

/-! The tokens of printed trees. -/

namespace ScriptReader

open Text

def operatorKind (operators : List (String × TokenKind)) (text : String) : TokenKind :=
  (operators.lookup text).getD .illegal

def parameterSigns : List Identifier → List (TokenKind × String)
  | [] => []
  | [i] => [(.identifier, i.value)]
  | i :: j :: is => (.identifier, i.value) :: symbol ',' :: parameterSigns (j :: is)

def terminatorSigns : Stmt → List (TokenKind × String)
  | .expression _ _ => [symbol ';']
  | _ => []

mutual

def Expr.signs : Expr → List (TokenKind × String)
  | .identifier name => [(.identifier, name.value)]
  | .integer _ value => [(.integer, decimal value)]
  | .boolean _ value => [if value then (.trueWord, "true") else (.falseWord, "false")]
  | .unary _ operator right =>
    symbol '(' :: (operatorKind unaryOperators operator, operator) :: (right.signs ++ [symbol ')'])
  | .binary _ left operator right =>
    symbol '(' :: (left.signs ++
      (operatorKind binaryOperators operator, operator) :: (right.signs ++ [symbol ')']))
  | .conditional _ condition consequence alternative =>
    (.ifWord, "if") :: symbol '(' ::
      (condition.signs ++ symbol ')' :: (consequence.signs ++ alternativeSigns alternative))
  | .function _ parameters body =>
    (.fnWord, "fn") :: symbol '(' :: (parameterSigns parameters ++ symbol ')' :: body.signs)
  | .call _ callee arguments =>
    callee.signs ++ symbol '(' :: (argumentSigns arguments ++ [symbol ')'])

def Stmt.signs : Stmt → List (TokenKind × String)
  | .define _ name value =>
    (.letWord, "let") :: (.identifier, name.value) :: symbol '=' :: (value.signs ++ [symbol ';'])
  | .returning _ value => (.returnWord, "return") :: (value.signs ++ [symbol ';'])
  | .expression _ expression => expression.signs

def Block.signs : Block → List (TokenKind × String)
  | ⟨_, statements⟩ => symbol '{' :: (statementSigns statements ++ [symbol '}'])

def argumentSigns : List Expr → List (TokenKind × String)
  | [] => []
  | [e] => e.signs
  | e :: e' :: es => e.signs ++ symbol ',' :: argumentSigns (e' :: es)

def statementSigns : List Stmt → List (TokenKind × String)
  | [] => []
  | [s] => s.signs
  | s :: s' :: ss => s.signs ++ (terminatorSigns s ++ statementSigns (s' :: ss))

def alternativeSigns : Option Block → List (TokenKind × String)
  | none => []
  | some block => (.elseWord, "else") :: block.signs

end

theorem Identifier.WellFormed.kind {i : Identifier} (h : i.WellFormed) :
    TokenKind.ofWord i.value = .identifier := by
  have hl : TokenKind.reservedWords.lookup i.value = none := by
    refine List.lookup_eq_none_iff.mpr fun p hp => ?_
    simp only [bne_iff_ne, ne_eq]
    rintro he
    exact h.2.2 (he ▸ List.mem_map_of_mem hp)
  rw [TokenKind.ofWord, hl, Option.getD_none]

theorem Identifier.WellFormed.toList_ne_nil {i : Identifier} (h : i.WellFormed) :
    i.value.toList ≠ [] := by
  simpa using h.1

theorem Identifier.signs_value {i : Identifier} {cs : List Char} (h : i.WellFormed)
    (hcs : Breaks cs) : signs (i.value.toList ++ cs) = (.identifier, i.value) :: signs cs := by
  rw [signs_word h.toList_ne_nil h.2.1 hcs, String.ofList_toList, h.kind]

theorem signs_reserved {w : String} {k : TokenKind} {cs : List Char}
    (h : (w, k) ∈ TokenKind.reservedWords) (hcs : Breaks cs) :
    signs (w.toList ++ cs) = (k, w) :: signs cs := by
  have hall : ∀ p ∈ TokenKind.reservedWords, p.1.toList ≠ [] ∧
      p.1.toList.all isWordChar = true ∧ TokenKind.ofWord p.1 = p.2 := by decide
  obtain ⟨hne, hw, hk⟩ := hall _ h
  rw [signs_word hne (List.all_eq_true.mp hw) hcs, String.ofList_toList, hk]

theorem signs_decimal {value : Int} {cs : List Char} (h : 0 ≤ value) (hcs : Breaks cs) :
    signs ((decimal value).toList ++ cs) = (.integer, decimal value) :: signs cs := by
  obtain ⟨n, rfl⟩ := Int.eq_ofNat_of_zero_le h
  have hdigits : ∀ c ∈ Nat.toDigits 10 n, c.isDigit = true := fun c hc =>
    Nat.isDigit_of_mem_toDigits (by decide) (by decide) hc
  change signs ((String.ofList (Nat.toDigits 10 n)).toList ++ cs) = _
  rw [String.toList_ofList, signs_digits Nat.toDigits_ne_nil hdigits hcs]
  rfl

theorem signs_binaryOperator {operator : String} {cs : List Char}
    (h : operator ∈ binaryOperators.map Prod.fst) :
    signs (operator.toList ++ ' ' :: cs) =
      (operatorKind binaryOperators operator, operator) :: signs cs := by
  have hspace : signs (' ' :: cs) = signs cs := signs_layout rfl
  rw [← hspace]
  simp only [binaryOperators, List.map_cons, List.map_nil, List.mem_cons, List.not_mem_nil,
    or_false] at h
  rcases h with rfl | rfl | rfl | rfl | rfl | rfl | rfl | rfl <;> exact signs_lexeme rfl

/-- An operator in front of its operand, which does not begin with an equals sign. -/
theorem signs_unaryOperator {operator : String} {c : Char} {cs : List Char}
    (h : operator ∈ unaryOperators.map Prod.fst) (hc : c ≠ '=') :
    signs (operator.toList ++ c :: cs) =
      (operatorKind unaryOperators operator, operator) :: signs (c :: cs) := by
  have hbang : lexeme '!' (c :: cs) = ⟨.bang, ['!'], c :: cs⟩ := by
    have hsym : lexeme '!' (c :: cs) = .ofSymbol '!' (c :: cs) := rfl
    rw [hsym, Lexeme.ofSymbol]
    · rfl
    · intro _ _ _ hcs
      exact hc (List.cons.inj hcs).1
  simp only [unaryOperators, List.map_cons, List.map_nil, List.mem_cons, List.not_mem_nil,
    or_false] at h
  rcases h with rfl | rfl
  · change signs ('!' :: c :: cs) = _
    rw [signs_lexeme rfl, hbang]
    rfl
  · exact signs_lexeme rfl

theorem signs_assign (cs : List Char) : signs ('=' :: ' ' :: cs) = symbol '=' :: signs cs := by
  rw [signs_lexeme rfl]
  exact congrArg (symbol '=' :: ·) (signs_layout rfl)

/-- What is printed of an expression begins with no equals sign, so it does not join a sign in
front of it. -/
theorem Expr.text_head : ∀ e : Expr, e.WellFormed →
    ∃ c cs, e.text.toList = c :: cs ∧ c ≠ '='
  | .identifier name, h => by
    have hname : name.WellFormed := h
    cases hv : name.value.toList with
    | nil => exact absurd hv hname.toList_ne_nil
    | cons c cs =>
      refine ⟨c, cs, hv, ?_⟩
      rintro rfl
      have hc := hname.2.1 '=' (by simp [hv])
      contradiction
  | .integer token value, h => by
    obtain ⟨n, rfl⟩ := Int.eq_ofNat_of_zero_le h.1
    have hd : (Expr.integer token (n : Int)).text.toList = Nat.toDigits 10 n := String.toList_ofList
    cases hv : Nat.toDigits 10 n with
    | nil => exact absurd hv Nat.toDigits_ne_nil
    | cons c cs =>
      refine ⟨c, cs, hd.trans hv, ?_⟩
      rintro rfl
      have hc : Char.isDigit '=' = true :=
        Nat.isDigit_of_mem_toDigits (by decide) (by decide) (hv ▸ List.mem_cons_self)
      contradiction
  | .boolean _ value, _ => by cases value <;> simp [Expr.text]
  | .unary _ _ _, _ => by simp [Expr.text]
  | .binary _ _ _ _, _ => by simp [Expr.text]
  | .conditional _ _ _ _, _ => by simp [Expr.text]
  | .function _ _ _, h => by simp [Expr.text, h.1]
  | .call _ callee _, h => by
    obtain ⟨c, cs, hc, hne⟩ := callee.text_head h.1
    simp [Expr.text, hc, hne]

theorem signs_parameters {is : List Identifier} {cs : List Char} (h : ∀ i ∈ is, i.WellFormed) :
    signs ((", ".intercalate (is.map Identifier.value)).toList ++ ')' :: cs) =
      parameterSigns is ++ signs (')' :: cs) := by
  induction is using parameterSigns.induct with
  | case1 => rfl
  | case2 i =>
    have htext : (", ".intercalate ([i].map Identifier.value)).toList ++ ')' :: cs =
        i.value.toList ++ ')' :: cs := by
      simp
    rw [htext, Identifier.signs_value (h i List.mem_cons_self) (breaks_cons rfl rfl)]
    rfl
  | case3 i j is ih =>
    have htext : (", ".intercalate ((i :: j :: is).map Identifier.value)).toList ++ ')' :: cs =
        i.value.toList ++ ',' :: ' ' ::
          ((", ".intercalate ((j :: is).map Identifier.value)).toList ++ ')' :: cs) := by
      simp
    rw [htext, Identifier.signs_value (h i List.mem_cons_self) (breaks_cons rfl rfl),
      signs_symbol rfl, signs_layout rfl,
      ih fun k hk => h k (List.mem_cons_of_mem _ hk)]
    rfl

mutual

theorem Expr.signs_text : ∀ e : Expr, e.WellFormed → ∀ cs, Breaks cs →
    signs (e.text.toList ++ cs) = e.signs ++ signs cs
  | .identifier _, h, _, hcs => Identifier.signs_value h hcs
  | .integer _ _, h, _, hcs => signs_decimal h.1 hcs
  | .boolean _ value, _, _, hcs => by
    cases value
    · exact signs_reserved (w := "false") (by decide) hcs
    · exact signs_reserved (w := "true") (by decide) hcs
  | .unary t operator right, h, cs, _ => by
    obtain ⟨c, ds, hd, hc⟩ := right.text_head h.2
    have htext : (Expr.unary t operator right).text.toList ++ cs =
        '(' :: (operator.toList ++ c :: (ds ++ ')' :: cs)) := by
      simp [Expr.text, hd]
    have hright := right.signs_text h.2 (')' :: cs) (breaks_cons rfl rfl)
    rw [hd, List.cons_append] at hright
    rw [htext, signs_symbol rfl, signs_unaryOperator h.1 hc, hright,
      signs_symbol rfl]
    simp [Expr.signs]
  | .binary t left operator right, h, cs, _ => by
    have htext : (Expr.binary t left operator right).text.toList ++ cs =
        '(' :: (left.text.toList ++ ' ' ::
          (operator.toList ++ ' ' :: (right.text.toList ++ ')' :: cs))) := by
      simp [Expr.text]
    rw [htext, signs_symbol rfl, left.signs_text h.1 _ (breaks_cons rfl rfl),
      signs_layout rfl, signs_binaryOperator h.2.1,
      right.signs_text h.2.2 _ (breaks_cons rfl rfl), signs_symbol rfl]
    simp [Expr.signs]
  | .conditional t condition consequence alternative, h, cs, hcs => by
    have htext : (Expr.conditional t condition consequence alternative).text.toList ++ cs =
        "if".toList ++ ' ' :: '(' :: (condition.text.toList ++ ')' :: ' ' ::
          (consequence.text.toList ++ ((alternativeText alternative).toList ++ cs))) := by
      simp [Expr.text]
    rw [htext, signs_reserved (k := .ifWord) (by decide) (breaks_cons rfl rfl), signs_layout rfl,
      signs_symbol rfl, condition.signs_text h.1 _ (breaks_cons rfl rfl),
      signs_symbol rfl, signs_layout rfl, consequence.signs_text h.2.1,
      alternativeSigns_text alternative h.2.2]
    simp [Expr.signs]
  | .function t parameters body, h, cs, _ => by
    have htext : (Expr.function t parameters body).text.toList ++ cs =
        "fn".toList ++ '(' :: ((", ".intercalate (parameters.map Identifier.value)).toList ++
          ')' :: ' ' :: (body.text.toList ++ cs)) := by
      simp [Expr.text, h.1]
    rw [htext, signs_reserved (k := .fnWord) (by decide) (breaks_cons rfl rfl),
      signs_symbol rfl, signs_parameters h.2.1, signs_symbol rfl,
      signs_layout rfl, body.signs_text h.2.2]
    simp [Expr.signs]
  | .call t callee arguments, h, cs, _ => by
    have htext : (Expr.call t callee arguments).text.toList ++ cs =
        callee.text.toList ++ '(' ::
          ((", ".intercalate (argumentTexts arguments)).toList ++ ')' :: cs) := by
      simp [Expr.text]
    rw [htext, callee.signs_text h.1 _ (breaks_cons rfl rfl), signs_symbol rfl,
      argumentSigns_text arguments h.2 _ (breaks_cons rfl rfl), signs_symbol rfl]
    simp [Expr.signs]

/-- A statement, and a statement with what has to stand behind it when another follows. -/
theorem Stmt.signs_text : ∀ s : Stmt, s.WellFormed → ∀ cs,
    (Breaks cs → signs (s.text.toList ++ cs) = s.signs ++ signs cs) ∧
      signs (s.text.toList ++ (s.terminator.toList ++ cs)) =
        s.signs ++ (terminatorSigns s ++ signs cs)
  | .define t name value, h, cs => by
    have htext : (Stmt.define t name value).text.toList ++ cs =
        "let".toList ++ ' ' :: (name.value.toList ++ ' ' :: '=' :: ' ' ::
          (value.text.toList ++ ';' :: cs)) := by
      simp [Stmt.text, h.1]
    have hsigns : signs ((Stmt.define t name value).text.toList ++ cs) =
        (Stmt.define t name value).signs ++ signs cs := by
      rw [htext, signs_reserved (k := .letWord) (by decide) (breaks_cons rfl rfl),
        signs_layout rfl, Identifier.signs_value h.2.1 (breaks_cons rfl rfl), signs_layout rfl,
        signs_assign, value.signs_text h.2.2 _ (breaks_cons rfl rfl),
        signs_symbol rfl]
      simp [Stmt.signs]
    exact ⟨fun _ => hsigns, hsigns⟩
  | .returning t value, h, cs => by
    have htext : (Stmt.returning t value).text.toList ++ cs =
        "return".toList ++ ' ' :: (value.text.toList ++ ';' :: cs) := by
      simp [Stmt.text, h.1]
    have hsigns : signs ((Stmt.returning t value).text.toList ++ cs) =
        (Stmt.returning t value).signs ++ signs cs := by
      rw [htext, signs_reserved (k := .returnWord) (by decide) (breaks_cons rfl rfl),
        signs_layout rfl, value.signs_text h.2 _ (breaks_cons rfl rfl),
        signs_symbol rfl]
      simp [Stmt.signs]
    exact ⟨fun _ => hsigns, hsigns⟩
  | .expression t e, h, cs => by
    refine ⟨fun hcs => e.signs_text h cs hcs, ?_⟩
    have htext : (Stmt.expression t e).text.toList ++
        ((Stmt.expression t e).terminator.toList ++ cs) = e.text.toList ++ ';' :: cs := by
      simp [Stmt.text, Stmt.terminator]
    rw [htext, e.signs_text h _ (breaks_cons rfl rfl), signs_symbol rfl]
    rfl

theorem Block.signs_text : ∀ b : Block, b.WellFormed → ∀ cs,
    signs (b.text.toList ++ cs) = b.signs ++ signs cs
  | ⟨t, []⟩, _, cs => by
    have htext : (Block.mk t []).text.toList ++ cs = '{' :: ' ' :: '}' :: cs := by
      simp [Block.text]
    rw [htext, signs_symbol rfl, signs_layout rfl, signs_symbol rfl]
    simp [Block.signs, statementSigns]
  | ⟨t, s :: ss⟩, h, cs => by
    have htext : (Block.mk t (s :: ss)).text.toList ++ cs = '{' :: ' ' ::
        ((" ".intercalate (statementTexts (s :: ss))).toList ++ ' ' :: '}' :: cs) := by
      simp [Block.text]
    have hspace : ∀ c ∈ " ".toList, isLayout c = true := List.all_eq_true.mp rfl
    rw [htext, signs_symbol rfl, signs_layout rfl,
      statementSigns_text (s :: ss) h " " hspace _ (breaks_cons rfl rfl), signs_layout rfl,
      signs_symbol rfl]
    simp [Block.signs]

theorem argumentSigns_text : ∀ es : List Expr, wellFormedArguments es → ∀ cs, Breaks cs →
    signs ((", ".intercalate (argumentTexts es)).toList ++ cs) = argumentSigns es ++ signs cs
  | [], _, _, _ => by simp [argumentTexts, argumentSigns]
  | [e], h, cs, hcs => by
    simpa [argumentTexts, argumentSigns] using e.signs_text h.1 cs hcs
  | e :: e' :: es, h, cs, hcs => by
    have htext : (", ".intercalate (argumentTexts (e :: e' :: es))).toList ++ cs =
        e.text.toList ++ ',' :: ' ' ::
          ((", ".intercalate (argumentTexts (e' :: es))).toList ++ cs) := by
      simp [argumentTexts]
    rw [htext, e.signs_text h.1 _ (breaks_cons rfl rfl), signs_symbol rfl,
      signs_layout rfl, argumentSigns_text (e' :: es) h.2 cs hcs]
    simp [argumentSigns]

theorem statementSigns_text : ∀ ss : List Stmt, wellFormedStatements ss → ∀ (sep : String),
    (∀ c ∈ sep.toList, isLayout c = true) → ∀ cs, Breaks cs →
    signs ((sep.intercalate (statementTexts ss)).toList ++ cs) = statementSigns ss ++ signs cs
  | [], _, _, _, _, _ => by simp [statementTexts, statementSigns]
  | [s], h, _, _, cs, hcs => by
    simpa [statementTexts, statementSigns] using (s.signs_text h.1 cs).1 hcs
  | s :: s' :: ss, h, sep, hsep, cs, hcs => by
    have htext : (sep.intercalate (statementTexts (s :: s' :: ss))).toList ++ cs =
        s.text.toList ++ (s.terminator.toList ++ (sep.toList ++
          ((sep.intercalate (statementTexts (s' :: ss))).toList ++ cs))) := by
      simp [statementTexts]
    rw [htext, (s.signs_text h.1 _).2, signs_layouts hsep,
      statementSigns_text (s' :: ss) h.2 sep hsep cs hcs]
    simp [statementSigns]

theorem alternativeSigns_text : ∀ b : Option Block, wellFormedAlternative b → ∀ cs,
    signs ((alternativeText b).toList ++ cs) = alternativeSigns b ++ signs cs
  | none, _, _ => rfl
  | some b, h, cs => by
    have htext : (alternativeText (some b)).toList ++ cs =
        ' ' :: ("else".toList ++ ' ' :: (b.text.toList ++ cs)) := by
      simp [alternativeText]
    rw [htext, signs_layout rfl, signs_reserved (k := .elseWord) (by decide) (breaks_cons rfl rfl),
      signs_layout rfl, b.signs_text h]
    simp [alternativeSigns]

end

theorem Program.signs_text {p : Program} (h : p.WellFormed) :
    signs p.text.toList = statementSigns p.statements := by
  have hjoin : ∀ ss : List String, String.join ss = "".intercalate ss := by
    intro ss
    induction ss with
    | nil => simp
    | cons s ss ih => cases ss <;> simp_all
  have hs := statementSigns_text p.statements (wellFormedStatements_iff.mpr h) "" (by simp) []
    breaks_nil
  rwa [List.append_nil, signs_nil, List.append_nil, ← hjoin] at hs

end ScriptReader
