import ScriptReader.Proofs.Grammar.Flat
import ScriptReader.Proofs.Programs

/-! The bound on nesting is exact. A statement is read if its expressions lie no
deeper within one another than the bound. If one does and nothing in between ends
the statement, there is one diagnostic, at the first expression that is too deep. -/

namespace ScriptReader

variable {ts : List Token} {c : Cursor} {s : Stmt}

/-! Expressions start at tokens of their phrase, in the order of the tokens. -/

theorem map_token_inner (xs : List Start) :
    (xs.map Start.inner).map Start.token = xs.map Start.token := by
  rw [List.map_map]
  rfl

/-- The starts are at tokens of `ts`, each at one of its own, in the order of the tokens. -/
def StartsAmong (xs : List Start) (ts : List Token) : Prop := (xs.map Start.token).Sublist ts

theorem StartsAmong.inner {xs : List Start} (h : StartsAmong xs ts) :
    StartsAmong (xs.map .inner) ts := by
  rwa [StartsAmong, map_token_inner]

theorem StartsAmong.cons {xs : List Start} (h : StartsAmong xs ts) (t : Token) :
    StartsAmong xs (t :: ts) := List.Sublist.cons t h

theorem StartsAmong.cons_cons {xs : List Start} (h : StartsAmong xs ts) (n : Nat) (t : Token) :
    StartsAmong (⟨n, t⟩ :: xs) (t :: ts) := List.Sublist.cons_cons t h

theorem StartsAmong.append {xs ys : List Start} {us : List Token} (h : StartsAmong xs ts)
    (h' : StartsAmong ys us) : StartsAmong (xs ++ ys) (ts ++ us) := by
  rw [StartsAmong, List.map_append]
  exact List.Sublist.append h h'

theorem StartsAmong.append_left {xs : List Start} (h : StartsAmong xs ts) (us : List Token) :
    StartsAmong xs (us ++ ts) := List.Sublist.trans h (List.sublist_append_right us ts)

theorem StartsAmong.append_right {xs : List Start} (h : StartsAmong xs ts) (us : List Token) :
    StartsAmong xs (ts ++ us) := List.Sublist.trans h (List.sublist_append_left ts us)

mutual

theorem ExprDerivation.startsAmong {l : Level} {ts : List Token} {e : Expr} :
    ∀ d : ExprDerivation l ts e, StartsAmong d.starts ts
  | .tighter _ d => d.startsAmong
  | .binary _ _ dl dr => dl.startsAmong.append (dr.startsAmong.inner.cons _)
  | .unary _ d => d.startsAmong.inner.cons_cons 1 _
  | .call _ _ d => d.startsAmong.append_right _
  | .callWith _ _ d as => d.startsAmong.append ((as.startsAmong.inner.append_right _).cons _)
  | .identifier _ | .integer _ _ | .yes _ | .no _ => List.Sublist.refl _
  | .grouping _ _ d => (d.startsAmong.inner.append_right _).cons_cons 1 _
  | .conditional _ _ _ dc db =>
    (((dc.startsAmong.append (db.startsAmong.cons _)).inner).cons _).cons_cons 1 _
  | .conditionalElse _ _ _ _ dc db da =>
    ((dc.startsAmong.append
      ((db.startsAmong.append (da.startsAmong.cons _)).cons _)).inner.cons _).cons_cons 1 _
  | .function _ _ _ _ db => (((db.startsAmong.cons _).append_left _).inner.cons _).cons_cons 1 _

theorem ArgumentsDerivation.startsAmong {ts : List Token} {es : List Expr} :
    ∀ d : ArgumentsDerivation ts es, StartsAmong d.starts ts
  | .one d => d.startsAmong
  | .more _ d as => d.startsAmong.append (as.startsAmong.cons _)

theorem StmtDerivation.startsAmong {ts : List Token} {s : Stmt} :
    ∀ d : StmtDerivation ts s, StartsAmong d.starts ts
  | .define _ _ _ d _ => (((d.startsAmong.append_right _).cons _).cons _).cons _
  | .returning _ d _ => (d.startsAmong.append_right _).cons _
  | .expression d _ => d.startsAmong.append_right _

theorem StmtsDerivation.startsAmong {ts : List Token} {ss : List Stmt} :
    ∀ d : StmtsDerivation ts ss, StartsAmong d.starts ts
  | .nil => List.Sublist.refl _
  | .cons d ds => d.startsAmong.append ds.startsAmong

theorem BlockDerivation.startsAmong {ts : List Token} {b : Block} :
    ∀ d : BlockDerivation ts b, StartsAmong d.starts ts
  | .braces _ _ ds => (ds.startsAmong.append_right _).cons _

end

/-! No level of nesting is left out on the way down. -/

/-- The first start that lies deeper than a bound lies just one deeper. -/
def Gradual (xs : List Start) : Prop := ∀ n x, tooDeep? n xs = some x → x.depth = n + 1

theorem gradual_nil : Gradual [] := nofun

theorem Gradual.append {xs ys : List Start} (h : Gradual xs) (h' : Gradual ys) :
    Gradual (xs ++ ys) := by
  intro n x hx
  rw [tooDeep?_append, Option.or_eq_some_iff] at hx
  rcases hx with hx | ⟨-, hx⟩
  · exact h n x hx
  · exact h' n x hx

/-- Behind the start of the whole, the starts within it lie one deeper. -/
theorem Gradual.append_inner {xs ys : List Start} (h : Gradual xs)
    (hxs : ∃ t us zs, ts = t :: us ∧ xs = ⟨1, t⟩ :: zs) (h' : Gradual ys) :
    Gradual (xs ++ ys.map .inner) := by
  obtain ⟨t, _, zs, -, rfl⟩ := hxs
  intro n x hx
  cases n with
  | zero =>
    -- Every start lies deeper than 0, so it is the first.
    obtain rfl : ⟨1, t⟩ = x := Option.some.inj hx
    rfl
  | succ n =>
    rw [tooDeep?_append, Option.or_eq_some_iff, tooDeep?_inner] at hx
    rcases hx with hx | ⟨-, hx⟩
    · exact h _ x hx
    · obtain ⟨y, hy, rfl⟩ := Option.map_eq_some_iff.mp hx
      exact congrArg (· + 1) (h' n y hy)

theorem gradual_singleton (t : Token) : Gradual [⟨1, t⟩] := by
  intro n x hx
  cases n with
  | zero =>
    obtain rfl : ⟨1, t⟩ = x := Option.some.inj hx
    rfl
  | succ n =>
    rw [tooDeep?_whole] at hx
    contradiction

theorem Gradual.whole {xs : List Start} (h : Gradual xs) (t : Token) :
    Gradual (⟨1, t⟩ :: xs.map .inner) :=
  (gradual_singleton t).append_inner ⟨t, [], [], rfl, rfl⟩ h

mutual

theorem ExprDerivation.gradual {l : Level} {ts : List Token} {e : Expr} :
    ∀ d : ExprDerivation l ts e, Gradual d.starts
  | .tighter _ d | .call _ _ d => d.gradual
  | .binary _ _ dl dr => dl.gradual.append_inner dl.starts_head dr.gradual
  | .callWith _ _ d as => d.gradual.append_inner d.starts_head as.gradual
  | .unary _ d | .grouping _ _ d => d.gradual.whole _
  | .identifier _ | .integer _ _ | .yes _ | .no _ => gradual_singleton _
  | .conditional _ _ _ dc db => (dc.gradual.append db.gradual).whole _
  | .conditionalElse _ _ _ _ dc db da =>
    (dc.gradual.append (db.gradual.append da.gradual)).whole _
  | .function _ _ _ _ db => db.gradual.whole _

theorem ArgumentsDerivation.gradual {ts : List Token} {es : List Expr} :
    ∀ d : ArgumentsDerivation ts es, Gradual d.starts
  | .one d => d.gradual
  | .more _ d as => d.gradual.append as.gradual

theorem StmtDerivation.gradual {ts : List Token} {s : Stmt} :
    ∀ d : StmtDerivation ts s, Gradual d.starts
  | .define _ _ _ d _ | .returning _ d _ | .expression d _ => d.gradual

theorem StmtsDerivation.gradual {ts : List Token} {ss : List Stmt} :
    ∀ d : StmtsDerivation ts ss, Gradual d.starts
  | .nil => gradual_nil
  | .cons d ds => d.gradual.append ds.gradual

theorem BlockDerivation.gradual {ts : List Token} {b : Block} :
    ∀ d : BlockDerivation ts b, Gradual d.starts
  | .braces _ _ ds => ds.gradual

end

/-! The statement that is given up is skipped as a whole. -/

theorem tail_dropWhile_eq_nil {α : Type} {p : α → Bool} {as : List α}
    (h : ∀ a ∈ as.dropLast, p a = true) : (as.dropWhile p).tail = [] := by
  induction as with
  | nil => rfl
  | cons a as ih =>
    cases as with
    | nil =>
      rw [List.dropWhile_cons]
      split <;> rfl
    | cons b bs =>
      rw [List.dropLast_cons_cons, List.forall_mem_cons] at h
      rw [List.dropWhile_cons, if_pos h.1]
      exact ih h.2

theorem mem_dropLast_of_suffix {α : Type} {as bs : List α} {a : α} (h : bs <:+ as)
    (ha : a ∈ bs.dropLast) : a ∈ as.dropLast := by
  obtain ⟨pre, rfl⟩ := h
  have hne : bs ≠ [] := by
    rintro rfl
    contradiction
  rw [List.dropLast_append_of_ne_nil hne]
  exact List.mem_append_right pre ha

/-- From anywhere in the tokens, nothing is left behind the end of the statement if only the last
token can end it. -/
theorem skipTo_semicolon_eq_nil {m : Cursor} (h : c.Reaches m)
    (hsemicolon : ∀ t ∈ c.ahead.dropLast, t.kind ≠ .semicolon) (hlegal : Legal c.ahead) :
    (m.skipTo [.semicolon, .eof]).advance.ahead = [] := by
  refine tail_dropWhile_eq_nil fun t ht => ?_
  have hmem := mem_dropLast_of_suffix h.suffix ht
  simp [Token.isOneOf, hsemicolon t hmem, (hlegal t (List.dropLast_subset _ hmem)).ne_eof]

/-- The first expression that lies deeper than the bound gives the only diagnostic. -/
theorem ofTurns_of_lt_depth (D : StmtDerivation ts s) (hsep : D.Separated) (hc : c.ahead = ts)
    (hsemicolon : ∀ t ∈ ts.dropLast, t.kind ≠ .semicolon) {x : Start}
    (hx : tooDeep? Parser.maxNesting D.starts = some x) :
    Report.ofTurns (turns c) = ⟨⟨[]⟩, [⟨.tooDeep Parser.maxNesting, x.token.span.start⟩]⟩ := by
  obtain ⟨d, -, hcap⟩ := Turn.capped_statement D hsep .nil (.inr (by simp))
    (hc.trans (List.append_nil ts).symm)
  obtain ⟨m, hrun, -⟩ := (Parser.capped_iff_of_some hx).mp hcap
  have hnext : (Turn.ofCursor c).next.ahead = [] := by
    rw [Turn.ofCursor_of_error hrun]
    exact skipTo_semicolon_eq_nil (Parser.reaches_of_error hrun) (hc ▸ hsemicolon)
      (hc ▸ D.flat.legal)
  have hne : c.ahead ≠ [] := hc ▸ D.ne_nil
  rw [turns_of_ne_nil hne, turns_of_nil hnext, Turn.ofCursor_of_error hrun]
  rfl

/-- A statement whose expressions lie no deeper than the bound is read, and nothing is wrong with
it. If one lies deeper and no semicolon stands before the end, there is no statement but one
diagnostic, at the first token at which an expression would start that lies one deeper than the
bound. -/
theorem ofSource_nesting {source : String} {file : Option String} {s : Stmt}
    (D : StmtDerivation (tokenize source file).dropLast s) (hsep : D.Separated) :
    (D.depth ≤ 256 → Report.ofSource source file = ⟨⟨[s]⟩, []⟩) ∧
      (256 < D.depth → (∀ t ∈ (tokenize source file).dropLast.dropLast, t.kind ≠ .semicolon) →
        ∃ before x after, D.starts = before ++ x :: after ∧ (∀ y ∈ before, y.depth ≤ 256) ∧
          x.depth = 257 ∧ (D.starts.map Start.token).Sublist (tokenize source file).dropLast ∧
          Report.ofSource source file = ⟨⟨[]⟩, [⟨.tooDeep 256, x.token.span.start⟩]⟩) := by
  constructor
  · intro hd
    let DS : StmtsDerivation ((tokenize source file).dropLast ++ []) [s] := .cons D .nil
    have hsepS : DS.Separated := ⟨hsep, trivial, .inr (by simp)⟩
    have hdS : DS.depth ≤ Parser.maxNesting := Nat.max_le.mpr ⟨hd, Nat.zero_le _⟩
    refine ofTurns_of_depth_le DS hsepS ?_ hdS
    rw [List.append_nil]
    exact ahead_ofSource source file
  · intro hd hsemicolon
    obtain ⟨x, hx⟩ := D.exists_tooDeep hd
    obtain ⟨-, before, after, hsplit, hbefore⟩ := List.find?_eq_some_iff_append.mp hx
    refine ⟨before, x, after, hsplit, fun y hy => ?_, D.gradual 256 x hx, D.startsAmong,
      ofTurns_of_lt_depth D hsep (ahead_ofSource source file) hsemicolon hx⟩
    simpa using hbefore y hy

theorem exists_derivation_signs {ts : List Token} {x : Token} (h : ∀ t ∈ ts, t.kind = .bang)
    (hx : x.kind = .identifier) :
    ∃ e, ∃ D : ExprDerivation .unary (ts ++ [x]) e, D.depth = ts.length + 1 ∧ D.Separated := by
  induction ts with
  | nil => exact ⟨_, .tighter rfl (.tighter rfl (.identifier hx)), rfl, trivial⟩
  | cons t ts ih =>
    obtain ⟨ht, hts⟩ := List.forall_mem_cons.mp h
    obtain ⟨e, D, hd, hs⟩ := ih hts
    refine ⟨_, .unary (ht ▸ List.mem_cons_self) D, ?_, hs⟩
    rw [ExprDerivation.depth, hd, List.length_cons, Nat.add_comm]

theorem ExprDerivation.exists_statement {ts ends : List Token} {e : Expr}
    (D : ExprDerivation .equality ts e) (he : Terminator ends) :
    ∃ s, ∃ D' : StmtDerivation (ts ++ ends) s,
      D'.depth = D.depth ∧ (D'.Separated ↔ D.Separated) := by
  cases ts with
  | nil => exact absurd rfl D.ne_nil
  | cons first ts => exact ⟨_, .expression D he, rfl, .rfl⟩

theorem exists_stmtDerivation_signs {ts : List Token} {n : Nat}
    (h : ts.map Token.kind = List.replicate n .bang ++ [.identifier, .semicolon]) :
    ∃ s, ∃ D : StmtDerivation ts s, D.depth = n + 1 ∧ D.Separated := by
  obtain ⟨signs, us, rfl, hsigns, hus⟩ := List.map_eq_append_iff.mp h
  obtain ⟨x, us, rfl, hx, hus⟩ := List.map_eq_cons_iff.mp hus
  obtain ⟨t, us, rfl, ht, hnil⟩ := List.map_eq_cons_iff.mp hus
  obtain rfl := List.map_eq_nil_iff.mp hnil
  obtain rfl : signs.length = n := by
    rw [← List.length_map (f := Token.kind), hsigns, List.length_replicate]
  have hbang := List.map_eq_replicate_iff.mp hsigns
  obtain ⟨e, D, hd, hs⟩ := exists_derivation_signs hbang hx
  obtain ⟨D, hd', hs'⟩ := D.exists_looser (l := .equality) (Nat.zero_le _)
  obtain ⟨s, D, hd'', hs''⟩ := D.exists_statement (.semicolon ht)
  rw [← List.singleton_append, ← List.append_assoc]
  exact ⟨s, D, hd''.trans (hd'.trans hd), hs''.mpr (hs'.mpr hs)⟩

/-- A name behind 255 signs is read, and behind 256 signs it lies too deep. -/
theorem ofSource_nesting_signs :
    let source (n : Nat) := String.ofList (List.replicate n '!' ++ ['x', ';'])
    (∃ s, ∃ D : StmtDerivation (tokenize (source 255) none).dropLast s, D.Separated ∧
        D.depth = 256 ∧ Report.ofSource (source 255) none = ⟨⟨[s]⟩, []⟩) ∧
      ∃ s, ∃ D : StmtDerivation (tokenize (source 256) none).dropLast s, D.Separated ∧
        D.depth = 257 ∧
        (∀ t ∈ (tokenize (source 256) none).dropLast.dropLast, t.kind ≠ .semicolon) ∧
        ∃ x ∈ D.starts, x.depth = 257 ∧
          Report.ofSource (source 256) none = ⟨⟨[]⟩, [⟨.tooDeep 256, x.token.span.start⟩]⟩ := by
  intro source
  let l (n : Nat) : Lexer := ⟨List.replicate n '!' ++ ['x', ';'], 0, "shell"⟩
  have htokens (n : Nat) : (tokenize (source n) none).dropLast = (l n).tokens := by
    rw [← ahead_ofSource, Cursor.ofSource, Lexer.ofSource, String.toList_ofList]
    rfl
  constructor
  · have hkinds : (l 255).tokens.map Token.kind =
        List.replicate 255 .bang ++ [.identifier, .semicolon] := by
      decide +kernel
    obtain ⟨s, D, hd, hs⟩ := exists_stmtDerivation_signs (htokens 255 ▸ hkinds)
    exact ⟨s, D, hs, hd, (ofSource_nesting D hs).1 (Nat.le_of_eq hd)⟩
  · have hkinds : (l 256).tokens.map Token.kind =
        List.replicate 256 .bang ++ [.identifier, .semicolon] := by
      decide +kernel
    have hsemicolon : ∀ t ∈ (l 256).tokens.dropLast, t.kind ≠ .semicolon := by decide +kernel
    obtain ⟨s, D, hd, hs⟩ := exists_stmtDerivation_signs (htokens 256 ▸ hkinds)
    obtain ⟨before, x, after, hsplit, -, hx, -, hreport⟩ :=
      (ofSource_nesting D hs).2 (by omega) (htokens 256 ▸ hsemicolon)
    exact ⟨s, D, hs, hd, htokens 256 ▸ hsemicolon, x, by simp [hsplit], hx, hreport⟩

end ScriptReader
