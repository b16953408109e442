import ScriptReader.Proofs.Segments

/-! How high trees are. What is read in the loop for operators becomes the left
side of the next one, so trees can grow to the left without bound. In all other
directions the bound on nesting bounds them. -/

namespace ScriptReader

/-! The number of expressions on the longest path from the root of a tree to a leaf. The step to
the left side of an operator, or to what is called, counts `n`, and any other counts 1. -/

mutual

def Expr.height (n : Nat) : Expr → Nat
  | .identifier _ | .integer _ _ | .boolean _ _ => 1
  | .unary _ _ right => 1 + right.height n
  | .binary _ left _ right => max (n + left.height n) (1 + right.height n)
  | .conditional _ condition consequence alternative =>
    1 + max (condition.height n) (max (consequence.height n) (alternativeHeight n alternative))
  | .function _ _ body => 1 + body.height n
  | .call _ callee arguments => max (n + callee.height n) (1 + argumentsHeight n arguments)

def Stmt.height (n : Nat) : Stmt → Nat
  | .define _ _ value => value.height n
  | .returning _ value => value.height n
  | .expression _ expression => expression.height n

def Block.height (n : Nat) : Block → Nat
  | ⟨_, statements⟩ => statementsHeight n statements

def argumentsHeight (n : Nat) : List Expr → Nat
  | [] => 0
  | e :: es => max (e.height n) (argumentsHeight n es)

def statementsHeight (n : Nat) : List Stmt → Nat
  | [] => 0
  | s :: ss => max (s.height n) (statementsHeight n ss)

def alternativeHeight (n : Nat) : Option Block → Nat
  | none => 0
  | some b => b.height n

end

theorem ExprDerivation.depth_pos {l : Level} {ts : List Token} {e : Expr} :
    ∀ d : ExprDerivation l ts e, 0 < d.depth
  | .tighter _ d | .call _ _ d => d.depth_pos
  | .binary _ _ dl _ => Nat.lt_of_lt_of_le dl.depth_pos (Nat.le_max_left _ _)
  | .callWith _ _ d _ => Nat.lt_of_lt_of_le d.depth_pos (Nat.le_max_left _ _)
  | .identifier _ | .integer _ _ | .yes _ | .no _ => Nat.one_pos
  | .unary _ _ | .grouping _ _ _ | .conditional _ _ _ _ _ | .conditionalElse _ _ _ _ _ _ _
  | .function _ _ _ _ _ => Nat.lt_of_lt_of_le Nat.one_pos (Nat.le_add_right _ _)

/-! Without the steps to the left, a tree is no higher than its phrase is deep. -/

mutual

theorem ExprDerivation.height_le {l : Level} {ts : List Token} {e : Expr} :
    ∀ d : ExprDerivation l ts e, e.height 0 ≤ d.depth
  | .tighter _ d => d.height_le
  | .binary _ _ dl dr => by
    have hl := dl.height_le
    have hr := dr.height_le
    simp only [Expr.height, ExprDerivation.depth]
    omega
  | .unary _ d => Nat.add_le_add_left d.height_le 1
  | .call _ _ d => by
    have hd := d.height_le
    have hpos := d.depth_pos
    simp only [Expr.height, argumentsHeight, ExprDerivation.depth]
    omega
  | .callWith _ _ d as => by
    have hd := d.height_le
    have has := as.height_le
    simp only [Expr.height, ExprDerivation.depth]
    omega
  | .identifier _ | .integer _ _ | .yes _ | .no _ => Nat.le_refl 1
  | .grouping _ _ d => Nat.le_trans d.height_le (Nat.le_add_left _ _)
  | .conditional _ _ _ dc db => by
    have hc := dc.height_le
    have hb := db.height_le
    simp only [Expr.height, alternativeHeight, ExprDerivation.depth]
    omega
  | .conditionalElse _ _ _ _ dc db da => by
    have hc := dc.height_le
    have hb := db.height_le
    have ha := da.height_le
    simp only [Expr.height, alternativeHeight, ExprDerivation.depth]
    omega
  | .function _ _ _ _ db => Nat.add_le_add_left db.height_le 1

theorem ArgumentsDerivation.height_le {ts : List Token} {es : List Expr} :
    ∀ d : ArgumentsDerivation ts es, argumentsHeight 0 es ≤ d.depth
  | .one d => Nat.max_le.mpr ⟨d.height_le, Nat.zero_le _⟩
  | .more _ d as => by
    have hd := d.height_le
    have has := as.height_le
    simp only [argumentsHeight, ArgumentsDerivation.depth]
    omega

theorem StmtDerivation.height_le {ts : List Token} {s : Stmt} :
    ∀ d : StmtDerivation ts s, s.height 0 ≤ d.depth
  | .define _ _ _ d _ | .returning _ d _ | .expression d _ => d.height_le

theorem StmtsDerivation.height_le {ts : List Token} {ss : List Stmt} :
    ∀ d : StmtsDerivation ts ss, statementsHeight 0 ss ≤ d.depth
  | .nil => Nat.le_refl 0
  | .cons d ds => by
    have hd := d.height_le
    have hds := ds.height_le
    simp only [statementsHeight, StmtsDerivation.depth]
    omega

theorem BlockDerivation.height_le {ts : List Token} {b : Block} :
    ∀ d : BlockDerivation ts b, b.height 0 ≤ d.depth
  | .braces _ _ ds => ds.height_le

end

/-- No path from the root to a leaf of what was read passes more expressions than the bound on
nesting says, not counting those that are the left side of an operator or what is called. -/
theorem ofSource_height (source : String) (file : Option String) :
    ∀ s ∈ (Report.ofSource source file).program.statements, s.height 0 ≤ 256 := by
  intro s hs
  obtain ⟨_, -, D, hD, -⟩ := exists_derivation_of_mem_statements hs
  exact Nat.le_trans D.height_le hD

/-- A sum of ones, with `n` signs. -/
def sumOfOnes (n : Nat) : List Char := (List.replicate n ['1', '+']).flatten ++ ['1']

theorem height_sumOfOnes :
    (Report.ofSource (String.ofList (sumOfOnes 256)) none).program.statements.map
      (Stmt.height 1) = [257] := by
  have hsource : Lexer.ofSource (String.ofList (sumOfOnes 256)) none =
      ⟨sumOfOnes 256, 0, "shell"⟩ := by
    rw [Lexer.ofSource, String.toList_ofList]
    rfl
  rw [Report.ofSource, hsource]
  decide +kernel

/-- The sums are the left sides of one another, up to a path that passes 257 expressions. -/
theorem ofSource_height_leftward :
    ∃ s ∈ (Report.ofSource (String.ofList (sumOfOnes 256)) none).program.statements,
      s.height 1 = 257 ∧ s.height 0 ≤ 256 := by
  obtain ⟨s, hs, hheight⟩ := List.mem_map.mp (height_sumOfOnes ▸ List.mem_singleton_self 257)
  exact ⟨s, hs, hheight, ofSource_height _ _ s hs⟩

/-- The bound on nesting does not bound the height of the trees. -/
theorem ofSource_height_not_le :
    ¬∀ (source : String) (file : Option String),
      ∀ s ∈ (Report.ofSource source file).program.statements, s.height 1 ≤ 256 := by
  intro h
  obtain ⟨s, hs, hheight⟩ := List.mem_map.mp (height_sumOfOnes ▸ List.mem_singleton_self 257)
  exact absurd (h _ _ s hs) (by omega)

end ScriptReader
