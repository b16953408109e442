import ScriptReader.Tree.Basic

/-! Equality of trees, down to the places of their tokens, can be decided. -/

namespace ScriptReader

mutual

def Expr.same : Expr → Expr → Bool
  | .identifier n, .identifier n' => n == n'
  | .integer t v, .integer t' v' => t == t' && v == v'
  | .boolean t v, .boolean t' v' => t == t' && v == v'
  | .unary t o r, .unary t' o' r' => t == t' && o == o' && r.same r'
  | .binary t l o r, .binary t' l' o' r' => t == t' && l.same l' && o == o' && r.same r'
  | .conditional t c b a, .conditional t' c' b' a' =>
    t == t' && c.same c' && b.same b' && sameAlternative a a'
  | .function t ps b, .function t' ps' b' => t == t' && ps == ps' && b.same b'
  | .call t f as, .call t' f' as' => t == t' && f.same f' && sameArguments as as'
  | _, _ => false

def Stmt.same : Stmt → Stmt → Bool
  | .define t n v, .define t' n' v' => t == t' && n == n' && v.same v'
  | .returning t v, .returning t' v' => t == t' && v.same v'
  | .expression t e, .expression t' e' => t == t' && e.same e'
  | _, _ => false

def Block.same : Block → Block → Bool
  | ⟨t, ss⟩, ⟨t', ss'⟩ => t == t' && sameStatements ss ss'

def sameArguments : List Expr → List Expr → Bool
  | [], [] => true
  | e :: es, e' :: es' => e.same e' && sameArguments es es'
  | _, _ => false

def sameStatements : List Stmt → List Stmt → Bool
  | [], [] => true
  | s :: ss, s' :: ss' => s.same s' && sameStatements ss ss'
  | _, _ => false

def sameAlternative : Option Block → Option Block → Bool
  | none, none => true
  | some b, some b' => b.same b'
  | _, _ => false

end

mutual

theorem Expr.same_iff : ∀ e e' : Expr, e.same e' = true ↔ e = e'
  | .identifier n, e' => by cases e' <;> simp [Expr.same]
  | .integer t v, e' => by cases e' <;> simp [Expr.same]
  | .boolean t v, e' => by cases e' <;> simp [Expr.same]
  | .unary t o r, e' => by cases e' <;> simp [Expr.same, Expr.same_iff r, and_assoc]
  | .binary t l o r, e' => by
    cases e' <;> simp [Expr.same, Expr.same_iff l, Expr.same_iff r, and_assoc]
  | .conditional t c b a, e' => by
    cases e' <;>
      simp [Expr.same, Expr.same_iff c, Block.same_iff b, sameAlternative_iff a, and_assoc]
  | .function t ps b, e' => by cases e' <;> simp [Expr.same, Block.same_iff b, and_assoc]
  | .call t f as, e' => by
    cases e' <;> simp [Expr.same, Expr.same_iff f, sameArguments_iff as, and_assoc]

theorem Stmt.same_iff : ∀ s s' : Stmt, s.same s' = true ↔ s = s'
  | .define t n v, s' => by cases s' <;> simp [Stmt.same, Expr.same_iff v, and_assoc]
  | .returning t v, s' => by cases s' <;> simp [Stmt.same, Expr.same_iff v]
  | .expression t e, s' => by cases s' <;> simp [Stmt.same, Expr.same_iff e]

theorem Block.same_iff : ∀ b b' : Block, b.same b' = true ↔ b = b'
  | ⟨t, ss⟩, ⟨t', ss'⟩ => by simp [Block.same, sameStatements_iff ss]

theorem sameArguments_iff : ∀ es es' : List Expr, sameArguments es es' = true ↔ es = es'
  | [], es' => by cases es' <;> simp [sameArguments]
  | e :: es, es' => by cases es' <;> simp [sameArguments, Expr.same_iff e, sameArguments_iff es]

theorem sameStatements_iff : ∀ ss ss' : List Stmt, sameStatements ss ss' = true ↔ ss = ss'
  | [], ss' => by cases ss' <;> simp [sameStatements]
  | s :: ss, ss' => by
    cases ss' <;> simp [sameStatements, Stmt.same_iff s, sameStatements_iff ss]

theorem sameAlternative_iff : ∀ b b' : Option Block, sameAlternative b b' = true ↔ b = b'
  | none, b' => by cases b' <;> simp [sameAlternative]
  | some b, b' => by cases b' <;> simp [sameAlternative, Block.same_iff b]

end

instance : DecidableEq Expr := fun e e' => decidable_of_iff _ (Expr.same_iff e e')

instance : DecidableEq Stmt := fun s s' => decidable_of_iff _ (Stmt.same_iff s s')

instance : DecidableEq Block := fun b b' => decidable_of_iff _ (Block.same_iff b b')

deriving instance DecidableEq for Program

end ScriptReader
