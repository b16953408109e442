import ScriptReader.Tree.Basic

/-! Trees with other tokens in the same places. -/

namespace ScriptReader

def Identifier.mapTokens (f : Token → Token) (i : Identifier) : Identifier := ⟨f i.token, i.value⟩

mutual

def Expr.mapTokens (f : Token → Token) : Expr → Expr
  | .identifier name => .identifier (name.mapTokens f)
  | .integer token value => .integer (f token) value
  | .boolean token value => .boolean (f token) value
  | .unary token operator right => .unary (f token) operator (right.mapTokens f)
  | .binary token left operator right =>
    .binary (f token) (left.mapTokens f) operator (right.mapTokens f)
  | .conditional token condition consequence alternative =>
    .conditional (f token) (condition.mapTokens f) (consequence.mapTokens f)
      (mapAlternative f alternative)
  | .function token parameters body =>
    .function (f token) (parameters.map (Identifier.mapTokens f)) (body.mapTokens f)
  | .call token callee arguments =>
    .call (f token) (callee.mapTokens f) (mapArguments f arguments)

def Stmt.mapTokens (f : Token → Token) : Stmt → Stmt
  | .define token name value => .define (f token) (name.mapTokens f) (value.mapTokens f)
  | .returning token value => .returning (f token) (value.mapTokens f)
  | .expression token expression => .expression (f token) (expression.mapTokens f)

def Block.mapTokens (f : Token → Token) : Block → Block
  | ⟨token, statements⟩ => ⟨f token, mapStatements f statements⟩

def mapArguments (f : Token → Token) : List Expr → List Expr
  | [] => []
  | e :: es => e.mapTokens f :: mapArguments f es

def mapStatements (f : Token → Token) : List Stmt → List Stmt
  | [] => []
  | s :: ss => s.mapTokens f :: mapStatements f ss

def mapAlternative (f : Token → Token) : Option Block → Option Block
  | none => none
  | some b => some (b.mapTokens f)

end

theorem mapArguments_eq_map (f : Token → Token) (es : List Expr) :
    mapArguments f es = es.map (Expr.mapTokens f) := by
  induction es with
  | nil => rfl
  | cons e es ih => rw [mapArguments, ih, List.map_cons]

theorem mapStatements_eq_map (f : Token → Token) (ss : List Stmt) :
    mapStatements f ss = ss.map (Stmt.mapTokens f) := by
  induction ss with
  | nil => rfl
  | cons s ss ih => rw [mapStatements, ih, List.map_cons]

def Program.mapTokens (f : Token → Token) (p : Program) : Program :=
  ⟨p.statements.map (Stmt.mapTokens f)⟩

/-- The same token in place of all. -/
def Token.blank (_ : Token) : Token := .ofEnd .null

/-- A tree without its tokens: what is left are the nodes, names, values and operators. -/
def Program.bare (p : Program) : Program := p.mapTokens Token.blank

theorem Identifier.mapTokens_id (i : Identifier) : i.mapTokens id = i := rfl

mutual

theorem Expr.mapTokens_id : ∀ e : Expr, e.mapTokens id = e
  | .identifier _ | .integer _ _ | .boolean _ _ => rfl
  | .unary t o right => congrArg (Expr.unary t o) right.mapTokens_id
  | .binary t left o right => by
    rw [Expr.mapTokens, left.mapTokens_id, right.mapTokens_id, id]
  | .conditional t c b a => by
    rw [Expr.mapTokens, c.mapTokens_id, b.mapTokens_id, mapAlternative_id a, id]
  | .function t ps b => by
    have hp : ps.map (Identifier.mapTokens id) = ps := List.map_id ps
    rw [Expr.mapTokens, hp, b.mapTokens_id, id]
  | .call t f as => by rw [Expr.mapTokens, f.mapTokens_id, mapArguments_id as, id]

theorem Stmt.mapTokens_id : ∀ s : Stmt, s.mapTokens id = s
  | .define t name value => congrArg (Stmt.define t name) value.mapTokens_id
  | .returning t value => congrArg (Stmt.returning t) value.mapTokens_id
  | .expression t e => congrArg (Stmt.expression t) e.mapTokens_id

theorem Block.mapTokens_id : ∀ b : Block, b.mapTokens id = b
  | ⟨t, ss⟩ => congrArg (Block.mk t) (mapStatements_id ss)

theorem mapArguments_id : ∀ es : List Expr, mapArguments id es = es
  | [] => rfl
  | e :: es => by rw [mapArguments, e.mapTokens_id, mapArguments_id es]

theorem mapStatements_id : ∀ ss : List Stmt, mapStatements id ss = ss
  | [] => rfl
  | s :: ss => by rw [mapStatements, s.mapTokens_id, mapStatements_id ss]

theorem mapAlternative_id : ∀ b : Option Block, mapAlternative id b = b
  | none => rfl
  | some b => congrArg some b.mapTokens_id

end

mutual

theorem Expr.mapTokens_mapTokens (g f : Token → Token) :
    ∀ e : Expr, (e.mapTokens f).mapTokens g = e.mapTokens (g ∘ f)
  | .identifier _ | .integer _ _ | .boolean _ _ => rfl
  | .unary t o right => congrArg (Expr.unary (g (f t)) o) (right.mapTokens_mapTokens g f)
  | .binary t left o right => by
    simp only [Expr.mapTokens, left.mapTokens_mapTokens g f, right.mapTokens_mapTokens g f,
      Function.comp_apply]
  | .conditional t c b a => by
    simp only [Expr.mapTokens, c.mapTokens_mapTokens g f, b.mapTokens_mapTokens g f,
      mapAlternative_mapAlternative g f a, Function.comp_apply]
  | .function t ps b => by
    simp only [Expr.mapTokens, b.mapTokens_mapTokens g f, List.map_map, Function.comp_apply]
    rfl
  | .call t e as => by
    simp only [Expr.mapTokens, e.mapTokens_mapTokens g f, mapArguments_mapArguments g f as,
      Function.comp_apply]

theorem Stmt.mapTokens_mapTokens (g f : Token → Token) :
    ∀ s : Stmt, (s.mapTokens f).mapTokens g = s.mapTokens (g ∘ f)
  | .define t name value =>
    congrArg (Stmt.define (g (f t)) ((name.mapTokens f).mapTokens g))
      (value.mapTokens_mapTokens g f)
  | .returning t value => congrArg (Stmt.returning (g (f t))) (value.mapTokens_mapTokens g f)
  | .expression t e => congrArg (Stmt.expression (g (f t))) (e.mapTokens_mapTokens g f)

theorem Block.mapTokens_mapTokens (g f : Token → Token) :
    ∀ b : Block, (b.mapTokens f).mapTokens g = b.mapTokens (g ∘ f)
  | ⟨t, ss⟩ => congrArg (Block.mk (g (f t))) (mapStatements_mapStatements g f ss)

theorem mapArguments_mapArguments (g f : Token → Token) :
    ∀ es : List Expr, mapArguments g (mapArguments f es) = mapArguments (g ∘ f) es
  | [] => rfl
  | e :: es => by
    simp only [mapArguments, e.mapTokens_mapTokens g f, mapArguments_mapArguments g f es]

theorem mapStatements_mapStatements (g f : Token → Token) :
    ∀ ss : List Stmt, mapStatements g (mapStatements f ss) = mapStatements (g ∘ f) ss
  | [] => rfl
  | s :: ss => by
    simp only [mapStatements, s.mapTokens_mapTokens g f, mapStatements_mapStatements g f ss]

theorem mapAlternative_mapAlternative (g f : Token → Token) :
    ∀ b : Option Block, mapAlternative g (mapAlternative f b) = mapAlternative (g ∘ f) b
  | none => rfl
  | some b => congrArg some (b.mapTokens_mapTokens g f)

end

theorem Program.mapTokens_mapTokens (g f : Token → Token) (p : Program) :
    (p.mapTokens f).mapTokens g = p.mapTokens (g ∘ f) := by
  simp only [Program.mapTokens, List.map_map, Function.comp_def, Stmt.mapTokens_mapTokens]

end ScriptReader
