import ScriptReader.Text.Decimal
import ScriptReader.Tree.Basic

/-! The grammar of the language, with the trees that its phrases stand for.
Operators bind in levels and group to the left; parentheses leave no trace in a
tree. A derivation is a value of its own, which knows how deep the expressions
of its phrase lie within one another. -/

namespace ScriptReader

/-- The levels of expressions, from the loosest operators to what is in one piece. -/
inductive Level where
  | equality
  | relational
  | additive
  | multiplicative
  | unary
  | call
  | primary
deriving DecidableEq, Repr

namespace Level

def next? : Level → Option Level
  | equality => some relational
  | relational => some additive
  | additive => some multiplicative
  | multiplicative => some unary
  | unary => some call
  | call => some primary
  | primary => none

def operators : Level → List TokenKind
  | equality => [.equal, .notEqual]
  | relational => [.lessThan, .greaterThan]
  | additive => [.plus, .minus]
  | multiplicative => [.asterisk, .slash]
  | unary | call | primary => []

end Level

/-- The tokens that go on with an expression, if they can. -/
def TokenKind.Continues (k : TokenKind) : Prop := k = .leftParen ∨ ∃ l : Level, k ∈ l.operators

/-- A text of decimal digits and its value, which has to fit in 63 bits. -/
structure Numeral (text : String) (value : Nat) : Prop where
  ne_nil : text.toList ≠ []
  isDigit : ∀ c ∈ text.toList, c.isDigit
  value_eq : Text.digitsValue text.toList = value
  le : value ≤ 9223372036854775807

inductive ParametersDerivation : List Token → List Identifier → Prop
  | nil : ParametersDerivation [] []
  | one {t : Token} (ht : t.kind = .identifier) : ParametersDerivation [t] [.ofToken t]
  | more {t comma next : Token} {ts : List Token} {ns : List Identifier}
      (ht : t.kind = .identifier) (hc : comma.kind = .comma)
      (h : ParametersDerivation (next :: ts) ns) :
      ParametersDerivation (t :: comma :: next :: ts) (.ofToken t :: ns)

inductive Terminator : List Token → Prop
  | none : Terminator []
  | semicolon {t : Token} (ht : t.kind = .semicolon) : Terminator [t]

mutual

inductive ExprDerivation : Level → List Token → Expr → Type
  | tighter {l l' : Level} {ts : List Token} {e : Expr} (hl : l.next? = some l')
      (d : ExprDerivation l' ts e) : ExprDerivation l ts e
  | binary {l l' : Level} {op : Token} {ls rs : List Token} {left right : Expr}
      (hl : l.next? = some l') (ho : op.kind ∈ l.operators) (dl : ExprDerivation l ls left)
      (dr : ExprDerivation l' rs right) :
      ExprDerivation l (ls ++ op :: rs) (.binary op left op.text right)
  | unary {op : Token} {ts : List Token} {right : Expr} (ho : op.kind ∈ [.bang, .minus])
      (d : ExprDerivation .unary ts right) :
      ExprDerivation .unary (op :: ts) (.unary op op.text right)
  | call {opening closing : Token} {fs : List Token} {callee : Expr}
      (ho : opening.kind = .leftParen) (hc : closing.kind = .rightParen)
      (d : ExprDerivation .call fs callee) :
      ExprDerivation .call (fs ++ [opening, closing]) (.call opening callee [])
  | callWith {opening closing : Token} {fs ts : List Token} {callee : Expr} {args : List Expr}
      (ho : opening.kind = .leftParen) (hc : closing.kind = .rightParen)
      (d : ExprDerivation .call fs callee) (as : ArgumentsDerivation ts args) :
      ExprDerivation .call (fs ++ opening :: (ts ++ [closing])) (.call opening callee args)
  | identifier {t : Token} (ht : t.kind = .identifier) :
      ExprDerivation .primary [t] (.identifier (.ofToken t))
  | integer {t : Token} {value : Nat} (ht : t.kind = .integer) (hv : Numeral t.text value) :
      ExprDerivation .primary [t] (.integer t value)
  | yes {t : Token} (ht : t.kind = .trueWord) : ExprDerivation .primary [t] (.boolean t true)
  | no {t : Token} (ht : t.kind = .falseWord) : ExprDerivation .primary [t] (.boolean t false)
  | grouping {opening closing : Token} {ts : List Token} {e : Expr}
      (ho : opening.kind = .leftParen) (hc : closing.kind = .rightParen)
      (d : ExprDerivation .equality ts e) :
      ExprDerivation .primary (opening :: (ts ++ [closing])) e
  | conditional {word opening closing : Token} {cs bs : List Token} {condition : Expr}
      {consequence : Block} (hw : word.kind = .ifWord) (ho : opening.kind = .leftParen)
      (hc : closing.kind = .rightParen) (dc : ExprDerivation .equality cs condition)
      (db : BlockDerivation bs consequence) :
      ExprDerivation .primary (word :: opening :: (cs ++ closing :: bs))
        (.conditional word condition consequence none)
  | conditionalElse {word opening closing other : Token} {cs bs as : List Token} {condition : Expr}
      {consequence alternative : Block} (hw : word.kind = .ifWord) (ho : opening.kind = .leftParen)
      (hc : closing.kind = .rightParen) (he : other.kind = .elseWord)
      (dc : ExprDerivation .equality cs condition) (db : BlockDerivation bs consequence)
      (da : BlockDerivation as alternative) :
      ExprDerivation .primary (word :: opening :: (cs ++ closing :: (bs ++ other :: as)))
        (.conditional word condition consequence (some alternative))
  | function {word opening closing : Token} {ps bs : List Token} {parameters : List Identifier}
      {body : Block} (hw : word.kind = .fnWord) (ho : opening.kind = .leftParen)
      (hc : closing.kind = .rightParen) (hp : ParametersDerivation ps parameters)
      (db : BlockDerivation bs body) :
      ExprDerivation .primary (word :: opening :: (ps ++ closing :: bs))
        (.function word parameters body)

inductive ArgumentsDerivation : List Token → List Expr → Type
  | one {ts : List Token} {e : Expr} (d : ExprDerivation .equality ts e) :
      ArgumentsDerivation ts [e]
  | more {comma : Token} {ts us : List Token} {e : Expr} {es : List Expr}
      (hc : comma.kind = .comma) (d : ExprDerivation .equality ts e)
      (as : ArgumentsDerivation us es) : ArgumentsDerivation (ts ++ comma :: us) (e :: es)

inductive StmtDerivation : List Token → Stmt → Type
  | define {word name assign : Token} {ts ends : List Token} {value : Expr}
      (hw : word.kind = .letWord) (hn : name.kind = .identifier) (ha : assign.kind = .assign)
      (d : ExprDerivation .equality ts value) (he : Terminator ends) :
      StmtDerivation (word :: name :: assign :: (ts ++ ends)) (.define word (.ofToken name) value)
  | returning {word : Token} {ts ends : List Token} {value : Expr} (hw : word.kind = .returnWord)
      (d : ExprDerivation .equality ts value) (he : Terminator ends) :
      StmtDerivation (word :: (ts ++ ends)) (.returning word value)
  | expression {first : Token} {ts ends : List Token} {e : Expr}
      (d : ExprDerivation .equality (first :: ts) e) (he : Terminator ends) :
      StmtDerivation (first :: (ts ++ ends)) (.expression first e)

inductive StmtsDerivation : List Token → List Stmt → Type
  | nil : StmtsDerivation [] []
  | cons {ts us : List Token} {s : Stmt} {ss : List Stmt} (d : StmtDerivation ts s)
      (ds : StmtsDerivation us ss) : StmtsDerivation (ts ++ us) (s :: ss)

inductive BlockDerivation : List Token → Block → Type
  | braces {opening closing : Token} {ts : List Token} {ss : List Stmt}
      (ho : opening.kind = .leftBrace) (hc : closing.kind = .rightBrace)
      (ds : StmtsDerivation ts ss) :
      BlockDerivation (opening :: (ts ++ [closing])) ⟨opening, ss⟩

end

/-! How deep expressions lie within one another as they are written. An operand
on the left of an operator, and what is called, lie no deeper than the whole. -/

mutual

def ExprDerivation.depth {l : Level} {ts : List Token} {e : Expr} : ExprDerivation l ts e → Nat
  | .tighter _ d => d.depth
  | .binary _ _ dl dr => max dl.depth (1 + dr.depth)
  | .unary _ d => 1 + d.depth
  | .call _ _ d => d.depth
  | .callWith _ _ d as => max d.depth (1 + as.depth)
  | .identifier _ | .integer _ _ | .yes _ | .no _ => 1
  | .grouping _ _ d => 1 + d.depth
  | .conditional _ _ _ dc db => 1 + max dc.depth db.depth
  | .conditionalElse _ _ _ _ dc db da => 1 + max dc.depth (max db.depth da.depth)
  | .function _ _ _ _ db => 1 + db.depth

def ArgumentsDerivation.depth {ts : List Token} {es : List Expr} : ArgumentsDerivation ts es → Nat
  | .one d => d.depth
  | .more _ d as => max d.depth as.depth

def StmtDerivation.depth {ts : List Token} {s : Stmt} : StmtDerivation ts s → Nat
  | .define _ _ _ d _ | .returning _ d _ | .expression d _ => d.depth

def StmtsDerivation.depth {ts : List Token} {ss : List Stmt} : StmtsDerivation ts ss → Nat
  | .nil => 0
  | .cons d ds => max d.depth ds.depth

def BlockDerivation.depth {ts : List Token} {b : Block} : BlockDerivation ts b → Nat
  | .braces _ _ ds => ds.depth

end

/-- What is written behind some statement does not go on with its last expression: the statement
ends with a semicolon, or another token follows than those that go on with expressions. -/
def Apart (ts us : List Token) : Prop :=
  (∃ t, ts.getLast? = some t ∧ t.kind = .semicolon) ∨ ∀ t, us.head? = some t → ¬t.kind.Continues

/-! Statements within blocks are apart from what follows them. -/

mutual

def ExprDerivation.Separated {l : Level} {ts : List Token} {e : Expr} :
    ExprDerivation l ts e → Prop
  | .tighter _ d => d.Separated
  | .binary _ _ dl dr => dl.Separated ∧ dr.Separated
  | .unary _ d => d.Separated
  | .call _ _ d => d.Separated
  | .callWith _ _ d as => d.Separated ∧ as.Separated
  | .identifier _ | .integer _ _ | .yes _ | .no _ => True
  | .grouping _ _ d => d.Separated
  | .conditional _ _ _ dc db => dc.Separated ∧ db.Separated
  | .conditionalElse _ _ _ _ dc db da => dc.Separated ∧ db.Separated ∧ da.Separated
  | .function _ _ _ _ db => db.Separated

def ArgumentsDerivation.Separated {ts : List Token} {es : List Expr} :
    ArgumentsDerivation ts es → Prop
  | .one d => d.Separated
  | .more _ d as => d.Separated ∧ as.Separated

def StmtDerivation.Separated {ts : List Token} {s : Stmt} : StmtDerivation ts s → Prop
  | .define _ _ _ d _ | .returning _ d _ | .expression d _ => d.Separated

def StmtsDerivation.Separated {ts : List Token} {ss : List Stmt} : StmtsDerivation ts ss → Prop
  | .nil => True
  | @StmtsDerivation.cons ts us _ _ d ds => d.Separated ∧ ds.Separated ∧ Apart ts us

def BlockDerivation.Separated {ts : List Token} {b : Block} : BlockDerivation ts b → Prop
  | .braces _ _ ds => ds.Separated

end

end ScriptReader
