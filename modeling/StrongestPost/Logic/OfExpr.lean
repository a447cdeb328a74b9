import StrongestPost.Program.Expr
import StrongestPost.Logic.Pred

/-!
# Terms and predicates of expressions

Program variables are integers. Integer expressions are read as terms and boolean
ones as predicates, each node at the position of its expression; every reference
is to the current value. An expression of the other sort is refused: its own
operator is looked at first, then its operands from left to right.
-/

namespace StrongestPost

inductive ValueSort where
  | integer
  | boolean
deriving DecidableEq

/-- An expression where one of another sort was expected. -/
structure Mismatch where
  expr : Expr
  expected : ValueSort
deriving DecidableEq

def Term.ofExpr : Expr → Except Mismatch Term
  | .var s x => .ok (.var s ⟨x, .current⟩)
  | .int s v => .ok (.lit s v)
  | .unary s .neg e => do return .neg s (← ofExpr e)
  | .binary s a (.arith op) b => do
    let t ← ofExpr a
    let u ← ofExpr b
    return .arith s t op u
  | .binary s a (.rel op) b => .error ⟨.binary s a (.rel op) b, .integer⟩
  | .binary s a .and b => .error ⟨.binary s a .and b, .integer⟩
  | .binary s a .or b => .error ⟨.binary s a .or b, .integer⟩
  | .bool s v => .error ⟨.bool s v, .integer⟩
  | .unary s .not e => .error ⟨.unary s .not e, .integer⟩

def Pred.ofExpr : Expr → Except Mismatch Pred
  | .bool s v => .ok (.lit s v)
  | .unary s .not e => do return .neg s (← ofExpr e)
  | .binary s a (.rel op) b => do
    let t ← Term.ofExpr a
    let u ← Term.ofExpr b
    return .rel s t op u
  | .binary s a .and b => do
    let p ← ofExpr a
    let q ← ofExpr b
    return .conn s p .and q
  | .binary s a .or b => do
    let p ← ofExpr a
    let q ← ofExpr b
    return .conn s p .or q
  | .binary s a (.arith op) b => .error ⟨.binary s a (.arith op) b, .boolean⟩
  | .var s x => .error ⟨.var s x, .boolean⟩
  | .int s v => .error ⟨.int s v, .boolean⟩
  | .unary s .neg e => .error ⟨.unary s .neg e, .boolean⟩

end StrongestPost
