import StrongestPost.Logic.Pred
import StrongestPost.Logic.Valuation

/-!
# Evaluation

The value of a term and the truth of a predicate under a valuation, in 64-bit
integers. An operation whose exact result does not fit is an error, and so are a
division by zero and an unbound key. Division is Euclidean: the remainder is
never negative. Operands are evaluated from left to right, and a connective that
its left side decides does not look at its right side.
-/

namespace StrongestPost

inductive EvalError where
  | divisionByZero
  | overflow
  | unbound (name : String)
deriving DecidableEq

def EvalError.message : EvalError → String
  | divisionByZero => "division by zero"
  | overflow => "integer overflow"
  | unbound x => "unbound variable `" ++ x ++ "`"

/-- The 64-bit integer with this value, if there is one. -/
def exact (v : Int) : Except EvalError Int64 :=
  if (Int64.ofInt v).toInt = v then .ok (Int64.ofInt v) else .error .overflow

def ArithOp.eval (op : ArithOp) (a b : Int64) : Except EvalError Int64 :=
  match op with
  | add => exact (a.toInt + b.toInt)
  | sub => exact (a.toInt - b.toInt)
  | mul => exact (a.toInt * b.toInt)
  | div => if b = 0 then .error .divisionByZero else exact (a.toInt / b.toInt)
  | mod =>
    if b = 0 then .error .divisionByZero
    -- the quotient that goes with this remainder does not fit
    else if a = Int64.minValue ∧ b = -1 then .error .overflow
    else exact (a.toInt % b.toInt)

def RelOp.eval (op : RelOp) (a b : Int64) : Bool :=
  match op with
  | eq => a = b
  | ne => a ≠ b
  | lt => a < b
  | le => a ≤ b
  | gt => b < a
  | ge => b ≤ a

def Term.eval (env : Valuation) : Term → Except EvalError Int64
  | var _ k =>
    match env.get? k with
    | some v => .ok v
    | none => .error (.unbound k.name)
  | lit _ v => .ok v
  | neg _ t => do
    let v ← t.eval env
    exact (-v.toInt)
  | arith _ t op u => do
    let a ← t.eval env
    let b ← u.eval env
    op.eval a b

/-- The answer that the left side of a connective settles on its own. -/
def Connective.settled? : Connective → Bool → Option Bool
  | and, false => some false
  | or, true => some true
  | implies, false => some true
  | _, _ => none

def Pred.eval (env : Valuation) : Pred → Except EvalError Bool
  | lit _ b => .ok b
  | rel _ t op u => do
    let a ← t.eval env
    let b ← u.eval env
    return op.eval a b
  | neg _ p => do
    let b ← p.eval env
    return !b
  | conn _ p op q => do
    let b ← p.eval env
    match op.settled? b with
    | some r => return r
    | none => q.eval env

end StrongestPost
