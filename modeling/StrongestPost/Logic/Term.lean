import StrongestPost.Span
import StrongestPost.Operator
import StrongestPost.Logic.Key

/-!
# Terms

Integer terms over keys. Every node carries a span. The keys of a term are
listed from left to right, with repetitions; the sets shown to a reader are made
from that list.
-/

namespace StrongestPost

inductive Term where
  | var (span : Span) (key : Key)
  | lit (span : Span) (value : Int64)
  | neg (span : Span) (operand : Term)
  | arith (span : Span) (lhs : Term) (op : ArithOp) (rhs : Term)
deriving DecidableEq

namespace Term

def span : Term → Span
  | var s _ | lit s _ | neg s _ | arith s _ _ _ => s

/-- The same term at another position. Its operands stay where they are. -/
def atSpan (s : Span) : Term → Term
  | var _ k => var s k
  | lit _ v => lit s v
  | neg _ t => neg s t
  | arith _ t op u => arith s t op u

/-! ## Making terms -/

def ofKey (k : Key) : Term := var .synthesized k

/-- The current value of `x`. -/
def now (x : String) : Term := ofKey ⟨x, .current⟩

/-- The value of `x` at entry. -/
def old (x : String) : Term := ofKey ⟨x, .before⟩

def ofInt64 (v : Int64) : Term := lit .synthesized v

def negate (t : Term) : Term := neg t.span t

def text : Term → String
  | var _ k => k.text
  | lit _ v => toString v.toInt
  | neg _ t => "-" ++ t.text
  | arith _ t op u => "(" ++ t.text ++ " " ++ op.text ++ " " ++ u.text ++ ")"

/-! ## Keys -/

/-- The keys of a term in front of `rest`. -/
def keysOnto : Term → List Key → List Key
  | var _ k, rest => k :: rest
  | lit _ _, rest => rest
  | neg _ t, rest => t.keysOnto rest
  | arith _ t _ u, rest => t.keysOnto (u.keysOnto rest)

def keys (t : Term) : List Key := t.keysOnto []

def freeKeys (t : Term) : List Key := inOrder t.keys

def freeNames (t : Term) : List String := inOrder (t.keys.map Key.name)

theorem keysOnto_eq (t : Term) (rest : List Key) : t.keysOnto rest = t.keys ++ rest := by
  unfold keys
  induction t generalizing rest with
  | var | lit => simp [keysOnto]
  | neg s t ih => simp only [keysOnto, ih rest]
  | arith s t op u iht ihu =>
    simp only [keysOnto]
    rw [ihu rest, iht (u.keysOnto [] ++ rest), iht (u.keysOnto []), List.append_assoc]

@[simp] theorem keys_var (s : Span) (k : Key) : (var s k).keys = [k] := rfl

@[simp] theorem keys_lit (s : Span) (v : Int64) : (lit s v).keys = [] := rfl

@[simp] theorem keys_neg (s : Span) (t : Term) : (neg s t).keys = t.keys := rfl

@[simp] theorem keys_arith (s : Span) (t : Term) (op : ArithOp) (u : Term) :
    (arith s t op u).keys = t.keys ++ u.keys :=
  t.keysOnto_eq u.keys

end Term

/-- Applies an operator at the position of its left operand. -/
def ArithOp.apply (op : ArithOp) (t u : Term) : Term := .arith t.span t op u

end StrongestPost
