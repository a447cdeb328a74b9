import StrongestPost.Span
import StrongestPost.Operator

/-!
# Expressions

The expressions of a program. They are not sorted: one type holds integer and
boolean expressions, and ill-sorted ones too.
-/

namespace StrongestPost

inductive Expr where
  | var (span : Span) (name : String)
  | int (span : Span) (value : Int64)
  | bool (span : Span) (value : Bool)
  | unary (span : Span) (op : UnOp) (operand : Expr)
  | binary (span : Span) (lhs : Expr) (op : BinOp) (rhs : Expr)
deriving DecidableEq

namespace Expr

def span : Expr → Span
  | var s _ | int s _ | bool s _ | unary s _ _ | binary s _ _ _ => s

/-- The same expression at another position. Its operands stay where they are. -/
def atSpan (s : Span) : Expr → Expr
  | var _ x => var s x
  | int _ v => int s v
  | bool _ b => bool s b
  | unary _ op e => unary s op e
  | binary _ a op b => binary s a op b

def ofName (x : String) : Expr := var .synthesized x

def ofInt64 (v : Int64) : Expr := int .synthesized v

def ofBool (b : Bool) : Expr := bool .synthesized b

def text : Expr → String
  | var _ x => x
  | int _ v => toString v.toInt
  | bool _ b => toString b
  | unary _ op e => op.text ++ e.text
  | binary _ a op b => "(" ++ a.text ++ " " ++ op.text ++ " " ++ b.text ++ ")"

/-- The variables that occur, from left to right. -/
def names : Expr → List String
  | var _ x => [x]
  | int _ _ | bool _ _ => []
  | unary _ _ e => e.names
  | binary _ a _ b => a.names ++ b.names

end Expr

/-- Applies an operator at the position of its operand. -/
def UnOp.apply (op : UnOp) (e : Expr) : Expr := .unary e.span op e

/-- Applies an operator at the position of its left operand. -/
def BinOp.apply (op : BinOp) (a b : Expr) : Expr := .binary a.span a op b

end StrongestPost
