import StrongestPost.Family

/-!
# Operators

The operators of terms, of predicates and of program expressions. A program has
one family of binary operators: the arithmetic ones, the comparisons and two
connectives. Implication exists in the logic only.
-/

namespace StrongestPost

inductive ArithOp where
  | add | sub | mul | div | mod
deriving DecidableEq

inductive RelOp where
  | eq | ne | lt | le | gt | ge
deriving DecidableEq

inductive Connective where
  | and | or | implies
deriving DecidableEq

inductive UnOp where
  | neg | not
deriving DecidableEq

inductive BinOp where
  | arith (op : ArithOp)
  | rel (op : RelOp)
  | and
  | or
deriving DecidableEq

/-! ## How operators are written in formulas -/

def ArithOp.text : ArithOp → String
  | add => "+"
  | sub => "-"
  | mul => "*"
  | div => "/"
  | mod => "%"

def RelOp.text : RelOp → String
  | eq => "=="
  | ne => "!="
  | lt => "<"
  | le => "<="
  | gt => ">"
  | ge => ">="

def Connective.text : Connective → String
  | and => "&&"
  | or => "||"
  | implies => "==>"

def UnOp.text : UnOp → String
  | neg => "-"
  | not => "!"

def BinOp.text : BinOp → String
  | arith op => op.text
  | rel op => op.text
  | and => "&&"
  | or => "||"

/-! ## Names -/

def ArithOp.name : ArithOp → String
  | add => "add"
  | sub => "sub"
  | mul => "mul"
  | div => "div"
  | mod => "mod"

def ArithOp.family : Family ArithOp := { all := [add, sub, mul, div, mod], name }

def RelOp.name : RelOp → String
  | eq => "eq"
  | ne => "ne"
  | lt => "lt"
  | le => "le"
  | gt => "gt"
  | ge => "ge"

def RelOp.family : Family RelOp := { all := [eq, ne, lt, le, gt, ge], name }

def Connective.name : Connective → String
  | and => "and"
  | or => "or"
  | implies => "implies"

def Connective.family : Family Connective := { all := [and, or, implies], name }

def UnOp.name : UnOp → String
  | neg => "neg"
  | not => "not"

def UnOp.family : Family UnOp := { all := [neg, not], name }

def BinOp.name : BinOp → String
  | arith op => op.name
  | rel op => op.name
  | and => "and"
  | or => "or"

def BinOp.family : Family BinOp where
  all := ArithOp.family.all.map arith ++ RelOp.family.all.map rel ++ [and, or]
  name
  mem_all op := by cases op <;> simp

end StrongestPost
