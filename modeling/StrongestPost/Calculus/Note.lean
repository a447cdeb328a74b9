import StrongestPost.Program.Stmt
import StrongestPost.Logic.OfExpr

/-!
# Notes

The transformer keeps one record of what it does, in order. The obligations it
raises, the statements it passed through, the names it took and the expressions
it read are all found there.
-/

namespace StrongestPost

/-- Why an obligation was raised. -/
inductive Concern where
  | assertion
  | invariantOnEntry
  | invariantKept
  | postcondition
deriving DecidableEq

def Concern.text : Concern → String
  | assertion => "assertion might not hold"
  | invariantOnEntry => "loop invariant might not hold on entry"
  | invariantKept => "loop invariant might not be maintained"
  | postcondition => "postcondition might not hold"

/-- A predicate that must be valid, and the position to blame if it is not. -/
structure Obligation where
  pred : Pred
  span : Span
  concern : Concern
deriving DecidableEq

/-- A statement that was passed through without a rule. -/
structure Site where
  kind : Stmt.Kind
  span : Span
deriving DecidableEq

inductive Note where
  /-- The rule for a statement is applied. -/
  | rule (kind : Stmt.Kind) (span : Span)
  /-- An expression is read as a term or as a predicate. -/
  | read (sort : ValueSort) (expr : Expr)
  /-- A name was handed out, one that does not occur in the predicate at hand. -/
  | allocated (base name : String) (avoid : Pred)
  /-- An obligation was raised. -/
  | raised (obligation : Obligation)
  /-- A statement without a rule was passed through. -/
  | passed (site : Site)
  /-- The obligations of a procedure are complete: so many on the side, and so many sites. -/
  | generated (procedure : String) (side sites : Nat)
deriving DecidableEq

namespace Note

def obligation? : Note → Option Obligation
  | raised o => some o
  | _ => none

def site? : Note → Option Site
  | passed s => some s
  | _ => none

def name? : Note → Option String
  | allocated _ x _ => some x
  | _ => none

/-- The expression that was read, behind the sort it was read at. -/
def reading? : Note → Option String
  | read .integer e => some ("term " ++ e.text)
  | read .boolean e => some ("pred " ++ e.text)
  | _ => none

end Note

end StrongestPost
