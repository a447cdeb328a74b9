import StrongestPost.Program.Stmt

/-!
# Procedures and programs

A procedure is a statement with a contract. A program is a list of procedures
and the name of the main one; where a name occurs twice, the first counts.
-/

namespace StrongestPost

structure Procedure where
  name : String
  span : Span := .synthesized
  pre : Pred
  post : Pred
  body : Stmt
deriving DecidableEq

structure Program where
  main : String
  procedures : List Procedure
deriving DecidableEq

namespace Procedure

/-- A procedure at the position of its body. -/
def ofContract (name : String) (pre : Pred) (body : Stmt) (post : Pred) : Procedure :=
  { name, span := body.span, pre, post, body }

/-- The names of the body and of the contract. -/
def vars (p : Procedure) : List String :=
  inOrder (p.body.names ++ p.pre.names ++ p.post.names)

end Procedure

namespace Program

/-- The program whose only procedure is its main one. -/
def single (p : Procedure) : Program := { main := p.name, procedures := [p] }

def procedure? (g : Program) (name : String) : Option Procedure :=
  g.procedures.find? fun p => p.name == name

end Program

end StrongestPost
