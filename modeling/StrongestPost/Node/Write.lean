import StrongestPost.Json.Basic
import StrongestPost.Program.Procedure
import StrongestPost.Calculus.Config

/-!
# Writing nodes

The JSON value of a node. Every member is written, the position first, then the
tag, then the parts.
-/

namespace StrongestPost

def Span.toJson (s : Span) : Json :=
  .obj [("line", .int s.line.toNat), ("column", .int s.column.toNat)]

/-- A node of a tree. -/
def nodeJson (span : Span) (key tag : String) (parts : List (String × Json)) : Json :=
  .obj (("span", span.toJson) :: (key, .str tag) :: parts)

def Expr.toJson : Expr → Json
  | var s x => nodeJson s "expr" "var" [("name", .str x)]
  | int s v => nodeJson s "expr" "int" [("value", .int v.toInt)]
  | bool s b => nodeJson s "expr" "bool" [("value", .bool b)]
  | unary s op e => nodeJson s "expr" "unary" [("op", .str op.name), ("operand", e.toJson)]
  | binary s a op b =>
    nodeJson s "expr" "binary" [("lhs", a.toJson), ("op", .str op.name), ("rhs", b.toJson)]

def Term.toJson : Term → Json
  | var s k => nodeJson s "term" "var" [("name", .str k.name), ("state", .str k.moment.name)]
  | lit s v => nodeJson s "term" "int" [("value", .int v.toInt)]
  | neg s t => nodeJson s "term" "neg" [("operand", t.toJson)]
  | arith s t op u =>
    nodeJson s "term" "arith" [("lhs", t.toJson), ("op", .str op.name), ("rhs", u.toJson)]

def Pred.toJson : Pred → Json
  | lit s b => nodeJson s "pred" "bool" [("value", .bool b)]
  | rel s t op u =>
    nodeJson s "pred" "rel" [("lhs", t.toJson), ("op", .str op.name), ("rhs", u.toJson)]
  | neg s p => nodeJson s "pred" "not" [("operand", p.toJson)]
  | conn s p op q =>
    nodeJson s "pred" "binary" [("lhs", p.toJson), ("op", .str op.name), ("rhs", q.toJson)]

def Stmt.toJson : Stmt → Json
  | assign s x e => nodeJson s "stmt" "assign" [("target", .str x), ("value", e.toJson)]
  | seq s a b => nodeJson s "stmt" "seq" [("first", a.toJson), ("second", b.toJson)]
  | skip s => nodeJson s "stmt" "skip" []
  | ite s c a b =>
    nodeJson s "stmt" "if"
      [("condition", c.toJson), ("then_branch", a.toJson), ("else_branch", b.toJson)]
  | block s a => nodeJson s "stmt" "block" [("body", a.toJson)]
  | loop s c i a =>
    nodeJson s "stmt" "loop"
      [("condition", c.toJson), ("invariant", i.elim .null Pred.toJson), ("body", a.toJson)]
  | assert s c => nodeJson s "stmt" "assert" [("condition", c.toJson)]
  | assume s c => nodeJson s "stmt" "assume" [("condition", c.toJson)]
  | call s f es =>
    nodeJson s "stmt" "call" [("callee", .str f), ("args", .arr (es.map Expr.toJson))]
  | localDef s x e =>
    nodeJson s "stmt" "local_def" [("name", .str x), ("init", e.elim .null Expr.toJson)]

def Procedure.toJson (p : Procedure) : Json :=
  .obj [("name", .str p.name), ("span", p.span.toJson), ("pre", p.pre.toJson),
    ("post", p.post.toJson), ("body", p.body.toJson)]

def Program.toJson (g : Program) : Json :=
  .obj [("main", .str g.main), ("procedures", .arr (g.procedures.map Procedure.toJson))]

def Config.toJson (c : Config) : Json :=
  .obj [("unsupported", .str c.unsupported.name), ("conditional", .str c.conditional.name),
    ("fresh_separator", .str c.separator), ("max_depth", .int c.maxDepth.toNat)]

end StrongestPost
