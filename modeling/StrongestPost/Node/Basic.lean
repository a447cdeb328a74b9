import StrongestPost.Node.Read
import StrongestPost.Node.Write

/-!
# Nodes of any type

What can be read from a text and written to one.

A text is read as a whole before any node is. So a member that nobody asks for does not
matter only as long as it can be read: one that nests too deep, or holds a number that no
double comes close to or half of a surrogate pair, makes the text unreadable. This goes for
every kind of node. A reader that skips such members unread in positions, procedures, programs
and configurations takes some texts that are refused here.
-/

namespace StrongestPost

inductive Node where
  | span (value : Span)
  | expr (value : Expr)
  | stmt (value : Stmt)
  | term (value : Term)
  | pred (value : Pred)
  | procedure (value : Procedure)
  | program (value : Program)
  | config (value : Config)
deriving DecidableEq

namespace Node

inductive Kind where
  | span | expr | stmt | term | pred | procedure | program | config
deriving DecidableEq

def Kind.name : Kind → String
  | span => "span"
  | expr => "expr"
  | stmt => "stmt"
  | term => "term"
  | pred => "pred"
  | procedure => "procedure"
  | program => "program"
  | config => "config"

def Kind.family : Family Kind := { all := [span, expr, stmt, term, pred, procedure, program, config], name }

def kind : Node → Kind
  | span _ => .span
  | expr _ => .expr
  | stmt _ => .stmt
  | term _ => .term
  | pred _ => .pred
  | procedure _ => .procedure
  | program _ => .program
  | config _ => .config

def read? (k : Kind) (j : Json) : Option Node :=
  match k with
  | .span => (Span.read? j).map span
  | .expr => (Expr.read? Json.maxNesting j).map expr
  | .stmt => (Stmt.read? Json.maxNesting j).map stmt
  | .term => (Term.read? Json.maxNesting j).map term
  | .pred => (Pred.read? Json.maxNesting j).map pred
  | .procedure => (Procedure.read? Json.maxNesting j).map procedure
  | .program => (Program.read? Json.maxNesting j).map program
  | .config => (Config.read? j).map config

/-- The node of a kind that is written in a text. -/
def ofText? (k : Kind) (s : String) : Option Node := (Json.parse? s).bind (read? k)

def toJson : Node → Json
  | span s => s.toJson
  | expr e => e.toJson
  | stmt a => a.toJson
  | term t => t.toJson
  | pred p => p.toJson
  | procedure p => p.toJson
  | program g => g.toJson
  | config c => c.toJson

/-- How a node is shown. Procedures, programs and configurations are only written. -/
def display? : Node → Option String
  | span s => some s.text
  | expr e => some e.text
  | stmt a => some a.text
  | term t => some t.text
  | pred p => some p.text
  | procedure _ | program _ | config _ => none

end Node

end StrongestPost
