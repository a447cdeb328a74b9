import StrongestPost.Program.Expr
import StrongestPost.Logic.Pred

/-!
# Statements

The statements of a program. A loop may carry an invariant; a call names a
procedure and nothing says what it does.
-/

namespace StrongestPost

inductive Stmt where
  | assign (span : Span) (target : String) (value : Expr)
  | seq (span : Span) (first second : Stmt)
  | skip (span : Span)
  | ite (span : Span) (condition : Expr) (thenBranch elseBranch : Stmt)
  | block (span : Span) (body : Stmt)
  | loop (span : Span) (condition : Expr) (invariant : Option Pred) (body : Stmt)
  | assert (span : Span) (condition : Expr)
  | assume (span : Span) (condition : Expr)
  | call (span : Span) (callee : String) (args : List Expr)
  | localDef (span : Span) (name : String) (init : Option Expr)
deriving DecidableEq

/-- The sorts of statements, as diagnostics name them. -/
inductive Stmt.Kind where
  | assignment | sequence | skip | conditional | block | loop | assert | assume | call | localDefinition
deriving DecidableEq

def Stmt.Kind.text : Stmt.Kind → String
  | assignment => "assignment"
  | sequence => "sequence"
  | skip => "skip"
  | conditional => "conditional"
  | block => "block"
  | loop => "loop"
  | assert => "assert"
  | assume => "assume"
  | call => "call"
  | localDefinition => "local definition"

namespace Stmt

def kind : Stmt → Kind
  | assign .. => .assignment
  | seq .. => .sequence
  | skip .. => .skip
  | ite .. => .conditional
  | block .. => .block
  | loop .. => .loop
  | assert .. => .assert
  | assume .. => .assume
  | call .. => .call
  | localDef .. => .localDefinition

def span : Stmt → Span
  | assign s _ _ | seq s _ _ | skip s | ite s _ _ _ | block s _ | loop s _ _ _
  | assert s _ | assume s _ | call s _ _ | localDef s _ _ => s

/-- The same statement at another position. Its parts stay where they are. -/
def atSpan (s : Span) : Stmt → Stmt
  | assign _ x e => assign s x e
  | seq _ a b => seq s a b
  | skip _ => skip s
  | ite _ c a b => ite s c a b
  | block _ a => block s a
  | loop _ c i a => loop s c i a
  | assert _ c => assert s c
  | assume _ c => assume s c
  | call _ f es => call s f es
  | localDef _ x e => localDef s x e

/-! ## Making statements

A compound statement stands where its first part stands. -/

def nop : Stmt := skip .synthesized

def set (x : String) (e : Expr) : Stmt := assign .synthesized x e

def andThen (a b : Stmt) : Stmt := seq a.span a b

/-- A sequence nested to the right; the empty one does nothing. -/
def chain : List Stmt → Stmt
  | [] => nop
  | [a] => a
  | a :: b :: l => a.andThen (chain (b :: l))

def branch (c : Expr) (a b : Stmt) : Stmt := ite c.span c a b

def when (c : Expr) (a : Stmt) : Stmt := branch c a nop

def enclose (a : Stmt) : Stmt := block a.span a

def whileDo (c : Expr) (invariant : Option Pred) (body : Stmt) : Stmt := loop c.span c invariant body

def ensure (c : Expr) : Stmt := assert c.span c

def require (c : Expr) : Stmt := assume c.span c

def invoke (f : String) (args : List Expr) : Stmt := call .synthesized f args

def declare (x : String) (init : Option Expr) : Stmt := localDef .synthesized x init

/-! ## Text -/

def isSkip : Stmt → Bool
  | skip _ => true
  | _ => false

def braced (s : String) : String := "\x7b " ++ s ++ " \x7d"

/-- An empty else branch is not written. -/
def text : Stmt → String
  | assign _ x e => x ++ " := " ++ e.text
  | seq _ a b => a.text ++ " ; " ++ b.text
  | skip _ => "skip"
  | ite _ c a b =>
    if b.isSkip then "if " ++ c.text ++ " " ++ braced a.text
    else "if " ++ c.text ++ " " ++ braced a.text ++ " else " ++ braced b.text
  | block _ a => braced a.text
  | loop _ c none a => "while " ++ c.text ++ " " ++ braced a.text
  | loop _ c (some i) a => "while " ++ c.text ++ " invariant " ++ i.text ++ " " ++ braced a.text
  | assert _ c => "assert " ++ c.text
  | assume _ c => "assume " ++ c.text
  | call _ f es => "call " ++ f ++ "(" ++ ", ".intercalate (es.map Expr.text) ++ ")"
  | localDef _ x none => "var " ++ x
  | localDef _ x (some e) => "var " ++ x ++ " := " ++ e.text

/-! ## Variables -/

/-- Every variable that occurs in the statement, its invariants included. -/
def names : Stmt → List String
  | assign _ x e => x :: e.names
  | seq _ a b => a.names ++ b.names
  | skip _ => []
  | ite _ c a b => c.names ++ a.names ++ b.names
  | block _ a => a.names
  | loop _ c i a => c.names ++ (i.elim [] Pred.names) ++ a.names
  | assert _ c | assume _ c => c.names
  | call _ _ es => es.flatMap Expr.names
  | localDef _ x e => x :: e.elim [] Expr.names

/-- The variables that the statement may write. -/
def targets : Stmt → List String
  | assign _ x _ => [x]
  | seq _ a b => a.targets ++ b.targets
  | ite _ _ a b => a.targets ++ b.targets
  | block _ a => a.targets
  | loop _ _ _ a => a.targets
  | localDef _ x _ => [x]
  | skip _ | assert _ _ | assume _ _ | call _ _ _ => []

def vars (a : Stmt) : List String := inOrder a.names

def assignedVars (a : Stmt) : List String := inOrder a.targets

end Stmt

end StrongestPost
