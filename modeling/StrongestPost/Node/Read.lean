import StrongestPost.Json.Member
import StrongestPost.Program.Procedure
import StrongestPost.Calculus.Config

/-!
# Reading nodes

Every kind of node is read from a JSON value. The readers of trees descend a
given number of levels, and a text never nests deeper than they go.
-/

namespace StrongestPost

open Json (required? optional? nullable? record? choice? treeChoice? tag? string? bool? uint32?
  uint64? int64? list? maxNesting)

def Span.read? (j : Json) : Option Span := do
  let ms ← record? ["line", "column"] j
  let line ← required? ms "line" uint32?
  let column ← required? ms "column" uint32?
  return { line, column }

/-- The position of a node, which need not be given. -/
def spanOf? (ms : List (String × Json)) : Option Span :=
  optional? ms "span" .synthesized Span.read?

def Expr.read? : (levels : Nat) → Json → Option Expr
  | n + 1, .obj ms => do
    let span ← spanOf? ms
    match ← tag? ms "expr" ["var", "int", "bool", "unary", "binary"] with
    | "var" => return .var span (← required? ms "name" string?)
    | "int" => return .int span (← required? ms "value" int64?)
    | "bool" => return .bool span (← required? ms "value" bool?)
    | "unary" =>
      let op ← required? ms "op" (treeChoice? UnOp.family)
      return .unary span op (← required? ms "operand" (read? n))
    | "binary" =>
      let lhs ← required? ms "lhs" (read? n)
      let op ← required? ms "op" (treeChoice? BinOp.family)
      return .binary span lhs op (← required? ms "rhs" (read? n))
    | _ => none
  | _, _ => none

def Term.read? : (levels : Nat) → Json → Option Term
  | n + 1, .obj ms => do
    let span ← spanOf? ms
    match ← tag? ms "term" ["var", "int", "neg", "arith"] with
    | "var" =>
      let name ← required? ms "name" string?
      let moment ← optional? ms "state" .current (treeChoice? Moment.family)
      return .var span ⟨name, moment⟩
    | "int" => return .lit span (← required? ms "value" int64?)
    | "neg" => return .neg span (← required? ms "operand" (read? n))
    | "arith" =>
      let lhs ← required? ms "lhs" (read? n)
      let op ← required? ms "op" (treeChoice? ArithOp.family)
      return .arith span lhs op (← required? ms "rhs" (read? n))
    | _ => none
  | _, _ => none

def Pred.read? : (levels : Nat) → Json → Option Pred
  | n + 1, .obj ms => do
    let span ← spanOf? ms
    match ← tag? ms "pred" ["bool", "rel", "not", "binary"] with
    | "bool" => return .lit span (← required? ms "value" bool?)
    | "rel" =>
      let lhs ← required? ms "lhs" (Term.read? n)
      let op ← required? ms "op" (treeChoice? RelOp.family)
      return .rel span lhs op (← required? ms "rhs" (Term.read? n))
    | "not" => return .neg span (← required? ms "operand" (read? n))
    | "binary" =>
      let lhs ← required? ms "lhs" (read? n)
      let op ← required? ms "op" (treeChoice? Connective.family)
      return .conn span lhs op (← required? ms "rhs" (read? n))
    | _ => none
  | _, _ => none

def Stmt.read? : (levels : Nat) → Json → Option Stmt
  | n + 1, .obj ms => do
    let span ← spanOf? ms
    match ← tag? ms "stmt" ["assign", "seq", "skip", "if", "block", "loop", "assert", "assume",
        "call", "local_def"] with
    | "assign" =>
      let target ← required? ms "target" string?
      return .assign span target (← required? ms "value" (Expr.read? n))
    | "seq" =>
      let first ← required? ms "first" (read? n)
      return .seq span first (← required? ms "second" (read? n))
    | "skip" => return .skip span
    | "if" =>
      let condition ← required? ms "condition" (Expr.read? n)
      let thenBranch ← required? ms "then_branch" (read? n)
      return .ite span condition thenBranch (← optional? ms "else_branch" .nop (read? n))
    | "block" => return .block span (← required? ms "body" (read? n))
    | "loop" =>
      let condition ← required? ms "condition" (Expr.read? n)
      let invariant ← optional? ms "invariant" none (nullable? (Pred.read? n))
      return .loop span condition invariant (← required? ms "body" (read? n))
    | "assert" => return .assert span (← required? ms "condition" (Expr.read? n))
    | "assume" => return .assume span (← required? ms "condition" (Expr.read? n))
    | "call" =>
      let callee ← required? ms "callee" string?
      return .call span callee (← optional? ms "args" [] (list? (Expr.read? n)))
    | "local_def" =>
      let name ← required? ms "name" string?
      return .localDef span name (← optional? ms "init" none (nullable? (Expr.read? n)))
    | _ => none
  | _, _ => none

def Procedure.read? (levels : Nat) (j : Json) : Option Procedure := do
  let ms ← record? ["name", "span", "pre", "post", "body"] j
  let name ← required? ms "name" string?
  let span ← spanOf? ms
  let pre ← required? ms "pre" (Pred.read? levels)
  let post ← required? ms "post" (Pred.read? levels)
  let body ← required? ms "body" (Stmt.read? levels)
  return { name, span, pre, post, body }

def Program.read? (levels : Nat) (j : Json) : Option Program := do
  let ms ← record? ["main", "procedures"] j
  let main ← required? ms "main" string?
  let procedures ← required? ms "procedures" (list? (Procedure.read? levels))
  return { main, procedures }

/-- What is not given is as in the default configuration. -/
def Config.read? (j : Json) : Option Config := do
  let ms ← record? ["unsupported", "conditional", "fresh_separator", "max_depth"] j
  let c : Config := {}
  let unsupported ←
    optional? ms "unsupported" c.unsupported (choice? Unsupported.family)
  let conditional ←
    optional? ms "conditional" c.conditional (choice? GuardRule.family)
  let separator ← optional? ms "fresh_separator" c.separator string?
  let maxDepth ← optional? ms "max_depth" c.maxDepth uint64?
  return { unsupported, conditional, separator, maxDepth }

end StrongestPost
