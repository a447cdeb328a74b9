import StrongestPost.Calculus.Fresh
import StrongestPost.Calculus.Outcome
import StrongestPost.Logic.Rename

/-!
# Strongest postconditions

`Stmt.sp` turns a precondition into a predicate that holds in every state the
statement can end in. The value a variable had before it is overwritten is kept
under a fresh name, so the result may speak of names that are not in the program;
they are read existentially.

Statements that contain other statements open a level, sequences do not. The rule
of a sequence is noted once for a whole run of sequences nested to the right.
-/

namespace StrongestPost

/-- A walk over a statement: it hands out fresh names, takes notes and may fail. -/
abbrev Walk := StateT Fresh Outcome

namespace Walk

def freshName (base : String) (avoid : Pred) : Walk String := do
  let (name, f) := (← get).allocate base avoid
  set f
  Outcome.note (.allocated base name avoid)
  return name

def term (e : Expr) : Walk Term := do
  Outcome.note (.read .integer e)
  match Term.ofExpr e with
  | .ok t => return t
  | .error m => Outcome.fail (.illSorted m)

def pred (e : Expr) : Walk Pred := do
  Outcome.note (.read .boolean e)
  match Pred.ofExpr e with
  | .ok p => return p
  | .error m => Outcome.fail (.illSorted m)

def raise (p : Pred) (span : Span) (concern : Concern) : Walk Unit :=
  Outcome.note (.raised ⟨p, span, concern⟩)

/-- Notes the rule for a statement, unless its level is beyond the limit. -/
def enter (c : Config) (level : Nat) (kind : Stmt.Kind) (span : Span) : Walk Unit :=
  if c.maxDepth.toNat ≤ level then Outcome.fail (.tooDeep c.maxDepth span)
  else Outcome.note (.rule kind span)

/-- Forgets the value of `x`. -/
def havoc (x : String) (pre : Pred) : Walk Pred := do
  let y ← freshName x pre
  return pre.rename x y

/-- What holds after `x := e`: `pre` of the old value, and `x` equal to `e` of the
old value. -/
def assignment (x : String) (e : Expr) (pre : Pred) : Walk Pred := do
  let y ← freshName x pre
  let t ← term e
  let current := Pred.rel pre.span ((Term.now x).atSpan pre.span) .eq (t.rename x y)
  return (pre.rename x y).and current

/-- There is no rule: fail, or leave `pre` as it is and record the site. -/
def withoutRule (c : Config) (kind : Stmt.Kind) (span : Span) (pre : Pred) : Walk Pred :=
  match c.unsupported with
  | .reject => Outcome.fail (.unsupported kind span)
  | .passThrough => do
    Outcome.note (.passed ⟨kind, span⟩)
    return pre

end Walk

open Walk in
/-- What is known after the statement has run from `pre`. The flag says that the
statement goes on a sequence that has been noted. -/
def Stmt.sp (c : Config) : Stmt → (level : Nat) → (goesOn : Bool) → Pred → Walk Pred
  | .seq span a b, level, goesOn, pre => do
    unless goesOn do Outcome.note (.rule .sequence span)
    let mid ← a.sp c level false pre
    b.sp c level true mid
  | .skip span, level, _, pre => do
    enter c level .skip span
    return pre
  | .block span a, level, _, pre => do
    enter c level .block span
    a.sp c (level + 1) false pre
  | .assign span x e, level, _, pre => do
    enter c level .assignment span
    assignment x e pre
  | .localDef span x init, level, _, pre => do
    enter c level .localDefinition span
    match init with
    | some e => assignment x e pre
    | none => havoc x pre
  | .ite span cond a b, level, _, pre => do
    enter c level .conditional span
    let guard ← pred cond
    match c.conditional with
    | .outside =>
      let p ← a.sp c (level + 1) false pre
      let q ← b.sp c (level + 1) false pre
      let yes := (guard.and p).atSpan pre.span
      let no := (guard.not.and q).atSpan pre.span
      return (yes.or no).atSpan pre.span
    | .onEntry =>
      let p ← a.sp c (level + 1) false ((guard.and pre).atSpan pre.span)
      let q ← b.sp c (level + 1) false ((guard.not.and pre).atSpan pre.span)
      return (p.or q).atSpan pre.span
  | .assume span cond, level, _, pre => do
    enter c level .assume span
    let guard ← pred cond
    return pre.and guard
  | .assert span cond, level, _, pre => do
    enter c level .assert span
    let guard ← pred cond
    raise (pre.implies guard) span .assertion
    return pre.and guard
  | .loop span cond (some inv) a, level, _, pre => do
    enter c level .loop span
    let guard ← pred cond
    raise (pre.implies inv) span .invariantOnEntry
    let bodyPost ← a.sp c (level + 1) false (inv.and guard)
    raise (bodyPost.implies inv) span .invariantKept
    -- of the precondition, what does not depend on the variables of the body remains
    let frame ← a.assignedVars.foldlM (fun p x => havoc x p) pre
    return ((frame.and inv).and guard.not).atSpan pre.span
  | .loop span _ none _, level, _, pre => do
    enter c level .loop span
    withoutRule c .loop span pre
  | .call span _ _, level, _, pre => do
    enter c level .call span
    withoutRule c .call span pre

end StrongestPost
