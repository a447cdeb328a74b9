import StrongestPost.Calculus.Post
import StrongestPost.Program.Procedure

/-!
# Obligations of procedures

For a procedure with precondition `pre` and postcondition `post`, the main
obligation is that the strongest postcondition of its body from `pre` implies
`post`. Asserts and loop invariants raise further ones on the side. If all of them
are valid and no statement was passed through, the procedure keeps its contract.

They are defined for every configuration. A `Generator` holds one that was accepted.
-/

namespace StrongestPost

/-- A strongest postcondition with what was met on the way to it. -/
structure Transformed where
  post : Pred
  side : List Obligation
  unsound : List Site
deriving DecidableEq

def Transformed.isSound (t : Transformed) : Bool := t.unsound.isEmpty

structure Report where
  procedure : String
  main : Obligation
  /-- In the order of the program. -/
  side : List Obligation
  unsound : List Site
deriving DecidableEq

namespace Report

/-- All obligations, the main one last. -/
def obligations (r : Report) : List Obligation := r.side ++ [r.main]

/-- The conjunction of all obligations. -/
def predicate (r : Report) : Pred := .conj (r.obligations.map (·.pred))

def isSound (r : Report) : Bool := r.unsound.isEmpty

def obligationLine (o : Obligation) : String :=
  "  [" ++ o.span.text ++ "] " ++ o.concern.text ++ ": " ++ o.pred.text ++ "\n"

def unsoundLine (sites : List Site) : String :=
  "  unsound: " ++ ", ".intercalate (sites.map fun s => s.kind.text ++ " at " ++ s.span.text) ++ "\n"

def text (r : Report) : String :=
  "procedure " ++ r.procedure ++ ":\n"
    ++ String.join (r.obligations.map obligationLine)
    ++ (if r.isSound then "" else unsoundLine r.unsound)

end Report

def Program.mainProcedure (g : Program) : Except Error Procedure :=
  match g.procedure? g.main with
  | some p => .ok p
  | none => .error (.missingMain g.main)

namespace Config

def validate (c : Config) : Except Error Unit :=
  match c.fault? with
  | some fault => .error (.invalidConfig fault)
  | none => .ok ()

/-- Runs the transformer; none of the reserved names is handed out. -/
def run (c : Config) (a : Stmt) (pre : Pred) (reserved : List String) : Outcome Transformed :=
  let o := a.sp c 0 false pre (Fresh.reserve { separator := c.separator } reserved)
  { notes := o.notes
    result := o.result.map fun r =>
      { post := r.1
        side := o.notes.filterMap Note.obligation?
        unsound := o.notes.filterMap Note.site? } }

/-- The strongest postcondition of a statement on its own. -/
def transform (c : Config) (a : Stmt) (pre : Pred) : Outcome Transformed :=
  c.run a pre (inOrder (a.names ++ pre.names))

def generateProcedure (c : Config) (p : Procedure) : Outcome Report := do
  let t ← c.run p.body p.pre p.vars
  Outcome.note (.generated p.name t.side.length t.unsound.length)
  return {
    procedure := p.name
    main := ⟨t.post.implies p.post, p.post.span, .postcondition⟩
    side := t.side
    unsound := t.unsound }

/-- The obligations of the main procedure. -/
def generate (c : Config) (g : Program) : Outcome Report := do
  let p ← Outcome.ofExcept g.mainProcedure
  c.generateProcedure p

/-- One report for each procedure, each with fresh names of its own. -/
def generateAll (c : Config) (g : Program) : Outcome (List Report) :=
  g.procedures.mapM c.generateProcedure

/-- The obligations of the main procedure as one predicate. -/
def execute (c : Config) (g : Program) : Outcome Pred := do
  return (← c.generate g).predicate

end Config

/-- A configuration without a fault. -/
structure Generator where
  config : Config := {}
  accepted : config.validate = .ok () := by rfl

/-- The first fault of a configuration comes before anything that is generated with it. -/
def Generator.ofConfig (c : Config) : Except Error Generator :=
  match h : c.validate with
  | .ok () => .ok { config := c, accepted := h }
  | .error e => .error e

end StrongestPost
