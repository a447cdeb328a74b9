import StrongestPost.Calculus.Note
import StrongestPost.Logic.Box

/-!
# Events

The diagnostics a run leaves behind: a level, a message and named values.
-/

namespace StrongestPost

inductive Level where
  | debug
  | info
  | warn
deriving DecidableEq

def Level.text : Level → String
  | debug => "DEBUG"
  | info => "INFO"
  | warn => "WARN"

structure Event where
  level : Level
  message : String
  values : List (String × String)
deriving DecidableEq

def Note.event? : Note → Option Event
  | rule kind span => some ⟨.debug, "applying rule", [("rule", kind.text), ("span", span.text)]⟩
  | allocated base name _ => some ⟨.debug, "allocated fresh name", [("base", base), ("fresh", name)]⟩
  | passed site =>
    some ⟨.warn, "no rule for statement, passing precondition through",
      [("kind", site.kind.text), ("span", site.span.text)]⟩
  | generated procedure side sites =>
    some ⟨.info, "generated verification condition",
      [("procedure", procedure), ("side_obligations", toString side),
       ("unsound_sites", toString sites)]⟩
  | read _ _ | raised _ => none

def Bound.Comparison.event? : Bound.Comparison → Option Event
  | agree => none
  | differ env left right =>
    some ⟨.debug, "predicates disagree",
      [("env", env.text), ("sat_a", toString left), ("sat_b", toString right)]⟩

end StrongestPost
