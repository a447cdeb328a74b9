import StrongestPost.Calculus.Config
import StrongestPost.Calculus.Note

/-!
# Outcomes

An outcome is a result or an error, together with the notes taken on the way. The
notes taken before an error are kept.
-/

namespace StrongestPost

inductive Error where
  | unsupported (kind : Stmt.Kind) (span : Span)
  | illSorted (mismatch : Mismatch)
  | missingMain (name : String)
  | tooDeep (limit : UInt64) (span : Span)
  | invalidConfig (fault : Config.Fault)
deriving DecidableEq

def ValueSort.expectation : ValueSort → String
  | integer => "expected an integer expression"
  | boolean => "expected a boolean expression"

def Error.message : Error → String
  | unsupported kind span =>
    "unsupported statement kind `" ++ kind.text ++ "` at " ++ span.text
  | illSorted m =>
    "cannot translate `" ++ m.expr.text ++ "` at " ++ m.expr.span.text ++ ": "
      ++ m.expected.expectation
  | missingMain name => "main procedure `" ++ name ++ "` not found"
  | tooDeep limit span =>
    "statement nesting exceeds limit of " ++ toString limit.toNat ++ " at " ++ span.text
  | invalidConfig fault => "invalid configuration: " ++ fault.text

structure Outcome (α : Type) where
  notes : List Note
  result : Except Error α

namespace Outcome

def fail {α : Type} (e : Error) : Outcome α := ⟨[], .error e⟩

def note (n : Note) : Outcome Unit := ⟨[n], .ok ()⟩

/-- A result that may be an error, with nothing to note. -/
def ofExcept {α : Type} (r : Except Error α) : Outcome α := ⟨[], r⟩

instance : Monad Outcome where
  pure a := ⟨[], .ok a⟩
  bind x f :=
    match x.result with
    | .error e => ⟨x.notes, .error e⟩
    | .ok a =>
      let y := f a
      ⟨x.notes ++ y.notes, y.result⟩

end Outcome

end StrongestPost
