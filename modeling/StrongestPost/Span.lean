/-!
# Source positions

A span is the position of a node in the program text, counted from one. The
position `0:0` belongs to nodes that no text stands for.
-/

namespace StrongestPost

structure Span where
  line : UInt32 := 0
  column : UInt32 := 0
deriving DecidableEq, Ord, Inhabited

namespace Span

/-- The position of nodes that were made and not read. -/
def synthesized : Span := {}

def text (s : Span) : String :=
  toString s.line.toNat ++ ":" ++ toString s.column.toNat

end Span

end StrongestPost
