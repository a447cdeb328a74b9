import StrongestPost.Logic.Pred

/-!
# Fresh names

A value that is about to be overwritten is kept under a fresh name: the variable,
a separator and a number. The numbers of one variable only go up. A name that was
reserved or handed out is never handed out again, and neither is one that occurs
in the predicate at hand.

The search for a number looks at one candidate more than there are names in the
way. The candidates are all different, so one of them is free.
-/

namespace StrongestPost

structure Fresh where
  separator : String
  /-- The names reserved or handed out so far. -/
  taken : List String := []
  /-- The number to try next for each variable, the latest entry first. -/
  counters : List (String × Nat) := []

namespace Fresh

/-- Reserves names: none of them will be handed out. -/
def reserve (f : Fresh) (names : List String) : Fresh :=
  { f with taken := names.foldr List.insert f.taken }

def isTaken (f : Fresh) (x : String) : Bool := f.taken.contains x

def counter (f : Fresh) (base : String) : Nat := (f.counters.lookup base).getD 0

def candidate (f : Fresh) (base : String) (n : Nat) : String := base ++ f.separator ++ toString n

/-- The first of `tries` numbers from `n` on whose name is not blocked, or the
number after them. -/
def firstFree (name : Nat → String) (blocked : List String) : (tries n : Nat) → Nat
  | 0, n => n
  | tries + 1, n => if name n ∈ blocked then firstFree name blocked tries (n + 1) else n

/-- A fresh name for the value of `base`, where `avoid` is the predicate at hand. -/
def allocate (f : Fresh) (base : String) (avoid : Pred) : String × Fresh :=
  let blocked := avoid.names ++ f.taken
  let n := firstFree (f.candidate base) blocked blocked.length (f.counter base)
  let name := f.candidate base n
  (name, { f with taken := name :: f.taken, counters := (base, n + 1) :: f.counters })

end Fresh

/-- A name for `base` that does not occur in `p`. -/
def Pred.freshFor (p : Pred) (base : String) : String :=
  (Fresh.allocate { separator := "_" } base p).1

end StrongestPost
