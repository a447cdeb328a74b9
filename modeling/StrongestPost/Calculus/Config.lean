import StrongestPost.Family
import StrongestPost.Text.Blank
import StrongestPost.Text.Quoted

/-!
# Configuration

What the calculus does where it has a choice. A configuration is accepted when
its separator keeps names readable and at least one level of nesting is allowed.
-/

namespace StrongestPost

/-- What becomes of a call, and of a loop without an invariant: there is no rule
for them. -/
inductive Unsupported where
  | reject
  | passThrough
deriving DecidableEq

/-- Where a conditional puts its guard: beside the postcondition of the branch, or
beside the precondition, where it is renamed together with it. -/
inductive GuardRule where
  | outside
  | onEntry
deriving DecidableEq

structure Config where
  unsupported : Unsupported := .reject
  conditional : GuardRule := .outside
  /-- Stands between a variable and the number that make up a fresh name. -/
  separator : String := "_"
  /-- The number of levels that statements may nest. -/
  maxDepth : UInt64 := 512
deriving DecidableEq

namespace Config

/-- Why a configuration is not accepted. -/
inductive Fault where
  | emptySeparator
  | badSeparator (separator : String)
  | zeroDepth
deriving DecidableEq

def Fault.text : Fault → String
  | emptySeparator => "fresh_separator must not be empty"
  | badSeparator s => "fresh_separator " ++ quoted s ++ " contains whitespace or parentheses"
  | zeroDepth => "max_depth must be positive"

/-- The first fault of a configuration. -/
def fault? (c : Config) : Option Fault :=
  if c.separator = "" then some .emptySeparator
  else if c.separator.toList.any fun x => isBlank x || x = '(' || x = ')' then
    some (.badSeparator c.separator)
  else if c.maxDepth = 0 then some .zeroDepth
  else none

end Config

/-! ## Names of the choices -/

def Unsupported.name : Unsupported → String
  | reject => "reject"
  | passThrough => "pass_through"

def Unsupported.family : Family Unsupported := { all := [.reject, .passThrough], name }

def GuardRule.name : GuardRule → String
  | outside => "guard_outside"
  | onEntry => "guard_on_entry"

def GuardRule.family : Family GuardRule := { all := [.outside, .onEntry], name }

end StrongestPost
