import StrongestPost.Family
import StrongestPost.Json.Parser

/-!
# Members of objects

How the parts of a value are found. A member that is looked for must not be given
twice; members that nobody looks for do not matter. A record may also be written
as an array of its members in their order, where those at the end may be missing.
-/

namespace StrongestPost.Json

section
variable {α : Type}

/-- The values given to a name. -/
def given (ms : List (String × Json)) (key : String) : List Json :=
  (ms.filter fun m => m.1 == key).map (·.2)

def required? (ms : List (String × Json)) (key : String) (read : Json → Option α) : Option α :=
  match given ms key with
  | [j] => read j
  | _ => none

def optional? (ms : List (String × Json)) (key : String) (default : α) (read : Json → Option α) :
    Option α :=
  match given ms key with
  | [] => some default
  | [j] => read j
  | _ => none

/-- Reads `null` as nothing. -/
def nullable? (read : Json → Option α) : Json → Option (Option α)
  | .null => some none
  | j => (read j).map some

/-- The members of a record with these names. -/
def record? (names : List String) : Json → Option (List (String × Json))
  | .obj ms => some ms
  | .arr js => if js.length ≤ names.length then some (names.zip js) else none
  | _ => none

/-- One of a family of choices: its name, or an object with that name and no value. -/
def choice? (choices : Family α) : Json → Option α
  | .str s | .obj [(s, .null)] => choices.named? s
  | _ => none

/-- The same inside a tree, where an empty object is no value either. -/
def treeChoice? (choices : Family α) : Json → Option α
  | .obj [(s, .obj [])] => choices.named? s
  | j => choice? choices j

end

/-- The tag of a node: one of the names, or its position among them. -/
def tag? (ms : List (String × Json)) (key : String) (names : List String) : Option String :=
  required? ms key fun
    | .str s => if s ∈ names then some s else none
    | .int n => if 0 ≤ n then names[n.toNat]? else none
    | _ => none

def string? : Json → Option String
  | .str s => some s
  | _ => none

def bool? : Json → Option Bool
  | .bool b => some b
  | _ => none

/-- A natural number below `bound`. -/
def below? (bound : Nat) : Json → Option Nat
  | .int n => if 0 ≤ n ∧ n < bound then some n.toNat else none
  | _ => none

def uint32? (j : Json) : Option UInt32 := (below? UInt32.size j).map UInt32.ofNat

def uint64? (j : Json) : Option UInt64 := (below? UInt64.size j).map UInt64.ofNat

def int64? : Json → Option Int64
  | .int n => if (Int64.ofInt n).toInt = n then some (.ofInt n) else none
  | _ => none

def list? {α : Type} (read : Json → Option α) : Json → Option (List α)
  | .arr js => js.mapM read
  | _ => none

end StrongestPost.Json
