import StrongestPost.Json.Lexer

/-!
# Reading values

A value is put together from its tokens by a stack machine. The stack holds the
arrays and objects that are still open; there may be `maxNesting` of them.
-/

namespace StrongestPost.Json

/-- How deep arrays and objects may nest. -/
def maxNesting : Nat := 127

/-- An open array or object, with what it holds so far, backwards. -/
inductive Frame where
  | arr (back : List Json)
  /-- The value of the member `key` is under way. -/
  | obj (back : List (String × Json)) (key : String)

inductive Building where
  /-- A value must follow. -/
  | value (stack : List Frame)
  /-- The array has just been opened: a value or its end must follow. -/
  | firstElement (stack : List Frame)
  /-- A comma or the end of the array must follow. -/
  | afterElement (stack : List Frame) (back : List Json)
  /-- The object has just been opened: a name or its end must follow. -/
  | firstName (stack : List Frame)
  /-- A name must follow. -/
  | name (stack : List Frame) (back : List (String × Json))
  /-- A colon must follow. -/
  | colon (stack : List Frame) (back : List (String × Json)) (key : String)
  /-- A comma or the end of the object must follow. -/
  | afterMember (stack : List Frame) (back : List (String × Json))
  | done (value : Json)

/-- Hands a complete value to the innermost open array or object. -/
def supply (j : Json) : List Frame → Building
  | [] => .done j
  | .arr back :: stack => .afterElement stack (j :: back)
  | .obj back key :: stack => .afterMember stack ((key, j) :: back)

/-- The first token of a value. -/
def begin (stack : List Frame) : Token → Option Building
  | .null => some (supply .null stack)
  | .bool b => some (supply (.bool b) stack)
  | .int n => some (supply (.int n) stack)
  | .decimal d => some (supply (.decimal d) stack)
  | .str s => some (supply (.str s) stack)
  | .openArr => if stack.length < maxNesting then some (.firstElement stack) else none
  | .openObj => if stack.length < maxNesting then some (.firstName stack) else none
  | .closeArr | .closeObj | .colon | .comma => none

def build : Building → Token → Option Building
  | .value stack, t => begin stack t
  | .firstElement stack, .closeArr => some (supply (.arr []) stack)
  | .firstElement stack, t => begin (.arr [] :: stack) t
  | .afterElement stack back, .comma => some (.value (.arr back :: stack))
  | .afterElement stack back, .closeArr => some (supply (.arr back.reverse) stack)
  | .firstName stack, .closeObj => some (supply (.obj []) stack)
  | .firstName stack, .str k => some (.colon stack [] k)
  | .name stack back, .str k => some (.colon stack back k)
  | .colon stack back k, .colon => some (.value (.obj back k :: stack))
  | .afterMember stack back, .comma => some (.name stack back)
  | .afterMember stack back, .closeObj => some (supply (.obj back.reverse) stack)
  | _, _ => none

def buildAll : Building → List Token → Option Building
  | b, [] => some b
  | b, t :: ts =>
    match build b t with
    | none => none
    | some b => buildAll b ts

/-- The value that the tokens make up, or `none` if they make up none. -/
def ofTokens? (ts : List Token) : Option Json :=
  match buildAll (.value []) ts with
  | some (.done j) => some j
  | _ => none

/-- The value written in a text. -/
def parse? (s : String) : Option Json := (lex? s).bind ofTokens?

end StrongestPost.Json
