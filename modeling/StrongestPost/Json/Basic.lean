import StrongestPost.Json.Decimal

/-!
# JSON values and tokens

Objects keep their members in order, and a name may occur twice. Integers that
fit in 64 bits, signed or unsigned, are told apart from all other numbers.
A value is written as a list of tokens without anything between them.
-/

namespace StrongestPost

inductive Json where
  | null
  | bool (value : Bool)
  | int (value : Int)
  | decimal (value : Decimal)
  | str (value : String)
  | arr (elements : List Json)
  | obj (members : List (String × Json))
deriving Inhabited

namespace Json

inductive Token where
  | openArr | closeArr | openObj | closeObj | colon | comma
  | null
  | bool (value : Bool)
  | int (value : Int)
  | decimal (value : Decimal)
  | str (value : String)
deriving DecidableEq

/-! ## Writing -/

/-- A character inside a string. The quote, the backslash and the controls below
U+0020 are escaped, everything else stands for itself. -/
def escapedChar (c : Char) : String :=
  if c = '"' then "\\\""
  else if c = '\\' then "\\\\"
  else if c = '\x08' then "\\b"
  else if c = '\x0c' then "\\f"
  else if c = '\n' then "\\n"
  else if c = '\r' then "\\r"
  else if c = '\t' then "\\t"
  else if c.toNat < 0x20 then
    "\\u00" ++ String.ofList [Nat.digitChar (c.toNat / 16), Nat.digitChar (c.toNat % 16)]
  else c.toString

def Token.text : Token → String
  | openArr => "["
  | closeArr => "]"
  | openObj => "\x7b"
  | closeObj => "\x7d"
  | colon => ":"
  | comma => ","
  | null => "null"
  | bool b => toString b
  | int n => toString n
  | decimal d => d.text
  | str s => "\"" ++ String.join (s.toList.map escapedChar) ++ "\""

mutual

/-- The tokens of a value in front of `rest`. -/
def tokensOnto : Json → List Token → List Token
  | .null, rest => .null :: rest
  | .bool b, rest => .bool b :: rest
  | .int n, rest => .int n :: rest
  | .decimal d, rest => .decimal d :: rest
  | .str s, rest => .str s :: rest
  | .arr [], rest => .openArr :: .closeArr :: rest
  | .arr (j :: js), rest => .openArr :: j.tokensOnto (elementsOnto js (.closeArr :: rest))
  | .obj [], rest => .openObj :: .closeObj :: rest
  | .obj ((k, j) :: ms), rest =>
    .openObj :: .str k :: .colon :: j.tokensOnto (membersOnto ms (.closeObj :: rest))

/-- Further elements, each behind a comma. -/
def elementsOnto : List Json → List Token → List Token
  | [], rest => rest
  | j :: js, rest => .comma :: j.tokensOnto (elementsOnto js rest)

/-- Further members, each behind a comma. -/
def membersOnto : List (String × Json) → List Token → List Token
  | [], rest => rest
  | (k, j) :: ms, rest => .comma :: .str k :: .colon :: j.tokensOnto (membersOnto ms rest)

end

def tokens (j : Json) : List Token := j.tokensOnto []

def text (j : Json) : String := String.join (j.tokens.map Token.text)

end Json

end StrongestPost
