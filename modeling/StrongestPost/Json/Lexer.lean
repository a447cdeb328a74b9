import StrongestPost.Json.Basic

/-!
# Reading tokens

A text is cut into tokens in one pass, one character at a time. Between tokens
stand blanks: space, tab, line feed and carriage return. A run of other
characters outside of strings is a word: a literal or a number.
-/

namespace StrongestPost.Json

/-! ## Words -/

def ofDigits (ds : List Char) : Nat :=
  ds.foldl (fun n c => 10 * n + (c.toNat - '0'.toNat)) 0

/-- Digits, at least one. -/
def digits? (cs : List Char) : Option (List Char × List Char) :=
  match cs.takeWhile Char.isDigit with
  | [] => none
  | ds => some (ds, cs.dropWhile Char.isDigit)

/-- The integer part of a number: no zero in front of other digits. -/
def whole? (cs : List Char) : Option (List Char × List Char) := do
  let (ds, rest) ← digits? cs
  if ds.head? = some '0' ∧ ds ≠ ['0'] then none else some (ds, rest)

/-- The digits behind a decimal point, if there is one. -/
def fraction? : List Char → Option (List Char × List Char)
  | '.' :: cs => digits? cs
  | cs => some ([], cs)

/-- The exponent, which must be the end of the number; zero if there is none. -/
def exponent? : List Char → Option Int
  | [] => some 0
  | c :: cs =>
    if c = 'e' ∨ c = 'E' then
      match cs with
      | '-' :: cs => power? cs |>.map fun n => -(n : Int)
      | '+' :: cs => power? cs |>.map fun n => (n : Int)
      | cs => power? cs |>.map fun n => (n : Int)
    else none
where
  power? (cs : List Char) : Option Nat :=
    match digits? cs with
    | some (ds, []) => some (ofDigits ds)
    | _ => none

/-- An integer token if the number has neither fraction nor exponent and fits in
64 bits; minus zero is a decimal. -/
def ofNumber (negative : Bool) (ds fs rest : List Char) (e : Int) : Token :=
  let n := ofDigits ds
  if fs = [] ∧ rest = [] ∧ negative = false ∧ n < 1 <<< 64 then .int n
  else if fs = [] ∧ rest = [] ∧ negative = true ∧ 0 < n ∧ n ≤ 1 <<< 63 then .int (-n)
  else .decimal ⟨negative, ofDigits (ds ++ fs), e - fs.length⟩

def number? (negative : Bool) (cs : List Char) : Option Token := do
  let (ds, rest) ← whole? cs
  let (fs, rest) ← fraction? rest
  let e ← exponent? rest
  match ofNumber negative ds fs rest e with
  | .decimal d => if d.isFinite then some (.decimal d) else none
  | t => some t

def word? (cs : List Char) : Option Token :=
  if cs = "null".toList then some .null
  else if cs = "true".toList then some (.bool true)
  else if cs = "false".toList then some (.bool false)
  else match cs with
    | '-' :: cs => number? true cs
    | cs => number? false cs

/-! ## The machine -/

/-- Where the machine is. Texts under way are kept backwards. -/
inductive Mode where
  | between
  | word (back : List Char)
  | string (back : List Char)
  /-- Behind a backslash. -/
  | escape (back : List Char)
  /-- Inside the four hexadecimal digits of a code unit, perhaps the second of a pair. -/
  | unit (back : List Char) (high : Option Nat) (seen value : Nat)
  /-- Behind the first code unit of a pair, before the backslash of the second. -/
  | pair (back : List Char) (high : Nat)
  /-- The same, behind the backslash. -/
  | pairEscape (back : List Char) (high : Nat)

def isSpace (c : Char) : Bool := c = ' ' || c = '\t' || c = '\n' || c = '\r'

def punctuation? (c : Char) : Option Token :=
  if c = '[' then some .openArr
  else if c = ']' then some .closeArr
  else if c = '\x7b' then some .openObj
  else if c = '\x7d' then some .closeObj
  else if c = ':' then some .colon
  else if c = ',' then some .comma
  else none

def hexDigit? (c : Char) : Option Nat :=
  if '0' ≤ c ∧ c ≤ '9' then some (c.toNat - '0'.toNat)
  else if 'a' ≤ c ∧ c ≤ 'f' then some (c.toNat - 'a'.toNat + 10)
  else if 'A' ≤ c ∧ c ≤ 'F' then some (c.toNat - 'A'.toNat + 10)
  else none

/-- The character that stands behind a backslash for another one. -/
def shortEscape? (c : Char) : Option Char :=
  if c = '"' ∨ c = '\\' ∨ c = '/' then some c
  else if c = 'b' then some '\x08'
  else if c = 'f' then some '\x0c'
  else if c = 'n' then some '\n'
  else if c = 'r' then some '\r'
  else if c = 't' then some '\t'
  else none

/-- A complete code unit: a character, the first of a pair, or the second of one. -/
def codeUnit (back : List Char) (high : Option Nat) (u : Nat) : Option Mode :=
  match high with
  | none =>
    if 0xd800 ≤ u ∧ u ≤ 0xdbff then some (.pair back u)
    else if 0xdc00 ≤ u ∧ u ≤ 0xdfff then none
    else some (.string (Char.ofNat u :: back))
  | some h =>
    if 0xdc00 ≤ u ∧ u ≤ 0xdfff then
      some (.string (Char.ofNat (0x10000 + (h - 0xd800) * 0x400 + (u - 0xdc00)) :: back))
    else none

/-- A character between tokens: the next mode and the token it makes. -/
def start (c : Char) : Mode × List Token :=
  match punctuation? c with
  | some t => (.between, [t])
  | none =>
    if isSpace c then (.between, [])
    else if c = '"' then (.string [], [])
    else (.word [c], [])

/-- One character further: the next mode and the tokens completed, the last first. -/
def step : Mode → Char → Option (Mode × List Token)
  | .between, c => some (start c)
  | .word back, c =>
    if isSpace c ∨ c = '"' ∨ (punctuation? c).isSome then do
      let t ← word? back.reverse
      let (m, ts) := start c
      return (m, ts ++ [t])
    else some (.word (c :: back), [])
  | .string back, c =>
    if c = '"' then some (.between, [.str (String.ofList back.reverse)])
    else if c = '\\' then some (.escape back, [])
    else if c.toNat < 0x20 then none
    else some (.string (c :: back), [])
  | .escape back, c =>
    if c = 'u' then some (.unit back none 0 0, [])
    else (shortEscape? c).map fun x => (.string (x :: back), [])
  | .unit back high seen value, c => do
    let d ← hexDigit? c
    let value := 16 * value + d
    if seen = 3 then
      let m ← codeUnit back high value
      return (m, [])
    else return (.unit back high (seen + 1) value, [])
  | .pair back high, c => if c = '\\' then some (.pairEscape back high, []) else none
  | .pairEscape back high, c => if c = 'u' then some (.unit back (some high) 0 0, []) else none

/-- The end of the text: the tokens, the last first. -/
def finish (acc : List Token) : Mode → Option (List Token)
  | .between => some acc
  | .word back => (word? back.reverse).map (· :: acc)
  | _ => none

def lexFrom (m : Mode) (acc : List Token) : List Char → Option (List Token)
  | [] => (finish acc m).map List.reverse
  | c :: cs =>
    match step m c with
    | none => none
    | some (m, ts) => lexFrom m (ts ++ acc) cs

/-- The tokens of a text, or `none` if it cannot be cut into tokens. -/
def lex? (s : String) : Option (List Token) := lexFrom .between [] s.toList

end StrongestPost.Json
