import StrongestPost.Text.Unprintable

/-!
# Quoted text

Text in double quotes, in a form that can be read on a terminal. The quote and
the backslash are written behind a backslash, four controls have short names, and
other unprintable characters are written by their code point.
-/

namespace StrongestPost

def quotedChar (c : Char) : String :=
  if c = '"' then "\\\""
  else if c = '\\' then "\\\\"
  else if c = '\x00' then "\\0"
  else if c = '\t' then "\\t"
  else if c = '\r' then "\\r"
  else if c = '\n' then "\\n"
  else if isUnprintable c then "\\u\x7b" ++ String.ofList (Nat.toDigits 16 c.toNat) ++ "\x7d"
  else c.toString

def quoted (s : String) : String :=
  "\"" ++ String.join (s.toList.map quotedChar) ++ "\""

end StrongestPost
