/-!
# Decimal numbers

A number that is not a plain integer is kept as a decimal: a sign, a significand
and a power of ten. Decimals that are too large for double precision are not
accepted. Whether one is too large is decided on its leading digits, as many as
fit in 64 bits: they and the power of ten are rounded to 53 bits, and so is their
product.
-/

namespace StrongestPost

structure Decimal where
  negative : Bool
  significand : Nat
  exponent : Int
deriving DecidableEq

namespace Decimal

/-- Drops low digits until the significand fits in 64 bits. -/
def leading (significand : Nat) (exponent : Int) : Nat × Int :=
  if significand < 1 <<< 64 then (significand, exponent)
  else leading (significand / 10) (exponent + 1)
termination_by significand
decreasing_by omega

/-- The nearest number with at most 53 significant bits; a tie goes to the even one. -/
def roundToDouble (n : Nat) : Nat :=
  let excess := n.log2 + 1 - 53
  if excess = 0 then n
  else
    let unit := 1 <<< excess
    let q := n / unit
    let r := n % unit
    if unit < 2 * r ∨ (2 * r = unit ∧ q % 2 = 1) then (q + 1) * unit else q * unit

/-- Whether the number is in the range of double precision. -/
def isFinite (d : Decimal) : Bool :=
  let (m, e) := leading d.significand d.exponent
  if m = 0 ∨ e < 0 then true
  else if 308 < e then false
  else roundToDouble (roundToDouble m * roundToDouble (Nat.pow 10 e.toNat)) < 1 <<< 1024

def text (d : Decimal) : String :=
  (if d.negative then "-" else "") ++ toString d.significand ++ "e" ++ toString d.exponent

end Decimal

end StrongestPost
