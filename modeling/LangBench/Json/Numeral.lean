import LangBench.Json.Basic

/-!
The value of a JSON numeral.

A numeral without fraction and exponent is an integer if 64 bits hold it, with a sign bit if it is
negative; `-0` and every other numeral is a double-precision number. Such a number is computed from
a significand of 64 bits and a power of ten with one rounding each, so its last bit may differ from
that of the nearest number.
-/

namespace LangBench.Json

/-- The parts of a numeral, digits as characters. -/
structure Numeral where
  negative : Bool
  whole : List Char
  fraction : Option (List Char)
  /-- Sign (true for minus) and digits. -/
  exponent : Option (Bool × List Char)

namespace Numeral

/-- Take in digits as long as the significand stays below `2 ^ 64`; return the digits not taken. -/
def accumulate : Nat → List Char → Nat × List Char
  | n, [] => (n, [])
  | n, c :: cs =>
    let m := 10 * n + (c.toNat - '0'.toNat)
    if m < UInt64.size then accumulate m cs else (n, c :: cs)

/-- Multiply by a power of ten, `none` on overflow. Powers below `10 ^ (-308)` are applied in steps
until nothing is left. -/
def scaleByPowerOfTen (x : Binary64) (e : Int) : Option Binary64 :=
  if e.natAbs ≤ 308 then
    if 0 ≤ e then
      let y := x.mul (.ofNat (Binary64.powerOfTen e.natAbs))
      if y.isFinite then some y else none
    else some (x.div (.ofNat (Binary64.powerOfTen e.natAbs)))
  else if x = .zero then some x
  else if 0 ≤ e then none
  else scaleByPowerOfTen (x.div (.ofNat (Binary64.powerOfTen 308))) (e + 308)
termination_by (-e).toNat

/-- The digits are those of a numeral: no superfluous leading zero, none missing. -/
def wellFormed (n : Numeral) : Bool :=
  !n.whole.isEmpty && (n.whole.length = 1 || n.whole.head? != some '0')
    && n.fraction != some [] && n.exponent.map (·.2) != some []

def exponentValue (n : Numeral) : Int :=
  match n.exponent with
  | none => 0
  | some (negative, digits) =>
    let e := Nat.ofDigitChars 10 digits 0
    if negative then -e else e

/-- The value of a numeral, `none` if it is malformed or too large. -/
def value? (n : Numeral) : Option Json :=
  if !n.wellFormed then none
  else
    let (whole, wholeRest) := accumulate 0 n.whole
    let signed (x : Binary64) : Json := .real (if n.negative then x.neg else x)
    if n.fraction.isNone && n.exponent.isNone && wholeRest.isEmpty then
      if !n.negative then some (.int whole)
      else if 0 < whole && whole ≤ UInt64.size / 2 then some (.int (-whole))
      else some (signed (.ofNat whole))
    else
      let fraction := n.fraction.getD []
      let (significand, fractionRest) := accumulate whole fraction
      let shift : Int := wholeRest.length - (fraction.length - fractionRest.length : Nat)
      (scaleByPowerOfTen (.ofNat significand) (shift + n.exponentValue)).map signed

end Numeral

end LangBench.Json
