import LangBench.Number.Binary64

/-!
Decimal texts of double-precision numbers.

`Binary64.shortest` gives the fewest decimal digits that still round back to the number, and of
those the nearest to it. `Binary64.toText` writes these digits, positionally where the first digit
stands between the fifth place after the point and the sixteenth before it.
`Binary64.toPlaces` writes the exact value to a fixed number of places, a half going to the even
neighbour.
-/

namespace LangBench

namespace Binary64

def powerOfTen (n : Nat) : Nat := Nat.pow 10 n

/-- A positive decimal `digits * 10 ^ exponent`. -/
structure Digits where
  /-- All digits, read as one number. -/
  digits : Nat
  /-- The place of the last digit. -/
  exponent : Int

/-- Whether the decimal `d * 10 ^ k` rounds to the positive finite number `x`. The reals that do
reach half a unit to each side, only a quarter below the first mantissa of an exponent, and the
ends belong to them if the mantissa is even. -/
def roundsTo (x : Binary64) (d : Nat) (k : Int) : Bool :=
  -- four times the value, and both ends of the interval, in units of `2 ^ (exponent - 2)`
  let m := 4 * x.mantissa
  let below := if x.mantissa = hiddenBit ∧ 2 * hiddenBit ≤ x.magnitude then 1 else 2
  let e := x.exponent - 2
  -- both sides over one denominator
  let point := (d * powerOfTen k.toNat) <<< (-e).toNat
  let unit := powerOfTen (-k).toNat <<< e.toNat
  let low := (m - below) * unit
  let high := (m + 2) * unit
  if x.mantissa % 2 = 0 then low ≤ point && point ≤ high else low < point && point < high

/-- The decimal exponent of the first digit of `num / den`. -/
def leadingPlace (num den : Nat) : Int :=
  let guess : Int := ((num.log2 : Int) - den.log2) * 30103 / 100000
  -- the guess is off by at most one place to either side
  let reaches (k : Int) : Bool := den * powerOfTen k.toNat ≤ num * powerOfTen (-k).toNat
  if reaches (guess + 1) then guess + 1
  else if reaches guess then guess
  else guess - 1

/-- The best decimal for `x` on the grid of multiples of `10 ^ k`, if one rounds to `x`: the nearer
of the two neighbours, the even one if they are equally near. -/
def onGrid (x : Binary64) (k : Int) : Option Nat :=
  let num := x.num * powerOfTen (-k).toNat
  let den := x.den * powerOfTen k.toNat
  let low := num / den
  match x.roundsTo low k, x.roundsTo (low + 1) k with
  | true, true => some (roundQuotient num den)
  | true, false => some low
  | false, true => some (low + 1)
  | false, false => none

/-- The shortest decimal that rounds to the positive finite number `x`: the first hit on grids of
one digit, of two, and so on. Seventeen digits always suffice. -/
def shortest (x : Binary64) : Digits :=
  let first := leadingPlace x.num x.den
  let grids : List Int := (List.range 17).map fun i : Nat ↦ first - i
  match grids.findSome? fun k ↦ (x.onGrid k).map fun d ↦ Digits.mk d k with
  | some d => d
  | none => ⟨x.num * powerOfTen (16 - first).toNat / (x.den * powerOfTen (first - 16).toNat), first - 16⟩

def Digits.trim (d : Digits) : Digits :=
  let cs := Nat.toDigits 10 d.digits
  let zeros := (cs.reverse.takeWhile (· = '0')).length
  if zeros < cs.length then ⟨d.digits / powerOfTen zeros, d.exponent + zeros⟩ else d

/-- The decimal exponents of the first digit that are written positionally. -/
def positional (place : Int) : Bool := -5 ≤ place && place ≤ 15

/-- Write a decimal positionally, with at least one digit after the point, or with an exponent. -/
def Digits.toText (d : Digits) : String :=
  let cs := Nat.toDigits 10 d.digits
  let place := d.exponent + (cs.length : Int) - 1
  let body :=
    if positional place then
      if 0 ≤ d.exponent then cs ++ List.replicate d.exponent.toNat '0' ++ ['.', '0']
      else if 0 ≤ place then
        cs.take (place.toNat + 1) ++ '.' :: cs.drop (place.toNat + 1)
      else '0' :: '.' :: List.replicate ((-place).toNat - 1) '0' ++ cs
    else
      let mark := if 0 ≤ place then ['e', '+'] else ['e', '-']
      cs.take 1 ++ (if cs.length = 1 then [] else '.' :: cs.drop 1) ++ mark
        ++ Nat.toDigits 10 place.natAbs
  String.ofList body

def toText (x : Binary64) : String :=
  let sign := if x.isNegative then "-" else ""
  if x.magnitude = 0 then sign ++ "0.0" else sign ++ x.shortest.trim.toText

/-- The exact value of a finite number that is not negative, to `places` places after the point. -/
def toPlaces (x : Binary64) (places : Nat) : String :=
  let units := roundQuotient (x.num * powerOfTen places) x.den
  let cs := Nat.toDigits 10 (units % powerOfTen places)
  toString (units / powerOfTen places) ++ "."
    ++ String.ofList (List.replicate (places - cs.length) '0' ++ cs)

end Binary64

end LangBench
