/-!
Double-precision numbers as bit patterns, with exact conversions to and from fractions.

A finite pattern stands for `(-1) ^ sign * mantissa * 2 ^ exponent`. `ofRatio` rounds a fraction
to the nearest number, a tie to the even mantissa, and overflows to infinity.
-/

namespace LangBench

/-- A double-precision number, given by its bits. -/
structure Binary64 where
  /-- Sign, 11 bits of exponent, 52 bits of fraction. -/
  bits : UInt64
  deriving DecidableEq, Repr

namespace Binary64

def zero : Binary64 := ⟨0⟩

def infinity : Binary64 := ⟨0x7ff0000000000000⟩

def isNegative (x : Binary64) : Bool := UInt64.size / 2 ≤ x.bits.toNat

def magnitude (x : Binary64) : Nat := x.bits.toNat % (UInt64.size / 2)

def neg (x : Binary64) : Binary64 := ⟨x.bits ^^^ 0x8000000000000000⟩

/-- Whether the pattern stands for a number, and not for an infinity or no number at all. -/
def isFinite (x : Binary64) : Bool := x.magnitude < infinity.bits.toNat

/-- The least mantissa of a number that is not among the smallest: the first bit is not written. -/
def hiddenBit : Nat := 1 <<< 52

/-- The mantissa of a finite pattern, as an integer below `2 ^ 53`. -/
def mantissa (x : Binary64) : Nat :=
  if x.magnitude < hiddenBit then x.magnitude else hiddenBit + x.magnitude % hiddenBit

/-- The exponent of a finite pattern: its mantissa counts units of `2 ^ exponent`. -/
def exponent (x : Binary64) : Int := (max 1 (x.magnitude / hiddenBit) : Nat) - 1075

/-- Numerator of the absolute value of a finite pattern. -/
def num (x : Binary64) : Nat := x.mantissa <<< x.exponent.toNat

/-- Denominator of the absolute value of a finite pattern. -/
def den (x : Binary64) : Nat := 1 <<< (-x.exponent).toNat

/-- The quotient `num / den` rounded to the nearest integer, a tie to the even one. -/
def roundQuotient (num den : Nat) : Nat :=
  let q := num / den
  let twice := 2 * (num % den)
  if twice < den then q
  else if den < twice then q + 1
  else q + q % 2

/-- The mantissa of `num / den` counted in units of `2 ^ e`. -/
def scaled (num den : Nat) (e : Int) : Nat :=
  roundQuotient (num <<< (-e).toNat) (den <<< e.toNat)

/-- The exponent that gives `num / den` a mantissa of 53 bits, or the least exponent there is. -/
def fitExponent (num den : Nat) : Int :=
  let guess : Int := (num.log2 : Int) - den.log2 - 53
  let e := if num <<< (-guess).toNat < den <<< (guess.toNat + 53) then guess else guess + 1
  max e (-1074)

/-- The nearest number to `num / den`, where `den` is not zero. -/
def ofRatio (num den : Nat) : Binary64 :=
  if num = 0 then zero
  else
    let e := fitExponent num den
    let pattern := (e + 1074).toNat * hiddenBit + scaled num den e
    if pattern < infinity.bits.toNat then ⟨UInt64.ofNat pattern⟩ else infinity

def ofNat (n : Nat) : Binary64 := ofRatio n 1

/-- The rounded product of two finite numbers that are not negative. -/
def mul (x y : Binary64) : Binary64 := ofRatio (x.num * y.num) (x.den * y.den)

/-- The rounded quotient of two finite numbers that are not negative, the second not zero. -/
def div (x y : Binary64) : Binary64 := ofRatio (x.num * y.den) (x.den * y.num)

end Binary64

end LangBench
