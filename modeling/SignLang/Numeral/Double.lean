/-!
# Nearest double

The double-precision number that is nearest to a fraction, a tie going to the even neighbour. The
result is given by its bits. With the unit `2 ^ scale` in the last place, the number is
`significand * 2 ^ scale`; the scale is the least one at which the significand has 53 bits, but never
below that of the subnormal numbers. The bits are then one sum for normal and subnormal numbers
alike, and rounding up to the next power of two carries into the exponent by itself.
-/

namespace SignLang.Double

/-- The quotient of two numbers, rounded to the nearest; a tie goes to the even neighbour. -/
def roundDiv (num den : Nat) : Nat :=
  let quotient := num / den
  let twice := 2 * (num % den)
  if twice < den then quotient
  else if den < twice then quotient + 1
  else quotient + quotient % 2

/-- The least scale of a double: that of the subnormal numbers. -/
def leastScale : Int := -1074

/-- The scale at which `num / den` has a significand of 53 bits. -/
def scaleOf (num den : Nat) : Int :=
  let guess : Int := (Nat.log2 num : Int) - (Nat.log2 den : Int)
  let below := if guess < 0 then num * Nat.pow 2 guess.natAbs < den
    else num < den * Nat.pow 2 guess.natAbs
  max leastScale (if below then guess - 53 else guess - 52)

/-- The bits of positive infinity. -/
def infinityBits : Nat := 0x7ff0000000000000

/-- The bits of the double nearest to `num / den`. -/
def nearestBits (num den : Nat) : Nat :=
  if num = 0 then 0
  else
    let scale := scaleOf num den
    let significand :=
      if scale < 0 then roundDiv (num * Nat.pow 2 scale.natAbs) den
      else roundDiv num (den * Nat.pow 2 scale.natAbs)
    min infinityBits ((scale - leastScale).toNat * Nat.pow 2 52 + significand)

/-- The number of decimal digits beyond which a number is certainly infinite, or zero when they
stand after the point. -/
def digitBound : Int := 400

/-- The double nearest to `significand * 10 ^ exponent`, where the significand has at most `digits`
digits. -/
def ofDecimal (negative : Bool) (significand digits : Nat) (exponent : Int) : Float :=
  let bits :=
    if significand = 0 || exponent + digits < -digitBound then 0
    else if digitBound < exponent then infinityBits
    else if exponent < 0 then nearestBits significand (Nat.pow 10 exponent.natAbs)
    else nearestBits (significand * Nat.pow 10 exponent.natAbs) 1
  Float.ofBits (UInt64.ofNat (if negative then Nat.pow 2 63 + bits else bits))

end SignLang.Double
