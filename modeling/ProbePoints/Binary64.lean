/-!
# Finite doubles

A finite double is a sign, a mantissa and a power of two. `ofDecimal?` gives the double nearest to a decimal, and
`text` writes a double with seventeen significant digits. Both work in exact arithmetic on natural numbers and
round once, ties going to the even neighbour.
-/

namespace ProbePoints

/-- The finite double `mantissa * 2 ^ exponent`, negated if `negative`. -/
structure Binary64 where
  negative : Bool
  mantissa : Nat
  exponent : Int
  deriving DecidableEq, Repr

/-- A power of two. -/
def twoTo (exponent : Nat) : Nat := Nat.pow 2 exponent

/-- A power of ten. -/
def tenTo (exponent : Nat) : Nat := Nat.pow 10 exponent

/-- The quotient rounded to the nearest natural number, ties to even. -/
def roundDiv (num den : Nat) : Nat :=
  let quotient := num / den
  let twice := 2 * (num % den)
  if twice < den || (twice == den && quotient % 2 == 0) then quotient else quotient + 1

/-- The decimal digits of a number, most significant first. -/
def decimalDigits (n : Nat) : List Char := Nat.toDigits 10 n

namespace Binary64

/-- The greatest `e` with `2 ^ e ≤ num / den`, for positive arguments. -/
def floorLog2 (num den : Nat) : Int :=
  let guess : Int := (num.log2 : Int) - (den.log2 : Int)
  if den * twoTo guess.toNat ≤ num * twoTo (-guess).toNat then guess else guess - 1

/-- The double nearest to `num / den`, unless it is beyond the largest one. -/
def ofRatio? (negative : Bool) (num den : Nat) : Option Binary64 :=
  if num = 0 then some ⟨negative, 0, 0⟩
  else
    let exponent := max (floorLog2 num den - 52) (-1074)
    let mantissa := roundDiv (num * twoTo (-exponent).toNat) (den * twoTo exponent.toNat)
    if exponent > 971 || (exponent == 971 && mantissa == twoTo 53) then none
    else some ⟨negative, mantissa, exponent⟩

/-- The double nearest to `digits * 10 ^ exponent`, unless it is beyond the largest one. Decimals far outside the
range of doubles are settled without computing their power of ten. -/
def ofDecimal? (negative : Bool) (digits : Nat) (exponent : Int) : Option Binary64 :=
  if digits = 0 || exponent < -400 - (digits.log2 : Int) then some ⟨negative, 0, 0⟩
  else if exponent > 400 then none
  else ofRatio? negative (digits * tenTo exponent.toNat) (tenTo (-exponent).toNat)

/-- The value of a double that has no fractional part. -/
def integer? (x : Binary64) : Option Int :=
  let scale := twoTo (-x.exponent).toNat
  if x.mantissa % scale = 0 then
    let magnitude : Int := (x.mantissa / scale * twoTo x.exponent.toNat : Nat)
    some (if x.negative then -magnitude else magnitude)
  else none

/-! ### Text -/

/-- The number of significant digits in the text of a double. -/
def precision : Nat := 17

/-- The greatest `e` with `10 ^ e ≤ num / den`, for positive arguments. -/
def floorLog10 (num den : Nat) : Int :=
  if den ≤ num then ((decimalDigits (num / den)).length : Int) - 1
  else -((decimalDigits ((den + num - 1) / num - 1)).length : Int)

/-- The significant digits of `num / den`, and the power of ten of the first one. -/
def significand (num den : Nat) : Nat × Int :=
  let power := floorLog10 num den
  let shift := power - ((precision : Int) - 1)
  let digits := roundDiv (num * tenTo (-shift).toNat) (den * tenTo shift.toNat)
  if digits = tenTo precision then (tenTo (precision - 1), power + 1) else (digits, power)

/-- Removes the zeros at the end. -/
def stripZeros (digits : List Char) : List Char := (digits.reverse.dropWhile (· == '0')).reverse

/-- The whole digits, with the others after a point if there are any. -/
def pointed (whole others : List Char) : List Char :=
  if others.isEmpty then whole else whole ++ '.' :: others

/-- An exponent with its sign and at least two digits. -/
def exponentText (power : Int) : List Char :=
  let digits := decimalDigits power.natAbs
  'e' :: (if power < 0 then '-' else '+') :: (if digits.length < 2 then '0' :: digits else digits)

/-- Digits whose first one stands for `10 ^ power`, positional from `10 ^ -4` up to the precision and with an exponent
elsewhere. -/
def layout (digits : List Char) (power : Int) : List Char :=
  if power < -4 || power ≥ precision then
    pointed (digits.take 1) (digits.drop 1) ++ exponentText power
  else if power < 0 then
    pointed ['0'] (List.replicate (-power - 1).toNat '0' ++ digits)
  else
    let whole := (power + 1).toNat
    pointed (digits.take whole ++ List.replicate (whole - digits.length) '0') (digits.drop whole)

/-- A double in decimal, without needless zeros. -/
def text (x : Binary64) : String :=
  let sign := if x.negative then ['-'] else []
  let magnitude :=
    if x.mantissa = 0 then ['0']
    else
      let (digits, power) := significand (x.mantissa * twoTo x.exponent.toNat) (twoTo (-x.exponent).toNat)
      layout (stripZeros (decimalDigits digits)) power
  String.ofList (sign ++ magnitude)

end Binary64

end ProbePoints
