import RecordMerge.Failure

/-! Numbers of every form against counts: whether a number is negative, and the least count that it
does not exceed. -/

set_option autoImplicit false

namespace RecordMerge

open Number (Decimal)

namespace Value

/-- Whether a number is less than zero. A not-a-number among the decimals has no order, and other
values are no numbers. -/
def negative : Value → Except Failure Bool
  | .bool _ => .ok false
  | .int number => .ok (number < 0)
  | .float (.finite sign biased fraction) => .ok (sign && !(biased.val == 0 && fraction.val == 0))
  | .float (.infinite sign) => .ok sign
  | .float .nan => .ok false
  | .decimal (.finite sign coefficient _) => .ok (sign && coefficient != 0)
  | .decimal (.infinite sign) => .ok sign
  | .decimal (.nan _ _ _) => .error .incomparable
  | _ => .error (.reading .wrongKind)

/-- A count that nothing reaches, 2 to the power 64. -/
def unreached : Nat := 18446744073709551616

/-- The least count that a coefficient times a power of ten does not exceed. Powers that would only
show that it is out of reach, or below one, are not computed. -/
def ceilingOfParts (coefficient : Nat) (exponent : Int) : Nat :=
  let digits := (Number.numeral coefficient).length
  let places := (-exponent).toNat
  if coefficient = 0 then 0
  else if 20 ≤ exponent then unreached
  else if 0 ≤ exponent then coefficient * Nat.pow 10 exponent.toNat
  else if digits ≤ places then 1
  else (coefficient + Nat.pow 10 places - 1) / Nat.pow 10 places

/-- The least count that a decimal does not exceed; a not-a-number stays below nothing. -/
def ceilingOfDecimal : Decimal → Nat
  | .finite negative coefficient exponent => if negative then 0 else ceilingOfParts coefficient exponent
  | .infinite negative => if negative then 0 else unreached
  | .nan _ _ _ => unreached

def ceiling : Value → Nat
  | .bool flag => if flag then 1 else 0
  | .int number => number.toNat
  | .float number => ceilingOfDecimal number.toDecimal
  | .decimal number => ceilingOfDecimal number
  | _ => 0

end Value

end RecordMerge
