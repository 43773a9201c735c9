import RecordMerge.Number.Binary64

/-! The quantity that a number denotes, whatever its form. Each quantity has one representation,
so that equality of quantities is equality of representations. -/

set_option autoImplicit false

namespace RecordMerge.Number

/-- A whole number that ten does not divide, times a power of ten; zero is `⟨0, 0⟩`. -/
inductive Quantity where
  | finite (coefficient : Int) (exponent : Int)
  | infinite (negative : Bool)
  deriving DecidableEq, Repr

namespace Quantity

/-- Divide by ten as often as possible, at most `limit` times. -/
def stripZeros : Nat → Nat → Int → Nat × Int
  | 0, coefficient, exponent => (coefficient, exponent)
  | limit + 1, coefficient, exponent =>
    if coefficient % 10 = 0 then stripZeros limit (coefficient / 10) (exponent + 1)
    else (coefficient, exponent)

def ofParts (negative : Bool) (coefficient : Nat) (exponent : Int) : Quantity :=
  if coefficient = 0 then .finite 0 0
  else
    let (kept, place) := stripZeros coefficient coefficient exponent
    .finite (if negative then -(kept : Int) else kept) place

def ofInt (number : Int) : Quantity :=
  ofParts (number < 0) number.natAbs 0

/-- A not-a-number denotes no quantity. -/
def ofDecimal? : Decimal → Option Quantity
  | .finite negative coefficient exponent => some (ofParts negative coefficient exponent)
  | .infinite negative => some (.infinite negative)
  | .nan _ _ _ => none

def ofBinary64? (number : Binary64) : Option Quantity :=
  ofDecimal? number.toDecimal

end Quantity

end RecordMerge.Number
