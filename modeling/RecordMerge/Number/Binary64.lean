import RecordMerge.Number.Decimal

/-! Binary numbers of 64 bits by their fields, with exact rounding from a ratio of whole numbers. -/

set_option autoImplicit false

namespace RecordMerge.Number

/-- A sign, eleven exponent bits and fifty-two fraction bits; the last exponent is kept for the
infinities and the one not-a-number. -/
inductive Binary64 where
  | finite (negative : Bool) (biased : Fin 2047) (fraction : Fin 4503599627370496)
  | infinite (negative : Bool)
  | nan
  deriving DecidableEq, Repr, Inhabited

namespace Binary64

def significand (biased : Fin 2047) (fraction : Fin 4503599627370496) : Nat :=
  if biased.val = 0 then fraction.val else 4503599627370496 + fraction.val

def scale (biased : Fin 2047) : Int :=
  if biased.val = 0 then -1074 else biased.val - 1075

/-- Quotient to the nearest whole number, halves to the even one. -/
def nearestEven (top bottom : Nat) : Nat :=
  let quotient := top / bottom
  let twice := 2 * (top % bottom)
  if bottom < twice || (twice == bottom && quotient % 2 == 1) then quotient + 1 else quotient

/-- The power of two by which a ratio is divided before it is rounded: the significand gets
fifty-three bits, or fewer where the exponents end. -/
def roundingScale (top bottom : Nat) : Int :=
  let estimate : Int := (top.log2 : Int) - bottom.log2 - 53
  let wide :=
    9007199254740992 * bottom * Nat.pow 2 estimate.toNat ≤ top * Nat.pow 2 (-estimate).toNat
  max (-1074) (if wide then estimate + 1 else estimate)

/-- The number of the given sign nearest to `top / bottom`, halves to the even significand. -/
def ofRatio (negative : Bool) (top bottom : Nat) : Binary64 :=
  if top = 0 then .finite negative 0 0
  else
    let power := roundingScale top bottom
    let rounded := nearestEven (top * Nat.pow 2 (-power).toNat) (bottom * Nat.pow 2 power.toNat)
    let (rounded, power) :=
      if rounded = 9007199254740992 then (4503599627370496, power + 1) else (rounded, power)
    if rounded < 4503599627370496 then .finite negative 0 (Fin.ofNat _ rounded)
    else if 971 < power then .infinite negative
    else .finite negative (Fin.ofNat _ (power + 1075).toNat)
      (Fin.ofNat _ (rounded - 4503599627370496))

def ofDecimal : Decimal → Binary64
  | .finite negative coefficient exponent =>
    ofRatio negative (coefficient * Nat.pow 10 exponent.toNat) (Nat.pow 10 (-exponent).toNat)
  | .infinite negative => .infinite negative
  | .nan _ _ _ => .nan

def ofText? (text : String) : Option Binary64 :=
  (Decimal.ofText? text).map ofDecimal

/-- The decimal with exactly the same value. -/
def toDecimal : Binary64 → Decimal
  | .finite negative biased fraction =>
    let power := scale biased
    if 0 ≤ power then .finite negative (significand biased fraction * Nat.pow 2 power.toNat) 0
    else
      let halvings := (-power).toNat
      let shared := min halvings (lowZeros halvings (significand biased fraction))
      .finite negative
        (significand biased fraction / Nat.pow 2 shared * Nat.pow 5 (halvings - shared))
        (-((halvings - shared : Nat) : Int))
  | .infinite negative => .infinite negative
  | .nan => .nan false false 0
where
  lowZeros : Nat → Nat → Nat
    | 0, _ => 0
    | limit + 1, number => if number % 2 = 0 then lowZeros limit (number / 2) + 1 else 0

def isZero : Binary64 → Bool
  | .finite _ biased fraction => biased.val == 0 && fraction.val == 0
  | _ => false

end Binary64

end RecordMerge.Number
