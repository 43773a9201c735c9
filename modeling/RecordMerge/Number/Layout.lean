import RecordMerge.Number.Numeral

/-! How a row of significant digits is laid out as text, positionally or with an exponent.

The leading place of a number is the power of ten of its first digit. -/

set_option autoImplicit false

namespace RecordMerge.Number

/-- The decisions of a number format. -/
structure Layout where
  /-- Whether this many digits with this leading place are written without an exponent. -/
  positional : Nat → Int → Bool
  /-- Whether a whole number written positionally still gets a point and a zero. -/
  pointed : Bool
  mark : Char
  /-- The least number of exponent digits; a sign is always written. -/
  exponentWidth : Nat

/-- Put the point after the given number of digits, filling with zeros on either side. -/
def placePoint (digits : List Char) (place : Int) : List Char :=
  if place ≤ 0 then '0' :: '.' :: (List.replicate (-place).toNat '0' ++ digits)
  else if digits.length ≤ place.toNat then
    digits ++ List.replicate (place.toNat - digits.length) '0'
  else digits.take place.toNat ++ '.' :: digits.drop place.toNat

def exponentText (layout : Layout) (exponent : Int) : List Char :=
  let digits := numeral exponent.natAbs
  layout.mark :: (if exponent < 0 then '-' else '+') ::
    (List.replicate (layout.exponentWidth - digits.length) '0' ++ digits)

def Layout.write (layout : Layout) (digits : List Char) (leading : Int) : List Char :=
  if layout.positional digits.length leading then
    let body := placePoint digits (leading + 1)
    if layout.pointed && !body.contains '.' then body ++ ['.', '0'] else body
  else placePoint digits 1 ++ exponentText layout leading

end RecordMerge.Number
