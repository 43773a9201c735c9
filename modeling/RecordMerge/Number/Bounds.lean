import RecordMerge.Number.Decimal

/-! The numbers that a store keeps exactly. A number outside the bounds is refused, never rounded. -/

set_option autoImplicit false

namespace RecordMerge.Number

/-- What is lost when a number is forced into bounds. -/
inductive Signal where
  | overflow
  | underflow
  | inexact
  | rounded
  | clamped
  deriving DecidableEq, Repr

/-- The number of digits kept, and the range of the leading place. -/
structure Bounds where
  precision : Nat
  largest : Int
  smallest : Int
  deriving DecidableEq, Repr

namespace Bounds

/-- Thirty-eight digits with leading places from −128 to 126. -/
def storage : Bounds := ⟨38, 126, -128⟩

def lastPlace (bounds : Bounds) : Int :=
  bounds.smallest - bounds.precision + 1

/-- Whether cutting the last digits rounds to the even neighbour above. -/
def roundsUp (coefficient cut : Nat) : Bool :=
  let unit := Nat.pow 10 cut
  let kept := coefficient / unit
  let lost := coefficient % unit
  unit < 2 * lost || (2 * lost == unit && kept % 2 == 1)

/-- The first loss, in the order overflow, underflow, inexact, rounded, clamped. -/
def loss? (bounds : Bounds) (coefficient : Nat) (exponent : Int) : Option Signal :=
  if coefficient = 0 then
    if bounds.lastPlace ≤ exponent && exponent ≤ bounds.largest then none else some .clamped
  else
    let digits := (numeral coefficient).length
    let leading := Decimal.leadingPlace coefficient exponent
    if bounds.largest < leading then some .overflow
    else if leading < bounds.smallest then
      if bounds.lastPlace ≤ exponent then none
      else
        let cut := (bounds.lastPlace - exponent).toNat
        if digits < cut || coefficient % Nat.pow 10 cut != 0 then some .underflow else some .rounded
    else if digits ≤ bounds.precision then none
    else
      let cut := digits - bounds.precision
      if coefficient % Nat.pow 10 cut = 0 then some .rounded
      else if leading = bounds.largest && roundsUp coefficient cut &&
          coefficient / Nat.pow 10 cut + 1 = Nat.pow 10 bounds.precision then some .overflow
      else some .inexact

/-- A number within the bounds as it is. Infinities pass, and so does a not-a-number; one whose
payload is too long loses sign, kind and payload. -/
def fit (bounds : Bounds) : Decimal → Except Signal Decimal
  | .finite negative coefficient exponent =>
    match bounds.loss? coefficient exponent with
    | some signal => .error signal
    | none => .ok (.finite negative coefficient exponent)
  | .infinite negative => .ok (.infinite negative)
  | .nan negative signaling payload =>
    if payload ≠ 0 ∧ bounds.precision < (numeral payload).length then .ok (.nan false false 0)
    else .ok (.nan negative signaling payload)

/-- The number that a text denotes; a text that denotes none gives a plain not-a-number. -/
def read (bounds : Bounds) (text : String) : Except Signal Decimal :=
  match Decimal.ofText? text with
  | some number => bounds.fit number
  | none => .ok (.nan false false 0)

/-- A finite number that fits is kept exactly as it was. -/
theorem fit_finite {bounds : Bounds} {negative : Bool} {coefficient : Nat} {exponent : Int}
    {kept : Decimal} (fits : bounds.fit (.finite negative coefficient exponent) = .ok kept) :
    kept = .finite negative coefficient exponent := by
  simp only [fit] at fits
  split at fits <;> simp_all

end Bounds

end RecordMerge.Number
