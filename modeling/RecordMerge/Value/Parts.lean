import RecordMerge.Failure

/-! Numbers given by their parts: a sign, decimal digits, and an exponent or a word for what is no
finite number. -/

set_option autoImplicit false

namespace RecordMerge.Value

open Number (Decimal)

/-- Whole numbers from minus this limit, 2 to the power 63, up to below it can be parts. -/
def partLimit : Int := 9223372036854775808

/-- A whole number; truth values count as one and zero. -/
def whole? : Value → Option Int
  | .bool flag => some (if flag then 1 else 0)
  | .int number => some number
  | _ => none

/-- A whole number among the parts. Anything else has the given fault. -/
def wholePart (fault : PartsFault) (value : Value) : Except PartsFault Int :=
  match value.whole? with
  | none => .error fault
  | some number => if -partLimit ≤ number ∧ number < partLimit then .ok number else .error .tooLarge

/-- The sign: zero for a positive number and one for a negative one. -/
def signPart (value : Value) : Except PartsFault Bool := do
  let sign ← wholePart .sign value
  if sign = 0 then .ok false else if sign = 1 then .ok true else .error .sign

/-- What the last part makes of the digits. -/
inductive Scale where
  | exponent (place : Int)
  | infinite
  | nan (signaling : Bool)
  deriving DecidableEq, Repr

def scalePart : Value → Except PartsFault Scale
  | .text word =>
    if word = "F" then .ok .infinite
    else if word = "n" then .ok (.nan false)
    else if word = "N" then .ok (.nan true)
    else .error .exponentWord
  | value => (wholePart .exponent value).map .exponent

/-- The number that a row of decimal digits denotes, after the digits that are already read. -/
def digitsPart (read : Nat) : List Value → Except PartsFault Nat
  | [] => .ok read
  | value :: rest => do
    let digit ← wholePart .digits value
    if 0 ≤ digit ∧ digit ≤ 9 then digitsPart (read * 10 + digit.toNat) rest else .error .digits

/-- The digits of a number; none at all are zero. -/
def coefficientPart : Value → Except PartsFault Nat
  | .list digits | .tuple digits => digitsPart 0 digits
  | _ => .error .digits

/-- The number with three given parts. The digits are looked at last, also where they do not
matter. -/
def ofParts : List Value → Except PartsFault Decimal
  | [sign, digits, scale] => do
    let negative ← signPart sign
    let scale ← scalePart scale
    let coefficient ← coefficientPart digits
    match scale with
    | .exponent place => .ok (.finite negative coefficient place)
    | .infinite => .ok (.infinite negative)
    | .nan signaling => .ok (.nan negative signaling coefficient)
  | _ => .error .count

theorem ofParts_of_length_ne {parts : List Value} (other : parts.length ≠ 3) :
    ofParts parts = .error .count := by
  unfold ofParts
  split
  · simp at other
  · rfl

end RecordMerge.Value
