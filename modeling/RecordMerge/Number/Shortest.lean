import RecordMerge.Number.Binary64

/-! The shortest decimal text of a binary number: the fewest digits that read back as it, and of
those the nearest to it, ties to the even last digit. -/

set_option autoImplicit false

namespace RecordMerge.Number.Binary64

/-- A positive number `whole * 2 ^ power` in units of a quarter of its last bit. `narrow`
says that the neighbour below is only half as far as the one above. -/
structure Interval where
  whole : Nat
  power : Int
  narrow : Bool
  deriving DecidableEq, Repr

namespace Interval

def ofFields (biased : Fin 2047) (fraction : Fin 4503599627370496) : Interval where
  whole := significand biased fraction
  power := scale biased
  narrow := fraction.val == 0 && 1 < biased.val

/-- Factors by which a count of decimal units and a count of quarter bits are compared. -/
def factors (interval : Interval) (place : Int) : Nat × Nat :=
  (Nat.pow 10 place.toNat * Nat.pow 2 (2 - interval.power).toNat,
    Nat.pow 10 (-place).toNat * Nat.pow 2 (interval.power - 2).toNat)

/-- Whether `count * 10 ^ place` rounds to the number. The ends of the interval do so exactly
when the whole number is even. -/
def holds (interval : Interval) (place : Int) (count : Nat) : Bool :=
  let (decimal, quarter) := interval.factors place
  let low := (4 * interval.whole - (if interval.narrow then 1 else 2)) * quarter
  let high := (4 * interval.whole + 2) * quarter
  if interval.whole % 2 = 0 then low ≤ count * decimal && count * decimal ≤ high
  else low < count * decimal && count * decimal < high

/-- The count of `10 ^ place` next to the number that rounds to it; of two, the nearer one. -/
def candidate? (interval : Interval) (place : Int) : Option Nat :=
  let (decimal, quarter) := interval.factors place
  let exact := 4 * interval.whole * quarter
  let below := exact / decimal
  match interval.holds place below, interval.holds place (below + 1) with
  | true, true =>
    let twice := 2 * (exact % decimal)
    some (if decimal < twice || (twice == decimal && below % 2 == 1) then below + 1 else below)
  | true, false => some below
  | false, true => some (below + 1)
  | false, false => none

def leadingPlace (interval : Interval) : Int :=
  let top := interval.whole * Nat.pow 2 interval.power.toNat
  let bottom := Nat.pow 2 (-interval.power).toNat
  let estimate : Int := (numeral top).length - (numeral bottom).length
  if bottom * Nat.pow 10 estimate.toNat ≤ top * Nat.pow 10 (-estimate).toNat then estimate
  else estimate - 1

/-- Try finer and finer grids; the first with a candidate has the fewest digits. -/
def search (interval : Interval) : Nat → Int → Nat × Int
  | 0, place => (4 * interval.whole * (interval.factors place).2 /
      (interval.factors place).1, place)
  | grids + 1, place =>
    match interval.candidate? place with
    | some count => (count, place)
    | none => search interval grids (place - 1)

/-- Digits and leading place of the shortest decimal; seventeen digits always suffice. -/
def shortest (interval : Interval) : List Char × Int :=
  let (count, place) := interval.search 17 interval.leadingPlace
  let digits := numeral count
  let kept := (digits.reverse.dropWhile (· == '0')).reverse
  (kept, place + digits.length - 1)

end Interval

/-- Written positionally for leading places from −4 to 15, always with a point; otherwise with an
exponent of at least two digits. -/
def layout : Layout where
  positional _ leading := -4 ≤ leading && leading < 16
  pointed := true
  mark := 'e'
  exponentWidth := 2

def text : Binary64 → String
  | .finite negative biased fraction =>
    let (digits, leading) :=
      if significand biased fraction = 0 then (['0'], 0)
      else (Interval.ofFields biased fraction).shortest
    String.ofList ((if negative then ['-'] else []) ++ layout.write digits leading)
  | .infinite negative => if negative then "-inf" else "inf"
  | .nan => "nan"

def shortestDecimal (number : Binary64) : Decimal :=
  (Decimal.ofText? number.text).getD (.nan false false 0)

end RecordMerge.Number.Binary64
