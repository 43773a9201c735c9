import RecordMerge.Number.Layout
import RecordMerge.Text.DecimalDigit

/-! Decimal numbers that remember how they were written: 1.5 and 1.50 denote the same number and
are kept apart. -/

set_option autoImplicit false

namespace RecordMerge.Number

/-- A signed coefficient times a power of ten, an infinity, or a not-a-number with its payload. -/
inductive Decimal where
  | finite (negative : Bool) (coefficient : Nat) (exponent : Int)
  | infinite (negative : Bool)
  | nan (negative signaling : Bool) (payload : Nat)
  deriving DecidableEq, Repr, Inhabited

namespace Decimal

def ofInt (number : Int) : Decimal :=
  .finite (number < 0) number.natAbs 0

def leadingPlace (coefficient : Nat) (exponent : Int) : Int :=
  exponent + (numeral coefficient).length - 1

/-- Written positionally when the exponent is not positive and the leading place is at least −6. -/
def layout : Layout where
  positional digits leading := leading - digits + 1 ≤ 0 && -6 ≤ leading
  pointed := false
  mark := 'E'
  exponentWidth := 1

/-- The characters of a decimal; every finite digit, trailing zeros included, is kept. -/
def chars : Decimal → List Char
  | .finite negative coefficient exponent =>
    (if negative then ['-'] else []) ++
      layout.write (numeral coefficient) (leadingPlace coefficient exponent)
  | .infinite negative => (if negative then ['-'] else []) ++ "Infinity".toList
  | .nan negative signaling payload =>
    (if negative then ['-'] else []) ++ (if signaling then ['s'] else []) ++ "NaN".toList ++
      (if payload = 0 then [] else numeral payload)

def text (number : Decimal) : String :=
  String.ofList number.chars

/-- Digits of every script stand for the ASCII digits. -/
def plainDigit (char : Char) : Char :=
  if char.toNat < 128 then char
  else match Text.digitValue? char with
    | some value => value.digitChar
    | none => char

def readExponent : List Char → Option Int
  | [] => some 0
  | mark :: rest =>
    let (negative, digits) := splitSign rest
    if (mark == 'e' || mark == 'E') && !digits.isEmpty && digits.all Char.isDigit then
      some (if negative then -(numeralValue digits : Int) else numeralValue digits)
    else none

/-- Digits with at most one point among them and at least one digit, then an exponent part. -/
def readFinite (negative : Bool) (chars : List Char) : Option Decimal :=
  let whole := chars.takeWhile Char.isDigit
  let (fraction, rest) := match chars.dropWhile Char.isDigit with
    | '.' :: tail => (tail.takeWhile Char.isDigit, tail.dropWhile Char.isDigit)
    | tail => ([], tail)
  if whole.isEmpty && fraction.isEmpty then none
  else (readExponent rest).map fun exponent =>
    .finite negative (numeralValue (whole ++ fraction)) (exponent - fraction.length)

def readPayload (negative signaling : Bool) (digits : List Char) : Option Decimal :=
  if digits.all Char.isDigit then some (.nan negative signaling (numeralValue digits)) else none

/-- Read a number: a sign, then digits or one of the words for infinity and not-a-number in any
letter case. Blanks and underscores are not part of a number. -/
def ofChars? (chars : List Char) : Option Decimal :=
  let (negative, rest) := splitSign (chars.map plainDigit)
  match rest.map Char.toLower with
  | ['i', 'n', 'f'] => some (.infinite negative)
  | ['i', 'n', 'f', 'i', 'n', 'i', 't', 'y'] => some (.infinite negative)
  | 'n' :: 'a' :: 'n' :: payload => readPayload negative false payload
  | 's' :: 'n' :: 'a' :: 'n' :: payload => readPayload negative true payload
  | _ => readFinite negative rest

def ofText? (text : String) : Option Decimal :=
  ofChars? text.toList

def isZero : Decimal → Bool
  | .finite _ coefficient _ => coefficient == 0
  | _ => false

end Decimal

end RecordMerge.Number
