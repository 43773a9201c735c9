/-! Decimal numerals as lists of digits, most significant first. -/

set_option autoImplicit false

namespace RecordMerge.Number

def numeral (number : Nat) : List Char :=
  Nat.toDigits 10 number

def numeralValue (digits : List Char) : Nat :=
  digits.foldl (fun value digit => 10 * value + (digit.toNat - 48)) 0

theorem numeralValue_append_single (digits : List Char) (digit : Char) :
    numeralValue (digits ++ [digit]) = 10 * numeralValue digits + (digit.toNat - 48) := by
  simp [numeralValue]

private theorem digitChar_toNat {digit : Nat} (small : digit < 10) :
    digit.digitChar.toNat - 48 = digit := by
  revert digit
  decide

/-- A numeral reads back as the number it was written for. -/
theorem numeralValue_numeral (number : Nat) : numeralValue (numeral number) = number := by
  induction number using Nat.strongRecOn with
  | ind number smaller =>
    by_cases small : number < 10
    · simp [numeral, Nat.toDigits_of_lt_base small, numeralValue, digitChar_toNat small]
    · have step : Nat.toDigits 10 number =
          Nat.toDigits 10 (number / 10) ++ [(number % 10).digitChar] := by
        have parts := Nat.toDigits_append_toDigits (b := 10) (n := number / 10) (d := number % 10)
          (by decide) (by omega) (by omega)
        rw [Nat.toDigits_of_lt_base (n := number % 10) (by omega)] at parts
        rw [parts, Nat.div_add_mod]
      have earlier := smaller (number / 10) (by omega)
      simp only [numeral] at earlier
      rw [numeral, step, numeralValue_append_single, earlier, digitChar_toNat (by omega)]
      omega

/-- Distinct numbers have distinct numerals. -/
theorem numeral_inj {first second : Nat} (same : numeral first = numeral second) :
    first = second := by
  rw [← numeralValue_numeral first, same, numeralValue_numeral]

def signedNumeral (number : Int) : List Char :=
  if number < 0 then '-' :: numeral number.natAbs else numeral number.natAbs

/-- Split a leading sign off; the flag says whether it is a minus. -/
def splitSign : List Char → Bool × List Char
  | '-' :: rest => (true, rest)
  | '+' :: rest => (false, rest)
  | rest => (false, rest)

end RecordMerge.Number
