import RecordMerge.Number.Binary64

/-! The pause before a request is sent again. -/

set_option autoImplicit false

namespace RecordMerge.Backoff

open Number (Binary64)

def longest : Binary64 :=
  .ofRatio false 1 1

/-- The binary number nearest to one twentieth, as a multiple of 2 to the power −57. -/
def firstSignificand : Nat := 7205759403792794

def exponentLimit : Int :=
  Int.pow 2 1024 - Int.pow 2 970

/-- Seconds before the given attempt: a twentieth of a second before the first, twice as long before
each further one, up to one second. Attempts whose power of two is out of range have none. -/
def seconds? (attempt : Int) : Option Binary64 :=
  let power := attempt - 1
  if 1024 ≤ power || power ≤ -exponentLimit then none
  else if 5 ≤ power then some longest
  else if power < -1074 then some (.ofRatio false 0 1)
  else
    let shift := power - 57
    some (.ofRatio false (firstSignificand * Nat.pow 2 shift.toNat) (Nat.pow 2 (-shift).toNat))

/-- Each of the first thousand attempts has a pause. -/
theorem seconds?_isSome {attempt : Int} (positive : 0 < attempt) (inRange : attempt ≤ 1024) :
    (seconds? attempt).isSome = true := by
  have notLarge : ¬(1024 ≤ attempt - 1) := by omega
  have notSmall : ¬(attempt - 1 ≤ -exponentLimit) := by
    have : (0 : Int) < exponentLimit := by decide +kernel
    omega
  simp only [seconds?, notLarge, notSmall, decide_false, Bool.or_false, Bool.false_eq_true, if_false]
  by_cases late : 5 ≤ attempt - 1
  · simp [late]
  · by_cases early : attempt - 1 < -1074 <;> simp [late, early]

end RecordMerge.Backoff
