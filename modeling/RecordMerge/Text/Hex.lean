/-! Bytes as pairs of hexadecimal digits. -/

set_option autoImplicit false

namespace RecordMerge.Text

def hexValue? (char : Char) : Option Nat :=
  if char.isDigit then some (char.toNat - 48)
  else if 'a' ≤ char ∧ char ≤ 'f' then some (char.toNat - 87)
  else if 'A' ≤ char ∧ char ≤ 'F' then some (char.toNat - 55)
  else none

def hexPair (byte : UInt8) : List Char :=
  [(byte.toNat / 16).digitChar, (byte.toNat % 16).digitChar]

def hexChars (bytes : List UInt8) : List Char :=
  bytes.flatMap hexPair

def ofHexChars? : List Char → Option (List UInt8)
  | [] => some []
  | [_] => none
  | high :: low :: rest => do
    let upper ← hexValue? high
    let lower ← hexValue? low
    let others ← ofHexChars? rest
    some (UInt8.ofNat (upper * 16 + lower) :: others)

theorem hexValue?_digitChar {value : Nat} (small : value < 16) :
    hexValue? value.digitChar = some value := by
  have finite : ∀ digit : Fin 16, hexValue? digit.val.digitChar = some digit.val := by decide
  exact finite ⟨value, small⟩

theorem ofHexChars?_hexChars (bytes : List UInt8) : ofHexChars? (hexChars bytes) = some bytes := by
  induction bytes with
  | nil => rfl
  | cons byte rest tail =>
    have bound : byte.toNat < 256 := byte.toNat_lt
    have upper := hexValue?_digitChar (show byte.toNat / 16 < 16 by omega)
    have lower := hexValue?_digitChar (show byte.toNat % 16 < 16 by omega)
    have whole : byte.toNat / 16 * 16 + byte.toNat % 16 = byte.toNat := by omega
    show ofHexChars? (hexPair byte ++ hexChars rest) = some (byte :: rest)
    simp only [hexPair, List.cons_append, List.nil_append, ofHexChars?, upper, lower, tail, bind,
      Option.bind_some, whole, UInt8.ofNat_toNat]

end RecordMerge.Text
