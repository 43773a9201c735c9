/-! Blank characters at the ends of a setting. -/

set_option autoImplicit false

namespace RecordMerge.Text

/-- White space of the character database, and the four separators U+001C to U+001F. -/
def isBlank (char : Char) : Bool :=
  let code := char.toNat
  (0x09 ≤ code && code ≤ 0x0D) || (0x1C ≤ code && code ≤ 0x20) || code == 0x85 || code == 0xA0 ||
    code == 0x1680 || (0x2000 ≤ code && code ≤ 0x200A) || code == 0x2028 || code == 0x2029 ||
    code == 0x202F || code == 0x205F || code == 0x3000

/-- Elements without those at both ends that have a property. -/
def trimWhile {Element : Type} (drops : Element → Bool) (elements : List Element) : List Element :=
  ((elements.dropWhile drops).reverse.dropWhile drops).reverse

def trim (text : String) : String :=
  String.ofList (trimWhile isBlank text.toList)

def isBlankByte (byte : UInt8) : Bool :=
  byte == 0x20 || (0x09 ≤ byte && byte ≤ 0x0D)

def trimBytes (content : List UInt8) : List UInt8 :=
  trimWhile isBlankByte content

theorem isBlank_of_isWhitespace {char : Char} (white : char.isWhitespace = true) :
    isBlank char = true := by
  have cases : char = ' ' ∨ char = '\t' ∨ char = '\r' ∨ char = '\n' := by
    simpa [Char.isWhitespace, or_assoc] using white
  rcases cases with same | same | same | same <;> subst same <;> decide

end RecordMerge.Text
