import RecordMerge.Number.Numeral

/-! Documents of nested values. -/

set_option autoImplicit false

namespace RecordMerge

/-- A document. A number keeps its spelling. -/
inductive Json where
  | null
  | bool (flag : Bool)
  | number (spelling : List Char)
  | text (content : String)
  | list (elements : List Json)
  | object (entries : List (String × Json))
  deriving Repr, Inhabited

namespace Json

def ofInt (number : Int) : Json :=
  .number (Number.signedNumeral number)

def int? : Json → Option Int
  | .number spelling =>
    let (negative, digits) := Number.splitSign spelling
    if !digits.isEmpty && digits.all Char.isDigit then
      some (if negative then -(Number.numeralValue digits : Int) else Number.numeralValue digits)
    else none
  | _ => none

def isNull : Json → Bool
  | .null => true
  | _ => false

/-- The content of a text; any other document has none and reads as empty. -/
def content : Json → String
  | .text content => content
  | _ => ""

def elements : Json → List Json
  | .list elements => elements
  | _ => []

def entries : Json → List (String × Json)
  | .object entries => entries
  | _ => []

end Json

end RecordMerge
