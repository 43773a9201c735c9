import RecordMerge.Value
import RecordMerge.Text.Quoted

/-! Values as text, plainly and as literals. -/

set_option autoImplicit false

namespace RecordMerge.Value

open Number (numeral signedNumeral)

def padded (width number : Nat) : String :=
  let digits := numeral number
  String.ofList (List.replicate (width - digits.length) '0' ++ digits)

def bytesLiteral (form : BytesForm) (content : List UInt8) : String :=
  match form with
  | .fixed => Text.quotedBytes content
  | .growable => "bytearray(" ++ Text.quotedGrowable content ++ ")"
  | .wrapped false => "Binary(" ++ Text.quotedBytes content ++ ")"
  | .wrapped true => "Binary(bytearray(" ++ Text.quotedGrowable content ++ "))"

/-- The elements of a tuple in parentheses; a single one keeps its comma. -/
def tupleLiteral : List String → String
  | [only] => "(" ++ only ++ ",)"
  | literals => "(" ++ ", ".intercalate literals ++ ")"

/-- The elements of a set in braces; an empty set has a word of its own. -/
def setLiteral (frozen : Bool) (literals : List String) : String :=
  let braces := "\x7b" ++ ", ".intercalate literals ++ "\x7d"
  match frozen, literals.isEmpty with
  | true, true => "frozenset()"
  | true, false => "frozenset(" ++ braces ++ ")"
  | false, true => "set()"
  | false, false => braces

mutual

/-- A whole number is written in full, however long it is: the length that a host may be set to refuse,
4300 digits where nothing else is set, is left out here. -/
def literal : Value → String
  | .null => "None"
  | .bool flag => if flag then "True" else "False"
  | .int number => String.ofList (signedNumeral number)
  | .float number => number.text
  | .decimal number => "Decimal('" ++ number.text ++ "')"
  | .text content => Text.quoted content
  | .bytes form content => bytesLiteral form content
  | .list elements => "[" ++ ", ".intercalate (literals elements) ++ "]"
  | .tuple elements => tupleLiteral (literals elements)
  | .set frozen elements => setLiteral frozen (literals elements)
  | .map entries => "\x7b" ++ ", ".intercalate (entryLiterals entries) ++ "\x7d"
  | .unset | .unsetCopy => "UNSET"
  | .anything => "ANY"
  | .date year month day =>
    "datetime.date(" ++ String.ofList (numeral year) ++ ", " ++ String.ofList (numeral month) ++
      ", " ++ String.ofList (numeral day) ++ ")"

def literals : List Value → List String
  | [] => []
  | value :: rest => literal value :: literals rest

def entryLiterals : List (Value × Value) → List String
  | [] => []
  | (key, value) :: rest => (literal key ++ ": " ++ literal value) :: entryLiterals rest

end

/-- The plain text of a value: a text as it is, a decimal by its digits, a date by year, month and
day, and any other value by its literal. Wrapped bytes have no plain text. A host's limit on the length
of whole numbers is left out, as in a literal. -/
def toText? : Value → Option String
  | .text content => some content
  | .decimal number => some number.text
  | .bytes (.wrapped _) _ => none
  | .date year month day =>
    some (padded 4 year ++ "-" ++ padded 2 month ++ "-" ++ padded 2 day)
  | value => some value.literal

/-- The plain text of a value, or its literal where it has none. -/
def toText (value : Value) : String :=
  value.toText?.getD value.literal

@[simp] theorem toText?_text (content : String) : toText? (.text content) = some content := rfl

@[simp] theorem toText_text (content : String) : toText (.text content) = content := rfl

end RecordMerge.Value
