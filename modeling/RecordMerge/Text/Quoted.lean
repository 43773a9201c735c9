import RecordMerge.Text.Printable

/-! Quoted literals of texts and of byte rows, on one line and in visible characters. -/

set_option autoImplicit false

namespace RecordMerge.Text

def hexDigit (value : Nat) : Char :=
  (value % 16).digitChar

def hexDigits : Nat → Nat → List Char
  | 0, _ => []
  | width + 1, value => hexDigits width (value / 16) ++ [hexDigit value]

@[simp] theorem length_hexDigits (width value : Nat) : (hexDigits width value).length = width := by
  induction width generalizing value with
  | zero => rfl
  | succ width shorter => simp [hexDigits, shorter]

/-- A double quote where the content has single quotes only, otherwise a single quote. -/
def quoteFor (hasSingle hasDouble : Bool) : Char :=
  if hasSingle && !hasDouble then '\x22' else '\x27'

/-- Escapes shared by both literals: the quote, the backslash, tab, line feed and return. -/
def commonEscape? (quote char : Char) : Option (List Char) :=
  if char == quote || char == '\\' then some ['\\', char]
  else if char == '\t' then some ['\\', 't']
  else if char == '\n' then some ['\\', 'n']
  else if char == '\r' then some ['\\', 'r']
  else none

/-- A hidden character by its code point, in two, four or eight digits. -/
def escapeChar (quote char : Char) : List Char :=
  match commonEscape? quote char with
  | some escaped => escaped
  | none =>
    if isPrintable char then [char]
    else if char.toNat < 0x100 then '\\' :: 'x' :: hexDigits 2 char.toNat
    else if char.toNat < 0x10000 then '\\' :: 'u' :: hexDigits 4 char.toNat
    else '\\' :: 'U' :: hexDigits 8 char.toNat

def quoted (content : String) : String :=
  let chars := content.toList
  let quote := quoteFor (chars.contains '\x27') (chars.contains '\x22')
  String.ofList (quote :: chars.flatMap (escapeChar quote) ++ [quote])

def escapeByte (quote : Char) (byte : UInt8) : List Char :=
  let char := Char.ofNat byte.toNat
  match commonEscape? quote char with
  | some escaped => escaped
  | none =>
    if 0x20 ≤ byte.toNat && byte.toNat < 0x7F then [char]
    else '\\' :: 'x' :: hexDigits 2 byte.toNat

/-- The quoted literal of a byte row, marked by a leading letter; `escaped` is the quote that the
content cannot have as it is. -/
def quotedRow (quote escaped : Char) (content : List UInt8) : String :=
  String.ofList ('b' :: quote :: content.flatMap (escapeByte escaped) ++ [quote])

/-- The quote around a byte row. -/
def rowQuote (content : List UInt8) : Char :=
  quoteFor (content.contains 0x27) (content.contains 0x22)

def quotedBytes (content : List UInt8) : String :=
  quotedRow (rowQuote content) (rowQuote content) content

/-- The literal of a growable byte row: a single quote is escaped whatever quote is around it. -/
def quotedGrowable (content : List UInt8) : String :=
  quotedRow (rowQuote content) '\x27' content

end RecordMerge.Text
