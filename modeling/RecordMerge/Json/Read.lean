import RecordMerge.Entries
import RecordMerge.Json
import RecordMerge.Text.Hex

/-! Reading of documents. -/

set_option autoImplicit false

namespace RecordMerge.Json

def isBlank (char : Char) : Bool :=
  char == ' ' || char == '\t' || char == '\n' || char == '\r'

def skipBlanks (chars : List Char) : List Char :=
  chars.dropWhile isBlank

def word? (word chars : List Char) : Option (List Char) :=
  if word.isPrefixOf chars then some (chars.drop word.length) else none

def codeUnit? : List Char → Option (Nat × List Char)
  | first :: second :: third :: fourth :: rest => do
    let a ← Text.hexValue? first
    let b ← Text.hexValue? second
    let c ← Text.hexValue? third
    let d ← Text.hexValue? fourth
    some (((a * 16 + b) * 16 + c) * 16 + d, rest)
  | _ => none

def lowSurrogate? : List Char → Option (Nat × List Char)
  | '\\' :: 'u' :: rest => do
    let (low, rest) ← codeUnit? rest
    if 0xDC00 ≤ low && low ≤ 0xDFFF then some (low - 0xDC00, rest) else none
  | _ => none

/-- A character by its code units. Half a pair that stands alone is no character and is replaced. -/
def escapedChar? (chars : List Char) : Option (Char × List Char) := do
  let (unit, rest) ← codeUnit? chars
  if 0xD800 ≤ unit && unit ≤ 0xDBFF then
    match lowSurrogate? rest with
    | some (low, rest) => some (Char.ofNat (0x10000 + (unit - 0xD800) * 0x400 + low), rest)
    | none => some ('\uFFFD', rest)
  else if 0xDC00 ≤ unit && unit ≤ 0xDFFF then some ('\uFFFD', rest)
  else some (Char.ofNat unit, rest)

def escape? : List Char → Option (Char × List Char)
  | 'u' :: rest => escapedChar? rest
  | 'n' :: rest => some ('\n', rest)
  | 't' :: rest => some ('\t', rest)
  | 'r' :: rest => some ('\r', rest)
  | 'b' :: rest => some ('\x08', rest)
  | 'f' :: rest => some ('\x0C', rest)
  | '"' :: rest => some ('"', rest)
  | '\\' :: rest => some ('\\', rest)
  | '/' :: rest => some ('/', rest)
  | _ => none

/-- The characters up to the closing quote, at most `limit`. Control characters have to be escaped. -/
def characters? : Nat → List Char → Option (List Char × List Char)
  | 0, _ => none
  | _, [] => none
  | limit + 1, char :: rest =>
    if char = '"' then some ([], rest)
    else if char.toNat < 0x20 then none
    else do
      let (first, rest) ← if char = '\\' then escape? rest else some (char, rest)
      let (others, rest) ← characters? limit rest
      some (first :: others, rest)

def text? (chars : List Char) : Option (String × List Char) :=
  (characters? (chars.length + 1) chars).map fun found => (String.ofList found.1, found.2)

/-- The longest number of digits that a whole number may have. -/
def digitLimit : Nat := 4300

def digits? (chars : List Char) : Option (List Char × List Char) :=
  match chars.takeWhile Char.isDigit with
  | [] => none
  | digits => some (digits, chars.dropWhile Char.isDigit)

/-- The whole part of a number; zero has no further digit. -/
def whole? : List Char → Option (List Char × List Char)
  | '0' :: rest => some (['0'], rest)
  | chars => digits? chars

def fraction : List Char → List Char × List Char
  | '.' :: rest =>
    match digits? rest with
    | some (digits, rest) => ('.' :: digits, rest)
    | none => ([], '.' :: rest)
  | chars => ([], chars)

def exponentSign : List Char → List Char × List Char
  | '+' :: rest => (['+'], rest)
  | '-' :: rest => (['-'], rest)
  | chars => ([], chars)

def exponent (chars : List Char) : List Char × List Char :=
  match chars with
  | mark :: rest =>
    if mark = 'e' ∨ mark = 'E' then
      let (sign, rest) := exponentSign rest
      match digits? rest with
      | some (digits, rest) => (mark :: sign ++ digits, rest)
      | none => ([], chars)
    else ([], chars)
  | [] => ([], [])

/-- A number without its sign. A whole number has a limited number of digits. -/
def magnitude? (chars : List Char) : Option (List Char × List Char) := do
  let (whole, rest) ← whole? chars
  let (fraction, rest) := fraction rest
  let (exponent, rest) := exponent rest
  if fraction.isEmpty && exponent.isEmpty && digitLimit < whole.length then none
  else some (whole ++ fraction ++ exponent, rest)

/-- A number, or one of the words for what is no finite number. -/
def number? (chars : List Char) : Option (Json × List Char) :=
  match chars with
  | 'N' :: _ => (word? "NaN".toList chars).map fun rest => (.number "NaN".toList, rest)
  | 'I' :: _ => (word? "Infinity".toList chars).map fun rest => (.number "Infinity".toList, rest)
  | '-' :: 'I' :: _ =>
    (word? "-Infinity".toList chars).map fun rest => (.number "-Infinity".toList, rest)
  | '-' :: rest => (magnitude? rest).map fun found => (.number ('-' :: found.1), found.2)
  | _ => (magnitude? chars).map fun found => (.number found.1, found.2)

/-- How many lists and objects may stand within each other. -/
def depthLimit : Nat := 990

mutual

/-- A value at the start. The first argument bounds the number of parts, the second how deep lists
and objects may still go. -/
def value? : Nat → Nat → List Char → Option (Json × List Char)
  | 0, _, _ => none
  | limit + 1, depth, chars =>
    match chars, depth with
    | '"' :: rest, _ => (text? rest).map fun found => (.text found.1, found.2)
    | '[' :: _, 0 | '\x7b' :: _, 0 => none
    | '[' :: rest, depth + 1 =>
      match skipBlanks rest with
      | ']' :: rest => some (.list [], rest)
      | rest => (elements? limit depth rest).map fun found => (.list found.1, found.2)
    | '\x7b' :: rest, depth + 1 =>
      match skipBlanks rest with
      | '\x7d' :: rest => some (.object [], rest)
      | rest =>
        (entries? limit depth rest).map fun found => (.object (Entries.ofPairs found.1), found.2)
    | 'n' :: _, _ => (word? "null".toList chars).map fun rest => (.null, rest)
    | 't' :: _, _ => (word? "true".toList chars).map fun rest => (.bool true, rest)
    | 'f' :: _, _ => (word? "false".toList chars).map fun rest => (.bool false, rest)
    | _, _ => number? chars

def elements? : Nat → Nat → List Char → Option (List Json × List Char)
  | 0, _, _ => none
  | limit + 1, depth, chars => do
    let (first, rest) ← value? limit depth chars
    match skipBlanks rest with
    | ']' :: rest => some ([first], rest)
    | ',' :: rest =>
      let (others, rest) ← elements? limit depth (skipBlanks rest)
      some (first :: others, rest)
    | _ => none

def entries? : Nat → Nat → List Char → Option (List (String × Json) × List Char)
  | 0, _, _ => none
  | limit + 1, depth, chars => do
    let (name, rest) ← name? chars
    let (first, rest) ← value? limit depth rest
    match skipBlanks rest with
    | '\x7d' :: rest => some ([(name, first)], rest)
    | ',' :: rest =>
      let (others, rest) ← entries? limit depth (skipBlanks rest)
      some ((name, first) :: others, rest)
    | _ => none
where
  name? : List Char → Option (String × List Char)
    | '"' :: rest => do
      let (name, rest) ← text? rest
      match skipBlanks rest with
      | ':' :: rest => some (name, skipBlanks rest)
      | _ => none
    | _ => none

end

/-- The document that a whole text spells, with blanks around it. -/
def ofText? (text : String) : Option Json :=
  match value? (text.length + 1) depthLimit (skipBlanks text.toList) with
  | some (value, rest) => if (skipBlanks rest).isEmpty then some value else none
  | none => none

end RecordMerge.Json
