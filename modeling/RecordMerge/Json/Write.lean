import RecordMerge.Json
import RecordMerge.Text.Hex

/-! Writing of documents, without blanks and with the names of every object in order. -/

set_option autoImplicit false

namespace RecordMerge.Json

def codeEscape (char : Char) : List Char :=
  ['\\', 'u', '0', '0'] ++ Text.hexPair (UInt8.ofNat char.toNat)

def writeChar (char : Char) : List Char :=
  match char with
  | '"' => ['\\', '"']
  | '\\' => ['\\', '\\']
  | '\n' => ['\\', 'n']
  | '\r' => ['\\', 'r']
  | '\t' => ['\\', 't']
  | '\x08' => ['\\', 'b']
  | '\x0C' => ['\\', 'f']
  | _ => if char.toNat < 0x20 then codeEscape char else [char]

def writeText (text : String) : String :=
  "\"" ++ String.ofList (text.toList.flatMap writeChar) ++ "\""

mutual

def write : Json → String
  | .null => "null"
  | .bool flag => if flag then "true" else "false"
  | .number spelling => String.ofList spelling
  | .text content => writeText content
  | .list elements => "[" ++ ",".intercalate (writeAll elements) ++ "]"
  | .object entries => "\x7b" ++ ",".intercalate (writeEntries entries) ++ "\x7d"

def writeAll : List Json → List String
  | [] => []
  | first :: rest => write first :: writeAll rest

def writeEntries : List (String × Json) → List String
  | [] => []
  | (name, first) :: rest => (writeText name ++ ":" ++ write first) :: writeEntries rest

end

/-- Insert a pair before the first one with a later name; a pair of the same name is replaced. -/
def insertByName (name : String) (item : Json) : List (String × Json) → List (String × Json)
  | [] => [(name, item)]
  | (other, kept) :: rest =>
    if name < other then (name, item) :: (other, kept) :: rest
    else if name = other then (name, item) :: rest
    else (other, kept) :: insertByName name item rest

def ordered (entries : List (String × Json)) : Json :=
  .object (entries.foldl (fun sorted entry => insertByName entry.1 entry.2 sorted) [])

def sortedByText (documents : List Json) : List Json :=
  documents.mergeSort fun first second => !decide (write second < write first)

end RecordMerge.Json
