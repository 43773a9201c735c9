import RecordMerge.Failure
import RecordMerge.Json.Read
import RecordMerge.Text.DecimalDigit

/-! The version of a release: how it is recorded and how it is shown. -/

set_option autoImplicit false

namespace RecordMerge.Release

/-- The recorded version of this release. -/
def recorded : String := "0.1.0"

def unknown : String := "0.0.0"

/-- The version that the text of a record holds under its name. A record that is missing or no
document has none; a document of another kind than an object is a fault. -/
def ofRecord (text : Option String) : Except Failure String :=
  match text.bind Json.ofText? with
  | none => .ok unknown
  | some (.object entries) =>
    match Entries.get? entries "version" with
    | some (.text version) => .ok (if version = "" then unknown else version)
    | _ => .ok unknown
  | some _ => .error (.reading .noEntries)

def digits? (text : List Char) : Option (List Char × List Char) :=
  let isDigit := fun char => (Text.digitValue? char).isSome
  match text.takeWhile isDigit with
  | [] => none
  | digits => some (digits, text.dropWhile isDigit)

def triple? (text : List Char) : Option (List Char × List Char) := do
  let (first, rest) ← digits? text
  let (second, rest) ← digits? (← Json.word? ['.'] rest)
  let (third, rest) ← digits? (← Json.word? ['.'] rest)
  some (first ++ '.' :: second ++ '.' :: third, rest)

def withoutFinalBreak (text : List Char) : List Char :=
  if text.getLast? = some '\n' then text.dropLast else text

/-- The number of a release candidate: an optional point, and ASCII digits up to the end. -/
def candidate? (text : List Char) : Option (List Char) :=
  let digits := withoutFinalBreak (match text with
    | '.' :: rest => rest
    | _ => text)
  if !digits.isEmpty && digits.all Char.isDigit then some digits else none

/-- The short form of a release candidate, `1.2.3rc4`; any other version is shown as it is. -/
def shown (version : String) : String :=
  let short := do
    let (triple, rest) ← triple? version.toList
    let number ← candidate? (← Json.word? "-rc".toList rest)
    some (String.ofList (triple ++ "rc".toList ++ number))
  short.getD version

end RecordMerge.Release
