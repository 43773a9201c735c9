import RecordMerge.Entries
import RecordMerge.Failure
import RecordMerge.Placeholder
import RecordMerge.Value.Equality

/-! Placeholders used by a condition. Five kinds of atom are looked for, one kind after another
over the whole text; what stands between the atoms is not looked at. -/

set_option autoImplicit false

namespace RecordMerge.Condition

open Placeholder (isWordChar)

def isBlank (char : Char) : Bool :=
  char == ' ' || ('\t' ≤ char && char ≤ '\r')

def skipBlanks (text : List Char) : List Char :=
  text.dropWhile isBlank

/-- At least one blank, and all that follow it. -/
def blanks? : List Char → Option (List Char)
  | [] => none
  | char :: rest => if isBlank char then some (skipBlanks rest) else none

def literal? (expected text : List Char) : Option (List Char) :=
  if expected.isPrefixOf text then some (text.drop expected.length) else none

/-- A fixed word in any letter case, given in capitals. -/
def keyword? (expected text : List Char) : Option (List Char) :=
  if (text.take expected.length).map Char.toUpper = expected then some (text.drop expected.length)
  else none

/-- The longest word at the start; it must not be empty. -/
def word? (text : List Char) : Option (List Char × List Char) :=
  match text.takeWhile isWordChar with
  | [] => none
  | word => some (word, text.dropWhile isWordChar)

def segment? : List Char → Option (List Char × List Char)
  | '#' :: rest => word? rest
  | _ => none

def token? : List Char → Option (List Char × List Char)
  | ':' :: rest => word? rest
  | _ => none

/-- One more part of a list: blanks, the separator, blanks, and the part. -/
def link? (separator : Char) (part : List Char → Option (List Char × List Char))
    (text : List Char) : Option (List Char × List Char) :=
  match skipBlanks text with
  | char :: rest => if char = separator then part (skipBlanks rest) else none
  | [] => none

/-- As many further parts as there are, at most `limit`. -/
def links (separator : Char) (part : List Char → Option (List Char × List Char)) :
    Nat → List Char → List (List Char) × List Char
  | 0, text => ([], text)
  | limit + 1, text =>
    match link? separator part text with
    | none => ([], text)
    | some (first, rest) =>
      let (others, rest) := links separator part limit rest
      (first :: others, rest)

/-- Parts with a separator between them, at least one. -/
def parts? (separator : Char) (part : List Char → Option (List Char × List Char))
    (text : List Char) : Option (List (List Char) × List Char) := do
  let (first, rest) ← part text
  let (others, rest) := links separator part rest.length rest
  some (first :: others, rest)

def path? (text : List Char) : Option (List (List Char) × List Char) :=
  parts? '.' segment? text

/-- One of `<>`, `<=`, `>=`, `=`, `<` and `>`. -/
def comparator? : List Char → Option (List Char)
  | '<' :: '>' :: rest | '<' :: '=' :: rest | '>' :: '=' :: rest => some rest
  | '=' :: rest | '<' :: rest | '>' :: rest => some rest
  | _ => none

/-- The segments of the path of an atom, and the tokens it compares with. -/
structure Atom where
  segments : List (List Char)
  tokens : List (List Char)
  deriving DecidableEq, Repr

/-- `path = :token`, with any comparator. -/
def comparison? (text : List Char) : Option (Atom × List Char) := do
  let (segments, rest) ← path? text
  let rest ← comparator? (skipBlanks rest)
  let (token, rest) ← token? (skipBlanks rest)
  some (⟨segments, [token]⟩, rest)

/-- `size(path) = :token`, with any comparator. -/
def sizeComparison? (text : List Char) : Option (Atom × List Char) := do
  let rest ← literal? "size".toList text
  let rest ← literal? ['('] (skipBlanks rest)
  let (segments, rest) ← path? (skipBlanks rest)
  let rest ← literal? [')'] (skipBlanks rest)
  let rest ← comparator? (skipBlanks rest)
  let (token, rest) ← token? (skipBlanks rest)
  some (⟨segments, [token]⟩, rest)

/-- The functions of a condition, in small letters only. -/
def functions : List String :=
  ["begins_with", "attribute_exists", "attribute_not_exists", "attribute_type", "contains"]

def argument? (text : List Char) : Option (List (List Char) × List Char) :=
  match text with
  | ',' :: rest => do
    let (token, rest) ← token? (skipBlanks rest)
    some ([token], skipBlanks rest)
  | _ => some ([], text)

/-- `function(path)` or `function(path, :token)`. -/
def call? (text : List Char) : Option (Atom × List Char) := do
  let rest ← functions.findSome? fun function => literal? function.toList text
  let rest ← literal? ['('] (skipBlanks rest)
  let (segments, rest) ← path? (skipBlanks rest)
  let (tokens, rest) ← argument? (skipBlanks rest)
  let rest ← literal? [')'] rest
  some (⟨segments, tokens⟩, rest)

/-- `path BETWEEN :low AND :high`. -/
def between? (text : List Char) : Option (Atom × List Char) := do
  let (segments, rest) ← path? text
  let rest ← keyword? "BETWEEN".toList (← blanks? rest)
  let (low, rest) ← token? (← blanks? rest)
  let rest ← keyword? "AND".toList (← blanks? rest)
  let (high, rest) ← token? (← blanks? rest)
  some (⟨segments, [low, high]⟩, rest)

/-- `path IN (:first, :second)`, with at least one token. -/
def membership? (text : List Char) : Option (Atom × List Char) := do
  let (segments, rest) ← path? text
  let rest ← keyword? "IN".toList (← blanks? rest)
  let rest ← literal? ['('] (skipBlanks rest)
  let (tokens, rest) ← parts? ',' token? (skipBlanks rest)
  let rest ← literal? [')'] (skipBlanks rest)
  some (⟨segments, tokens⟩, rest)

/-- The kinds of atom, in the order in which they are looked for. -/
def kinds : List (List Char → Option (Atom × List Char)) :=
  [comparison?, sizeComparison?, call?, between?, membership?]

/-- The atoms of one kind from left to right. After an atom the search goes on behind it; the first
argument counts the characters of an atom that are still to be passed over. -/
def scan (kind : List Char → Option (Atom × List Char)) : Nat → List Char → List Atom
  | _, [] => []
  | skip + 1, _ :: rest => scan kind skip rest
  | 0, char :: rest =>
    match kind (char :: rest) with
    | some (atom, remaining) => atom :: scan kind (rest.length - remaining.length) rest
    | none => scan kind 0 rest

def atoms (text : List Char) : List Atom :=
  kinds.flatMap fun kind => scan kind 0 text

/-- The placeholders that a condition uses, bound to the names they spell and to the values that
were given for them. -/
structure Placeholders where
  names : List (String × String)
  values : List (String × Value)
  deriving Repr

/-- Bind the names of path segments; each spells its own name. -/
def bindNames (names : List (String × String)) (segments : List (List Char)) :
    List (String × String) :=
  segments.foldl (fun bound segment =>
    Entries.put bound (String.ofList ('#' :: segment)) (String.ofList segment)) names

/-- The value given for a token. Nothing is given for any token by null, nor by what can be searched
and does not have it; whatever else is no map cannot be asked. -/
def givenFor (condition : String) (given : Value) (token : String) : Except Failure Value :=
  match given with
  | .null => .error (.missingValue token condition)
  | .map entries =>
    match Record.get? token entries with
    | some value => .ok value
    | none => .error (.missingValue token condition)
  | other =>
    if other.mentions? (.text token) = some false then .error (.missingValue token condition)
    else .error (.reading .wrongKind)

/-- Bind tokens to their given values, each once; a token without one is a failure. -/
def bindValues (condition : String) (given : Value) (values : List (String × Value)) :
    List String → Except Failure (List (String × Value))
  | [] => .ok values
  | token :: rest =>
    match Entries.get? values token with
    | some _ => bindValues condition given values rest
    | none => do
      let value ← givenFor condition given token
      bindValues condition given (Entries.put values token value) rest

/-- The placeholders of a condition with the values given for its tokens. -/
def parse (condition : String) (given : Value) : Except Failure Placeholders := do
  let found := atoms condition.toList
  let tokens := found.flatMap fun atom => atom.tokens.map fun token => String.ofList (':' :: token)
  let values ← bindValues condition given [] tokens
  .ok ⟨bindNames [] (found.flatMap Atom.segments), values⟩

end RecordMerge.Condition
