import RecordMerge.Value

/-! What operations note about their course. -/

set_option autoImplicit false

namespace RecordMerge

/-- A note, by what it reports. -/
inductive Event where
  | compiled (text : String) (names values : Nat)
  | mismatched (table : String) (identity : Record)
  | skipped (table : String) (identity : Record)
  | replaced (table : String) (identity : Record)
  | refused (table : String) (identity : Record)
  | inserting (table : String) (identity : Record)
  | inserted (table : String) (identity : Record)
  | reading (keys groups : Nat)
  | writing (operation : String) (requests groups : Nat)
  deriving Repr

namespace Event

/-- How much a note matters. -/
inductive Level where
  | debug
  | info
  | warning
  deriving DecidableEq, Repr

def Level.label : Level → String
  | .debug => "DEBUG"
  | .info => "INFO"
  | .warning => "WARNING"

/-- Recoveries that change stored data without having been asked to are warnings. -/
def level : Event → Level
  | .mismatched _ _ | .replaced _ _ | .inserting _ _ => .warning
  | .skipped _ _ | .refused _ _ => .info
  | _ => .debug

def template : Event → String
  | .compiled _ _ _ => "compiled update expression %s (%d names, %d values)"
  | .mismatched _ _ => "schema mismatch updating %s %s; fetching stored record"
  | .skipped _ _ => "record %s not found in %s; update skipped"
  | .replaced _ _ => "replaced %s %s with merged record"
  | .refused _ _ => "condition check failed for %s %s; write rejected"
  | .inserting _ _ => "record %s not found in %s; inserting"
  | .inserted _ _ => "inserted %s %s"
  | .reading _ _ => "batch_get %d keys in %d groups"
  | .writing _ _ _ => "%s %d requests in %d groups"

def arguments : Event → List Value
  | .compiled text names values => [.text text, .int names, .int values]
  | .skipped table identity | .inserting table identity => [.map identity, .text table]
  | .mismatched table identity | .replaced table identity | .refused table identity
  | .inserted table identity => [.text table, .map identity]
  | .reading keys groups => [.int keys, .int groups]
  | .writing operation requests groups => [.text operation, .int requests, .int groups]

/-- Whether the note is about building an expression, and not about a table. -/
def ofCompiler : Event → Bool
  | .compiled _ _ _ => true
  | _ => false

end Event

end RecordMerge
