import RecordMerge.Failure
import RecordMerge.Value.Equality

/-! What errors mean, by their codes and by signatures in their messages. -/

set_option autoImplicit false

namespace RecordMerge.Service

/-- Codes and message parts by which errors are told apart, as they were given. -/
structure Classifier where
  mismatchCode : Value := .text "ValidationException"
  mismatchSignatures : List Value :=
    [.text "The document path provided in the update expression is invalid for update",
      .text "Invalid UpdateExpression"]
  conditionCode : Value := .text "ConditionalCheckFailedException"
  deriving Repr

namespace Classifier

/-- Whether a message has one of the signatures. The search ends at the first that it has, and fails at
one that cannot be looked for. -/
def hasSignature (message : Value) : List Value → Except Failure Bool
  | [] => .ok false
  | part :: rest =>
    match message.mentions? part with
    | some true => .ok true
    | some false => hasSignature message rest
    | none => .error (.reading .wrongKind)

/-- A mismatch needs its code and one of the signatures in the message; it is looked for first. -/
def classify (classifier : Classifier) (code message : Value) : Except Failure Category := do
  let mismatched ← if code.same classifier.mismatchCode
    then hasSignature message classifier.mismatchSignatures else .ok false
  .ok (if mismatched then .schemaMismatch
    else if code.same classifier.conditionCode then .conditionFailed
    else .unclassified)

def classifyError (classifier : Classifier) (code message : String) : Except Failure Category :=
  classifier.classify (.text code) (.text message)

theorem classify_mismatchError :
    ({} : Classifier).classifyError mismatchError.codeText mismatchError.messageText =
      .ok .schemaMismatch := by
  rfl

theorem classify_conditionError (item : Value) :
    ({} : Classifier).classifyError (conditionError item).codeText
      (conditionError item).messageText = .ok .conditionFailed := by
  rfl

end Classifier

end RecordMerge.Service
