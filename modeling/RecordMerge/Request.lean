import RecordMerge.Attribute.Store

/-! Requests to the service, and its answers. -/

set_option autoImplicit false

namespace RecordMerge

/-- The operations of the service. -/
inductive Operation where
  | describeTable
  | putItem
  | getItem
  | updateItem
  | batchWriteItem
  | batchGetItem
  deriving DecidableEq, Repr

namespace Operation

def name : Operation → String
  | .describeTable => "describe_table"
  | .putItem => "put_item"
  | .getItem => "get_item"
  | .updateItem => "update_item"
  | .batchWriteItem => "batch_write_item"
  | .batchGetItem => "batch_get_item"

def all : List Operation :=
  [.describeTable, .putItem, .getItem, .updateItem, .batchWriteItem, .batchGetItem]

def ofName? (name : String) : Option Operation :=
  all.find? fun operation => operation.name == name

theorem ofName?_name (operation : Operation) : ofName? operation.name = some operation := by
  cases operation <;> decide +kernel

end Operation

/-- The condition of a full write with its placeholder tables. The text is passed on as it was given;
an empty part is not sent. -/
structure PutCondition where
  text : Value := .null
  names : Record := []
  values : List (Value × Attribute) := []
  deriving Repr

/-- A partial write: the expression applies to the item with the key if the condition holds. -/
structure UpdateRequest where
  table : String
  key : Item
  text : String
  condition : String
  names : List (String × String)
  values : List (String × Attribute)
  deriving Repr

/-- A request to the service. What a batch sends again is whatever the service handed back, and whether
a read is consistent is passed on as it was given. -/
inductive Request where
  | describe (table : String)
  | put (table : String) (item : Item) (condition : PutCondition)
  | get (table : String) (key : Item) (consistent : Value)
  | update (request : UpdateRequest)
  | batchWrite (table : String) (pending : Value)
  | batchGet (table : String) (pending consistent : Value)
  deriving Repr

def field (name : String) (value : Value) : Value × Value :=
  (.text name, value)

/-- The fields of a full write. -/
def PutCondition.fields (condition : PutCondition) : Record :=
  (if condition.text.truthy then [field "ConditionExpression" condition.text] else []) ++
  (if condition.names.isEmpty then []
    else [field "ExpressionAttributeNames" (.map condition.names)]) ++
  (if condition.values.isEmpty then []
    else [field "ExpressionAttributeValues"
      (.map (condition.values.map fun entry => (entry.1, entry.2.wire)))])

/-- The fields of a partial write. The answer shall hold the item after the write, or the item that
made the condition fail. -/
def UpdateRequest.fields (request : UpdateRequest) : Record :=
  [field "TableName" (.text request.table),
   field "Key" (Attribute.wireItem request.key),
   field "UpdateExpression" (.text request.text),
   field "ConditionExpression" (.text request.condition),
   field "ExpressionAttributeNames"
     (.ofNames (request.names.map fun entry => (entry.1, .text entry.2))),
   field "ExpressionAttributeValues" (Attribute.wireItem request.values),
   field "ReturnValues" (.text "ALL_NEW"),
   field "ReturnValuesOnConditionCheckFailure" (.text "ALL_OLD")]

namespace Request

def operation : Request → Operation
  | .describe _ => .describeTable
  | .put _ _ _ => .putItem
  | .get _ _ _ => .getItem
  | .update _ => .updateItem
  | .batchWrite _ _ => .batchWriteItem
  | .batchGet _ _ _ => .batchGetItem

def fields : Request → Record
  | .describe table => [field "TableName" (.text table)]
  | .put table item condition =>
    [field "TableName" (.text table), field "Item" (Attribute.wireItem item)] ++ condition.fields
  | .get table key consistent =>
    [field "TableName" (.text table), field "Key" (Attribute.wireItem key),
     field "ConsistentRead" consistent]
  | .update request => request.fields
  | .batchWrite table pending => [field "RequestItems" (.ofNames [(table, pending)])]
  | .batchGet table pending consistent =>
    [field "RequestItems" (.ofNames [(table,
      .ofNames [("Keys", pending), ("ConsistentRead", consistent)])])]

end Request

/-- What comes back for a request: the fields of a response, an error answer of the service, or a
failure of the client itself, ordinary or not. A call that is interrupted or cancelled is none of
these. -/
inductive Answer where
  | response (fields : Record)
  | refused (error : ServiceError)
  | failed (failure : Failure)
  deriving Repr

/-- Whether the client has failed in no ordinary way. -/
def Answer.aborts : Answer → Bool
  | .failed failure => !failure.ordinary
  | _ => false

@[simp] theorem Answer.aborts_failed (failure : Failure) :
    (Answer.failed failure).aborts = !failure.ordinary := rfl

end RecordMerge
