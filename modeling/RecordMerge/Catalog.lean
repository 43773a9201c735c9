/-! The parts of the library that are loaded on demand. -/

set_option autoImplicit false

namespace RecordMerge.Catalog

def onDemand : List String :=
  ["Table", "Marshaller", "Reconciler", "merge_records", "AwsCallMetric", "create_boto_config",
   "instrument_client", "open_dynamodb_client"]

def isOnDemand (name : String) : Bool :=
  onDemand.contains name

end RecordMerge.Catalog
