import RecordMerge.Entries
import RecordMerge.Metric
import RecordMerge.Text.Blank
import RecordMerge.Value.Order

/-! How a client is opened: where the service is, and how patiently it is asked. -/

set_option autoImplicit false

namespace RecordMerge.Connection

/-- Named settings of the surroundings, nearly always texts. -/
abbrev Environment := Record

/-- A setting that is there and not empty. -/
def setting? (environment : Environment) (name : String) : Option Value :=
  (environment.get? name).filter Value.truthy

/-- A setting without the blanks at its ends. Only texts and plain rows of bytes have ends. -/
def trimmed : Value → Except Failure Value
  | .text given => .ok (.text (Text.trim given))
  | .bytes (.wrapped _) _ => .error (.reading .noEntries)
  | .bytes form given => .ok (.bytes form (Text.trimBytes given))
  | _ => .error (.reading .noEntries)

/-- The address of the service, if one is set to more than blanks; otherwise null. -/
def endpoint (environment : Environment) : Except Failure Value :=
  match setting? environment "DYNAMODB_ENDPOINT" with
  | none => .ok .null
  | some given => do
    let address ← trimmed given
    .ok (if address.truthy then address else .null)

def defaultRegion : Value := .text "us-east-1"

/-- The first region that is set, or the default. -/
def region (environment : Environment) : Value :=
  ((setting? environment "AWS_REGION").or (setting? environment "AWS_DEFAULT_REGION")).getD
    defaultRegion

/-- Timeouts in seconds, and how often and by which rule a request is sent again. -/
structure Patience where
  connectTimeout : Value := .float (.ofRatio false 2 1)
  readTimeout : Value := .float (.ofRatio false 1 1)
  maxAttempts : Value := .int 6
  retryMode : Value := .text "adaptive"
  deriving Repr

def retryModes : List String :=
  ["legacy", "standard", "adaptive"]

def isRetryMode : Value → Bool
  | .text mode => retryModes.contains mode
  | _ => false

/-- The fault of a rule that is unknown, unless it cannot even be shown. -/
def unknownMode (mode : Value) : Failure :=
  match mode.toText? with
  | some text => .setting (.retryMode text)
  | none => .reading .wrongKind

/-- The settings, unless the number of attempts is negative or the rule is unknown. -/
def Patience.checked (patience : Patience) : Except Failure Patience := do
  if ← patience.maxAttempts.negative then
    .error (.setting (.attempts patience.maxAttempts.toText))
  else if isRetryMode patience.retryMode then .ok patience
  else .error (unknownMode patience.retryMode)

/-- Settings by name; one that is not named keeps its default, and there are no others. -/
def Patience.ofNamed (given : List (String × Value)) : Except Failure Patience :=
  given.foldlM (fun patience entry =>
    match entry with
    | ("connect_timeout", value) => .ok { patience with connectTimeout := value }
    | ("read_timeout", value) => .ok { patience with readTimeout := value }
    | ("max_attempts", value) => .ok { patience with maxAttempts := value }
    | ("retry_mode", value) => .ok { patience with retryMode := value }
    | _ => .error (.reading .wrongKind)) {}

/-- The settings by which a client is told how patient to be: known ones, or a value of the caller's
own. -/
inductive Config where
  | patience (settings : Patience)
  | given (value : Value)
  deriving Repr

/-- The given settings, or the usual ones if they are absent or empty. -/
def Config.orUsual : Config → Config
  | .given value => if value.truthy then .given value else .patience {}
  | config => config

/-- The settings themselves; another value has none of their parts. -/
def Config.settings : Config → Except Failure Patience
  | .patience settings => .ok settings
  | .given _ => .error (.reading .noEntries)

/-- What a client is opened with. -/
structure Options where
  config : Config
  fields : List (String × Value)
  deriving Repr

/-- What a caller says about a client. An absent or empty region, endpoint or config leaves the choice
to the environment or to the default. -/
structure Wish where
  region : Value := .null
  endpoint : Value := .null
  config : Config := .given .null
  environment : Value := .map []
  observer : Observer := .nobody
  extra : List (String × Value) := []
  deriving Repr

namespace Wish

/-- The wish with a further part. Five names belong to the wish itself. No value can take notes, but
null asks for none. -/
def add (wish : Wish) (part : String × Value) : Wish :=
  match part with
  | ("region", value) => { wish with region := value }
  | ("endpoint_url", value) => { wish with endpoint := value }
  | ("config", value) => { wish with config := .given value }
  | ("environ", value) => { wish with environment := value }
  | ("metrics", value) => { wish with observer := if value.isNull then .nobody else .deaf }
  | _ => { wish with extra := Entries.put wish.extra part.1 part.2 }

/-- The wish with further parts, none of which may be settled already. -/
def addAll (wish : Wish) (settled : List String) (parts : List (String × Value)) :
    Except Failure Wish :=
  if parts.any fun part => settled.contains part.1 then .error (.reading .wrongKind)
  else .ok (parts.foldl add wish)

/-- The surroundings of the wish, which have to be a map once they are asked. -/
def surroundings (wish : Wish) : Except Failure Environment :=
  wish.environment.asRecord

/-- Names of further parts that the opening of a client has uses of its own for. -/
def settledParts : List String :=
  [Script.ownName, "service"]

/-- What the client is opened with. A part of the wish wins over the environment, which is not asked
for what the wish says; further parts win over both. -/
def options (wish : Wish) : Except Failure Options := do
  let chosen ← if wish.region.truthy then .ok wish.region else wish.surroundings.map Connection.region
  let address ←
    if wish.endpoint.truthy then .ok wish.endpoint else wish.surroundings.bind Connection.endpoint
  if wish.extra.any fun part => settledParts.contains part.1 then .error (.reading .wrongKind)
  let given := if address.truthy then [("endpoint_url", address)] else []
  .ok ⟨wish.config.orUsual, Entries.putAll (("region_name", chosen) :: given) wish.extra⟩

/-- The wish with further parts, and what the client is then opened with. -/
def opened (wish : Wish) (settled : List String) (parts : List (String × Value)) :
    Except Failure (Wish × Options) := do
  let wish ← wish.addAll settled parts
  .ok (wish, ← wish.options)

end Wish

theorem truthy_of_setting? {environment : Environment} {name : String} {value : Value}
    (found : setting? environment name = some value) : value.truthy = true :=
  (Option.filter_eq_some_iff.1 found).2

/-- There always is a region. -/
theorem truthy_region (environment : Environment) : (region environment).truthy = true := by
  simp only [region]
  cases first : setting? environment "AWS_REGION" with
  | some name => exact truthy_of_setting? first
  | none =>
    cases second : setting? environment "AWS_DEFAULT_REGION" with
    | some name => exact truthy_of_setting? second
    | none => simp [defaultRegion, Value.truthy]

end RecordMerge.Connection
