import DocTable.Value.Basic

/-!
Everything that can go wrong, by cause. `Failure.kind` is the name under which a caller tells
failures apart, `Failure.message?` the text, for those failures that carry one.
-/

namespace DocTable

/-- Why a value has no form in the store. -/
inductive Unstorable where
  | notFinite
  | unknownKind (kind shown : String)
  | notHashable (kind : String)
  /-- An integer has too many digits to be written. -/
  | tooLong
deriving DecidableEq

def Unstorable.message : Unstorable → String
  | notFinite => "Infinity and NaN not supported"
  | unknownKind kind shown =>
    "Unsupported type \"<class '" ++ kind ++ "'>\" for value \"" ++ shown ++ "\""
  | notHashable kind => "unhashable type: '" ++ kind ++ "'"
  | tooLong =>
    "Exceeds the limit (4300 digits) for integer string conversion; " ++
      "use sys.set_int_max_str_digits() to increase the limit"

/-- The name under which callers tell such faults apart where no field is blamed. -/
def Unstorable.kind : Unstorable → String
  | tooLong => "ValueError"
  | _ => "TypeError"

/-- Why a value is refused by a field. -/
inductive FieldFault where
  | required
  | wrongKind (declared kind : String)
  | wrongElement (declared kind : String)
  | emptySet
  | unstorable (why : Unstorable)
deriving DecidableEq

def FieldFault.message : FieldFault → String
  | required => "value is required"
  | wrongKind declared kind => "expected " ++ declared ++ " value, got " ++ kind
  | wrongElement declared kind => "expected " ++ declared ++ " element, got " ++ kind
  | emptySet => "sets must not be empty"
  | unstorable why => why.message

/-- Why the arguments of a table operation are refused. -/
inductive RequestFault where
  | keyRequired
  | keysRequired
  | itemRequired
  | updatesRequired
  | missingKeyField (field : String)
  | extraKeyAttributes (names : List Spelling)
  | expectedTwice
  | recordKind (kind : String)
  | conditionsKind
  | updatesKind
  | keyUpdate (field : String)
  | noUpdates
  | projectionOfCount
  | limit
  | cursor
  | capacity
  | billingMode (mode : String)
  | throughputNotAllowed
  | noStatus (table : String)
  | resetInFlight (table : String)
deriving DecidableEq

def RequestFault.message : RequestFault → String
  | keyRequired => "key is required"
  | keysRequired => "keys are required"
  | itemRequired => "item is required"
  | updatesRequired => "updates is required"
  | missingKeyField field => "missing key field: " ++ field
  | extraKeyAttributes names =>
    "key contains non-key attributes: " ++ (Value.list (names.map .text)).shown
  | expectedTwice => "pass either expected or Expected, not both"
  | recordKind kind => "record must be a mapping or dataclass instance, got " ++ kind
  | conditionsKind => "conditions must be a mapping"
  | updatesKind => "updates must be a mapping"
  | keyUpdate field => "cannot update key field: " ++ field
  | noUpdates => "no updates provided"
  | projectionOfCount => "projection cannot be combined with a count-only request"
  | limit => "limit must be > 0"
  | cursor => "invalid cursor"
  | capacity => "capacity units must be > 0"
  | billingMode mode => "unsupported billing_mode: " ++ mode
  | throughputNotAllowed =>
    "provisioned_throughput is not allowed when billing_mode=PAY_PER_REQUEST"
  | noStatus table => "table description did not report a status: " ++ table
  | resetInFlight table => "cannot reset readiness while a check is in flight: " ++ table

/-- What is wrong with a schema document. -/
inductive DocumentFault where
  | unreadable
  | notMap
  | version (shown : String)
  | noTables
  | missingTables
  | tableNotFound (name : String)
  | unnamed
  | noKeys (table : String)
  | noAttributes (table : String)
  | entryKind (table : String) (index : Nat)
  | noField (table : String) (index : Nat)
  | noType (table field : String)
  | notFinite (path : String)
  | keyKind (path shown : String)
  | valueKind (path kind : String)
deriving DecidableEq

def DocumentFault.message : DocumentFault → String
  | unreadable => "invalid schema YAML/JSON"
  | notMap => "schema document must be a map/object"
  | version shown => "unsupported schema_version: " ++ shown
  | noTables => "schema document must include tables[]"
  | missingTables => "schema document missing tables[]"
  | tableNotFound name => "table not found in schema document: " ++ name
  | unnamed => "table entry missing name"
  | noKeys table => "table " ++ table ++ ": missing keys"
  | noAttributes table => "table " ++ table ++ ": missing attributes[]"
  | entryKind table index =>
    "table " ++ table ++ ": attributes[" ++ naturalText index ++ "] must be a map"
  | noField table index =>
    "table " ++ table ++ ": attributes[" ++ naturalText index ++ "] missing field"
  | noType table field => "table " ++ table ++ ": " ++ field ++ " missing type"
  | notFinite path => "schema document contains non-finite float at " ++ path
  | keyKind path shown => "schema document contains non-string key at " ++ path ++ ": " ++ shown
  | valueKind path kind => "schema document contains non-JSON value at " ++ path ++ ": " ++ kind

/-- Why a condition or an update cannot be expressed. -/
inductive TranslationFault where
  | unknownOperator (type field : String)
  | severalOperators (field : String)
  | operator (token : String)
  | takesNoValue (name field : String)
  | membersExpected
  | pairExpected
  | arrayOperand (name field : String)
  | action (token field : String)
  | notAddable (field : String)
  | updateOperator (token : String)
  | operandsExpected (token : String)
  | severalActions (field : String)
  | updatedTwice (field : String)
deriving DecidableEq

def TranslationFault.message : TranslationFault → String
  | unknownOperator type field =>
    "unknown conditional operator for " ++ type ++ " field: " ++ field
  | severalOperators field => "exactly one conditional operator expected for field: " ++ field
  | operator token => "conditional operator \"" ++ token ++ "\" is not supported"
  | takesNoValue name field => "operator " ++ name ++ " takes no comparison value: " ++ field
  | membersExpected => "IN operator must have a non-empty array as the comparison value"
  | pairExpected =>
    "BETWEEN operator must have an array of two elements as the comparison value"
  | arrayOperand name field =>
    "operator " ++ name ++ " does not support array values: " ++ field
  | action token field =>
    "update action \"" ++ token ++ "\" is not supported for field: " ++ field
  | notAddable field => "ADD requires a number or set field: " ++ field
  | updateOperator token => "update operator \"" ++ token ++ "\" is not supported"
  | operandsExpected token => token ++ " expects a mapping of field to value"
  | severalActions field => "exactly one action expected for field: " ++ field
  | updatedTwice field => "field is updated more than once: " ++ field

/-- Why declarations do not make a schema. -/
inductive LayoutFault where
  | attributeType (field type : String)
  | keyAttribute (field : String)
  | keyType (field type : String)
  | undeclaredKey (field : String)
  | noInference (field : String)
  | untypedConverter (field : String)
  | hashKeys (count : Nat)
  | rangeKeys (count : Nat)
  | bothKeys (field : String)
  | sharedAttribute (name first second : String)
  | notRecordType
deriving DecidableEq

def LayoutFault.message : LayoutFault → String
  | attributeType field type => "unsupported attribute type for " ++ field ++ ": " ++ type
  | keyAttribute field => "key attribute must be S/N/B: " ++ field
  | keyType field type => "unsupported key type for " ++ field ++ ": " ++ type
  | undeclaredKey field => "key field is not a declared attribute: " ++ field
  | noInference field => "cannot infer attribute type for field: " ++ field
  | untypedConverter field => "fields with a converter must declare type: " ++ field
  | hashKeys count =>
    "schema must define exactly one hash key (found " ++ naturalText count ++ ")"
  | rangeKeys count =>
    "schema must define at most one range key (found " ++ naturalText count ++ ")"
  | bothKeys field => "field cannot be both hash and range key: " ++ field
  | sharedAttribute name first second =>
    "duplicate attribute name " ++ Text.quoted name ++ ": " ++ first ++ ", " ++ second
  | notRecordType => "model_type must be a dataclass"

/-- What is wrong with a continuation key or with the token of one. -/
inductive TokenFault where
  | singleKey
  | text (kind : String)
  | texts (kind : String)
  | bytes (kind : String)
  | portableBytes (kind : String)
  | byteList
  | boolean
  | null
  | list
  | map
  | unknownKind (kind : String)
  | keyKind
  | empty
  | notObject
  | noLastKey
deriving DecidableEq

def TokenFault.message : TokenFault → String
  | singleKey => "attribute value must be a single-key map"
  | text kind => kind ++ " value must be a string"
  | texts kind => kind ++ " value must be a list of strings"
  | bytes kind => kind ++ " value must be bytes"
  | portableBytes kind => kind ++ " value must be a base64 string"
  | byteList => "BS value must be a list"
  | boolean => "BOOL value must be a boolean"
  | null => "NULL value must be true"
  | list => "L value must be a list"
  | map => "M value must be a map"
  | unknownKind kind => "unsupported attribute value type: " ++ kind
  | keyKind => "last_key must be a map"
  | empty => "cursor is empty"
  | notObject => "cursor must decode to an object"
  | noLastKey => "cursor lastKey is invalid"

/-- Why an argument is refused. -/
inductive ArgumentFault where
  | tableName
  | tableNameOrSchema
  | pollInterval
  | operation (name : String)
  | twoDefaults
deriving DecidableEq

def ArgumentFault.message : ArgumentFault → String
  | tableName => "table_name is required"
  | tableNameOrSchema => "table_name is required (or set Schema.table_name)"
  | pollInterval => "poll_interval_seconds must be >= 0"
  | operation name => "unsupported operation: " ++ name
  | twoDefaults => "schema_field: cannot set both default and default_factory"

/-- How a call differs from the scripted one. -/
inductive Mismatch where
  | mapExpected (path kind : String)
  | missing (path shownKey : String)
  | listExpected (path kind : String)
  | length (path : String) (expected actual : Nat)
  | differs (path expected actual : String)
  | forbidden (key : String)
  | unexpected (name : String)
  | operation (expected actual : String)
  | pending (operations : List String)
deriving DecidableEq

def Mismatch.message : Mismatch → String
  | mapExpected path kind => path ++ ": expected dict, got " ++ kind
  | missing path shownKey => path ++ ": missing key " ++ shownKey
  | listExpected path kind => path ++ ": expected list, got " ++ kind
  | length path expected actual =>
    path ++ ": expected " ++ naturalText expected ++ " items, got " ++ naturalText actual
  | differs path expected actual => path ++ ": expected " ++ expected ++ ", got " ++ actual
  | forbidden key => "forbidden key: " ++ key
  | unexpected name => "unexpected call: " ++ name
  | operation expected actual => "expected " ++ expected ++ ", got " ++ actual
  | pending operations =>
    "pending expected calls: " ++
      (Value.list (operations.map fun name : String => .text name)).shown

/-- An error that the store answers with. -/
structure ServiceError where
  response : Entries
  operation : String

namespace ServiceError

def part? (entries : Entries) (name : String) : Option Value :=
  entries.find? (.text name)

def detail? (e : ServiceError) (name : String) : Option Value :=
  match part? e.response "Error" with
  | some (.map details) => part? details name
  | _ => none

/-- The text of the error code; empty if there is none. -/
def code (e : ServiceError) : String :=
  ((e.detail? "Code").map Value.plain).getD ""

/-- The remark on a call that was retried as often as allowed. -/
def retryText (e : ServiceError) : String :=
  match part? e.response "ResponseMetadata" with
  | some (.map metadata) =>
    if ((part? metadata "MaxAttemptsReached").map Value.truthy).getD false then
      match part? metadata "RetryAttempts" with
      | some attempts => " (reached max retries: " ++ attempts.plain ++ ")"
      | none => ""
    else ""
  | _ => ""

def message (e : ServiceError) : String :=
  "An error occurred (" ++ ((e.detail? "Code").map Value.plain).getD "Unknown" ++
    ") when calling the " ++ e.operation ++ " operation" ++ e.retryText ++ ": " ++
    ((e.detail? "Message").map Value.plain).getD "Unknown"

/-- The error of an operation with a code and a message, which is the code if left empty. -/
def ofCode (code : String) (message : String) (operation : String) : ServiceError :=
  ⟨[(.text "Error", .map [(.text "Code", .text code),
    (.text "Message", .text (if message = "" then code else message))])], operation⟩

end ServiceError

/-- A failure of an operation. -/
inductive Failure where
  | field (name : String) (fault : FieldFault)
  | request (fault : RequestFault)
  | document (fault : DocumentFault)
  | translation (fault : TranslationFault)
  | unknownField (name : String)
  | noMoreData
  | streamedScan
  | timedOut (table : String) (seconds : Binary64)
  | layout (fault : LayoutFault)
  | token (fault : TokenFault)
  | argument (fault : ArgumentFault)
  | mismatch (mismatch : Mismatch)
  | service (error : ServiceError)
  | assertion (text : String)
  | runtime (text : String)
  /-- The general error that some wait took too long. A gate tells it from its own `timedOut`. -/
  | timeout (text : String)
  /-- An error of any other kind, which has a name; nothing here looks into it. -/
  | other (kind : { name : String // name ≠ "" }) (text : String)
  /-- Not an error of the program but a request to stop it; handlers of errors let it pass. -/
  | interrupt (text : String)
  | unstorable (why : Unstorable)
  | signal (signal : Decimal.Signal)
  | signalingComparison
  | wrongKind
  | noAttribute
  | missingKey
  /-- A text or a list has no such element. -/
  | noElement
  /-- A value that contains itself was followed without end. -/
  | endless
  | badText
  | badJson
  | badUtf8
  /-- A text with halves of pairs has no bytes. -/
  | unencodable
  | badBase64
  | tooLarge
  | retryLimit

namespace Failure

def signalName : Decimal.Signal → String
  | .overflow => "Overflow"
  | .underflow => "Underflow"
  | .inexact => "Inexact"
  | .rounded => "Rounded"
  | .clamped => "Clamped"

/-- The name under which callers tell failures apart. -/
def kind : Failure → String
  | field .. | request _ | document _ => "ValidationError"
  | translation _ => "TranslationError"
  | unknownField _ => "UnknownFieldError"
  | noMoreData => "NoMoreDataError"
  | streamedScan => "NotSupportedError"
  | timedOut .. => "ReadinessTimeoutError"
  | layout _ => "SchemaDefinitionError"
  | token _ | argument _ | badText => "ValueError"
  | mismatch _ | assertion _ => "AssertionError"
  | service _ => "ClientError"
  | runtime _ => "RuntimeError"
  | timeout _ => "TimeoutError"
  | other kind _ => kind
  | interrupt _ => "KeyboardInterrupt"
  | signal s => signalName s
  | signalingComparison => "InvalidOperation"
  | unstorable why => why.kind
  | wrongKind => "TypeError"
  | noAttribute => "AttributeError"
  | missingKey => "KeyError"
  | noElement => "IndexError"
  | endless => "RecursionError"
  | badJson => "JSONDecodeError"
  | badUtf8 => "UnicodeDecodeError"
  | unencodable => "UnicodeEncodeError"
  | badBase64 => "Error"
  | tooLarge => "OverflowError"
  | retryLimit => "InvalidMaxRetryAttemptsError"

/-- The text of a failure, for those that carry one. -/
def message? : Failure → Option String
  | field name fault => some (name ++ ": " ++ fault.message)
  | request fault => some fault.message
  | document fault => some fault.message
  | translation fault => some fault.message
  | unknownField name => some ("unknown field: " ++ name)
  | noMoreData =>
    some "there is no more data to retrieve, last execution did not yield a continuation key"
  | streamedScan =>
    some "streaming scan results is not supported; page with fetch_next()"
  | timedOut table seconds =>
    some ("timed out after " ++ seconds.toText ++ "s waiting for table to become usable: " ++
      table)
  | layout fault => some fault.message
  | token fault => some fault.message
  | argument fault => some fault.message
  | mismatch m => some m.message
  | service error => some error.message
  | assertion text | runtime text | interrupt text => some text
  | _ => none

def isInterrupt : Failure → Bool
  | interrupt _ => true
  | _ => false

/-- Whether the failure is a refusal of the library's own: a `ValidationError` or one of its
special cases. -/
def isValidation : Failure → Bool
  | field .. | request _ | document _ | translation _ | unknownField _ => true
  | _ => false

/-- Whether the failure blames a value: malformed text or a refused argument. -/
def isBadValue : Failure → Bool
  | layout _ | token _ | argument _ | badText | badJson | badUtf8 | unencodable | badBase64 => true
  | unstorable why => why = .tooLong
  | _ => false

/-- The error code that the store gave, empty for all other failures. -/
def code : Failure → String
  | service error => error.code
  | _ => ""

def isNotFound (f : Failure) : Bool :=
  f.code = "ResourceNotFoundException"

def isConditionFailed (f : Failure) : Bool :=
  f.code = "ConditionalCheckFailedException"

end Failure

/-- The outcome of an operation. -/
abbrev Outcome (α : Type) := Except Failure α

end DocTable
