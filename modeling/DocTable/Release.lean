import DocTable.Text.Digit

/-!
The version of the library, in the form in which packages are released, and the names that the
library gives out.
-/

namespace DocTable.Release

/-- The rest of a text after one digit or more. -/
private def afterDigits? (p : Char → Bool) (cs : List Char) : Option (List Char) :=
  if cs.takeWhile p = [] then none else some (cs.dropWhile p)

private def afterDot? : List Char → Option (List Char)
  | '.' :: rest => some rest
  | _ => none

/-- The rest of a text after three numbers with dots between them, in digits of any script. -/
def afterNumbers? (cs : List Char) : Option (List Char) := do
  let cs ← afterDot? (← afterDigits? Text.isDigit cs)
  let cs ← afterDot? (← afterDigits? Text.isDigit cs)
  afterDigits? Text.isDigit cs

/-- The number of a release candidate, behind the mark for one. -/
def candidate? : List Char → Option (List Char)
  | '-' :: 'r' :: 'c' :: rest =>
    let rest := (afterDot? rest).getD rest
    let digits := rest.takeWhile Char.isDigit
    match digits, rest.dropWhile Char.isDigit with
    | [], _ => none
    | _, [] | _, ['\n'] => some digits
    | _, _ => none
  | _ => none

/-- A version in the form for packages: `1.2.3-rc.4` becomes `1.2.3rc4`, anything else stays as it
is. -/
def normalized (version : String) : String :=
  let cs := version.toList
  match afterNumbers? cs with
  | none => version
  | some rest =>
    match candidate? rest with
    | some digits => String.ofList (cs.take (cs.length - rest.length) ++ "rc".toList ++ digits)
    | none => version

/-- The version of this library. -/
def version : String := "0.3.0"

/-- The types and functions that the library gives out. -/
def names : List String :=
  ["AttributeConverter", "AttributeDefinition", "AttributeMapper", "AwsCallMetric",
    "build_create_table_request", "build_update_table_request", "ComparisonOperator",
    "create_boto3_config", "CursorMode", "decode_cursor", "DynamodocError",
    "dump_schema_document", "encode_cursor", "get_dynamodb_client", "get_table_document",
    "instrument_boto3_client", "load_schema", "NoMoreDataError", "NotSupportedError", "Page",
    "parse_schema_document", "QueryCursor", "ReadinessState", "ReadinessTimeoutError", "Schema",
    "SchemaDefinitionError", "schema_field", "schema_from_document", "schema_to_document", "Table",
    "TableReadiness", "TranslationError", "translate_conditions", "translate_updates",
    "UnknownFieldError", "UpdateAction", "ValidationError"]

/-- What the library gives out under a name: the text of a version, or the name of a type or
function. -/
def lookup? (name : String) : Option String :=
  if name = "__version__" then some (normalized version)
  else if name = "__repo_version__" then some version
  else names.find? (· = name)

end DocTable.Release
