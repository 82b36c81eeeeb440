import DocTable.Token.Base64
import DocTable.Stored.Basic
import DocTable.Json.Printer
import DocTable.Json.Reader

/-!
Tokens of continuation keys: a key, that is a map from names to attribute values, as a text that
can stand in a URL. Inside, byte strings are in base 64, names are sorted and the whole is a
compact tree in the JSON format. Main functions: `KeyToken.encode` and `KeyToken.decode`.
-/

namespace DocTable

namespace Attr

/-- How the byte strings in an attribute value are read. -/
abbrev ByteReader := String → Value → Outcome (Bool × List UInt8)

/-- Byte strings that are held as such. -/
def nativeBytes : ByteReader
  | _, .bytes changeable content => .ok (changeable, content)
  | code, _ => .error (.token (.bytes code))

/-- Byte strings that are held as texts in base 64. -/
def portableBytes : ByteReader
  | _, .text s => do return (false, ← Base64.decode .plain s.mended.toList)
  | code, _ => .error (.token (.portableBytes code))

def textsOf (code : String) : Value → Outcome (List Spelling)
  | .list items =>
    match items.mapM textOf? with
    | some ss => .ok ss
    | none => .error (.token (.texts code))
  | _ => .error (.token (.texts code))
where
  textOf? : Value → Option Spelling
    | .text s => some s
    | _ => none

/-- The entries of a map by ascending keys, read one after the other. -/
def sortedAttrs (entries : List (Value × Outcome Attr)) : Outcome (List (Spelling × Attr)) := do
  let sorted ← Value.sortedBy (fun a b => a.1.less b.1) entries
  let attrs ← sorted.mapM fun (k, a) => do return (← k.spelled, ← a)
  return OrderedMap.ofList attrs

mutual

/-- Reads an attribute value, which is a map with one entry of a known kind. Names in maps are
brought in order. The limit is for the attribute values that stand in one another. -/
def read (limit : Option Nat) (bytesOf : ByteReader) : Value → Outcome Attr
  | .map [(k, v)] => do
    let limit ← deeper limit
    let code ← k.plainText
    match Tag.ofCode? code with
    | some .text =>
      match v with
      | .text s => .ok (.text s)
      | _ => .error (.token (.text code))
    | some .number =>
      match v with
      | .text s => .ok (.number s)
      | _ => .error (.token (.text code))
    | some .texts => do return .texts (← textsOf code v)
    | some .numbers => do return .numbers (← textsOf code v)
    | some .bytes => do
      let (changeable, content) ← bytesOf code v
      return .bytes changeable content
    | some .byteSets =>
      match v with
      | .list items => do return .byteSets ((← items.mapM (bytesOf code)).map (·.2))
      | _ => .error (.token .byteList)
    | some .bool =>
      match v with
      | .bool b => .ok (.bool b)
      | _ => .error (.token .boolean)
    | some .null =>
      match v with
      | .bool true => .ok .null
      | _ => .error (.token .null)
    | some .list => readList limit bytesOf v
    | some .map => readMap limit bytesOf v
    | none => .error (.token (.unknownKind code))
  | _ => do
    let _ ← deeper limit
    throw (.token .singleKey)

def readList (limit : Option Nat) (bytesOf : ByteReader) : Value → Outcome Attr
  | .list items => do return .list (← readItems limit bytesOf items)
  | _ => .error (.token .list)

def readItems (limit : Option Nat) (bytesOf : ByteReader) : List Value → Outcome (List Attr)
  | [] => .ok []
  | v :: rest => do return (← read limit bytesOf v) :: (← readItems limit bytesOf rest)

def readMap (limit : Option Nat) (bytesOf : ByteReader) : Value → Outcome Attr
  | .map entries => do return .map (← sortedAttrs (readEntries limit bytesOf entries))
  | _ => .error (.token .map)

def readEntries (limit : Option Nat) (bytesOf : ByteReader) :
    List (Value × Value) → List (Value × Outcome Attr)
  | [] => []
  | (k, v) :: rest => (k, read limit bytesOf v) :: readEntries limit bytesOf rest

end

def base64Text (content : List UInt8) : Json :=
  .text (String.ofList (Base64.encode .plain content))

mutual

/-- The tree for an attribute value, with byte strings in base 64. -/
def toJson : Attr → Json
  | text s => .object [("S", .text s)]
  | number s => .object [("N", .text s)]
  | bytes _ content => .object [("B", base64Text content)]
  | bool b => .object [("BOOL", .bool b)]
  | null => .object [("NULL", .bool true)]
  | texts members => .object [("SS", .array (members.map .text))]
  | numbers members => .object [("NS", .array (members.map .text))]
  | byteSets members => .object [("BS", .array (members.map base64Text))]
  | list items => .object [("L", .array (toJsons items))]
  | map entries => .object [("M", .object (toMembers entries))]

def toJsons : List Attr → List Json
  | [] => []
  | a :: rest => toJson a :: toJsons rest

def toMembers : List (Spelling × Attr) → List (Spelling × Json)
  | [] => []
  | (name, a) :: rest => (name, toJson a) :: toMembers rest

end

end Attr

namespace KeyToken

/-- The name under which a token holds its key. -/
def keyName : String := "lastKey"

/-- How many parts may stand in one another, if that is limited: arrays and objects in the text of
a token, and attribute values in a key. -/
structure Nesting where
  text : Option Nat := none
  values : Option Nat := none

/-- The tree within a token. -/
def treeOf (key : List (Spelling × Attr)) : Json :=
  .object [(keyName, .object (Attr.toMembers key))]

/-- The text within a token. -/
def payload (key : List (Spelling × Attr)) (limit : Option Nat := none) : Outcome String :=
  if limit.all fun n => (treeOf key).depth ≤ n then
    if (treeOf key).isPlain then .ok ((treeOf key).render .minimal) else .error .unencodable
  else .error .endless

/-- The token of a key; empty where there is no key. -/
def encode (key : Value) (limits : Nesting := {}) : Outcome String :=
  if key.truthy then
    match key with
    | .map entries => do
      let key ← Attr.sortedAttrs (Attr.readEntries limits.values Attr.nativeBytes entries)
      let text ← payload key limits.text
      return String.ofList (Base64.encodeBare .forUrls text.toUTF8.toList)
    | _ => .error (.token .keyKind)
  else .ok ""

/-- The text that a token holds. -/
def contents (token : String) : Outcome String := do
  let cs := token.toList
  let bytes ← Base64.decode .forUrls (cs ++ Base64.padding cs.length)
  match String.fromUTF8? ⟨bytes.toArray⟩ with
  | some s => .ok s
  | none => .error .badUtf8

/-- The key that a tree holds. -/
def keyOf (parsed : Value) (limit : Option Nat := none) : Outcome (List (Spelling × Attr)) :=
  match parsed with
  | .map entries =>
    match OrderedMap.find? entries (.text keyName) with
    | some (.map (e :: rest)) =>
      Attr.sortedAttrs (Attr.readEntries limit Attr.portableBytes (e :: rest))
    | _ => .error (.token .noLastKey)
  | _ => .error (.token .notObject)

/-- The text of what is given as a token, without blanks around it. -/
def stripped (token : Value) : Outcome String :=
  if token.truthy then do return Text.strip (← token.plainText) else .ok ""

/-- The key that a text with a tree in it holds. -/
def keyIn (text : String) (limits : Nesting) : Outcome Value := do
  let key ← keyOf (← Json.parse text limits.text).toValue limits.values
  return .map (Attr.toEntries key)

/-- The key of a token, which may have blanks around it. -/
def decode (token : Value) (limits : Nesting := {}) : Outcome Value := do
  let shown ← stripped token
  if shown = "" then .error (.token .empty) else keyIn (← contents shown) limits

end KeyToken

end DocTable
