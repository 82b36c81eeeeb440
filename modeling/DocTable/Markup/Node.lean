import DocTable.Markup.Tag
import DocTable.Markup.Token.Lexer

/-!
The tree of a document: scalars, lists and maps with their tags. `Node.ofText` reads a text, which
holds one document at most. References are replaced by the nodes that they name.
-/

namespace DocTable.Markup

/-- A part of a document. -/
inductive Node where
  | scalar (tag : Tag) (text : String)
  | list (tag : Tag) (items : List Node)
  | map (tag : Tag) (entries : List (Node × Node))
  /-- A reference to a collection from inside of it. -/
  | enclosing

namespace Node

/-- What is known while the tokens of a document are read: the tokens that are left, and the
nodes that references may name. -/
structure Reading where
  tokens : List Token
  anchors : OrderedMap String Node

/-- A step of the reading. -/
abbrev Reads (α : Type) := StateT Reading Outcome α

/-- A scalar without text, which stands where a part is left out. -/
def absent : Node :=
  .scalar .null ""

private def peek : Reads Token := do
  match (← get).tokens with
  | [] => throw unreadable
  | t :: _ => return t

private def skip : Reads Unit :=
  modify fun r => { r with tokens := r.tokens.drop 1 }

/-- Stops at a token that does not belong here. -/
private def refuse {α : Type} (t : Token) : Reads α :=
  match t with
  | .fault cause => throw cause
  | _ => throw unreadable

/-- What stands in front of a part of a document. -/
structure Properties where
  anchor : Option String
  tag : Option String

/-- The handles that need no directive. -/
def standardHandles : OrderedMap String String :=
  [("!", "!"), ("!!", Tag.scheme)]

/-- The full name of a tag. -/
private def tagName (handles : OrderedMap String String) (handle : Option String)
    (suffix : String) : Reads String :=
  match handle with
  | none => return suffix
  | some handle =>
    match handles.find? handle with
    | some meaning => return meaning ++ suffix
    | none => throw unreadable

private def readProperties (handles : OrderedMap String String) : Reads Properties := do
  match ← peek with
  | .anchor name =>
    skip
    match ← peek with
    | .tag handle suffix =>
      skip
      return ⟨some name, some (← tagName handles handle suffix)⟩
    | _ => return ⟨some name, none⟩
  | .tag handle suffix =>
    skip
    match ← peek with
    | .anchor name =>
      skip
      return ⟨some name, some (← tagName handles handle suffix)⟩
    | _ => return ⟨none, some (← tagName handles handle suffix)⟩
  | _ => return ⟨none, none⟩

/-- The tag of a part that is written without one, or with one that leaves it open. -/
def Properties.tagOr (p : Properties) (standard : Tag) : Tag :=
  match p.tag with
  | none => standard
  | some name => if name = "!" then standard else .ofName name

/-- The node of a scalar. Unless it is plain or its tag leaves it open, it is a text. -/
def Properties.scalar (p : Properties) (plain : Bool) (text : String) : Node :=
  .scalar (p.tagOr (if plain || p.tag = some "!" then .ofPlain text else .text)) text

/-- Enters a node under an anchor. An anchor is given once. -/
private def enter (p : Properties) (n : Node) : Reads Unit := do
  match p.anchor with
  | none => return
  | some name =>
    if (← get).anchors.has name then throw unreadable
    modify fun r => { r with anchors := r.anchors.put name n }

/-- Reads a collection. References to it from inside are left as they are. -/
private def collect (p : Properties) (read : Reads Node) : Reads Node := do
  enter p .enclosing
  let n ← read
  match p.anchor with
  | none => return n
  | some name =>
    modify fun r => { r with anchors := r.anchors.put name n }
    return n

private def followsEntry : Token → Bool
  | .entry | .blockEnd => true
  | _ => false

private def followsBareEntry : Token → Bool
  | .entry | .key | .value | .blockEnd => true
  | _ => false

private def followsKey : Token → Bool
  | .key | .value | .blockEnd => true
  | _ => false

private def followsFlowItem : Token → Bool
  | .comma | .flowListEnd => true
  | _ => false

private def followsFlowPart : Token → Bool
  | .comma | .flowMapEnd => true
  | _ => false

private def isFlowValue : Token → Bool
  | .value => true
  | _ => false

mutual

/-- Reads a part. In a flow collection it cannot be a block, and only in a map can it be a list
whose entries stand at the column of the keys. -/
def read (handles : OrderedMap String String) (block bare : Bool) : Nat → Reads Node
  | 0 => throw unreadable
  | fuel + 1 => do
    match ← peek with
    | .reference name =>
      skip
      match (← get).anchors.find? name with
      | some n => return n
      | none => throw unreadable
    | _ =>
      let p ← readProperties handles
      let t ← peek
      match t, block, bare with
      | .entry, _, true =>
        collect p do return .list (p.tagOr .list) (← readBareItems handles fuel)
      | .scalar plain text, _, _ =>
        skip
        let n := p.scalar plain text
        enter p n
        return n
      | .flowList, _, _ =>
        skip
        collect p do return .list (p.tagOr .list) (← readFlowItems handles true fuel)
      | .flowMap, _, _ =>
        skip
        collect p do return .map (p.tagOr .map) (← readFlowEntries handles true fuel)
      | .blockList, true, _ =>
        skip
        collect p do return .list (p.tagOr .list) (← readItems handles fuel)
      | .blockMap, true, _ =>
        skip
        collect p do return .map (p.tagOr .map) (← readEntries handles fuel)
      | .fault cause, _, _ => throw cause
      | _, _, _ =>
        if p.anchor.isNone && p.tag.isNone then throw unreadable
        let n := p.scalar true ""
        enter p n
        return n

/-- Reads a part unless the next token shows that it is left out. -/
def readUnless (handles : OrderedMap String String) (follows : Token → Bool) (block bare : Bool) :
    Nat → Reads Node
  | 0 => throw unreadable
  | fuel + 1 => do
    if follows (← peek) then return absent else read handles block bare fuel

/-- Reads the items of a list in a block. -/
def readItems (handles : OrderedMap String String) : Nat → Reads (List Node)
  | 0 => throw unreadable
  | fuel + 1 => do
    match ← peek with
    | .entry =>
      skip
      let n ← readUnless handles followsEntry true false fuel
      return n :: (← readItems handles fuel)
    | .blockEnd =>
      skip
      return []
    | t => refuse t

/-- Reads the items of a list that no token ends. -/
def readBareItems (handles : OrderedMap String String) : Nat → Reads (List Node)
  | 0 => throw unreadable
  | fuel + 1 => do
    match ← peek with
    | .entry =>
      skip
      let n ← readUnless handles followsBareEntry true false fuel
      return n :: (← readBareItems handles fuel)
    | _ => return []

/-- Reads the value of a key, which is left out unless its sign comes. -/
def readValue (handles : OrderedMap String String) (follows : Token → Bool) (block : Bool) :
    Nat → Reads Node
  | 0 => throw unreadable
  | fuel + 1 => do
    match ← peek with
    | .value =>
      skip
      readUnless handles follows block block fuel
    | _ => return absent

/-- Reads the entries of a map in a block. -/
def readEntries (handles : OrderedMap String String) : Nat → Reads (List (Node × Node))
  | 0 => throw unreadable
  | fuel + 1 => do
    match ← peek with
    | .key =>
      skip
      let k ← readUnless handles followsKey true true fuel
      let v ← readValue handles followsKey true fuel
      return (k, v) :: (← readEntries handles fuel)
    | .blockEnd =>
      skip
      return []
    | t => refuse t

/-- Reads the items of a flow list. A key in it starts a map with one entry. -/
def readFlowItems (handles : OrderedMap String String) (first : Bool) : Nat → Reads (List Node)
  | 0 => throw unreadable
  | fuel + 1 => do
    match ← peek, first with
    | .flowListEnd, _ =>
      skip
      return []
    | .comma, false => skip
    | t, false => refuse t
    | _, true => pure ()
    match ← peek with
    | .key =>
      skip
      let k ← readUnless handles (fun t => followsFlowItem t || isFlowValue t) false false fuel
      let v ← readValue handles followsFlowItem false fuel
      return .map .map [(k, v)] :: (← readFlowItems handles false fuel)
    | .flowListEnd =>
      skip
      return []
    | _ =>
      let n ← read handles false false fuel
      return n :: (← readFlowItems handles false fuel)

/-- Reads the entries of a flow map. A part without a key sign is a key without a value. -/
def readFlowEntries (handles : OrderedMap String String) (first : Bool) :
    Nat → Reads (List (Node × Node))
  | 0 => throw unreadable
  | fuel + 1 => do
    match ← peek, first with
    | .flowMapEnd, _ =>
      skip
      return []
    | .comma, false => skip
    | t, false => refuse t
    | _, true => pure ()
    match ← peek with
    | .key =>
      skip
      let k ← readUnless handles (fun t => followsFlowPart t || isFlowValue t) false false fuel
      let v ← readValue handles followsFlowPart false fuel
      return (k, v) :: (← readFlowEntries handles false fuel)
    | .flowMapEnd =>
      skip
      return []
    | _ =>
      let k ← read handles false false fuel
      return (k, absent) :: (← readFlowEntries handles false fuel)

end

/-! ## Documents -/

/-- The directives of a document: whether its version is given, and the handles. -/
structure Directives where
  versioned : Bool
  handles : OrderedMap String String

/-- Reads directives. A version and the meaning of a handle may be given once, and the version
must be the first. -/
def readDirectives (d : Directives) : List Token → Outcome (Directives × List Token)
  | .version major :: rest =>
    if d.versioned || major ≠ 1 then .error unreadable
    else readDirectives { d with versioned := true } rest
  | .handle name meaning :: rest =>
    if d.handles.has name then .error unreadable
    else readDirectives { d with handles := d.handles.put name meaning } rest
  | .reserved :: rest => readDirectives d rest
  | tokens => .ok (d, tokens)

private def firstFault : List Token → Failure
  | .fault cause :: _ => cause
  | _ => unreadable

/-- Checks that no further document follows. -/
def readEnd : List Token → Outcome Unit
  | .documentEnd :: rest => readEnd rest
  | .textEnd :: _ => .ok ()
  | tokens => .error (firstFault tokens)

/-- Reads the content of a document to the end of the text. -/
private def readContent (handles : OrderedMap String String) (tokens : List Token) :
    Outcome Node := do
  let (n, r) ← (read handles true false (4 * tokens.length + 8)).run ⟨tokens, []⟩
  readEnd r.tokens
  return n

private def isOutside : Token → Bool
  | .version _ | .handle .. | .reserved | .documentStart | .documentEnd | .textEnd => true
  | _ => false

/-- Reads the only document of a text; none if there is no document. -/
def ofTokens? (tokens : List Token) : Outcome (Option Node) := do
  match tokens with
  | .textEnd :: _ => return none
  | t :: _ =>
    if isOutside t && !(t matches .documentEnd) then
      let (d, rest) ← readDirectives ⟨false, []⟩ tokens
      match rest with
      | .documentStart :: rest =>
        let handles := standardHandles.overlay d.handles
        if (rest.head?.map isOutside).getD false then
          readEnd rest
          return some absent
        else return some (← readContent handles rest)
      | rest => throw (firstFault rest)
    else return some (← readContent standardHandles tokens)
  | [] => throw unreadable

/-- The only document of a text; none if there is no document. -/
def ofText? (s : String) : Outcome (Option Node) :=
  if s.toList.all isAllowed then ofTokens? (Token.scan s) else .error unreadable

end Node

end DocTable.Markup
