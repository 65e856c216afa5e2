import ScriptMachine.Project.Toml.Scalar
/-!
# TOML documents

A document is read statement by statement into a tree of tables. Besides the tree, reading keeps
the table that key/value pairs go into (the context), the tables that were only made on the way
to a key and may still be defined (the implicit ones), the keys whose last value was an array,
and every key the document defines, in order.
-/

namespace ScriptMachine.Toml

inductive Node where
  /-- A finished value: anything but a table that is still open. -/
  | leaf (v : Value)
  | table (entries : List (String × Node))
  /-- An array of tables, newest last. -/
  | tables (items : List (List (String × Node)))
  deriving Inhabited

mutual

def Node.value : Node → Value
  | .leaf v => v
  | .table es => .table (Node.values es)
  | .tables items => .list (Node.tableValues items)

def Node.values : List (String × Node) → List (String × Value)
  | [] => []
  | (k, n) :: rest => (k, n.value) :: Node.values rest

def Node.tableValues : List (List (String × Node)) → List Value
  | [] => []
  | es :: rest => .table (Node.values es) :: Node.tableValues rest

end

mutual

def Node.ofValue : Value → Node
  | .table es => .table (Node.ofEntries es)
  | v => .leaf v

def Node.ofEntries : List (String × Value) → List (String × Node)
  | [] => []
  | (k, v) :: rest => (k, Node.ofValue v) :: Node.ofEntries rest

end

def replaceEntry {α : Type} (k : String) (a : α) (es : List (String × α)) : List (String × α) :=
  es.map fun p => if p.1 == k then (k, a) else p

def setEntry {α : Type} (k : String) (a : α) (es : List (String × α)) : List (String × α) :=
  if (es.lookup k).isSome then replaceEntry k a es else es ++ [(k, a)]

/-- The entries of the table at a path: a table is entered, an array of tables by its newest
table, and anything else ends the path with an error. -/
def tableAt : List String → List (String × Node) → Except String (List (String × Node))
  | [], es => .ok es
  | k :: rest, es =>
    match es.lookup k with
    | some (.table sub) => tableAt rest sub
    | some (.tables items) =>
      match items.getLast? with
      | some last => tableAt rest last
      | none => .error ("key " ++ keyPart k ++ " has no table")
    | some (.leaf _) => .error ("key " ++ keyPart k ++ " has already been defined")
    | none => .error ("key " ++ keyPart k ++ " has not been opened")

/-- Changes the table at a path, found as `tableAt` finds it. -/
def changeAt (f : List (String × Node) → List (String × Node)) :
    List String → List (String × Node) → List (String × Node)
  | [], es => f es
  | k :: rest, es =>
    es.map fun (k', n) =>
      if k' != k then (k', n)
      else match n with
        | .table sub => (k', .table (changeAt f rest sub))
        | .tables items => (k', .tables (items.dropLast ++ (items.getLast?.map (changeAt f rest)).toList))
        | n => (k', n)

structure Document where
  root : List (String × Node) := []
  /-- The path of the table that key/value pairs go into. -/
  context : List String := []
  /-- The last part of the key whose value is being read. -/
  currentKey : String := ""
  /-- Tables made on the way to a key and not defined since. -/
  implicit : List (List String) := []
  /-- Keys whose last value was an array. -/
  arrays : List (List String) := []
  /-- The keys defined, in order, each with the line defining it. -/
  keys : List (List String × Nat) := []
  deriving Inhabited

namespace Document

def addImplicit (d : Document) (p : List String) : Document :=
  { d with implicit := p :: d.implicit.filter (· != p) }

def removeImplicit (d : Document) (p : List String) : Document :=
  { d with implicit := d.implicit.filter (· != p) }

def setType (d : Document) (k : String) (array : Bool) : Document :=
  let p := if k.isEmpty then d.context else d.context ++ [k]
  let p := if p.isEmpty then [""] else p
  { d with arrays := if array then p :: d.arrays.filter (· != p) else d.arrays.filter (· != p) }

/-- Sets a key of the context to a node, under the rules for keys already present. -/
def setValue (d : Document) (k : String) (n : Node) : Except String Document := do
  let es ← tableAt d.context d.root
  let p := d.context ++ [k]
  match es.lookup k with
  | none => pure { d with root := changeAt (· ++ [(k, n)]) d.context d.root }
  | some _ =>
    if d.implicit.contains p then
      if d.arrays.contains p then
        pure { d.removeImplicit p with root := changeAt (replaceEntry k n) d.context d.root }
      else pure (d.removeImplicit p)
    else .error ("key " ++ keyText p ++ " has already been defined")

/-- Passes through the tables on a path below `done`, making missing ones implicit. -/
def openPath (d : Document) (done : List String) : List String → Except String Document
  | [] => pure d
  | k :: rest => do
    let es ← tableAt done d.root
    let p := done ++ [k]
    match es.lookup k with
    | none =>
      let d := { d.addImplicit p with root := changeAt (· ++ [(k, Node.table [])]) done d.root }
      d.openPath p rest
    | some (.table _) | some (.tables _) => d.openPath p rest
    | some (.leaf _) => .error ("key " ++ keyText p ++ " was already created as a value")

/-- Makes a key the context: a table set to an empty one, or, for `array`, a new table added
to an array of tables. -/
def addContext (d : Document) (k : List String) (array : Bool) : Except String Document := do
  let parents := k.dropLast
  let last := k.getLast?.getD ""
  let d ← d.openPath [] parents
  let d := { d with context := parents }
  let d ← if array then do
      let es ← tableAt parents d.root
      match es.lookup last with
      | none => pure { d with root := changeAt (· ++ [(last, Node.tables [[]])]) parents d.root }
      | some (.tables items) =>
        pure { d with root := changeAt (replaceEntry last (.tables (items ++ [[]]))) parents d.root }
      | some _ => .error ("key " ++ keyText k ++ " cannot be used as an array of tables")
    else d.setValue last (.table [])
  pure { d with context := k }

def addImplicitContext (d : Document) (k : List String) : Except String Document :=
  (d.addImplicit k).addContext k false

def openDotted (d : Document) : List String → Except String Document
  | [] => pure d
  | part :: rest => do
    let d ← d.addImplicitContext (d.context ++ [part])
    d.openDotted rest

def change (r : Except String Document) : Scan Document := orFail r

end Document

/-- Puts a value at a dotted path of an inline table's own value, making tables on the way. -/
def putInline (v : Value) : List String → String → List (String × Value) →
    Except String (List (String × Value))
  | [], k, es => .ok (setEntry k v es)
  | c :: rest, k, es =>
    match es.lookup c with
    | none => do
      let sub ← putInline v rest k []
      pure (es ++ [(c, .table sub)])
    | some (.table sub) => do
      let sub ← putInline v rest k sub
      pure (replaceEntry c (.table sub) es)
    | some _ => .error ("key " ++ keyPart c ++ " is not a table")

/-- The items of an array after its opening bracket, each read by `item`. -/
def arrayItems (item : Document → Scan (Value × Document)) :
    Nat → Document → List Value → Scan (List Value × Document)
  | 0, _, _ => fail "unexpected end of an array"
  | fuel + 1, d, acc => do
    skipBlank ((← get).length + 1)
    match ← get with
    | ']' :: rest => set rest; pure (acc.reverse, d)
    | _ =>
      let (v, d) ← item d
      skipBlank ((← get).length + 1)
      match ← get with
      | ',' :: rest => set rest; arrayItems item fuel d (v :: acc)
      | ']' :: rest => set rest; pure ((v :: acc).reverse, d)
      | _ => fail "expected a comma or the end of an array"

/-- The pairs of an inline table after its opening brace, each value read by `item`, with the
table's own value built beside the document. `line` is the line of the statement. -/
def inlinePairs (item : Document → Scan (Value × Document)) (line : Nat) :
    Nat → Document → List (String × Value) → Scan (List (String × Value) × Document)
  | 0, _, _ => fail "unexpected end of an inline table"
  | fuel + 1, d, own => do
    skipBlank ((← get).length + 1)
    match ← get with
    | '}' :: rest => set rest; pure (own, d)
    | ',' :: _ => fail "unexpected comma in an inline table"
    | _ =>
      let inner := d.context
      let k ← key
      skipSpaces
      expect '=' "expected an equals sign after a key"
      skipSpaces
      let last := k.getLast?.getD ""
      let d := { d with currentKey := last }
      let d ← Document.change (d.openDotted k.dropLast)
      let d := { d with keys := d.keys ++ [(d.context ++ [last], line)] }
      let (v, d) ← item d
      let d ← Document.change (d.setValue last (Node.ofValue v))
      let d := d.setType last (v matches .list _)
      let own ← orFail (putInline v k.dropLast last own)
      let d := { d with context := inner }
      skipBlank ((← get).length + 1)
      match ← get with
      | ',' :: rest => set rest; inlinePairs item line fuel d own
      | '}' :: rest => set rest; pure (own, d)
      | _ => fail "expected a comma or the end of an inline table"

/-- A value for the current key, with the document as reading it leaves it; `inArray` says
whether it is an item of an array. `depth` bounds nesting. -/
def value (line : Nat) : Nat → Bool → Document → Scan (Value × Document)
  | 0, _, _ => fail "values nest too deeply"
  | depth + 1, inArray, d => do
    match ← get with
    | '"' :: _ | '\x27' :: _ => do let s ← stringValue; pure (.text s, d)
    | '[' :: rest =>
      set rest
      let d := d.setType d.currentKey true
      let (items, d) ← arrayItems (value line depth true) (rest.length + 1) d []
      pure (.list items, d)
    | '{' :: rest =>
      set rest
      let outer := d.context
      let outerKey := d.currentKey
      let ctx := d.context ++ [d.currentKey]
      let d := { d with context := ctx, currentKey := "" }
      let d ← Document.change ((d.addImplicit ctx).addContext ctx inArray)
      let (own, d) ← inlinePairs (value line depth false) line (rest.length + 1) d []
      pure (.table own, { d with context := outer, currentKey := outerKey })
    | _ => do let v ← scalar; pure (v, d)

def lineAt (input rest : List Char) : Nat :=
  1 + (input.take (input.length - rest.length)).count '\n'

/-- The key of a table header, after its opening brackets, up to its closing ones. -/
def headerKey (closing : List Char) : Scan (List String) := do
  skipSpaces
  let k ← key
  skipSpaces
  for c in closing do expect c "expected the end of a table header"
  pure k

/-- Reads one line of a document that is not blank; `input` is the whole document. -/
def statement (input : List Char) (d : Document) : Scan Document := do
  let line := lineAt input (← get)
  match ← get with
  | '[' :: '[' :: rest =>
    set rest
    let k ← headerKey [']', ']']
    let d ← Document.change (d.addContext k true)
    finishLine
    pure { d.setType "" false with keys := d.keys ++ [(k, line)] }
  | '[' :: rest =>
    set rest
    let k ← headerKey [']']
    let d ← Document.change (d.addContext k false)
    finishLine
    pure { d.setType "" false with keys := d.keys ++ [(k, line)] }
  | _ =>
    let outer := d.context
    let k ← key
    skipSpaces
    expect '=' "expected an equals sign after a key"
    skipSpaces
    let last := k.getLast?.getD ""
    let d := { d with currentKey := last }
    let d ← Document.change (d.openDotted k.dropLast)
    let d := { d with keys := d.keys ++ [(d.context ++ [last], line)] }
    let (v, d) ← value line ((← get).length + 1) false d
    let d ← Document.change (d.setValue last (Node.ofValue v))
    let d := d.setType last (v matches .list _)
    finishLine
    pure { d with context := outer, currentKey := "" }

/-- Reads lines until the input ends; `input` is the whole document. -/
def statements (input : List Char) : Nat → Document → Scan Document
  | 0, d => pure d
  | fuel + 1, d => do
    skipSpaces
    match ← get with
    | [] => pure d
    | '#' :: _ => finishLine; statements input fuel d
    | '\n' :: _ | '\r' :: _ => lineEnd "expected a newline"; statements input fuel d
    | _ => let d ← statement input d; statements input fuel d

/-- A parsed document: its values as one table, and the keys it defines in order. -/
structure Parsed where
  table : List (String × Value)
  /-- The keys defined, in order, each with the line defining it. -/
  keys : List (List String × Nat)

def allowedText : List Char → Bool
  | [] => true
  | '\r' :: '\n' :: rest => allowedText rest
  | c :: rest => c != '\r' && (c == '\t' || c == '\n' || !(c.toNat < 0x20 || c.toNat == 0x7f)) &&
    allowedText rest

/-- Reads a document, or says at which line and why it is refused. -/
def parse (text : String) : Except (Nat × String) Parsed :=
  let input := text.toList
  if !allowedText input then .error (1, "control characters are not allowed")
  else match (statements input (input.length + 1) {}).run input with
    | .ok (d, _) => .ok ⟨Node.values d.root, d.keys⟩
    | .error (rest, msg) => .error (lineAt input rest, msg)

def dropByteOrderMark : List UInt8 → List UInt8
  | 0xFF :: 0xFE :: rest => rest
  | 0xFE :: 0xFF :: rest => rest
  | 0xEF :: 0xBB :: 0xBF :: rest => rest
  | bytes => bytes

/-- Reads a document from its bytes, or says why it is refused. -/
def parseBytes (bytes : List UInt8) : Except String Parsed :=
  match String.fromUTF8? (ByteArray.mk (dropByteOrderMark bytes).toArray) with
  | none => .error "toml: invalid UTF-8"
  | some text =>
    match parse text with
    | .ok p => .ok p
    | .error (line, msg) => .error ("toml: line " ++ toString line ++ ": " ++ msg)

end ScriptMachine.Toml
