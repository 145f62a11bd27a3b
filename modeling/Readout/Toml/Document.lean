import Readout.Toml.Reader
import Readout.Toml.Scalar
import Readout.Validation

/-!
# Documents

A document is a sequence of lines: keys with values, headers that lead to a table or to a new
element of a list of tables, comments. What it stands for is one table (`Readout.Toml.parse`), which
grows as the lines are read (`Readout.Toml.withinNest`).
-/

namespace Readout.Toml

/-! ### Tables inside tables

Keys with dots and the headers of a TOML document lead through tables inside tables.
`Readout.Toml.withinNest` changes the table at the end of such a path, making those
that are missing on the way. A list on the way stands for its last element.

Parts of a document get closed for later statements: a table that had its header may
not have it again, and what was written as one value may not be added to at all. The
paths of both are kept as marks (`Readout.Toml.Marks`).
-/

/-- The way to a table: one name after the other. -/
abbrev Path := List String

/-- **Changes the table at the end of a path.** There is no result if something other
than a table is in the way, or if the change has none. -/
def withinNest (throughLists : Bool) (change : Table Value → Option (Table Value)) :
    Path → Table Value → Option (Table Value)
  | [], t => change t
  | k :: path, t =>
    match t.find? k with
    | none => (withinNest throughLists change path .empty).map fun u => t.insert k (.table u)
    | some (.table u) =>
      (withinNest throughLists change path u).map fun u' => t.insert k (.table u')
    | some (.list items) =>
      match throughLists, items.getLast? with
      | true, some (.table u) =>
        (withinNest throughLists change path u).map fun u' =>
          t.insert k (.list (items.dropLast ++ [.table u']))
      | _, _ => none
    | some _ => none

/-- Makes sure that there is a table at the end of a path. -/
def ensureNest (path : Path) (t : Table Value) : Option (Table Value) :=
  withinNest true some path t

/-- Enters a value under a name that is not there yet. -/
def enterNew (name : String) (v : Value) (t : Table Value) : Option (Table Value) :=
  match t.find? name with
  | none => some (t.insert name v)
  | some _ => none

/-- Adds an empty table to the list under a name, or makes one with it. -/
def appendTable (name : String) (t : Table Value) : Option (Table Value) :=
  match t.find? name with
  | none => some (t.insert name (.list [.table .empty]))
  | some (.list items) => some (t.insert name (.list (items ++ [.table .empty])))
  | some _ => none

/-- **Marks on paths.** -/
structure Marks where
  /-- The tables that may not be opened by a header any more. -/
  opened : List Path
  /-- The values that may not be added to, at any depth. -/
  closed : List Path
  /-- The tables that are to be counted as opened from the next header on. -/
  pending : List Path
  deriving Inhabited

namespace Marks

/-- No marks. -/
def empty : Marks := ⟨[], [], []⟩

/-- Whether a table may not be opened any more. -/
def isOpened (m : Marks) (path : Path) : Bool :=
  m.opened.contains path

/-- Whether a path leads to or into a closed value. -/
def isClosed (m : Marks) (path : Path) : Bool :=
  m.closed.any (·.isPrefixOf path)

/-- Marks a table as opened. -/
def markOpened (m : Marks) (path : Path) : Marks :=
  { m with opened := path :: m.opened }

/-- Marks a value as closed. -/
def markClosed (m : Marks) (path : Path) : Marks :=
  { m with closed := path :: m.closed }

/-- Removes all marks at and below a path. -/
def release (m : Marks) (path : Path) : Marks :=
  { m with
    opened := m.opened.filter fun p => !path.isPrefixOf p
    closed := m.closed.filter fun p => !path.isPrefixOf p }

/-- Counts what is pending as opened. -/
def settle (m : Marks) : Marks :=
  ⟨m.pending ++ m.opened, m.closed, []⟩

end Marks

/-! ### Keys -/

/-- The characters of a key without quotes. -/
def isBareKeyChar (c : Char) : Bool :=
  c.isAlphanum || c == '-' || c == '_'

/-- One part of a key. -/
def readKeyPart : Reader String := do
  match ← peek with
  | none => fail .badKey
  | some c =>
    if isBareKeyChar c then return String.ofList (← takeRun isBareKeyChar)
    else if c == '\'' || c == '"' then
      skip 1
      readLine c
    else fail .badKey

/-- The further parts of a key, each after a point. -/
def readKeyRest : (steps : Nat) → Reader Path
  | 0 => fail .badKey
  | steps + 1 => do
    skipBlanks
    if ← take? ['.'] then
      skipBlanks
      let part ← readKeyPart
      return part :: (← readKeyRest steps)
    else return []

/-- **A key**: its parts but the last, and the last. -/
def readKey : Reader (Path × String) := do
  let first ← readKeyPart
  let rest ← readKeyRest (← stepsLeft)
  let whole := first :: rest
  return (whole.dropLast, whole.getLastD first)

/-! ### Values -/

/-- Whether a value is a list or a table. -/
def isCompound : Value → Bool
  | .list _ => true
  | .table _ => true
  | _ => false

/-- Takes off blanks, line feeds and comments between the elements of a list. -/
def skipLayout : (steps : Nat) → Reader Unit
  | 0 => fail .badValue
  | steps + 1 => do
    let run ← takeRun fun c => isBlank c || c == '\n'
    if (← peek) = some '#' then
      skipComment
      skipLayout steps
    else if run.isEmpty then return
    else skipLayout steps

/-- A value without parts: a moment or a number. -/
def readScalar : Reader Value := do
  let cs ← get
  match (moment? cs).or (number? cs) with
  | none => fail .badValue
  | some (.error f) => fail f
  | some (.ok (v, rest)) =>
    set rest
    return v

/-- Takes off what stands between the elements of a list. -/
def skipGaps : Reader Unit := do
  skipLayout (← stepsLeft)

/-- Enters a pair in a table that is written as a value. -/
def enterPair (key : Path × String) (v : Value) (t : Table Value) (m : Marks) :
    Reader (Table Value) := do
  if m.isClosed (key.1 ++ [key.2]) then fail .redefined
  match withinNest false (enterNew key.2 v) key.1 t with
  | some t' => return t'
  | none => fail .redefined

/-- How deeply values may be nested; a list counts two and a table three. -/
def maxDepth : Nat := 980

/-- The depth of the parts of a value, which counts `weight` itself. -/
def deeper (weight depth : Nat) : Reader Nat :=
  if depth + weight < maxDepth then return depth + weight else fail (.excess .depth)

mutual

/-- **A value** at some depth. -/
def readValue (depth : Nat) : (steps : Nat) → Reader Value
  | 0 => fail .badValue
  | steps + 1 => do
    match ← peek with
    | some '"' =>
      skip 1
      return .text (← readText '"')
    | some '\'' =>
      skip 1
      return .text (← readText '\'')
    | some '[' =>
      skip 1
      let inside ← deeper 2 depth
      skipGaps
      return .list (← readElements inside steps)
    | some '\x7b' =>
      skip 1
      let inside ← deeper 3 depth
      skipBlanks
      if ← take? ['\x7d'] then return .table .empty
      return .table (← readPairs inside steps .empty .empty)
    | _ =>
      if ← take? ['t', 'r', 'u', 'e'] then return .boolean true
      if ← take? ['f', 'a', 'l', 's', 'e'] then return .boolean false
      readScalar

/-- The elements of a list that are still to come, and its closing bracket. -/
def readElements (depth : Nat) : (steps : Nat) → Reader (List Value)
  | 0 => fail .badValue
  | steps + 1 => do
    if ← take? [']'] then return []
    let v ← readValue depth steps
    skipGaps
    if ← take? [']'] then return [v]
    expect [','] .badValue
    skipGaps
    return v :: (← readElements depth steps)

/-- The pairs of a table written as a value that are still to come, and its closing
brace. -/
def readPairs (depth : Nat) : (steps : Nat) → Table Value → Marks → Reader (Table Value)
  | 0, _, _ => fail .badValue
  | steps + 1, t, m => do
    let key ← readKey
    expect ['='] .badValue
    skipBlanks
    let v ← readValue depth steps
    let t' ← enterPair key v t m
    skipBlanks
    if ← take? ['\x7d'] then return t'
    expect [','] .badValue
    skipBlanks
    readPairs depth steps t' (if isCompound v then m.markClosed (key.1 ++ [key.2]) else m)

end

/-! ### Statements

Statements may not contradict each other. A key is given once; a table has one header; a table that
came to be by a dotted key is not opened by a header later on, nor extended by one; and a list or a
table written as a value is complete as it stands.
-/

/-- **A document in the making.** -/
structure Draft where
  /-- What it stands for so far. -/
  root : Table Value
  /-- The marks on its paths. -/
  marks : Marks
  /-- The path of the last header. -/
  header : Path
  deriving Inhabited

/-- All paths from a table to the tables on the way to a key, the outermost first. -/
def pathsTo (start : Path) (parents : Path) : List Path :=
  (List.range parents.length).map fun i => start ++ parents.take (i + 1)

/-- A key with its value. -/
def readPair (d : Draft) : Reader Draft := do
  let (parents, name) ← readKey
  expect ['='] .badStatement
  skipBlanks
  let v ← readValue 0 (2 * (← stepsLeft))
  let onTheWay := pathsTo d.header parents
  if onTheWay.any d.marks.isOpened then fail .redefined
  let home := d.header ++ parents
  if d.marks.isClosed home then fail .redefined
  match withinNest true (enterNew name v) home d.root with
  | none => fail .redefined
  | some root =>
    let marks := { d.marks with pending := onTheWay ++ d.marks.pending }
    let closed := if isCompound v then marks.markClosed (home ++ [name]) else marks
    return { d with root, marks := closed }

/-- The header of a table, behind its opening bracket. -/
def readTableHeader (d : Draft) : Reader Draft := do
  skipBlanks
  let (parents, name) ← readKey
  let path := parents ++ [name]
  if d.marks.isOpened path || d.marks.isClosed path then fail .redefined
  match ensureNest path d.root with
  | none => fail .redefined
  | some root =>
    expect [']'] .badStatement
    return ⟨root, d.marks.markOpened path, path⟩

/-- The header of a new element of a list of tables, behind its opening brackets. -/
def readElementHeader (d : Draft) : Reader Draft := do
  skipBlanks
  let (parents, name) ← readKey
  let path := parents ++ [name]
  if d.marks.isClosed path then fail .redefined
  match withinNest true (appendTable name) parents d.root with
  | none => fail .redefined
  | some root =>
    expect [']', ']'] .badStatement
    return ⟨root, (d.marks.release path).markOpened path, path⟩

/-- What stands on a line, up to a comment. -/
def readStatement (d : Draft) : Reader Draft := do
  match ← peek with
  | none => return d
  | some c =>
    if c == '\n' || c == '#' then return d
    else if c == '[' then
      skip 1
      let settled := { d with marks := d.marks.settle }
      if ← take? ['['] then readElementHeader settled else readTableHeader settled
    else if isBareKeyChar c || c == '\'' || c == '"' then readPair d
    else fail .badStatement

/-- The lines of a document. -/
def readLines : (steps : Nat) → Draft → Reader Draft
  | 0, _ => fail .badStatement
  | steps + 1, d => do
    skipBlanks
    let d' ← readStatement d
    skipBlanks
    skipComment
    match ← peek with
    | none => return d'
    | some _ =>
      expect ['\n'] .badStatement
      readLines steps d'

/-- **The table that a document stands for.** -/
def parse (document : String) : Except Fault (Table Value) :=
  let cs := unifyLineEnds document.toList
  match readLines (cs.length + 1) ⟨.empty, .empty, []⟩ |>.run cs with
  | .ok (d, _) => .ok d.root
  | .error f => .error f

end Readout.Toml
