import Readout.Expr.Eval
import Readout.Numeral.Literal
import Readout.Text
import Readout.Toml.Document
import Readout.Validation

/-!
# Contexts

Where names get their words from: tables of values (`Readout.Bindings.ofValues`), assignments
(`Readout.Assignment.parse`), and the files at paths (`Readout.ContextFile.load`).
-/

namespace Readout

/-! ### Files

What is found at a path (`Readout.PathEntry`): nothing, a file with a text in it, or
something that the system refuses to read. A refusal (`Readout.Refusal`) has a number and
a reason, which are the system's own. Whoever needs files is handed all of them at once,
as what is found at every path (`Readout.Files`).
-/

/-- **Why the system refuses to read what a path leads to.** -/
structure Refusal where
  /-- The number of the error. -/
  code : Nat
  /-- The reason in words. -/
  reason : String
  deriving DecidableEq, Repr, Inhabited

namespace Refusal

/-- A directory is no file. -/
def isDirectory : Refusal := ⟨21, "Is a directory"⟩

/-- The path, or a name in it, is too long to be looked for. -/
def nameTooLong : Refusal := ⟨36, "File name too long"⟩

/-- What is said about a path that is refused. -/
def message (path : String) (r : Refusal) : String :=
  "[Errno " ++ Numeral.decimalText r.code ++ "] " ++ r.reason ++ ": " ++ Text.quoted path

end Refusal

/-- **What is found at a path.** -/
inductive PathEntry
  /-- Nothing. -/
  | missing
  /-- Something that is not read. -/
  | refused (why : Refusal)
  /-- A file with a text in it. -/
  | file (text : String)
  deriving DecidableEq, Repr, Inhabited

/-- What is found at every path. -/
abbrev Files := String → PathEntry

/-! ### Tables of a context

A context is made from two values that should be tables of registers and of symbols.
Every name has to be an identifier and every value an integer that is a word, or a
text that spells one.

Each table is read up to its first bad entry, and the two tables are read
independently of each other, so that there is at most one rejection for each
(`Readout.Bindings.ofValues`). In an entry the name is looked at before the value
(`Readout.readEntry`).
-/

/-- **The integer that a value stands for.** Truth values are refused although they
could be counted, and a text may have blanks around its literal. -/
def Value.toInt : Value → Except EntryFault Int
  | .boolean _ => .error .truthValue
  | .integer n => .ok n
  | .text s =>
    match Numeral.readInteger? (Text.trim s) with
    | some n => .ok n
    | none => .error (.notALiteral s)
  | v => .error (.notAnInteger v.kind)

/-- **The word that a value stands for.** Nothing is wrapped here. -/
def Value.toWord (v : Value) : Except EntryFault Word := do
  let n ← v.toInt
  if Word.fits n then return Word.wrap n else .error (.outOfRange n)

/-- The word of an entry. -/
def readEntry (name : String) (v : Value) : Except EntryFault Word :=
  if isIdentifier name then v.toWord else .error (.badName name)

/-- The words of entries, if none of them is bad. -/
def readEntries : List (String × Value) → Except EntryFault (List (String × Word))
  | [] => .ok []
  | (name, v) :: rest => do
    let w ← readEntry name v
    let ws ← readEntries rest
    return (name, w) :: ws

/-- **The table of words that a value stands for.** Names and their order are kept. -/
def Value.toWords : Value → Except EntryFault (Table Word)
  | .table t => do return ⟨← readEntries t.entries⟩
  | _ => .error .notATable

/-- The rejection of a field whose table could not be read. -/
def rejectionOf (field : String) : Except EntryFault (Table Word) → List Rejection
  | .ok _ => []
  | .error f => [⟨field, .entry f⟩]

/-- The table of a field, which is empty if the field is missing. -/
def readField : Option Value → Except EntryFault (Table Word)
  | none => .ok .empty
  | some v => v.toWords

/-- **Bindings from two values**, or what is wrong with them: the registers come before
the symbols. -/
def Bindings.ofValues (registers symbols : Option Value) : Except (List Rejection) Bindings :=
  match readField registers, readField symbols with
  | .ok r, .ok s => .ok ⟨r, s⟩
  | r, s => .error (rejectionOf "registers" r ++ rejectionOf "symbols" s)

/-! ### Assignments

An assignment is a text with an equals sign: before it stands the name of a register
or a symbol, after it what the name is to be bound to. Only the first equals sign
counts, and blanks around the name and around the value do not.

`Readout.Assignment.parse` reads one; `Readout.Bindings.assign` carries out a list of
them up to the first that is bad.
-/

/-- **An assignment** of a word to a name. -/
structure Assignment where
  /-- The name. -/
  name : String
  /-- The word. -/
  value : Word
  deriving DecidableEq, Repr, Inhabited

/-- What can be wrong with the text of an assignment. -/
inductive Assignment.Fault
  /-- It has no equals sign, or no identifier before it. -/
  | malformed (text : String)
  /-- What stands after the equals sign is no word. -/
  | badValue (name : String) (fault : EntryFault)
  deriving DecidableEq, Repr, Inhabited

/-- What is said about a bad assignment. -/
def Assignment.Fault.message : Assignment.Fault → String
  | malformed text => "Expected NAME=VALUE, got " ++ Text.quoted text
  | badValue name fault => "Bad value for " ++ name ++ ": " ++ fault.message

/-- What stands before the first equals sign, and what stands after it, if there is
one. -/
def cutAtEquals (cs : List Char) : List Char × Option (List Char) :=
  match cs.dropWhile (· != '=') with
  | [] => (cs, none)
  | _ :: after => (cs.takeWhile (· != '='), some after)

/-- **The assignment that a text spells.** -/
def Assignment.parse (text : String) : Except Assignment.Fault Assignment :=
  match cutAtEquals text.toList with
  | (_, none) => .error (.malformed text)
  | (before, some after) =>
    let name := Text.trim (String.ofList before)
    if isIdentifier name then
      match (Value.text (String.ofList after)).toWord with
      | .ok value => .ok ⟨name, value⟩
      | .error fault => .error (.badValue name fault)
    else .error (.malformed text)

/-- **Carries out assignments** in a scope, one after the other. -/
def Bindings.assign (scope : Scope) : Bindings → List String → Except Assignment.Fault Bindings
  | b, [] => .ok b
  | b, text :: rest => do
    let a ← Assignment.parse text
    (b.bind scope a.name a.value.toNat).assign scope rest

/-! ### Context files

A context file is a TOML document with the tables `registers` and `symbols`, either of
which may be missing. Other sections are ignored, and their names are reported
(`Readout.ContextFile.unknownSections`) whether or not the file is accepted.
-/

namespace ContextFile

/-- Why there is no context in a file. -/
inductive Fault
  /-- There is no file. -/
  | notFound
  /-- The system refuses to read it. -/
  | refused (why : Refusal)
  /-- It is no TOML document. -/
  | malformed (fault : Toml.Fault)
  /-- It goes beyond a limit. -/
  | excess (what : Excess)
  /-- Its tables are refused. -/
  | invalid (rejections : List Rejection)
  deriving DecidableEq, Repr, Inhabited

/-- What is said about a file in the first place. -/
def Fault.headline (path : String) : Fault → String
  | notFound => "Context file not found: " ++ path
  | refused why => why.message path
  | malformed _ => "Invalid TOML in " ++ path
  | excess what => what.message
  | invalid _ => "Invalid context in " ++ path

/-- All that is said about a file: the headline, and what exactly is wrong. -/
def Fault.message (path : String) (f : Fault) : String :=
  match f with
  | malformed fault => f.headline path ++ ": " ++ fault.message
  | invalid rejections =>
    f.headline path ++ ": " ++
      "; ".intercalate (rejections.map fun r => r.field ++ ": " ++ r.reason.message)
  | _ => f.headline path

/-- The names of the sections that mean nothing, in sorted order. -/
def unknownSections (t : Table Value) : List String :=
  (t.sorted.map (·.1)).filter fun name => name != "registers" && name != "symbols"

/-- What is said about sections that mean nothing, if there are any. -/
def warningAbout (path : String) : List String → Option String
  | [] => none
  | names => some ("Ignoring unknown sections in " ++ path ++ ": " ++ ", ".intercalate names)

/-- **What came of reading a file**: the sections that were ignored, and the context. -/
structure Loading where
  /-- The names of the sections that were ignored. -/
  ignored : List String
  /-- The context, or why there is none. -/
  outcome : Except Fault Bindings

/-- The context of a document. -/
def ofDocument (t : Table Value) : Except Fault Bindings :=
  match Bindings.ofValues (t.find? "registers") (t.find? "symbols") with
  | .ok b => .ok b
  | .error rejections => .error (.invalid rejections)

/-- **Reads a context file**, given what is found at its path. -/
def load : PathEntry → Loading
  | .missing => ⟨[], .error .notFound⟩
  | .refused why => ⟨[], .error (.refused why)⟩
  | .file document =>
    match Toml.parse document with
    | .error (.excess what) => ⟨[], .error (.excess what)⟩
    | .error fault => ⟨[], .error (.malformed fault)⟩
    | .ok t => ⟨unknownSections t, ofDocument t⟩

end ContextFile

end Readout
