import Readout.Numeral.Literal
import Readout.Text

/-!
# The words of a command line

Words are sorted into settings and arguments (`Readout.Command.sortOut`), and the paths among them
are tidied (`Readout.Command.tidyPath`).
-/

namespace Readout.Command

/-! ### Paths of files

A path is a sequence of names with slashes between them. Empty names and single points
mean nothing and are left out (`Readout.Command.tidyPath`), except that slashes in
front stay: one, or two if there are exactly two.
-/

/-- The names between slashes. -/
def pathNames : List Char → List (List Char)
  | [] => [[]]
  | c :: rest =>
    match pathNames rest with
    | [] => [[c]]
    | name :: names => if c == '/' then [] :: name :: names else (c :: name) :: names

/-- The slashes in front of a path that are kept. -/
def pathRoot (path : List Char) : List Char :=
  let slashes := path.takeWhile (· == '/')
  if slashes.length ≤ 2 then slashes else ['/']

/-- **A path without names that mean nothing.** The path of nothing is a point. -/
def tidyPath (path : String) : String :=
  let names := (pathNames path.toList).filter fun name => !name.isEmpty && name != ['.']
  let tidy := pathRoot path.toList ++ ['/'].intercalate names
  if tidy.isEmpty then "." else String.ofList tidy

/-- Whether a path has a null character in it. -/
def hasNull (path : String) : Bool :=
  path.toList.contains '\x00'

/-! ### Options among words

The words after a command are its arguments and its options. An option
(`Readout.Command.Switch`) has a long name after two hyphens or a letter after one,
or both, and may take a value. The words are taken apart in one pass from left to
right (`Readout.Command.sortOut`):

* a word that starts with a hyphen and is not the hyphen alone holds options, either
  one with its long name or a run of letters;
* the value of an option is what is left of its word – behind an equals sign after a
  long name, behind the letter otherwise – and if nothing is left, the next word,
  whatever it looks like;
* after a word of two hyphens, all words are arguments.
-/

/-- What can be wrong with the words of a command line. -/
inductive Misuse
  /-- There is no such option. -/
  | unknownOption (name : String)
  /-- An option that takes a value has none. -/
  | missingValue
  /-- An option that takes no value has one. -/
  | unexpectedValue (name : String)
  /-- There is no command. -/
  | missingCommand
  /-- There is no such command. -/
  | unknownCommand (name : String)
  /-- A command has not got its argument. -/
  | missingArgument
  /-- A path has a null character in it, and no path can. -/
  | nullInPath (path : String)
  /-- A command has one argument too many. -/
  | extraArgument (word : String)
  /-- A bit pattern is no integer. -/
  | notALiteral (word : String)
  /-- A bit pattern is too wide. -/
  | tooWide (width : Nat) (word : String)
  deriving DecidableEq, Repr, Inhabited

/-- What is said about a command line that makes no sense. -/
def Misuse.message : Misuse → String
  | unknownOption name => "No such option: " ++ name
  | missingValue => "Option requires an argument."
  | unexpectedValue name => "Option --" ++ name ++ " does not take a value."
  | missingCommand => "Missing command."
  | unknownCommand name => "No such command " ++ Text.quoted name ++ "."
  | missingArgument => "Missing argument."
  | nullInPath _ => "embedded null byte"
  | extraArgument word => "Got unexpected extra argument (" ++ word ++ ")"
  | notALiteral word => "Invalid value for BITS: not an integer literal: " ++ Text.quoted word
  | tooWide width word =>
    "Invalid value for BITS: does not fit in " ++ Numeral.decimalText width ++ " bits: " ++ word

/-- What an option does. -/
inductive Effect (α : Type)
  /-- It takes no value. -/
  | flag (setting : α)
  /-- It takes a value. -/
  | valued (setting : String → α)

/-- **An option** of a command, whose settings are of some type. -/
structure Switch (α : Type) where
  /-- Its name, after two hyphens. -/
  long : String
  /-- Its letter, after one hyphen. -/
  short : Option Char
  /-- What it does. -/
  effect : Effect α

/-- **Settings and arguments**, each in the order of the words. -/
structure Sorted (α : Type) where
  /-- The settings. -/
  settings : List α
  /-- The arguments. -/
  arguments : List String

/-- What a word of options gives: its settings, and the option that still needs a
value. -/
structure Opened (α : Type) where
  /-- The settings. -/
  settings : List α
  /-- What the next word is the value of. -/
  waiting : Option (String → α)

variable {α : Type}

/-- Whether a word holds options. -/
def holdsOptions : List Char → Bool
  | '-' :: _ :: _ => true
  | _ => false

/-- What a letter does. -/
def letterEffect? (switches : List (Switch α)) (c : Char) : Option (Effect α) :=
  (switches.find? fun s => s.short == some c).map fun s => s.effect

/-- What a long name does. -/
def nameEffect? (switches : List (Switch α)) (name : String) : Option (Effect α) :=
  (switches.find? fun s => s.long == name).map fun s => s.effect

/-- A run of letters. -/
def readLetters (switches : List (Switch α)) : List Char → Except Misuse (Opened α)
  | [] => .ok ⟨[], none⟩
  | c :: rest =>
    match letterEffect? switches c with
    | none => .error (.unknownOption (String.ofList ['-', c]))
    | some (.flag setting) => do
      let opened ← readLetters switches rest
      return { opened with settings := setting :: opened.settings }
    | some (.valued setting) =>
      match rest with
      | [] => .ok ⟨[], some setting⟩
      | _ => .ok ⟨[setting (String.ofList rest)], none⟩

/-- What stands behind the first equals sign of a word, if it has one. -/
def attached? (word : List Char) : Option String :=
  match word.dropWhile (· != '=') with
  | [] => none
  | _ :: value => some (String.ofList value)

/-- A word that starts with two hyphens. -/
def readLongName (switches : List (Switch α)) (word : List Char) : Except Misuse (Opened α) :=
  let name := String.ofList ((word.drop 2).takeWhile (· != '='))
  match nameEffect? switches name, attached? word with
  | none, _ => .error (.unknownOption name)
  | some (.flag setting), none => .ok ⟨[setting], none⟩
  | some (.flag _), some _ => .error (.unexpectedValue name)
  | some (.valued setting), none => .ok ⟨[], some setting⟩
  | some (.valued setting), some value => .ok ⟨[setting value], none⟩

/-- A word that holds options. -/
def readOptions (switches : List (Switch α)) (word : List Char) : Except Misuse (Opened α) :=
  match word with
  | '-' :: '-' :: _ => readLongName switches word
  | _ => readLetters switches (word.drop 1)

/-- **Takes words apart.** If options may not stand behind arguments, the first
argument and all words behind it are arguments. -/
def sortOut (switches : List (Switch α)) (mixed : Bool) :
    (waiting : Option (String → α)) → List String → Except Misuse (Sorted α)
  | none, [] => .ok ⟨[], []⟩
  | some _, [] => .error .missingValue
  | some setting, word :: rest => do
    let sorted ← sortOut switches mixed none rest
    return { sorted with settings := setting word :: sorted.settings }
  | none, word :: rest =>
    if word = "--" then .ok ⟨[], rest⟩
    else if holdsOptions word.toList then do
      let opened ← readOptions switches word.toList
      let sorted ← sortOut switches mixed opened.waiting rest
      return { sorted with settings := opened.settings ++ sorted.settings }
    else if mixed then do
      let sorted ← sortOut switches mixed none rest
      return { sorted with arguments := word :: sorted.arguments }
    else .ok ⟨[], word :: rest⟩

/-- The only argument of a command. -/
def onlyArgument : List String → Except Misuse String
  | [] => .error .missingArgument
  | [word] => .ok word
  | _ :: word :: _ => .error (.extraArgument word)

end Readout.Command
