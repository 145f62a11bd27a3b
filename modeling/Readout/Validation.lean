import Readout.Numeral.Literal
import Readout.Table
import Readout.Text

/-!
# Data from outside

Values of many kinds come from outside (`Readout.Value`), and few of them are what is wanted. What
is not is rejected, with the field that it stands in and a reason (`Readout.Rejection`).
-/

namespace Readout

/-! ### Values from outside

Context files, and callers that make a context themselves, give data of many kinds,
of which only integers and texts can become words. A value (`Readout.Value`) keeps
what matters of it: dates, times and fractions are never looked into.
-/

/-- **A value of any kind.** -/
inductive Value
  /-- Nothing. -/
  | null
  /-- A truth value. -/
  | boolean (b : Bool)
  /-- An integer. -/
  | integer (n : Int)
  /-- A fraction, or infinity, or no number. -/
  | float
  /-- A text. -/
  | text (s : String)
  /-- A date. -/
  | date
  /-- A time of day. -/
  | time
  /-- A date with a time of day. -/
  | datetime
  /-- A list. -/
  | list (items : List Value)
  /-- A table. -/
  | table (entries : Table Value)
  deriving Inhabited

/-- The name of the kind of a value. -/
def Value.kind : Value → String
  | null => "NoneType"
  | boolean _ => "bool"
  | integer _ => "int"
  | float => "float"
  | text _ => "str"
  | date => "date"
  | time => "time"
  | datetime => "datetime"
  | list _ => "list"
  | table _ => "dict"

/-! ### Rejected fields

Data from outside – the tables of a context, the parameters of a format, the
parts of a tree – is checked field by field. A rejection names the field and the
reason (`Readout.Rejection`), and a record is refused with one rejection for every
bad field, in the order of the fields.
-/

/-- Why an entry of a table is refused. -/
inductive EntryFault
  /-- The table is none. -/
  | notATable
  /-- The name is no identifier. -/
  | badName (name : String)
  /-- The value is a truth value. -/
  | truthValue
  /-- The value is a text that spells no integer. -/
  | notALiteral (text : String)
  /-- The value is of a kind that stands for no integer. -/
  | notAnInteger (kind : String)
  /-- The value is not a word. -/
  | outOfRange (value : Int)
  deriving DecidableEq, Repr, Inhabited

/-- What is said about a refused entry. -/
def EntryFault.message : EntryFault → String
  | notATable => "expected a table of name = value entries"
  | badName name => "invalid identifier name: " ++ Text.quoted name
  | truthValue => "booleans are not register values"
  | notALiteral text => "not an integer literal: " ++ Text.quoted text
  | notAnInteger kind => "expected an integer, got " ++ kind
  | outOfRange value =>
    Numeral.withDecimal value fun v => "value " ++ v ++ " does not fit in 64 bits"

/-- **Why a field is refused.** -/
inductive Reason
  /-- It is not there. -/
  | missing
  /-- It is not greater than a bound. -/
  | notAbove (bound : Int)
  /-- It is less than a bound. -/
  | below (bound : Int)
  /-- It is greater than a bound. -/
  | above (bound : Int)
  /-- It is no word for a scope. -/
  | notScope
  /-- It is no sign of an operator. -/
  | notOp
  /-- It is a table with a bad entry. -/
  | entry (fault : EntryFault)
  deriving DecidableEq, Repr, Inhabited

/-- What is said about a refused field. -/
def Reason.message : Reason → String
  | missing => "Field required"
  | notAbove bound => "Input should be greater than " ++ Numeral.decimalText bound
  | below bound => "Input should be greater than or equal to " ++ Numeral.decimalText bound
  | above bound => "Input should be less than or equal to " ++ Numeral.decimalText bound
  | notScope => "Input should be 'reg' or 'sym'"
  | notOp => "Input should be '+', '-', '*', '<<' or '>>'"
  | entry fault => "Value error, " ++ fault.message

/-- **A rejection**: a field and why it is refused. -/
structure Rejection where
  /-- The field. -/
  field : String
  /-- The reason. -/
  reason : Reason
  deriving DecidableEq, Repr, Inhabited

end Readout
