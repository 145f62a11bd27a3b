import Readout.Decimal.InPlace
import Readout.Decimal.PowerUse
import Readout.Decimal.Slots
import Readout.Expr.Assembly
import Readout.Expr.Reading
import Readout.Main
import Readout.Session
import Readout.Proofs.Binary.Exact
import Readout.Proofs.Binary.Nearest
import Readout.Proofs.Binary.Order
import Readout.Proofs.Command.Evaluate
import Readout.Proofs.Context.Assignments
import Readout.Proofs.Context.Literals
import Readout.Proofs.Context.Names
import Readout.Proofs.Context.Range
import Readout.Proofs.Context.Validation
import Readout.Proofs.Decimal.InPlace
import Readout.Proofs.Decimal.Places
import Readout.Proofs.Decimal.PowerAccounts
import Readout.Proofs.Decimal.PowerCells
import Readout.Proofs.Decimal.Powers
import Readout.Proofs.Decimal.Rounding
import Readout.Proofs.Decimal.Scientific
import Readout.Proofs.Decimal.SlotCells
import Readout.Proofs.Decimal.Sweep
import Readout.Proofs.Diagnostic
import Readout.Proofs.Expr.Agreement
import Readout.Proofs.Expr.Completeness
import Readout.Proofs.Expr.Depth
import Readout.Proofs.Expr.Evaluation
import Readout.Proofs.Expr.Grammar
import Readout.Proofs.Expr.Listing
import Readout.Proofs.Expr.Parentheses
import Readout.Proofs.Expr.Reading
import Readout.Proofs.Expr.RoundTrip
import Readout.Proofs.Expr.Rules
import Readout.Proofs.Expr.Soundness
import Readout.Proofs.Expr.Viable
import Readout.Proofs.Numeral.AsciiForm
import Readout.Proofs.Numeral.Literal
import Readout.Proofs.Numeral.Positional
import Readout.Proofs.Numeral.Spelling
import Readout.Proofs.Session
import Readout.Proofs.Token.Advances
import Readout.Proofs.Token.Layout
import Readout.Proofs.Token.Lexing
import Readout.Proofs.Token.Literals
import Readout.Proofs.Token.Spelling
import Readout.Proofs.Token.Starts
