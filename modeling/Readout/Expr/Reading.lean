import Readout.Token.Lexer

/-!
# Reading expressions

A text is read as an expression or it has a fault (`Readout.parse`). A fault is shown with the text
and a marker below it (`Readout.Diagnostic`). Whoever does not want to fail takes a reading
(`Readout.readExpression`), which holds the tree or the message.
-/

namespace Readout

/-! ### Messages with a marked excerpt

A message about a place in a source text is shown below the text itself, with a
caret under the place (`Readout.Place.excerpt`). A message may also stand alone;
`Readout.Diagnostic.text` is what is shown in either case.
-/

/-- **A place in a source text.** The position counts code points and may lie
outside the text. -/
structure Place where
  /-- The whole text. -/
  source : String
  /-- The position in it. -/
  pos : Int
  deriving DecidableEq, Repr, Inhabited

namespace Place

/-- The column of the caret: the position, moved into the text if it lies
outside. -/
def column (p : Place) : Nat :=
  (max 0 (min p.pos p.source.length)).toNat

/-- The source text, indented by two spaces, and a caret under the place on a
line of its own. -/
def excerpt (p : Place) : String :=
  "  " ++ p.source ++ "\n  " ++ String.ofList (List.replicate p.column ' ') ++ "^"

end Place

/-- **A message**, perhaps about a place. -/
structure Diagnostic where
  /-- What is said. -/
  message : String
  /-- The place that it is said about. -/
  place : Option Place
  deriving DecidableEq, Repr, Inhabited

/-- A message as it is shown: below the excerpt of its place, if it has one. -/
def Diagnostic.text (d : Diagnostic) : String :=
  match d.place with
  | some p => p.excerpt ++ "\n" ++ d.message
  | none => d.message

/-! ### The parser

The grammar, loosest binding first; every chain groups to the left.

* an expression is a chain of sums joined by shifts;
* a sum is a chain of products joined by plus and minus;
* a product is a chain of operands joined by asterisks;
* an operand is a primary with any number of plus and minus signs before it,
  each minus negating once;
* a primary is a literal, an identifier, an identifier after a scope and a
  double colon, or an expression in parentheses.

At most `Readout.maxOpenParens` parentheses may be open at once. The number that
may still be opened is an argument of `Readout.Parser.primary` (its *room*), and
recursion is on it; the chains are loops over the lexemes, each turn of which
leaves fewer of them.

Bad literals show when the lexeme before them is consumed
(`Readout.Parser.consume`): the parser looks one lexeme ahead and no further, so a
fault found earlier wins over a bad literal further on.
-/

/-- The greatest number of parentheses that may be open at once. -/
def maxOpenParens : Nat := 100

namespace Parser

/-- How a text ends, as the parser passes it along: the position of the end, or
the error that stands in its place. -/
abbrev Ending := Except ReadError Nat

/-- **What a rule of the grammar gives**: a tree, and the lexemes after it, of
which there are fewer than before. -/
structure Parsed (before : List Lexeme) where
  /-- The tree. -/
  tree : Expr
  /-- The lexemes that follow. -/
  rest : List Lexeme
  /-- Something was read. -/
  shorter : rest.length < before.length

/-- A rule of the grammar. -/
abbrev Rule := (ls : List Lexeme) → Except ReadError (Parsed ls)

/-- The current lexeme: the first of those left, or the end. -/
def current (ending : Ending) : List Lexeme → Except ReadError Lexeme
  | l :: _ => .ok l
  | [] => ending.map (⟨.eof, ·⟩)

/-- **Consumes a lexeme**, given those after it. If none is left, the text must end
here properly. -/
def consume (ending : Ending) : List Lexeme → Except ReadError Unit
  | _ :: _ => .ok ()
  | [] => ending.map fun _ => ()

/-- A fault at the current lexeme. -/
def faultHere {α : Type} (ending : Ending) (what : Fault) (ls : List Lexeme) :
    Except ReadError α := do
  let l ← current ending ls
  .error (.fault what l.pos)

/-- The operators that join sums. -/
def shiftOp? : Token → Option Op
  | .lshift => some .shl
  | .rshift => some .shr
  | _ => none

/-- The operators that join products. -/
def sumOp? : Token → Option Op
  | .plus => some .add
  | .minus => some .sub
  | _ => none

/-- The operator that joins operands. -/
def productOp? : Token → Option Op
  | .star => some .mul
  | _ => none

/-- What a chain gives when its first part is already read: a tree, and the
lexemes after it. -/
structure Chained (before : List Lexeme) where
  /-- The tree. -/
  tree : Expr
  /-- The lexemes that follow. -/
  rest : List Lexeme
  /-- Nothing was put back. -/
  noLonger : rest.length ≤ before.length

/-- The rest of a chain, to the right of a tree. -/
def chainAfter (ending : Ending) (op? : Token → Option Op) (part : Rule) (left : Expr)
    (ls : List Lexeme) : Except ReadError (Chained ls) :=
  match ls with
  | [] => .ok ⟨left, [], Nat.le_refl _⟩
  | l :: rest =>
    match op? l.token with
    | none => .ok ⟨left, l :: rest, Nat.le_refl _⟩
    | some op =>
      match consume ending rest with
      | .error e => .error e
      | .ok _ =>
        match part rest with
        | .error e => .error e
        | .ok right =>
          have shorter : right.rest.length < (l :: rest).length :=
            Nat.lt_succ_of_lt right.shorter
          match chainAfter ending op? part (.bin op left right.tree) right.rest with
          | .error e => .error e
          | .ok all => .ok ⟨all.tree, all.rest, Nat.le_trans all.noLonger (Nat.le_of_lt shorter)⟩
termination_by ls.length
decreasing_by exact shorter

/-- **A chain** of parts joined by operators, grouped to the left. -/
def chain (ending : Ending) (op? : Token → Option Op) (part : Rule) : Rule := fun ls =>
  match part ls with
  | .error e => .error e
  | .ok first =>
    match chainAfter ending op? part first.tree first.rest with
    | .error e => .error e
    | .ok all => .ok ⟨all.tree, all.rest, Nat.lt_of_le_of_lt all.noLonger first.shorter⟩

/-- **An operand**: a primary after a run of signs. -/
def operand (ending : Ending) (primary : Rule) : Rule
  | [] => primary []
  | l :: rest =>
    match l.token with
    | .plus =>
      match consume ending rest with
      | .error e => .error e
      | .ok _ =>
        match operand ending primary rest with
        | .error e => .error e
        | .ok p => .ok ⟨p.tree, p.rest, Nat.lt_succ_of_lt p.shorter⟩
    | .minus =>
      match consume ending rest with
      | .error e => .error e
      | .ok _ =>
        match operand ending primary rest with
        | .error e => .error e
        | .ok p => .ok ⟨.neg p.tree, p.rest, Nat.lt_succ_of_lt p.shorter⟩
    | _ => primary (l :: rest)

/-- A whole expression, above a rule for primaries. -/
def expression (ending : Ending) (primary : Rule) : Rule :=
  chain ending shiftOp? (chain ending sumOp? (chain ending productOp? (operand ending primary)))

/-- The name after a scope and a double colon. Whether there is such a scope is
asked last. -/
def nameInScope (ending : Ending) (word : Lexeme × String) :
    (ls : List Lexeme) → Except ReadError (Parsed (word.1 :: ls))
  | ⟨.ident name, _⟩ :: rest => do
    consume ending rest
    match Scope.ofKeyword? word.2 with
    | some scope =>
      return ⟨.atom (.qualified scope name), rest,
        Nat.lt_succ_of_lt (Nat.lt_succ_self rest.length)⟩
    | none => .error (.fault (.unknownScope word.2) word.1.pos)
  | ls => faultHere ending .missingName ls

/-- What follows an identifier: nothing that belongs to it, or a double colon and
the name that the identifier is the scope of. -/
def identifier (ending : Ending) (word : Lexeme × String) :
    (ls : List Lexeme) → Except ReadError (Parsed (word.1 :: ls))
  | ⟨.scope, _⟩ :: rest => do
    consume ending rest
    let named ← nameInScope ending word rest
    return ⟨named.tree, named.rest, Nat.lt_succ_of_lt named.shorter⟩
  | ls => do
    consume ending ls
    return ⟨.atom (.bare word.2), ls, Nat.lt_succ_self _⟩

/-- What follows an opening parenthesis: an expression, and the closing one. -/
def parenthesis (ending : Ending) (inside : Rule) (l : Lexeme) (rest : List Lexeme) :
    Except ReadError (Parsed (l :: rest)) := do
  consume ending rest
  let e ← inside rest
  match h : e.rest with
  | ⟨.rparen, _⟩ :: after =>
    consume ending after
    return ⟨e.tree, after, by
      have := e.shorter
      rw [h] at this
      simp only [List.length_cons] at this ⊢
      omega⟩
  | other => faultHere ending .unclosed other

/-- **A primary**, with room for a number of further open parentheses. -/
def primary (ending : Ending) : (room : Nat) → Rule
  | room, ls =>
    match ls with
    | [] => faultHere ending .unexpectedEnd []
    | l :: rest =>
      match l.token with
      | .int value => do
        consume ending rest
        return ⟨.atom (.const value), rest, Nat.lt_succ_self _⟩
      | .ident word => identifier ending (l, word) rest
      | .lparen =>
        match room with
        | 0 => .error (.fault .tooDeep l.pos)
        | room + 1 => parenthesis ending (expression ending (primary ending room)) l rest
      | other => .error (.fault (.unexpected other) l.pos)

end Parser

/-- The expression that the lexemes of a text form. -/
def Feed.parse (feed : Feed) : Except ReadError Expr := do
  let whole ← Parser.expression feed.ending (Parser.primary feed.ending maxOpenParens) feed.lexemes
  match whole.rest with
  | [] => return whole.tree
  | l :: _ => .error (.fault .trailing l.pos)

/-- **The expression that a source text spells.** -/
def parse (source : String) : Except ReadError Expr :=
  (Cursor.start source).feed.parse

/-- What is shown about a source text that could not be read. -/
def ReadError.diagnostic (source : String) : ReadError → Diagnostic
  | fault what pos => ⟨what.message, some ⟨source, pos⟩⟩
  | oversized digits => ⟨Numeral.oversizedText digits, none⟩

/-! ### Reading without failing

Tools that show expressions while they are typed want a result for every text. A
reading (`Readout.Reading`) holds a complete tree or a message with a position,
never a part of a tree; the message may also be appended to a text that collects
such messages (`Readout.readExpression`). Only a literal too long to be converted
is not a matter of the language, and stays an error.
-/

/-- **The outcome of reading an expression.** -/
structure Reading where
  /-- The tree, if the text was a complete expression. -/
  tree : Option Expr
  /-- What is wrong with the text otherwise. -/
  error : Option String
  /-- Where it is wrong. Readings that were not made from a text may name any place. -/
  pos : Option Int
  deriving DecidableEq, Repr, Inhabited

namespace Reading

/-- Whether there is a tree. -/
def ok (r : Reading) : Bool :=
  r.tree.isSome

/-- The message of a reading without a tree; an empty one says nothing and is
replaced. -/
def complaint (r : Reading) : String :=
  match r.error with
  | some "" => "parse failed"
  | some message => message
  | none => "parse failed"

/-- **The tree of a reading**, or its message and position. -/
def unwrap (r : Reading) : Except (String × Int) Expr :=
  match r.tree with
  | some e => .ok e
  | none => .error (r.complaint, r.pos.getD 0)

end Reading

/-- **Reads an expression.** The message of a failure is also appended to `sink`. -/
def readExpression (source : String) (sink : Option String) :
    Except ReadError (Reading × Option String) :=
  match parse source with
  | .ok e => .ok (⟨some e, none, none⟩, sink)
  | .error (.fault what pos) =>
    .ok (⟨none, some what.message, some (Int.ofNat pos)⟩, sink.map (· ++ what.message))
  | .error (.oversized digits) => .error (.oversized digits)

end Readout
