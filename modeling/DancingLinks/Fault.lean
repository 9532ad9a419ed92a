import DancingLinks.Text.Integer
import DancingLinks.Text.Quoted
import DancingLinks.Text.Utf8

/-!
# Faults

Everything that can go wrong, as causes: bad input met while a matrix, a puzzle or a search is set
up, a broken contract of the search, and values outside the domain of a computation. The wording of
each cause is in `Fault.message`, its class in `Fault.kind`.
-/

namespace DancingLinks

/-- Why an operation failed. -/
inductive Fault
  /-- A column name is declared a second time. -/
  | duplicateColumn (name : String)
  /-- A column name that was not declared. -/
  | unknownColumn (name : String)
  /-- A row lists one column twice. -/
  | repeatedColumn (row column : String)
  /-- A text encoding without a header line or without a row. -/
  | tooFewLines
  /-- A row of numbers that does not have one number per column. -/
  | rowLength (values : List String) (columns : Nat)
  /-- An entry of a row of numbers that is no integer. -/
  | notInteger (value : String)
  /-- An entry of a row of numbers below zero. -/
  | negativeEntry (value : String)
  /-- A name of no column selector. -/
  | unknownSelector (name : String)
  /-- A solution limit that is no positive integer. -/
  | badLimit (shown : String)
  /-- A row name that does not denote a square or a candidate. -/
  | badRowName (name : String)
  /-- A grid line whose length is not the number of lines. -/
  | raggedRow (row expected actual : Nat)
  /-- A board of queens without squares. -/
  | boardSize (size : Int)
  /-- A sudoku without squares. -/
  | sudokuSize (size : Int)
  /-- An alphabet with fewer symbols than a row has squares. -/
  | smallAlphabet (alphabet : List String) (size : Int)
  /-- A symbol that would not survive the text encoding. -/
  | badSymbol (symbol : String)
  /-- More symbols in a grid than a row has squares. -/
  | tooManySymbols (symbols : List String) (size : Int)
  /-- Two given cells on one square. -/
  | duplicateCell (row column : Int)
  /-- A node that is not named like a column. -/
  | notColumnHeader (node : String)
  /-- A node that is named like a column and is not its header. -/
  | notOwnHeader (node : String)
  /-- A covered column is to be covered. -/
  | alreadyCovered (column : String)
  /-- A column that is not covered is to be uncovered. -/
  | notCovered (column : String)
  /-- A choice among no columns. -/
  | noColumn
  /-- A text with no integer value, or an integer with no text. -/
  | integer (failure : Text.Integer.Failure)
  /-- Bytes that are no text. -/
  | encoding (failure : Text.Utf8.Failure)
  /-- An integer square root of a negative number. -/
  | negativeSquareRoot
  /-- A real square root of a negative number. -/
  | complexSquareRoot
  /-- An integer beyond the floating-point range. -/
  | floatRange
  /-- A division by zero. -/
  | divisionByZero
  /-- Numbers that make no rectangle: one of them is no coordinate. -/
  | badRectangle
  /-- Numbers that make no point: one of them is no coordinate. -/
  | badPoint
  /-- A rectangle is to be moved to a place whose numbers are no coordinates. -/
  | badPlace
  /-- A name of no logging level. -/
  | unknownLevel (name : String)
  /-- The listener of a search refused a message. -/
  | refused
  /-- A walk along a ring that does not lead back to its start. -/
  | openRing
  /-- A search that ran out of levels. -/
  | tooDeep
  deriving Repr

namespace Fault

/-- The classes of faults. -/
inductive Kind
  /-- Bad input. -/
  | configuration
  /-- A broken contract. -/
  | contract
  /-- A value with the right type and no meaning. -/
  | value
  /-- A value of the wrong type. -/
  | type
  /-- A number beyond the floating-point range. -/
  | overflow
  /-- A division by zero. -/
  | zeroDivision
  /-- Bytes that are no text. -/
  | decoding
  /-- A fault raised by the listener. -/
  | listener
  /-- A matrix or a search beyond its bounds. -/
  | bounds
  deriving DecidableEq, Repr

/-- The class of a fault. -/
def kind : Fault → Kind
  | notColumnHeader _ | notOwnHeader _ | alreadyCovered _ | notCovered _ | noColumn => .contract
  | integer _ | negativeSquareRoot | unknownLevel _ => .value
  | encoding _ => .decoding
  | complexSquareRoot | badRectangle | badPoint | badPlace => .type
  | floatRange => .overflow
  | divisionByZero => .zeroDivision
  | refused => .listener
  | openRing | tooDeep => .bounds
  | _ => .configuration

/-- The wording of a fault. -/
def message : Fault → String
  | duplicateColumn name => s!"Column {name} is defined more than once"
  | unknownColumn name => s!"Column {name} does not exist"
  | repeatedColumn row column => s!"Row {row} references column {column} twice"
  | tooFewLines => "Expected a header line and at least one row"
  | rowLength values columns =>
    s!"Row {Text.quotedList values} is expected to have size {columns} but it is {values.length}"
  | notInteger value => s!"Cell value {Text.quoted value} is not an integer"
  | negativeEntry value => s!"Cell value {Text.quoted value} is negative"
  | unknownSelector name => s!"Unknown column selector {Text.quoted name}"
  | badLimit shown => s!"Solution limit must be a positive integer, got {shown}"
  | badRowName name => s!"Unable to parse row name '{name}'"
  | raggedRow row expected actual =>
    s!"Expected row {row} to have size {expected} but it has size {actual}"
  | boardSize size => s!"Board size must be positive, got {size}"
  | sudokuSize size => s!"Sudoku size must be positive, got {size}"
  | smallAlphabet alphabet size =>
    s!"Current alphabet {Text.quotedList alphabet} should contain at least {size} symbols"
  | badSymbol symbol => s!"Symbol {Text.quoted symbol} can not be used in a sudoku"
  | tooManySymbols symbols size => s!"Too many symbols {Text.quotedList symbols} for size {size}"
  | duplicateCell row column =>
    s!"Cell Coordinates(row={row}, column={column}) is given more than once"
  | notColumnHeader node => s!"{node} is not a column header"
  | notOwnHeader node => s!"{node} does not belong to this matrix"
  | alreadyCovered column => s!"Column {column} is already covered"
  | notCovered column => s!"Column {column} is not covered"
  | noColumn => "No column available to branch on"
  | integer failure => failure.message
  | encoding failure => failure.message
  | negativeSquareRoot => "isqrt() argument must be nonnegative"
  | complexSquareRoot =>
    "int() argument must be a string, a bytes-like object or a real number, not 'complex'"
  | floatRange => "int too large to convert to float"
  | divisionByZero => "integer division or modulo by zero"
  | badRectangle => "Argument must be rect style object"
  | badPoint => "argument must contain two numbers"
  | badPlace => "invalid rect assignment"
  | unknownLevel name => s!"Unknown level: {Text.quoted name}"
  | refused => "The listener refused a message"
  | openRing => "A ring does not lead back to its start"
  | tooDeep => "The search is too deep"

end Fault

end DancingLinks
