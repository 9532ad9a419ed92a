import DancingLinks.Search.Options
import DancingLinks.Text.UpperCase

/-!
# Settings

The settings of the viewer and of the searches it starts, with their defaults. They are read from
environment variables, the numbers in a fixed order, so that the first bad one is reported.
-/

namespace DancingLinks

/-- The settings of the program. -/
structure Settings where
  /-- The name of a column selector. -/
  selectorName : String := "smaller"
  /-- How many solutions a search looks for; all of them when there is no limit. -/
  solutionLimit : Option Int := none
  /-- The name of a logging level. -/
  logLevel : String := "INFO"
  /-- The size of the board of queens. -/
  queensSize : Int := 8
  /-- The side of a square in pixels. -/
  cellSize : Int := 64
  /-- How many boards are shown; all of them when it is not positive. -/
  maxView : Int := 100
  deriving DecidableEq, Repr, Inhabited

namespace Settings

/-- The environment variables that hold settings. -/
def variableNames : List String :=
  ["DLX_COLUMN_SELECTOR", "DLX_SOLUTION_LIMIT", "DLX_LOG_LEVEL", "DLX_NQUEENS_SIZE",
    "DLX_CELL_SIZE", "DLX_MAX_VIEW_SOLUTIONS"]

/-- The integer that a variable holds, or a default when it is not set. -/
def integer (raw : Option String) (default : Int) : Except Fault Int :=
  match raw with
  | none => .ok default
  | some text => (Text.Integer.read text).mapError .integer

/-- The integer that a variable holds; there is none when it is not set or blank. -/
def integer? (raw : Option String) : Except Fault (Option Int) :=
  match raw with
  | none => .ok none
  | some text =>
    if Text.isBlankText text then .ok none
    else do return some (← (Text.Integer.read text).mapError .integer)

/-- The settings that the environment gives. -/
def ofEnvironment (lookup : String → Option String) : Except Fault Settings := do
  let defaults : Settings := {}
  let solutionLimit ← integer? (lookup "DLX_SOLUTION_LIMIT")
  let queensSize ← integer (lookup "DLX_NQUEENS_SIZE") defaults.queensSize
  let cellSize ← integer (lookup "DLX_CELL_SIZE") defaults.cellSize
  let maxView ← integer (lookup "DLX_MAX_VIEW_SOLUTIONS") defaults.maxView
  return {
    selectorName := (lookup "DLX_COLUMN_SELECTOR").getD defaults.selectorName
    solutionLimit
    logLevel := Text.toUpperCase ((lookup "DLX_LOG_LEVEL").getD defaults.logLevel)
    queensSize, cellSize, maxView }

/-- The names of the logging levels. -/
def logLevels : List String :=
  ["CRITICAL", "FATAL", "ERROR", "WARN", "WARNING", "INFO", "DEBUG", "NOTSET"]

/-- Refuses a logging level that has no such name. -/
def checkLogLevel (s : Settings) : Except Fault Unit :=
  if s.logLevel ∈ logLevels then .ok () else .error (.unknownLevel s.logLevel)

/-- The options of the searches that the settings ask for. -/
def options (s : Settings) : Except Fault Options := do
  let selector ← Selector.ofName s.selectorName
  let limit ← match s.solutionLimit with
    | some n => some <$> Limit.ofInput (.whole n)
    | none => pure none
  return { selector, limit }

/-- How many boards are shown at most, if there is such a number. -/
def viewLimit (s : Settings) : Option Limit :=
  if h : 0 < s.maxView.toNat then some ⟨s.maxView.toNat, h⟩ else none

/-- Options that look for no more solutions than are shown. -/
def capped (s : Settings) (o : Options) : Options :=
  match s.viewLimit, o.limit with
  | none, _ => o
  | some cap, some limit => if limit.count ≤ cap.count then o else { o with limit := some cap }
  | some cap, none => { o with limit := some cap }

end Settings

end DancingLinks
