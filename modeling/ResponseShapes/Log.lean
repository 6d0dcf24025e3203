/-!
# Log rows

What a pass reports on its way, in order.
-/

namespace ResponseShapes

/-- The name of the program in what it prints. -/
def programName : String := "shapegen"

/-- How much a row matters. -/
inductive LogLevel
  | debug | info | warning | error | critical
  deriving DecidableEq, Repr

namespace LogLevel

/-- The word for a level. -/
def word : LogLevel → String
  | debug => "DEBUG"
  | info => "INFO"
  | warning => "WARNING"
  | error => "ERROR"
  | critical => "CRITICAL"

/-- The place of a level among the others. -/
def rank : LogLevel → Nat
  | debug => 10
  | info => 20
  | warning => 30
  | error => 40
  | critical => 50

/-- All levels. -/
def all : List LogLevel :=
  [debug, info, warning, error, critical]

/-- The level that a word names. -/
def ofWord? (word : String) : Option LogLevel :=
  all.find? fun l => l.word = word

/-- Whether rows of a level are shown. -/
def isShown (verbose : Bool) (l : LogLevel) : Bool :=
  (if verbose then debug else info).rank ≤ l.rank

/-- A report of a level as it is shown. -/
def line (l : LogLevel) (text : String) : String :=
  "[" ++ programName ++ "] " ++ l.word ++ " " ++ text ++ "\n"

end LogLevel

/-- The part of the program that reports. -/
inductive Reporter
  | naming | units | endpoints | rewriting | build | pipeline
  deriving DecidableEq, Repr

/-- The name under which a part reports. -/
def Reporter.name : Reporter → String
  | naming => "analyzers.naming"
  | units => "scanners.units"
  | endpoints => "scanners.endpoints"
  | rewriting => "rewriter"
  | build => "stores.generation"
  | pipeline => "orchestrator"

/-- One report. -/
structure LogRow where
  level : LogLevel
  reporter : Reporter
  text : String
  deriving DecidableEq, Repr

/-- The rows as they are shown. -/
def LogRow.lines (verbose : Bool) (rows : List LogRow) : String :=
  String.join ((rows.filter fun r => r.level.isShown verbose).map fun r => r.level.line r.text)

end ResponseShapes
