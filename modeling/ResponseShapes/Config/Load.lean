import ResponseShapes.Config.Basic
import ResponseShapes.Yaml.Value

/-!
# Reading settings

The settings of a project are the standard ones, changed by what a YAML mapping says. A value of the wrong kind and an
empty text change nothing; only a lock timeout that is not positive is refused.
-/

namespace ResponseShapes

open Yaml

/-- The name of the file that holds the settings of a project. -/
def settingsFile : String := ".shapegen.yml"

/-- Why settings cannot be read. -/
inductive SettingsError
  /-- The text cannot be read, or a value in it cannot be used. -/
  | fault (f : Fault)
  /-- The document is no mapping. -/
  | notMapping
  /-- The lock timeout is not positive. -/
  | timeout
  deriving DecidableEq, Repr

/-- What is said about the error. -/
def SettingsError.message : SettingsError → String
  | fault .malformed => "Failed to parse " ++ settingsFile
  | fault f => f.message
  | notMapping => settingsFile ++ " must contain a mapping at the root"
  | timeout => "build.lock_timeout must be a positive number of seconds"

namespace Settings

/-! ### Values as texts, numbers and lists -/

/-- A whole number in decimal text; one with too many digits cannot be written. -/
def intText (i : Int) : Except SettingsError String :=
  if Nat.pow 10 Fault.mostDigits ≤ i.natAbs then .error (.fault .tooLongToWrite) else .ok (toString i)

/-- The text of a scalar that is a text or a number. -/
def scalarText? : Scalar → Except SettingsError (Option String)
  | .text s => .ok (some s)
  | .int i => some <$> intText i
  | .float x => .ok (some x.text)
  | _ => .ok none

/-- The text of a value that is a text or a number. -/
def text? : Value → Except SettingsError (Option String)
  | .scalar s => scalarText? s
  | _ => .ok none

/-- The number of a value that is a number or the text of one. -/
def number? : Value → Except SettingsError (Option Binary64)
  | .scalar (.int i) =>
    match Binary64.ofInt? i with
    | some x => .ok (some x)
    | none => .error (.fault .tooLarge)
  | .scalar (.float x) => .ok (some x)
  | .scalar (.text s) => .ok (Binary64.ofText? s)
  | _ => .ok none

/-- The truth value of a value that is one, or a word or a digit for one. -/
def truth? : Value → Option Bool
  | .scalar (.bool b) => some b
  | .scalar (.text s) =>
    let word := Text.lower (Text.trim s)
    if ["true", "yes", "1"].contains word then some true
    else if ["false", "no", "0"].contains word then some false
    else none
  | _ => none

/-- The text of an item of a list: a text, a number or a truth value. -/
def itemText? : Value → Except SettingsError (Option String)
  | .scalar (.bool b) => .ok (some (if b then "True" else "False"))
  | v => text? v

/-- The texts of a value: a text alone, or those among the items of a list. Bytes are a list of numbers. -/
def texts : Value → Except SettingsError (List String)
  | .scalar (.text s) => .ok [s]
  | .scalar (.bytes bs) => .ok (bs.map fun b => toString b.toNat)
  | .list items => do return (← items.mapM itemText?).filterMap id
  | _ => .ok []

/-! ### Entries -/

/-- The entries of a mapping. -/
abbrev ValueMap := List (Value × Value)

/-- The entries of a section; a section that is no mapping has none. -/
def section? (name : String) (m : ValueMap) : ValueMap :=
  match Value.get? name m with
  | some (.map entries) => entries
  | _ => []

/-- The text under a key, unless it is missing or empty. -/
def textOr (key : String) (m : ValueMap) (old : String) : Except SettingsError String :=
  match Value.get? key m with
  | none => .ok old
  | some v => do
    match ← text? v with
    | some s => return if s.isEmpty then old else s
    | none => return old

/-- The texts under a key. -/
def textsAt (key : String) (m : ValueMap) : Except SettingsError (List String) :=
  match Value.get? key m with
  | none => .ok []
  | some v => texts v

/-- The conventions that a section gives. -/
def readConventions (m : ValueMap) (c : Conventions) : Except SettingsError Conventions := do
  let unitSuffix ← textOr "unit_suffix" m c.unitSuffix
  let endpointSuffix ← textOr "endpoint_suffix" m c.endpointSuffix
  let responseSuffix ← textOr "response_suffix" m c.responseSuffix
  let createVerb ← textOr "create_verb" m c.createVerb
  let verbs ← textsAt "http_verbs" m
  let marker ← textOr "marker" m c.marker
  let arrayMarker ← textOr "array_marker" m c.arrayMarker
  let createdMarker ← textOr "created_marker" m c.createdMarker
  return {
    unitSuffix, endpointSuffix, responseSuffix, createVerb
    verbs := if verbs.isEmpty then c.verbs else verbs
    marker, arrayMarker, createdMarker }

/-- The names of the documentation framework that a section gives. -/
def readDocumentation (m : ValueMap) (d : Documentation) : Except SettingsError Documentation := do
  let module ← textOr "module" m d.module
  let propertyDecorator ← textOr "property_decorator" m d.propertyDecorator
  let okDecorator ← textOr "ok_decorator" m d.okDecorator
  let createdDecorator ← textOr "created_decorator" m d.createdDecorator
  return { module, propertyDecorator, okDecorator, createdDecorator }

/-- The lock timeout that a section gives. -/
def readTimeout (m : ValueMap) (old : Binary64) : Except SettingsError Binary64 :=
  match Value.get? "lock_timeout" m with
  | none => .ok old
  | some v => do
    match ← number? v with
    | some x => if x.isAtMostZero then .error .timeout else return x
    | none => return old

/-- The settings that the entries of a mapping give. -/
def ofMapping (root : Path) (m : ValueMap) : Except SettingsError Settings := do
  let s := standard root
  let sourceDir ← textOr "src_dir" m s.sourceDir
  let outputDir ← textOr "output_dir" m s.outputDir
  let servicePattern ← textOr "service_pattern" m s.servicePattern
  let controllerPattern ← textOr "controller_pattern" m s.controllerPattern
  let clean := ((Value.get? "clean" m).bind truth?).getD s.clean
  let excludePaths ← textsAt "exclude_paths" m
  let conventions ← readConventions (section? "conventions" m) s.conventions
  let documentation ← readDocumentation (section? "documentation" m) s.documentation
  let lockTimeout ← readTimeout (section? "build" m) s.lockTimeout
  return {
    root, sourceDir, outputDir, servicePattern, controllerPattern, clean, excludePaths
    conventions, documentation, lockTimeout }

/-- The settings that a value gives; nothing changes nothing. -/
def ofValue (root : Path) : Value → Except SettingsError Settings
  | .map entries => ofMapping root entries
  | .scalar .null => ofMapping root []
  | _ => .error .notMapping

/-- The number of collections inside each other that settings are read from. -/
def valueDepth : Nat := 4

/-- The settings that a text gives. -/
def ofText (root : Path) (text : List Char) : Except SettingsError Settings :=
  if (Text.trimChars text).isEmpty then ofMapping root []
  else
    match Value.ofText valueDepth text with
    | .ok v => ofValue root v
    | .error f => .error (.fault f)

end Settings

end ResponseShapes
