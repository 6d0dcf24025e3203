import ResponseShapes.Project.Wildcard

/-!
# Ignored paths

A rule describes paths that are left out, or taken back in if it is negated. Of several rules that describe a path the
last one decides. A rule without a slash inside describes names, at any depth; any other rule describes whole paths.
-/

namespace ResponseShapes

/-- A rule about paths. -/
structure IgnoreRule where
  pattern : String
  directoryOnly : Bool
  anchored : Bool
  negated : Bool
  hasSlash : Bool
  deriving DecidableEq, Repr

namespace IgnoreRule

/-- Reads a rule; blanks alone are none. -/
def ofString? (negated : Bool) (text : String) : Option IgnoreRule :=
  let pattern := Text.trim text
  if pattern.isEmpty then none
  else
    let directoryOnly := Text.endsWith pattern "/"
    let pattern := if directoryOnly then Text.dropEnd pattern 1 else pattern
    let anchored := pattern.toList.head? = some '/'
    let pattern := if anchored then String.ofList (pattern.toList.drop 1) else pattern
    some { pattern, directoryOnly, anchored, negated, hasSlash := pattern.toList.contains '/' }

/-- Whether the rule describes a path, given from the directory of the rule. -/
def describes (r : IgnoreRule) (path : String) (isDirectory : Bool) : Bool :=
  if r.pattern.isEmpty || (r.directoryOnly && !isDirectory) then false
  else if r.anchored || r.hasSlash then
    wildcardDescribes r.pattern path ||
      (r.directoryOnly && (r.pattern.toList ++ ['/']).isPrefixOf path.toList)
  else (Text.split '/' path).any (wildcardDescribes r.pattern)

/-- The rule in a line of an ignore file; blank lines and remarks hold none. -/
def ofLine? (line : List Char) : Option IgnoreRule :=
  match Text.trimChars line with
  | [] => none
  | '#' :: _ => none
  | '!' :: cs => ofString? true (String.ofList cs)
  | cs => ofString? false (String.ofList cs)

/-- The rules in an ignore file. -/
def ofText (text : List Char) : List IgnoreRule :=
  (Text.lines text).filterMap ofLine?

end IgnoreRule

/-- Whether a path is ignored. -/
def isIgnored (rules : List IgnoreRule) (path : String) (isDirectory : Bool) : Bool :=
  rules.foldl (fun ignored r => if r.describes path isDirectory then !r.negated else ignored) false

end ResponseShapes
