import ResponseShapes.Declaration.Naming
import ResponseShapes.Endpoint.Table
import ResponseShapes.Failure
import ResponseShapes.Log
import ResponseShapes.Syntax.Module

/-!
# Reading endpoints and declared units

Endpoint classes are read from sources into a table. Each is paired by its name with a unit whose declarations exist,
and each of its handlers with the member of that unit that has the handler's name. Declared units are read back from
the modules that declare them.
-/

namespace ResponseShapes

open Syntax

/-! ### Endpoints -/

/-- The mapping of a handler to the member of its name. -/
def mapHandler? (conventions : Conventions) (key handler : String) (verb : Option String) (d : DeclaredUnit) :
    Option Mapping :=
  (Entries.get? handler d.members).map fun declaration =>
    { endpoint := key, handler, unit := d.unit, member := handler, declaration
      reference := d.lookup ++ "." ++ handler
      isList := returnsList handler
      status := Status.ofVerb verb conventions.createVerb
      verb }

/-- Adds a handler to its endpoint; one whose name is taken is left out, and one that no member answers is
    reported. -/
def addHandler (conventions : Conventions) (className : String) (d : DeclaredUnit)
    (acc : EndpointUnit × List LogRow) (m : Method) : EndpointUnit × List LogRow :=
  match m.verb? conventions.verbs with
  | none => acc
  | some verb =>
    match mapHandler? conventions acc.1.key m.name (some verb) d with
    | none =>
      (acc.1, acc.2 ++
        [{ level := .warning, reporter := .endpoints
           text := s!"{className}.{m.name} has no matching member on {d.unit}; skipping" }])
    | some mapping => ({ acc.1 with handlers := acc.1.handlers.putNew m.name mapping }, acc.2)

/-- Adds an endpoint class of the file `path` to the table, with the rows that report on it. -/
def addClass (conventions : Conventions) (path : Path) (acc : LookupTable × List LogRow) (c : ClassDeclaration) :
    LookupTable × List LogRow :=
  match stem? conventions.endpointSuffix c.name with
  | none => acc
  | some key =>
    let (table, rows) := acc
    let unit := key ++ conventions.unitSuffix
    match table.unit? unit with
    | none =>
      (table, rows ++
        [{ level := .warning, reporter := .endpoints
           text := "Skipping endpoint unit " ++
             (Failure.pairing c.name unit s!"no declarations were generated for {unit}").message }])
    | some d =>
      let (endpoint, merging) :=
        match Entries.get? key table.endpoints with
        | none =>
          ({ key, className := c.name, unit, path, handlers := [] }, [])
        | some e =>
          (e,
            [{ level := LogLevel.warning, reporter := Reporter.endpoints
               text := "Endpoint key " ++ key ++ " is declared in both " ++ e.path.toString ++ " and " ++
                 path.toString ++ "; merging handlers" : LogRow }])
      let (endpoint, skipped) :=
        (c.methods.filter Method.isAnalyzable).foldl (addHandler conventions c.name d) (endpoint, [])
      let mapped : LogRow :=
        { level := .info, reporter := .endpoints
          text := s!"Mapped {endpoint.handlers.length} handlers for {c.name}" }
      ({ table with endpoints := table.endpoints.put key endpoint }, rows ++ merging ++ skipped ++ [mapped])

/-- Adds the endpoint classes of a source to the table. -/
def scanSource (conventions : Conventions) (s : Source) (path : Path) (table : LookupTable) :
    LookupTable × List LogRow :=
  s.classes.foldl (addClass conventions path) (table, [])

/-! ### Declared units -/

/-- The expression inside parentheses and asserted types, at most `depth` of them. -/
def unwrapped? : Nat → Node → Option Node
  | 0, _ => none
  | depth + 1, n =>
    if n.kind = .asExpression || n.kind = .satisfiesExpression || n.kind = .parenthesizedExpression then
      n.firstConstruct?.bind (unwrapped? depth)
    else some n

/-- A member and its declaration, as one property of a lookup object. -/
def lookupPair? (s : Source) (n : Node) : Option (String × String) :=
  if n.kind = .pair then
    match n.child? .key, n.child? .value with
    | some key, some value =>
      if value.kind = .identifier then
        some (if key.kind = .string then s.stringValue key else s.textOf key, s.textOf value)
      else none
    | _, _ => none
  else none

/-- The members of a lookup object; none if the value is not one. -/
def lookupMembers? (s : Source) (value : Node) : Option (Entries String) :=
  match unwrapped? value.size value with
  | some object =>
    if object.kind = .object then (object.constructs.mapM (lookupPair? s)).map Entries.ofList else none
  | none => none

/-- The unit that a module declares: that of the first exported constant that is a lookup object by its name and its
    value. -/
def readDeclaredUnit? (responseSuffix : String) (s : Source) (path : Path) : Option DeclaredUnit :=
  (Entries.ofList s.constantDeclarations).findSome? fun (name, value) =>
    match stem? responseSuffix name, lookupMembers? s value with
    | some unit, some members => some { unit, lookup := name, module := path, members }
    | _, _ => none

end ResponseShapes
