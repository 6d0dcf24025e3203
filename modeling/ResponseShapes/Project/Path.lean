import ResponseShapes.Text.Blank

/-!
# Paths

A path is a root and the names on the way from it. Empty names and single dots are left out on reading; two dots
stay until the path is resolved.
-/

namespace ResponseShapes

/-- A path: what it starts from (`""`, `"/"` or `"//"`) and its names. -/
structure Path where
  root : String
  parts : List String
  deriving DecidableEq, Repr

namespace Path

/-- Reads a path. -/
def ofString (s : String) : Path :=
  let cs := s.toList
  let slashes := (cs.takeWhile (· == '/')).length
  { root := if slashes = 0 then "" else if slashes = 2 then "//" else "/"
    parts := (Text.split '/' s).filter fun p => p != "" && p != "." }

/-- Writes a path; one without root and names is a dot. -/
def toString (p : Path) : String :=
  if p.root.isEmpty && p.parts.isEmpty then "." else p.root ++ String.intercalate "/" p.parts

/-- Whether the path starts at the top of the file system. -/
def isAbsolute (p : Path) : Bool :=
  !p.root.isEmpty

/-- The path `q` as seen from `p`; an absolute path is the same from everywhere. -/
def join (p q : Path) : Path :=
  if q.isAbsolute then q else { p with parts := p.parts ++ q.parts }

/-- The path of a name below `p`. -/
def child (p : Path) (name : String) : Path :=
  { p with parts := p.parts ++ [name] }

/-- The path without its last name. -/
def parent (p : Path) : Path :=
  { p with parts := p.parts.dropLast }

/-- The last name; empty when there is none. -/
def name (p : Path) : String :=
  p.parts.getLast?.getD ""

/-- Takes one name back for every two dots; at the top, two dots stay at the top. -/
def withoutDots (parts : List String) : List String :=
  (parts.foldl (fun back part => if part = ".." then back.tail else part :: back) []).reverse

/-- The absolute path without two dots, as seen from the directory `base`. -/
def resolve (base p : Path) : Path :=
  let whole := base.join p
  { root := "/", parts := withoutDots whole.parts }

/-- The names from the directory `start` to `target`, both given from the same place, with two dots for each step
    up. -/
def relativeParts : List String → List String → List String
  | a :: start, b :: target =>
    if a = b then relativeParts start target
    else List.replicate (start.length + 1) ".." ++ b :: target
  | start, target => List.replicate start.length ".." ++ target

/-- The path of `target` as seen from the directory `start`. -/
def relative (start target : Path) : Path :=
  { root := "", parts := relativeParts (withoutDots start.parts) (withoutDots target.parts) }

/-- The path below the directory `base`, if it lies there. -/
def below? (base p : Path) : Option Path :=
  if base.root = p.root && base.parts.isPrefixOf p.parts then
    some { root := "", parts := p.parts.drop base.parts.length }
  else none

/-- Whether the names of `p` come before those of `q` or are the same, name by name. -/
def le (p q : Path) : Bool :=
  let key (r : Path) := if r.root.isEmpty then r.parts else r.root :: r.parts
  !decide (key q < key p)

/-- The paths in order. -/
def sort (paths : List Path) : List Path :=
  paths.mergeSort le

/-- The specifier by which a module in the directory `start` imports the file `target`: a relative path without the
    ending of source files, which begins with a dot. -/
def specifier (start target : Path) : String :=
  let path := (relative start target).toString
  let stem := if Text.endsWith path ".ts" then Text.dropEnd path 3 else path
  if stem.toList.head? = some '.' then stem else "./" ++ stem

end Path

end ResponseShapes
