import ResponseShapes.Text.Blank

/-!
# Globs

A glob describes the paths of files below a directory. One star stands for characters of one name, two for
characters of any number of names.
-/

namespace ResponseShapes

/-- A part of a glob. -/
inductive GlobToken
  /-- Two stars and a slash: nothing, or whole names down to a slash. -/
  | directories
  /-- Two stars: any characters. -/
  | anything
  /-- One star: any characters of one name. -/
  | withinName
  /-- A question mark: one character of a name. -/
  | one
  | literal (c : Char)
  deriving DecidableEq, Repr

/-- Whether `p` holds of what is left after some of the characters at the start, all of which `passed` admits. -/
def afterRun (passed : Char → Bool) (p : List Char → Bool) : List Char → Bool
  | [] => p []
  | c :: cs => p (c :: cs) || (passed c && afterRun passed p cs)

namespace GlobToken

/-- Reads the parts of a glob, each as long as possible. -/
def ofChars : List Char → List GlobToken
  | '*' :: '*' :: '/' :: cs => directories :: ofChars cs
  | '*' :: '*' :: cs => anything :: ofChars cs
  | '*' :: cs => withinName :: ofChars cs
  | '?' :: cs => one :: ofChars cs
  | c :: cs => literal c :: ofChars cs
  | [] => []

/-- Whether `p` holds of what follows some slash; no line feed may stand before it. -/
def afterSlash (p : List Char → Bool) : List Char → Bool
  | [] => false
  | c :: cs => (c = '/' && p cs) || (c ≠ '\n' && afterSlash p cs)

/-- Whether the parts describe a path. A line feed at the very end is not part of it. -/
def describes : List GlobToken → List Char → Bool
  | [], cs => cs.isEmpty || cs = ['\n']
  | directories :: ts, cs => describes ts cs || afterSlash (describes ts) cs
  | anything :: ts, cs => afterRun (· ≠ '\n') (describes ts) cs
  | withinName :: ts, cs => afterRun (· ≠ '/') (describes ts) cs
  | one :: ts, c :: cs => c ≠ '/' && describes ts cs
  | one :: _, [] => false
  | literal d :: ts, c :: cs => c = d && describes ts cs
  | literal _ :: _, [] => false

end GlobToken

/-- A glob by its parts. -/
structure Glob where
  tokens : List GlobToken
  deriving DecidableEq, Repr

namespace Glob

/-- Reads a glob; blanks around it and one dot with a slash at its start do not count. -/
def ofString (pattern : String) : Glob :=
  match Text.trimChars pattern.toList with
  | '.' :: '/' :: cs => { tokens := GlobToken.ofChars cs }
  | cs => { tokens := GlobToken.ofChars cs }

/-- Whether the glob describes a path, given from the directory of the glob. -/
def describes (g : Glob) (path : String) : Bool :=
  GlobToken.describes g.tokens path.toList

end Glob

end ResponseShapes
