import ResponseShapes.Entries

/-!
# Trees of files

A directory holds files and directories by name. A place in a tree is given by the names on the way to it.
-/

namespace ResponseShapes

/-- A file with its bytes or a directory with what is in it, each with the time at which it was written or made, in
    nanoseconds. -/
inductive Tree
  | file (content : List UInt8) (time : Int)
  | directory (time : Int) (children : List (String × Tree))
  deriving Repr, Inhabited

namespace Tree

/-- The time at which a file was written or a directory made. -/
def time : Tree → Int
  | file _ t => t
  | directory t _ => t

/-- The number of bytes of a file. -/
def size : Tree → Nat
  | file content _ => content.length
  | directory _ _ => 0

/-- Whether this is a directory. -/
def isDirectory : Tree → Bool
  | directory _ _ => true
  | file _ _ => false

/-- The names in a directory. -/
def names : Tree → List String
  | directory _ children => Entries.keys children
  | file _ _ => []

/-- What stands at a place. -/
def find? : List String → Tree → Option Tree
  | [], t => some t
  | name :: names, directory _ children => (Entries.get? name children).bind (find? names)
  | _ :: _, file _ _ => none

/-- Puts something at a place or, given nothing, clears it; a place whose directory is missing stays as it is. -/
def set (new : Option Tree) : List String → Tree → Tree
  | [name], directory t children =>
    match new with
    | some n => directory t (Entries.put name n children)
    | none => directory t (Entries.erase name children)
  | name :: names, directory t children =>
    match Entries.get? name children with
    | some child => directory t (Entries.put name (set new names child) children)
    | none => directory t children
  | _, t => t

mutual

/-- The places of the files that a walk from a place reaches, when it enters the directories and takes the files that
    are admitted by their places. -/
def walk (enters takes : List String → Bool) (place : List String) : Tree → List (List String)
  | file _ _ => []
  | directory _ children => walkChildren enters takes place children

/-- The places of the files that a walk reaches through some of the names of a directory. -/
def walkChildren (enters takes : List String → Bool) (place : List String) :
    List (String × Tree) → List (List String)
  | [] => []
  | child :: rest => walkChild enters takes place child ++ walkChildren enters takes place rest

/-- The places of the files that a walk reaches through one name of a directory. -/
def walkChild (enters takes : List String → Bool) (place : List String) : String × Tree → List (List String)
  | (name, file _ _) => if takes (place ++ [name]) then [place ++ [name]] else []
  | (name, directory _ children) =>
    if enters (place ++ [name]) then walkChildren enters takes (place ++ [name]) children else []

end

end Tree

end ResponseShapes
