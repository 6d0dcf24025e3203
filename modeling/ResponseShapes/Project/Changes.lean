import ResponseShapes.Project.Tree

/-!
# Changes between trees

What has to be done to the files of one tree to get those of another: first remove files, then write others.
-/

namespace ResponseShapes

/-- A change of one file. -/
inductive Change
  | remove (place : List String)
  | write (place : List String) (content : List UInt8)
  deriving DecidableEq, Repr

namespace Tree

/-- The places of all files. -/
def files (t : Tree) : List (List String) :=
  t.walk (fun _ => true) (fun _ => true) []

/-- The file at a place, with its bytes and its time. -/
def file? (place : List String) (t : Tree) : Option (List UInt8 × Int) :=
  match t.find? place with
  | some (.file content time) => some (content, time)
  | _ => none

/-- The changes that make the files of one tree those of another. -/
def changes (old new : Tree) : List Change :=
  (old.files.filter fun place => (new.file? place).isNone).map Change.remove ++
    new.files.filterMap fun place =>
      if new.file? place = old.file? place then none else (new.file? place).map fun f => .write place f.1

end Tree

end ResponseShapes
