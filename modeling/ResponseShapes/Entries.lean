/-!
# Entries by key

A list of keys with values in which each key stands once, in the order in which keys were first put in.
-/

namespace ResponseShapes

/-- Keys with their values, in the order in which the keys were first put in. -/
abbrev Entries (α : Type) := List (String × α)

namespace Entries

variable {α β : Type}

/-- The value of a key. -/
def get? (key : String) : Entries α → Option α
  | [] => none
  | (k, v) :: es => if k = key then some v else get? key es

/-- Whether the key has a value. -/
def has (es : Entries α) (key : String) : Bool :=
  es.any (·.1 == key)

/-- Gives the key a value; a key that is there already keeps its place. -/
def put (key : String) (value : α) : Entries α → Entries α
  | [] => [(key, value)]
  | (k, v) :: es => if k = key then (key, value) :: es else (k, v) :: put key value es

/-- Gives the key a value unless it has one. -/
def putNew (key : String) (value : α) (es : Entries α) : Entries α :=
  if es.has key then es else es ++ [(key, value)]

/-- Puts in several values after each other. -/
def putAll (es : Entries α) (items : List (String × α)) : Entries α :=
  items.foldl (fun es item => es.put item.1 item.2) es

/-- The entries of a list of keys with values, in which a later value replaces an earlier one. -/
def ofList (items : List (String × α)) : Entries α :=
  putAll [] items

/-- Takes a key out. -/
def erase (key : String) (es : Entries α) : Entries α :=
  es.filter (·.1 != key)

/-- The keys in order. -/
def keys (es : Entries α) : List String :=
  es.map (·.1)

/-- The values in order. -/
def values (es : Entries α) : List α :=
  es.map (·.2)

end Entries

end ResponseShapes
