import ResponseShapes.Proofs.Declaration.Written
import ResponseShapes.Proofs.Shape.Fields
import ResponseShapes.Proofs.Syntax.Identifiers
import ResponseShapes.Proofs.Syntax.Spelled

/-! # Which declared names are identifiers

The name of a declaration is made of the names of the unit and of the member, of the fields on the way to a record,
each with a capital at its front, and of suffixes. So it is an identifier exactly if each of the fields goes on with a
word (`isName_shapeBlocks`). Names that are no words come from quoted keys of object literals alone: as keys they are
quoted again, but as parts of names they stay as they are. Where all names are identifiers the module can be read
(`UnitAnalysis.names_exact`). -/

namespace ResponseShapes

open Syntax Declaration

/-! ### Words with a capital -/

/-- A word that is not written in small letters of ASCII alone. No such word means anything but a name. -/
structure IsCapitalWord (w : List Char) : Prop where
  word : IsWord w
  capital : ∃ c ∈ w, c.isLower = false

namespace IsCapitalWord

variable {w f : List Char} {parent : String}

theorem isName (h : IsCapitalWord w) : IsName w := by
  obtain ⟨c, hc, hlower⟩ := h.capital
  exact isName_of_not_isLower h.word hc hlower

theorem append (h : IsCapitalWord w) (hf : GoesOn f) : IsCapitalWord (w ++ f) := by
  obtain ⟨c, hc, hlower⟩ := h.capital
  exact ⟨h.word.append_iff.mpr hf, c, List.mem_append_left _ hc, hlower⟩

theorem isName_append_iff (h : IsCapitalWord w) : IsName (w ++ f) ↔ GoesOn f :=
  ⟨fun hname => h.word.append_iff.mp hname.word, fun hf => (h.append hf).isName⟩

theorem child (h : IsCapitalWord parent.toList) {field : String} (hfield : GoesOn (Text.capitalize field).toList) :
    IsCapitalWord (Naming.child parent field).toList := by
  rw [Naming.child, String.toList_append]
  exact h.append hfield

theorem isName_child_iff (h : IsCapitalWord parent.toList) (field : String) :
    IsName (Naming.child parent field).toList ↔ GoesOn (Text.capitalize field).toList := by
  rw [Naming.child, String.toList_append]
  exact h.isName_append_iff

theorem item (h : IsCapitalWord parent.toList) : IsCapitalWord (Naming.item parent).toList := by
  rw [Naming.item, String.toList_append]
  exact h.append (.of_all (by decide))

theorem isName_item_child_iff (h : IsCapitalWord parent.toList) (field : String) :
    IsName (Naming.item (Naming.child parent field)).toList ↔ GoesOn (Text.capitalize field).toList := by
  rw [Naming.item, Naming.child, String.toList_append, String.toList_append, List.append_assoc, h.isName_append_iff]
  exact ⟨GoesOn.of_append (by decide) (by decide), fun hfield => hfield.append_iff.mpr (.of_all (by decide))⟩

end IsCapitalWord

theorem isCapitalWord_declaration {naming : Naming} {unit member : String} (hunit : IsWord unit.toList)
    (hmember : IsWord member.toList) (hsuffix : GoesOn naming.responseSuffix.toList) :
    IsCapitalWord (naming.declaration unit member).toList := by
  have hcapital : IsCapitalWord (unit ++ Text.capitalize member).toList := by
    obtain ⟨c, hc, hlower⟩ := hmember.exists_not_isLower
    rw [String.toList_append]
    exact ⟨hunit.append_iff.mpr hmember.goesOn.capitalize, c, List.mem_append_right _ hc, hlower⟩
  rw [Naming.declaration, String.toList_append]
  exact hcapital.append hsuffix

/-! ### Fields with classes -/

namespace Shape

mutual

/-- The names of a field of the given shape and of the fields in it, as far as their records are classes. -/
def classFieldsOf (field : String) : Shape → List String
  | .object fields => classFieldsOfAll fields ++ [field]
  | .array (.object fields) => classFieldsOfAll fields ++ [field]
  | _ => []
termination_by structural shape => shape

/-- The names of a named field and of the fields in it, as far as their records are classes. -/
def classFieldsOfNamed : String × Shape → List String
  | (field, shape) => classFieldsOf field shape
termination_by structural f => f

/-- The names of fields and of the fields in them, as far as their records are classes. -/
def classFieldsOfAll : List (String × Shape) → List String
  | [] => []
  | f :: rest => classFieldsOfNamed f ++ classFieldsOfAll rest
termination_by structural fields => fields

end

/-- The names of the fields, at any depth, whose records are classes of their own. -/
def classFields : Shape → List String
  | .object fields => classFieldsOfAll fields
  | .array element => element.classFields
  | _ => []

mutual

theorem classFieldsOf_subset (field : String) : ∀ shape : Shape, classFieldsOf field shape ⊆ field :: shape.fieldNames
  | .object fields | .array (.object fields) => List.append_subset.mpr
      ⟨List.Subset.trans (classFieldsOfAll_subset fields) (List.subset_cons_self _ _),
        List.cons_subset_cons _ (List.nil_subset _)⟩
  | .array (.primitive _) | .array (.array _) | .array .unknown | .primitive _ | .unknown => List.nil_subset _

theorem classFieldsOfNamed_subset : ∀ f : String × Shape, classFieldsOfNamed f ⊆ fieldNamesOf f
  | (field, shape) => classFieldsOf_subset field shape

theorem classFieldsOfAll_subset : ∀ fields : List (String × Shape), classFieldsOfAll fields ⊆ fieldNamesAll fields
  | [] => List.nil_subset _
  | f :: rest => List.append_subset.mpr
      ⟨List.Subset.trans (classFieldsOfNamed_subset f) (List.subset_append_left _ _),
        List.Subset.trans (classFieldsOfAll_subset rest) (List.subset_append_right _ _)⟩

end

theorem classFields_subset : ∀ shape : Shape, shape.classFields ⊆ shape.fieldNames
  | .object fields => classFieldsOfAll_subset fields
  | .array element => classFields_subset element
  | .primitive _ | .unknown => List.nil_subset _

end Shape

/-! ### Names of declarations -/

section Names

variable {child field : String} {inner : List Declaration} {properties : List Property} {classes : List String}

/-- The fields go on with a word when they have capitals at their fronts. -/
def GoOn (fields : List String) : Prop :=
  ∀ f ∈ fields, GoesOn (Text.capitalize f).toList

theorem goOn_append {more : List String} : GoOn (classes ++ more) ↔ GoOn classes ∧ GoOn more :=
  List.forall_mem_append

/-- The names of what a record needs and of the record itself are identifiers. -/
theorem isName_close (hchild : IsName child.toList ↔ GoesOn (Text.capitalize field).toList)
    (hinner : GoesOn (Text.capitalize field).toList → ((∀ d ∈ inner, IsName d.name.toList) ↔ GoOn classes)) :
    (∀ d ∈ inner ++ [record child properties], IsName d.name.toList) ↔ GoOn (classes ++ [field]) := by
  rw [List.forall_mem_append, List.forall_mem_singleton, goOn_append, GoOn, GoOn, List.forall_mem_singleton]
  -- What is made from the name of the record counts only where that name is one.
  exact (and_congr_right' hchild).trans (and_congr_left hinner)

mutual

theorem isName_fieldParts {parent : String} (h : IsCapitalWord parent.toList) (field : String) : ∀ shape : Shape,
    (∀ d ∈ (fieldParts parent field shape).1, IsName d.name.toList) ↔ GoOn (Shape.classFieldsOf field shape)
  | .object fields => isName_close (h.isName_child_iff field) fun hfield => isName_fieldsParts (h.child hfield) fields
  | .array (.object fields) =>
    isName_close (h.isName_item_child_iff field) fun hfield => isName_fieldsParts (h.child hfield).item fields
  | .array (.primitive _) | .array (.array _) | .array .unknown | .primitive _ | .unknown =>
    iff_of_true (List.forall_mem_nil _) (List.forall_mem_nil _)

theorem isName_namedFieldParts {parent : String} (h : IsCapitalWord parent.toList) : ∀ f : String × Shape,
    (∀ d ∈ (namedFieldParts parent f).1, IsName d.name.toList) ↔ GoOn (Shape.classFieldsOfNamed f)
  | (field, shape) => isName_fieldParts h field shape

theorem isName_fieldsParts {parent : String} (h : IsCapitalWord parent.toList) : ∀ fields : List (String × Shape),
    (∀ d ∈ (fieldsParts parent fields).1, IsName d.name.toList) ↔ GoOn (Shape.classFieldsOfAll fields)
  | [] => iff_of_true (List.forall_mem_nil _) (List.forall_mem_nil _)
  | f :: rest => by
    rw [fieldsParts, Shape.classFieldsOfAll, goOn_append, List.forall_mem_append, isName_namedFieldParts h f,
      isName_fieldsParts h rest]

end

/-- The declarations of a shape have identifiers for names exactly if the fields whose records are classes go on with
    a word. -/
theorem isName_shapeBlocks : ∀ {name : String} (_ : IsCapitalWord name.toList) (shape : Shape),
    (∀ d ∈ shapeBlocks name shape, IsName d.name.toList) ↔ GoOn shape.classFields
  | name, h, .object fields => by
    rw [shapeBlocks, List.forall_mem_append, isName_fieldsParts h, List.forall_mem_singleton]
    exact and_iff_left h.isName
  | name, h, .array element => by
    rw [shapeBlocks, List.forall_mem_append, isName_shapeBlocks h.item, List.forall_mem_singleton]
    exact and_iff_left h.isName
  | name, h, .primitive _ => iff_of_true (List.forall_mem_singleton.mpr h.isName) (List.forall_mem_nil _)
  | name, h, .unknown => iff_of_true (List.forall_mem_singleton.mpr h.isName) (List.forall_mem_nil _)

end Names

/-! ### Keys of declarations -/

section Keys

variable {p : String → Prop}

mutual

theorem forall_key_fieldParts (parent field : String) : ∀ shape : Shape, (∀ x ∈ shape.fieldNames, p x) →
    ∀ d ∈ (fieldParts parent field shape).1, ∀ property ∈ d.properties, p property.name
  | .object fields, h => by
    obtain ⟨hown, hinner⟩ := forall_key_fieldsParts (Naming.child parent field) fields h
    exact List.forall_mem_append.mpr ⟨hinner, List.forall_mem_singleton.mpr hown⟩
  | .array (.object fields), h => by
    obtain ⟨hown, hinner⟩ := forall_key_fieldsParts (Naming.item (Naming.child parent field)) fields h
    exact List.forall_mem_append.mpr ⟨hinner, List.forall_mem_singleton.mpr hown⟩
  | .array (.primitive _), _ | .array (.array _), _ | .array .unknown, _ | .primitive _, _ | .unknown, _ =>
    List.forall_mem_nil _

theorem forall_key_namedFieldParts (parent : String) : ∀ f : String × Shape, (∀ x ∈ Shape.fieldNamesOf f, p x) →
    p (namedFieldParts parent f).2.name ∧ ∀ d ∈ (namedFieldParts parent f).1, ∀ property ∈ d.properties, p property.name
  | (field, shape), h => by
    obtain ⟨hfield, hshape⟩ := List.forall_mem_cons.mp h
    refine ⟨?_, forall_key_fieldParts parent field shape hshape⟩
    rw [namedFieldParts, name_fieldParts]
    exact hfield

/-- The keys of declarations are names of fields. -/
theorem forall_key_fieldsParts (parent : String) : ∀ fields : List (String × Shape),
    (∀ x ∈ Shape.fieldNamesAll fields, p x) → (∀ property ∈ (fieldsParts parent fields).2, p property.name) ∧
      ∀ d ∈ (fieldsParts parent fields).1, ∀ property ∈ d.properties, p property.name
  | [], _ => ⟨List.forall_mem_nil _, List.forall_mem_nil _⟩
  | f :: rest, h => by
    obtain ⟨hhead, htail⟩ := List.forall_mem_append.mp h
    obtain ⟨hkey, hblocks⟩ := forall_key_namedFieldParts parent f hhead
    obtain ⟨hkeys, hmore⟩ := forall_key_fieldsParts parent rest htail
    exact ⟨List.forall_mem_cons.mpr ⟨hkey, hkeys⟩, List.forall_mem_append.mpr ⟨hblocks, hmore⟩⟩

end

theorem forall_key_shapeBlocks (hvalue : p "value") : ∀ (name : String) (shape : Shape), (∀ x ∈ shape.fieldNames, p x) →
    ∀ d ∈ shapeBlocks name shape, ∀ property ∈ d.properties, p property.name
  | name, .object fields, h => by
    obtain ⟨hown, hinner⟩ := forall_key_fieldsParts name fields h
    exact List.forall_mem_append.mpr ⟨hinner, List.forall_mem_singleton.mpr hown⟩
  | name, .array element, h => List.forall_mem_append.mpr
      ⟨forall_key_shapeBlocks hvalue (Naming.item name) element h, List.forall_mem_singleton.mpr (List.forall_mem_nil _)⟩
  | _, .primitive _, _ | _, .unknown, _ => List.forall_mem_singleton.mpr (List.forall_mem_singleton.mpr hvalue)

end Keys

theorem notMem_of_isPlainKey {name : String} (h : isPlainKey name = true) : '\\' ∉ name.toList := by
  unfold isPlainKey at h
  split at h
  · cases h
  · rename_i c cs hname
    obtain ⟨hc, hcs⟩ := Bool.and_eq_true_iff.mp h
    rw [hname, List.mem_cons, not_or]
    refine ⟨?_, fun hmem => ?_⟩
    · rintro rfl
      exact absurd hc (by decide)
    · have hline : '\\' ∈ if cs.getLast? = some '\n' then cs.dropLast else cs := by
        split
        · rename_i hlast
          obtain ⟨ds, rfl⟩ := List.getLast?_eq_some_iff.mp hlast
          rw [List.dropLast_concat]
          exact (List.mem_append.mp hmem).resolve_right (by decide)
        · exact hmem
      exact absurd (List.all_eq_true.mp hcs _ hline) (by decide)

/-- A quoted key ends with a line feed only behind a backslash, and then it is quoted again. -/
theorem IsSourceField.staysInLine {s : Source} {name : String} (hs : s.Sound) (h : IsSourceField s name) : StaysInLine name := by
  intro hplain hlast
  have hline := List.mem_of_getLast? hlast
  rcases h with hword | ⟨pair, key, hpair, -, hkey, hkind, rfl⟩
  · exact absurd (hword.forall_mem _ hline) (by decide)
  · have hbelow := hpair.trans (.of_mem (Node.mem_of_child? hkey).1)
    exact notMem_of_isPlainKey hplain (hs.backslash_mem_stringValue hbelow hkind hline)

/-! ### Modules -/

/-- The names that the module of members declares or refers to: those of the lookup object and its type, and those of
    the declarations. -/
def writtenNames (lookup : String) (members : List Member) : List String :=
  lookup :: Naming.lookupType lookup :: (members.map (·.declaration) ++
    (members.flatMap Member.blocks).flatMap fun d => d.name :: d.references)

section Modules

variable {naming : Naming} {docs : Documentation} {lookup unit : String} {members : List Member} {m : DeclarationModule}

theorem isName_lookupType (h : IsName lookup.toList) : IsName (Naming.lookupType lookup).toList := by
  have hcapital : 'T' ∈ (Naming.lookupType lookup).toList := by
    rw [Naming.lookupType, String.toList_append]
    exact List.mem_append_right _ (by decide)
  exact isName_of_not_isLower (isWord_lookupType h.word) hcapital (by decide)

/-- Whatever a module refers to it declares. -/
theorem isName_writtenNames_iff : (∀ name ∈ writtenNames lookup members, IsName name.toList) ↔
    IsName lookup.toList ∧ ∀ member ∈ members, ∀ d ∈ member.blocks, IsName d.name.toList := by
  rw [writtenNames, List.forall_mem_cons, List.forall_mem_cons, List.forall_mem_append, List.forall_mem_map,
    List.forall_mem_flatMap, List.forall_mem_flatMap]
  refine and_congr_right fun hlookup => ⟨fun h member hmember d hd => ?_, fun h => ⟨isName_lookupType hlookup, ?_, ?_⟩⟩
  · exact h.2.2 member hmember d hd d.name List.mem_cons_self
  · intro member hmember
    obtain ⟨d, hd, hname⟩ := List.mem_map.mp (shapeBlocks_inOrder member.declaration member.shape).2
    exact hname ▸ h member hmember d hd
  · intro member hmember d hd
    refine List.forall_mem_cons.mpr ⟨h member hmember d hd, fun r hr => ?_⟩
    obtain ⟨e, he, rfl⟩ := (shapeBlocks_inOrder member.declaration member.shape).1.exists_of_mem hd hr
    exact h member hmember e he

/-- A module whose names are identifiers can be read. -/
theorem isSome_parse?_module {s : Source} (hs : s.Sound) (hm : DeclarationModule.of? naming docs unit members = some m)
    (hdocs : docs.Legible) (hmembers : ∀ member ∈ members, IsWord member.name.toList)
    (hfields : ∀ member ∈ members, ∀ x ∈ member.shape.fieldNames, IsSourceField s x)
    (hnames : ∀ name ∈ writtenNames (naming.lookup unit) members, IsName name.toList) :
    (parse? m.text.toList).isSome = true := by
  obtain ⟨hlookup, hblocks⟩ := isName_writtenNames_iff.mp hnames
  have hlegible : ∀ d ∈ members.flatMap Member.blocks, d.Legible := by
    refine List.forall_mem_flatMap.mpr fun member hmember d hd => ⟨hblocks member hmember d hd, fun r hr => ?_, ?_⟩
    · obtain ⟨e, he, rfl⟩ := (shapeBlocks_inOrder member.declaration member.shape).1.exists_of_mem hd hr
      exact hblocks member hmember e he
    · exact forall_key_shapeBlocks (fun _ => by decide) member.declaration member.shape
        (fun x hx => (hfields member hmember x hx).staysInLine hs) d hd
  have hentries : ∀ member ∈ members, member.entry.Proper := fun member hmember => by
    obtain ⟨d, hd, hname⟩ := List.mem_map.mp (shapeBlocks_inOrder member.declaration member.shape).2
    have hword : IsSourceField s member.name := .inl (hmembers member hmember)
    refine ⟨isKey_propertyKey (hword.staysInLine hs), .name ?_⟩
    rw [Member.entry, ← hname]
    exact hblocks member hmember d hd
  obtain ⟨cs, hpieces, hline, hrepeats⟩ := exists_repeats hm hdocs hlookup hlegible hentries
  have hread := hrepeats (Source.ofText m.text)
  rw [Source.text_ofText] at hread
  obtain ⟨root, hroot, -⟩ := parse?_of_repeats hpieces hline (by decide) fun n => hread (n + 23)
  rw [hroot]
  rfl

end Modules

/-- For a unit whose class and members are named by words, the names that its module declares or refers to are
    identifiers exactly if the lookup object's is and the fields whose records are classes go on with a word. Members
    are always named by words, and a field that does not go on with a word is a quoted key of an object literal in the
    source. And where all names are identifiers, the module can be read. -/
theorem UnitAnalysis.names_exact [Recovery] {conventions : Conventions} {docs : Documentation} {text : String}
    {p : Path} {a : UnitAnalysis} {rows : List LogRow} {m : DeclarationModule}
    (ha : UnitAnalysis.ofSource? conventions (Source.ofText text) p = some (a, rows)) (hunit : IsWord a.unit.toList)
    (hm : DeclarationModule.of? { responseSuffix := conventions.responseSuffix } docs a.unit a.members = some m) :
    m.text = moduleText docs m.lookup a.members (a.members.flatMap Member.blocks) ∧
      ((∀ member ∈ a.members, IsWord member.name.toList) → ((∀ name ∈ writtenNames m.lookup a.members, IsName name.toList) ↔
        IsName m.lookup.toList ∧ ∀ member ∈ a.members, GoOn member.shape.classFields)) ∧
      (Source.RecoveredSound text → (∀ member ∈ a.members, IsWord member.name.toList) ∧
        (∀ member ∈ a.members, ∀ f ∈ member.shape.classFields, ¬ GoesOn (Text.capitalize f).toList →
          (Source.ofText text).Quotes f) ∧
        (docs.Legible → (∀ name ∈ writtenNames m.lookup a.members, IsName name.toList) →
          (parse? m.text.toList).isSome = true)) := by
  obtain ⟨-, -, -, hlookup, htext⟩ := exists_module hm
  rw [hlookup]
  refine ⟨htext, fun hwords => ?_, fun hrecovered => ?_⟩
  · refine isName_writtenNames_iff.trans (and_congr_right fun hname => forall₂_congr fun member hmember => ?_)
    rw [Naming.lookup, String.toList_append] at hname
    -- The suffix of the lookup object is the one of every declaration.
    have hsuffix : GoesOn conventions.responseSuffix.toList := hunit.append_iff.mp hname.word
    obtain ⟨-, method, -, -, -, rfl⟩ := UnitAnalysis.exists_of_mem_members ha hmember
    exact isName_shapeBlocks (isCapitalWord_declaration hunit (hwords _ hmember) hsuffix) _
  · have hs := Source.sound_ofText hrecovered
    have hnamed : ∀ member ∈ a.members, IsWord member.name.toList ∧
        ∀ x ∈ member.shape.fieldNames, IsSourceField (Source.ofText text) x :=
      fun _ hmember => UnitAnalysis.named_of_mem_members hs ha hmember
    refine ⟨fun member hmember => (hnamed member hmember).1, fun member hmember f hf hgoes => ?_, fun hdocs hnames => ?_⟩
    · have hfield := (hnamed member hmember).2 f (Shape.classFields_subset member.shape hf)
      exact hfield.resolve_left fun hword => hgoes hword.goesOn.capitalize
    · exact isSome_parse?_module hs hm hdocs (fun member hmember => (hnamed member hmember).1)
        (fun member hmember => (hnamed member hmember).2) hnames

/-! ### A quoted key -/

namespace Hyphen

/-- A service whose method returns a record under a quoted key. -/
def text : String :=
  "export class UsersService \x7b find() \x7b return \x7b 'a-b': \x7b id: 1 \x7d \x7d; \x7d \x7d\n"

def analysis? (s : Source) : Option (UnitAnalysis × List LogRow) :=
  UnitAnalysis.ofSource? .standard s (Path.ofString "/project/src/users.service.ts")

def module? (a : UnitAnalysis) : Option DeclarationModule :=
  DeclarationModule.of? { responseSuffix := Conventions.standard.responseSuffix } .standard a.unit a.members

/-- The characters of the module for members. -/
def written (first : Member) (others : List Member) : List Char :=
  (frontText .standard ((first :: others).flatMap Member.blocks) ++ backText "UsersServiceResponse" first others) ++ "\n".toList

/-- The record under the quoted key is a class of the service, and the module of the service cannot be read. -/
def Breaks (s : Source) : Prop :=
  ((analysis? s).any fun (a, _) => a.unit = "UsersService" &&
    a.members.flatMap (fun member => member.shape.classFields) = ["a-b"] &&
      a.members.head?.any fun first => (parse? (written first a.members.tail)).isNone) = true

instance (s : Source) : Decidable (Breaks s) :=
  instDecidableEqBool _ _

set_option maxRecDepth 8000 in
theorem exists_breaks : ∃ s, Source.ofText? text = some s ∧ Breaks s :=
  Source.exists_of_spelled .piece _ (by decide +kernel)

theorem breaks : Breaks (Source.ofText text) := by
  obtain ⟨s, hs, hbreaks⟩ := exists_breaks
  rwa [Source.ofText, hs]

end Hyphen

theorem UnitAnalysis.names_exact_hyphen : ∃ (a : UnitAnalysis) (rows : List LogRow) (m : DeclarationModule),
    Hyphen.analysis? (Source.ofText Hyphen.text) = some (a, rows) ∧ IsWord a.unit.toList ∧ Hyphen.module? a = some m ∧
      (Source.ofText Hyphen.text).Quotes "a-b" ∧ ¬(∀ name ∈ writtenNames m.lookup a.members, IsName name.toList) ∧
      parse? m.text.toList = none := by
  obtain ⟨⟨a, rows⟩, ha, hbreaks⟩ := (Option.any_eq_true _ _).mp Hyphen.breaks
  rw [Bool.and_eq_true, Bool.and_eq_true, decide_eq_true_eq, decide_eq_true_eq] at hbreaks
  obtain ⟨⟨hunit, hfields⟩, hparse⟩ := hbreaks
  obtain ⟨first, hfirst, hparse⟩ := (Option.any_eq_true _ _).mp hparse
  obtain ⟨others, hmembers⟩ := List.head?_eq_some_iff.mp hfirst
  obtain ⟨m, hm⟩ : ∃ m, Hyphen.module? a = some m := by
    rw [Hyphen.module?, hmembers]
    exact ⟨_, DeclarationModule.of?_eq _ _ _ (List.cons_ne_nil _ _)⟩
  have hunread : parse? m.text.toList = none := by
    obtain ⟨first', others', heq, htext⟩ := toList_text hm
    obtain ⟨rfl, rfl⟩ := List.cons.inj (hmembers.symm.trans heq)
    rw [htext, hmembers, hunit]
    rw [hmembers] at hparse
    exact Option.isNone_iff_eq_none.mp hparse
  have hword : IsWord a.unit.toList := hunit ▸ isWord_of_all (by decide) (by decide)
  obtain ⟨s, hs, -⟩ := Hyphen.exists_breaks
  obtain ⟨-, hnames, hsound⟩ := UnitAnalysis.names_exact ha hword hm
  obtain ⟨hwords, hquotes, -⟩ := hsound (Source.recoveredSound_of_ofText? hs)
  obtain ⟨member, hmember, hfield⟩ : ∃ member ∈ a.members, "a-b" ∈ member.shape.classFields :=
    List.mem_flatMap.mp (hfields ▸ List.mem_singleton_self _)
  have hgoes : ¬GoesOn (Text.capitalize "a-b").toList := by
    rw [goesOn_iff]
    decide
  exact ⟨a, rows, m, ha, hword, hm, hquotes member hmember "a-b" hfield hgoes,
    fun hall => hgoes (((hnames hwords).mp hall).2 member hmember "a-b" hfield), hunread⟩

end ResponseShapes
