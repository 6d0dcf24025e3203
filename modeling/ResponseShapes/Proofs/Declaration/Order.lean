import ResponseShapes.Proofs.Declaration.Blocks

/-! # References point backwards

A declaration refers to the classes of its properties and to the declaration of its elements, and its text names these
and no other declarations (`Written`). In the declarations of a shape each such name is declared before it is used
(`InOrder`), and where no name is declared twice the class that a property refers to is the one made for the shape of the
property's field (`Shows`). -/

namespace ResponseShapes

/-! ### References -/

/-- The declarations that a property refers to. -/
def Property.references (p : Property) : List String :=
  match p.type with
  | .plain _ => []
  | .reference declaration _ => [declaration]

namespace Declaration

/-- The declarations that a declaration refers to. -/
def references : Declaration → List String
  | record _ properties => properties.flatMap Property.references
  | value _ _ => []
  | list _ item => [item]

/-- Each declaration refers only to names that are known or that stand before it. -/
def InOrder (known : List String) : List Declaration → Prop
  | [] => True
  | d :: ds => (∀ r ∈ d.references, r ∈ known) ∧ InOrder (d.name :: known) ds

/-! ### References as they are written -/

end Declaration

/-- The text is a type that no declaration gives. -/
inductive BuiltinType : String → Prop
  | word {type : String} (h : type ∈ ["string", "number", "boolean", "object", "any"]) : BuiltinType type
  | list {type : String} (h : BuiltinType type) : BuiltinType (type ++ "[]")

/-- The text is an option that names no declaration. -/
inductive PlainOption : String → Prop
  | list : PlainOption "isArray: true"
  | kind (k : Primitive) : PlainOption ("type: '" ++ k.word ++ "'")
  | sample (v : Sample) : PlainOption ("example: " ++ v.literal)

/-- A property with its key, the declarations that it refers to, and its text. A class that it refers to stands in the
    options of the decorator and as the type, there in brackets if a list is expected. -/
inductive Property.Written (docs : Documentation) (key : String) : List String → String → Prop
  | plain {options : List String} {type : String} (hoptions : ∀ o ∈ options, PlainOption o) (htype : BuiltinType type) :
      Written docs key [] ("  " ++ docs.decorated options ++ "\n  " ++ key ++ ": " ++ type ++ ";")
  | one (c : String) : Written docs key [c]
      ("  @" ++ docs.propertyDecorator ++ "(\x7b type: " ++ c ++ " \x7d)\n  " ++ key ++ ": " ++ c ++ ";")
  | many (c : String) : Written docs key [c]
      ("  @" ++ docs.propertyDecorator ++ "(\x7b type: " ++ c ++ ", isArray: true \x7d)\n  " ++ key ++ ": " ++ c ++ "[];")

/-- Properties with the declarations that they refer to and their texts. -/
inductive Property.AllWritten (docs : Documentation) : List String → List String → Prop
  | nil : AllWritten docs [] []
  | cons {key text : String} {references more texts : List String} (head : Property.Written docs key references text)
      (tail : AllWritten docs more texts) : AllWritten docs (references ++ more) (text :: texts)

/-- A declaration with its name, the declarations that it refers to, and its text. -/
inductive Declaration.Written (docs : Documentation) (name : String) : List String → String → Prop
  | empty : Written docs name [] ("export class " ++ name ++ " \x7b\x7d")
  | record {references texts : List String} (h : Property.AllWritten docs references texts) : Written docs name references
      ("export class " ++ name ++ " \x7b\n" ++ String.intercalate "\n\n" texts ++ "\n\x7d")
  | value {comment text : String} (hcomment : comment ∈ ["", "  // Return type could not be inferred\n"])
      (h : Property.Written docs "value" [] text) :
      Written docs name [] ("export class " ++ name ++ " \x7b\n" ++ comment ++ text ++ "\n\x7d")
  | list (item : String) : Written docs name [item]
      ("// Use [" ++ item ++ "] in @" ++ docs.okDecorator ++ " for array responses\n" ++
        "export const " ++ name ++ " = " ++ item ++ ";\n" ++ "export type " ++ name ++ " = " ++ item ++ ";")

/-- An object literal whose first line is indented by `indent`, with a property on each line below. -/
def objectLiteral (indent : String) (properties : List (String × String)) : String :=
  if properties.isEmpty then "\x7b\x7d"
  else
    "\x7b\n" ++ String.intercalate "\n" (properties.map fun p => indent ++ "  " ++ propertyKey p.1 ++ ": " ++ p.2 ++ ",") ++
      "\n" ++ indent ++ "\x7d"

theorem builtinType_typeText : ∀ shape : Shape, BuiltinType shape.typeText
  | .array e => .list (builtinType_typeText e)
  | .primitive .string | .primitive .number | .primitive .boolean => .word (by decide)
  | .object _ => .word (List.mem_of_elem_eq_true rfl)
  | .unknown => .word (by decide)

theorem plainOption_of_mem {name o : String} {shape : Shape} (h : o ∈ Documentation.plainOptions name shape) :
    PlainOption o := by
  unfold Documentation.plainOptions at h
  split at h
  · simp only [List.mem_cons, List.not_mem_nil, or_false] at h
    rcases h with rfl | rfl
    · exact .sample _
    · exact .kind _
  · simp only [List.mem_cons, List.not_mem_nil, or_false] at h
    rcases h with rfl | rfl
    · exact .kind _
    · exact .list
  · obtain rfl := List.mem_singleton.mp h
    exact .list
  · cases h

theorem Property.written (docs : Documentation) (p : Property) :
    Property.Written docs (propertyKey p.name) p.references (docs.property p) := by
  obtain ⟨name, shape | ⟨c, _ | _⟩⟩ := p
  · exact .plain (fun o ho => plainOption_of_mem ho) (builtinType_typeText shape)
  · have htext : docs.property { name, type := .reference c false } = "  @" ++ docs.propertyDecorator ++
        "(\x7b type: " ++ c ++ " \x7d)\n  " ++ propertyKey name ++ ": " ++ c ++ ";" := by
      simp [Documentation.property, Documentation.decorated, ← String.toList_inj]
    rw [htext]
    exact .one c
  · have htext : docs.property { name, type := .reference c true } = "  @" ++ docs.propertyDecorator ++
        "(\x7b type: " ++ c ++ ", isArray: true \x7d)\n  " ++ propertyKey name ++ ": " ++ c ++ "[];" := by
      simp [Documentation.property, Documentation.decorated, String.intercalate_cons_cons, ← String.toList_inj]
    rw [htext]
    exact .many c

theorem Property.allWritten (docs : Documentation) (ps : List Property) :
    Property.AllWritten docs (ps.flatMap Property.references) (ps.map docs.property) := by
  induction ps with
  | nil => exact .nil
  | cons p ps ih => exact .cons (p.written docs) ih

/-- A declaration is written with the names that it refers to, and with no other ones. -/
theorem Declaration.written (docs : Documentation) (d : Declaration) :
    Declaration.Written docs d.name d.references (docs.block d) := by
  rcases d with ⟨name, _ | ⟨p, ps⟩⟩ | ⟨name, shape⟩ | ⟨name, item⟩
  · exact .empty
  · exact .record (Property.allWritten docs (p :: ps))
  · have hkey : propertyKey "value" = "value" := by decide
    have hvalue : Property.Written docs (propertyKey "value") [] (docs.property { name := "value", type := .plain shape }) :=
      Property.written docs { name := "value", type := .plain shape }
    rw [hkey] at hvalue
    refine .value ?_ hvalue
    split
    · exact List.mem_cons_of_mem _ List.mem_cons_self
    · exact List.mem_cons_self
  · exact .list item

theorem lookupText_literal {members : List Member} (lookup : String) (h : members ≠ []) :
    lookupText lookup members = "export const " ++ lookup ++ " = " ++
      objectLiteral "" (members.map fun m => (m.name, m.declaration)) ++ " as const;\n\n" ++
      "export type " ++ Naming.lookupType lookup ++ " = typeof " ++ lookup ++ ";" := by
  have hentries : (members.map fun m => "  " ++ propertyKey m.name ++ ": " ++ m.declaration ++ ",") =
      (members.map fun m => (m.name, m.declaration)).map fun p => "" ++ "  " ++ propertyKey p.1 ++ ": " ++ p.2 ++ "," := by
    simp [Function.comp_def]
  unfold lookupText objectLiteral
  rw [hentries, if_neg (by simpa using h)]
  simp only [← String.toList_inj, String.toList_append, List.append_assoc]
  rfl

namespace Declaration

namespace InOrder

variable {known more : List String} {ds es : List Declaration} {d : Declaration}

theorem mono (h : InOrder known ds) (hsub : known ⊆ more) : InOrder more ds := by
  induction ds generalizing known more with
  | nil => trivial
  | cons d ds ih => exact ⟨fun r hr => hsub (h.1 r hr), ih h.2 (List.cons_subset_cons _ hsub)⟩

theorem append_iff : InOrder known (ds ++ es) ↔ InOrder known ds ∧ InOrder ((ds.map name).reverse ++ known) es := by
  induction ds generalizing known with
  | nil => simp [InOrder]
  | cons d ds ih =>
    rw [List.cons_append, InOrder, ih, InOrder, and_assoc]
    simp only [List.map_cons, List.reverse_cons, List.append_assoc, List.singleton_append]

theorem append (hds : InOrder known ds) (hes : InOrder known es) : InOrder known (ds ++ es) :=
  append_iff.mpr ⟨hds, hes.mono (List.subset_append_right _ _)⟩

/-- A declaration may stand behind all those that it refers to. -/
theorem snoc (hds : InOrder known ds) (hd : ∀ r ∈ d.references, r ∈ ds.map name) : InOrder known (ds ++ [d]) :=
  append_iff.mpr ⟨hds, fun r hr => List.mem_append_left _ (List.mem_reverse.mpr (hd r hr)), trivial⟩

theorem flatMap {α : Type} {xs : List α} {f : α → List Declaration} (h : ∀ x ∈ xs, InOrder known (f x)) :
    InOrder known (xs.flatMap f) := by
  induction xs with
  | nil => trivial
  | cons x xs ih =>
    exact (h x List.mem_cons_self).append (ih fun y hy => h y (List.mem_cons_of_mem _ hy))

/-- What a declaration refers to stands at an earlier place. -/
theorem getElem? (h : InOrder [] ds) {i : Nat} (hd : ds[i]? = some d) {r : String} (hr : r ∈ d.references) :
    ∃ j < i, ∃ e, ds[j]? = some e ∧ e.name = r := by
  have hi : i < ds.length := (List.getElem?_eq_some_iff.mp hd).1
  have hsplit : ds = ds.take i ++ d :: ds.drop (i + 1) := by
    rw [← (List.getElem?_eq_some_iff.mp hd).2, ← List.drop_eq_getElem_cons hi, List.take_append_drop]
  rw [hsplit, append_iff] at h
  have hmem := h.2.1 r hr
  rw [List.append_nil, List.mem_reverse] at hmem
  obtain ⟨e, he, rfl⟩ := List.mem_map.mp hmem
  obtain ⟨j, hj⟩ := List.mem_iff_getElem?.mp he
  have hlt : j < i := by
    have := (List.getElem?_eq_some_iff.mp hj).1
    rw [List.length_take] at this
    omega
  rw [List.getElem?_take_of_lt hlt] at hj
  exact ⟨j, hlt, e, hj, rfl⟩

theorem exists_of_mem (h : InOrder [] ds) (hd : d ∈ ds) {r : String} (hr : r ∈ d.references) : ∃ e ∈ ds, e.name = r := by
  obtain ⟨i, hi⟩ := List.mem_iff_getElem?.mp hd
  obtain ⟨j, -, e, he, hname⟩ := h.getElem? hi hr
  exact ⟨e, List.mem_of_getElem? he, hname⟩

end InOrder

/-! ### The declarations of a shape are in order -/

mutual

theorem fieldParts_inOrder (parent field : String) : ∀ shape : Shape,
    InOrder [] (fieldParts parent field shape).1 ∧
      ∀ r ∈ (fieldParts parent field shape).2.references, r ∈ (fieldParts parent field shape).1.map name
  | .object fields => by
    obtain ⟨hinner, hrefs⟩ := fieldsParts_inOrder (Naming.child parent field) fields
    exact ⟨hinner.snoc hrefs, fun r hr => by simp_all [fieldParts, Property.references, name]⟩
  | .array (.object fields) => by
    obtain ⟨hinner, hrefs⟩ := fieldsParts_inOrder (Naming.item (Naming.child parent field)) fields
    exact ⟨hinner.snoc hrefs, fun r hr => by simp_all [fieldParts, Property.references, name]⟩
  | .array (.primitive _) => ⟨trivial, List.forall_mem_nil _⟩
  | .array (.array _) => ⟨trivial, List.forall_mem_nil _⟩
  | .array .unknown => ⟨trivial, List.forall_mem_nil _⟩
  | .primitive _ => ⟨trivial, List.forall_mem_nil _⟩
  | .unknown => ⟨trivial, List.forall_mem_nil _⟩

theorem namedFieldParts_inOrder (parent : String) : ∀ f : String × Shape,
    InOrder [] (namedFieldParts parent f).1 ∧
      ∀ r ∈ (namedFieldParts parent f).2.references, r ∈ (namedFieldParts parent f).1.map name
  | (field, shape) => fieldParts_inOrder parent field shape

theorem fieldsParts_inOrder (parent : String) : ∀ fields : List (String × Shape),
    InOrder [] (fieldsParts parent fields).1 ∧
      ∀ r ∈ (fieldsParts parent fields).2.flatMap Property.references, r ∈ (fieldsParts parent fields).1.map name
  | [] => ⟨trivial, List.forall_mem_nil _⟩
  | f :: rest => by
    obtain ⟨hhead, hrefs⟩ := namedFieldParts_inOrder parent f
    obtain ⟨htail, hrefs'⟩ := fieldsParts_inOrder parent rest
    refine ⟨hhead.append htail, fun r hr => ?_⟩
    rw [fieldsParts, List.flatMap_cons] at hr
    rw [fieldsParts, List.map_append]
    rcases List.mem_append.mp hr with hr | hr
    · exact List.mem_append_left _ (hrefs r hr)
    · exact List.mem_append_right _ (hrefs' r hr)

end

/-- The declarations of a shape are in order, and one of them has the name of the shape. -/
theorem shapeBlocks_inOrder : ∀ (n : String) (shape : Shape),
    InOrder [] (shapeBlocks n shape) ∧ n ∈ (shapeBlocks n shape).map name
  | n, .object fields => by
    obtain ⟨hinner, hrefs⟩ := fieldsParts_inOrder n fields
    refine ⟨hinner.snoc hrefs, ?_⟩
    simp [shapeBlocks, name]
  | n, .array element => by
    obtain ⟨helement, hitem⟩ := shapeBlocks_inOrder (Naming.item n) element
    refine ⟨helement.snoc fun r hr => ?_, ?_⟩
    · rw [List.mem_singleton.mp hr]
      exact hitem
    · simp [shapeBlocks, name]
  | n, .primitive p => ⟨⟨List.forall_mem_nil _, trivial⟩, List.mem_singleton_self n⟩
  | n, .unknown => ⟨⟨List.forall_mem_nil _, trivial⟩, List.mem_singleton_self n⟩

/-! ### Which class a property refers to -/

theorem name_fieldParts (parent field : String) (shape : Shape) : (fieldParts parent field shape).2.name = field := by
  unfold fieldParts
  split <;> rfl

/-- Among the declarations this one stands, and no other one of its name. -/
def Only (ds : List Declaration) (d : Declaration) : Prop :=
  d ∈ ds ∧ ∀ e ∈ ds, e.name = d.name → e = d

theorem only_of_nodup {ds : List Declaration} {d : Declaration} (h : (ds.map name).Nodup) (hd : d ∈ ds) : Only ds d :=
  ⟨hd, fun _ he hname => List.inj_on_of_nodup_map h he hd hname⟩

mutual

/-- A property shows a shape: where the shape is a record or a list of records, the property refers to the one class
    whose properties show the fields of the record, and any other shape is the type of the property. -/
def ShowsField (ds : List Declaration) (p : Property) : Shape → Prop
  | .object fields =>
    ∃ n properties, p.type = .reference n false ∧ Only ds (record n properties) ∧ ShowsFields ds properties fields
  | .array (.object fields) =>
    ∃ n properties, p.type = .reference n true ∧ Only ds (record n properties) ∧ ShowsFields ds properties fields
  | shape => p.type = .plain shape
termination_by structural shape => shape

/-- A property shows a named field. -/
def ShowsNamedField (ds : List Declaration) (p : Property) : String × Shape → Prop
  | (field, shape) => p.name = field ∧ ShowsField ds p shape
termination_by structural f => f

/-- Properties show fields, one each, in the same order. -/
def ShowsFields (ds : List Declaration) (properties : List Property) : List (String × Shape) → Prop
  | [] => properties = []
  | f :: rest => ∃ p ps, properties = p :: ps ∧ ShowsNamedField ds p f ∧ ShowsFields ds ps rest
termination_by structural fields => fields

end

/-- The one declaration of a name shows a shape: a record by a class, a list by another name for the declaration that
    shows its elements, anything else by a class around a single value. -/
def Shows (ds : List Declaration) (n : String) : Shape → Prop
  | .object fields => ∃ properties, Only ds (record n properties) ∧ ShowsFields ds properties fields
  | .array element => Only ds (list n (Naming.item n)) ∧ Shows ds (Naming.item n) element
  | shape => Only ds (value n shape)

section Shown

variable {ds : List Declaration}

mutual

theorem showsField_fieldParts (hnodup : (ds.map name).Nodup) (parent field : String) : ∀ shape : Shape,
    (fieldParts parent field shape).1 ⊆ ds → ShowsField ds (fieldParts parent field shape).2 shape
  | .object fields, hsub => by
    obtain ⟨hinner, hlast⟩ := List.append_subset.mp hsub
    exact ⟨_, _, rfl, only_of_nodup hnodup (hlast List.mem_cons_self),
      showsFields_fieldsParts hnodup (Naming.child parent field) fields hinner⟩
  | .array (.object fields), hsub => by
    obtain ⟨hinner, hlast⟩ := List.append_subset.mp hsub
    exact ⟨_, _, rfl, only_of_nodup hnodup (hlast List.mem_cons_self),
      showsFields_fieldsParts hnodup (Naming.item (Naming.child parent field)) fields hinner⟩
  | .array (.primitive _), _ => rfl
  | .array (.array _), _ => rfl
  | .array .unknown, _ => rfl
  | .primitive _, _ => rfl
  | .unknown, _ => rfl

theorem showsNamedField_namedFieldParts (hnodup : (ds.map name).Nodup) (parent : String) : ∀ f : String × Shape,
    (namedFieldParts parent f).1 ⊆ ds → ShowsNamedField ds (namedFieldParts parent f).2 f
  | (field, shape), hsub => ⟨name_fieldParts parent field shape, showsField_fieldParts hnodup parent field shape hsub⟩

theorem showsFields_fieldsParts (hnodup : (ds.map name).Nodup) (parent : String) : ∀ fields : List (String × Shape),
    (fieldsParts parent fields).1 ⊆ ds → ShowsFields ds (fieldsParts parent fields).2 fields
  | [], _ => rfl
  | f :: rest, hsub => by
    obtain ⟨hhead, htail⟩ := List.append_subset.mp hsub
    exact ⟨_, _, rfl, showsNamedField_namedFieldParts hnodup parent f hhead,
      showsFields_fieldsParts hnodup parent rest htail⟩

end

/-- Where no name is declared twice, the declarations of a shape show it. -/
theorem shows_shapeBlocks (hnodup : (ds.map name).Nodup) : ∀ (n : String) (shape : Shape),
    shapeBlocks n shape ⊆ ds → Shows ds n shape
  | n, .object fields, hsub => by
    obtain ⟨hinner, hlast⟩ := List.append_subset.mp hsub
    exact ⟨_, only_of_nodup hnodup (hlast List.mem_cons_self), showsFields_fieldsParts hnodup n fields hinner⟩
  | n, .array element, hsub => by
    obtain ⟨helement, hlast⟩ := List.append_subset.mp hsub
    exact ⟨only_of_nodup hnodup (hlast List.mem_cons_self), shows_shapeBlocks hnodup _ element helement⟩
  | _, .primitive _, hsub => only_of_nodup hnodup (hsub List.mem_cons_self)
  | _, .unknown, hsub => only_of_nodup hnodup (hsub List.mem_cons_self)

end Shown

end Declaration

/-! ### Modules -/

open Declaration

variable {members : List Member}

/-- The text of a module whose declarations are given. -/
def moduleText (docs : Documentation) (lookup : String) (members : List Member) (ds : List Declaration) : String :=
  String.intercalate "\n"
    [banner, "import \x7b " ++ docs.propertyDecorator ++ " \x7d from '" ++ docs.module ++ "';", "",
      String.intercalate "\n\n" (ds.map docs.block), "", lookupText lookup members] ++ "\n"

/-- A module holds the declarations of its members, and reports the collisions of their claims. -/
theorem DeclarationModule.of?_eq (naming : Naming) (docs : Documentation) (unit : String) (h : members ≠ []) :
    DeclarationModule.of? naming docs unit members = some
      { unit, fileName := Naming.fileName unit, lookup := naming.lookup unit
        text := moduleText docs (naming.lookup unit) members (members.flatMap Member.blocks)
        collisions := (Registry.empty.claimAll (Member.claims members)).collisions } := by
  unfold DeclarationModule.of?
  rw [if_neg (by simpa using h), membersDeclarations_run]
  rfl

/-- In the module of a unit with members every name that a declaration refers to is that of an earlier declaration,
    and so are the names in the lookup object, which stands behind all declarations. Unless the module reports a
    collision, no name is declared twice, and each member's declaration shows the member's shape: a property for a
    record, or for a list of records, refers to the class whose properties are those of that record's fields. -/
theorem DeclarationModule.refers_backwards (naming : Naming) (docs : Documentation) (unit : String)
    (h : members ≠ []) :
    ∃ (m : DeclarationModule) (ds : List Declaration), DeclarationModule.of? naming docs unit members = some m ∧
      m.text = moduleText docs (naming.lookup unit) members ds ∧
      (∀ d ∈ ds, Declaration.Written docs d.name d.references (docs.block d)) ∧
      lookupText (naming.lookup unit) members = "export const " ++ naming.lookup unit ++ " = " ++
        objectLiteral "" (members.map fun m => (m.name, m.declaration)) ++ " as const;\n\n" ++
        "export type " ++ Naming.lookupType (naming.lookup unit) ++ " = typeof " ++ naming.lookup unit ++ ";" ∧
      (∀ (i : Nat) (d : Declaration), ds[i]? = some d → ∀ r ∈ d.references,
        ∃ j < i, ∃ e : Declaration, ds[j]? = some e ∧ e.name = r) ∧
      (∀ member ∈ members, ∃ d ∈ ds, d.name = member.declaration) ∧
      (m.collisions = [] → (ds.map Declaration.name).Nodup ∧
        ∀ member ∈ members, Shows ds member.declaration member.shape) := by
  have horder : InOrder [] (members.flatMap Member.blocks) :=
    InOrder.flatMap fun member _ => (shapeBlocks_inOrder member.declaration member.shape).1
  refine ⟨_, members.flatMap Member.blocks, of?_eq naming docs unit h, rfl, fun d _ => d.written docs,
    lookupText_literal _ h, ?_, ?_, ?_⟩
  · exact fun i d hd r hr => horder.getElem? hd hr
  · intro member hmember
    obtain ⟨d, hd, hname⟩ := List.mem_map.mp (shapeBlocks_inOrder member.declaration member.shape).2
    exact ⟨d, List.mem_flatMap.mpr ⟨member, hmember, hd⟩, hname⟩
  · intro hcollisions
    obtain ⟨-, hnodup, -⟩ := Registry.nodup_of_claimAll hcollisions
    rw [Member.map_fst_claims] at hnodup
    exact ⟨hnodup, fun member hmember =>
      shows_shapeBlocks hnodup _ _ fun d hd => List.mem_flatMap.mpr ⟨member, hmember, hd⟩⟩

/-! ### A list of pages -/

namespace Pages

/-- A list of records with a record and a list of records in them. -/
def shape : Shape :=
  .array (.object [("data", .array (.object [("id", .number)])), ("meta", .object [("page", .number)])])

def listed : List Member :=
  [{ name := "findAll", shape, declaration := "PagesServiceFindAllResponse" }]

def module? : Option DeclarationModule :=
  DeclarationModule.of? { responseSuffix := "Response" } .standard "PagesService" listed

end Pages

theorem DeclarationModule.refers_backwards_pages : Pages.listed ≠ [] ∧ ∃ (m : DeclarationModule)
    (ds : List Declaration), Pages.module? = some m ∧ m.collisions = [] ∧ (ds.map Declaration.name).Nodup ∧
      Shows ds "PagesServiceFindAllResponse" Pages.shape := by
  have hmembers : Pages.listed ≠ [] := List.cons_ne_nil _ _
  obtain ⟨m, ds, hm, -, -, -, -, -, hshown⟩ := DeclarationModule.refers_backwards { responseSuffix := "Response" } .standard
    "PagesService" hmembers
  have hnone : Pages.module?.map (·.collisions) = some [] := by decide +kernel
  have hcollisions : m.collisions = [] := by
    rw [show Pages.module? = some m from hm] at hnone
    exact Option.some.inj hnone
  obtain ⟨hnodup, hshows⟩ := hshown hcollisions
  exact ⟨hmembers, m, ds, hm, hcollisions, hnodup, hshows _ List.mem_cons_self⟩

end ResponseShapes
