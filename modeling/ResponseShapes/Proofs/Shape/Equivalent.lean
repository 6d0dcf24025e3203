import ResponseShapes.Declaration.Analysis
import ResponseShapes.Proofs.Shape.Fields
import ResponseShapes.Proofs.Syntax.Alike
import ResponseShapes.Proofs.Syntax.Spelled

/-! # Types that are written differently

A list may be written `Array<T>`, `ReadonlyArray<T>` or `T[]`, what a promise yields counts as the promise, and
parentheses and `readonly` tell nothing. Two trees are the same type (`SameType`) if one becomes the other by writing
any number of the types in it, at any depth, in the other way. Their shapes are equal (`SameType.typeShape_eq`): what
the shape of a node depends on is kept in every place where a type can stand. -/

namespace ResponseShapes

open Syntax

variable {s s' : Source} {n n' : Node}

/-! ### Values of children -/

namespace Syntax.Node

section Fold
variable {α : Type} {step : Node → List (Node × α) → α}

theorem foldAll_eq_map (ns : List Node) : foldAll step ns = ns.map fun n => (n, n.fold step) := by
  induction ns with
  | nil => rfl
  | cons n ns ih => rw [foldAll, ih, List.map_cons]

theorem fold_eq (n : Node) : n.fold step = step n (n.children.map fun c => (c, c.fold step)) := by
  cases n
  rw [fold, foldAll_eq_map]
  rfl

end Fold

section Valued
variable {α : Type} (value : Node → α) (n : Node)

theorem valuedFirst?_map : valuedFirst? (n.children.map fun c => (c, value c)) =
    n.firstConstruct?.map fun c => (c, value c) :=
  List.find?_map

theorem valuedChild?_map (r : Role) : valuedChild? r (n.children.map fun c => (c, value c)) =
    (n.child? r).map fun c => (c, value c) :=
  List.find?_map

end Valued

/-- The constructs between the brackets behind a generic type. -/
def typeArguments (n : Node) : List Node :=
  ((n.child? .typeArguments).map constructs).getD []

theorem head?_constructs (n : Node) : n.constructs.head? = n.firstConstruct? :=
  List.head?_filter

end Syntax.Node

/-! ### The shape of a node -/

/-- The shape of a generic type with arguments of the shapes. -/
def Shape.ofGeneric (name : String) : List Shape → Shape
  | [argument] =>
    if name = "Array" ∨ name = "ReadonlyArray" then .array argument
    else if name = "Promise" then argument
    else ofTypeName name
  | _ => ofTypeName name

theorem Shape.ofType_generic (name : String) (arguments : List TypeForm) :
    ofType (.generic name arguments) = ofGeneric name (arguments.map ofType) := by
  rcases arguments with _ | ⟨argument, _ | ⟨second, rest⟩⟩ <;> rfl

namespace Syntax.Source

/-- The shape of the type that a node stands for. -/
def typeShape (s : Source) (n : Node) : Shape :=
  Shape.ofType (TypeForm.ofNode s n)

/-- The name of the property that a node declares, with the shape of its type. -/
def typeProperty? (s : Source) (n : Node) : Option (String × Shape) :=
  (typeParts s n).property.map fun p => (p.1, Shape.ofTypeOr p.2)

theorem typeParts_eq (s : Source) (n : Node) : typeParts s n =
    { form := typeForm s n (n.children.map fun c => (c, typeParts s c))
      inner := n.constructs.map (TypeForm.ofNode s)
      property := propertyOf s n (n.children.map fun c => (c, typeParts s c)) } := by
  have hinner : ((n.children.map fun c => (c, typeParts s c)).filter (·.1.isConstruct)).map (·.2.form) =
      n.constructs.map (TypeForm.ofNode s) := by
    rw [List.filter_map, List.map_map]
    rfl
  rw [← hinner]
  exact Node.fold_eq n

theorem ofNode_eq (s : Source) (n : Node) :
    TypeForm.ofNode s n = typeForm s n (n.children.map fun c => (c, typeParts s c)) := by
  rw [TypeForm.ofNode, typeParts_eq]

theorem ofTypeOr_map (n? : Option Node) :
    Shape.ofTypeOr (n?.map (TypeForm.ofNode s)) = (n?.map s.typeShape).getD .unknown := by
  cases n? <;> rfl

theorem typeShape_wrapped (h : n.kind = .parenthesizedType ∨ n.kind = .readonlyType) :
    s.typeShape n = (n.firstConstruct?.map s.typeShape).getD .unknown := by
  rw [← ofTypeOr_map, typeShape, ofNode_eq, typeForm]
  rcases h with h | h <;> rw [h] <;> dsimp only <;> rw [Node.valuedFirst?_map, Option.map_map] <;> rfl

theorem typeShape_array (h : n.kind = .arrayType) :
    s.typeShape n = .array ((n.firstConstruct?.map s.typeShape).getD .unknown) := by
  rw [← ofTypeOr_map, typeShape, ofNode_eq, typeForm, h]
  dsimp only
  rw [Node.valuedFirst?_map, Option.map_map]
  rfl

theorem typeShape_object (h : n.kind = .objectType) :
    s.typeShape n = Shape.ofItems (n.children.filterMap s.typeProperty?) := by
  rw [typeShape, ofNode_eq, typeForm, h]
  dsimp only
  rw [Shape.ofType, ofTypeItems_eq, List.filterMap_map, List.map_filterMap]
  rfl

/-- The shape of a generic type depends on its name and on the shapes of its arguments. -/
theorem typeShape_generic (h : n.kind = .genericType) :
    s.typeShape n = Shape.ofGeneric (s.partText n .name) (n.typeArguments.map s.typeShape) := by
  have hinner : (fun c : Node × TypeParts => c.2.inner) ∘ (fun c => (c, typeParts s c)) =
      fun c => c.constructs.map (TypeForm.ofNode s) :=
    funext fun c => congrArg TypeParts.inner (typeParts_eq s c)
  have harguments : (((n.child? .typeArguments).map fun c => c.constructs.map (TypeForm.ofNode s)).getD []) =
      n.typeArguments.map (TypeForm.ofNode s) := by
    unfold Node.typeArguments
    cases n.child? .typeArguments <;> rfl
  rw [typeShape, ofNode_eq, typeForm, h]
  dsimp only
  rw [Node.valuedChild?_map, Option.map_map, hinner, harguments, Shape.ofType_generic, List.map_map]
  rfl

theorem typeShape_identifier (h : n.kind = .typeIdentifier) : s.typeShape n = Shape.ofTypeName (s.textOf n) := by
  rw [typeShape, ofNode_eq, typeForm, h]
  rfl

theorem typeShape_predefined (h : n.kind = .predefinedType) :
    s.typeShape n = ((Primitive.ofWord? (Text.trim (s.textOf n))).map Shape.primitive).getD .unknown := by
  rw [typeShape, ofNode_eq, typeForm, h]
  rfl

theorem typeShape_other (h : n.kind ∉ [.parenthesizedType, .readonlyType, .arrayType, .objectType, .genericType,
    .typeIdentifier, .predefinedType]) : s.typeShape n = .unknown := by
  rw [typeShape, ofNode_eq]
  unfold typeForm
  split <;> simp_all [Shape.ofType]

theorem typeProperty?_of_ne (h : n.kind ≠ .propertySignature) : s.typeProperty? n = none := by
  rw [typeProperty?, typeParts_eq, propertyOf, if_neg h]
  rfl

theorem filterMap_parts (s : Source) (n : Node) :
    n.parts.filterMap s.typeProperty? = n.children.filterMap s.typeProperty? := by
  unfold Node.parts
  rw [List.filterMap_filter]
  refine List.filterMap_congr fun c _ => ?_
  cases hnote : c.isNote with
  | false => rfl
  | true =>
    have hkind := (Node.isNote_eq_true.mp hnote).1
    exact (typeProperty?_of_ne (by simp [hkind])).symm

/-- A member of an object type declares a property if its name is a word. -/
theorem typeProperty?_eq (h : n.kind = .propertySignature) : s.typeProperty? n = (n.child? .name).bind fun name =>
    if name.kind = .propertyIdentifier then
      some (s.textOf name, (((n.child? .type).bind Node.firstConstruct?).map s.typeShape).getD .unknown)
    else none := by
  have htype : ((n.child? .type).map fun c => (c, typeParts s c)).bind (·.2.inner.head?) =
      ((n.child? .type).bind Node.firstConstruct?).map (TypeForm.ofNode s) := by
    cases n.child? .type with
    | none => rfl
    | some c =>
      rw [Option.map_some, Option.bind_some, Option.bind_some, typeParts_eq, List.head?_map, Node.head?_constructs]
  rw [typeProperty?, typeParts_eq]
  dsimp only
  rw [propertyOf, if_pos h, Node.valuedChild?_map, htype, ← ofTypeOr_map]
  cases n.child? .name with
  | none => rfl
  | some name =>
    rw [Option.bind_some]
    dsimp only
    split <;> rfl

end Syntax.Source

/-! ### The same type in other words -/

namespace Syntax

/-- Nodes that are told by their text. -/
def Kind.isWord (k : Kind) : Bool :=
  [typeIdentifier, predefinedType, propertyIdentifier].contains k

/-- Whether a node stands for a type by itself. A name, an annotation or a list of arguments only holds types, and so
    does a member of an object type. -/
def Node.isType (n : Node) : Bool :=
  n.isConstruct && n.kind != .propertySignature && !([some .name, some .type, some .typeArguments].contains n.role)

/-- The second node stands for what the first one does, with any number of the types in it written in other words. -/
inductive SameType (s s' : Source) : Node → Node → Prop
  /-- The node stays what it is, and the types in it are written in other words. Words keep their text, and a generic
      type keeps its name. Comments do not count. -/
  | inside {n n' : Node} (kind : n'.kind = n.kind) (text : n.kind.isWord = true → s'.textOf n' = s.textOf n)
      (name : n.kind = .genericType → s'.partText n' .name = s.partText n .name)
      (length : n.parts.length = n'.parts.length) (roles : ∀ c ∈ n.parts.zip n'.parts, c.2.role = c.1.role)
      (parts : ∀ c ∈ n.parts.zip n'.parts, SameType s s' c.1 c.2) : SameType s s' n n'
  /-- `Array<T>` or `ReadonlyArray<T>` becomes `(T)[]` or `T[]`. -/
  | array {n n' argument element content : Node} (type : n.isType = true) (kind : n.kind = .genericType)
      (name : s.partText n .name = "Array" ∨ s.partText n .name = "ReadonlyArray") (arguments : n.typeArguments = [argument])
      (kind' : n'.kind = .arrayType) (first : n'.firstConstruct? = some element)
      (within : element = content ∨ element.kind = .parenthesizedType ∧ element.firstConstruct? = some content)
      (same : SameType s s' argument content) : SameType s s' n n'
  /-- `Promise<T>` becomes `T`. -/
  | promise {n n' argument : Node} (type : n.isType = true) (kind : n.kind = .genericType)
      (name : s.partText n .name = "Promise") (arguments : n.typeArguments = [argument]) (argument_type : argument.isType = true)
      (same : SameType s s' argument n') : SameType s s' n n'
  /-- `(T)` or `readonly T` becomes `T`. -/
  | unwrapped {n n' content : Node} (type : n.isType = true) (kind : n.kind = .parenthesizedType ∨ n.kind = .readonlyType)
      (first : n.firstConstruct? = some content) (content_type : content.isType = true)
      (same : SameType s s' content n') : SameType s s' n n'

/-- Whether the nodes are the same type as far as a number of steps into them tells. -/
def isSameType (s s' : Source) : Nat → Node → Node → Bool
  | 0, _, _ => false
  | steps + 1, n, n' =>
    (n'.kind == n.kind && (!n.kind.isWord || s'.textOf n' == s.textOf n) &&
      (n.kind != .genericType || s'.partText n' .name == s.partText n .name) && n.parts.length == n'.parts.length &&
      (n.parts.zip n'.parts).all fun c => c.2.role == c.1.role && isSameType s s' steps c.1 c.2) ||
    (n.isType && n.kind == .genericType && n.typeArguments.length == 1 && n.typeArguments.all fun argument =>
      ((s.partText n .name == "Array" || s.partText n .name == "ReadonlyArray") && n'.kind == .arrayType &&
        n'.firstConstruct?.any fun element => isSameType s s' steps argument element ||
          (element.kind == .parenthesizedType && element.firstConstruct?.any fun content =>
            isSameType s s' steps argument content)) ||
      (s.partText n .name == "Promise" && argument.isType && isSameType s s' steps argument n')) ||
    (n.isType && (n.kind == .parenthesizedType || n.kind == .readonlyType) &&
      n.firstConstruct?.any fun content => content.isType && isSameType s s' steps content n')

theorem sameType_of_isSameType {steps : Nat} (h : isSameType s s' steps n n' = true) : SameType s s' n n' := by
  induction steps generalizing n n' with
  | zero => cases h
  | succ steps ih =>
    simp only [isSameType, Bool.or_eq_true, Bool.and_eq_true, beq_iff_eq, Bool.not_eq_true', List.all_eq_true,
      Option.any_eq_true, bne_iff_ne] at h
    rcases h with (⟨⟨⟨⟨hkind, htext⟩, hname⟩, hlength⟩, hparts⟩ | ⟨⟨⟨htype, hkind⟩, hlength⟩, harguments⟩) |
      ⟨⟨htype, hkind⟩, content, hfirst, hcontent, hsame⟩
    · refine .inside hkind (fun hword => ?_) (fun hgeneric => ?_) hlength (fun c hc => (hparts c hc).1)
        fun c hc => ih (hparts c hc).2
      · exact htext.resolve_left (by simp [hword])
      · exact hname.resolve_left (not_not_intro hgeneric)
    · obtain ⟨argument, hargument⟩ := List.length_eq_one_iff.mp hlength
      rcases harguments argument (hargument ▸ List.mem_cons_self) with
        ⟨⟨hname, hkind'⟩, element, hfirst, hsame | ⟨hparentheses, content, hcontent, hsame⟩⟩ | ⟨⟨hname, hinner⟩, hsame⟩
      · exact .array htype hkind hname hargument hkind' hfirst (.inl rfl) (ih hsame)
      · exact .array htype hkind hname hargument hkind' hfirst (.inr ⟨hparentheses, hcontent⟩) (ih hsame)
      · exact .promise htype hkind hname hargument hinner (ih hsame)
    · exact .unwrapped htype hkind hfirst hcontent (ih hsame)

/-- Whatever the shape of a node is read from, two nodes have in common. -/
structure Agree (s s' : Source) (n n' : Node) : Prop where
  construct : n.isConstruct = n'.isConstruct
  shape : s'.typeShape n' = s.typeShape n
  property : s'.typeProperty? n' = s.typeProperty? n
  kind : n.isType = false → n'.kind = n.kind
  text : n.isType = false → n.kind.isWord = true → s'.textOf n' = s.textOf n
  constructs : n.isType = false → n'.constructs.map s'.typeShape = n.constructs.map s.typeShape

theorem isType_of_role {r : Role} (h : n.role = some r) (hr : r = .name ∨ r = .type ∨ r = .typeArguments) :
    n.isType = false := by
  rcases hr with rfl | rfl | rfl <;> simp [Node.isType, h]

theorem isType_eq_true (h : n.isType = true) : n.isConstruct = true ∧ n.kind ≠ .propertySignature := by
  simp only [Node.isType, Bool.and_eq_true, bne_iff_ne] at h
  exact h.1

namespace Agree

/-- The parts of two nodes play the same roles and agree one by one. -/
def Parts (s s' : Source) (n n' : Node) : Prop :=
  List.Forall₂ (fun c c' => c.role = c'.role ∧ Agree s s' c c') n.parts n'.parts

section Parts
variable (h : Parts s s' n n')
include h

theorem child? (r : Role) : Option.Rel (fun c c' => c.role = c'.role ∧ Agree s s' c c') (n.child? r) (n'.child? r) := by
  rw [Node.child?_eq, Node.child?_eq]
  exact Node.find?_related h fun _ _ hc => by rw [hc.1]

theorem map_constructs : n'.constructs.map s'.typeShape = n.constructs.map s.typeShape := by
  have hconstructs : List.Forall₂ (fun c c' => c.role = c'.role ∧ Agree s s' c c') n.constructs n'.constructs := by
    unfold Node.constructs
    rw [← Node.filter_parts fun _ => Node.isConstruct_of_isNote, ← Node.filter_parts fun _ => Node.isConstruct_of_isNote]
    exact Node.filter_related h fun _ _ hc => hc.2.construct
  exact (Node.map_related hconstructs fun _ _ _ hc => hc.2.shape.symm).symm

theorem map_firstConstruct? : n'.firstConstruct?.map s'.typeShape = n.firstConstruct?.map s.typeShape := by
  have hhead := congrArg List.head? (map_constructs h)
  rwa [List.head?_map, List.head?_map, Node.head?_constructs, Node.head?_constructs] at hhead

/-- What the part that holds types has in it. -/
theorem map_held {r : Role} (hr : r = .name ∨ r = .type ∨ r = .typeArguments) :
    (n'.child? r).map (·.constructs.map s'.typeShape) = (n.child? r).map (·.constructs.map s.typeShape) := by
  rcases Node.rel_cases (child? h r) with ⟨hc, hc'⟩ | ⟨c, c', hc, hc', -, hagree⟩
  · rw [hc, hc']
    rfl
  · rw [hc, hc', Option.map_some, Option.map_some, hagree.constructs (isType_of_role (Node.mem_of_child? hc).2 hr)]

theorem map_typeArguments : n'.typeArguments.map s'.typeShape = n.typeArguments.map s.typeShape := by
  have hheld := map_held h (.inr (.inr rfl))
  unfold Node.typeArguments
  cases hc : n.child? .typeArguments with
  | none =>
    rw [hc, Option.map_none, Option.map_eq_none_iff] at hheld
    rw [hheld]
    rfl
  | some c =>
    rw [hc, Option.map_some] at hheld
    obtain ⟨c', hc', heq⟩ := Option.map_eq_some_iff.mp hheld
    rw [hc']
    exact heq

theorem map_annotated : ((n'.child? .type).bind Node.firstConstruct?).map s'.typeShape =
    ((n.child? .type).bind Node.firstConstruct?).map s.typeShape := by
  have hheld := congrArg (·.bind List.head?) (map_held h (.inr (.inl rfl)))
  simp only [Option.bind_map, Function.comp_def, List.head?_map, Node.head?_constructs] at hheld
  rwa [Option.map_bind, Option.map_bind]

theorem typeProperty?_eq (hkind : n'.kind = n.kind) : s'.typeProperty? n' = s.typeProperty? n := by
  by_cases hproperty : n.kind = .propertySignature
  · rw [Source.typeProperty?_eq (hkind.trans hproperty), Source.typeProperty?_eq hproperty, map_annotated h]
    rcases Node.rel_cases (child? h .name) with ⟨hc, hc'⟩ | ⟨c, c', hc, hc', -, hagree⟩
    · rw [hc, hc']
      rfl
    · have hname : c.isType = false := isType_of_role (Node.mem_of_child? hc).2 (.inl rfl)
      rw [hc, hc', Option.bind_some, Option.bind_some, hagree.kind hname]
      split
      · rename_i hword
        rw [hagree.text hname (by simp [hword, Kind.isWord])]
      · rfl
  · rw [Source.typeProperty?_of_ne hproperty, Source.typeProperty?_of_ne (hkind.trans_ne hproperty)]

theorem filterMap_typeProperty? : n'.children.filterMap s'.typeProperty? = n.children.filterMap s.typeProperty? := by
  have hsame : n'.parts.map s'.typeProperty? = n.parts.map s.typeProperty? :=
    (Node.map_related h fun _ _ _ hc => hc.2.property.symm).symm
  have hgiven := congrArg (List.filterMap id) hsame
  rw [List.filterMap_map, List.filterMap_map, Function.id_comp, Function.id_comp] at hgiven
  rwa [Source.filterMap_parts, Source.filterMap_parts] at hgiven

end Parts

/-- Nodes agree that have the same kind, text and name and parts that agree. -/
theorem of_parts (hkind : n'.kind = n.kind) (htext : n.kind.isWord = true → s'.textOf n' = s.textOf n)
    (hname : n.kind = .genericType → s'.partText n' .name = s.partText n .name) (h : Parts s s' n n') : Agree s s' n n' where
  construct := by rw [Node.isConstruct, Node.isConstruct, hkind]
  shape := by
    by_cases hwrapped : n.kind = .parenthesizedType ∨ n.kind = .readonlyType
    · rw [Source.typeShape_wrapped hwrapped, Source.typeShape_wrapped (hkind ▸ hwrapped), map_firstConstruct? h]
    by_cases harray : n.kind = .arrayType
    · rw [Source.typeShape_array harray, Source.typeShape_array (hkind.trans harray), map_firstConstruct? h]
    by_cases hobject : n.kind = .objectType
    · rw [Source.typeShape_object hobject, Source.typeShape_object (hkind.trans hobject), filterMap_typeProperty? h]
    by_cases hgeneric : n.kind = .genericType
    · rw [Source.typeShape_generic hgeneric, Source.typeShape_generic (hkind.trans hgeneric), hname hgeneric,
        map_typeArguments h]
    by_cases hidentifier : n.kind = .typeIdentifier
    · rw [Source.typeShape_identifier hidentifier, Source.typeShape_identifier (hkind.trans hidentifier),
        htext (by rw [hidentifier]; rfl)]
    by_cases hpredefined : n.kind = .predefinedType
    · rw [Source.typeShape_predefined hpredefined, Source.typeShape_predefined (hkind.trans hpredefined),
        htext (by rw [hpredefined]; rfl)]
    have hother : n.kind ∉ [.parenthesizedType, .readonlyType, .arrayType, .objectType, .genericType, .typeIdentifier,
        .predefinedType] := by
      simp only [not_or] at hwrapped
      simp [hwrapped, harray, hobject, hgeneric, hidentifier, hpredefined]
    rw [Source.typeShape_other hother, Source.typeShape_other (hkind ▸ hother)]
  property := typeProperty?_eq h hkind
  kind _ := hkind
  text _ := htext
  constructs _ := map_constructs h

/-- Nodes that are types agree if they have the same shape and the second one declares no property. -/
theorem of_isType (type : n.isType = true) (construct : n'.isConstruct = true) (shape : s'.typeShape n' = s.typeShape n)
    (property : s'.typeProperty? n' = none) : Agree s s' n n' where
  construct := (isType_eq_true type).1.trans construct.symm
  shape := shape
  property := property.trans (Source.typeProperty?_of_ne (isType_eq_true type).2).symm
  kind h := absurd (type.symm.trans h) Bool.noConfusion
  text h := absurd (type.symm.trans h) Bool.noConfusion
  constructs h := absurd (type.symm.trans h) Bool.noConfusion

end Agree

namespace SameType

/-- Nodes that are the same type agree, whatever they stand in. -/
theorem agree (h : SameType s s' n n') : Agree s s' n n' := by
  induction h with
  | inside kind text name length roles _ ih =>
    exact .of_parts kind text name (List.forall₂_iff_zip.mpr ⟨length, fun hc => ⟨(roles _ hc).symm, ih _ hc⟩⟩)
  | @array n n' argument element content type kind name arguments kind' first within _ ih =>
    have helement : s'.typeShape element = s.typeShape argument := by
      rcases within with rfl | ⟨hparentheses, hcontent⟩
      · exact ih.shape
      · rw [Source.typeShape_wrapped (.inl hparentheses), hcontent]
        exact ih.shape
    refine .of_isType type (by simp [Node.isConstruct, kind']) ?_ (Source.typeProperty?_of_ne (by simp [kind']))
    rw [Source.typeShape_array kind', first, Source.typeShape_generic kind, arguments]
    exact (congrArg Shape.array helement).trans (if_pos name).symm
  | promise type kind name arguments argument_type _ ih =>
    obtain ⟨hconstruct, hproperty⟩ := isType_eq_true argument_type
    refine .of_isType type (ih.construct ▸ hconstruct) ?_ (ih.property.trans (Source.typeProperty?_of_ne hproperty))
    rw [Source.typeShape_generic kind, arguments, name]
    exact ih.shape
  | unwrapped type kind first content_type _ ih =>
    obtain ⟨hconstruct, hproperty⟩ := isType_eq_true content_type
    refine .of_isType type (ih.construct ▸ hconstruct) ?_ (ih.property.trans (Source.typeProperty?_of_ne hproperty))
    rw [Source.typeShape_wrapped kind, first]
    exact ih.shape

/-- Types that are the same but for how the types in them are written have the same shape. -/
theorem ofType_eq (h : SameType s s' n n') :
    Shape.ofType (TypeForm.ofNode s' n') = Shape.ofType (TypeForm.ofNode s n) :=
  h.agree.shape

/-! ### A promise of pages -/

namespace Pages

/-- A service with an annotated method. -/
def promised : String :=
  "class PagesService \x7b find(): Promise<\x7b pages: ReadonlyArray<readonly User[]>; last?: Widget<(string)> \x7d> \x7b\x7d \x7d\n"

/-- The service with the annotation in other words. -/
def plain : String :=
  "class PagesService \x7b find(): \x7b pages: (User[])[]; last?: Widget<string> \x7d \x7b\x7d \x7d\n"

/-- The annotation of the first method. -/
def annotation? (s : Source) : Option Node :=
  s.classes.head?.bind fun c => c.methods.head?.bind Method.returnType?

def Same (s s' : Source) : Prop :=
  ((annotation? s).any fun n => (annotation? s').any fun n' => isSameType s s' 9 n n') = true

instance (s s' : Source) : Decidable (Same s s') :=
  instDecidableEqBool _ _

set_option maxRecDepth 8000 in
theorem exists_same : ∃ s s', Source.ofText? promised = some s ∧ Source.ofText? plain = some s' ∧ Same s s' :=
  Source.exists_both .piece .piece _ (by decide +kernel)

end Pages

theorem ofType_eq_pages : ∃ n n', Pages.annotation? (Source.ofText Pages.promised) = some n ∧
    Pages.annotation? (Source.ofText Pages.plain) = some n' ∧
    SameType (Source.ofText Pages.promised) (Source.ofText Pages.plain) n n' ∧
    Shape.ofType (TypeForm.ofNode (Source.ofText Pages.plain) n') =
      Shape.ofType (TypeForm.ofNode (Source.ofText Pages.promised) n) := by
  obtain ⟨s, s', hs, hs', hsame⟩ := Pages.exists_same
  rw [Source.ofText, Source.ofText, hs, hs']
  obtain ⟨n, hn, hsame⟩ := (Option.any_eq_true _ _).mp hsame
  obtain ⟨n', hn', hsame⟩ := (Option.any_eq_true _ _).mp hsame
  have htype : SameType s s' n n' := sameType_of_isSameType hsame
  exact ⟨n, n', hn, hn', htype, htype.ofType_eq⟩

end SameType

end Syntax

end ResponseShapes
