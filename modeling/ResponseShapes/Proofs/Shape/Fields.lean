import ResponseShapes.Declaration.Analysis
import ResponseShapes.Proofs.Entries
import ResponseShapes.Proofs.Syntax.Decorated
import ResponseShapes.Proofs.Syntax.Leaves

/-! # Where the fields of an inferred shape have their names from

The fields of a shape that a type tells are named by words: quoted keys of types are passed over, and so are the names
of the records that are known in advance. The fields of a shape that a value tells are named by words or by quoted keys
of object literals, which are read as any text (`fieldNames_ofMethod`). -/

namespace ResponseShapes

open Syntax

/-! ### The fields of a shape -/

namespace Shape

mutual

/-- The names of the fields at any depth. -/
def fieldNames : Shape → List String
  | .object fields => fieldNamesAll fields
  | .array element => element.fieldNames
  | .primitive _ => []
  | .unknown => []
termination_by structural shape => shape

/-- The name of a field and the names of the fields in it. -/
def fieldNamesOf : String × Shape → List String
  | (name, shape) => name :: shape.fieldNames
termination_by structural f => f

/-- The names of fields and of the fields in them. -/
def fieldNamesAll : List (String × Shape) → List String
  | [] => []
  | f :: rest => fieldNamesOf f ++ fieldNamesAll rest
termination_by structural fields => fields

end

variable {name : String} {fields items : List (String × Shape)} {p : String → Prop}

theorem fieldNamesAll_eq (fields : List (String × Shape)) : fieldNamesAll fields = fields.flatMap fieldNamesOf := by
  induction fields with
  | nil => rfl
  | cons f fields ih => rw [fieldNamesAll, ih, List.flatMap_cons]

theorem forall_mem_object : (∀ x ∈ (object fields).fieldNames, p x) ↔
    ∀ f ∈ fields, p f.1 ∧ ∀ x ∈ f.2.fieldNames, p x := by
  change (∀ x ∈ fieldNamesAll fields, p x) ↔ _
  rw [fieldNamesAll_eq, List.forall_mem_flatMap]
  refine forall₂_congr fun f _ => ?_
  obtain ⟨name, shape⟩ := f
  exact List.forall_mem_cons

theorem forall_mem_ofItems (h : ∀ f ∈ items, p f.1 ∧ ∀ x ∈ f.2.fieldNames, p x) : ∀ x ∈ (ofItems items).fieldNames, p x :=
  forall_mem_object.mpr fun f hf => h f (Entries.mem_of_mem_ofList hf)

/-! ### Shapes that names tell -/

theorem isWord_toList_of_all (h : (name.toList.head?.any isWordStart && name.toList.all isWordPart) = true) :
    IsWord name.toList := by
  rw [Bool.and_eq_true] at h
  cases hname : name.toList with
  | nil =>
    rw [hname] at h
    exact absurd h.1 Bool.false_ne_true
  | cons c cs =>
    rw [hname] at h
    exact isWord_of_all h.1 (Bool.and_eq_true_iff.mp h.2).2

theorem fieldNames_ofPlainName (name : String) : ∀ x ∈ (ofPlainName name).fieldNames, IsWord x.toList := by
  have hwords : ∀ shape ∈ page :: anyRecord :: known.map (·.2), ∀ x ∈ shape.fieldNames,
      (x.toList.head?.any isWordStart && x.toList.all isWordPart) = true := by
    decide +kernel
  have hmem : ofPlainName name ∈ page :: anyRecord :: known.map (·.2) := by
    unfold ofPlainName
    split
    · rename_i shape hshape
      have := List.mem_map_of_mem (f := (·.2)) (Entries.mem_of_get? hshape)
      exact List.mem_cons_of_mem _ (List.mem_cons_of_mem _ this)
    · split
      · exact List.mem_cons_self
      · exact List.mem_cons_of_mem _ List.mem_cons_self
  exact fun x hx => isWord_toList_of_all (hwords _ hmem x hx)

theorem fieldNames_nested (depth : Nat) (shape : Shape) : (nested depth shape).fieldNames = shape.fieldNames := by
  induction depth with
  | zero => rfl
  | succ depth ih => exact ih

theorem fieldNames_ofTypeName (name : String) : ∀ x ∈ (ofTypeName name).fieldNames, IsWord x.toList := by
  unfold ofTypeName
  dsimp only
  rw [fieldNames_nested]
  exact fieldNames_ofPlainName _

theorem fieldNames_ofProperty (name : String) : (ofProperty name).fieldNames = [] := by
  unfold ofProperty
  split
  · rfl
  · split <;> rfl

theorem fieldNames_ofShorthand (name : String) : (ofShorthand name).fieldNames = [] := by
  unfold ofShorthand
  split <;> rfl

end Shape

/-! ### Values of nodes -/

namespace Syntax

variable {α : Type} {step : Node → List (Node × α) → α} {n : Node} {r : Role} {children : List (Node × α)}

mutual

/-- What a step gives for a node whenever it does so for the nodes below, it gives for every node. -/
theorem Node.fold_induction {p : Node → α → Prop}
    (h : ∀ n children, (∀ c ∈ children, c.1 ∈ n.children ∧ p c.1 c.2) → p n (step n children)) :
    ∀ n : Node, p n (n.fold step)
  | mk k r a b cs => by
    rw [fold]
    exact h _ _ fun c hc => foldAll_induction h cs c hc

theorem Node.foldAll_induction {p : Node → α → Prop}
    (h : ∀ n children, (∀ c ∈ children, c.1 ∈ n.children ∧ p c.1 c.2) → p n (step n children)) :
    ∀ (ns : List Node), ∀ c ∈ foldAll step ns, c.1 ∈ ns ∧ p c.1 c.2
  | [], c, hc => by cases hc
  | n :: ns, c, hc => by
    rw [foldAll] at hc
    rcases List.mem_cons.mp hc with rfl | hc
    · exact ⟨List.mem_cons_self, fold_induction h n⟩
    · exact (foldAll_induction h ns c hc).imp_left (List.mem_cons_of_mem _)

end

end Syntax

/-! ### Types -/

section Types

open Shape

variable {s : Source} {n : Node} {children : List (Node × TypeParts)}

/-- The fields of a type are named by words. -/
def TypeForm.Worded (t : TypeForm) : Prop :=
  ∀ x ∈ (Shape.ofType t).fieldNames, IsWord x.toList

/-- The types that a node holds have fields that are named by words. -/
structure TypeParts.Worded (t : TypeParts) : Prop where
  form : t.form.Worded
  inner : ∀ form ∈ t.inner, form.Worded
  property : ∀ name form?, t.property = some (name, form?) → IsWord name.toList ∧ ∀ form ∈ form?, form.Worded

theorem fieldNames_ofTypeOr {form? : Option TypeForm} (h : ∀ form ∈ form?, form.Worded) :
    ∀ x ∈ (Shape.ofTypeOr form?).fieldNames, IsWord x.toList := by
  cases form? with
  | none => exact List.forall_mem_nil _
  | some form => exact h form rfl

theorem ofTypeItems_eq (properties : List (String × Option TypeForm)) :
    Shape.ofTypeItems properties = properties.map fun p => (p.1, Shape.ofTypeOr p.2) := by
  induction properties with
  | nil => rfl
  | cons p properties ih => rw [Shape.ofTypeItems, ih, List.map_cons]

theorem worded_generic (name : String) {arguments : List TypeForm} (h : ∀ form ∈ arguments, form.Worded) :
    (TypeForm.generic name arguments).Worded := by
  unfold TypeForm.Worded
  rcases arguments with _ | ⟨argument, _ | ⟨second, rest⟩⟩
  · exact fieldNames_ofTypeName name
  · have hargument := h argument List.mem_cons_self
    rw [Shape.ofType]
    split
    · exact hargument
    · split
      · exact hargument
      · exact fieldNames_ofTypeName name
  · exact fieldNames_ofTypeName name

theorem worded_typeForm (h : ∀ c ∈ children, c.2.Worded) : (typeForm s n children).Worded := by
  have hfirst : ∀ form ∈ (valuedFirst? children).map (·.2.form), form.Worded := fun form hform => by
    obtain ⟨c, hc, rfl⟩ := Option.map_eq_some_iff.mp hform
    exact (h c (List.mem_of_find?_eq_some hc)).form
  unfold typeForm
  split
  · exact fieldNames_ofTypeOr hfirst
  · exact fieldNames_ofTypeOr hfirst
  · exact fieldNames_ofTypeOr hfirst
  · refine forall_mem_ofItems ?_
    rw [ofTypeItems_eq, List.forall_mem_map]
    rintro ⟨name, form?⟩ hproperty
    obtain ⟨c, hc, hproperty⟩ := List.mem_filterMap.mp hproperty
    obtain ⟨hname, hform⟩ := (h c hc).property name form? hproperty
    exact ⟨hname, fieldNames_ofTypeOr hform⟩
  · refine worded_generic _ ?_
    cases hchild : valuedChild? .typeArguments children with
    | none => exact List.forall_mem_nil _
    | some c => exact (h c (List.mem_of_find?_eq_some hchild)).inner
  · exact fieldNames_ofTypeName _
  · unfold TypeForm.Worded Shape.ofType
    cases Primitive.ofWord? (Text.trim (s.textOf n)) <;> exact List.forall_mem_nil _
  · exact List.forall_mem_nil _

theorem isWord_textOf (hs : s.Sound) (hn : Node.Below s.root n)
    (hkind : spelling n.kind = some wordLength) : IsWord (s.textOf n).toList := by
  rw [Source.textOf, String.toList_ofList]
  exact hs.isWord_charsOf hn hkind

/-- The fields of the types of a source are named by words. -/
theorem worded_typeParts (hs : s.Sound) (hn : Node.Below s.root n) : (typeParts s n).Worded := by
  -- Only of nodes below the root is it known that they cover words.
  refine Node.fold_induction (p := fun n (t : TypeParts) => Node.Below s.root n → t.Worded) (fun n children h hn => ?_) n hn
  have hchildren : ∀ c ∈ children, c.2.Worded := fun c hc => (h c hc).2 (hn.trans (.of_mem (h c hc).1))
  refine ⟨worded_typeForm hchildren, fun form hform => ?_, fun name form? hproperty => ?_⟩
  · obtain ⟨c, hc, rfl⟩ := List.mem_map.mp hform
    exact (hchildren c (List.mem_of_mem_filter hc)).form
  · dsimp only at hproperty
    unfold propertyOf at hproperty
    split at hproperty
    · split at hproperty
      · rename_i key hkey
        split at hproperty
        · rename_i hkind
          obtain ⟨rfl, rfl⟩ := Prod.mk.inj (Option.some.inj hproperty)
          refine ⟨isWord_textOf hs (hn.trans (.of_mem (Node.mem_of_child? hkey).1)) (by rw [hkind]), fun form hform => ?_⟩
          obtain ⟨c, hc, hform⟩ := Option.bind_eq_some_iff.mp hform
          exact (hchildren c (List.mem_of_find?_eq_some hc)).inner form (List.mem_of_head? hform)
        · cases hproperty
      · cases hproperty
    · cases hproperty

end Types

/-! ### Values -/

section Values

open Shape

variable {s : Source} {n : Node} {children : List (Node × ValueParts)} {name : String}

/-- The name is a quoted key in an object literal of the source. -/
def Syntax.Source.Quotes (s : Source) (name : String) : Prop :=
  ∃ pair key, Node.Below s.root pair ∧ pair.kind = .pair ∧ pair.child? .key = some key ∧ key.kind = .string ∧
    s.stringValue key = name

/-- A field of this name is written as a word or as a quoted key in the source. -/
def IsSourceField (s : Source) (name : String) : Prop :=
  IsWord name.toList ∨ s.Quotes name

/-- The fields of a value are named in the source. -/
def ValueForm.Named (s : Source) (v : ValueForm) : Prop :=
  ∀ x ∈ (Shape.ofValue v).fieldNames, IsSourceField s x

/-- The values that a node holds have fields that are named in the source. -/
structure ValueParts.Named (s : Source) (v : ValueParts) : Prop where
  form : v.form.Named s
  property : ∀ name form?, v.property = some (name, form?) → IsSourceField s name ∧ ∀ form ∈ form?, form.Named s

theorem fieldNames_ofValueOr {form? : Option ValueForm} (h : ∀ form ∈ form?, form.Named s) :
    ∀ x ∈ (Shape.ofValueOr form?).fieldNames, IsSourceField s x := by
  cases form? with
  | none => exact List.forall_mem_nil _
  | some form => exact h form rfl

theorem fieldNames_ofValueItems {properties : List (String × Option ValueForm)}
    (h : ∀ p ∈ properties, IsSourceField s p.1 ∧ ∀ form ∈ p.2, form.Named s) :
    ∀ f ∈ Shape.ofValueItems properties, IsSourceField s f.1 ∧ ∀ x ∈ f.2.fieldNames, IsSourceField s x := by
  induction properties with
  | nil => exact List.forall_mem_nil _
  | cons p properties ih =>
    obtain ⟨⟨hname, hform⟩, hrest⟩ := List.forall_mem_cons.mp h
    obtain ⟨name, _ | form⟩ := p
    · refine List.forall_mem_cons.mpr ⟨⟨hname, ?_⟩, ih hrest⟩
      rw [fieldNames_ofShorthand]
      exact List.forall_mem_nil _
    · exact List.forall_mem_cons.mpr ⟨⟨hname, hform form rfl⟩, ih hrest⟩

theorem named_valueForm (h : ∀ c ∈ children, c.2.Named s) : (valueForm s n children).Named s := by
  have hform : ∀ {o : Option (Node × ValueParts)}, (∀ c ∈ o, c ∈ children) →
      ∀ x ∈ (Shape.ofValueOr (o.map (·.2.form))).fieldNames, IsSourceField s x := fun ho =>
    fieldNames_ofValueOr fun form hform => by
      obtain ⟨c, hc, rfl⟩ := Option.map_eq_some_iff.mp hform
      exact (h c (ho c hc)).form
  have hfound : ∀ {p : Node × ValueParts → Bool}, ∀ c ∈ children.find? p, c ∈ children :=
    fun _ hc => List.mem_of_find?_eq_some hc
  unfold valueForm
  split
  · exact hform hfound
  · exact hform hfound
  · exact hform hfound
  · exact hform hfound
  · exact hform hfound
  · exact hform hfound
  · refine forall_mem_ofItems (fieldNames_ofValueItems fun property hproperty => ?_)
    obtain ⟨c, hc, hproperty⟩ := List.mem_filterMap.mp hproperty
    exact (h c hc).property property.1 property.2 hproperty
  · exact List.forall_mem_nil _
  · exact List.forall_mem_nil _
  · exact List.forall_mem_nil _
  · exact List.forall_mem_nil _
  · exact List.forall_mem_nil _
  · split
    · exact hform hfound
    · exact List.forall_mem_nil _
  · unfold ValueForm.Named Shape.ofValue
    rw [fieldNames_ofProperty]
    exact List.forall_mem_nil _
  · exact List.forall_mem_nil _

/-- The fields of the values of a source are named in it. -/
theorem named_valueParts (hs : s.Sound) (hn : Node.Below s.root n) : (valueParts s n).Named s := by
  refine Node.fold_induction (p := fun n (v : ValueParts) => Node.Below s.root n → v.Named s) (fun n children h hn => ?_) n hn
  have hchildren : ∀ c ∈ children, c.2.Named s := fun c hc => (h c hc).2 (hn.trans (.of_mem (h c hc).1))
  refine ⟨named_valueForm hchildren, fun name form? hproperty => ?_⟩
  dsimp only at hproperty
  unfold givenProperty at hproperty
  split at hproperty
  · rename_i hpair
    split at hproperty
    · rename_i key value hkey hvalue
      have hform := (hchildren _ (List.mem_of_find?_eq_some hvalue)).form
      split at hproperty
      · rename_i hkind
        obtain ⟨rfl, rfl⟩ := Prod.mk.inj (Option.some.inj hproperty)
        have hbelow := hn.trans (.of_mem (Node.mem_of_child? hkey).1)
        exact ⟨.inl (isWord_textOf hs hbelow (by rw [hkind])), fun form heq => Option.some.inj heq ▸ hform⟩
      · split at hproperty
        · rename_i hkind
          obtain ⟨rfl, rfl⟩ := Prod.mk.inj (Option.some.inj hproperty)
          exact ⟨.inr ⟨n, key, hn, hpair, hkey, hkind, rfl⟩, fun form heq => Option.some.inj heq ▸ hform⟩
        · cases hproperty
    · cases hproperty
  · rename_i hshorthand
    obtain ⟨rfl, rfl⟩ := Prod.mk.inj (Option.some.inj hproperty)
    exact ⟨.inl (isWord_textOf hs hn (by rw [hshorthand])), fun form heq => by cases heq⟩
  · cases hproperty

end Values

/-! ### Methods -/

section Methods

variable {s : Source} {n : Node} {m : Method}

theorem exists_of_mem_walkFrom {closed : Node → Bool} {steps : Nat} {stack : List Node} (h : n ∈ walkFrom closed steps stack) :
    ∃ m ∈ stack, Node.Below m n := by
  induction steps generalizing stack with
  | zero => cases h
  | succ steps ih =>
    cases stack with
    | nil => cases h
    | cons m stack =>
      rw [walkFrom] at h
      rcases List.mem_cons.mp h with rfl | h
      · exact ⟨n, List.mem_cons_self, .refl n⟩
      · obtain ⟨x, hx, hbelow⟩ := ih h
        split at hx
        · exact ⟨x, List.mem_cons_of_mem _ hx, hbelow⟩
        · rcases List.mem_append.mp hx with hx | hx
          · exact ⟨m, List.mem_cons_self, .child hx hbelow⟩
          · exact ⟨x, List.mem_cons_of_mem _ hx, hbelow⟩

theorem below_of_mem_returnStatements {body : Node} (h : n ∈ returnStatements body) : Node.Below body n := by
  rcases List.mem_cons.mp (List.mem_of_mem_filter h) with rfl | h
  · exact .refl n
  · obtain ⟨m, hm, hbelow⟩ := exists_of_mem_walkFrom h
    exact .child hm hbelow

theorem below_of_firstConstruct? {c : Node} (h : n.firstConstruct? = some c) : Node.Below n c :=
  .of_mem (List.mem_of_find?_eq_some h)

theorem below_of_returnType? {type : Node} (h : m.returnType? = some type) : Node.Below m.node type := by
  unfold Method.returnType? at h
  split at h
  · rename_i clause hclause
    split at h
    · exact .child (Node.mem_of_child? hclause).1 (below_of_firstConstruct? h)
    · cases h
  · cases h

theorem below_of_returned {value : Node}
    (h : (m.body?.bind fun body => (returnStatements body).head?.bind Node.firstConstruct?) = some value) :
    Node.Below m.node value := by
  obtain ⟨body, hbody, h⟩ := Option.bind_eq_some_iff.mp h
  obtain ⟨statement, hstatement, hfirst⟩ := Option.bind_eq_some_iff.mp h
  have hreturns := below_of_mem_returnStatements (List.mem_of_head? hstatement)
  exact .child (Node.mem_of_child? hbody).1 (hreturns.trans (below_of_firstConstruct? hfirst))

/-- The fields of what a method returns are named in the source. -/
theorem fieldNames_ofMethod (hs : s.Sound) (hm : Node.Below s.root m.node) :
    ∀ x ∈ (Shape.ofMethod s m).fieldNames, IsSourceField s x := by
  have hreturned : ∀ value, (m.body?.bind fun body => (returnStatements body).head?.bind Node.firstConstruct?) = some value →
      ∀ x ∈ (Shape.ofValue (ValueForm.ofNode s value)).fieldNames, IsSourceField s x := fun value hvalue =>
    (named_valueParts hs (hm.trans (below_of_returned hvalue))).form
  unfold Shape.ofMethod
  cases htype : m.returnType? with
  | none =>
    rw [if_pos (show Shape.unknown.isUnknown = true from rfl)]
    split
    · exact hreturned _ ‹_›
    · exact List.forall_mem_nil _
  | some type =>
    dsimp only
    split
    · split
      · exact hreturned _ ‹_›
      · exact List.forall_mem_nil _
    · exact fun x hx => .inl ((worded_typeParts hs (hm.trans (below_of_returnType? htype))).form x hx)

/-! ### Names of methods -/

theorem exists_of_mem_methodsFrom {pending : List Decorator} {ns : List Node} (h : m ∈ s.methodsFrom pending ns) :
    m.node ∈ ns ∧ ∃ name, m.node.child? .name = some name ∧ m.name = s.textOf name ∧
      (m.hasPlainName = true → name.kind = .propertyIdentifier ∨ name.kind = .privatePropertyIdentifier) := by
  induction ns generalizing pending with
  | nil => cases h
  | cons n ns ih =>
    unfold Source.methodsFrom at h
    split at h
    · exact (ih h).imp_left (List.mem_cons_of_mem _)
    split at h
    · exact (ih h).imp_left (List.mem_cons_of_mem _)
    split at h
    · rcases List.mem_append.mp h with h | h
      · obtain ⟨name, hname, rfl⟩ := Option.map_eq_some_iff.mp (Option.mem_toList.mp h)
        refine ⟨List.mem_cons_self, name, hname, rfl, fun hplain => ?_⟩
        rwa [Bool.or_eq_true, decide_eq_true_eq, decide_eq_true_eq] at hplain
      · exact (ih h).imp_left (List.mem_cons_of_mem _)
    · exact (ih h).imp_left (List.mem_cons_of_mem _)

theorem exists_of_mem_methods {c : Node} (h : m ∈ s.methods c) : Node.Below c m.node ∧
    ∃ name, m.node.child? .name = some name ∧ m.name = s.textOf name ∧
      (m.hasPlainName = true → name.kind = .propertyIdentifier ∨ name.kind = .privatePropertyIdentifier) := by
  unfold Source.methods at h
  split at h
  · rename_i body hbody
    obtain ⟨hmem, hname⟩ := exists_of_mem_methodsFrom h
    exact ⟨.child (Node.mem_of_child? hbody).1 (.of_mem hmem), hname⟩
  · cases h

/-- A method that callers use by name is named by a word. -/
theorem isWord_name_of_isAnalyzable (hs : s.Sound) {c : Node} (hc : Node.Below s.root c) (hm : m ∈ s.methods c)
    (h : m.isAnalyzable = true) : IsWord m.name.toList := by
  obtain ⟨hbelow, name, hname, heq, hkind⟩ := exists_of_mem_methods hm
  have hin : Node.Below s.root name := hc.trans (hbelow.trans (.of_mem (Node.mem_of_child? hname).1))
  rw [Method.isAnalyzable, Bool.and_eq_true, Bool.not_eq_true'] at h
  rcases hkind h.1 with hkind | hkind
  · exact heq ▸ isWord_textOf hs hin (by rw [hkind])
  · have hsign : m.name.toList.head? = some '#' := by
      rw [heq, Source.textOf, String.toList_ofList]
      exact hs.head_charsOf hin hkind
    have hprivate : m.isPrivate = true := by rw [Method.isPrivate, hsign, beq_self_eq_true, Bool.or_true]
    rw [hprivate, Bool.or_true, Bool.true_or] at h
    exact absurd h.2 Bool.noConfusion

theorem below_of_mem_classes {c : ClassDeclaration} (h : c ∈ s.classes) :
    Node.Below s.root c.node ∧ c.methods = s.methods c.node := by
  obtain ⟨statement, hstatement, hclass⟩ := List.mem_filterMap.mp h
  obtain ⟨outer, hat⟩ := Source.class?_eq_some hclass
  exact ⟨.child (Node.mem_constructs.mp hstatement).1 hat.below, hat.methods⟩

theorem mem_of_mem_memberMethods {seen : List String} {methods : List Method}
    (h : m ∈ UnitAnalysis.memberMethods seen methods) : m ∈ methods ∧ m.isAnalyzable = true := by
  induction methods generalizing seen with
  | nil => cases h
  | cons m' methods ih =>
    unfold UnitAnalysis.memberMethods at h
    split at h
    · rename_i hnew
      rcases List.mem_cons.mp h with rfl | h
      · exact ⟨List.mem_cons_self, (Bool.and_eq_true_iff.mp hnew).1⟩
      · exact (ih h).imp_left (List.mem_cons_of_mem _)
    · exact (ih h).imp_left (List.mem_cons_of_mem _)

variable {conventions : Conventions} {p : Path} {a : UnitAnalysis} {rows : List LogRow} {member : Member}

/-- A member of a unit is a method of a class that callers use by name. -/
theorem UnitAnalysis.exists_of_mem_members (h : UnitAnalysis.ofSource? conventions s p = some (a, rows))
    (hmember : member ∈ a.members) : ∃ c m, Node.Below s.root c ∧ m ∈ s.methods c ∧ m.isAnalyzable = true ∧
      UnitAnalysis.member { responseSuffix := conventions.responseSuffix } s a.unit m = member := by
  obtain ⟨c, hc, ha⟩ := Option.map_eq_some_iff.mp h
  obtain rfl := congrArg Prod.fst ha
  obtain ⟨hbelow, hmethods⟩ := below_of_mem_classes (List.mem_of_find?_eq_some hc)
  obtain ⟨m, hm, heq⟩ := List.mem_map.mp hmember
  obtain ⟨hmem, hanalyzable⟩ := mem_of_mem_memberMethods hm
  rw [hmethods] at hmem
  exact ⟨c.node, m, hbelow, hmem, hanalyzable, heq⟩

/-- A member of a unit is named by a word, and the fields of its shape are named in the source. -/
theorem UnitAnalysis.named_of_mem_members (hs : s.Sound) (h : UnitAnalysis.ofSource? conventions s p = some (a, rows))
    (hmember : member ∈ a.members) :
    IsWord member.name.toList ∧ ∀ x ∈ member.shape.fieldNames, IsSourceField s x := by
  obtain ⟨c, m, hbelow, hmem, hanalyzable, rfl⟩ := exists_of_mem_members h hmember
  exact ⟨isWord_name_of_isAnalyzable hs hbelow hmem hanalyzable,
    fieldNames_ofMethod hs (hbelow.trans (exists_of_mem_methods hmem).1)⟩

end Methods

end ResponseShapes
