import ResponseShapes.Proofs.Declaration.Keys
import ResponseShapes.Proofs.Declaration.Order
import ResponseShapes.Proofs.Endpoint.Reread
import ResponseShapes.Proofs.Syntax.Identifiers

/-! # Written modules read back

The text of a module is read statement by statement (`exists_repeats`): the import, the declarations with their properties
and decorators, and the lookup object with its type. So the unit is read back from it, with each of its members under the
name that the member's key is read as (`readDeclaredUnit?_module`). -/

namespace ResponseShapes

open Syntax Declaration

variable {docs : Documentation} {s : Source} {name lookup : String} {members : Entries String} {p : Property}
  {es : List Entry} {ps : List Property}

/-! ### Joined texts -/

theorem toList_intercalate_cons (separator x : String) (xs : List String) :
    (String.intercalate separator (x :: xs)).toList = x.toList ++ xs.flatMap fun y => separator.toList ++ y.toList := by
  induction xs generalizing x with
  | nil => rw [String.intercalate_singleton, List.flatMap_nil, List.append_nil]
  | cons y ys ih =>
    rw [String.intercalate_cons_cons, String.toList_append, String.toList_append, ih, List.flatMap_cons, List.append_assoc,
      List.append_assoc]

/-- What stands between items may be counted to the one in front or to the one behind. -/
theorem append_flatMap_comm {α : Type} (xs : List α) (separator : List Char) (f : α → List Char) :
    (separator ++ xs.flatMap fun x => f x ++ separator) = (xs.flatMap fun x => separator ++ f x) ++ separator := by
  induction xs with
  | nil => rw [List.flatMap_nil, List.flatMap_nil, List.append_nil, List.nil_append]
  | cons x xs ih => rw [List.flatMap_cons, List.flatMap_cons, List.append_assoc, ih, List.append_assoc, List.append_assoc]

/-! ### Properties -/

namespace Syntax.Entry

/-- The property as it is written. -/
def text (e : Entry) : String :=
  String.ofList (e.written [])

/-- An option of a decorator. -/
def option (key value : String) (valueKind : Kind) : Entry :=
  { key := key.toList, keyKind := .propertyIdentifier, value := value.toList, valueKind }

theorem text_option (key value : String) (kind : Kind) : (option key value kind).text = key ++ ": " ++ value := by
  rw [← String.toList_inj, text, String.toList_ofList, String.toList_append, String.toList_append, List.append_assoc]
  rfl

/-- The option of properties that are lists. -/
def list : Entry :=
  option "isArray" "true" .true

/-- The option for the type of a single value. -/
def word (k : Primitive) : Entry :=
  option "type" ("'" ++ k.word ++ "'") .string

end Syntax.Entry

/-- The kind of node that a sample is as a value. -/
def Sample.kind : Sample → Kind
  | text _ => .string
  | number _ => .number
  | truth => .true

/-- The options that document a plain property. -/
def plainEntries (name : String) : Shape → List Entry
  | .primitive k => [.option "example" (Sample.of name k).literal (Sample.of name k).kind, .word k]
  | .array (.primitive k) => [.word k, .list]
  | .array _ => [.list]
  | _ => []

theorem map_text_plainEntries (name : String) (shape : Shape) :
    (plainEntries name shape).map Entry.text = Documentation.plainOptions name shape := by
  have hexample : "example" ++ ": " = "example: " := by decide
  have hword : ∀ k : Primitive, "type" ++ ": " ++ ("'" ++ k.word ++ "'") = "type: '" ++ k.word ++ "'" := by
    rintro (_ | _ | _) <;> decide
  have hlist : "isArray" ++ ": " ++ "true" = "isArray: true" := by decide
  unfold plainEntries Documentation.plainOptions
  split <;> simp only [List.map_cons, List.map_nil, Entry.word, Entry.list, Entry.text_option, hexample, hword, hlist]

/-- The type of the elements that a list has at last. -/
def Shape.elementText : Shape → String
  | .array e => e.elementText
  | shape => shape.typeText

/-- How many lists are inside each other. -/
def Shape.depth : Shape → Nat
  | .array e => e.depth + 1
  | _ => 0

theorem brackets_concat (k : Nat) : brackets (k + 1) = brackets k ++ "[]".toList := by
  rw [brackets, List.replicate_succ', List.flatten_concat, brackets]

theorem Shape.toList_typeText : ∀ shape : Shape, shape.typeText.toList = shape.elementText.toList ++ brackets shape.depth
  | .array e => by rw [typeText, elementText, depth, brackets_concat, String.toList_append, toList_typeText e, List.append_assoc]
  | .primitive _ | .object _ | .unknown => (List.append_nil _).symm

namespace Property

/-- The options of the decorator. -/
def entries (p : Property) : List Entry :=
  match p.type with
  | .plain shape => plainEntries p.name shape
  | .reference declaration inList => .option "type" declaration .identifier :: if inList then [.list] else []

/-- The type of the field, and how many lists are around it. -/
def typeParts (p : Property) : String × Nat :=
  match p.type with
  | .plain shape => (shape.elementText, shape.depth)
  | .reference declaration inList => (declaration, if inList then 1 else 0)

/-- The field. -/
def field (p : Property) : Field :=
  { key := (propertyKey p.name).toList, keyKind := keyKind p.name, type := p.typeParts.1.toList, depth := p.typeParts.2 }

/-- The field with its decorator, behind blanks and comments. -/
def decorated (lead : List Char) (p : Property) : DecoratedField :=
  { gap := lead ++ "  ".toList, options := p.entries, field := p.field }

end Property

theorem toList_decorated (docs : Documentation) (es : List Entry) :
    (docs.decorated (es.map Entry.text)).toList = decorationText docs.propertyDecorator.toList es := by
  cases es with
  | nil => rw [List.map_nil, Documentation.decorated, List.isEmpty_nil, if_pos rfl, String.toList_append, String.toList_append,
      List.append_assoc]; rfl
  | cons e es =>
    have hes : (es.map Entry.text).flatMap (fun y => ", ".toList ++ y.toList) =
        es.flatMap fun e => ",".toList ++ e.written " ".toList := by
      rw [List.flatMap_map]
      exact congrArg (List.flatMap · es) (funext fun e => congrArg _ String.toList_ofList)
    rw [List.map_cons, Documentation.decorated, List.isEmpty_cons, if_neg Bool.false_ne_true]
    simp only [String.toList_append, toList_intercalate_cons, hes, decorationText, argumentText, objectText, Entry.text,
      String.toList_ofList, Entry.written, List.append_assoc, List.append_nil, List.nil_append]
    rfl

theorem property_eq (docs : Documentation) (p : Property) :
    docs.property p = "  " ++ docs.decorated (p.entries.map Entry.text) ++ "\n  " ++ propertyKey p.name ++ ": " ++
      String.ofList (p.typeParts.1.toList ++ brackets p.typeParts.2) ++ ";" := by
  obtain ⟨name, shape | ⟨declaration, inList⟩⟩ := p
  · simp only [Property.entries, Property.typeParts, map_text_plainEntries, ← Shape.toList_typeText, String.ofList_toList]
    rfl
  · have hclass : (Entry.option "type" declaration .identifier).text = "type: " ++ declaration := Entry.text_option _ _ _
    have hlist : Entry.list.text = "isArray: true" := Entry.text_option _ _ _
    have htype : String.ofList (declaration.toList ++ brackets (if inList then 1 else 0)) =
        declaration ++ if inList then "[]" else "" := by
      rw [← String.toList_inj, String.toList_ofList, String.toList_append]
      cases inList <;> rfl
    have hoptions : (if inList then [Entry.list] else []).map Entry.text = if inList then ["isArray: true"] else [] := by
      cases inList
      · rfl
      · exact congrArg (fun x => [x]) hlist
    simp only [Property.entries, Property.typeParts, List.map_cons, hclass, htype, hoptions]
    rfl

theorem toList_property (docs : Documentation) (lead : List Char) (p : Property) :
    lead ++ (docs.property p).toList = (p.decorated lead).written docs.propertyDecorator.toList := by
  rw [property_eq]
  simp only [String.toList_append, String.toList_ofList, toList_decorated, DecoratedField.written, Property.decorated,
    Property.field, Field.written, List.append_assoc]
  rfl

/-! ### What is written is well formed -/

/-- A module can be read that documents its properties so: the decorator is a word, and neither the module of the
    decorators nor the name in the comment on lists ends before its end. -/
structure Documentation.Legible (docs : Documentation) : Prop where
  decorator : IsWord docs.propertyDecorator.toList
  module : ∀ c ∈ docs.module.toList, isBare '\x27' c = true
  comment : ∀ c ∈ docs.okDecorator.toList, isLineBreak c = false ∧ c ≠ '\r'

namespace Declaration

/-- The properties of a class. -/
def properties : Declaration → List Property
  | record _ ps => ps
  | value _ shape => [{ name := "value", type := .plain shape }]
  | list _ _ => []

/-- A declaration can be read whose names are names and whose keys without quotes do not end with a line feed. -/
structure Legible (d : Declaration) : Prop where
  name : IsName d.name.toList
  references : ∀ r ∈ d.references, IsName r.toList
  keys : ∀ p ∈ d.properties, StaysInLine p.name

end Declaration

theorem proper_option {key value : String} {kind : Kind} (hkey : IsWord key.toList) (h : IsSimple value.toList kind) :
    (Entry.option key value kind).Proper :=
  ⟨.word hkey, h⟩

theorem isSimple_literal (name : String) (k : Primitive) : IsSimple (Sample.of name k).literal.toList (Sample.of name k).kind := by
  cases k with
  | string => exact .string (isString_jsonString _)
  | number =>
    rw [Sample.of]
    split
    · exact .digit (.inr rfl)
    · exact .digit (.inl rfl)
  | boolean => exact .truth rfl

theorem proper_word (k : Primitive) : (Entry.word k).Proper := by
  refine proper_option (isWord_of_all (by decide) (by decide)) (.string ?_)
  have hbare : ∀ c ∈ k.word.toList, isBare '\x27' c = true := by cases k <;> exact List.all_iff_forall_prop.mp rfl
  rw [String.toList_append, String.toList_append]
  exact isString_of_skipped (.inl rfl) (skipped_of_isBare hbare)

theorem proper_list : Entry.list.Proper :=
  proper_option (isWord_of_all (by decide) (by decide)) (.truth rfl)

theorem proper_plainEntries (name : String) (shape : Shape) : ∀ e ∈ plainEntries name shape, e.Proper := by
  have hexample : IsWord "example".toList := isWord_of_all (by decide) (by decide)
  have hone : ∀ e ∈ [Entry.list], e.Proper := List.forall_mem_singleton.mpr proper_list
  unfold plainEntries
  split
  · exact List.forall_mem_cons.mpr ⟨proper_option hexample (isSimple_literal _ _), List.forall_mem_singleton.mpr (proper_word _)⟩
  · exact List.forall_mem_cons.mpr ⟨proper_word _, hone⟩
  · exact hone
  · exact List.forall_mem_nil _

theorem proper_entries (h : ∀ r ∈ p.references, IsName r.toList) : ∀ e ∈ p.entries, e.Proper := by
  obtain ⟨name, shape | ⟨declaration, inList⟩⟩ := p
  · exact proper_plainEntries name shape
  · have hclass : (Entry.option "type" declaration .identifier).Proper :=
      proper_option isWord_type (.name (h declaration (List.mem_singleton_self declaration)))
    refine List.forall_mem_cons.mpr ⟨hclass, ?_⟩
    cases inList
    · exact List.forall_mem_nil _
    · exact List.forall_mem_singleton.mpr proper_list

theorem isTypeName_elementText : ∀ shape : Shape, IsTypeName shape.elementText.toList
  | .array e => isTypeName_elementText e
  | .primitive k => ⟨by cases k <;> exact isWord_of_all (by decide) (by decide), .inl (by cases k <;> decide)⟩
  | .object _ => (⟨isWord_of_all (by decide) (by decide), .inl (by decide)⟩ : IsTypeName "object".toList)
  | .unknown => (⟨isWord_of_all (by decide) (by decide), .inl (by decide)⟩ : IsTypeName "any".toList)

theorem proper_field (h : ∀ r ∈ p.references, IsName r.toList) (hkey : StaysInLine p.name) : p.field.Proper := by
  refine ⟨isKey_propertyKey hkey, ?_⟩
  obtain ⟨name, shape | ⟨declaration, inList⟩⟩ := p
  · exact isTypeName_elementText shape
  · exact (h declaration (List.mem_singleton_self declaration)).isTypeName

theorem proper_decorated {lead : List Char} (hlead : IsGap (lead ++ "  ".toList)) (h : ∀ r ∈ p.references, IsName r.toList)
    (hkey : StaysInLine p.name) : (p.decorated lead).Proper :=
  ⟨hlead, proper_entries h, proper_field h hkey⟩

/-! ### Declarations -/

/-- What is written between two declarations. -/
def blankLine : List Char :=
  "\n\n".toList

theorem isGap_blankLine : IsGap blankLine :=
  isGap_blanks (by decide)

/-- The body of a class behind its properties, the first of which stands behind other blanks than the rest. -/
theorem flatMap_property (docs : Documentation) (ps : List Property) :
    (ps.map docs.property).flatMap (fun y => "\n\n".toList ++ y.toList) =
      (ps.map (Property.decorated blankLine)).flatMap (DecoratedField.written docs.propertyDecorator.toList) := by
  rw [List.flatMap_map, List.flatMap_map]
  exact congrArg (List.flatMap · ps) (funext fun p => toList_property docs blankLine p)

theorem toList_exported (name : String) (w : String) (tail : List Char) :
    ("export " ++ w ++ " " ++ name).toList ++ tail = exportText w name.toList tail := by
  have hexport : "export ".toList = "export".toList ++ " ".toList := by decide
  simp only [String.toList_append, List.append_assoc, hexport]
  rfl

section Blocks

variable (docs : Documentation) (name item : String) (shape : Shape)

theorem block_record (p : Property) (ps : List Property) : docs.block (.record name (p :: ps)) =
    "export class " ++ name ++ " \x7b\n" ++ String.intercalate "\n\n" (docs.property p :: ps.map docs.property) ++ "\n\x7d" := rfl

theorem block_value : docs.block (.value name shape) = "export class " ++ name ++ " \x7b\n" ++
    (if shape.isUnknown then "  // Return type could not be inferred\n" else "") ++
      docs.property { name := "value", type := .plain shape } ++ "\n\x7d" := rfl

theorem block_list : docs.block (.list name item) = "// Use [" ++ item ++ "] in @" ++ docs.okDecorator ++
    " for array responses\n" ++ "export const " ++ name ++ " = " ++ item ++ ";\n" ++
      "export type " ++ name ++ " = " ++ item ++ ";" := rfl

end Blocks

theorem toList_class : "export class ".toList = ("export " ++ "class" ++ " ").toList := by
  decide

theorem toList_opening : " \x7b\n".toList = " ".toList ++ ("\x7b".toList ++ "\n".toList) := by
  decide

theorem toList_closing : "\n\x7d".toList = "\n".toList ++ "\x7d".toList := by
  decide

theorem toList_record (docs : Documentation) (name : String) (p : Property) (ps : List Property) :
    (docs.block (.record name (p :: ps))).toList = exportText "class" name.toList (" ".toList ++
      bodyText docs.propertyDecorator.toList (p.decorated "\n".toList :: ps.map (Property.decorated blankLine)) "\n".toList) := by
  rw [← toList_exported, bodyText, List.flatMap_cons, ← toList_property docs "\n".toList p, ← flatMap_property, block_record]
  simp only [String.toList_append, toList_intercalate_cons, List.append_assoc, toList_class, toList_opening, toList_closing]

/-- The comment above a value that nothing is known of. -/
def unknownComment : List Char :=
  "  // Return type could not be inferred\n".toList

theorem toList_value (docs : Documentation) (name : String) (shape : Shape) :
    (docs.block (.value name shape)).toList = exportText "class" name.toList (" ".toList ++
      bodyText docs.propertyDecorator.toList [({ name := "value", type := .plain shape } : Property).decorated
        ("\n".toList ++ if shape.isUnknown then unknownComment else [])] "\n".toList) := by
  have hcomment : (if shape.isUnknown then "  // Return type could not be inferred\n" else "").toList =
      if shape.isUnknown then unknownComment else [] := by
    cases shape.isUnknown <;> rfl
  rw [← toList_exported, bodyText, List.flatMap_singleton, ← toList_property, block_value]
  simp only [String.toList_append, List.append_assoc, toList_class, toList_opening, toList_closing, hcomment]

/-- The comment above a list. -/
def listComment (docs : Documentation) (item : String) : List Char :=
  (" Use [" ++ item ++ "] in @" ++ docs.okDecorator ++ " for array responses").toList

theorem toList_list (docs : Documentation) (name item : String) :
    (docs.block (.list name item)).toList = ('/' :: '/' :: listComment docs item ++ '\n' :: []) ++
      exportText "const" name.toList (givenText item.toList) ++
        ("\n".toList ++ exportText "type" name.toList (givenText item.toList)) := by
  have hcomment : "// Use [".toList = '/' :: '/' :: " Use [".toList := by decide
  have hend : " for array responses\n".toList = " for array responses".toList ++ ['\n'] := by decide
  have hconst : "export const ".toList = ("export " ++ "const" ++ " ").toList := by decide
  have htype : "export type ".toList = ("export " ++ "type" ++ " ").toList := by decide
  have hgiven : " = ".toList = " ".toList ++ ("=".toList ++ " ".toList) := by decide
  have hsemicolon : ";\n".toList = ";".toList ++ "\n".toList := by decide
  rw [← toList_exported, ← toList_exported, block_list, listComment, givenText]
  simp only [String.toList_append, List.append_assoc, List.cons_append, List.nil_append, hcomment, hend, hconst, htype, hgiven,
    hsemicolon]

theorem precedes_record (hdocs : docs.Legible) (hname : IsName name.toList) (hreferences : ∀ p ∈ ps, ∀ r ∈ p.references, IsName r.toList)
    (hkeys : ∀ p ∈ ps, StaysInLine p.name) :
    Precedes s lookup members (blankLine ++ (docs.block (.record name ps)).toList) := by
  cases ps with
  | nil =>
    have htext : (docs.block (.record name [])).toList =
        exportText "class" name.toList (" ".toList ++ bodyText docs.propertyDecorator.toList [] []) := by
      rw [← toList_exported]
      change ("export class " ++ name ++ " \x7b\x7d").toList = _
      simp only [String.toList_append, List.append_assoc, toList_class]
      rfl
    rw [htext]
    exact precedes_class isGap_blankLine hname hdocs.decorator (List.forall_mem_nil _) rfl
  | cons p ps =>
    obtain ⟨hreference, hreferences⟩ := List.forall_mem_cons.mp hreferences
    obtain ⟨hkey, hkeys⟩ := List.forall_mem_cons.mp hkeys
    rw [toList_record]
    refine precedes_class isGap_blankLine hname hdocs.decorator (List.forall_mem_cons.mpr ⟨?_, fun m hm => ?_⟩) (by decide)
    · exact proper_decorated (isGap_blanks (by decide)) hreference hkey
    · obtain ⟨p, hp, rfl⟩ := List.mem_map.mp hm
      exact proper_decorated (isGap_blanks (by decide)) (hreferences p hp) (hkeys p hp)

theorem precedes_value (hdocs : docs.Legible) (hname : IsName name.toList) (shape : Shape) :
    Precedes s lookup members (blankLine ++ (docs.block (.value name shape)).toList) := by
  have hlead : IsGap (("\n".toList ++ if shape.isUnknown then unknownComment else []) ++ "  ".toList) := by
    cases shape.isUnknown with
    | false => exact isGap_blanks (by decide)
    | true =>
      have hbody : ∀ c ∈ " Return type could not be inferred".toList, isLineBreak c = false ∧ c ≠ '\r' :=
        List.all_iff_forall_prop.mp rfl
      have hcomment := isGap_comment hbody (isGap_blanks (show "  ".toList.all isSpace = true by decide))
      have htext : ("\n".toList ++ unknownComment) ++ "  ".toList =
          "\n  ".toList ++ ('/' :: '/' :: " Return type could not be inferred".toList ++ '\n' :: "  ".toList) := by decide
      rw [if_pos rfl, htext]
      exact hcomment.behind (by decide)
  have hkey : StaysInLine "value" := fun _ => by decide
  rw [toList_value]
  exact precedes_class isGap_blankLine hname hdocs.decorator
    (List.forall_mem_singleton.mpr (proper_decorated hlead (List.forall_mem_nil _) hkey)) (by decide)

theorem breaks_no_line {w : List Char} (h : IsWord w) : ∀ c ∈ w, isLineBreak c = false ∧ c ≠ '\r' := fun c hc => by
  have hspace := h.forall_mem c hc
  refine ⟨isLineBreak_eq_false hspace, ?_⟩
  rintro rfl
  exact absurd hspace (by decide)

theorem precedes_list {item : String} (hdocs : docs.Legible) (hname : IsName name.toList) (hitem : IsName item.toList) :
    Precedes s lookup members (blankLine ++ (docs.block (.list name item)).toList) := by
  have hcomment : ∀ c ∈ listComment docs item, isLineBreak c = false ∧ c ≠ '\r' := by
    have hopening : ∀ c ∈ " Use [".toList, isLineBreak c = false ∧ c ≠ '\r' :=
      List.all_iff_forall_prop.mp rfl
    have hmiddle : ∀ c ∈ "] in @".toList, isLineBreak c = false ∧ c ≠ '\r' :=
      List.all_iff_forall_prop.mp rfl
    have hclosing : ∀ c ∈ " for array responses".toList, isLineBreak c = false ∧ c ≠ '\r' :=
      List.all_iff_forall_prop.mp rfl
    simp only [listComment, String.toList_append, List.forall_mem_append]
    exact ⟨⟨⟨⟨hopening, breaks_no_line hitem.word⟩, hmiddle⟩, hdocs.comment⟩, hclosing⟩
  have hgap : IsGap (blankLine ++ ('/' :: '/' :: listComment docs item ++ '\n' :: [])) :=
    (isGap_comment hcomment (isGap_blanks rfl)).behind (by decide)
  have htext : blankLine ++ (docs.block (.list name item)).toList =
      ((blankLine ++ ('/' :: '/' :: listComment docs item ++ '\n' :: [])) ++ exportText "const" name.toList (givenText item.toList)) ++
        ("\n".toList ++ exportText "type" name.toList (givenText item.toList)) := by
    rw [toList_list]
    simp only [List.append_assoc]
  have htype : ∀ k rest, Reads s.text (Grammar.read (k + 8) .type) true (" ".toList ++ item.toList) (';' :: rest) () fun _ => True :=
    fun k rest => (Reads.typeName (by decide) hitem.isTypeName 0).of_eq (List.append_nil _).symm
  rw [htext]
  exact (precedes_constant hgap hname hitem).append (precedes_type (isGap_blanks (by decide)) hname.word htype)

theorem precedes_block {d : Declaration} (hdocs : docs.Legible) (hd : d.Legible) :
    Precedes s lookup members (blankLine ++ (docs.block d).toList) := by
  obtain ⟨hname, hreferences, hkeys⟩ := hd
  cases d with
  | record name ps =>
    exact precedes_record hdocs hname (fun p hp r hr => hreferences r (List.mem_flatMap.mpr ⟨p, hp, hr⟩)) hkeys
  | value name shape => exact precedes_value hdocs hname shape
  | list name item => exact precedes_list hdocs hname (hreferences item (List.mem_singleton_self item))

/-! ### The lookup object -/

/-- A member as a property of the lookup object. -/
def Member.entry (m : Member) : Entry :=
  { key := (propertyKey m.name).toList, keyKind := keyKind m.name, value := m.declaration.toList, valueKind := .identifier }

/-- What a reader takes a member for. -/
theorem member_entry (m : Member) : m.entry.member = (reread m.name, m.declaration) := by
  rw [Entry.member, Member.entry, keyKind, propertyKey, reread]
  dsimp only
  rw [String.ofList_toList]
  split
  · rw [if_neg (by decide), String.ofList_toList]
  · rw [if_pos rfl]

/-- The lookup object. -/
def lookupObject (m : Member) (ms : List Member) : List Char :=
  objectText "\n  ".toList ",".toList "\n".toList m.entry (ms.map Member.entry) ++ " as const".toList

theorem reads_lookupObject {m : Member} {ms : List Member} (h : ∀ m' ∈ m :: ms, m'.entry.Proper) (k : Nat) (rest : List Char) :
    Reads s.text (Grammar.read (k + 8) .expression) true (" ".toList ++ lookupObject m ms) (';' :: rest) ()
      (One (IsConstant s.text (IsConstruct .object fun ns =>
        List.Forall₂ (Entry.Means s.text) ((m :: ms).map Member.entry) ns.reverse))) := by
  have hproper : ∀ e ∈ m.entry :: ms.map Member.entry, e.Proper := by
    rw [← List.map_cons, List.forall_mem_map]
    exact h
  have hskips : ∃ front, Skips (" ".toList ++ objectText "\n  ".toList ",".toList "\n".toList m.entry (ms.map Member.entry) ++
      (" as const".toList ++ ';' :: rest)) ("\x7b".toList ++ front) := by
    rw [objectText, List.append_assoc, List.append_assoc]
    exact ⟨_, (isGap_blanks (by decide)).skips (solid_cons (by decide) (by decide) _)⟩
  obtain ⟨front, hskips⟩ := hskips
  refine (Reads.constant (n := k + 5) (.object (n := k + 2) (by decide) (by decide) (by decide) hproper (.inr rfl)) hskips).of_eq ?_
  rw [lookupObject, List.append_assoc]

theorem toList_lookupObject (m : Member) (ms : List Member) : ("\x7b\n" ++ String.intercalate "\n"
      ((m :: ms).map fun m => "  " ++ propertyKey m.name ++ ": " ++ m.declaration ++ ",") ++ "\n\x7d as const").toList =
    lookupObject m ms := by
  have hopening : "\x7b\n".toList = "\x7b".toList ++ "\n".toList := by decide
  have hclosing : "\n\x7d as const".toList = "\n".toList ++ ("\x7d".toList ++ " as const".toList) := by decide
  have hentry : ∀ m : Member, "\n".toList ++ ("  " ++ propertyKey m.name ++ ": " ++ m.declaration ++ ",").toList =
      m.entry.written "\n  ".toList ++ ",".toList := fun m => by
    have hlead : "\n  ".toList = "\n".toList ++ "  ".toList := by decide
    have hcolon : ": ".toList = ":".toList ++ " ".toList := by decide
    simp only [Entry.written, Member.entry, String.toList_append, List.append_assoc, hlead, hcolon]
  have hshift := append_flatMap_comm ms ",".toList fun m => m.entry.written "\n  ".toList
  rw [String.toList_append, String.toList_append, List.map_cons, toList_intercalate_cons, List.flatMap_map, hopening, hclosing,
    List.append_assoc, List.append_assoc, ← List.append_assoc "\n".toList, ← List.append_assoc "\n".toList, hentry]
  simp only [hentry]
  rw [List.append_assoc (m.entry.written _), hshift]
  simp only [lookupObject, objectText, List.flatMap_map, List.append_assoc]

theorem lookupText_eq (lookup : String) (members : List Member) : lookupText lookup members =
    "export const " ++ lookup ++ " = \x7b\n" ++ String.intercalate "\n"
      (members.map fun m => "  " ++ propertyKey m.name ++ ": " ++ m.declaration ++ ",") ++ "\n\x7d as const;\n\n" ++
        "export type " ++ Naming.lookupType lookup ++ " = typeof " ++ lookup ++ ";" := rfl

theorem toList_lookup (lookup : String) (m : Member) (ms : List Member) : (lookupText lookup (m :: ms)).toList =
    exportText "const" lookup.toList (givenText (lookupObject m ms)) ++ (blankLine ++
      exportText "type" (Naming.lookupType lookup).toList (givenText ("typeof".toList ++ (" ".toList ++ lookup.toList)))) := by
  have hconst : "export const ".toList = ("export " ++ "const" ++ " ").toList := by decide
  have htype : "export type ".toList = ("export " ++ "type" ++ " ").toList := by decide
  have hgiven : " = \x7b\n".toList = " ".toList ++ ("=".toList ++ (" ".toList ++ "\x7b\n".toList)) := by decide
  have hend : "\n\x7d as const;\n\n".toList = "\n\x7d as const".toList ++ (";".toList ++ blankLine) := by decide
  have htypeof : " = typeof ".toList = " ".toList ++ ("=".toList ++ (" ".toList ++ ("typeof".toList ++ " ".toList))) := by decide
  rw [← toList_exported, ← toList_exported, ← toList_lookupObject, lookupText_eq]
  simp only [givenText, String.toList_append, List.append_assoc, hconst, htype, hgiven, hend, htypeof]

theorem toList_import (docs : Documentation) :
    ("import \x7b " ++ docs.propertyDecorator ++ " \x7d from '" ++ docs.module ++ "';").toList =
      importText docs.propertyDecorator.toList ('\x27' :: docs.module.toList ++ ['\x27']) := by
  have hopening : "import \x7b ".toList = "import".toList ++ (" ".toList ++ ("\x7b".toList ++ " ".toList)) := by decide
  have hfrom : " \x7d from '".toList = " ".toList ++ ("\x7d".toList ++ (" ".toList ++ ("from".toList ++ (" ".toList ++ ['\x27'])))) := by
    decide
  have hclosing : "';".toList = ['\x27'] ++ ";".toList := by decide
  simp only [importText, listText, sourceText, String.toList_append, List.append_assoc, hopening, hfrom, hclosing,
    List.cons_append, List.nil_append]

theorem toList_module (docs : Documentation) (lookup : String) (members : List Member) {ds : List Declaration} (hds : ds ≠ []) :
    (moduleText docs lookup members ds).toList = ((banner.toList ++ "\n".toList) ++
      importText docs.propertyDecorator.toList ('\x27' :: docs.module.toList ++ ['\x27'])) ++
        (ds.flatMap fun d => blankLine ++ (docs.block d).toList) ++ (blankLine ++ (lookupText lookup members).toList) ++
          "\n".toList := by
  obtain ⟨d, ds, rfl⟩ := List.exists_cons_of_ne_nil hds
  have hblank : blankLine = "\n".toList ++ "\n".toList := by decide
  have hseparator : "\n\n".toList = "\n".toList ++ "\n".toList := by decide
  rw [moduleText, ← toList_import, String.toList_append, toList_intercalate_cons]
  simp only [List.flatMap_cons, List.flatMap_nil, List.map_cons, toList_intercalate_cons, List.flatMap_map, String.toList_empty,
    List.append_assoc, List.append_nil, hblank, hseparator]

/-! ### Modules -/

/-- Whether the name is a word of word characters that means nothing else. -/
def isPlainName (name : String) : Bool :=
  match name.toList with
  | [] => false
  | c :: cs => isWordStart c && cs.all isWordPart && !specialWords.contains name

theorem isName_of_isPlainName (h : isPlainName name = true) : IsName name.toList := by
  unfold isPlainName at h
  split at h
  · cases h
  · rename_i c cs hname
    simp only [Bool.and_eq_true, Bool.not_eq_true'] at h
    refine ⟨hname ▸ isWord_of_all h.1.1 h.1.2, fun hmem => ?_⟩
    rw [String.ofList_toList] at hmem
    exact absurd (List.contains_iff_mem.mpr hmem) (Bool.not_eq_true _ ▸ h.2)

/-- The type of a lookup object is named by a word if the object is. -/
theorem isWord_lookupType (h : IsWord lookup.toList) : IsWord (Naming.lookupType lookup).toList := by
  rw [Naming.lookupType, String.toList_append]
  exact h.append_iff.mpr (.of_all (by decide))

/-- The module of a unit can be read: names are plain, and no key ends with a line feed. -/
structure LegibleUnit (naming : Naming) (unit : String) (members : List Member) : Prop where
  named : unit ≠ ""
  lookup : isPlainName (naming.lookup unit) = true
  names : ∀ d ∈ members.flatMap Member.blocks, isPlainName d.name = true
  keys : ∀ d ∈ members.flatMap Member.blocks, ∀ p ∈ d.properties, p.name.toList.getLast? ≠ some '\n'
  members : ∀ m ∈ members, ∀ c ∈ m.name.toList, isWordPart c = true

namespace LegibleUnit

variable {naming : Naming} {unit : String} {ms : List Member} {m : Member}

theorem block (h : LegibleUnit naming unit ms) {d : Declaration} (hd : d ∈ ms.flatMap Member.blocks) : d.Legible := by
  refine ⟨isName_of_isPlainName (h.names d hd), fun r hr => ?_, fun p hp _ => h.keys d hd p hp⟩
  obtain ⟨m, hm, hblocks⟩ := List.mem_flatMap.mp hd
  obtain ⟨e, he, rfl⟩ := (shapeBlocks_inOrder m.declaration m.shape).1.exists_of_mem hblocks hr
  exact isName_of_isPlainName (h.names e (List.mem_flatMap.mpr ⟨m, hm, he⟩))

theorem entry (h : LegibleUnit naming unit ms) (hm : m ∈ ms) : m.entry.Proper := by
  refine ⟨isKey_propertyKey (staysInLine_of_isWordPart (h.members m hm)), .name ?_⟩
  obtain ⟨d, hd, hname⟩ := List.mem_map.mp (shapeBlocks_inOrder m.declaration m.shape).2
  rw [Member.entry, ← hname]
  exact isName_of_isPlainName (h.names d (List.mem_flatMap.mpr ⟨m, hm, hd⟩))

end LegibleUnit

theorem stem?_append {suffix unit : String} (hsuffix : suffix ≠ "") (hunit : unit ≠ "") : stem? suffix (unit ++ suffix) = some unit := by
  have hends : Text.endsWith (unit ++ suffix) suffix = true := by
    rw [Text.endsWith, String.toList_append, List.isSuffixOf_iff_suffix]
    exact List.suffix_append _ _
  have hlength : decide ((unit ++ suffix).length = suffix.length) = false := decide_eq_false fun h => by
    have hpos : unit.length ≠ 0 := fun h => hunit (String.length_eq_zero_iff.mp h)
    rw [String.length_append] at h
    omega
  have hempty : suffix.isEmpty = false := by
    rw [← Bool.not_eq_true, String.isEmpty_iff]
    exact hsuffix
  have hstem : Text.dropEnd (unit ++ suffix) suffix.length = unit := by
    rw [Text.dropEnd, String.toList_append, List.length_append, String.length_toList, String.length_toList, Nat.add_sub_cancel,
      List.take_left' String.length_toList, String.ofList_toList]
  rw [stem?, hends, hlength, hempty, hstem]
  rfl

theorem exists_module {naming : Naming} {unit : String} {ms : List Member} {m : DeclarationModule}
    (hm : DeclarationModule.of? naming docs unit ms = some m) : ∃ first others, ms = first :: others ∧
      m.lookup = naming.lookup unit ∧ m.text = moduleText docs (naming.lookup unit) ms (ms.flatMap Member.blocks) := by
  cases ms with
  | nil => cases hm
  | cons first others =>
    rw [DeclarationModule.of?_eq _ _ _ (List.cons_ne_nil _ _)] at hm
    obtain rfl := (Option.some.inj hm).symm
    exact ⟨first, others, rfl, rfl, rfl⟩

/-- What stands in front of the lookup object. -/
def frontText (docs : Documentation) (ds : List Declaration) : List Char :=
  ((banner.toList ++ "\n".toList) ++ importText docs.propertyDecorator.toList ('\x27' :: docs.module.toList ++ ['\x27'])) ++
    ds.flatMap fun d => blankLine ++ (docs.block d).toList

theorem precedes_front {ds : List Declaration} (hdocs : docs.Legible) (hds : ∀ d ∈ ds, d.Legible) :
    Precedes s lookup members (frontText docs ds) := by
  have hgap : IsGap (banner.toList ++ "\n".toList) := by
    have hbody : ∀ c ∈ " Generated by shapegen. Do not edit by hand.".toList, isLineBreak c = false ∧ c ≠ '\r' :=
      List.all_iff_forall_prop.mp rfl
    exact isGap_comment hbody (isGap_blanks rfl)
  have hmodule : IsString ('\x27' :: docs.module.toList ++ ['\x27']) :=
    isString_of_skipped (.inl rfl) (skipped_of_isBare hdocs.module)
  exact (precedes_import hgap hdocs.decorator hmodule).append (.flatMap fun d hd => precedes_block hdocs (hds d hd))

/-- The lookup object and its type. -/
def backText (lookup : String) (m : Member) (ms : List Member) : List Char :=
  (blankLine ++ exportText "const" lookup.toList (givenText (lookupObject m ms))) ++
    ((blankLine ++ exportText "type" (Naming.lookupType lookup).toList
      (givenText ("typeof".toList ++ (" ".toList ++ lookup.toList)))) ++ [])

theorem repeats_back {m : Member} {ms : List Member} (hlookup : IsName lookup.toList) (h : ∀ m' ∈ m :: ms, m'.entry.Proper)
    (k : Nat) :
    Repeats s.text (Grammar.read (k + 9) .statement) true (backText lookup m ms) "\n".toList fun ns =>
      Ends s lookup (Entries.ofList ((m :: ms).map fun m => (reread m.name, m.declaration))) ns.reverse := by
  have hentries : ((m :: ms).map Member.entry).map Entry.member = (m :: ms).map fun m => (reread m.name, m.declaration) := by
    rw [List.map_map]
    exact List.map_congr_left fun m _ => member_entry m
  have hvalue : ∀ e ∈ (m :: ms).map Member.entry, e.valueKind = .identifier := List.forall_mem_map.mpr fun _ _ => rfl
  have hrepeats := repeats_lookup (s := s) isGap_blankLine isGap_blankLine hlookup
    (isWord_lookupType hlookup.word) (show "\n".toList.all isSpace = true by decide) k (reads_lookupObject h k) hvalue
  rwa [String.ofList_toList, hentries] at hrepeats

theorem toList_written (docs : Documentation) (lookup : String) (m : Member) (ms : List Member) {ds : List Declaration} (hds : ds ≠ []) :
    (moduleText docs lookup (m :: ms) ds).toList = (frontText docs ds ++ backText lookup m ms) ++ "\n".toList := by
  rw [toList_module docs _ _ hds, toList_lookup, frontText, backText]
  simp only [List.append_assoc, List.append_nil]

theorem toList_text {naming : Naming} {unit : String} {ms : List Member} {m : DeclarationModule}
    (hm : DeclarationModule.of? naming docs unit ms = some m) : ∃ first others, ms = first :: others ∧
      m.text.toList = (frontText docs (ms.flatMap Member.blocks) ++ backText (naming.lookup unit) first others) ++ "\n".toList := by
  obtain ⟨first, others, rfl, -, htext⟩ := exists_module hm
  have hsome : (first :: others).flatMap Member.blocks ≠ [] := by
    obtain ⟨d, hd, -⟩ := List.mem_map.mp (shapeBlocks_inOrder first.declaration first.shape).2
    exact List.ne_nil_of_mem (List.mem_flatMap.mpr ⟨first, List.mem_cons_self, hd⟩)
  refine ⟨first, others, rfl, ?_⟩
  rw [htext]
  exact toList_written docs (naming.lookup unit) first others hsome

/-- The module of a unit is read statement by statement up to its last line feed, if its names are names. -/
theorem exists_repeats {naming : Naming} {unit : String} {ms : List Member} {m : DeclarationModule}
    (hm : DeclarationModule.of? naming docs unit ms = some m) (hdocs : docs.Legible) (hlookup : IsName (naming.lookup unit).toList)
    (hblocks : ∀ d ∈ ms.flatMap Member.blocks, d.Legible) (hentries : ∀ m ∈ ms, m.entry.Proper) : ∃ cs, m.text.toList = cs ++ "\n".toList ∧
      dropInterpreterLine m.text.toList = m.text.toList ∧
      ∀ (s : Source) (k : Nat), Repeats s.text (Grammar.read (k + 9) .statement) true cs "\n".toList fun ns =>
        Ends s (naming.lookup unit) (Entries.ofList (ms.map fun m => (reread m.name, m.declaration))) ns.reverse := by
  obtain ⟨first, others, rfl, hpieces⟩ := toList_text hm
  refine ⟨_, hpieces, ?_, fun s k => precedes_front hdocs hblocks k _ _ (repeats_back hlookup hentries k)⟩
  rw [hpieces]
  rfl

/-- From the module of a unit the unit is read back, with every member under the name that its key is read as. -/
theorem readDeclaredUnit?_module [Recovery] {naming : Naming} {unit : String} {ms : List Member} {m : DeclarationModule}
    (hm : DeclarationModule.of? naming docs unit ms = some m) (hdocs : docs.Legible) (hsuffix : naming.responseSuffix ≠ "")
    (h : LegibleUnit naming unit ms) (path : Path) :
    readDeclaredUnit? naming.responseSuffix (Source.ofText m.text) path = some
      { unit, lookup := m.lookup, module := path, members := Entries.ofList (ms.map fun m => (reread m.name, m.declaration)) } := by
  obtain ⟨cs, hpieces, hline, hrepeats⟩ := exists_repeats hm hdocs (isName_of_isPlainName h.lookup) (fun d hd => h.block hd)
    fun m hm => h.entry hm
  obtain ⟨first, others, rfl, hlookup, -⟩ := exists_module hm
  have hends := ends_of_repeats hpieces hline (by decide) (hrepeats _)
  rw [hlookup]
  exact readDeclaredUnit?_of_ends hends (stem?_append hsuffix h.named) path

end ResponseShapes
