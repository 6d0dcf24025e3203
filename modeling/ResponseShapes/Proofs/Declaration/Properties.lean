import ResponseShapes.Proofs.Declaration.Identifiers
import ResponseShapes.Proofs.Shape.Distinct
import ResponseShapes.Proofs.Text.JsonString

/-! # No class repeats a property

The classes of a shape have the fields of its records as properties, each under a key. A key names the property that it
is made for (`keyNames_propertyKey`): as a word, or as the literal that denotes it. So keys are told apart by what they
name, and since no record in an inferred shape repeats a field, no class has two properties whose keys are the same or
name the same (`UnitAnalysis.properties_apart`). -/

namespace ResponseShapes

open Syntax Declaration Literal

/-! ### What keys name -/

/-- The key names the property with these units: a word without escapes names itself, and a literal what it denotes. -/
inductive KeyNames : List Char → List Nat → Prop
  | word {key : List Char} (isWord : IsWord key) (plain : '\\' ∉ key) : KeyNames key (key.flatMap Text.units)
  | literal {key : List Char} {us : List Nat} (denotes : Denotes .double key us) : KeyNames key us

section Keys

variable {key : List Char} {us us' : List Nat} {name : String}

theorem not_isWord_of_denotes (h : Denotes .double key us) : ¬IsWord key := by
  rintro hword
  obtain ⟨content, rfl, -⟩ := h
  obtain ⟨c, cs, hkey, hstart⟩ := hword.exists_cons
  obtain ⟨rfl, -⟩ := List.cons.inj hkey
  exact absurd hstart (by decide)

theorem KeyNames.unique (h : KeyNames key us) (h' : KeyNames key us') : us = us' := by
  cases h with
  | word hword =>
    cases h' with
    | word => rfl
    | literal hdenotes => exact absurd hword (not_isWord_of_denotes hdenotes)
  | literal hdenotes =>
    cases h' with
    | word hword => exact absurd hword (not_isWord_of_denotes hdenotes)
    | literal hdenotes' => exact hdenotes.unique hdenotes'

theorem keyNames_propertyKey (hline : StaysInLine name) :
    KeyNames (propertyKey name).toList (name.toList.flatMap Text.units) := by
  unfold propertyKey
  split
  · rename_i hplain
    exact .word (isWord_of_isPlainKey hplain (hline hplain)) (notMem_of_isPlainKey hplain)
  · exact .literal (Text.denotes_jsonString name)

/-- No literal can stand as a key without quotes. -/
theorem isPlainKey_jsonString (name : String) : isPlainKey (Text.jsonString name) = false := by
  rw [isPlainKey, Text.jsonString, String.toList_ofList]
  exact Bool.false_and _

theorem propertyKey_injective : Function.Injective propertyKey := by
  intro name other h
  unfold propertyKey at h
  split at h <;> split at h
  · exact h
  · rename_i hplain _
    rw [h, isPlainKey_jsonString] at hplain
    cases hplain
  · rename_i _ hplain
    rw [← h, isPlainKey_jsonString] at hplain
    cases hplain
  · exact Text.jsonString_injective h

end Keys

/-! ### The properties of classes -/

namespace Declaration

variable {shape : Shape}

theorem map_name_fieldsParts (parent : String) (fields : List (String × Shape)) :
    (fieldsParts parent fields).2.map Property.name = fields.map Prod.fst := by
  induction fields with
  | nil => rfl
  | cons f fields ih =>
    obtain ⟨field, shape⟩ := f
    rw [fieldsParts, List.map_cons, List.map_cons, ih, namedFieldParts, name_fieldParts]

theorem exists_of_mem_fieldsParts {parent : String} {fields : List (String × Shape)} {d : Declaration}
    (h : d ∈ (fieldsParts parent fields).1) : ∃ f ∈ fields, d ∈ (fieldParts parent f.1 f.2).1 := by
  induction fields with
  | nil => cases h
  | cons f fields ih =>
    obtain ⟨field, shape⟩ := f
    rcases List.mem_append.mp h with h | h
    · exact ⟨(field, shape), List.mem_cons_self, h⟩
    · obtain ⟨f', hf', hd⟩ := ih h
      exact ⟨f', List.mem_cons_of_mem _ hf', hd⟩

/-- The classes that a field needs are among those that its shape would need under a name of its own. -/
theorem fieldParts_subset (parent field : String) (shape : Shape) :
    (fieldParts parent field shape).1 ⊆ shapeBlocks (Naming.child parent field) shape := by
  rcases shape with kind | (kind | element | fields | _) | fields | _
  · exact List.nil_subset _
  · exact List.nil_subset _
  · exact List.nil_subset _
  · exact List.subset_append_left _ _
  · exact List.nil_subset _
  · exact List.Subset.refl _
  · exact List.nil_subset _

/-- If no record of a shape repeats a field, no class of the shape repeats a property. -/
theorem nodup_shapeBlocks (h : shape.Distinct) (name : String) :
    ∀ d ∈ shapeBlocks name shape, (d.properties.map Property.name).Nodup := by
  induction h generalizing name with
  | primitive kind => exact List.forall_mem_singleton.mpr (List.nodup_singleton _)
  | unknown => exact List.forall_mem_singleton.mpr (List.nodup_singleton _)
  | array _ ih => exact List.forall_mem_append.mpr ⟨ih _, List.forall_mem_singleton.mpr List.nodup_nil⟩
  | object hkeyed _ ih =>
    refine List.forall_mem_append.mpr ⟨fun d hd => ?_, List.forall_mem_singleton.mpr ?_⟩
    · obtain ⟨f, hf, hd⟩ := exists_of_mem_fieldsParts hd
      exact ih f hf _ d (fieldParts_subset name f.1 f.2 hd)
    · change ((fieldsParts _ _).2.map Property.name).Nodup
      rw [map_name_fieldsParts]
      exact hkeyed

/-- No two properties of the declaration have the same key. -/
def Apart (d : Declaration) : Prop :=
  d.properties.Pairwise fun p q => propertyKey p.name ≠ propertyKey q.name

theorem apart_of_nodup {d : Declaration} (h : (d.properties.map Property.name).Nodup) : d.Apart :=
  (List.pairwise_map.mp h).imp propertyKey_injective.ne

end Declaration

/-- Keys of two texts on one line each name two things. -/
theorem not_keyNames_of_ne {x y : String} {us : List Nat} (hx : StaysInLine x) (hy : StaysInLine y) (h : x ≠ y)
    (hus : KeyNames (propertyKey x).toList us) : ¬KeyNames (propertyKey y).toList us := by
  intro hus'
  have hunits := ((keyNames_propertyKey hx).unique hus).trans (hus'.unique (keyNames_propertyKey hy))
  exact h (String.toList_inj.mp (Text.flatMap_units_injective hunits))

/-- Shapes and the classes made from them are well formed. A record that is made of items has each of their names once,
    at its first place and with its last shape. No record in the shape of what a method returns repeats a field. In the
    module of a unit no class has two properties whose keys are the same; nor do two keys name the same, and each key
    names the field that its property is made for. -/
theorem UnitAnalysis.properties_apart [Recovery] (text : String) :
    (∀ items : List (String × Shape), ∃ fields : Entries Shape, Shape.ofItems items = .object fields ∧ fields.Keyed ∧
      fields.keys = (items.map Prod.fst).eraseDups ∧
      ∀ name, Entries.get? name fields = Entries.get? name items.reverse) ∧
    (∀ method : Method, (Shape.ofMethod (Source.ofText text) method).Distinct) ∧
    ∀ (conventions : Conventions) (docs : Documentation) (p : Path) (a : UnitAnalysis) (rows : List LogRow)
      (m : DeclarationModule), UnitAnalysis.ofSource? conventions (Source.ofText text) p = some (a, rows) →
      DeclarationModule.of? { responseSuffix := conventions.responseSuffix } docs a.unit a.members = some m →
      m.text = moduleText docs m.lookup a.members (a.members.flatMap Member.blocks) ∧
      ∀ d ∈ a.members.flatMap Member.blocks, d.Apart ∧ (Source.RecoveredSound text →
        d.properties.Pairwise (fun p q => ∀ us, KeyNames (propertyKey p.name).toList us →
          ¬KeyNames (propertyKey q.name).toList us) ∧
        ∀ property ∈ d.properties, KeyNames (propertyKey property.name).toList (property.name.toList.flatMap Text.units)) := by
  refine ⟨fun items => ⟨_, rfl, Entries.keyed_ofList items, Entries.keys_ofList items,
    fun name => Entries.get?_ofList name items⟩, Shape.distinct_ofMethod _, ?_⟩
  intro conventions docs p a rows m ha hm
  obtain ⟨-, -, -, hlookup, htext⟩ := exists_module hm
  refine ⟨hlookup ▸ htext, List.forall_mem_flatMap.mpr fun member hmember d hd => ?_⟩
  have hnames : (d.properties.map Property.name).Nodup := by
    obtain ⟨-, method, -, -, -, rfl⟩ := UnitAnalysis.exists_of_mem_members ha hmember
    exact nodup_shapeBlocks (Shape.distinct_ofMethod _ method) _ d hd
  refine ⟨apart_of_nodup hnames, fun hrecovered => ?_⟩
  have hs := Source.sound_ofText hrecovered
  obtain ⟨-, hfields⟩ := UnitAnalysis.named_of_mem_members hs ha hmember
  have hline : ∀ property ∈ d.properties, StaysInLine property.name :=
    forall_key_shapeBlocks (fun _ => by decide) member.declaration member.shape
      (fun x hx => (hfields x hx).staysInLine hs) d hd
  refine ⟨(List.pairwise_map.mp hnames).imp_of_mem fun {p q} hp hq hne us hus => ?_, fun property hproperty =>
    keyNames_propertyKey (hline property hproperty)⟩
  exact not_keyNames_of_ne (hline p hp) (hline q hq) hne hus

/-! ### Repeated fields -/

namespace Repeated

/-- A service whose method returns a record with repeated names. -/
def text : String :=
  "export class UsersService \x7b find() \x7b return \x7b a: 1, 'a-b': \x7b c: 2 \x7d, b: 'x', a: true, 'a-b': 0 \x7d; \x7d \x7d\n"

def analysis? (s : Source) : Option (UnitAnalysis × List LogRow) :=
  UnitAnalysis.ofSource? .standard s (Path.ofString "/project/src/users.service.ts")

def keys (a : UnitAnalysis) : List (List String) :=
  (a.members.flatMap Member.blocks).map fun d => d.properties.map fun p => propertyKey p.name

set_option maxRecDepth 8000 in
theorem exists_keys : ∃ s, Source.ofText? text = some s ∧
    (analysis? s).map (keys ∘ Prod.fst) = some [["a", "\x22a-b\x22", "b"]] :=
  Source.exists_of_spelled .piece _ (by decide +kernel)

theorem map_keys : (analysis? (Source.ofText text)).map (keys ∘ Prod.fst) = some [["a", "\x22a-b\x22", "b"]] := by
  obtain ⟨s, hs, hkeys⟩ := exists_keys
  rwa [Source.ofText, hs]

end Repeated

theorem UnitAnalysis.properties_apart_repeated : ∃ (a : UnitAnalysis) (rows : List LogRow) (m : DeclarationModule),
    Repeated.analysis? (Source.ofText Repeated.text) = some (a, rows) ∧
      DeclarationModule.of? { responseSuffix := Conventions.standard.responseSuffix } .standard a.unit a.members = some m ∧
      Repeated.keys a = [["a", "\x22a-b\x22", "b"]] ∧ ∀ d ∈ a.members.flatMap Member.blocks, d.Apart := by
  obtain ⟨⟨a, rows⟩, ha, hkeys⟩ := Option.map_eq_some_iff.mp Repeated.map_keys
  have hmembers : a.members ≠ [] := by
    intro hnil
    change Repeated.keys a = _ at hkeys
    rw [Repeated.keys, hnil] at hkeys
    cases hkeys
  have hm := DeclarationModule.of?_eq { responseSuffix := Conventions.standard.responseSuffix } .standard a.unit hmembers
  obtain ⟨-, -, hmodules⟩ := UnitAnalysis.properties_apart Repeated.text
  obtain ⟨-, hdeclarations⟩ := hmodules _ _ _ a rows _ ha hm
  exact ⟨a, rows, _, ha, hm, hkeys, fun d hd => (hdeclarations d hd).1⟩

end ResponseShapes
