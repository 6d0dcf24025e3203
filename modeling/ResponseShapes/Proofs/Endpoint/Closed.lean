import Mathlib.Data.String.Basic
import ResponseShapes.Proofs.Endpoint.Scanned
import ResponseShapes.Proofs.Marker.Bound

/-! # The wiring is closed

The imports, the blocks and the shorthands of the wiring are taken from the table on three ways. In the module of a table
that is made by scanning sources they fit together (`Wiring.Closed`): each endpoint with handlers has its one property and
its shorthand and no other one has either, and what the entries refer to is what the imports bring in. Each lookup object
has one import of its own, but nothing keeps its name from being one that comes in from the framework as well. -/

namespace ResponseShapes

open Syntax

/-- A text that stands twice between other ones is told by the whole. -/
theorem Text.eq_of_framed {first second third last x y : String}
    (h : first ++ x ++ second ++ third ++ x ++ last = first ++ y ++ second ++ third ++ y ++ last) : x = y := by
  have htext := congrArg String.toList h
  have hlength := congrArg List.length htext
  simp only [String.toList_append, List.length_append] at hlength
  simp only [String.toList_append, List.append_assoc, List.append_cancel_left_eq] at htext
  exact String.toList_inj.mp (List.append_inj htext (by omega)).1

namespace Wiring

variable {t : LookupTable} {key : String} {handlers : Entries Mapping} {d : DeclaredUnit}

/-- Each key has its own shorthand. -/
theorem shorthandText_injective {key key' : String} (h : shorthandText key = shorthandText key') : key = key' := by
  unfold shorthandText at h
  exact Text.eq_of_framed h

/-! ### Blocks -/

/-- Each endpoint of a table without double keys has its own handlers, in a block if there are any. -/
theorem blocksOf_eq (h : ∀ key e, (key, e) ∈ t.endpoints → e.key = key) :
    blocksOf t = (t.endpoints.filter fun e => !e.2.handlers.isEmpty).map fun e => (e.1, e.2.handlers) := by
  unfold blocksOf Entries.values
  rw [List.filter_map, List.map_map]
  refine List.map_congr_left fun e he => ?_
  exact Prod.ext (h e.1 e.2 (List.mem_filter.mp he).1) rfl

theorem mem_blocksOf_iff (h : ∀ key e, (key, e) ∈ t.endpoints → e.key = key) :
    (key, handlers) ∈ blocksOf t ↔ ∃ e, (key, e) ∈ t.endpoints ∧ e.handlers = handlers ∧ handlers ≠ [] := by
  rw [blocksOf_eq h, List.mem_map]
  constructor
  · rintro ⟨⟨key', e⟩, he, heq⟩
    obtain ⟨rfl, rfl⟩ := Prod.mk.inj heq
    obtain ⟨hmem, hhandlers⟩ := List.mem_filter.mp he
    exact ⟨e, hmem, rfl, by simpa using hhandlers⟩
  · rintro ⟨e, he, rfl, hhandlers⟩
    exact ⟨(key, e), List.mem_filter.mpr ⟨he, by simpa using hhandlers⟩, rfl⟩

/-- An endpoint without handlers has no block. -/
theorem key_notMem_blocksOf {e : EndpointUnit} (h : ∀ key e, (key, e) ∈ t.endpoints → e.key = key)
    (hkeyed : Entries.Keyed t.endpoints) (he : (key, e) ∈ t.endpoints) (hnil : e.handlers = []) :
    key ∉ Entries.keys (blocksOf t) := by
  intro hmem
  obtain ⟨⟨key, handlers⟩, hb, rfl⟩ := List.mem_map.mp hmem
  obtain ⟨e', he', rfl, hne⟩ := (mem_blocksOf_iff h).mp hb
  obtain rfl := Option.some.inj ((Entries.get?_of_mem hkeyed he).symm.trans (Entries.get?_of_mem hkeyed he'))
  exact hne hnil

/-! ### Imports -/

theorem mem_unitNames {name : String} : name ∈ unitNames t ↔
    ∃ key e handler m, (key, e) ∈ t.endpoints ∧ (handler, m) ∈ e.handlers ∧ m.unit = name := by
  simp only [unitNames, List.mem_eraseDups, List.mem_flatMap, Entries.values, List.mem_map]
  constructor
  · rintro ⟨_, ⟨⟨key, e⟩, he, rfl⟩, _, ⟨⟨handler, m⟩, hm, rfl⟩, rfl⟩
    exact ⟨key, e, handler, m, he, hm, rfl⟩
  · rintro ⟨key, e, handler, m, he, hm, rfl⟩
    exact ⟨e, ⟨(key, e), he, rfl⟩, m, ⟨(handler, m), hm, rfl⟩, rfl⟩

theorem pairwise_sortedNames (names : List String) : (sortedNames names).Pairwise (· < ·) := by
  have hsorted : (sortedNames names).Pairwise fun a b => (!decide (b < a)) = true := by
    refine List.pairwise_mergeSort (fun a b c hab hbc => ?_) (fun a b => ?_) _
    · simp only [Bool.not_eq_true', decide_eq_false_iff_not, not_lt] at hab hbc ⊢
      exact hab.trans hbc
    · simp only [Bool.or_eq_true, Bool.not_eq_true', decide_eq_false_iff_not, not_lt]
      exact le_total a b
  refine (hsorted.and (nodup_sortedNames names)).imp fun {a b} h => ?_
  simp only [Bool.not_eq_true', decide_eq_false_iff_not, not_lt] at h
  exact lt_of_le_of_ne h.1 h.2

theorem mem_referencedUnits : d ∈ referencedUnits t ↔ ∃ name ∈ unitNames t, t.unit? name = some d := by
  simp only [referencedUnits, List.mem_filterMap, List.mem_mergeSort]

/-- Declared units that have their own names are imported in the order of these. -/
theorem pairwise_referencedUnits (h : ∀ name d, t.unit? name = some d → d.unit = name) :
    ((referencedUnits t).map (·.unit)).Pairwise (· < ·) := by
  rw [List.pairwise_map]
  refine (pairwise_sortedNames _).filterMap _ fun name name' hlt d hd d' hd' => ?_
  rw [h name d hd, h name' d' hd']
  exact hlt

/-- Units with different lookup objects are imported under different names. -/
theorem nodup_imported (hnames : DeclaredUnit.OwnNames t.declared)
    (hlookups : (t.declared.map fun e => e.2.lookup).Nodup) : ((referencedUnits t).map (·.lookup)).Nodup := by
  refine List.Nodup.map_on (fun d hd d' hd' heq => ?_) ?_
  · obtain ⟨name, -, hd⟩ := mem_referencedUnits.mp hd
    obtain ⟨name', -, hd'⟩ := mem_referencedUnits.mp hd'
    exact (Prod.mk.inj (List.inj_on_of_nodup_map hlookups (Entries.mem_of_get? hd) (Entries.mem_of_get? hd') heq)).2
  · exact List.Nodup.of_map _ ((pairwise_referencedUnits fun _ _ hd => hnames.unit_eq hd).imp ne_of_lt)

theorem imports_ofTable (directory : String) (t : LookupTable) :
    (ofTable directory t).imports.map NameImport.name = (referencedUnits t).map (·.lookup) :=
  List.map_map

/-! ### A closed wiring -/

/-- The directory of the declarations as specifiers name it. -/
def base (directory : String) : String :=
  String.ofList (Text.dropEndWhile (· == '/') directory.toList)

/-- The names that the module uses of the framework. -/
def frameworkNames (docs : Documentation) : List String :=
  [docs.okDecorator, docs.createdDecorator, "ApiResponseOptions"]

/-- The imports of a module that refers to `units`: the names that each of them brings in, and from where. -/
def importsOf (docs : Documentation) (directory : String) (units : List DeclaredUnit) : List (List String × String) :=
  (frameworkNames docs, docs.module) :: units.map fun d => ([d.lookup], base directory ++ "/" ++ Naming.specifier d.unit)

/-- The text is that of a module which imports the lookup objects of `units` and configures `blocks`, and these fit
    together and to the table. -/
structure Closed (docs : Documentation) (directory : String) (t : LookupTable) (units : List DeclaredUnit)
    (blocks : List (String × Entries Mapping)) (text : String) : Prop where
  text_eq : text = String.intercalate "\n" (banner ::
    (importsOf docs directory units).map (fun i => importText i.1 i.2) ++ bodyLines docs blocks) ++ "\n"
  /-- There are no other imports. -/
  body : ∀ line ∈ banner :: bodyLines docs blocks, ¬"import".toList <+: line.toList
  /-- Every unit that a mapping refers to is declared. -/
  declared : ∀ name ∈ unitNames t, ∃ d, t.unit? name = some d ∧ d.unit = name
  /-- Each endpoint with handlers has one block, which holds its handlers. -/
  blocks_eq : blocks = (t.endpoints.filter fun e => !e.2.handlers.isEmpty).map fun e => (e.1, e.2.handlers)
  /-- No two blocks are written under one key. -/
  keys : (blocks.map fun b => propertyKey b.1).Nodup
  /-- In a block no two handlers are written under one key. -/
  handlers : ∀ key handlers, (key, handlers) ∈ blocks → (handlers.map fun e => propertyKey e.1).Nodup
  /-- An endpoint without handlers has neither a block nor a shorthand. -/
  bare : ∀ key e, (key, e) ∈ t.endpoints → e.handlers = [] →
    propertyKey key ∉ blocks.map (fun b => propertyKey b.1) ∧ shorthandText key ∉ blocks.map fun b => shorthandText b.1
  /-- What an entry refers to is a member of a unit whose lookup object is imported. -/
  references : ∀ key handlers handler m, (key, handlers) ∈ blocks → (handler, m) ∈ handlers →
    ∃ d ∈ units, t.unit? m.unit = some d ∧ m.reference = d.lookup ++ "." ++ m.member ∧
      Entries.get? m.member d.members = some m.declaration
  /-- Some entry refers to each lookup object that is imported. -/
  used : ∀ d ∈ units, ∃ key handlers handler m, (key, handlers) ∈ blocks ∧ (handler, m) ∈ handlers ∧
    t.unit? m.unit = some d ∧ m.reference = d.lookup ++ "." ++ m.member
  /-- One import brings in the lookup object, and that of the framework does so too if it lists the name. -/
  imported : ∀ d ∈ units, ((importsOf docs directory units).countP fun i => i.1.contains d.lookup) =
    if d.lookup ∈ frameworkNames docs then 2 else 1
  /-- The imports stand in the order of the units that they are for. -/
  sorted : (units.map (·.unit)).Pairwise (· < ·)

theorem importsOf_eq (docs : Documentation) (directory : String) (t : LookupTable) :
    (importsOf docs directory (referencedUnits t)).map (fun i => importText i.1 i.2) =
      importText [docs.okDecorator, docs.createdDecorator, "ApiResponseOptions"] docs.module ::
        (ofTable directory t).imports.map fun i => importText [i.name] i.specifier := by
  simp only [importsOf, frameworkNames, ofTable, lookupImport, base, List.map_cons, List.map_map, Function.comp_def]

theorem countP_importsOf (docs : Documentation) (directory : String) {units : List DeclaredUnit}
    (h : (units.map (·.lookup)).Nodup) (hd : d ∈ units) :
    ((importsOf docs directory units).countP fun i => i.1.contains d.lookup) =
      if d.lookup ∈ frameworkNames docs then 2 else 1 := by
  have hone : (units.countP fun d' => [d'.lookup].contains d.lookup) = 1 := by
    have hcount := List.count_eq_one_of_mem h (List.mem_map_of_mem (f := (·.lookup)) hd)
    rw [List.count, List.countP_map] at hcount
    rw [← hcount]
    refine List.countP_congr fun d' _ => ?_
    rw [Function.comp_apply, List.contains_iff_mem, List.mem_singleton, beq_iff_eq]
    exact eq_comm
  rw [importsOf, List.countP_cons, List.countP_map]
  have hunits : units.countP ((fun i => i.1.contains d.lookup) ∘ fun d' : DeclaredUnit =>
      ([d'.lookup], base directory ++ "/" ++ Naming.specifier d'.unit)) = 1 := hone
  rw [hunits]
  by_cases hname : d.lookup ∈ frameworkNames docs <;> simp [hname]

/-- The module of a table that was made by scanning sources is closed, whatever units are declared, as long as each
    stands under its own name and no two of them have one lookup object: its imports, its blocks and its shorthands are
    written as they follow from the table, and each lookup object that is referred to has one import of its own. The
    object's name is brought in by no other one, unless it is a name that comes from the framework. -/
theorem ofTable_closed (conventions : Conventions) (docs : Documentation) (directory : String)
    {declared : Entries DeclaredUnit} (hnames : DeclaredUnit.OwnNames declared)
    (hlookups : (declared.map fun e => e.2.lookup).Nodup) (sources : List (Source × Path)) :
    let t := LookupTable.scanned conventions { declared, endpoints := [] } sources
    ∃ units blocks, Closed docs directory t units blocks ((ofTable directory t).text docs) := by
  intro t
  obtain ⟨hdeclared, hkeyed, hpaired, -⟩ := LookupTable.scanned_answers conventions hnames sources []
  rw [← hdeclared] at hnames hlookups
  have hkey : ∀ key e, (key, e) ∈ t.endpoints → e.key = key := fun key e he => (hpaired key e he).1
  have hblocks : Entries.Keyed (blocksOf t) := (keys_blocksOf_sublist hkey).nodup hkeyed
  -- What the mapping of a handler says of the declared unit of its endpoint.
  have hanswers : ∀ key e handler m, (key, e) ∈ t.endpoints → (handler, m) ∈ e.handlers → ∃ d, t.unit? m.unit = some d ∧
      m.reference = d.lookup ++ "." ++ m.member ∧ Entries.get? m.member d.members = some m.declaration := by
    intro key e handler m he hm
    obtain ⟨-, hunit, -, d, hd, hanswers⟩ := hpaired key e he
    have hm := hanswers handler m hm
    rw [hm.unit_eq, ← hunit, hm.member_eq]
    exact ⟨d, hd, hm.reference_eq, hm.declared⟩
  refine ⟨referencedUnits t, blocksOf t, ?text, ?body, ?declared, blocksOf_eq hkey, nodup_propertyKeys hblocks, ?handlers,
    ?bare, ?references, ?used, fun d => countP_importsOf docs directory (nodup_imported hnames hlookups),
    pairwise_referencedUnits fun _ _ hd => hnames.unit_eq hd⟩
  case text =>
    rw [text_eq fun _ => ne_nil_of_mem_blocksOf, importsOf_eq]
    rfl
  case body =>
    rintro line hline
    rcases List.mem_cons.mp hline with rfl | hline
    · decide
    · exact not_import_of_mem_bodyLines hline
  case declared =>
    intro name hname
    obtain ⟨key, e, handler, m, he, hm, rfl⟩ := mem_unitNames.mp hname
    obtain ⟨d, hd, -⟩ := hanswers key e handler m he hm
    exact ⟨d, hd, hnames.unit_eq hd⟩
  case handlers =>
    intro key handlers hb
    obtain ⟨e, he, rfl, -⟩ := (mem_blocksOf_iff hkey).mp hb
    exact nodup_propertyKeys (hpaired key e he).2.2.1
  case bare =>
    intro key e he hnil
    have hnot := key_notMem_blocksOf hkey hkeyed he hnil
    refine ⟨fun hmem => ?_, fun hmem => ?_⟩
    · obtain ⟨b, hb, heq⟩ := List.mem_map.mp hmem
      exact hnot (propertyKey_injective heq ▸ List.mem_map_of_mem (f := (·.1)) hb)
    · obtain ⟨b, hb, heq⟩ := List.mem_map.mp hmem
      exact hnot (shorthandText_injective heq ▸ List.mem_map_of_mem (f := (·.1)) hb)
  case references =>
    intro key handlers handler m hb hm
    obtain ⟨e, he, rfl, -⟩ := (mem_blocksOf_iff hkey).mp hb
    obtain ⟨d, hd, hreference, hmember⟩ := hanswers key e handler m he hm
    exact ⟨d, mem_referencedUnits.mpr ⟨m.unit, mem_unitNames.mpr ⟨key, e, handler, m, he, hm, rfl⟩, hd⟩, hd, hreference,
      hmember⟩
  case used =>
    intro d hd
    obtain ⟨name, hname, hd⟩ := mem_referencedUnits.mp hd
    obtain ⟨key, e, handler, m, he, hm, rfl⟩ := mem_unitNames.mp hname
    obtain ⟨d', hd', hreference, -⟩ := hanswers key e handler m he hm
    obtain rfl := Option.some.inj (hd.symm.trans hd')
    exact ⟨key, e.handlers, handler, m, (mem_blocksOf_iff hkey).mpr ⟨e, he, rfl, List.ne_nil_of_mem hm⟩, hm, hd, hreference⟩

/-! ### A lookup object with the name of a decorator -/

namespace Taken

/-- Units are told by a short suffix. -/
def conventions : Conventions :=
  { Conventions.standard with unitSuffix := "Ok" }

def declared : Entries DeclaredUnit :=
  [("ApiOk",
    { unit := "ApiOk", lookup := "ApiOkResponse", module := Path.ofString "/project/apiok.response.ts"
      members := [("find", "ApiOkFindResponse")] })]

def sources : List (Source × Path) :=
  [(Source.ofText "export class ApiController \x7b\n  @Get()\n  find() \x7b\x7d\n\x7d\n",
    Path.ofString "/project/api.controller.ts")]

def table : LookupTable :=
  LookupTable.scanned conventions { declared, endpoints := [] } sources

end Taken

/-- The lookup object and the decorator come in under one name. -/
theorem ofTable_closed_taken : DeclaredUnit.OwnNames Taken.declared ∧ (Taken.declared.map fun e => e.2.lookup).Nodup ∧
    ∃ units blocks, Closed .standard "./responses" Taken.table units blocks
        ((ofTable "./responses" Taken.table).text .standard) ∧
      ∃ d ∈ units, d.lookup = "ApiOkResponse" ∧
        ((importsOf .standard "./responses" units).countP fun i => i.1.contains d.lookup) = 2 := by
  have hnames : DeclaredUnit.OwnNames Taken.declared := by decide
  have hlookups : (Taken.declared.map fun e => e.2.lookup).Nodup := by decide
  obtain ⟨units, blocks, hclosed⟩ :=
    ofTable_closed Taken.conventions .standard "./responses" hnames hlookups Taken.sources
  obtain ⟨e, he, m, hm, hreferred⟩ : ∃ e ∈ Taken.table.endpoints, ∃ m ∈ e.2.handlers,
      (Taken.table.unit? m.2.unit).map (·.lookup) = some "ApiOkResponse" := by decide +kernel
  have hblock : (e.1, e.2.handlers) ∈ blocks := by
    rw [hclosed.blocks_eq]
    exact List.mem_map.mpr ⟨e, List.mem_filter.mpr ⟨he, by simpa using List.ne_nil_of_mem hm⟩, rfl⟩
  obtain ⟨d, hd, hunit, -⟩ := hclosed.references e.1 e.2.handlers m.1 m.2 hblock hm
  change (Taken.table.unit? m.2.unit) = some d at hunit
  rw [hunit] at hreferred
  have hname : d.lookup = "ApiOkResponse" := Option.some.inj hreferred
  refine ⟨hnames, hlookups, units, blocks, hclosed, d, hd, hname, ?_⟩
  rw [hclosed.imported d hd, hname]
  rfl

end Wiring

end ResponseShapes
