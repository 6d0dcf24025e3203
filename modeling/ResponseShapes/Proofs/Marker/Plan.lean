import Mathlib.Algebra.GroupWithZero.Nat
import Mathlib.Data.List.Basic
import Mathlib.Tactic.Push
import ResponseShapes.Marker.Plan
import ResponseShapes.Proofs.Syntax.Decorated
import ResponseShapes.Proofs.Syntax.Spelled

/-! # What a plan holds

The plan of a source joins the plans of its classes and methods: edits and names follow each other in the order of
the source, and the counters add up. `handling` says what becomes of a method and `keepsMarkers` what becomes of the
markers of a class; edits, counters and the list of what is not resolved are told by these two. -/

namespace ResponseShapes

open Syntax

/-! ### Joined plans -/

namespace Plan

/-- What a list of plans adds to a plan, part by part. -/
theorem foldl_append (ps : List Plan) (p : Plan) : ps.foldl append p =
    { edits := p.edits ++ ps.flatMap (·.edits)
      lookups := p.lookups ++ ps.flatMap (·.lookups)
      decorators := p.decorators ++ ps.flatMap (·.decorators)
      markers := p.markers + (ps.map (·.markers)).sum
      removed := p.removed + (ps.map (·.removed)).sum
      rewritten := p.rewritten + (ps.map (·.rewritten)).sum
      unresolved := p.unresolved ++ ps.flatMap (·.unresolved) } := by
  induction ps generalizing p with
  | nil => simp
  | cons q ps ih => simp [ih, append, Nat.add_assoc]

theorem join_eq (ps : List Plan) : join ps =
    { edits := ps.flatMap (·.edits)
      lookups := ps.flatMap (·.lookups)
      decorators := ps.flatMap (·.decorators)
      markers := (ps.map (·.markers)).sum
      removed := (ps.map (·.removed)).sum
      rewritten := (ps.map (·.rewritten)).sum
      unresolved := ps.flatMap (·.unresolved) } := by
  unfold join
  rw [foldl_append]
  simp [empty]

end Plan

/-! ### Methods and classes -/

namespace Handling

def isDocumented : Handling → Bool
  | documented _ _ => true
  | _ => false

def lookups (t : LookupTable) : Handling → List (String × Path)
  | documented mapping _ => ((t.unit? mapping.unit).map fun d => (d.lookup, d.module)).toList
  | _ => []

def decorators (docs : Documentation) : Handling → List String
  | documented mapping _ => [docs.decoratorFor mapping.status]
  | _ => []

/-- What becomes of a method that has the given options. -/
def given (c : Settings) (t : LookupTable) (key : Option String) (m : Method) : Option MarkerOptions → Handling
  | none => .unmarked
  | some o =>
    match resolve? c.conventions t key m o with
    | none => .unresolved
    | some mapping => .documented mapping o

theorem isDocumented_iff {h : Handling} : h.isDocumented = true ↔ ∃ mapping o, h = .documented mapping o := by
  cases h <;> simp [isDocumented]

end Handling

namespace Syntax

def Method.markers (m : Method) (c : Settings) : List Decorator :=
  markersOf c.conventions m.decorators

/-- The edits for a method by what becomes of it. -/
def Method.edits (m : Method) (c : Settings) (s : Source) : Handling → List (Edit Char)
  | .documented mapping o => documentingEdits c.conventions s m (decoratorText c.documentation mapping o)
  | _ => []

namespace ClassDeclaration

def markers (cls : ClassDeclaration) (c : Settings) : List Decorator :=
  markersOf c.conventions cls.decorators

def key (cls : ClassDeclaration) (c : Settings) : Option String :=
  stem? c.conventions.endpointSuffix cls.name

def handling (cls : ClassDeclaration) (c : Settings) (t : LookupTable) (s : Source) (m : Method) : Handling :=
  handlingOf c t s (cls.key c) (cls.markers c) m

/-- Whether the class keeps its markers: a method that has none of its own depends on them and is not resolved. -/
def keepsMarkers (cls : ClassDeclaration) (c : Settings) (t : LookupTable) (s : Source) : Bool :=
  cls.methods.any (Plan.keepsClassMarkers c t s (cls.key c) (cls.markers c))

def label (cls : ClassDeclaration) (m : Method) : String :=
  cls.name ++ "." ++ m.name

/-- The methods for which no declaration is known. -/
def unresolved (cls : ClassDeclaration) (c : Settings) (t : LookupTable) (s : Source) : List Method :=
  cls.methods.filter fun m => cls.handling c t s m = .unresolved

end ClassDeclaration

end Syntax

variable {c : Settings} {t : LookupTable} {s : Source} {cls : ClassDeclaration} {m : Method}

theorem handlingOf_eq_given (key : Option String) (ds : List Decorator) :
    handlingOf c t s key ds m = .given c t key m (optionsFor? c s ds m) := by
  unfold handlingOf Handling.given
  cases optionsFor? c s ds m with
  | none => rfl
  | some o => cases resolve? c.conventions t key m o <;> rfl

theorem given_eq_unmarked {key : Option String} {o : Option MarkerOptions} :
    Handling.given c t key m o = .unmarked ↔ o = none := by
  cases o with
  | none => simp [Handling.given]
  | some o =>
    simp only [Handling.given]
    cases resolve? c.conventions t key m o <;> simp

theorem mem_markersOf {ds : List Decorator} {d : Decorator} :
    d ∈ markersOf c.conventions ds ↔ d ∈ ds ∧ isMarker c.conventions d = true := by
  simp [markersOf]

theorem keepsMarkers_iff : cls.keepsMarkers c t s = true ↔
    ∃ m ∈ cls.methods, m.markers c = [] ∧ cls.handling c t s m = .unresolved := by
  simp [ClassDeclaration.keepsMarkers, Plan.keepsClassMarkers, Method.markers, ClassDeclaration.handling]

theorem keepsMarkers_eq_false_iff : cls.keepsMarkers c t s = false ↔
    ∀ m ∈ cls.methods, m.markers c = [] → cls.handling c t s m ≠ .unresolved := by
  rw [← Bool.not_eq_true, keepsMarkers_iff]
  push Not
  rfl

theorem mem_unresolved : m ∈ cls.unresolved c t s ↔ m ∈ cls.methods ∧ cls.handling c t s m = .unresolved := by
  simp [ClassDeclaration.unresolved]

theorem markers_eq_nil_of_unmarked (h : cls.handling c t s m = .unmarked) : m.markers c = [] := by
  unfold ClassDeclaration.handling at h
  rw [handlingOf_eq_given, given_eq_unmarked] at h
  unfold optionsFor? at h
  split at h
  · cases h
  · assumption

/-- A method that is documented without a marker of its own has decorators: its verb is one of them. -/
theorem decorators_ne_nil_of_documented {mapping : Mapping} {o : MarkerOptions}
    (h : cls.handling c t s m = .documented mapping o) : m.decorators ≠ [] := by
  intro hnil
  have hverb : needsDefault c.conventions c.documentation m = false := by
    simp [needsDefault, Method.verb?, Method.decoratorNames, hnil]
  have hnone : optionsFor? c s (cls.markers c) m = none := by
    unfold optionsFor?
    simp [markersOf, hnil, hverb]
  unfold ClassDeclaration.handling at h
  rw [handlingOf_eq_given, hnone] at h
  cases h

theorem mem_allDecorators_of_method {d : Decorator} (hm : m ∈ cls.methods) (hd : d ∈ m.decorators) :
    d ∈ cls.allDecorators :=
  List.mem_append_left _ (List.mem_flatMap.mpr ⟨m, hm, hd⟩)

namespace Plan

/-! ### Parts of a plan -/

theorem ofMethod_eq (m : Method) : ofMethod c t s cls (cls.key c) (cls.markers c) m =
    { edits := m.edits c s (cls.handling c t s m)
      lookups := (cls.handling c t s m).lookups t
      decorators := (cls.handling c t s m).decorators c.documentation
      markers := (m.markers c).length
      removed := if (cls.handling c t s m).isDocumented then (m.markers c).length else 0
      rewritten := if (cls.handling c t s m).isDocumented then 1 else 0
      unresolved := if cls.handling c t s m = .unresolved then [cls.label m] else [] } := by
  unfold ofMethod ClassDeclaration.handling
  cases handlingOf c t s (cls.key c) (cls.markers c) m <;> rfl

theorem ofClass_eq (cls : ClassDeclaration) : ofClass c t s cls =
    { edits := (cls.methods.flatMap fun m => m.edits c s (cls.handling c t s m)) ++
        if cls.keepsMarkers c t s then [] else (cls.markers c).map fun d => removal s d.node
      lookups := cls.methods.flatMap fun m => (cls.handling c t s m).lookups t
      decorators := cls.methods.flatMap fun m => (cls.handling c t s m).decorators c.documentation
      markers := (cls.methods.map fun m => (m.markers c).length).sum + (cls.markers c).length
      removed := (cls.methods.map fun m =>
          if (cls.handling c t s m).isDocumented then (m.markers c).length else 0).sum +
        if cls.keepsMarkers c t s then 0 else (cls.markers c).length
      rewritten := (cls.methods.map fun m => if (cls.handling c t s m).isDocumented then 1 else 0).sum
      unresolved := (cls.unresolved c t s).map cls.label } := by
  have hmethods : cls.methods.map (ofMethod c t s cls (cls.key c) (cls.markers c)) = cls.methods.map _ :=
    List.map_congr_left fun m _ => ofMethod_eq m
  have hlabels : ∀ ms : List Method,
      ms.flatMap (fun m => if cls.handling c t s m = .unresolved then [cls.label m] else []) =
        (ms.filter fun m => cls.handling c t s m = .unresolved).map cls.label := by
    intro ms
    induction ms with
    | nil => rfl
    | cons m ms ih =>
      rw [List.flatMap_cons, ih]
      by_cases h : cls.handling c t s m = .unresolved <;> simp [h]
  have hclass : ofClass c t s cls = (join (cls.methods.map (ofMethod c t s cls (cls.key c) (cls.markers c)))).append
      (ofClassMarkers s (cls.markers c) (cls.keepsMarkers c t s)) := rfl
  rw [hclass, hmethods, join_eq]
  simp [append, ofClassMarkers, empty, List.flatMap_map, List.map_map, Function.comp_def, hlabels,
    ClassDeclaration.unresolved]

/-! ### A plan for a source -/

theorem ofSource_edits : (ofSource c t s).edits = s.classes.flatMap fun cls => (ofClass c t s cls).edits := by
  simp [ofSource, join_eq, List.flatMap_map]

theorem ofSource_unresolved :
    (ofSource c t s).unresolved = s.classes.flatMap fun cls => (cls.unresolved c t s).map cls.label := by
  simp [ofSource, join_eq, List.flatMap_map, ofClass_eq]

/-- What is edited for a plan: methods that are documented, and the markers of classes that do not keep them. -/
theorem mem_ofSource_edits {e : Edit Char} : e ∈ (ofSource c t s).edits ↔ ∃ cls ∈ s.classes,
    (∃ m ∈ cls.methods, e ∈ m.edits c s (cls.handling c t s m)) ∨
      cls.keepsMarkers c t s = false ∧ ∃ d ∈ cls.markers c, e = removal s d.node := by
  rw [ofSource_edits, List.mem_flatMap]
  refine exists_congr fun cls => and_congr_right fun _ => ?_
  rw [ofClass_eq, List.mem_append, List.mem_flatMap]
  refine or_congr Iff.rfl ?_
  cases cls.keepsMarkers c t s <;> simp [eq_comm]

theorem sum_map_eq_zero {α : Type} {xs : List α} {f : α → Nat} : (xs.map f).sum = 0 ↔ ∀ x ∈ xs, f x = 0 := by
  rw [List.sum_eq_zero_iff_forall_eq_nat, List.forall_mem_map]

theorem ofSource_rewritten_eq_zero : (ofSource c t s).rewritten = 0 ↔
    ∀ cls ∈ s.classes, ∀ m ∈ cls.methods, (cls.handling c t s m).isDocumented = false := by
  unfold ofSource
  rw [join_eq, sum_map_eq_zero, List.forall_mem_map]
  refine forall₂_congr fun cls _ => ?_
  rw [ofClass_eq, sum_map_eq_zero]
  simp

theorem ofSource_removed_eq_zero : (ofSource c t s).removed = 0 ↔ ∀ cls ∈ s.classes,
    (∀ m ∈ cls.methods, (cls.handling c t s m).isDocumented = true → m.markers c = []) ∧
      (cls.keepsMarkers c t s = false → cls.markers c = []) := by
  unfold ofSource
  rw [join_eq, sum_map_eq_zero, List.forall_mem_map]
  refine forall₂_congr fun cls _ => ?_
  rw [ofClass_eq, Nat.add_eq_zero_iff, sum_map_eq_zero]
  refine and_congr (by simp) ?_
  cases cls.keepsMarkers c t s <;> simp

theorem unresolved_eq_nil_iff : (ofSource c t s).unresolved = [] ↔
    ∀ cls ∈ s.classes, ∀ m ∈ cls.methods, cls.handling c t s m ≠ .unresolved := by
  rw [ofSource_unresolved, List.flatMap_eq_nil_iff]
  refine forall₂_congr fun cls _ => ?_
  rw [List.map_eq_nil_iff, ClassDeclaration.unresolved, List.filter_eq_nil_iff]
  simp

theorem keepsMarkers_eq_false (h : ∀ m ∈ cls.methods, cls.handling c t s m ≠ .unresolved) :
    cls.keepsMarkers c t s = false :=
  keepsMarkers_eq_false_iff.mpr fun m hm _ => h m hm

/-- When everything is resolved, all markers are removed. -/
theorem removed_eq_markers (h : (ofSource c t s).unresolved = []) :
    (ofSource c t s).removed = (ofSource c t s).markers := by
  rw [unresolved_eq_nil_iff] at h
  have hclass : ∀ cls ∈ s.classes, (ofClass c t s cls).removed = (ofClass c t s cls).markers := by
    intro cls hcls
    have hmethods : (cls.methods.map fun m => if (cls.handling c t s m).isDocumented then (m.markers c).length else 0) =
        cls.methods.map fun m => (m.markers c).length := by
      refine List.map_congr_left fun m hm => ?_
      cases hh : cls.handling c t s m with
      | documented mapping o => rfl
      | unmarked =>
        rw [markers_eq_nil_of_unmarked hh]
        rfl
      | unresolved => exact absurd hh (h cls hcls m hm)
    rw [ofClass_eq]
    simp only [hmethods, keepsMarkers_eq_false (h cls hcls)]
    rfl
  unfold ofSource
  rw [join_eq]
  simp only [List.map_map, Function.comp_def]
  rw [List.map_congr_left hclass]

theorem edits_eq_nil (h : (ofSource c t s).rewritten = 0) (h' : (ofSource c t s).removed = 0) :
    (ofSource c t s).edits = [] := by
  rw [ofSource_rewritten_eq_zero] at h
  rw [ofSource_removed_eq_zero] at h'
  rw [List.eq_nil_iff_forall_not_mem]
  intro e he
  obtain ⟨cls, hcls, ⟨m, hm, he⟩ | ⟨hkeep, d, hd, -⟩⟩ := mem_ofSource_edits.mp he
  · have := h cls hcls m hm
    cases hh : cls.handling c t s m with
    | documented mapping o =>
      rw [hh] at this
      cases this
    | unmarked =>
      rw [hh] at he
      cases he
    | unresolved =>
      rw [hh] at he
      cases he
  · rw [(h' cls hcls).2 hkeep] at hd
    cases hd

end Plan

/-! ### Controllers of users -/

namespace Users

def settings : Settings :=
  .standard (Path.ofString "/project")

/-- The table that declares answers for the given members of the service. -/
def table (members : List String) : LookupTable :=
  { declared := [("UsersService",
      { unit := "UsersService"
        lookup := "UsersServiceResponse"
        module := Path.ofString "/project/users.response.ts"
        members := members.map fun member => (member, "Users" ++ member) })]
    endpoints := [] }

/-- A controller that is marked itself, and one of its handlers again. -/
def marked : String :=
  "import \x7b InferAPIResponse \x7d from 'infer';\n\n@InferAPIResponse()\nexport class UsersController \x7b\n" ++
    "  @Get()\n  findAll() \x7b\x7d\n\n  @Get('one') // one\n  @InferAPIResponse()\n  findOne() \x7b\x7d\n\x7d\n"

set_option maxRecDepth 8000 in
theorem marked_laid : ∃ s, Source.ofText? marked = some s ∧ s.Laid :=
  Source.exists_of_spelled (.append .piece .piece) _ (by decide +kernel)

end Users

end ResponseShapes
