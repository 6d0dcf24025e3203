import ResponseShapes.Proofs.Marker.Plan
import ResponseShapes.Proofs.Syntax.Alike

/-! # Markers and methods that read the same

The options of a marker follow from its name and its arguments alone, so markers that are alike have the same options
(`ofMarker_eq`). What becomes of a method follows from the options of the first marker of its own and of the first one
of its class, from its name and from its decorators: it is the same for methods that are alike in classes with markers
that are alike (`handlingOf_eq`), and in a class without markers the own options of the method decide alone
(`handlingOf_nil`). -/

namespace ResponseShapes

open Syntax Syntax.Node

namespace MarkerOptions

variable {s s' : Source} {n n' : Node}

theorem value?_eq (h : n.Alike s s' n') : value? s' n' = value? s n := by
  unfold value?
  have hempty : (n'.childrenOf .templateSubstitution).isEmpty = (n.childrenOf .templateSubstitution).isEmpty := by
    rw [Bool.eq_iff_iff, List.isEmpty_iff_length_eq_zero, List.isEmpty_iff_length_eq_zero,
      (h.childrenOf (k := .templateSubstitution) (by decide)).length_eq]
  rw [h.kind_eq, h.stringValue_eq, hempty]

theorem keyText_eq (h : n.Alike s s' n') : keyText s' n' = keyText s n := by
  unfold keyText
  rw [h.kind_eq, h.stringValue_eq, h.textOf_eq]

theorem readProperty_eq (o : MarkerOptions) (h : n.Alike s s' n') : readProperty s' o n' = readProperty s o n := by
  unfold readProperty
  rw [h.kind_eq]
  rcases rel_cases (h.child? .key) with ⟨hk, hk'⟩ | ⟨k, k', hk, hk', hkey⟩
  · simp only [hk, hk']
  · rcases rel_cases (h.child? .value) with ⟨hv, hv'⟩ | ⟨v, v', hv, hv', hvalue⟩
    · simp only [hk, hk', hv, hv']
    · simp only [hk, hk', hv, hv', keyText_eq hkey, value?_eq hvalue]

theorem foldl_children (o : MarkerOptions) (n : Node) :
    n.children.foldl (readProperty s) o = n.parts.foldl (readProperty s) o := by
  unfold parts
  rw [List.foldl_filter]
  congr 1
  funext o x
  cases hx : x.isNote with
  | true => simp [readProperty, (isNote_eq_true.mp hx).1]
  | false => rfl

theorem ofArguments_eq {ns ns' : List Node} (h : List.Forall₂ (Node.Alike s s') ns ns') :
    ofArguments s' ns' = ofArguments s ns := by
  cases h with
  | nil => rfl
  | @cons n n' ns ns' hn _ =>
    have hfold : ∀ (o : MarkerOptions) {ps ps' : List Node}, List.Forall₂ (Node.Alike s s') ps ps' →
        ps'.foldl (readProperty s') o = ps.foldl (readProperty s) o := by
      intro o ps ps' hps
      induction hps generalizing o with
      | nil => rfl
      | cons hp _ ih => rw [List.foldl_cons, List.foldl_cons, readProperty_eq o hp, ih]
    simp only [ofArguments, hn.kind_eq, foldl_children, hfold empty hn.parts]

theorem ofMarker_eq (conventions : Conventions) {d d' : Decorator} (h : d.Alike s s' d') :
    ofMarker conventions s' d' = ofMarker conventions s d := by
  unfold ofMarker
  rw [ofArguments_eq h.arguments, h.name]

theorem withDefaults_empty (o : MarkerOptions) : o.withDefaults empty = o := by
  simp [withDefaults, empty]

end MarkerOptions

/-! ### Methods -/

/-- The methods are the same, and so are their decorators. -/
structure Syntax.Method.Alike (s s' : Source) (m m' : Method) : Prop where
  name : m'.name = m.name
  accessibility : m'.accessibility = m.accessibility
  isAccessor : m'.isAccessor = m.isAccessor
  hasPlainName : m'.hasPlainName = m.hasPlainName
  decorators : List.Forall₂ (Decorator.Alike s s') m.decorators m'.decorators

/-- The options of the first marker of a method's own. -/
def Syntax.Method.ownOptions? (m : Method) (c : Settings) (s : Source) : Option MarkerOptions :=
  (m.markers c).head?.map (MarkerOptions.ofMarker c.conventions s)

section Methods
variable {c : Settings} {t : LookupTable} {s s' : Source} {m m' : Method} {ds ds' : List Decorator}

theorem markersOf_alike (h : List.Forall₂ (Decorator.Alike s s') ds ds') :
    List.Forall₂ (Decorator.Alike s s') (markersOf c.conventions ds) (markersOf c.conventions ds') :=
  filter_related h fun d d' hd => by
    unfold isMarker
    rw [hd.name]

theorem ownOptions?_eq_none : m.ownOptions? c s = none ↔ m.markers c = [] := by
  unfold Method.ownOptions?
  rw [Option.map_eq_none_iff, List.head?_eq_none_iff]

theorem headOptions_eq (h : List.Forall₂ (Decorator.Alike s s') ds ds') :
    ds'.head?.map (MarkerOptions.ofMarker c.conventions s') =
      ds.head?.map (MarkerOptions.ofMarker c.conventions s) := by
  cases h with
  | nil => rfl
  | cons hd _ => rw [List.head?_cons, List.head?_cons, Option.map_some, Option.map_some, MarkerOptions.ofMarker_eq _ hd]

theorem isEmpty_eq (h : List.Forall₂ (Decorator.Alike s s') ds ds') : ds'.isEmpty = ds.isEmpty := by
  cases h <;> rfl

namespace Syntax.Method.Alike

theorem decoratorNames_eq (h : m.Alike s s' m') : m'.decoratorNames = m.decoratorNames := by
  unfold decoratorNames
  have hnames : ∀ {ds ds' : List Decorator}, List.Forall₂ (Decorator.Alike s s') ds ds' →
      ds'.filterMap (·.name) = ds.filterMap (·.name) := by
    intro ds ds' hds
    induction hds with
    | nil => rfl
    | cons hd _ ih => rw [List.filterMap_cons, List.filterMap_cons, hd.name, ih]
  exact hnames h.decorators

theorem verb?_eq (h : m.Alike s s' m') (verbs : List String) : m'.verb? verbs = m.verb? verbs := by
  unfold verb?
  rw [h.decoratorNames_eq]

theorem needsDefault_eq (h : m.Alike s s' m') :
    needsDefault c.conventions c.documentation m' = needsDefault c.conventions c.documentation m := by
  have hanalyzable : m'.isAnalyzable = m.isAnalyzable := by
    unfold isAnalyzable isConstructor isPrivate
    rw [h.name, h.accessibility, h.isAccessor, h.hasPlainName]
  unfold needsDefault
  rw [hanalyzable, h.verb?_eq, h.decoratorNames_eq]

theorem resolve?_eq (h : m.Alike s s' m') (key : Option String) (o : MarkerOptions) :
    resolve? c.conventions t key m' o = resolve? c.conventions t key m o := by
  simp only [resolve?, impliedAnswer, h.name, h.verb?_eq]

theorem given_eq (h : m.Alike s s' m') (key : Option String) (o : Option MarkerOptions) :
    Handling.given c t key m' o = .given c t key m o := by
  cases o with
  | none => rfl
  | some o => simp only [Handling.given, h.resolve?_eq]

theorem ownOptions?_eq (h : m.Alike s s' m') : m'.ownOptions? c s' = m.ownOptions? c s :=
  headOptions_eq (markersOf_alike h.decorators)

end Syntax.Method.Alike

theorem optionsFor?_eq (h : m.Alike s s' m') (hds : List.Forall₂ (Decorator.Alike s s') ds ds') :
    optionsFor? c s' ds' m' = optionsFor? c s ds m := by
  have hown := markersOf_alike (c := c) h.decorators
  unfold optionsFor?
  rw [headOptions_eq hds, isEmpty_eq hds, h.needsDefault_eq]
  cases hmarkers : markersOf c.conventions m.decorators with
  | nil =>
    rw [hmarkers, List.forall₂_nil_left_iff] at hown
    rw [hown]
  | cons d others =>
    rw [hmarkers, List.forall₂_cons_left_iff] at hown
    obtain ⟨d', others', hd, -, hmarkers'⟩ := hown
    rw [hmarkers']
    simp only [MarkerOptions.ofMarker_eq _ hd]

theorem handlingOf_eq (h : m.Alike s s' m') (hds : List.Forall₂ (Decorator.Alike s s') ds ds')
    (key : Option String) : handlingOf c t s' key ds' m' = handlingOf c t s key ds m := by
  rw [handlingOf_eq_given, handlingOf_eq_given, optionsFor?_eq h hds, h.given_eq]

theorem optionsFor?_nil : optionsFor? c s [] m = m.ownOptions? c s := by
  unfold optionsFor? Method.ownOptions? Method.markers
  cases markersOf c.conventions m.decorators with
  | nil => rfl
  | cons d others =>
    simp only [List.head?_nil, List.head?_cons, Option.map_none, Option.map_some, Option.getD_none,
      MarkerOptions.withDefaults_empty]

/-- Without markers of the class, the own options of the method decide. -/
theorem handlingOf_nil (key : Option String) :
    handlingOf c t s key [] m = .given c t key m (m.ownOptions? c s) := by
  rw [handlingOf_eq_given, optionsFor?_nil]

theorem handlingOf_nil_of_unmarked (h : m.markers c = []) (key : Option String) :
    handlingOf c t s key [] m = .unmarked := by
  rw [handlingOf_nil, ownOptions?_eq_none.mpr h]
  rfl

/-- A method without markers of its own that something documents already is not marked. -/
theorem handlingOf_unmarked {name : String} (hmarkers : m.markers c = []) (hname : name ∈ m.decoratorNames)
    (hnew : name = c.documentation.okDecorator ∨ name = c.documentation.createdDecorator) (key : Option String) :
    handlingOf c t s key ds m = .unmarked := by
  have hdefault : needsDefault c.conventions c.documentation m = false := by
    have hany : (m.decoratorNames.any fun name =>
        name = c.documentation.okDecorator || name = c.documentation.createdDecorator) = true :=
      List.any_eq_true.mpr ⟨name, hname, by simpa using hnew⟩
    unfold needsDefault
    rw [hany]
    simp
  unfold Method.markers at hmarkers
  rw [handlingOf_eq_given, given_eq_unmarked]
  unfold optionsFor?
  simp [hmarkers, hdefault]

end Methods

end ResponseShapes
