import ResponseShapes.Proofs.Marker.Alike
import ResponseShapes.Proofs.Marker.Pieces

/-! # Reading a rewritten source again

The tree of a rewritten text is the tree of the text before, with its decorators spliced (`Reread`). So the classes and
methods that are read from it are those of before: a method that was not documented has decorators that read the same,
one that was documented has no markers but a new decorator, and a class has its markers if it kept them. -/

namespace ResponseShapes

open Syntax Syntax.Node

def Documentation.newNames (docs : Documentation) : List String :=
  [docs.okDecorator, docs.createdDecorator]

/-- The names of new decorators are not those of markers. -/
def Settings.UnmarkedNames (c : Settings) : Prop :=
  ∀ name ∈ c.documentation.newNames, name ∉ c.conventions.markers

/-- The names of new decorators are words, which are read back as names. -/
def Settings.WordNames (c : Settings) : Prop :=
  ∀ name ∈ c.documentation.newNames, isWord name = true

instance (c : Settings) : Decidable c.UnmarkedNames :=
  inferInstanceAs (Decidable (∀ _ ∈ _, _))

instance (c : Settings) : Decidable c.WordNames :=
  inferInstanceAs (Decidable (∀ _ ∈ _, _))

/-- A method that was not resolved with the markers of its class is resolved when they are gone: its own options alone
    lead to a declaration. -/
def Syntax.ClassDeclaration.Regains (cls : ClassDeclaration) (c : Settings) (t : LookupTable) (s : Source)
    (m : Method) : Prop :=
  cls.keepsMarkers c t s = false ∧ cls.handling c t s m = .unresolved ∧
    ∃ o, m.ownOptions? c s = some o ∧ (resolve? c.conventions t (cls.key c) m o).isSome = true

instance (cls : ClassDeclaration) (c : Settings) (t : LookupTable) (s : Source) (m : Method) :
    Decidable (cls.Regains c t s m) :=
  decidable_of_iff (cls.keepsMarkers c t s = false ∧ cls.handling c t s m = .unresolved ∧
    (m.ownOptions? c s).any (fun o => (resolve? c.conventions t (cls.key c) m o).isSome) = true) (by
      simp only [ClassDeclaration.Regains, Option.any_eq_true])

/-- The tree of the rewritten text is that of the text before with its decorators spliced; its imports and comments may
    be any. -/
structure Rewritten.Reread (c : Settings) (t : LookupTable) (path : Option Path) (s s' : Source) : Prop where
  text : Edit.apply s.text (Rewritten.edits c path s (Plan.ofSource c t s)) = .ok s'.text
  statements : SplicedAll (Rewritten.edits c path s (Plan.ofSource c t s)) c.documentation.newNames s' s.statements
    s'.statements

namespace Rewritten

variable {c : Settings} {t : LookupTable} {path : Option Path} {s s' : Source} {cls : ClassDeclaration} {m : Method}

instance : Decidable (Reread c t path s s') :=
  decidable_of_iff (Edit.apply s.text (edits c path s (Plan.ofSource c t s)) = .ok s'.text ∧
      SplicedAll (edits c path s (Plan.ofSource c t s)) c.documentation.newNames s' s.statements s'.statements)
    ⟨fun h => ⟨h.1, h.2⟩, fun h => ⟨h.text, h.statements⟩⟩

section Names
variable {x : Node} (hlaid : s.Laid)
include hlaid

theorem Spared.untouched_of_begins (h : Spared c t path s x) (hx : x.Begins s.text) :
    Edit.Untouched (edits c path s (Plan.ofSource c t s)) x.start x.stop :=
  h.untouched hlaid (Nat.le_refl _) hx.2

theorem namesKept (hcls : cls ∈ s.classes) : cls.NamesKept (edits c path s (Plan.ofSource c t s)) := by
  obtain ⟨statement, outer, hmem, himport, hclass, hat⟩ := Source.exists_classAt hcls
  have hlaid' := (Node.Laid.child hlaid hmem).laid
  have hlaidClass := hat.laid hlaid'
  constructor
  · intro name hname
    obtain ⟨hx, hrole⟩ := mem_of_child? hname
    have hkind : name.kind ≠ .decorator := fun hk => by
      rw [(hlaidClass.child hx).role_eq hk] at hrole
      cases hrole
    have hbody : cls.node.child? .body ≠ some name := fun hb => by
      rw [(mem_of_child? hb).2] at hrole
      cases hrole
    have hspared : Spared c t path s name := .of_clear (clear_of_sites hlaid hmem himport hclass
      (hat.below.trans (.of_mem hx)) fun d hd => hat.clear_of_part hlaid' hx hkind hbody hd)
    exact hspared.untouched_of_begins hlaid ((hlaidClass.child hx).begins (by simp [isLead, hrole]))
  · intro body hbody n hn hmethod x hx hlead hkind
    have hspared : Spared c t path s x :=
      spared_of_member_part hlaid hcls hbody hn (by rw [hmethod]; decide) hx hkind
    have hlaidBody := (hat.body hlaid' hbody).2.1
    exact hspared.untouched_of_begins hlaid (((hlaidBody.child hn).laid.child hx).begins hlead)

end Names

/-! ### Decorators -/

/-- Where a decorator gives way or is followed, the new one is read by its name. -/
theorem exists_named {es : List (Edit Char)} {ds ds' : List Decorator} {d : Decorator}
    (hspliced : DecoratorsSpliced es c.documentation.newNames s s' ds ds') (hwords : c.WordNames) (hd : d ∈ ds)
    (hp : pieceOf es d.node = .replaced ∨ pieceOf es d.node = .followed) :
    ∃ name ∈ c.documentation.newNames, name ∈ ds'.filterMap (·.name) := by
  obtain ⟨ns, ns', rfl, rfl, hns⟩ := hspliced
  obtain ⟨n, hn, rfl⟩ := List.mem_map.mp hd
  rw [Source.decorator_node] at hp
  obtain ⟨n', hn', -, -, ⟨name, hname, hread⟩ | ⟨-, name, hname, hword⟩⟩ := hns.exists_fresh hn hp
  · exact ⟨name, hname, List.mem_filterMap.mpr ⟨_, List.mem_map_of_mem hn', hread⟩⟩
  · rw [hwords name hname] at hword
    cases hword

section Decorators
variable {d : Decorator} {ds ds' : List Decorator} (hlaid : s.Laid) (h : Reread c t path s s')
include hlaid h

theorem Reread.carried : Carried (edits c path s (Plan.ofSource c t s)) s s' :=
  carried_of_apply (edits_fit hlaid) (edits_apart hlaid) h.text

theorem Reread.classes : List.Forall₂ (ClassDeclaration.Spliced (edits c path s (Plan.ofSource c t s))
    c.documentation.newNames s s') s.classes s'.classes :=
  classes_spliced (h.carried hlaid) hlaid (fun _ hcls => namesKept hlaid hcls) h.statements

theorem Reread.alike (hcls : cls ∈ s.classes) (hd : d ∈ cls.allDecorators) (hkept : ¬GivenUp c t path s d.node)
    {n' : Node} (hn : d.node.Spliced (edits c path s (Plan.ofSource c t s)) c.documentation.newNames s' n') :
    d.Alike s s' (s'.decorator n') := by
  have hsite : Site s d.node := .decorator hcls hd
  obtain ⟨hbelow, hbegins⟩ := hsite.below hlaid
  have hfree := (Spared.of_site hlaid hsite hkept).untouched_of_begins hlaid hbegins
  have halike := Spliced.alike (h.carried hlaid) d.node n' (Node.Laid.below hlaid hbelow).1 hfree hn
  obtain ⟨statement, outer, -, -, -, hat⟩ := Source.exists_classAt hcls
  rw [hat.decorator_eq hd]
  exact halike.decorator

variable (hcls : cls ∈ s.classes) (hds : ∀ d ∈ ds, d ∈ cls.allDecorators)
  (hspliced : DecoratorsSpliced (edits c path s (Plan.ofSource c t s)) c.documentation.newNames s s' ds ds')
include hcls hds hspliced

theorem Reread.decorators_alike (hkept : ∀ d ∈ ds, ¬GivenUp c t path s d.node)
    (hlast : ∀ m ∈ cls.methods, (cls.handling c t s m).isDocumented = true → m.markers c = [] →
      ∀ d ∈ ds, d ∉ m.decorators) : List.Forall₂ (Decorator.Alike s s') ds ds' := by
  obtain ⟨ns, ns', rfl, rfl, hns⟩ := hspliced
  have hnode : ∀ n ∈ ns, s.decorator n ∈ ns.map s.decorator := fun n hn => List.mem_map_of_mem hn
  have hpiece : ∀ n ∈ ns, pieceOf (edits c path s (Plan.ofSource c t s)) n = .kept := by
    intro n hn
    have hn := hnode n hn
    rcases pieceOf_of_not_givenUp hlaid hcls (hds _ hn) (hkept _ hn) with hp | ⟨-, m, hm, hd, hdoc, hmarkers⟩
    · rwa [Source.decorator_node] at hp
    · exact absurd hd (hlast m hm hdoc hmarkers _ hn)
  have hnotes : ∀ n ∈ ns, n.isNote = false := by
    intro n hn
    obtain ⟨statement, outer, -, -, -, hat⟩ := Source.exists_classAt hcls
    have hkind := (hat.stands (hds _ (hnode n hn))).1
    rw [Source.decorator_node] at hkind
    exact isNote_of_decorator hkind
  rw [List.forall₂_map_left_iff, List.forall₂_map_right_iff]
  have hboth := (List.forall₂_and_left ns ns').mpr ⟨hnode, hns.all_kept hnotes hpiece⟩
  refine hboth.imp fun n n' ⟨hn, hrel⟩ => ?_
  refine h.alike hlaid hcls (hds _ hn) (hkept _ hn) ?_
  rwa [Source.decorator_node]

theorem Reread.unmarked (hnames : c.UnmarkedNames)
    (hgiven : ∀ d ∈ ds, isMarker c.conventions d = true → GivenUp c t path s d.node) :
    markersOf c.conventions ds' = [] := by
  obtain ⟨ns, ns', rfl, rfl, hns⟩ := hspliced
  rw [markersOf, List.filter_eq_nil_iff]
  intro d' hd' hmark
  obtain ⟨n', hn', rfl⟩ := List.mem_map.mp hd'
  rcases hns.mem hn' with ⟨-, -, ⟨name, hname, hread⟩ | ⟨hread, -⟩⟩ | ⟨n, hn, hrel, hp⟩
  · rw [isMarker, hread, Option.any_some, List.contains_iff_mem] at hmark
    exact hnames name hname hmark
  · rw [isMarker, hread] at hmark
    cases hmark
  · have hn : s.decorator n ∈ ns.map s.decorator := List.mem_map_of_mem hn
    have hkept : ¬GivenUp c t path s (s.decorator n).node := by
      intro hgiven
      have hpiece := pieceOf_of_givenUp hlaid hcls (hds _ hn) hgiven
      rw [Source.decorator_node] at hpiece
      rcases hp with hp | hp <;> rw [hp] at hpiece <;> rcases hpiece with h | h <;> cases h
    rw [← Source.decorator_node (s := s) n] at hrel
    have halike := h.alike hlaid hcls (hds _ hn) hkept hrel
    rw [isMarker, halike.name] at hmark
    exact hkept (hgiven _ hn hmark)

end Decorators

/-! ### Methods and classes of the rewritten text -/

section Methods
variable {cls' : ClassDeclaration} {m' : Method} (hlaid : s.Laid) (h : Reread c t path s s') (hcls : cls ∈ s.classes)
include hlaid h hcls

section Method
variable (hm : m ∈ cls.methods)
  (hrel : Method.Spliced (edits c path s (Plan.ofSource c t s)) c.documentation.newNames s s' m m')
include hm hrel

/-- A method that was not documented is the same, with the same decorators. -/
theorem Reread.method_alike (hdoc : (cls.handling c t s m).isDocumented = false) : m.Alike s s' m' := by
  have hother : ∀ m₂ ∈ cls.methods, (cls.handling c t s m₂).isDocumented = true →
      ∀ d ∈ m.decorators, d ∉ m₂.decorators := by
    intro m₂ hm₂ hdoc₂ d hd hd₂
    obtain rfl := hlaid.method_eq hcls hm hm₂ hd hd₂ rfl
    rw [hdoc] at hdoc₂
    cases hdoc₂
  refine ⟨hrel.name, hrel.accessibility, hrel.isAccessor, hrel.hasPlainName, ?_⟩
  refine h.decorators_alike hlaid hcls (fun d hd => mem_allDecorators_of_method hm hd) hrel.decorators
    (fun d hd hgiven => ?_) fun m₂ hm₂ hdoc₂ _ => hother m₂ hm₂ hdoc₂
  rcases (hgiven.of_decorator hlaid hcls (mem_allDecorators_of_method hm hd)).2 with
    ⟨m₂, hm₂, hdoc₂, hd₂⟩ | ⟨-, hown⟩
  · exact hother m₂ hm₂ hdoc₂ d hd hd₂
  · exact hlaid.method_decorator_ne hcls hm hd hown rfl

theorem Reread.markers_of_documented (hnames : c.UnmarkedNames)
    (hdoc : (cls.handling c t s m).isDocumented = true) : m'.markers c = [] :=
  h.unmarked hlaid hcls (fun _ hd => mem_allDecorators_of_method hm hd) hrel.decorators hnames fun _ hd hmark =>
    .marker hcls hm hdoc (mem_markersOf.mpr ⟨hd, hmark⟩)

omit h in
theorem named_of_documented (hwords : c.WordNames) (hdoc : (cls.handling c t s m).isDocumented = true) :
    ∃ name ∈ c.documentation.newNames, name ∈ m'.decoratorNames := by
  cases hmarkers : m.markers c with
  | nil =>
    obtain ⟨mapping, o, hh⟩ := Handling.isDocumented_iff.mp hdoc
    cases hlast : lastDecorator? m.decorators with
    | none =>
      refine absurd ?_ (decorators_ne_nil_of_documented hh)
      cases hds : m.decorators with
      | nil => rfl
      | cons d ds =>
        rw [hds] at hlast
        cases hlast
    | some d =>
      exact exists_named hrel.decorators hwords (lastDecorator?_mem hlast)
        (Or.inr (pieceOf_last hlaid hcls hm hdoc hmarkers hlast))
  | cons first others =>
    have hfirst : first ∈ m.markers c := hmarkers ▸ List.mem_cons_self
    exact exists_named hrel.decorators hwords (mem_markersOf.mp hfirst).1
      (Or.inl (pieceOf_first hlaid hcls hm hdoc hmarkers))

end Method

section Class
variable (hrel : ClassDeclaration.Spliced (edits c path s (Plan.ofSource c t s)) c.documentation.newNames s s' cls cls')
include hrel

theorem Reread.class_alike (hkeep : cls.keepsMarkers c t s = true) :
    List.Forall₂ (Decorator.Alike s s') cls.decorators cls'.decorators := by
  refine h.decorators_alike hlaid hcls (fun d hd => List.mem_append_right _ hd) hrel.decorators
    (fun d hd hgiven => ?_) fun m hm _ _ d hd hd' => hlaid.method_decorator_ne hcls hm hd' hd rfl
  rcases (hgiven.of_decorator hlaid hcls (List.mem_append_right _ hd)).2 with ⟨m, hm, -, hd'⟩ | ⟨hfree, -⟩
  · exact hlaid.method_decorator_ne hcls hm hd' hd rfl
  · rw [hkeep] at hfree
    cases hfree

theorem Reread.markers_of_class (hnames : c.UnmarkedNames) (hkeep : cls.keepsMarkers c t s = false) :
    cls'.markers c = [] :=
  h.unmarked hlaid hcls (fun _ hd => List.mem_append_right _ hd) hrel.decorators hnames fun _ hd hmark =>
    .classMarker hcls hkeep (mem_markersOf.mpr ⟨hd, hmark⟩)

omit hlaid h hcls in
theorem key_eq : cls'.key c = cls.key c := by
  unfold ClassDeclaration.key
  rw [hrel.name]

variable (hm : m ∈ cls.methods)
  (hrelm : Method.Spliced (edits c path s (Plan.ofSource c t s)) c.documentation.newNames s s' m m')
include hm hrelm

theorem Reread.handling_of_documented (hnames : c.UnmarkedNames) (hwords : c.WordNames ∨ cls.keepsMarkers c t s = false)
    (hdoc : (cls.handling c t s m).isDocumented = true) : cls'.handling c t s' m' = .unmarked := by
  have hmarkers := h.markers_of_documented hlaid hcls hm hrelm hnames hdoc
  unfold ClassDeclaration.handling
  rcases hwords with hwords | hkeep
  · obtain ⟨name, hname, hread⟩ := named_of_documented hlaid hcls hm hrelm hwords hdoc
    exact handlingOf_unmarked hmarkers hread (by simpa [Documentation.newNames] using hname) _
  · rw [h.markers_of_class hlaid hcls hrel hnames hkeep, handlingOf_nil_of_unmarked hmarkers]

theorem Reread.handling_of_kept (hkeep : cls.keepsMarkers c t s = true)
    (hdoc : (cls.handling c t s m).isDocumented = false) : cls'.handling c t s' m' = cls.handling c t s m := by
  have halike := h.method_alike hlaid hcls hm hrelm hdoc
  have hclass := markersOf_alike (c := c) (h.class_alike hlaid hcls hrel hkeep)
  unfold ClassDeclaration.handling
  rw [key_eq hrel]
  exact handlingOf_eq halike hclass _

/-- In a class that did not keep its markers, any other method is handled by its own options alone. -/
theorem Reread.handling_of_freed (hnames : c.UnmarkedNames) (hkeep : cls.keepsMarkers c t s = false)
    (hdoc : (cls.handling c t s m).isDocumented = false) :
    cls'.handling c t s' m' = .given c t (cls.key c) m (m.ownOptions? c s) := by
  have halike := h.method_alike hlaid hcls hm hrelm hdoc
  unfold ClassDeclaration.handling
  rw [h.markers_of_class hlaid hcls hrel hnames hkeep, handlingOf_nil, key_eq hrel, halike.ownOptions?_eq,
    halike.given_eq]

end Class

end Methods

end Rewritten

end ResponseShapes
