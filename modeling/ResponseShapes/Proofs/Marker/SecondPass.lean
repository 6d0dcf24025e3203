import ResponseShapes.Proofs.Marker.Mention
import ResponseShapes.Proofs.Marker.Reread

/-! # Rewriting a rewritten source

A rewritten source is rewritten again only where a method regains what it needs: it has markers of its own, could not be
resolved together with the options of its class, and the class did not keep its markers (`rewritten_eq_zero_iff`).
Without such a method the second pass changes nothing. -/

namespace ResponseShapes

open Syntax Syntax.Node

namespace Rewritten

variable {c : Settings} {t : LookupTable} {path : Option Path} {s s' : Source}

/-- What the own options of a method lead to, when it cannot do without those of its class. -/
theorem given_of_not_regains {cls : ClassDeclaration} {m : Method} (hm : m ∈ cls.methods)
    (hkeep : cls.keepsMarkers c t s = false) (hdoc : (cls.handling c t s m).isDocumented = false)
    (hregains : ¬cls.Regains c t s m) :
    (Handling.given c t (cls.key c) m (m.ownOptions? c s)).isDocumented = false ∧
      (Handling.given c t (cls.key c) m (m.ownOptions? c s) = .unresolved ↔ cls.handling c t s m = .unresolved) := by
  cases hh : cls.handling c t s m with
  | documented mapping o =>
    rw [hh] at hdoc
    cases hdoc
  | unmarked =>
    rw [ownOptions?_eq_none.mpr (markers_eq_nil_of_unmarked hh)]
    exact ⟨rfl, by simp [Handling.given]⟩
  | unresolved =>
    cases ho : m.ownOptions? c s with
    | none =>
      -- The method depends on the markers of its class alone, so the class keeps them.
      rw [keepsMarkers_iff.mpr ⟨m, hm, ownOptions?_eq_none.mp ho, hh⟩] at hkeep
      cases hkeep
    | some o =>
      cases hresolve : resolve? c.conventions t (cls.key c) m o with
      | none =>
        simp only [Handling.given, hresolve]
        exact ⟨rfl, by simp⟩
      | some mapping => exact absurd ⟨hkeep, hh, o, ho, by rw [hresolve]; rfl⟩ hregains

section SecondPass
variable (hlaid : s.Laid) (h : Reread c t path s s') (hnames : c.UnmarkedNames)
include hlaid h hnames

/-- A method that regains what it needs is documented in the second pass. -/
theorem Reread.documented_of_regains {cls cls' : ClassDeclaration} {m m' : Method} (hcls : cls ∈ s.classes)
    (hrel : ClassDeclaration.Spliced (edits c path s (Plan.ofSource c t s)) c.documentation.newNames s s' cls cls')
    (hm : m ∈ cls.methods)
    (hrelm : Method.Spliced (edits c path s (Plan.ofSource c t s)) c.documentation.newNames s s' m m')
    (hregains : cls.Regains c t s m) : (cls'.handling c t s' m').isDocumented = true := by
  obtain ⟨hkeep, hunres, o, ho, hsome⟩ := hregains
  have hdoc : (cls.handling c t s m).isDocumented = false := by
    rw [hunres]
    rfl
  rw [h.handling_of_freed hlaid hcls hrel hm hrelm hnames hkeep hdoc, ho]
  obtain ⟨mapping, hmapping⟩ := Option.isSome_iff_exists.mp hsome
  simp only [Handling.given, hmapping]
  rfl

/-- Any other method is not documented in the second pass, and is as resolved as before. -/
theorem Reread.handling_of_not_regains {cls cls' : ClassDeclaration} {m m' : Method} (hcls : cls ∈ s.classes)
    (hrel : ClassDeclaration.Spliced (edits c path s (Plan.ofSource c t s)) c.documentation.newNames s s' cls cls')
    (hm : m ∈ cls.methods)
    (hrelm : Method.Spliced (edits c path s (Plan.ofSource c t s)) c.documentation.newNames s s' m m')
    (hwords : c.WordNames ∨ cls.keepsMarkers c t s = false) (hregains : ¬cls.Regains c t s m) :
    (cls'.handling c t s' m').isDocumented = false ∧
      (cls'.handling c t s' m' = .unresolved ↔ cls.handling c t s m = .unresolved) := by
  by_cases hdoc : (cls.handling c t s m).isDocumented = true
  · obtain ⟨mapping, o, hh⟩ := Handling.isDocumented_iff.mp hdoc
    rw [h.handling_of_documented hlaid hcls hrel hm hrelm hnames hwords hdoc, hh]
    exact ⟨rfl, by simp⟩
  · rw [Bool.not_eq_true] at hdoc
    by_cases hkeep : cls.keepsMarkers c t s = true
    · rw [h.handling_of_kept hlaid hcls hrel hm hrelm hkeep hdoc]
      exact ⟨hdoc, Iff.rfl⟩
    · rw [Bool.not_eq_true] at hkeep
      rw [h.handling_of_freed hlaid hcls hrel hm hrelm hnames hkeep hdoc]
      exact given_of_not_regains hm hkeep hdoc hregains

omit hnames in
/-- A class that kept its markers keeps them again, since the method that needs them is still there. -/
theorem Reread.keepsMarkers_again {cls cls' : ClassDeclaration} (hcls : cls ∈ s.classes)
    (hrel : ClassDeclaration.Spliced (edits c path s (Plan.ofSource c t s)) c.documentation.newNames s s' cls cls')
    (hkeep : cls.keepsMarkers c t s = true) : cls'.keepsMarkers c t s' = true := by
  obtain ⟨m, hm, hmarkers, hunres⟩ := keepsMarkers_iff.mp hkeep
  obtain ⟨m', hm', hrelm⟩ := related_left hrel.methods hm
  have hdoc : (cls.handling c t s m).isDocumented = false := by
    rw [hunres]
    rfl
  have halike := markersOf_alike (c := c) (h.method_alike hlaid hcls hm hrelm hdoc).decorators
  unfold Method.markers at hmarkers
  rw [hmarkers, List.forall₂_nil_left_iff] at halike
  exact keepsMarkers_iff.mpr ⟨m', hm', halike,
    (h.handling_of_kept hlaid hcls hrel hm hrelm hkeep hdoc).trans hunres⟩

variable (hwords : c.WordNames ∨ ∀ cls ∈ s.classes, cls.keepsMarkers c t s = false)
include hwords

/-- The second pass documents something exactly if a method regains what it needs. -/
theorem Reread.rewritten_eq_zero_iff : (Plan.ofSource c t s').rewritten = 0 ↔
    ∀ cls ∈ s.classes, ∀ m ∈ cls.methods, ¬cls.Regains c t s m := by
  have hclasses := h.classes hlaid
  rw [Plan.ofSource_rewritten_eq_zero]
  constructor
  · intro hidle cls hcls m hm hregains
    obtain ⟨cls', hcls', hrel⟩ := related_left hclasses hcls
    obtain ⟨m', hm', hrelm⟩ := related_left hrel.methods hm
    have hdoc := h.documented_of_regains hlaid hnames hcls hrel hm hrelm hregains
    rw [hidle cls' hcls' m' hm'] at hdoc
    cases hdoc
  · intro hidle cls' hcls' m' hm'
    obtain ⟨cls, hcls, hrel⟩ := related_right hclasses hcls'
    obtain ⟨m, hm, hrelm⟩ := related_right hrel.methods hm'
    exact (h.handling_of_not_regains hlaid hnames hcls hrel hm hrelm (hwords.imp_right fun hfree => hfree cls hcls)
      (hidle cls hcls m hm)).1

variable (hidle : ∀ cls ∈ s.classes, ∀ m ∈ cls.methods, ¬cls.Regains c t s m)
include hidle

theorem Reread.removed_eq_zero : (Plan.ofSource c t s').removed = 0 := by
  have hrewritten := (h.rewritten_eq_zero_iff hlaid hnames hwords).mpr hidle
  rw [Plan.ofSource_rewritten_eq_zero] at hrewritten
  rw [Plan.ofSource_removed_eq_zero]
  intro cls' hcls'
  refine ⟨fun m' hm' hdoc => ?_, fun hkeep' => ?_⟩
  · rw [hrewritten cls' hcls' m' hm'] at hdoc
    cases hdoc
  · obtain ⟨cls, hcls, hrel⟩ := related_right (h.classes hlaid) hcls'
    cases hkeep : cls.keepsMarkers c t s with
    | true =>
      rw [h.keepsMarkers_again hlaid hcls hrel hkeep] at hkeep'
      cases hkeep'
    | false => exact h.markers_of_class hlaid hcls hrel hnames hkeep

theorem Reread.unresolved_eq : (Plan.ofSource c t s').unresolved = (Plan.ofSource c t s).unresolved := by
  rw [Plan.ofSource_unresolved, Plan.ofSource_unresolved, List.flatMap_def, List.flatMap_def]
  congr 1
  refine (map_related (h.classes hlaid) fun cls hcls cls' hrel => ?_).symm
  have hmethods := (List.forall₂_and_left cls.methods cls'.methods).mpr ⟨fun m hm => hm, hrel.methods⟩
  have hunres : List.Forall₂ (fun m m' => m'.name = m.name) (cls.unresolved c t s) (cls'.unresolved c t s') := by
    refine (filter_related hmethods fun m m' ⟨hm, hrelm⟩ => ?_).imp fun m m' ⟨_, hrelm⟩ => hrelm.name
    have hsame := (h.handling_of_not_regains hlaid hnames hcls hrel hm hrelm
      (hwords.imp_right fun hfree => hfree cls hcls) (hidle cls hcls m hm)).2
    exact decide_eq_decide.mpr hsame.symm
  refine map_related hunres fun m _ m' hname => ?_
  unfold ClassDeclaration.label
  rw [hrel.name, hname]

/-- When no method regains what it needs, the second pass changes nothing. -/
theorem Reread.second_pass : ofSource c t path s' =
    .ok { text := String.ofList s'.text, count := 0, unresolved := (Plan.ofSource c t s).unresolved } := by
  rw [ofSource_of_idle ((h.rewritten_eq_zero_iff hlaid hnames hwords).mpr hidle)
    (h.removed_eq_zero hlaid hnames hwords hidle), h.unresolved_eq hlaid hnames hwords hidle]

end SecondPass

/-! ### What a second pass finds -/

/-- A marker of a class is removed exactly if every method without markers of its own is resolved. -/
theorem removal_mem_edits_iff (hlaid : s.Laid) {cls : ClassDeclaration} {d : Decorator} (hcls : cls ∈ s.classes)
    (hd : d ∈ cls.markers c) : removal s d.node ∈ edits c path s (Plan.ofSource c t s) ↔
      ∀ m ∈ cls.methods, m.markers c = [] → cls.handling c t s m ≠ .unresolved := by
  have hown := (mem_markersOf.mp hd).1
  have hall : d ∈ cls.allDecorators := List.mem_append_right _ hown
  rw [← keepsMarkers_eq_false_iff]
  constructor
  · intro hmem
    have hgiven : GivenUp c t path s d.node :=
      (covered_iff_givenUp hlaid hcls hall).mp ⟨_, hmem, rfl, Nat.le_add_right _ _⟩
    rcases (hgiven.of_decorator hlaid hcls hall).2 with ⟨m, hm, -, hdm⟩ | ⟨hfree, -⟩
    · exact absurd rfl (hlaid.method_decorator_ne hcls hm hdm hown)
    · exact hfree
  · intro hfree
    exact mem_edits_of_plan (Plan.mem_ofSource_edits.mpr ⟨cls, hcls, Or.inr ⟨hfree, d, hd, rfl⟩⟩)

theorem isSome_of_unresolved {cls : ClassDeclaration} {m : Method} (h : cls.handling c t s m = .unresolved) :
    (optionsFor? c s (cls.markers c) m).isSome = true := by
  unfold ClassDeclaration.handling at h
  rw [handlingOf_eq_given] at h
  cases ho : optionsFor? c s (cls.markers c) m with
  | none =>
    rw [ho] at h
    cases h
  | some o => rfl

/-- The options of a method that is not resolved are those of before if its class keeps its markers, else those of its
    own markers alone. -/
theorem Reread.optionsFor?_of_unresolved (hlaid : s.Laid) (h : Reread c t path s s') (hnames : c.UnmarkedNames)
    {cls cls' : ClassDeclaration} {m m' : Method} (hcls : cls ∈ s.classes)
    (hrel : ClassDeclaration.Spliced (edits c path s (Plan.ofSource c t s)) c.documentation.newNames s s' cls cls')
    (hm : m ∈ cls.methods)
    (hrelm : Method.Spliced (edits c path s (Plan.ofSource c t s)) c.documentation.newNames s s' m m')
    (hunres : cls.handling c t s m = .unresolved) : optionsFor? c s' (cls'.markers c) m' =
      if cls.keepsMarkers c t s then optionsFor? c s (cls.markers c) m else m.ownOptions? c s := by
  have halike := h.method_alike hlaid hcls hm hrelm (by rw [hunres]; rfl)
  split
  · rename_i hkeep
    exact optionsFor?_eq halike (markersOf_alike (h.class_alike hlaid hcls hrel hkeep))
  · rename_i hkeep
    rw [h.markers_of_class hlaid hcls hrel hnames (Bool.eq_false_iff.mpr hkeep), optionsFor?_nil, halike.ownOptions?_eq]

/-- What a second pass finds in the result `r` of the first one, when it is read again as `s'`. -/
structure Again (c : Settings) (t : LookupTable) (path : Option Path) (s : Source) (r : Rewritten) (s' : Source) :
    Prop where
  /-- A method that is not resolved has the options of before, but for those of its class if the class lost its
      markers. -/
  options : List.Forall₂ (fun cls cls' => List.Forall₂ (fun m m' => cls.handling c t s m = .unresolved →
      optionsFor? c s' (cls'.markers c) m' =
        if cls.keepsMarkers c t s then optionsFor? c s (cls.markers c) m else m.ownOptions? c s)
    cls.methods cls'.methods) s.classes s'.classes
  stable : ofSource c t path s' = .ok { r with count := 0 } ↔
    ∀ cls ∈ s.classes, ∀ m ∈ cls.methods, ¬cls.Regains c t s m
  text : Source.ofText? r.text = some s' → (ofText c t path r.text = .ok ({ r with count := 0 }, rows r.unresolved) ↔
    ∀ cls ∈ s.classes, ∀ m ∈ cls.methods, ¬cls.Regains c t s m)

theorem Reread.again (hlaid : s.Laid) (h : Reread c t path s s') (hnames : c.UnmarkedNames) (hwords : c.WordNames)
    {r : Rewritten} (hr : ofSource c t path s = .ok r) : Again c t path s r s' := by
  obtain ⟨htext, -, hunresolved⟩ := ofSource_eq_ok.mp hr
  have hsame : s'.text = r.text.toList := Except.ok.inj (h.text.symm.trans htext)
  have hstable : ofSource c t path s' = .ok { r with count := 0 } ↔
      ∀ cls ∈ s.classes, ∀ m ∈ cls.methods, ¬cls.Regains c t s m := by
    constructor
    · intro hsecond
      exact (h.rewritten_eq_zero_iff hlaid hnames (Or.inl hwords)).mp (ofSource_eq_ok.mp hsecond).2.1.symm
    · intro hidle
      rw [h.second_pass hlaid hnames (Or.inl hwords) hidle, hsame, String.ofList_toList, ← hunresolved]
  refine ⟨?_, hstable, fun hs' => ?_⟩
  · refine ((List.forall₂_and_left _ _).mpr ⟨fun cls hcls => hcls, h.classes hlaid⟩).imp fun cls cls' ⟨hcls, hrel⟩ => ?_
    refine ((List.forall₂_and_left _ _).mpr ⟨fun m hm => hm, hrel.methods⟩).imp fun m m' ⟨hm, hrelm⟩ => ?_
    exact h.optionsFor?_of_unresolved hlaid hnames hcls hrel hm hrelm
  · rw [ofText_eq_ofSource hs', ← hstable]
    cases hsecond : ofSource c t path s' with
    | error e => simp [Except.map]
    | ok r' =>
      simp only [Except.map, Except.ok.injEq, Prod.mk.injEq]
      constructor
      · exact And.left
      · rintro rfl
        exact ⟨rfl, rfl⟩

/-- When a source is rewritten, a class loses its markers as soon as every method without markers of its own is
    resolved; so it loses them although a method draws on them and is not resolved exactly if such a method has markers
    of its own and no other method keeps those of the class. The second pass changes nothing unless such a method can be
    resolved without the options of its class. -/
theorem ofSource_again (hlaid : s.Laid) (hnames : c.UnmarkedNames) (hwords : c.WordNames) (t : LookupTable)
    (path : Option Path) : ∃ r, ofSource c t path s = .ok r ∧
      (∀ cls ∈ s.classes, ∀ d ∈ cls.markers c,
        (removal s d.node ∈ edits c path s (Plan.ofSource c t s) ↔
          ∀ m ∈ cls.methods, m.markers c = [] → cls.handling c t s m ≠ .unresolved) ∧
        ((removal s d.node ∈ edits c path s (Plan.ofSource c t s) →
            ∀ m ∈ cls.methods, (optionsFor? c s (cls.markers c) m).isSome → cls.handling c t s m ≠ .unresolved) ↔
          ∀ m ∈ cls.methods, m.markers c ≠ [] → cls.handling c t s m = .unresolved →
            ∃ m' ∈ cls.methods, m'.markers c = [] ∧ cls.handling c t s m' = .unresolved)) ∧
      ∀ s', Reread c t path s s' → Again c t path s r s' := by
  obtain ⟨r, hr⟩ : ∃ r, ofSource c t path s = .ok r := exists_ofSource hlaid
  refine ⟨r, hr, fun cls hcls d hd => ?_, fun s' h => h.again hlaid hnames hwords hr⟩
  have hremoved : removal s d.node ∈ edits c path s (Plan.ofSource c t s) ↔
      ∀ m ∈ cls.methods, m.markers c = [] → cls.handling c t s m ≠ .unresolved :=
    removal_mem_edits_iff hlaid hcls hd
  refine ⟨hremoved, ?_⟩
  rw [hremoved]
  constructor
  · intro hdrawn m hm _ hunres
    by_contra hnone
    push Not at hnone
    exact hdrawn hnone m hm (isSome_of_unresolved hunres) hunres
  · intro hown hfree m hm _ hunres
    by_cases hmarkers : m.markers c = []
    · exact hfree m hm hmarkers hunres
    · obtain ⟨m', hm', hmarkers', hunres'⟩ := hown m hm hmarkers hunres
      exact hfree m' hm' hmarkers' hunres'

end Rewritten

namespace Users

/-- A controller with a marker that names a service, and a handler with a marker of its own. -/
def serving (decorator : String) : String :=
  "import \x7b InferAPIResponse \x7d from 'infer';\n" ++ decorator ++ "export class UsersController \x7b\n" ++
    "  @Get()\n  @InferAPIResponse()\n  findAll() \x7b\x7d\n\x7d\n"

def divided : String :=
  serving "@InferAPIResponse(\x7b serviceName: 'OrdersService' \x7d)\n"

set_option maxRecDepth 8000 in
theorem regains_divided : ∃ s s', Source.ofText? divided = some s ∧ Source.ofText? (serving "") = some s' ∧ s.Laid ∧
    Rewritten.Reread settings (table ["findAll"]) none s s' ∧
    ∃ cls ∈ s.classes, ∃ d, d ∈ cls.markers settings ∧
      ∃ m ∈ cls.methods, cls.Regains settings (table ["findAll"]) s m := by
  have h := Source.exists_both (a := divided) (b := serving "") (.append (.append (.append .piece .piece) .piece) .piece)
    (.append (.append (.append .piece .piece) .piece) .piece) (fun s s' => s.Laid ∧
    Rewritten.Reread settings (table ["findAll"]) none s s' ∧ ∃ cls ∈ s.classes, cls.markers settings ≠ [] ∧
      ∃ m ∈ cls.methods, cls.Regains settings (table ["findAll"]) s m) (by decide +kernel)
  obtain ⟨s, s', hs, hs', hlaid, hreread, cls, hcls, hmarkers, hregains⟩ := h
  exact ⟨s, s', hs, hs', hlaid, hreread, cls, hcls, _, List.head_mem hmarkers, hregains⟩

end Users

namespace Rewritten

/-- The class loses its marker, though its handler draws on it and is not resolved; so the second pass resolves the
    handler. -/
theorem divided_users_again : Users.settings.UnmarkedNames ∧ Users.settings.WordNames ∧ ∃ s s' r, s.Laid ∧
    Reread Users.settings (Users.table ["findAll"]) none s s' ∧
    ofSource Users.settings (Users.table ["findAll"]) none s = .ok r ∧
    (∃ cls ∈ s.classes, ∃ d ∈ cls.markers Users.settings, ∃ m ∈ cls.methods,
      cls.handling Users.settings (Users.table ["findAll"]) s m = .unresolved ∧
      removal s d.node ∈ edits Users.settings none s (Plan.ofSource Users.settings (Users.table ["findAll"]) s)) ∧
    ofSource Users.settings (Users.table ["findAll"]) none s' ≠ .ok { r with count := 0 } := by
  have hnames : Users.settings.UnmarkedNames := by decide
  have hwords : Users.settings.WordNames := by decide
  obtain ⟨s, s', -, -, hlaid, hreread, cls, hcls, d, hd, m, hm, hregains⟩ := Users.regains_divided
  obtain ⟨r, hr, hclass, hagain⟩ := ofSource_again hlaid hnames hwords (Users.table ["findAll"]) none
  have hremoved := (hclass cls hcls d hd).1.mpr (keepsMarkers_eq_false_iff.mp hregains.1)
  have hchanges : ofSource Users.settings (Users.table ["findAll"]) none s' ≠ .ok { r with count := 0 } := fun hstable =>
    (hagain s' hreread).stable.mp hstable cls hcls m hm hregains
  exact ⟨hnames, hwords, s, s', r, hlaid, hreread, hr, ⟨cls, hcls, d, hd, m, hm, hregains.2.1, hremoved⟩, hchanges⟩

end Rewritten

end ResponseShapes
