import Mathlib.Algebra.GroupWithZero.Nat
import Mathlib.Algebra.Order.BigOperators.Group.List
import Mathlib.Algebra.Order.Group.Nat
import ResponseShapes.Proofs.Marker.Settled
import ResponseShapes.Proofs.Syntax.Inside

/-! # Uses of markers that are no longer imported

The name of a marker leaves an import when as many markers were removed as classes and methods have. So every marker of
a class or a method is gone then, but only those were counted: a decorator that stands elsewhere, or that goes by
another name, still uses the name (`ofSource_dangles_iff`). -/

namespace ResponseShapes

open Syntax Syntax.Node

/-! ### Counting markers -/

namespace Plan

variable {c : Settings} {t : LookupTable} {s : Source}

theorem eq_of_sum_eq {α : Type} {xs : List α} {f g : α → Nat} (hle : ∀ x ∈ xs, f x ≤ g x)
    (h : (xs.map f).sum = (xs.map g).sum) : ∀ x ∈ xs, f x = g x := by
  induction xs with
  | nil => exact fun _ hx => nomatch hx
  | cons x xs ih =>
    have hxs := fun y hy => hle y (List.mem_cons_of_mem x hy)
    have hx := hle x List.mem_cons_self
    have hsum := List.sum_le_sum hxs
    simp only [List.map_cons, List.sum_cons] at h
    refine List.forall_mem_cons.mpr ⟨by omega, ih hxs (by omega)⟩

/-- When as many markers are removed as there are, every method with markers is documented and no class keeps its own. -/
theorem gone_of_removed_eq_markers (h : (ofSource c t s).removed = (ofSource c t s).markers) : ∀ cls ∈ s.classes,
    (∀ m ∈ cls.methods, m.markers c ≠ [] → (cls.handling c t s m).isDocumented = true) ∧
      (cls.markers c ≠ [] → cls.keepsMarkers c t s = false) := by
  have hmethod : ∀ (cls : ClassDeclaration) (m : Method),
      (if (cls.handling c t s m).isDocumented then (m.markers c).length else 0) ≤ (m.markers c).length :=
    fun cls m => by split <;> omega
  have hmethods : ∀ cls : ClassDeclaration, (cls.methods.map fun m =>
      if (cls.handling c t s m).isDocumented then (m.markers c).length else 0).sum ≤
        (cls.methods.map fun m => (m.markers c).length).sum := fun cls => List.sum_le_sum fun m _ => hmethod cls m
  have hown : ∀ cls : ClassDeclaration,
      (if cls.keepsMarkers c t s then 0 else (cls.markers c).length) ≤ (cls.markers c).length := fun cls => by
    split <;> omega
  have hclass : ∀ cls ∈ s.classes, (ofClass c t s cls).removed = (ofClass c t s cls).markers := by
    refine eq_of_sum_eq (fun cls _ => ?_) ?_
    · rw [ofClass_eq]
      exact Nat.add_le_add (hmethods cls) (hown cls)
    · simpa [ofSource, join_eq, List.map_map, Function.comp_def] using h
  intro cls hcls
  have hsum := hclass cls hcls
  rw [ofClass_eq] at hsum
  dsimp only at hsum
  have hle := hmethods cls
  have hle' := hown cls
  refine ⟨fun m hm hne => ?_, fun hne => ?_⟩
  · have hlength := eq_of_sum_eq (fun m _ => hmethod cls m) (by omega) m hm
    by_contra hdoc
    rw [if_neg hdoc] at hlength
    exact hne (List.length_eq_zero_iff.mp hlength.symm)
  · by_contra hkeep
    have hlength := List.length_pos_iff.mpr hne
    rw [if_pos (by simpa using hkeep)] at hsum
    omega

end Plan

/-- Whether the import no longer lists what is written so. -/
def ImportChange.drops (text : String) : ImportChange → Bool
  | .kept => false
  | .removed => true
  | .relisted specifiers => !specifiers.contains text

namespace Rewritten

/-- Rewriting drops the specifier of a marker from an import. -/
structure Drops (c : Settings) (t : LookupTable) (path : Option Path) (s : Source) (i : Import)
    (specifier : ImportSpecifier) : Prop where
  edited : edits c path s (Plan.ofSource c t s) ≠ []
  mem : specifier ∈ i.specifiers
  marker : specifier.name ∈ c.conventions.markers
  dropped : ∃ change, (i, change) ∈ importChanges c ((Plan.ofSource c t s).needs c path s.imports) s.imports ∧
    change.drops specifier.text = true

/-- The node lies in a marker of a class or of a method. -/
def InMarker (c : Settings) (s : Source) (n : Node) : Prop :=
  ∃ cls ∈ s.classes, ∃ d ∈ cls.allDecorators, isMarker c.conventions d = true ∧ d.node.start ≤ n.start ∧
    n.stop ≤ d.node.stop

instance (c : Settings) (s : Source) (n : Node) : Decidable (InMarker c s n) :=
  inferInstanceAs (Decidable (∃ _ ∈ _, ∃ _ ∈ _, _))

variable {c : Settings} {t : LookupTable} {path : Option Path} {s s' : Source} {i : Import}
  {specifier : ImportSpecifier} {n x statement : Node}

/-- An import drops the specifier of a marker only if all markers are gone. -/
theorem Drops.removed_eq_markers (h : Drops c t path s i specifier) :
    (Plan.ofSource c t s).removed = (Plan.ofSource c t s).markers := by
  obtain ⟨change, hchange, hdrops⟩ := h.dropped
  obtain ⟨⟨i', k⟩, -, heq⟩ := List.mem_map.mp hchange
  obtain ⟨rfl, rfl⟩ := Prod.mk.inj heq
  by_contra hne
  have hdrop : ((Plan.ofSource c t s).needs c path s.imports).dropMarkers = false := decide_eq_false hne
  have hmem : specifier.text ∈ i'.specifiers.map (·.text) := List.mem_map_of_mem h.mem
  rw [hdrop] at hdrops
  revert hdrops
  unfold importChange
  generalize (if frameworkImport? c.documentation s.imports = some k then _ else _ : List String) = added
  have hremaining : remainingSpecifiers c.conventions false i' = i'.specifiers.map (·.text) := rfl
  rw [hremaining]
  dsimp only
  split
  · exact Bool.noConfusion
  · split
    · rename_i hempty
      rw [List.isEmpty_iff, List.append_eq_nil_iff] at hempty
      rw [hempty.1] at hmem
      cases hmem
    · simp only [ImportChange.drops, Bool.not_eq_true', List.contains_eq_mem, decide_eq_false_iff_not]
      exact fun h => absurd (List.mem_append_left added hmem) h

theorem Drops.givenUp (h : Drops c t path s i specifier) {cls : ClassDeclaration} {d : Decorator}
    (hcls : cls ∈ s.classes) (hd : d ∈ cls.allDecorators) (hmark : isMarker c.conventions d = true) :
    GivenUp c t path s d.node := by
  obtain ⟨hmethods, hown⟩ := Plan.gone_of_removed_eq_markers h.removed_eq_markers cls hcls
  rcases List.mem_append.mp hd with hd | hd
  · obtain ⟨m, hm, hd⟩ := List.mem_flatMap.mp hd
    have hd : d ∈ m.markers c := mem_markersOf.mpr ⟨hd, hmark⟩
    exact .marker hcls hm (hmethods m hm (List.ne_nil_of_mem hd)) hd
  · have hd : d ∈ cls.markers c := mem_markersOf.mpr ⟨hd, hmark⟩
    exact .classMarker hcls (hown (List.ne_nil_of_mem hd)) hd

/-! ### Decorators that remain -/

theorem mem_statements : statement ∈ s.statements ↔
    statement ∈ s.root.children ∧ statement.isNote = false ∧ statement.kind ≠ .importStatement := by
  simp [Source.statements, mem_parts, and_assoc]

section Laid
variable (hlaid : s.Laid)
include hlaid

theorem begins_of_inside {p : Node → Prop} (hstatement : statement ∈ s.statements) (hx : Inside p statement x)
    (hkind : x.kind = .decorator) : x.Begins s.text := by
  have hroot := (mem_statements.mp hstatement).1
  have hchild : ∀ {y : Node}, Below s.root y → x ∈ y.children → x.Begins s.text := fun hy hx =>
    ((Node.Laid.below hlaid hy).1.child hx).begins (isLead_of_decorator hkind)
  have hlast : ∀ {y z : Node}, Below y z → z = y ∨ ∃ u, Below y u ∧ z ∈ u.children := fun h => by
    induction h with
    | refl => exact Or.inl rfl
    | @child p c n hc _ ih =>
      rcases ih with rfl | ⟨u, hu, hz⟩
      · exact Or.inr ⟨p, .refl p, hc⟩
      · exact Or.inr ⟨u, .child hc hu, hz⟩
  rcases hlast hx.to_below with rfl | ⟨u, hu, hx⟩
  · exact hchild (.refl _) hroot
  · exact hchild (.child hroot hu) hx

/-- What stands in a statement stands in no import. -/
theorem not_below_import (hstatement : statement ∈ s.statements) (hx : Below statement x) (hspan : x.start < x.stop)
    (hn : n ∈ s.root.childrenOf .importStatement) : ¬Below n x := by
  intro hnx
  obtain ⟨hroot, -, hkind⟩ := mem_statements.mp hstatement
  rcases hlaid.clear_of_import hn hroot hkind hx with h | h
  · have := ((Node.Laid.child hlaid (mem_childrenOf.mp hn).1).laid.below hnx).2
    omega
  · have := ((Node.Laid.child hlaid (mem_childrenOf.mp hn).1).laid.below hnx).2
    omega

/-- A decorator stands in nothing that is given up if all on the way to it remains. -/
theorem not_below_of_remains (hstatement : statement ∈ s.statements)
    (hremains : statement.Remains (edits c path s (Plan.ofSource c t s)))
    (hx : Inside (Remains (edits c path s (Plan.ofSource c t s))) statement x) (hkind : x.kind = .decorator) :
    ∀ n, GivenUp c t path s n → ¬Below n x := by
  intro n hn hnx
  have hspan := (begins_of_inside hlaid hstatement hx hkind).1
  have hroot := (mem_statements.mp hstatement).1
  have hdecorator : ∀ {cls : ClassDeclaration} {d : Decorator}, cls ∈ s.classes → d ∈ cls.allDecorators →
      GivenUp c t path s d.node → ¬Below d.node x := by
    intro cls d hcls hd hgiven hdx
    obtain ⟨statement', outer, hroot', -, -, hat⟩ := Source.exists_classAt hcls
    have hbelow := (hat.decorator_inside (Node.Laid.child hlaid hroot').laid hd).1
    have hsame : statement' = statement := by
      by_contra hne
      rcases Node.Laid.cousins_clear hlaid hroot' hroot hne (hbelow.trans hdx) hx.to_below with h | h <;> omega
    rw [hsame] at hbelow
    have hstay : d.node.Remains (edits c path s (Plan.ofSource c t s)) := by
      rcases hx.around (Node.Laid.child hlaid hroot).laid hspan hbelow hdx with heq | hstay
      · rw [heq]
        exact hremains
      · exact hstay
    rcases pieceOf_of_givenUp hlaid hcls hd hgiven with hp | hp <;> rcases hstay with h | h <;> rw [hp] at h <;> cases h
  cases hn with
  | marker hcls hm hdoc hd =>
    exact hdecorator hcls (mem_allDecorators_of_method hm (mem_markersOf.mp hd).1) (.marker hcls hm hdoc hd) hnx
  | classMarker hcls hkeep hd =>
    exact hdecorator hcls (List.mem_append_right _ (mem_markersOf.mp hd).1) (.classMarker hcls hkeep hd) hnx
  | changedImport _ hchange _ =>
    exact not_below_import hlaid hstatement hx.to_below hspan (import_child hlaid hchange).1 hnx

/-- What stands in nothing that is given up remains. -/
theorem remains_of_not_below (hstatement : statement ∈ s.statements) (hx : Inside (fun _ => True) statement x)
    (hout : ∀ n, GivenUp c t path s n → ¬Below n x) : x.Remains (edits c path s (Plan.ofSource c t s)) := by
  by_cases hkind : x.kind = .decorator
  · have hbegins := begins_of_inside hlaid hstatement hx hkind
    have hfree := (spared_of_decorator hlaid (mem_statements.mp hstatement).1 hx.to_below hkind hout).untouched_of_begins
      hlaid hbegins
    have hcover : ¬x.Covered (edits c path s (Plan.ofSource c t s)) := by
      rintro ⟨e, he, hstart, hstop⟩
      have hspan := hbegins.1
      rcases hfree e he with h | h <;> omega
    unfold Remains
    rw [pieceOf_of_not_covered hkind hcover]
    split
    · exact Or.inr rfl
    · exact Or.inl rfl
  · exact Or.inl (pieceOf_of_kind_ne hkind)

/-- A decorator in nothing that is given up lies in no marker, if all markers are given up. -/
theorem not_inMarker (hstatement : statement ∈ s.statements) (hx : Inside (fun _ => True) statement x)
    (hkind : x.kind = .decorator) (hout : ∀ n, GivenUp c t path s n → ¬Below n x)
    (hall : ∀ cls ∈ s.classes, ∀ d ∈ cls.allDecorators, isMarker c.conventions d = true →
      GivenUp c t path s d.node) : ¬InMarker c s x := by
  rintro ⟨cls, hcls, d, hd, hmark, hstart, hstop⟩
  have hspan := (begins_of_inside hlaid hstatement hx hkind).1
  have hroot := (mem_statements.mp hstatement).1
  have hsite : Site s d.node := .decorator hcls hd
  have hgiven := hall cls hcls d hd hmark
  rcases Node.Laid.nested_or_clear hlaid (.child hroot hx.to_below) (hsite.below hlaid).1 with h | h | h
  · exact hout _ hgiven (hsite.below_of_around hlaid hroot hx.to_below hkind h)
  · exact hout _ hgiven h
  · rcases h with h | h <;> omega

theorem not_below_of_not_inMarker (hstatement : statement ∈ s.statements) (hx : Inside (fun _ => True) statement x)
    (hkind : x.kind = .decorator) (hout : ¬InMarker c s x) : ∀ n, GivenUp c t path s n → ¬Below n x := by
  intro n hn hnx
  have hin : ∀ {cls : ClassDeclaration} {d : Decorator}, cls ∈ s.classes → d ∈ cls.allDecorators →
      isMarker c.conventions d = true → ¬Below d.node x := by
    intro cls d hcls hd hmark hdx
    have hlaid' := (Node.Laid.below hlaid ((Site.decorator hcls hd).below hlaid).1).1
    obtain ⟨-, hstart, hstop⟩ := hlaid'.below hdx
    exact hout ⟨cls, hcls, d, hd, hmark, hstart, hstop⟩
  cases hn with
  | marker hcls hm _ hd =>
    obtain ⟨hd, hmark⟩ := mem_markersOf.mp hd
    exact hin hcls (mem_allDecorators_of_method hm hd) hmark hnx
  | classMarker hcls _ hd =>
    obtain ⟨hd, hmark⟩ := mem_markersOf.mp hd
    exact hin hcls (List.mem_append_right _ hd) hmark hnx
  | changedImport _ hchange _ =>
    exact not_below_import hlaid hstatement hx.to_below (begins_of_inside hlaid hstatement hx hkind).1
      (import_child hlaid hchange).1 hnx

/-- Once an import has dropped the specifier of a marker, the decorators of the result are new ones, with what stands in
    them, and the decorators that lay in no marker of a class or a method, which read as before. -/
theorem Reread.remaining (h : Reread c t path s s')
    (hall : ∀ cls ∈ s.classes, ∀ d ∈ cls.allDecorators, isMarker c.conventions d = true →
      GivenUp c t path s d.node) :
    (∀ n' ∈ s'.everyDecorator, (∃ d' ∈ s'.everyDecorator, d'.Fresh c.documentation.newNames s' ∧ n' ∈ d'.nodes) ∨
      ∃ n ∈ s.everyDecorator, ¬InMarker c s n ∧ n.Alike s s' n') ∧
    ∀ n ∈ s.everyDecorator, ¬InMarker c s n → ∃ n' ∈ s'.everyDecorator, n.Alike s s' n' := by
  have hread : ∀ {statement n n' : Node}, statement ∈ s.statements → Below statement n → n.kind = .decorator →
      (∀ g, GivenUp c t path s g → ¬Below g n) → n.Begins s.text →
      n.Spliced (edits c path s (Plan.ofSource c t s)) c.documentation.newNames s' n' → n.Alike s s' n' := by
    intro statement n n' hstatement hn hkind hout hbegins hrel
    have hroot := (mem_statements.mp hstatement).1
    have hfree := (spared_of_decorator hlaid hroot hn hkind hout).untouched_of_begins hlaid hbegins
    exact Spliced.alike (h.carried hlaid) n n' (Node.Laid.below hlaid (.child hroot hn)).1 hfree hrel
  refine ⟨fun n' hn' => ?_, fun n hn hout => ?_⟩
  · obtain ⟨hkind', statement', hstatement', hn'⟩ := Source.mem_everyDecorator.mp hn'
    have hfresh : ∀ {d'}, d' ∈ statement'.nodes → d'.Fresh c.documentation.newNames s' → d' ∈ s'.everyDecorator :=
      fun hd' hfresh => Source.mem_everyDecorator.mpr ⟨hfresh.1, statement', hstatement', hd'⟩
    rcases h.statements.mem hstatement' with hnew | ⟨statement, hstatement, hrel, hremains⟩
    · exact Or.inl ⟨statement', hfresh (mem_nodes.mpr (Or.inl rfl)) hnew, hnew, hn'⟩
    · rcases hrel.origin hn' with ⟨d', hd', hnew, hn'⟩ | ⟨n, hn, hrel⟩
      · exact Or.inl ⟨d', hfresh hd' hnew, hnew, hn'⟩
      · have hkind : n.kind = .decorator := hrel.kind_eq ▸ hkind'
        have hout := not_below_of_remains hlaid hstatement hremains hn hkind
        have hbegins := begins_of_inside hlaid hstatement hn hkind
        have hplain : Inside (fun _ => True) statement n := hn.imp_of_way fun _ _ _ _ => trivial
        exact Or.inr ⟨n, Source.mem_everyDecorator.mpr ⟨hkind, statement, hstatement, mem_nodes_iff.mpr hplain⟩,
          not_inMarker hlaid hstatement hplain hkind hout hall, hread hstatement hn.to_below hkind hout hbegins hrel⟩
  · obtain ⟨hkind, statement, hstatement, hn⟩ := Source.mem_everyDecorator.mp hn
    replace hn := mem_nodes_iff.mp hn
    have hout : ∀ g, GivenUp c t path s g → ¬Below g n := not_below_of_not_inMarker hlaid hstatement hn hkind hout
    -- Nothing on the way to the decorator stands in what is given up either.
    have hremains : ∀ m, Inside (fun _ => True) statement m → Below m n →
        m.Remains (edits c path s (Plan.ofSource c t s)) := fun m hm hmn =>
      remains_of_not_below hlaid hstatement hm fun g hg hgm => hout g hg (hgm.trans hmn)
    obtain ⟨-, hnote, -⟩ := mem_statements.mp hstatement
    obtain ⟨statement', hstatement', hrel⟩ := h.statements.exists_spliced hstatement hnote
      (hremains statement (.refl _) hn.to_below)
    obtain ⟨n', hn', hrel⟩ := hrel.exists_node (hn.imp_of_way fun m hm hmn _ => hremains m hm hmn)
    exact ⟨n', Source.mem_everyDecorator.mpr ⟨hrel.kind_eq.trans hkind, statement', hstatement', hn'⟩,
      hread hstatement hn.to_below hkind hout (begins_of_inside hlaid hstatement hn hkind) hrel⟩

/-- When an import drops the specifier of a marker, a decorator of the result mentions the name that it bound exactly if
    one did that lay in no marker of a class or a method, or if a new one does. -/
theorem ofSource_dangles_iff (h : Reread c t path s s') (hdrop : Drops c t path s i specifier) :
    ∃ r, ofSource c t path s = .ok r ∧ r.text.toList = s'.text ∧
      ((∃ n' ∈ s'.everyDecorator, n'.mentions s' specifier.localName = true) ↔
        (∃ n ∈ s.everyDecorator, ¬InMarker c s n ∧ n.mentions s specifier.localName = true) ∨
          ∃ d' ∈ s'.everyDecorator, d'.Fresh c.documentation.newNames s' ∧
            d'.mentions s' specifier.localName = true) := by
  obtain ⟨r, hr⟩ : ∃ r, ofSource c t path s = .ok r := exists_ofSource hlaid
  have htext := (ofSource_eq_ok.mp hr).1
  rw [h.text] at htext
  obtain ⟨hnew, hold⟩ := h.remaining hlaid fun cls hcls d hd hmark => hdrop.givenUp hcls hd hmark
  refine ⟨r, hr, (Except.ok.inj htext).symm, ?_, ?_⟩
  · rintro ⟨n', hn', hmention⟩
    rcases hnew n' hn' with ⟨d', hd', hfresh, hmem⟩ | ⟨n, hn, hout, halike⟩
    · exact Or.inr ⟨d', hd', hfresh, mentions_of_mem hmem hmention⟩
    · exact Or.inl ⟨n, hn, hout, (halike.mentions_eq _).symm.trans hmention⟩
  · rintro (⟨n, hn, hout, hmention⟩ | ⟨d', hd', -, hmention⟩)
    · obtain ⟨n', hn', halike⟩ := hold n hn hout
      exact ⟨n', hn', (halike.mentions_eq _).trans hmention⟩
    · exact ⟨d', hd', hmention⟩

end Laid

end Rewritten

namespace Edit

/-- Edits that are given in the order in which they are made. -/
theorem apply_of_pairwise {α : Type} {xs : List α} {es : List (Edit α)}
    (h : es.Pairwise fun a b => notBefore a b = true) : apply xs es = applyFrom (xs.length + 1) xs es := by
  rw [apply, inOrder, List.mergeSort_of_pairwise h]

end Edit

namespace Users

/-- A controller with a field and a handler that are both marked. -/
def labelled (marker decorator : String) : String :=
  marker ++ "import \x7b ApiOkResponse \x7d from '@nestjs/swagger';\nimport \x7b UsersServiceResponse \x7d from './users';\n" ++
    "export class UsersController \x7b\n  @InferAPIResponse()\n  label = '';\n\n  @Get()\n  " ++ decorator ++
    "\n  findOne() \x7b\x7d\n\x7d\n"

def labelledBefore : String :=
  labelled "import \x7b InferAPIResponse \x7d from 'infer';\n" "@InferAPIResponse()"

def labelledAfter : String :=
  labelled "" "@ApiOkResponse(\x7b type: UsersServiceResponse.findOne \x7d)"

set_option maxRecDepth 8000 in
theorem reread_labelled : ∃ s s', Source.ofText? labelledBefore = some s ∧ Source.ofText? labelledAfter = some s' ∧
    s.Laid ∧ Rewritten.Reread settings (table ["findOne"]) none s s' ∧
    (∃ i specifier, Rewritten.Drops settings (table ["findOne"]) none s i specifier ∧
      specifier.localName = "InferAPIResponse") ∧
    ∃ n ∈ s.everyDecorator, ¬Rewritten.InMarker settings s n ∧ n.mentions s "InferAPIResponse" = true := by
  obtain ⟨s, s', hs, hs', hlaid, ⟨hsorted, htext, hstatements⟩, ⟨hedited, ⟨i, change⟩, hx, p, hp, hmarker, hdropped, hname⟩,
      hmention⟩ := Source.exists_both (a := labelledBefore) (b := labelledAfter)
    (.append (.append (.append (.append .piece .piece) .piece) .piece) .piece)
    (.append (.append (.append (.append .piece .piece) .piece) .piece) .piece)
    (fun s s' =>
      let es := Rewritten.edits settings none s (Plan.ofSource settings (table ["findOne"]) s)
      s.Laid ∧ (es.Pairwise (fun a b => Edit.notBefore a b = true) ∧
        Edit.applyFrom (s.text.length + 1) s.text es = .ok s'.text ∧
        SplicedAll es settings.documentation.newNames s' s.statements s'.statements) ∧
      (es ≠ [] ∧ ∃ x ∈ importChanges settings ((Plan.ofSource settings (table ["findOne"]) s).needs settings none
          s.imports) s.imports, ∃ p ∈ x.1.specifiers, p.name ∈ settings.conventions.markers ∧ x.2.drops p.text = true ∧
            p.localName = "InferAPIResponse") ∧
      ∃ n ∈ s.everyDecorator, ¬Rewritten.InMarker settings s n ∧ n.mentions s "InferAPIResponse" = true)
    (by decide +kernel)
  exact ⟨s, s', hs, hs', hlaid, ⟨(Edit.apply_of_pairwise hsorted).trans htext, hstatements⟩,
    ⟨i, p, ⟨hedited, hp, hmarker, change, hx, hdropped⟩, hname⟩, hmention⟩

end Users

namespace Rewritten

/-- The decorator of the field uses a name that is no longer imported. -/
theorem ofSource_dangles_labelled : ∃ s s' i specifier, s.Laid ∧
    Reread Users.settings (Users.table ["findOne"]) none s s' ∧
    Drops Users.settings (Users.table ["findOne"]) none s i specifier ∧
    ∃ r, ofSource Users.settings (Users.table ["findOne"]) none s = .ok r ∧ r.text = Users.labelledAfter ∧
      specifier.localName = "InferAPIResponse" ∧ ∃ n' ∈ s'.everyDecorator, n'.mentions s' "InferAPIResponse" = true := by
  obtain ⟨s, s', hs, hs', hlaid, hreread, ⟨i, p, hdrop, hname⟩, hmention⟩ := Users.reread_labelled
  obtain ⟨r, hr, htext, hiff⟩ := ofSource_dangles_iff hlaid hreread hdrop
  rw [hname] at hiff
  rw [Source.text_of_ofText? hs'] at htext
  exact ⟨s, s', i, p, hlaid, hreread, hdrop, r, hr, String.toList_injective htext, hname, hiff.mpr (Or.inl hmention)⟩

end Rewritten

end ResponseShapes
