import ResponseShapes.Proofs.Marker.Mention
import ResponseShapes.Proofs.Marker.Reread

/-! # When everything is resolved

A method that is documented loses its markers, and a class of which no method is left unresolved loses its own. So when
everything is resolved no marker is left, and a text without markers stays as it is. -/

namespace ResponseShapes

open Syntax Syntax.Node

namespace Rewritten

variable {c : Settings} {t : LookupTable} {path : Option Path} {s s' : Source}

theorem Reread.unmarked_of_resolved (hlaid : s.Laid) (h : Reread c t path s s') (hnames : c.UnmarkedNames)
    (hresolved : (Plan.ofSource c t s).unresolved = []) :
    ∀ cls' ∈ s'.classes, ∀ d' ∈ cls'.allDecorators, isMarker c.conventions d' = false := by
  rw [Plan.unresolved_eq_nil_iff] at hresolved
  intro cls' hcls' d' hd'
  obtain ⟨cls, hcls, hrel⟩ := related_right (h.classes hlaid) hcls'
  have hnone : ∀ {ds : List Decorator}, markersOf c.conventions ds = [] → d' ∈ ds →
      isMarker c.conventions d' = false := by
    intro ds hmarkers hmem
    rw [markersOf, List.filter_eq_nil_iff] at hmarkers
    exact Bool.eq_false_iff.mpr (hmarkers d' hmem)
  rcases List.mem_append.mp hd' with hd' | hd'
  · obtain ⟨m', hm', hd'⟩ := List.mem_flatMap.mp hd'
    obtain ⟨m, hm, hrelm⟩ := related_right hrel.methods hm'
    refine hnone ?_ hd'
    cases hh : cls.handling c t s m with
    | documented mapping o =>
      exact h.markers_of_documented hlaid hcls hm hrelm hnames (Handling.isDocumented_iff.mpr ⟨mapping, o, hh⟩)
    | unmarked =>
      -- A method that is not marked keeps its decorators, and none of them is a marker.
      have halike := markersOf_alike (c := c) (h.method_alike hlaid hcls hm hrelm (by rw [hh]; rfl)).decorators
      have hmarkers := markers_eq_nil_of_unmarked hh
      unfold Method.markers at hmarkers
      rwa [hmarkers, List.forall₂_nil_left_iff] at halike
    | unresolved => exact absurd hh (hresolved cls hcls m hm)
  · exact hnone (h.markers_of_class hlaid hcls hrel hnames (Plan.keepsMarkers_eq_false (hresolved cls hcls))) hd'

/-- A text stays as it is if it cannot be read, or if its source has no markers. -/
theorem ofText_of_unmarked {text : String} (h : ∀ s', Source.ofText? text = some s' →
    ∀ cls ∈ s'.classes, ∀ d ∈ cls.allDecorators, isMarker c.conventions d = false) :
    ∃ rows, ofText c t path text = .ok (unchanged text, rows) := by
  cases hs : Source.ofText? text with
  | none =>
    unfold ofText
    rw [hs]
    split
    · exact ⟨_, rfl⟩
    · exact ⟨_, rfl⟩
  | some s' =>
    rw [ofText_eq_ofSource hs, ofSource_of_unmarked (h s' hs), Source.text_of_ofText? hs, String.ofList_toList]
    exact ⟨_, rfl⟩

/-- When everything is resolved, all markers are removed: no class and no method of the result is marked, and a second
    pass changes nothing, be the result a text that can be read or not. -/
theorem ofSource_settles (hlaid : s.Laid) (hnames : c.UnmarkedNames) (t : LookupTable) (path : Option Path) :
    ∃ r, ofSource c t path s = .ok r ∧ (r.unresolved = [] →
      (Plan.ofSource c t s).removed = (Plan.ofSource c t s).markers ∧
      (∀ s', Reread c t path s s' →
        (∀ cls ∈ s'.classes, ∀ d ∈ cls.allDecorators, isMarker c.conventions d = false) ∧
          ofSource c t path s' = .ok (unchanged r.text)) ∧
      ∀ text, Source.ofText? text = some s → (∀ s', Source.ofText? r.text = some s' → Reread c t path s s') →
        ofText c t path text = .ok (r, []) ∧ ∃ rows, ofText c t path r.text = .ok (unchanged r.text, rows)) := by
  obtain ⟨r, hr⟩ : ∃ r, ofSource c t path s = .ok r := exists_ofSource hlaid
  obtain ⟨htext, -, hunresolved⟩ := ofSource_eq_ok.mp hr
  refine ⟨r, hr, fun hnone => ?_⟩
  have hresolved := hunresolved.symm.trans hnone
  have hunmarked := fun s' (h : Reread c t path s s') => h.unmarked_of_resolved hlaid hnames hresolved
  refine ⟨Plan.removed_eq_markers hresolved, fun s' h => ⟨hunmarked s' h, ?_⟩, fun text hs hreread => ⟨?_, ?_⟩⟩
  · have hsame : s'.text = r.text.toList := Except.ok.inj (h.text.symm.trans htext)
    rw [ofSource_of_unmarked (hunmarked s' h), hsame, String.ofList_toList]
  · rw [ofText_eq_ofSource hs, hr]
    change Except.ok (r, rows r.unresolved) = _
    rw [hnone]
    rfl
  · exact ofText_of_unmarked fun s' hs' => hunmarked s' (hreread s' hs')

end Rewritten

namespace Users

/-- A controller with a handler that is marked; what the new decorator needs is imported. -/
def imported (decorator : String) : String :=
  "import \x7b ApiOkResponse \x7d from '@nestjs/swagger';\nimport \x7b UsersServiceResponse \x7d from './users';\n" ++
    "export class UsersController \x7b\n  @Get()\n  " ++ decorator ++ "\n  findOne() \x7b\x7d\n\x7d\n"

def needed : String :=
  imported "@InferAPIResponse()"

def documented : String :=
  imported "@ApiOkResponse(\x7b type: UsersServiceResponse.findOne \x7d)"

set_option maxRecDepth 8000 in
theorem reread_documented : ∃ s s', Source.ofText? needed = some s ∧ Source.ofText? documented = some s' ∧ s.Laid ∧
    Rewritten.Reread settings (table ["findOne"]) none s s' ∧
    (Plan.ofSource settings (table ["findOne"]) s).unresolved = [] := by
  refine Source.exists_both (.append (.append (.append .piece .piece) .piece) .piece)
    (.append (.append (.append .piece .piece) .piece) .piece) (fun s s' => s.Laid ∧ Rewritten.Reread settings (table ["findOne"]) none s s' ∧
    (Plan.ofSource settings (table ["findOne"]) s).unresolved = []) ?_
  decide +kernel

end Users

namespace Rewritten

theorem ofText_needed_users : Users.settings.UnmarkedNames ∧ ∃ s s', s.Laid ∧
    Reread Users.settings (Users.table ["findOne"]) none s s' ∧
    ∃ r, ofText Users.settings (Users.table ["findOne"]) none Users.needed = .ok (r, []) ∧ r.text = Users.documented ∧
      ofSource Users.settings (Users.table ["findOne"]) none s' = .ok (unchanged r.text) ∧
      ∃ rows, ofText Users.settings (Users.table ["findOne"]) none r.text = .ok (unchanged r.text, rows) := by
  have hnames : Users.settings.UnmarkedNames := by decide
  obtain ⟨s, s', hs, hs', hlaid, hreread, hresolved⟩ := Users.reread_documented
  obtain ⟨r, hr, hsettled⟩ := ofSource_settles hlaid hnames (Users.table ["findOne"]) none
  obtain ⟨htext, -, hunresolved⟩ := ofSource_eq_ok.mp hr
  have hsame : r.text = Users.documented := by
    rw [hreread.text, Source.text_of_ofText? hs'] at htext
    exact (String.toList_injective (Except.ok.inj htext)).symm
  obtain ⟨-, hsource, hagain⟩ := hsettled (hunresolved.trans hresolved)
  have honly : ∀ s₂, Source.ofText? r.text = some s₂ → Reread Users.settings (Users.table ["findOne"]) none s s₂ := by
    intro s₂ hs₂
    rw [hsame, hs'] at hs₂
    exact Option.some.inj hs₂ ▸ hreread
  obtain ⟨hfirst, hsecond⟩ := hagain Users.needed hs honly
  exact ⟨hnames, s, s', hlaid, hreread, r, hfirst, hsame, (hsource s' hreread).2, hsecond⟩

end Rewritten

end ResponseShapes
