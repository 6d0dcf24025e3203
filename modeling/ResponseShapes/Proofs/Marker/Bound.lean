import Mathlib.Data.List.Forall2
import ResponseShapes.Marker.Imports
import ResponseShapes.Proofs.Entries
import ResponseShapes.Proofs.Marker.Plan

/-! # What imports list

Changing the imports of a source keeps every specifier but those of markers and adds each missing name once. The imports
are told by what they list: what stays of one and what comes to it (`Listing`), and the new imports with their names. -/

namespace ResponseShapes

open Syntax

/-- A name that is listed under itself. -/
def Syntax.ImportSpecifier.bare (name : String) : ImportSpecifier :=
  { name, rename := none, text := name }

/-- The specifiers of an import that stay when those of markers may be dropped. -/
def Syntax.Import.staying (c : Conventions) (drop : Bool) (i : Import) : List ImportSpecifier :=
  if drop && !i.hasOtherBindings then i.specifiers.filter fun p => !c.markers.contains p.name else i.specifiers

/-- After the change the import lists these specifiers. -/
def ImportChange.Lists (i : Import) : ImportChange → List ImportSpecifier → Prop
  | .kept, ps => ps = i.specifiers
  | .removed, ps => ps = []
  | .relisted texts, ps => texts = ps.map (·.text)

/-- What an import lists after the changes: what stays, and the names that come to it. -/
structure Listing where
  before : Import
  kept : List ImportSpecifier
  added : List String

def Listing.specifiers (l : Listing) : List ImportSpecifier :=
  l.kept ++ l.added.map .bare

/-- The names that come to the import at a position. -/
def addedTo (docs : Documentation) (needs : ImportNeeds) (imports : List Import) (k : Nat) : List String :=
  if frameworkImport? docs imports = some k then needs.decorators else []

/-- What the imports of a source list after the changes. -/
def listings (c : Settings) (needs : ImportNeeds) (imports : List Import) : List Listing :=
  imports.zipIdx.map fun (i, k) =>
    { before := i, kept := i.staying c.conventions needs.dropMarkers, added := addedTo c.documentation needs imports k }

/-- The new imports, each with its names and its module. -/
def newImports (docs : Documentation) (needs : ImportNeeds) (imports : List Import) : List (List String × String) :=
  (if (frameworkImport? docs imports).isNone && !needs.decorators.isEmpty then [(needs.decorators, docs.module)]
    else []) ++ needs.lookups.map fun l => ([l.name], l.specifier)

variable {c : Settings} {docs : Documentation} {needs : ImportNeeds} {path : Option Path} {imports : List Import}
  {p : Plan} {i : Import} {k : Nat} {drop : Bool} {added : List String} {name : String}

/-! ### One import -/

theorem staying_sublist (c : Conventions) (drop : Bool) (i : Import) : (i.staying c drop).Sublist i.specifiers := by
  unfold Import.staying
  split
  · exact List.filter_sublist
  · exact List.Sublist.refl _

/-- A specifier of a name that is no marker stays. -/
theorem mem_staying {c : Conventions} {q : ImportSpecifier} (hq : q ∈ i.specifiers) (h : q.name ∉ c.markers) :
    q ∈ i.staying c drop := by
  unfold Import.staying
  split
  · exact List.mem_filter.mpr ⟨hq, by simpa using h⟩
  · exact hq

/-- Only specifiers of markers go. -/
theorem filter_staying (c : Conventions) (drop : Bool) (i : Import) :
    (i.staying c drop).filter (fun q => !c.markers.contains q.name) =
      i.specifiers.filter fun q => !c.markers.contains q.name := by
  unfold Import.staying
  split
  · rw [List.filter_filter]
    simp
  · rfl

theorem remainingSpecifiers_eq (c : Conventions) (drop : Bool) (h : i.hasOtherBindings = false) :
    remainingSpecifiers c drop i = (i.staying c drop).map (·.text) := by
  unfold remainingSpecifiers Import.staying
  rw [h, Bool.not_false, Bool.and_true]

/-- When dropping markers and adding names leaves the texts as they are, nothing was dropped and nothing added: what was
    dropped would have been written like what was added. -/
theorem staying_of_texts {c : Conventions} (hmarkers : ∀ q ∈ i.specifiers, q.name ∈ c.markers → q.text ∉ added)
    (h : (i.staying c drop).map (·.text) ++ added = i.specifiers.map (·.text)) :
    i.staying c drop ++ added.map .bare = i.specifiers := by
  suffices i.staying c drop = i.specifiers by
    rw [this] at h ⊢
    rw [List.append_right_eq_self.mp h]
    exact List.append_nil _
  unfold Import.staying at h ⊢
  split at h
  · rename_i hdrop
    rw [if_pos hdrop]
    refine List.filter_eq_self.mpr fun q hq => ?_
    by_contra hmarker
    have hperm := (List.filter_append_perm (fun q => !c.markers.contains q.name) i.specifiers).map (·.text)
    rw [← h, List.map_append] at hperm
    have hadded := (List.perm_append_left_iff _).mp hperm
    refine hmarkers q hq (by simpa using hmarker) (hadded.mem_iff.mp (List.mem_map_of_mem ?_))
    exact List.mem_filter.mpr ⟨hq, by simpa using hmarker⟩
  · rename_i hdrop
    rw [if_neg hdrop]

theorem importChange_lists {c : Conventions} (hmarkers : ∀ q ∈ i.specifiers, q.name ∈ c.markers → q.text ∉ added)
    (hother : i.hasOtherBindings = true → added = []) :
    (importChange c drop added i).Lists i (i.staying c drop ++ added.map .bare) := by
  unfold importChange
  dsimp only
  cases hbindings : i.hasOtherBindings with
  | true =>
    rw [if_pos (Bool.or_true _), hother hbindings]
    simp [ImportChange.Lists, Import.staying, hbindings]
  | false =>
    rw [remainingSpecifiers_eq c drop hbindings, Bool.or_false]
    by_cases htexts : (i.staying c drop).map (·.text) ++ added = i.specifiers.map (·.text)
    · rw [if_pos (decide_eq_true htexts)]
      exact staying_of_texts hmarkers htexts
    · rw [if_neg (by simpa using htexts)]
      have hbare : (i.staying c drop ++ added.map ImportSpecifier.bare).map ImportSpecifier.text =
          (i.staying c drop).map (·.text) ++ added := by
        simp [ImportSpecifier.bare, Function.comp_def]
      split
      · rename_i hempty
        rw [List.isEmpty_iff, ← hbare, List.map_eq_nil_iff] at hempty
        exact hempty
      · exact hbare.symm

/-- An import without braces lists nothing. -/
theorem specifiers_of_hasNames {s : Source} {n : Node} (h : (s.importOf n).hasNames = false) : (s.importOf n).specifiers = [] := by
  have hnone : ((((n.constructs.find? (·.kind = .importClause)).map Node.constructs).getD []).filter
      (·.kind = .namedImports)).isEmpty = true := by simpa [Source.importOf] using h
  rw [Source.importOf, List.isEmpty_iff.mp hnone]
  rfl

/-- An import that binds otherwise, or that lists nothing at all, is left alone. -/
theorem importChange_kept {c : Conventions} (h : i.hasOtherBindings = true ∨ i.specifiers = [] ∧ added = []) :
    importChange c drop added i = .kept := by
  unfold importChange
  obtain hbindings | ⟨hnone, rfl⟩ := h
  · rw [hbindings]
    exact if_pos (Bool.or_true _)
  · have hafter : remainingSpecifiers c drop i = [] := by
      unfold remainingSpecifiers
      rw [hnone]
      split <;> rfl
    rw [hafter, hnone]
    exact if_pos rfl

/-! ### The import of the framework -/

theorem frameworkImport?_spec (h : frameworkImport? docs imports = some k) (hk : imports[k]? = some i) :
    i.hasNames = true ∧ i.hasOtherBindings = false := by
  unfold frameworkImport? at h
  obtain ⟨⟨i', k'⟩, hfind, rfl⟩ := Option.map_eq_some_iff.mp h
  have hmem := List.mem_reverse.mp (List.mem_of_find?_eq_some hfind)
  have hgood := List.find?_some hfind
  rw [List.mem_zipIdx_iff_getElem?, hk] at hmem
  obtain rfl := Option.some.inj hmem
  simpa [and_assoc] using And.right (by simpa [and_assoc] using hgood)

theorem exists_mem_of_frameworkImport? (h : frameworkImport? docs imports = some k) : ∃ i, (i, k) ∈ imports.zipIdx := by
  unfold frameworkImport? at h
  obtain ⟨⟨i', k'⟩, hfind, rfl⟩ := Option.map_eq_some_iff.mp h
  exact ⟨i', List.mem_reverse.mp (List.mem_of_find?_eq_some hfind)⟩

theorem addedTo_of_other (hk : imports[k]? = some i) (h : i.hasOtherBindings = true ∨ i.hasNames = false) :
    addedTo docs needs imports k = [] := by
  unfold addedTo
  rw [if_neg]
  intro hframework
  obtain ⟨hnames, hother⟩ := frameworkImport?_spec hframework hk
  rw [hnames, hother] at h
  simp at h

/-- The missing decorators come to the framework's import, if there is one. -/
theorem flatMap_addedTo (docs : Documentation) (needs : ImportNeeds) (imports : List Import) :
    imports.zipIdx.flatMap (fun x => addedTo docs needs imports x.2) =
      if (frameworkImport? docs imports).isSome then needs.decorators else [] := by
  cases hframework : frameworkImport? docs imports with
  | none => simp [addedTo, hframework]
  | some k =>
    obtain ⟨i, hmem⟩ := exists_mem_of_frameworkImport? hframework
    obtain ⟨before, after, hsplit⟩ := List.append_of_mem hmem
    have hnodup : (imports.zipIdx.map (·.2)).Nodup := by
      rw [List.zipIdx_map_snd]
      exact List.nodup_range' 1
    rw [hsplit, List.map_append, List.map_cons, List.nodup_append, List.nodup_cons] at hnodup
    obtain ⟨-, ⟨hafter, -⟩, hbefore⟩ := hnodup
    have hnone : ∀ xs : List (Import × Nat), (∀ x ∈ xs, x.2 ≠ k) →
        xs.flatMap (fun x => addedTo docs needs imports x.2) = [] := fun xs hxs =>
      List.flatMap_eq_nil_iff.mpr fun x hx => if_neg fun heq => hxs x hx (Option.some.inj (hframework.symm.trans heq)).symm
    rw [hsplit, List.flatMap_append, List.flatMap_cons,
      hnone before fun x hx heq => hbefore _ (List.mem_map_of_mem hx) _ List.mem_cons_self heq,
      hnone after fun x hx heq => hafter (List.mem_map.mpr ⟨x, hx, heq⟩)]
    simp [addedTo, hframework]

/-- Every missing name comes in once: to the framework's import or with a new one. -/
theorem added_eq (docs : Documentation) (needs : ImportNeeds) (imports : List Import) :
    imports.zipIdx.flatMap (fun x => addedTo docs needs imports x.2) ++ (newImports docs needs imports).flatMap (·.1) =
      needs.decorators ++ needs.lookups.map (·.name) := by
  have hlookups : (needs.lookups.map fun l => ([l.name], l.specifier)).flatMap (·.1) = needs.lookups.map (·.name) := by
    rw [List.flatMap_map]
    exact List.flatMap_pure_eq_map ..
  rw [flatMap_addedTo, newImports, List.flatMap_append, hlookups]
  cases frameworkImport? docs imports with
  | none => cases hdecorators : needs.decorators <;> simp
  | some k => simp

theorem newImportLines_eq (docs : Documentation) (needs : ImportNeeds) (imports : List Import) :
    newImportLines docs needs imports = (newImports docs needs imports).map fun (names, module) =>
      NameImport.line { name := String.intercalate ", " names, specifier := module } := by
  unfold newImportLines newImports
  rw [List.map_append, List.map_map]
  split <;> rfl

/-! ### The names that are missing -/

theorem nodup_eraseDups (names : List String) : names.eraseDups.Nodup := by
  cases names with
  | nil => exact List.nodup_nil
  | cons name names =>
    rw [List.eraseDups_cons, List.nodup_cons, List.mem_eraseDups]
    exact ⟨by simp, nodup_eraseDups (names.filter fun n => !n == name)⟩
termination_by names.length
decreasing_by exact Nat.lt_succ_of_le (List.length_filter_le _ _)

theorem mem_sortedNames {names : List String} : name ∈ sortedNames names ↔ name ∈ names := by
  rw [sortedNames, List.mem_mergeSort, List.mem_eraseDups]

theorem nodup_sortedNames (names : List String) : (sortedNames names).Nodup :=
  (List.mergeSort_perm _ _).nodup_iff.mpr (nodup_eraseDups names)

theorem needs_decorators (c : Settings) (path : Option Path) (imports : List Import) (p : Plan) :
    (p.needs c path imports).decorators =
      (sortedNames p.decorators).filter fun name => !(imports.flatMap Import.localNames).contains name := rfl

/-- The names of the lookup objects that are missing. -/
theorem needs_lookups (c : Settings) (path : Option Path) (imports : List Import) (p : Plan) :
    (p.needs c path imports).lookups.map (·.name) =
      (sortedNames (Entries.ofList p.lookups).keys).filter fun name => !(imports.flatMap Import.localNames).contains name := by
  have hkeys : ∀ name ∈ sortedNames (Entries.ofList p.lookups).keys, name ∈ (Entries.ofList p.lookups).keys :=
    fun _ h => mem_sortedNames.mp h
  unfold Plan.needs
  dsimp only
  generalize sortedNames (Entries.ofList p.lookups).keys = names at hkeys
  induction names with
  | nil => rfl
  | cons name names ih =>
    obtain ⟨hname, hnames⟩ := List.forall_mem_cons.mp hkeys
    rw [List.filterMap_cons, List.filter_cons]
    by_cases hbound : (imports.flatMap Import.localNames).contains name = true
    · rw [if_pos hbound, hbound]
      exact ih hnames
    · obtain ⟨module, hmodule⟩ := Option.ne_none_iff_exists'.mp (mt Entries.get?_eq_none_iff.mp (not_not.mpr hname))
      rw [if_neg hbound, hmodule, Bool.eq_false_iff.mpr hbound]
      exact congrArg (name :: ·) (ih hnames)

/-- The missing names are used, none of them is bound, and none stands twice. -/
theorem missing_spec (c : Settings) (path : Option Path) (imports : List Import) (p : Plan)
    (hapart : ∀ name ∈ p.lookups.map (·.1), name ∉ p.decorators) :
    let needs := p.needs c path imports
    (needs.decorators ++ needs.lookups.map (·.name)).Nodup ∧
      ∀ name, name ∈ needs.decorators ++ needs.lookups.map (·.name) ↔
        (name ∈ p.decorators ∨ name ∈ p.lookups.map (·.1)) ∧ name ∉ imports.flatMap Import.localNames := by
  intro needs
  have hdecorators : ∀ name, name ∈ needs.decorators ↔
      name ∈ p.decorators ∧ name ∉ imports.flatMap Import.localNames := fun name => by
    rw [needs_decorators, List.mem_filter, mem_sortedNames]
    simp
  have hlookups : ∀ name, name ∈ needs.lookups.map (·.name) ↔
      name ∈ p.lookups.map (·.1) ∧ name ∉ imports.flatMap Import.localNames := fun name => by
    rw [needs_lookups, List.mem_filter, mem_sortedNames, Entries.mem_keys_ofList]
    simp
  refine ⟨List.nodup_append.mpr ⟨(nodup_sortedNames _).filter _, ?_, ?_⟩, fun name => ?_⟩
  · rw [needs_lookups]
    exact (nodup_sortedNames _).filter _
  · rintro name hname _ hname' rfl
    exact hapart name ((hlookups name).mp hname').1 ((hdecorators name).mp hname).1
  · rw [List.mem_append, hdecorators, hlookups, or_and_right]

end ResponseShapes
