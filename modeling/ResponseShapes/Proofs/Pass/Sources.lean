import ResponseShapes.Pass.Sources
import ResponseShapes.Proofs.Pass.Declarations
import ResponseShapes.Proofs.Project.Glob
import ResponseShapes.Proofs.Project.Path

/-! # Listing sources

The sources below a directory are files (`steady_of_mem_listed`), and as long as the glob describes none of the modules
and the ignore file stays what it is, writing modules changes nothing of the list (`listSources_regenerates`). -/

namespace ResponseShapes

variable {s : Settings} {output root top p : Path} {d d' : Disk} {pattern : String} {exclude : List String}
  {rules : List IgnoreRule} {modules made : List String → Prop}

/-! ### Resolved paths -/

namespace Disk

theorem isAbsolute_resolve (d : Disk) (p : Path) : (d.resolve p).isAbsolute = true := rfl

theorem dots_notMem_resolve (d : Disk) (p : Path) : ".." ∉ (d.resolve p).parts :=
  Path.dots_notMem_withoutDots _

theorem home_resolve (d : Disk) (p : Path) : (d.resolve p).home = (d.resolve p).parts :=
  Path.withoutDots_of_no_dots (d.dots_notMem_resolve p)

/-- A path without two dots leads to the place of its names. -/
theorem place_of_no_dots (habs : p.isAbsolute) (hdots : ".." ∉ p.parts) (h : d.stands p ≠ .nothing) :
    d.place p = .ok p.parts ∧ d.tree.standing p.parts = d.stands p := by
  obtain ⟨place, hplace, hstanding⟩ := exists_place_of_stands h
  obtain rfl : place = p.parts := (place_eq habs hplace).trans (Path.withoutDots_of_no_dots hdots)
  exact ⟨hplace, hstanding⟩

/-- What stands where a path leads stands where the resolved path leads. -/
theorem stands_resolve (habs : p.isAbsolute) (h : d.stands p = .directory) : d.stands (d.resolve p) = .directory ∧
    d.tree.standing (d.resolve p).parts = .directory := by
  obtain ⟨place, hplace, hstanding⟩ := exists_place_of_stands (p := p) (by rw [h]; exact Standing.noConfusion)
  have hparts : (d.resolve p).parts = place := (resolve_parts habs).trans (place_eq habs hplace).symm
  have hdir : d.tree.standing (d.resolve p).parts = .directory := by rw [hparts, hstanding, h]
  obtain ⟨-, hstands⟩ := stands_of_standing (isAbsolute_resolve d p) (dots_notMem_resolve d p)
    (by rw [hdir]; exact Standing.noConfusion)
  exact ⟨hstands.trans hdir, hdir⟩

end Disk

/-! ### Rules -/

/-- The rules in a file. -/
def rulesIn (d : Disk) (file : Path) : Except Interruption (List IgnoreRule) :=
  if d.has file then
    match d.readText file with
    | .ok cs => .ok (IgnoreRule.ofText cs)
    | .error e => .error (Interruption.ofText e)
  else .ok []

/-- The rules of a directory and the given ones. -/
def rulesAt (d : Disk) (top : Path) (exclude : List String) : Except Interruption (List IgnoreRule) :=
  (rulesIn d (top.child ignoreFile)).map (· ++ exclude.filterMap (IgnoreRule.ofString? false))

theorem Pass.Does.readRules (d : Disk) (file : Path) : (readRules file).Does d (rulesIn d file) d := by
  refine disk_bind ?_
  unfold rulesIn
  by_cases hhas : d.has file = true
  · rw [if_pos hhas, if_pos hhas]
    cases hread : d.readText file with
    | ok cs => exact (readText_ok hread).bind (pure _ d)
    | error e => exact (readText_error hread).bind_error
  · rw [if_neg hhas, if_neg hhas]
    exact pure _ d

theorem Pass.Does.ignoreRules (d : Disk) (top : Path) (exclude : List String) :
    (ignoreRules top exclude).Does d (rulesAt d top exclude) d := by
  have hfile := readRules d (top.child ignoreFile)
  unfold rulesAt
  cases hrules : rulesIn d (top.child ignoreFile) with
  | ok rules => exact (hrules ▸ hfile).bind (pure _ d)
  | error i => exact (hrules ▸ hfile).bind_error

/-- The ignore file is no module. -/
theorem not_holdsModule_ignoreFile (output : Path) (place : List String) : ¬output.HoldsModule (place ++ [ignoreFile]) := by
  rintro ⟨name, hname, heq⟩
  obtain rfl : ignoreFile = name := by simpa using congrArg List.getLast? heq
  exact absurd hname (by decide)

/-- The rules stay as they are if nothing is written to the ignore file and nothing takes the place of a missing one. -/
theorem rulesAt_regenerates (habs : top.isAbsolute) (h : Disk.Regenerated modules made d d')
    (hother : ¬modules (top.home ++ [ignoreFile]))
    (hignore : d'.has (top.child ignoreFile) = d.has (top.child ignoreFile)) :
    rulesAt d' top exclude = rulesAt d top exclude := by
  unfold rulesAt rulesIn
  rw [hignore]
  by_cases hhas : d.has (top.child ignoreFile) = true
  · rw [if_pos hhas, if_pos hhas]
    suffices hread : d'.readText (top.child ignoreFile) = d.readText (top.child ignoreFile) by rw [hread]
    cases hstands : d.stands (top.child ignoreFile) with
    | nothing => exact absurd hstands (Disk.has_iff.mp hhas)
    | directory => rw [Disk.readText_of_directory hstands, Disk.readText_of_directory (h.stands_directory hstands)]
    | file content =>
      rw [Disk.readText_of_file hstands, Disk.readText_of_file (h.stands_file hstands ?_)]
      intro place hplace
      have hchild : Path.withoutDots (top.parts ++ [ignoreFile]) = top.home ++ [ignoreFile] :=
        Path.withoutDots_append_singleton _ (by decide)
      rw [(Disk.place_eq (p := top.child ignoreFile) habs hplace).trans hchild]
      exact hother
  · rw [if_neg hhas, if_neg hhas]

/-- A directory in the place of an ignore file cannot be read. -/
theorem rulesAt_of_directory (h : d.stands (top.child ignoreFile) = .directory) : rulesAt d top exclude =
    .error (Interruption.ofText (.disk { cause := .isDirectory, path := top.child ignoreFile })) := by
  rw [rulesAt, rulesIn, if_pos (Disk.has_of_directory h), Disk.readText_of_directory h]
  rfl

/-- What takes the place of a missing ignore file, to which nothing is written, is a directory. -/
theorem stands_ignoreFile_of_made (h : Disk.Regenerated modules made d d')
    (hother : ¬modules ((d.resolve root).parts ++ [ignoreFile]))
    (hdir : d.tree.standing (d.resolve root).parts = .directory)
    (hignore : d'.has ((d.resolve root).child ignoreFile) ≠ d.has ((d.resolve root).child ignoreFile)) :
    d'.stands ((d.resolve root).child ignoreFile) = .directory ∧
      d'.tree.standing ((d.resolve root).parts ++ [ignoreFile]) = .directory ∧
      d.tree.standing ((d.resolve root).parts ++ [ignoreFile]) ≠ .directory := by
  obtain ⟨hplace, -⟩ := Disk.stands_of_standing (d.isAbsolute_resolve root) (d.dots_notMem_resolve root)
    (by rw [hdir]; exact Standing.noConfusion)
  have hfile := Disk.place_child_of_directory hplace hdir (show ignoreFile ≠ ".." by decide)
  have hsame : ¬(d'.has ((d.resolve root).child ignoreFile) = true ↔ d.has ((d.resolve root).child ignoreFile) = true) :=
    fun hsame => hignore (Bool.eq_iff_iff.mpr hsame)
  rw [Disk.has_iff, Disk.has_iff, Disk.stands_of_place hfile, Disk.stands_of_place (h.place_eq hfile)] at hsame
  rw [Disk.stands_of_place (h.place_eq hfile)]
  cases hold : d.tree.standing ((d.resolve root).parts ++ [ignoreFile]) with
  | directory =>
    rw [hold, h.directories _ hold] at hsame
    exact absurd Iff.rfl hsame
  | file content =>
    rw [hold, (h.others _ hother content).mpr hold] at hsame
    exact absurd Iff.rfl hsame
  | nothing =>
    cases hnew : d'.tree.standing ((d.resolve root).parts ++ [ignoreFile]) with
    | directory => exact ⟨rfl, rfl, Standing.noConfusion⟩
    | file content =>
      rw [(h.others _ hother content).mp hnew] at hold
      cases hold
    | nothing =>
      rw [hold, hnew] at hsame
      exact absurd Iff.rfl hsame

/-! ### Lists -/

/-- The sources below a directory that is there. -/
def listedSources (d : Disk) (top : Path) (pattern : String) (rules : List IgnoreRule) : List Path :=
  match d.tree.find? top.parts with
  | some t => Path.sort ((sourcePlaces rules (Glob.ofString pattern) t).map fun place =>
      { top with parts := top.parts ++ place })
  | none => []

theorem Pass.Does.listSources (hdir : d.tree.standing (d.resolve root).parts = .directory) (pattern : String)
    (exclude : List String) : (listSources root pattern exclude).Does d
      ((rulesAt d (d.resolve root) exclude).map (listedSources d (d.resolve root) pattern)) d := by
  obtain ⟨hplace, hstands⟩ := Disk.stands_of_standing (d.isAbsolute_resolve root) (d.dots_notMem_resolve root)
    (by rw [hdir]; exact Standing.noConfusion)
  have hentry := d.entry_cases (d.resolve root)
  rw [hstands, hdir] at hentry
  obtain ⟨time, children, hentry, hfind⟩ := hentry
  have hrules := ignoreRules d (d.resolve root) exclude
  refine disk_bind ?_
  unfold listedSources
  dsimp only
  rw [hentry, hfind _ hplace]
  cases h : rulesAt d (d.resolve root) exclude with
  | ok rules => exact (h ▸ hrules).bind (pure _ d)
  | error i => exact (h ▸ hrules).bind_error

/-- Where there is no directory nothing is listed. -/
theorem Pass.Does.listSources_refused (h : d.stands (d.resolve root) ≠ .directory) (pattern : String) (exclude : List String) :
    ∃ i, (ResponseShapes.listSources root pattern exclude).Does d (.error i) d := by
  have hentry := d.entry_cases (d.resolve root)
  split at hentry <;> rename_i hstands
  · obtain ⟨e, hentry⟩ := hentry
    refine ⟨.sourcesMissing root, .disk_bind ?_⟩
    dsimp only
    rw [hentry]
    exact .interrupt _ d
  · exact absurd hstands h
  · obtain ⟨time, hentry⟩ := hentry
    refine ⟨.sourcesNotDirectory root, .disk_bind ?_⟩
    dsimp only
    rw [hentry]
    exact .interrupt _ d

theorem standing_resolve (h : d.stands (d.resolve root) = .directory) : d.tree.standing (d.resolve root).parts = .directory :=
  (Disk.place_of_no_dots (d.isAbsolute_resolve root) (d.dots_notMem_resolve root)
    (by rw [h]; exact Standing.noConfusion)).2.trans h

/-- What is listed is what is listed in a directory by its rules. -/
theorem exists_of_listSources {ps : List Path} (h : (listSources root pattern exclude).Does d (.ok ps) d') :
    d.tree.standing (d.resolve root).parts = .directory ∧
      ∃ rules, rulesAt d (d.resolve root) exclude = .ok rules ∧ ps = listedSources d (d.resolve root) pattern rules := by
  by_cases hdir : d.stands (d.resolve root) = .directory
  · have hlist := h.unique (.listSources (standing_resolve hdir) pattern exclude)
    refine ⟨standing_resolve hdir, ?_⟩
    cases hrules : rulesAt d (d.resolve root) exclude with
    | error i =>
      rw [hrules] at hlist
      exact nomatch hlist.1
    | ok rules =>
      rw [hrules] at hlist
      exact ⟨rules, rfl, Except.ok.inj hlist.1⟩
  · obtain ⟨i, hlist⟩ := Pass.Does.listSources_refused hdir pattern exclude
    exact nomatch (h.unique hlist).1

/-- The glob describes no module of the output directory, as seen from a directory. -/
def DescribesNoModule (output top : Path) (pattern : String) : Prop :=
  ∀ place, output.HoldsModule (top.parts ++ place) → (Glob.ofString pattern).describes (placePath place) = false

theorem suffix_placePath (place : List String) (name : String) :
    name.toList <:+ (placePath (place ++ [name])).toList := by
  rw [placePath, String.toList_intercalate, List.map_append, List.map_singleton]
  induction place with
  | nil =>
    simp only [List.map_nil, List.nil_append, List.intercalate_singleton, List.suffix_refl]
  | cons first place ih =>
    cases place with
    | nil =>
      rw [List.map_singleton, List.singleton_append, List.intercalate_cons_cons, List.intercalate_singleton]
      exact List.suffix_append _ _
    | cons next place =>
      rw [List.map_cons, List.map_cons, List.cons_append, List.cons_append, List.intercalate_cons_cons]
      exact ih.trans (List.suffix_append _ _)

/-- A glob does not describe a name if it ends otherwise. -/
theorem describes_eq_false_of_ending (pattern : String) (ts : List GlobToken) {ending tail : List Char}
    (htokens : (Glob.ofString pattern).tokens = ts ++ ending.map GlobToken.literal)
    (hending : ∀ e ∈ [ending, ending ++ ['\n']], ¬e <:+ tail ∧ ¬tail <:+ e) {last : String} (hlast : tail <:+ last.toList)
    (place : List String) : (Glob.ofString pattern).describes (placePath (place ++ [last])) = false := by
  by_contra hdescribes
  rw [Bool.not_eq_false, Glob.describes, htokens] at hdescribes
  have hsuffix := hlast.trans (suffix_placePath place last)
  have hapart : ∀ e ∈ [ending, ending ++ ['\n']], ¬e <:+ (placePath (place ++ [last])).toList := fun e he h =>
    (List.suffix_or_suffix_of_suffix h hsuffix).elim (hending e he).1 (hending e he).2
  obtain h | h := GlobToken.suffix_of_describes ts hdescribes
  · exact hapart _ List.mem_cons_self h
  · exact hapart _ (List.mem_cons_of_mem _ List.mem_cons_self) h

/-- A glob describes no module if it ends otherwise. -/
theorem describesNoModule_of_ending (pattern : String) (ts : List GlobToken) (ending : List Char)
    (htokens : (Glob.ofString pattern).tokens = ts ++ ending.map GlobToken.literal)
    (hending : ∀ e ∈ [ending, ending ++ ['\n']], ¬e <:+ moduleSuffix.toList ∧ ¬moduleSuffix.toList <:+ e)
    (hnil : (Glob.ofString pattern).describes "" = false) (output top : Path) :
    DescribesNoModule output top pattern := by
  rintro place ⟨name, hname, hplace⟩
  obtain rfl | ⟨place, last, rfl⟩ := List.eq_nil_or_concat' place
  · exact hnil
  · obtain rfl : last = name := by simpa using congrArg List.getLast? hplace
    exact describes_eq_false_of_ending pattern ts htokens hending (List.isSuffixOf_iff_suffix.mp hname) place

/-- The standard glob describes no module. -/
theorem describesNoModule_standard (root output top : Path) :
    DescribesNoModule output top (Settings.standard root).servicePattern :=
  describesNoModule_of_ending "**/*.service.ts" [.directories, .withinName] ".service.ts".toList (by decide) (by decide)
    (by decide) output top

theorem listedSources_regenerates (h : Disk.Regenerated modules made d d') (hd : d.tree.Proper)
    (hdir : d.tree.standing top.parts = .directory)
    (hglob : ∀ place, modules (top.parts ++ place) → (Glob.ofString pattern).describes (placePath place) = false)
    (rules : List IgnoreRule) : listedSources d' top pattern rules = listedSources d top pattern rules := by
  obtain ⟨time, children, hfind⟩ := Standing.of_eq_directory.mp hdir
  obtain ⟨t, hfind', -, hwalk⟩ := h.walks hd top.parts time children hfind
  have hplaces : sourcePlaces rules (Glob.ofString pattern) t =
      sourcePlaces rules (Glob.ofString pattern) (.directory time children) :=
    hwalk _ _ _ fun place hmodule => by rw [hglob place hmodule]; exact Bool.false_ne_true
  unfold listedSources
  rw [hfind, hfind']
  dsimp only
  rw [hplaces]

theorem mem_listedSources : p ∈ listedSources d top pattern rules ↔ ∃ t, d.tree.find? top.parts = some t ∧
    ∃ place ∈ sourcePlaces rules (Glob.ofString pattern) t, { top with parts := top.parts ++ place } = p := by
  unfold listedSources
  split
  case h_1 t hfind =>
    rw [Path.sort, (List.mergeSort_perm _ _).mem_iff, List.mem_map]
    exact ⟨fun h => ⟨t, hfind, h⟩, fun ⟨t', hfind', h⟩ => by rwa [Option.some.inj (hfind.symm.trans hfind')]⟩
  case h_2 hfind => exact ⟨nofun, fun ⟨t, hsome, _⟩ => nomatch hfind.symm.trans hsome⟩

/-- What is listed is a file below the directory that the glob describes. -/
theorem exists_of_mem_listed (habs : top.isAbsolute) (hd : d.tree.Proper) (h : p ∈ listedSources d top pattern rules) :
    ∃ rel content, p = { top with parts := top.parts ++ rel } ∧ d.place p = .ok (top.parts ++ rel) ∧
      d.stands p = .file content ∧ ".." ∉ p.parts ∧ (Glob.ofString pattern).describes (placePath rel) = true := by
  obtain ⟨t, hfind, place, hplace, rfl⟩ := mem_listedSources.mp h
  obtain ⟨hwalk, hdescribes⟩ := List.mem_filter.mp hplace
  obtain ⟨rel, content, hrel, hfile⟩ := Tree.mem_walk t [] (hd.find? hfind).1 hwalk
  obtain rfl : place = rel := hrel
  have hstanding : d.tree.standing (top.parts ++ place) = .file content := by rw [Tree.standing_append hfind, hfile]
  have hdots : ".." ∉ top.parts ++ place := by
    obtain ⟨time, hsome⟩ := Standing.of_eq_file.mp hstanding
    exact (hd.find? hsome).2
  obtain ⟨hplace', hstands⟩ := Disk.stands_of_standing (d := d) (p := { top with parts := top.parts ++ place }) habs hdots
    (by rw [hstanding]; exact Standing.noConfusion)
  exact ⟨place, content, rfl, hplace', hstands.trans hstanding, hdots, hdescribes⟩

/-- Nothing is listed twice. -/
theorem nodup_listedSources (hd : d.tree.Proper) (top : Path) (pattern : String) (rules : List IgnoreRule) :
    (listedSources d top pattern rules).Nodup := by
  unfold listedSources
  split
  case h_2 => exact List.nodup_nil
  rename_i t hfind
  rw [Path.sort, (List.mergeSort_perm _ _).nodup_iff]
  refine List.Nodup.map (fun place place' h => ?_) ((Tree.nodup_walk t [] (hd.find? hfind).1).filter _)
  exact List.append_cancel_left (Path.mk.inj h).2

/-- What is listed are files that stay as they are when modules are written. -/
theorem steady_of_mem_listed (habs : top.isAbsolute) (hd : d.tree.Proper)
    (hglob : DescribesNoModule output top pattern) (h : p ∈ listedSources d top pattern rules) : d.Steady output p := by
  obtain ⟨rel, content, -, hplace', hfile, -, hdescribes⟩ := exists_of_mem_listed habs hd h
  refine ⟨⟨content, hfile⟩, fun place hplace hmodule => ?_⟩
  obtain rfl := Except.ok.inj (hplace'.symm.trans hplace)
  rw [hglob _ hmodule] at hdescribes
  cases hdescribes

/-- Writing files changes nothing of a list of sources, if the glob describes none of them, the ignore file is none of
    them, and nothing takes the place of a missing one. -/
theorem listSources_regenerates (exclude : List String) (h : Disk.Regenerated modules made d d') (hd : d.tree.Proper)
    (hdir : d.tree.standing (d.resolve root).parts = .directory)
    (hglob : ∀ place, modules ((d.resolve root).parts ++ place) →
      (Glob.ofString pattern).describes (placePath place) = false)
    (hother : ¬modules ((d.resolve root).parts ++ [ignoreFile]))
    (hignore : d'.has ((d.resolve root).child ignoreFile) = d.has ((d.resolve root).child ignoreFile)) :
    (listSources root pattern exclude).Does d'
      ((rulesAt d (d.resolve root) exclude).map (listedSources d (d.resolve root) pattern)) d' := by
  have hresolve : d'.resolve root = d.resolve root := by rw [Disk.resolve, Disk.resolve, h.here]
  have hlist := Pass.Does.listSources (by rw [hresolve]; exact h.directories _ hdir) pattern exclude
  rw [hresolve, rulesAt_regenerates (d.isAbsolute_resolve root) h (d.home_resolve root ▸ hother) hignore] at hlist
  have heq : listedSources d' (d.resolve root) pattern = listedSources d (d.resolve root) pattern :=
    funext fun rules => listedSources_regenerates h hd hdir hglob rules
  rw [heq] at hlist
  exact hlist

end ResponseShapes
