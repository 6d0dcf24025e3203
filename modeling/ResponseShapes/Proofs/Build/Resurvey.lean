import ResponseShapes.Proofs.Build.Exits
import ResponseShapes.Proofs.Project.Path

/-! # Surveys of the same sources

Two surveys that come to the same sources, in whatever order, have found the same services and the same controllers, as
long as the settings are the same (`Survey.Of.eq_of_perm`): they have searched the same directory, unless there are no
sources. What is listed stays listed while other files are written (`listSources_kept`). -/

namespace ResponseShapes

variable {s : Settings} {root top p : Path} {pattern pattern' : String} {rules rules' : List IgnoreRule} {d d' : Disk}
  {exclude : List String} {ps ps' : List Path} {modules made : List String → Prop}

/-! ### Sources that are listed -/

theorem Disk.resolve_of_isAbsolute (h : p.isAbsolute) : d.resolve p = { root := "/", parts := p.home } := by
  rw [Disk.resolve, Path.resolve, Disk.join_of_isAbsolute _ h, Path.home]

/-- A file is where the names of a path say. -/
structure Disk.Holds (d : Disk) (p : Path) (content : List UInt8) (time : Int) : Prop where
  place : d.place p = .ok p.parts
  file : d.tree.file? p.parts = some (content, time)

namespace Disk.Holds

variable {content : List UInt8} {time : Int}

theorem find? (h : d.Holds p content time) : d.tree.find? p.parts = some (.file content time) := by
  have hfile := h.file
  rw [Tree.file?] at hfile
  split at hfile
  · rename_i hfind
    cases hfile
    exact hfind
  · cases hfile

theorem entry (h : d.Holds p content time) : d.entry p = .ok (.file content time) := by
  simp [Disk.entry, Disk.about, h.place, h.find?, bind, Except.bind, pure, Except.pure]

theorem stands (h : d.Holds p content time) : d.stands p = .file content := by
  rw [Disk.stands_of_place h.place, Tree.standing, h.find?]
  rfl

theorem regenerated (h : d.Holds p content time) (hregen : Disk.Regenerated modules made d d') (hp : ¬modules p.parts) :
    d'.Holds p content time :=
  ⟨hregen.place_eq h.place, (hregen.files _ hp).trans h.file⟩

end Disk.Holds

/-- What is listed are files below the directory that the glob describes. -/
theorem exists_holds_of_mem_listed (habs : top.isAbsolute) (hd : d.tree.Proper)
    (h : p ∈ listedSources d top pattern rules) : ∃ rel content time, p = { top with parts := top.parts ++ rel } ∧
      d.Holds p content time ∧ (Glob.ofString pattern).describes (placePath rel) = true := by
  obtain ⟨rel, content, rfl, hplace, hfile, -, hdescribes⟩ := exists_of_mem_listed habs hd h
  have hstanding := (Disk.stands_of_place hplace).symm.trans hfile
  obtain ⟨time, hfind⟩ := Standing.of_eq_file.mp hstanding
  exact ⟨rel, content, time, rfl, ⟨hplace, by rw [Tree.file?, hfind]⟩, hdescribes⟩

/-- What one glob lists and another one describes, the other one lists too. -/
theorem mem_listedSources_of (h : p ∈ listedSources d top pattern rules) (h' : p ∈ listedSources d' top pattern' rules') :
    p ∈ listedSources d' top pattern rules' := by
  obtain ⟨t, -, place, hplace, rfl⟩ := mem_listedSources.mp h
  obtain ⟨t', hfind', place', hplace', heq⟩ := mem_listedSources.mp h'
  obtain rfl : place' = place := List.append_cancel_left (Path.mk.inj heq).2
  exact mem_listedSources.mpr ⟨t', hfind', place', List.mem_filter.mpr
    ⟨(List.mem_filter.mp hplace').1, (List.mem_filter.mp hplace).2⟩, rfl⟩

/-- Lists of the same sources are the same. -/
theorem listedSources_eq (habs : top.isAbsolute) (hd : d.tree.Proper) (hd' : d'.tree.Proper)
    (h : ∀ p, p ∈ listedSources d top pattern rules ↔ p ∈ listedSources d' top pattern' rules') :
    listedSources d top pattern rules = listedSources d' top pattern' rules' := by
  have hsorted : ∀ (d : Disk) pattern rules, (listedSources d top pattern rules).Pairwise (Path.le · · = true) :=
    fun d pattern rules => by
      unfold listedSources
      split
      · exact Path.pairwise_sort _
      · exact List.Pairwise.nil
  refine Path.eq_of_perm (fun p hp => ?_) ((List.perm_ext_iff_of_nodup (nodup_listedSources hd _ _ _)
    (nodup_listedSources hd' _ _ _)).mpr h) (hsorted _ _ _) (hsorted _ _ _)
  obtain ⟨rel, content, time, rfl, -⟩ := exists_holds_of_mem_listed habs hd hp
  exact habs

/-- If two globs list the same sources as before, each of them lists what it listed. -/
theorem listedSources_eq_of_mem {more : String} (habs : top.isAbsolute) (hd : d.tree.Proper) (hd' : d'.tree.Proper)
    (h : ∀ p, p ∈ listedSources d top pattern rules ∨ p ∈ listedSources d top more rules ↔
      p ∈ listedSources d' top pattern rules' ∨ p ∈ listedSources d' top more rules') :
    listedSources d' top pattern rules' = listedSources d top pattern rules := by
  refine listedSources_eq habs hd' hd fun p => ⟨fun hp => ?_, fun hp => ?_⟩
  · obtain hold | hold := (h p).mpr (.inl hp) <;> exact mem_listedSources_of hp hold
  · obtain hnew | hnew := (h p).mp (.inl hp) <;> exact mem_listedSources_of hp hnew

/-- What is listed stays listed while other files are written, as long as sources are listed at all. -/
theorem listSources_kept {services : List Path} (h : (listSources root pattern exclude).Does d (.ok services) d)
    (h' : (listSources root pattern exclude).Does d' (.ok ps) d') (hregen : Disk.Regenerated modules made d d')
    (hd : d.tree.Proper) (hdir : d.tree.standing (d.resolve root).parts = .directory)
    (hglob : ∀ place, modules ((d.resolve root).parts ++ place) →
      (Glob.ofString pattern).describes (placePath place) = false)
    (hother : ¬modules ((d.resolve root).parts ++ [ignoreFile])) : ps = services := by
  have hresolve : d'.resolve root = d.resolve root := by rw [Disk.resolve, Disk.resolve, hregen.here]
  by_cases hignore : d'.has ((d.resolve root).child ignoreFile) = d.has ((d.resolve root).child ignoreFile)
  · obtain ⟨hlist, -⟩ := h.unique (.listSources hdir pattern exclude)
    obtain ⟨hlist', -⟩ := h'.unique (listSources_regenerates exclude hregen hd hdir hglob hother hignore)
    exact Except.ok.inj (hlist'.trans hlist.symm)
  · -- A directory in the place of the ignore file would have interrupted the list.
    obtain ⟨hignored, -⟩ := stands_ignoreFile_of_made hregen hother hdir hignore
    have hlist := Pass.Does.listSources (by rw [hresolve]; exact hregen.directories _ hdir) pattern exclude
    rw [hresolve, rulesAt_of_directory hignored] at hlist
    obtain ⟨hsame, -⟩ := h'.unique hlist
    cases hsame

/-! ### The directory that is searched -/

/-- The directory of a source is there wherever the source is. -/
theorem hasDirectory_of_mem_listed (habs : root.isAbsolute) (hdots : ".." ∉ root.parts) (hd : d.tree.Proper)
    (hdir : d.stands root = .directory) (h : p ∈ listedSources d (d.resolve root) pattern rules)
    (h' : d'.tree.standing p.parts ≠ .nothing) : d'.hasDirectory root = true := by
  have hparts : (d.resolve root).parts = root.parts := (Disk.resolve_parts habs).trans (Path.withoutDots_of_no_dots hdots)
  obtain ⟨rel, content, time, rfl, hholds, -⟩ := exists_holds_of_mem_listed (d.isAbsolute_resolve root) hd h
  have hplace := hholds.place
  have hstands := hholds.stands
  rw [Disk.stands_of_place hplace] at hstands
  dsimp only at h' hstands
  rw [hparts] at h' hstands
  rw [Disk.hasDirectory_iff]
  cases rel with
  | nil =>
    rw [List.append_nil, (Disk.place_of_no_dots habs hdots (by rw [hdir]; exact Standing.noConfusion)).2, hdir] at hstands
    cases hstands
  | cons name rel =>
    have hstanding := Tree.standing_of_append_cons h'
    rw [(Disk.stands_of_standing habs hdots (by rw [hstanding]; exact Standing.noConfusion)).2, hstanding]

/-- Two surveys that have found a source in common have searched the same directory. -/
theorem searchedRoot_eq (habs : s.root.isAbsolute) (hdots : ".." ∉ s.sourceRoot.parts) (hd : d.tree.Proper)
    (hd' : d'.tree.Proper) (h : p ∈ listedSources d (d.resolve (searchedRoot s d)) pattern rules)
    (h' : p ∈ listedSources d' (d'.resolve (searchedRoot s d')) pattern' rules') :
    searchedRoot s d = searchedRoot s d' := by
  have hkept : ∀ {d d' : Disk} {pattern pattern' rules rules'}, d.tree.Proper → d'.tree.Proper →
      p ∈ listedSources d (d.resolve (searchedRoot s d)) pattern rules →
      p ∈ listedSources d' (d'.resolve (searchedRoot s d')) pattern' rules' →
      d.hasDirectory s.sourceRoot = true → d'.hasDirectory s.sourceRoot = true := by
    intro d d' pattern pattern' rules rules' hd hd' h h' hsource
    rw [searchedRoot, if_pos hsource] at h
    obtain ⟨rel, content, time, rfl, hholds, -⟩ := exists_holds_of_mem_listed (d'.isAbsolute_resolve _) hd' h'
    refine hasDirectory_of_mem_listed (s.isAbsolute_sourceRoot habs) hdots hd (Disk.hasDirectory_iff.mp hsource) h ?_
    rw [← Disk.stands_of_place hholds.place, hholds.stands]
    exact Standing.noConfusion
  have hsame : d.hasDirectory s.sourceRoot = d'.hasDirectory s.sourceRoot :=
    Bool.eq_iff_iff.mpr ⟨hkept hd hd' h h', hkept hd' hd h' h⟩
  rw [searchedRoot, hsame, searchedRoot]

/-! ### Surveys -/

namespace Survey.Of

variable {v v' : Survey} {path path' : String} {force force' : Bool} {services controllers services' controllers' : List Path}

/-- The lists of a survey, by what is listed where it searched. -/
theorem exists_rules (h : v.Of path force d services controllers) : ∃ rules,
    rulesAt d (d.resolve v.root) v.settings.excludePaths = .ok rules ∧
      services = listedSources d (d.resolve v.root) v.settings.servicePattern rules ∧
      controllers = listedSources d (d.resolve v.root) v.settings.controllerPattern rules := by
  obtain ⟨habs, hroot⟩ := projectSettings_root h.settings
  have hdir := standing_searchedRoot habs hroot
  rw [← h.root] at hdir
  obtain ⟨hservices, -⟩ := h.listsServices.unique (.listSources hdir _ _)
  obtain ⟨hcontrollers, -⟩ := h.listsControllers.unique (.listSources hdir _ _)
  cases hrules : rulesAt d (d.resolve v.root) v.settings.excludePaths with
  | error i =>
    rw [hrules] at hservices
    cases hservices
  | ok rules =>
    rw [hrules] at hservices hcontrollers
    exact ⟨rules, rfl, Except.ok.inj hservices, Except.ok.inj hcontrollers⟩

/-- Surveys of the same sources, by the same settings, have found the same services and controllers. -/
theorem eq_of_perm (h : v.Of path force d services controllers) (h' : v'.Of path' force' d' services' controllers')
    (hsettings : v'.settings = v.settings) (hdots : ".." ∉ v.settings.sourceRoot.parts) (hd : d.tree.Proper)
    (hd' : d'.tree.Proper) (hperm : v.sources.Perm v'.sources) : services' = services ∧ controllers' = controllers := by
  obtain ⟨habs, -⟩ := projectSettings_root h.settings
  obtain ⟨rules, -, hservices, hcontrollers⟩ := h.exists_rules
  obtain ⟨rules', -, hservices', hcontrollers'⟩ := h'.exists_rules
  rw [hsettings] at hservices' hcontrollers'
  rw [h.sources, h'.sources] at hperm
  cases hall : services ++ controllers with
  | nil =>
    rw [hall] at hperm
    obtain ⟨rfl, rfl⟩ := List.append_eq_nil_iff.mp hall
    exact List.append_eq_nil_iff.mp hperm.nil_eq.symm
  | cons p ps =>
    -- There is a source, so both have searched the same directory.
    have hmem : ∀ q, q ∈ services ∨ q ∈ controllers ↔ q ∈ services' ∨ q ∈ controllers' := fun q => by
      rw [← List.mem_append, ← List.mem_append, hperm.mem_iff]
    have hsame : v.root = v'.root := by
      have hp : p ∈ services ∨ p ∈ controllers := List.mem_append.mp (hall ▸ List.mem_cons_self)
      rw [h'.root, hsettings, h.root]
      rw [h.root] at hservices hcontrollers
      rw [h'.root, hsettings] at hservices' hcontrollers'
      obtain hp | hp := hp <;> obtain hp' | hp' := (hmem p).mp (by simp only [hp, true_or, or_true])
      · exact searchedRoot_eq habs hdots hd hd' (hservices ▸ hp) (hservices' ▸ hp')
      · exact searchedRoot_eq habs hdots hd hd' (hservices ▸ hp) (hcontrollers' ▸ hp')
      · exact searchedRoot_eq habs hdots hd hd' (hcontrollers ▸ hp) (hservices' ▸ hp')
      · exact searchedRoot_eq habs hdots hd hd' (hcontrollers ▸ hp) (hcontrollers' ▸ hp')
    have hroot : v.root.isAbsolute = true := by
      rw [h.root, searchedRoot]
      split
      · exact v.settings.isAbsolute_sourceRoot habs
      · exact habs
    rw [← hsame, Disk.resolve_of_isAbsolute hroot, ← Disk.resolve_of_isAbsolute (d := d) hroot] at hservices' hcontrollers'
    subst hservices hcontrollers hservices' hcontrollers'
    exact ⟨listedSources_eq_of_mem (d.isAbsolute_resolve _) hd hd' hmem,
      listedSources_eq_of_mem (d.isAbsolute_resolve _) hd hd' fun q => by rw [or_comm, hmem, or_comm]⟩

end Survey.Of

end ResponseShapes
