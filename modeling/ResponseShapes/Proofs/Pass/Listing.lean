import ResponseShapes.Proofs.Pass.Sources
import ResponseShapes.Proofs.Project.Path
import ResponseShapes.Proofs.Project.Walk

/-! # What is listed

The rules are followed on the way down, directory by directory. What is listed in the end is told without that way: the
files that a glob describes and that no rule leaves out, in directories none of which is left out (`listSources_lists`).
A rule that takes a file back in is thus of no use below a directory that is left out. -/

namespace ResponseShapes

variable {rules : List IgnoreRule} {path pattern : String} {isDirectory : Bool} {place : List String} {root top p : Path}
  {d : Disk} {time : Int} {children : Entries Tree}

/-! ### Ignored paths -/

/-- Of the rules that describe the path the last one is not negated. -/
def IgnoreRule.LeaveOut (rules : List IgnoreRule) (path : String) (isDirectory : Bool) : Prop :=
  ∃ before r after, rules = before ++ r :: after ∧ r.describes path isDirectory = true ∧ r.negated = false ∧
    ∀ r' ∈ after, r'.describes path isDirectory = false

theorem isIgnored_append (rules : List IgnoreRule) (r : IgnoreRule) : isIgnored (rules ++ [r]) path isDirectory =
    if r.describes path isDirectory then !r.negated else isIgnored rules path isDirectory := by
  rw [isIgnored, List.foldl_append]
  rfl

theorem append_singleton_eq {r r' : IgnoreRule} {before after : List IgnoreRule} (h : rules ++ [r] = before ++ r' :: after) :
    (r = r' ∧ rules = before ∧ after = []) ∨ ∃ more, after = more ++ [r] ∧ rules = before ++ r' :: more := by
  obtain rfl | ⟨more, last, rfl⟩ := List.eq_nil_or_concat' after
  · obtain ⟨rfl, hr⟩ := List.append_inj' h rfl
    exact .inl ⟨List.singleton_inj.mp hr, rfl, rfl⟩
  · rw [← List.cons_append, ← List.append_assoc] at h
    obtain ⟨rfl, hr⟩ := List.append_inj' h rfl
    exact .inr ⟨more, by rw [List.singleton_inj.mp hr], rfl⟩

/-- The last rule that describes a path decides. -/
theorem isIgnored_iff : isIgnored rules path isDirectory = true ↔ IgnoreRule.LeaveOut rules path isDirectory := by
  induction rules using List.reverseRecOn with
  | nil => exact iff_of_false Bool.false_ne_true fun ⟨before, r, after, heq, _⟩ => by simp at heq
  | append_singleton rules r ih =>
    rw [isIgnored_append]
    by_cases hr : r.describes path isDirectory = true
    · rw [if_pos hr, Bool.not_eq_true']
      constructor
      · exact fun hnegated => ⟨rules, r, [], rfl, hr, hnegated, List.forall_mem_nil _⟩
      · rintro ⟨before, r', after, heq, -, hnegated, hafter⟩
        obtain ⟨rfl, -, rfl⟩ | ⟨more, rfl, -⟩ := append_singleton_eq heq
        · exact hnegated
        · rw [hafter r (List.mem_append_right _ (List.mem_singleton_self r))] at hr
          cases hr
    · rw [if_neg hr, ih]
      constructor
      · rintro ⟨before, r', after, rfl, hr', hnegated, hafter⟩
        refine ⟨before, r', after ++ [r], by rw [List.append_assoc, List.cons_append], hr', hnegated, ?_⟩
        exact List.forall_mem_append.mpr ⟨hafter, List.forall_mem_singleton.mpr (Bool.eq_false_iff.mpr hr)⟩
      · rintro ⟨before, r', after, heq, hr', hnegated, hafter⟩
        obtain ⟨rfl, -, rfl⟩ | ⟨more, rfl, rfl⟩ := append_singleton_eq heq
        · exact absurd hr' hr
        · exact ⟨before, r', more, rfl, hr', hnegated, fun r'' hr'' => hafter r'' (List.mem_append_left _ hr'')⟩

/-! ### Directories on the way -/

/-- A directory from which nothing is listed. -/
def Pruned (rules : List IgnoreRule) (place : List String) : Prop :=
  (∃ name, place.getLast? = some name ∧ name ∈ excludedNames) ∨ IgnoreRule.LeaveOut rules (placePath place) true

theorem entersDirectory_iff : entersDirectory rules place = true ↔ ¬Pruned rules place := by
  unfold entersDirectory Pruned
  rw [← isIgnored_iff]
  cases place.getLast? <;> simp

theorem takesFile_iff : takesFile rules place = true ↔ ¬IgnoreRule.LeaveOut rules (placePath place) false := by
  rw [takesFile, Bool.not_eq_true', ← isIgnored_iff, Bool.not_eq_true]

/-- The file is listed: the glob describes it, no rule leaves it out, and no directory on the way to it is pruned. -/
structure Listed (rules : List IgnoreRule) (pattern : String) (d : Disk) (top : Path) (place : List String) : Prop where
  file : ∃ content, d.tree.standing (top.parts ++ place) = .file content
  described : (Glob.ofString pattern).describes (placePath place) = true
  kept : ¬IgnoreRule.LeaveOut rules (placePath place) false
  entered : ∀ around inside, place = around ++ inside → around ≠ [] → inside ≠ [] → ¬Pruned rules around

theorem mem_sourcePlaces_iff (ht : (Tree.directory time children).Proper) :
    place ∈ sourcePlaces rules (Glob.ofString pattern) (.directory time children) ↔
      (∃ content, (Tree.directory time children).standing place = .file content) ∧
        (Glob.ofString pattern).describes (placePath place) = true ∧ ¬IgnoreRule.LeaveOut rules (placePath place) false ∧
        ∀ around inside, place = around ++ inside → around ≠ [] → inside ≠ [] → ¬Pruned rules around := by
  rw [sourcePlaces, List.mem_filter, Tree.mem_walk_directory_iff ht, takesFile_iff]
  simp only [entersDirectory_iff]
  tauto

theorem mem_listedSources_iff (hd : d.tree.Proper) (hdir : d.tree.standing top.parts = .directory) :
    p ∈ listedSources d top pattern rules ↔
      ∃ place, p = { top with parts := top.parts ++ place } ∧ Listed rules pattern d top place := by
  obtain ⟨time, children, hfind⟩ := Standing.of_eq_directory.mp hdir
  have ht := (hd.find? hfind).1
  rw [mem_listedSources]
  constructor
  · rintro ⟨t, ht', place, hplace, rfl⟩
    obtain rfl := Option.some.inj (hfind.symm.trans ht')
    obtain ⟨hfile, hdescribed, hkept, hentered⟩ := (mem_sourcePlaces_iff ht).mp hplace
    exact ⟨place, rfl, by rwa [Tree.standing_append hfind], hdescribed, hkept, hentered⟩
  · rintro ⟨place, rfl, hfile, hdescribed, hkept, hentered⟩
    rw [Tree.standing_append hfind] at hfile
    exact ⟨_, hfind, place, (mem_sourcePlaces_iff ht).mpr ⟨hfile, hdescribed, hkept, hentered⟩, rfl⟩

/-! ### Order -/

/-- Paths of one directory are compared by their names. -/
theorem parts_lt_of_le {q : Path} (hroot : p.root = q.root) (h : Path.le p q = true) (hne : p ≠ q) : p.parts < q.parts := by
  refine lt_of_le_of_ne (not_lt.mp fun hlt => ?_) fun hparts => hne ?_
  · refine not_lt.mpr (Path.le_iff.mp h) ?_
    rw [Path.key, Path.key, hroot]
    split
    · exact hlt
    · exact List.cons_lt_cons_iff.mpr (.inr ⟨rfl, hlt⟩)
  · cases p
    cases q
    exact congrArg₂ Path.mk hroot hparts

theorem pairwise_listedSources (hd : d.tree.Proper) (top : Path) (pattern : String) (rules : List IgnoreRule) :
    (listedSources d top pattern rules).Pairwise fun p q => p.parts < q.parts := by
  have hsorted : (listedSources d top pattern rules).Pairwise (Path.le · · = true) := by
    unfold listedSources
    split
    · exact Path.pairwise_sort _
    · exact .nil
  have hroot : ∀ p ∈ listedSources d top pattern rules, p.root = top.root := fun p hp => by
    obtain ⟨t, -, place, -, rfl⟩ := mem_listedSources.mp hp
    rfl
  refine (hsorted.and (nodup_listedSources hd top pattern rules)).imp_of_mem fun hp hq h => ?_
  exact parts_lt_of_le ((hroot _ hp).trans (hroot _ hq).symm) h.1 h.2

/-! ### Listing -/

/-- Below a directory exactly those files are listed that the glob describes, that no rule leaves out, and on the way to
    which there is no pruned directory; they are listed once and in the order of their names. -/
theorem listSources_lists {σ : PassState} {own : List IgnoreRule} (pattern : String) (exclude : List String)
    (hd : σ.disk.tree.Proper) (hdir : σ.disk.stands (σ.disk.resolve root) = .directory)
    (hrules : rulesIn σ.disk ((σ.disk.resolve root).child ignoreFile) = .ok own) :
    let top := σ.disk.resolve root
    let rules := own ++ exclude.filterMap (IgnoreRule.ofString? false)
    ∃ ps, ((listSources root pattern exclude).run σ).1 = .ok ps ∧
      ((listSources root pattern exclude).run σ).2.disk = σ.disk ∧ ps.Pairwise (fun p q => p.parts < q.parts) ∧
      (∀ p, p ∈ ps ↔ ∃ place, p = { top with parts := top.parts ++ place } ∧ Listed rules pattern σ.disk top place) ∧
      ∀ around inside, around ≠ [] → inside ≠ [] → Pruned rules around →
        ∀ p ∈ ps, p.parts ≠ top.parts ++ (around ++ inside) := by
  have hlist := Pass.Does.listSources (standing_resolve hdir) pattern exclude
  rw [rulesAt, hrules, Except.map, Except.map] at hlist
  obtain ⟨hresult, hdisk, -⟩ := (hlist.reaches σ.progress).run
  intro top rules
  refine ⟨_, hresult, hdisk, pairwise_listedSources hd top pattern rules, fun p => ?_, ?_⟩
  · exact mem_listedSources_iff hd (standing_resolve hdir)
  · intro around inside haround hinside hpruned p hp hparts
    obtain ⟨place, rfl, hlisted⟩ := (mem_listedSources_iff hd (standing_resolve hdir)).mp hp
    obtain rfl := List.append_cancel_left hparts
    exact hlisted.entered around inside rfl haround hinside hpruned

/-! ### A directory with an ignore file -/

namespace Ignoring

/-- A directory whose ignore file takes a file back in, and another one below a directory that it leaves out. -/
def project : PassState :=
  { disk :=
      { tree := .directory 0 [("project", .directory 0
          [(ignoreFile, .file (Text.encode "*.spec.ts\n!own.spec.ts\nbuild/\n!build/a.ts\n".toList) 0),
            ("build", .directory 0 [("a.ts", .file [] 0)]), ("own.spec.ts", .file [] 0)])]
        here := { root := "/", parts := [] }, clock := 1 }
    rows := [], progress := Progress.empty }

def directory : Path := { root := "/", parts := ["project"] }

def ownRules : List IgnoreRule :=
  [{ pattern := "*.spec.ts", directoryOnly := false, anchored := false, negated := false, hasSlash := false },
    { pattern := "own.spec.ts", directoryOnly := false, anchored := false, negated := true, hasSlash := false },
    { pattern := "build", directoryOnly := true, anchored := false, negated := false, hasSlash := false },
    { pattern := "build/a.ts", directoryOnly := false, anchored := false, negated := true, hasSlash := true }]

theorem proper_project : project.disk.tree.Proper := by
  unfold project
  simp [Tree.Proper, Tree.properChildren_iff, Entries.Keyed, Entries.keys, ignoreFile]

theorem rulesIn_project : rulesIn project.disk ((project.disk.resolve directory).child ignoreFile) = .ok ownRules := by
  decide +kernel

theorem pruned_build : Pruned ownRules ["build"] :=
  .inr (isIgnored_iff.mp (by decide +kernel))

theorem listed_own : Listed ownRules "**/*.ts" project.disk directory ["own.spec.ts"] where
  file := ⟨[], rfl⟩
  described := by decide +kernel
  kept := by
    rw [← isIgnored_iff]
    decide +kernel
  entered around inside heq haround hinside := by
    have hlength := congrArg List.length heq
    have haround := List.length_pos_iff.mpr haround
    have hinside := List.length_pos_iff.mpr hinside
    rw [List.length_append] at hlength
    simp only [List.length_singleton] at hlength
    omega

end Ignoring

/-- The file that is taken back in is listed, and the one below the pruned directory is not. -/
theorem listSources_lists_ignoring : Ignoring.project.disk.tree.Proper ∧
    Ignoring.project.disk.stands (Ignoring.project.disk.resolve Ignoring.directory) = .directory ∧
    rulesIn Ignoring.project.disk ((Ignoring.project.disk.resolve Ignoring.directory).child ignoreFile) = .ok Ignoring.ownRules ∧
    ∃ ps, ((listSources Ignoring.directory "**/*.ts" []).run Ignoring.project).1 = .ok ps ∧
      Ignoring.directory.child "own.spec.ts" ∈ ps ∧ ∀ p ∈ ps, p.parts ≠ ["project", "build", "a.ts"] := by
  obtain ⟨ps, hrun, -, -, hlisted, hpruned⟩ :=
    listSources_lists "**/*.ts" [] Ignoring.proper_project (by decide) Ignoring.rulesIn_project
  refine ⟨Ignoring.proper_project, by decide, Ignoring.rulesIn_project, ps, hrun, ?_, ?_⟩
  · exact (hlisted _).mpr ⟨["own.spec.ts"], rfl, Ignoring.listed_own⟩
  · exact hpruned ["build"] ["a.ts"] (by simp) (by simp) Ignoring.pruned_build

end ResponseShapes
