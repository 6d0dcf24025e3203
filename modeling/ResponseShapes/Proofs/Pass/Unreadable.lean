import ResponseShapes.Proofs.Pass.Isolated
import ResponseShapes.Proofs.Pass.Modules
import ResponseShapes.Proofs.Pass.Trial

/-! # Passes with and without sources that are no texts

Passes over the sources below a directory are run with and without some files that are no texts. They come to the same
and leave the same other files, and the first run has a row more for each of these files that is listed
(`unreadable_isolated`). The files are not touched. A file keeps a directory from being made in its place, though, so a
unit can fail to be declared where such a file is on the way to the directory of the modules
(`Blocked.scanUnits_blocked`). -/

namespace ResponseShapes

open Syntax

variable {s : Settings} {root output p : Path} {pattern : String} {exclude : List String} {bad : List (List String)}
  {modules : List String → Prop} {d d' : Disk} {rules : List IgnoreRule}

/-! ### Listing -/

namespace Disk.Lacks

theorem resolve_eq (h : Lacks d bad modules d d') (root : Path) : d'.resolve root = d.resolve root := by
  rw [Disk.resolve, Disk.resolve, h.here']

/-- The same rules are read, since they are read from a text. -/
theorem rulesAt_eq (h : Lacks d bad modules d d') (hdir : d.stands (d.resolve root) = .directory)
    (hrules : rulesAt d (d.resolve root) exclude = .ok rules) : rulesAt d' (d.resolve root) exclude = .ok rules := by
  have hspared : (d.here.join (d.resolve root)).home ++ [ignoreFile] ∉ bad := fun hmem => by
    rw [join_of_isAbsolute _ (d.isAbsolute_resolve root), d.home_resolve root] at hmem
    obtain ⟨e, he⟩ := h.faulty _ hmem
    have hplace := place_child_of_directory (place_of_no_dots (d.isAbsolute_resolve root) (d.dots_notMem_resolve root)
      (by rw [hdir]; exact Standing.noConfusion)).1 (standing_resolve hdir) (show ignoreFile ≠ ".." by decide)
    rw [← stands_of_place hplace] at he
    obtain ⟨content, hfile, -⟩ := Standing.fault?_eq_some_iff.mp he
    rw [rulesAt, rulesIn, if_pos (has_of_file hfile), readText_eq_encoding_iff.mpr he] at hrules
    cases hrules
  have hleads := h.leads_into (h.past_directory (d.isAbsolute_resolve root) hdir) (show ignoreFile ≠ ".." by decide) hspared
  rw [rulesAt, rulesIn, hleads.has_eq h, hleads.readText_eq h]
  exact hrules

/-- What is listed on one side is listed on the other, but for what is taken away. -/
theorem listedSources_eq (h : Lacks d bad modules d d') (hdir : d.stands (d.resolve root) = .directory) (pattern : String)
    (rules : List IgnoreRule) : listedSources d' (d.resolve root) pattern rules =
      (listedSources d (d.resolve root) pattern rules).filter (·.parts ∉ bad) := by
  have hstanding := standing_resolve hdir
  have hstanding' : d'.tree.standing (d.resolve root).parts = .directory :=
    (h.standing _ (h.notMem_of_directory hstanding)).trans hstanding
  have hmem : ∀ p, p ∈ listedSources d' (d.resolve root) pattern rules ↔
      p ∈ (listedSources d (d.resolve root) pattern rules).filter (·.parts ∉ bad) := by
    intro p
    rw [List.mem_filter, mem_listedSources_iff h.proper' hstanding', mem_listedSources_iff h.proper hstanding,
      decide_eq_true_iff]
    constructor
    · rintro ⟨place, rfl, hlisted⟩
      obtain ⟨content, hfile⟩ := hlisted.file
      have hkeep : (d.resolve root).parts ++ place ∉ bad := fun hmem => by
        rw [h.gone _ hmem] at hfile
        cases hfile
      rw [h.standing _ hkeep] at hfile
      exact ⟨⟨place, rfl, { hlisted with file := ⟨content, hfile⟩ }⟩, hkeep⟩
    · rintro ⟨⟨place, rfl, hlisted⟩, hkeep⟩
      obtain ⟨content, hfile⟩ := hlisted.file
      exact ⟨place, rfl, { hlisted with file := ⟨content, (h.standing _ hkeep).trans hfile⟩ }⟩
  have hperm := (List.perm_ext_iff_of_nodup (nodup_listedSources h.proper' (d.resolve root) pattern rules)
    ((nodup_listedSources h.proper (d.resolve root) pattern rules).filter _)).mpr hmem
  exact hperm.eq_of_pairwise (fun p q _ _ hpq hqp => absurd hqp (lt_asymm hpq))
    (pairwise_listedSources h.proper' (d.resolve root) pattern rules)
    ((pairwise_listedSources h.proper (d.resolve root) pattern rules).filter _)

/-- Listing with and without the files. -/
theorem listSources (h : Lacks d bad modules d d') (hdir : d.stands (d.resolve root) = .directory)
    (hrules : rulesAt d (d.resolve root) exclude = .ok rules) (pattern : String) :
    (listSources root pattern exclude).Runs d (.ok (listedSources d (d.resolve root) pattern rules)) d [] ∧
      (ResponseShapes.listSources root pattern exclude).Runs d'
        (.ok ((listedSources d (d.resolve root) pattern rules).filter (·.parts ∉ bad))) d' [] := by
  have hstanding := standing_resolve hdir
  have hstanding' : d'.tree.standing (d'.resolve root).parts = .directory := by
    rw [h.resolve_eq, h.standing _ (h.notMem_of_directory hstanding), hstanding]
  have hlist := Pass.Does.listSources hstanding pattern exclude
  have hlist' := Pass.Does.listSources hstanding' pattern exclude
  rw [hrules, Except.map] at hlist
  rw [h.resolve_eq, h.rulesAt_eq hdir hrules, Except.map, h.listedSources_eq hdir] at hlist'
  exact ⟨(Pass.Quiet.listSources root pattern exclude).runs hlist, (Pass.Quiet.listSources root pattern exclude).runs hlist'⟩

end Disk.Lacks

/-! ### Passes -/

/-- The state with some files taken away. -/
def PassState.without (σ : PassState) (places : List (List String)) : PassState :=
  { σ with disk := σ.disk.without places }

/-- With and without the files at some places, the pass comes to the same and leaves the same other files, and it does not
    touch these. If it comes to a value, it reports a row about each of these files that is listed; all else it reports
    without them, too. -/
structure Pass.Isolates {α : Type} (bad : List (List String)) (reporter : Reporter) (skipped : String) (ps : List Path)
    (x : Pass α) (σ : PassState) : Prop where
  result : (x.run (σ.without bad)).1 = (x.run σ).1
  others : ∀ q, q ∉ bad → (x.run (σ.without bad)).2.disk.tree.file? q = (x.run σ).2.disk.tree.file? q
  directories : ∀ q, (x.run (σ.without bad)).2.disk.tree.standing q = .directory ↔
    (x.run σ).2.disk.tree.standing q = .directory
  gone : ∀ q ∈ bad, (x.run (σ.without bad)).2.disk.tree.standing q = .nothing
  untouched : ∀ q ∈ bad, (x.run σ).2.disk.tree.file? q = σ.disk.tree.file? q
  reported : ∀ a, (x.run σ).1 = .ok a → ∃ told,
    List.Forall₂ (σ.disk.SkippedAs reporter skipped) (ps.filter (·.parts ∈ bad)) told ∧
      Besides told (x.run (σ.without bad)).2.rows (x.run σ).2.rows

section Passes

variable {σ : PassState} {reporter : Reporter} {skipped : String} {ps : List Path}

theorem Pass.Mirrors.isolates {α : Type} {sure : Prop} {x : Pass α} {row : Path → LogRow}
    (h : Mirrors sure (Disk.Lacks σ.disk bad modules) ((ps.filter (·.parts ∈ bad)).map row) x x σ.disk (σ.disk.without bad))
    (hrow : ∀ p ∈ ps, p.parts ∈ bad → σ.disk.SkippedAs reporter skipped p (row p)) :
    x.Isolates bad reporter skipped ps σ ∧ (sure → ∃ a, (x.run σ).1 = .ok a) := by
  obtain ⟨r, e, e', more, more', hx, hx', hlacks, hsure, hmore⟩ := h
  have hrun : x.run σ = (r, { disk := e, rows := σ.rows ++ more, progress := σ.progress }) := hx σ.rows σ.progress
  have hrun' : x.run (σ.without bad) = (r, { disk := e', rows := σ.rows ++ more', progress := σ.progress }) :=
    hx' σ.rows σ.progress
  refine ⟨?_, by rwa [hrun]⟩
  exact {
    result := by rw [hrun, hrun']
    others := by
      rw [hrun, hrun']
      exact hlacks.files
    directories := fun q => by
      rw [hrun, hrun']
      by_cases hq : q ∈ bad
      · refine iff_of_false ?_ fun hdir => hlacks.notMem_of_directory hdir hq
        rw [hlacks.gone q hq]
        exact Standing.noConfusion
      · rw [hlacks.standing q hq]
    gone := by
      rw [hrun']
      exact hlacks.gone
    untouched := by
      rw [hrun]
      exact hlacks.kept
    reported := by
      rw [hrun, hrun']
      intro a ha
      obtain ⟨hsublist, hperm⟩ := hmore a ha
      refine ⟨(ps.filter (·.parts ∈ bad)).map row, ?_, hsublist.append_left σ.rows, ?_⟩
      · rw [List.forall₂_map_right_iff, List.forall₂_same]
        intro p hp
        obtain ⟨hp, htaken⟩ := List.mem_filter.mp hp
        exact hrow p hp (of_decide_eq_true htaken)
      · rw [List.append_assoc]
        exact hperm.append_left σ.rows }

/-- There are rows about files that are no texts. -/
theorem Disk.Lacks.exists_row (h : Lacks d bad modules d d') (reporter : Reporter) (skipped : String)
    (hps : ∀ p ∈ ps, d.PlainFile p) :
    ∃ row : Path → LogRow, ∀ p ∈ ps, p.parts ∈ bad → d.SkippedAs reporter skipped p (row p) := by
  have hrow : ∀ p, ∃ row, p ∈ ps → p.parts ∈ bad → d.SkippedAs reporter skipped p row := fun p => by
    by_cases hp : p ∈ ps ∧ p.parts ∈ bad
    · obtain ⟨e, he⟩ := h.exists_readText_taken (hps p hp.1) hp.2
      exact ⟨_, fun _ _ => ⟨e, he, rfl⟩⟩
    · exact ⟨{ level := .error, reporter, text := skipped }, fun hp' htaken => absurd ⟨hp', htaken⟩ hp⟩
  choose row hrow using hrow
  exact ⟨row, hrow⟩

variable (h : Disk.Lacks σ.disk bad modules σ.disk (σ.disk.without bad))
  (hlist : (listSources root pattern s.excludePaths).Runs σ.disk (.ok ps) σ.disk [])
  (hlist' : (listSources root pattern s.excludePaths).Runs (σ.disk.without bad) (.ok (ps.filter (·.parts ∉ bad)))
    (σ.disk.without bad) [])
  (hps : ∀ p ∈ ps, σ.disk.PlainFile p)
include h hlist hlist' hps

theorem isolates_scanEndpoints [Recovery] (declared : Entries DeclaredUnit) :
    (scanEndpoints s root pattern declared).Isolates bad .endpoints "Skipping endpoint unit: " ps σ ∧
      ∃ t, ((scanEndpoints s root pattern declared).run σ).1 = .ok t := by
  obtain ⟨row, hrow⟩ := h.exists_row .endpoints "Skipping endpoint unit: " hps
  have hmirrors : Pass.Mirrors True (Disk.Lacks σ.disk bad modules) _ (scanEndpoints s root pattern declared)
      (scanEndpoints s root pattern declared) σ.disk (σ.disk.without bad) :=
    .behind hlist hlist' (mirrors_foldlM (fun p hp hkeep t e e' he => mirrors_addEndpoints he s (hps p hp) hkeep t)
      (fun p hp htaken t e e' he => runs_addEndpoints_taken he s (hps p hp) htaken t (hrow p hp htaken)) _ h)
  obtain ⟨hisolates, hsure⟩ := hmirrors.isolates hrow
  exact ⟨hisolates, hsure trivial⟩

theorem isolates_rewriteSources (t : LookupTable) (trial : Bool) :
    (rewriteSources s t trial root pattern).Isolates bad .rewriting "Skipping endpoint unit: " ps σ := by
  obtain ⟨row, hrow⟩ := h.exists_row .rewriting "Skipping endpoint unit: " hps
  have hmirrors : Pass.Mirrors False (Disk.Lacks σ.disk bad modules) _ (rewriteSources s t trial root pattern)
      (rewriteSources s t trial root pattern) σ.disk (σ.disk.without bad) :=
    .behind hlist hlist' (mirrors_foldlM
      (fun p hp hkeep changed e e' he => mirrors_addRewritten he s t trial (hps p hp) hkeep changed)
      (fun p hp htaken changed e e' he => runs_addRewritten_taken he s t trial (hps p hp) htaken changed (hrow p hp htaken))
      _ h)
  exact (hmirrors.isolates hrow).1

omit h in
theorem isolates_scanUnits [Recovery]
    (h : Disk.Lacks σ.disk bad (σ.disk.here.join output).HoldsModule σ.disk (σ.disk.without bad))
    (hway : ∀ q ∈ bad, ¬(σ.disk.here.join output).OnTheWay q) :
    (scanUnits s root pattern output).Isolates bad .units "Skipping unit: " ps σ ∧
      ∃ units, ((scanUnits s root pattern output).run σ).1 = .ok units := by
  obtain ⟨row, hrow⟩ := h.exists_row .units "Skipping unit: " hps
  have hmirrors : Pass.Mirrors True (Disk.Lacks σ.disk bad (σ.disk.here.join output).HoldsModule) _
      (scanUnits s root pattern output) (scanUnits s root pattern output) σ.disk (σ.disk.without bad) :=
    .behind hlist hlist' (mirrors_scanListed h hway s hps hrow)
  obtain ⟨hisolates, hsure⟩ := hmirrors.isolates hrow
  exact ⟨hisolates, hsure trivial⟩

end Passes

/-- Passes over the sources of a directory whose rules are legible do the same with and without some files that are no
    texts, apart from one row for each of these that is listed. They come to an end, rewriting where the trees of the sources
    are laid over them. For scanning the modules that are there have to be legible, and none of the files may be on the way
    to their directory. -/
theorem unreadable_isolated [Recovery] {σ : PassState} (s : Settings) (services controllers : String)
    (hd : σ.disk.tree.Proper)
    (hdir : σ.disk.stands (σ.disk.resolve root) = .directory)
    (hrules : rulesAt σ.disk (σ.disk.resolve root) s.excludePaths = .ok rules)
    (hbad : ∀ q ∈ bad, ∃ e, (σ.disk.tree.standing q).fault? = some e) :
    (∃ ps, ((listSources root services s.excludePaths).run σ).1 = .ok ps ∧
      ∀ output, σ.disk.Legible (σ.disk.here.join output).HoldsModule → (∀ q ∈ bad, ¬(σ.disk.here.join output).OnTheWay q) →
        (scanUnits s root services output).Isolates bad .units "Skipping unit: " ps σ ∧
          ∃ units, ((scanUnits s root services output).run σ).1 = .ok units) ∧
    ∃ ps, ((listSources root controllers s.excludePaths).run σ).1 = .ok ps ∧
      (∀ declared, (scanEndpoints s root controllers declared).Isolates bad .endpoints "Skipping endpoint unit: " ps σ ∧
        ∃ t, ((scanEndpoints s root controllers declared).run σ).1 = .ok t) ∧
      ∀ t trial, (rewriteSources s t trial root controllers).Isolates bad .rewriting "Skipping endpoint unit: " ps σ ∧
        ((∀ p ∈ ps, ∀ cs, σ.disk.readText p = .ok cs → ∀ src, Source.ofText? (String.ofList cs) = some src → src.Laid) →
          ∃ changed, ((rewriteSources s t trial root controllers).run σ).1 = .ok changed) := by
  have hroot := Disk.standing_nil hdir
  have hplain : ∀ pattern, ∀ p ∈ listedSources σ.disk (σ.disk.resolve root) pattern rules,
      σ.disk.PlainFile p ∧ p.root = (σ.disk.resolve root).root := fun pattern p hp =>
    plainFile_of_mem_listed (σ.disk.isAbsolute_resolve root) hd (standing_resolve hdir) hp
  -- Nothing but scanning makes modules, so for the rest no module has to be legible.
  have hnone := Disk.lacks_without hd hroot hbad (show σ.disk.Legible fun _ => False from fun _ => False.elim)
  constructor
  · obtain ⟨hlist, hlist'⟩ := hnone.listSources hdir hrules services
    exact ⟨_, congrArg Prod.fst (hlist σ.rows σ.progress), fun output hlegible hway =>
      isolates_scanUnits hlist hlist' (fun p hp => (hplain services p hp).1) (Disk.lacks_without hd hroot hbad hlegible) hway⟩
  · obtain ⟨hlist, hlist'⟩ := hnone.listSources hdir hrules controllers
    have hps := fun p hp => (hplain controllers p hp).1
    refine ⟨_, congrArg Prod.fst (hlist σ.rows σ.progress), fun declared =>
      isolates_scanEndpoints hnone hlist hlist' hps declared, fun t trial =>
        ⟨isolates_rewriteSources hnone hlist hlist' hps t trial, fun hlaid => ?_⟩⟩
    obtain ⟨changed, d', hrewrite, -⟩ := rewriteSources_legible s t trial hlist.does (hplain controllers)
      (nodup_listedSources hd _ _ rules) hlaid
    exact ⟨changed, (hrewrite.reaches σ.progress).run.1⟩

/-! ### Sources that are no texts -/

namespace Broken

def settings : Settings :=
  .standard { root := "/", parts := ["project"] }

/-- A project whose directory of sources has some files, all made at the same time. -/
def projectWith (files : List (String × List UInt8)) : PassState :=
  { disk :=
      { tree := .directory 0 [("project", .directory 0 [("src", .directory 0
          (files.map fun file => (file.1, .file file.2 0)))])]
        here := { root := "/", parts := [] }, clock := 1 }
    rows := [], progress := Progress.empty }

/-- The content of a source with one unit. -/
def unit : List UInt8 :=
  Text.encode "export class UsersService \x7b find() \x7b return \x7b id: 1 \x7d \x7d \x7d".toList

/-- A project with a unit, a marked source and two files that are no texts. -/
def project : PassState :=
  projectWith [("broken.controller.ts", [0xff]), ("broken.service.ts", [0xff]),
    ("users.controller.ts", Text.encode Marked.marked.toList), ("users.service.ts", unit)]

def broken : List (List String) :=
  [["project", "src", "broken.controller.ts"], ["project", "src", "broken.service.ts"]]

def sources (suffix : String) : List Path :=
  ["broken", "users"].map fun name => settings.sourceRoot.child (name ++ suffix)

theorem proper_project : project.disk.tree.Proper := by
  simp [project, projectWith, Tree.Proper, Tree.properChildren_iff, Entries.Keyed, Entries.keys]

theorem lists_services : (listSources settings.sourceRoot settings.servicePattern settings.excludePaths).Does project.disk
    (.ok (sources ".service.ts")) project.disk :=
  .listSources_of_pairwise (by decide) (by decide +kernel) (by decide)

theorem lists_controllers : (listSources settings.sourceRoot settings.controllerPattern settings.excludePaths).Does project.disk
    (.ok (sources ".controller.ts")) project.disk :=
  .listSources_of_pairwise (by decide) (by decide +kernel) (by decide)

theorem fault_broken : ∀ q ∈ broken, ∃ e, (project.disk.tree.standing q).fault? = some e :=
  List.forall_mem_cons.mpr ⟨⟨_, rfl⟩, List.forall_mem_singleton.mpr ⟨_, rfl⟩⟩

theorem legible_project : project.disk.Legible (project.disk.here.join settings.declarationsDir).HoldsModule := by
  rintro q ⟨name, -, rfl⟩
  rfl

/-- The files lie beside the directory of what is generated. -/
theorem not_onTheWay_broken : ∀ q ∈ broken, ¬(project.disk.here.join settings.declarationsDir).OnTheWay q := by
  rintro q hq ⟨k, rfl⟩
  have hdots : ".." ∉ (project.disk.here.join settings.declarationsDir).parts := by decide
  rw [Path.withoutDots_of_no_dots fun h => hdots (List.mem_of_mem_take h)] at hq
  have hbeside : ∀ q ∈ broken, ¬q <+: (project.disk.here.join settings.declarationsDir).parts := by decide
  exact hbeside _ hq (List.take_prefix k _)

/-- The tree of the marked source is laid over it. -/
theorem laid_controllers : ∀ p ∈ sources ".controller.ts", ∀ cs, project.disk.readText p = .ok cs →
    ∀ src, Source.ofText? (String.ofList cs) = some src → src.Laid := by
  intro p hp cs hcs src hsrc
  rcases List.mem_pair.mp hp with rfl | rfl
  · have hread : (project.disk.readText (settings.sourceRoot.child "broken.controller.ts")).isOk = false := by decide +kernel
    cases (congrArg Except.isOk hcs).symm.trans hread
  · have hread : project.disk.readText (settings.sourceRoot.child "users.controller.ts") = .ok Marked.marked.toList := by
      decide +kernel
    obtain ⟨s, -, hs, -, hlaid, -⟩ := Marked.reread_source
    obtain rfl := Except.ok.inj (hread.symm.trans hcs)
    rw [String.ofList_toList, hs] at hsrc
    obtain rfl := Option.some.inj hsrc
    exact hlaid

end Broken

/-- The unit and the marked source are dealt with as if the other files were not there. -/
theorem unreadable_isolated_broken : Broken.project.disk.tree.Proper ∧
    (∀ q ∈ Broken.broken, ∃ e, (Broken.project.disk.tree.standing q).fault? = some e) ∧
    ((scanUnits Broken.settings Broken.settings.sourceRoot Broken.settings.servicePattern
        Broken.settings.declarationsDir).Isolates Broken.broken .units "Skipping unit: " (Broken.sources ".service.ts")
      Broken.project ∧ ∃ units, ((scanUnits Broken.settings Broken.settings.sourceRoot Broken.settings.servicePattern
        Broken.settings.declarationsDir).run Broken.project).1 = .ok units) ∧
    (∀ declared, (scanEndpoints Broken.settings Broken.settings.sourceRoot Broken.settings.controllerPattern
        declared).Isolates Broken.broken .endpoints "Skipping endpoint unit: " (Broken.sources ".controller.ts")
      Broken.project) ∧
    ∀ t trial, (rewriteSources Broken.settings t trial Broken.settings.sourceRoot
        Broken.settings.controllerPattern).Isolates Broken.broken .rewriting "Skipping endpoint unit: "
      (Broken.sources ".controller.ts") Broken.project ∧ ∃ changed, ((rewriteSources Broken.settings t trial
        Broken.settings.sourceRoot Broken.settings.controllerPattern).run Broken.project).1 = .ok changed := by
  have hrules : ∃ rules, rulesAt Broken.project.disk (Broken.project.disk.resolve Broken.settings.sourceRoot)
      Broken.settings.excludePaths = .ok rules := ⟨_, rfl⟩
  obtain ⟨rules, hrules⟩ := hrules
  obtain ⟨⟨services, hservices, hunits⟩, controllers, hcontrollers, hendpoints, hrewrites⟩ :=
    unreadable_isolated Broken.settings Broken.settings.servicePattern Broken.settings.controllerPattern
      Broken.proper_project (by decide) hrules Broken.fault_broken
  have hlist := (Broken.lists_services.reaches Broken.project.progress).run (σ := Broken.project)
  obtain rfl := Except.ok.inj (hlist.1.symm.trans hservices)
  have hlist' := (Broken.lists_controllers.reaches Broken.project.progress).run (σ := Broken.project)
  obtain rfl := Except.ok.inj (hlist'.1.symm.trans hcontrollers)
  refine ⟨Broken.proper_project, Broken.fault_broken, hunits _ Broken.legible_project Broken.not_onTheWay_broken,
    fun declared => (hendpoints declared).1, fun t trial => ?_⟩
  obtain ⟨hisolates, hsure⟩ := hrewrites t trial
  exact ⟨hisolates, hsure Broken.laid_controllers⟩

/-! ### A file on the way to the directory of the modules -/

namespace Blocked

/-- A project with a unit and a file that is no text, below which the modules are to lie. -/
def project : PassState :=
  Broken.projectWith [("out.service.ts", [0xff]), ("users.service.ts", Broken.unit)]

def blocking : Path :=
  Broken.settings.sourceRoot.child "out.service.ts"

def directory : Path :=
  blocking.child "responses"

def target : Path :=
  directory.child "usersservice.response.ts"

def sources : List Path :=
  [blocking, Broken.settings.sourceRoot.child "users.service.ts"]

theorem proper_project : project.disk.tree.Proper := by
  simp [project, Broken.projectWith, Tree.Proper, Tree.properChildren_iff, Entries.Keyed, Entries.keys]

theorem lists_project : (listSources Broken.settings.sourceRoot Broken.settings.servicePattern
    Broken.settings.excludePaths).Does project.disk (.ok sources) project.disk :=
  .listSources_of_pairwise (by decide) (by decide +kernel) (by decide)

theorem legible_project : project.disk.Legible (project.disk.here.join directory).HoldsModule := by
  rintro q ⟨name, -, rfl⟩
  rfl

theorem scanListed_project : ((scanListed Broken.settings directory sources).run project).1.map (·.map (·.module)) = .ok [] := by
  decide +kernel

theorem scanUnits_project : ((scanUnits Broken.settings Broken.settings.sourceRoot Broken.settings.servicePattern
    directory).run project).1 = .ok [] := by
  have hscan := scanListed_project
  rw [scanUnits_run_of_listed (by decide) lists_project]
  cases hr : ((scanListed Broken.settings directory sources).run project).1 with
  | error i =>
    rw [hr] at hscan
    cases hscan
  | ok units =>
    rw [hr] at hscan
    rw [List.map_eq_nil_iff.mp (Except.ok.inj hscan)]

theorem scanUnits_without : ((scanUnits Broken.settings Broken.settings.sourceRoot Broken.settings.servicePattern directory).run
    (project.without [blocking.parts])).1.map (·.map (·.module)) = .ok [target] := by
  decide +kernel

/-- The unit is declared only without the file that is no text, which keeps the directory of its module from being made. -/
theorem scanUnits_blocked : project.disk.tree.Proper ∧
    ((listSources Broken.settings.sourceRoot Broken.settings.servicePattern Broken.settings.excludePaths).run project).1 =
      .ok sources ∧ blocking ∈ sources ∧ (∃ e, (project.disk.tree.standing blocking.parts).fault? = some e) ∧
    project.disk.Legible (project.disk.here.join directory).HoldsModule ∧
    ((scanUnits Broken.settings Broken.settings.sourceRoot Broken.settings.servicePattern directory).run project).1 = .ok [] ∧
    ((scanUnits Broken.settings Broken.settings.sourceRoot Broken.settings.servicePattern directory).run
      (project.without [blocking.parts])).1.map (·.map (·.module)) = .ok [target] :=
  ⟨proper_project, ((lists_project.reaches project.progress).run (σ := project)).1, List.mem_cons_self, ⟨_, rfl⟩,
    legible_project, scanUnits_project, scanUnits_without⟩

end Blocked

end ResponseShapes
