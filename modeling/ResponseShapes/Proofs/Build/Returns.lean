import ResponseShapes.Proofs.Build.Exits
import ResponseShapes.Proofs.Pass.Again
import ResponseShapes.Proofs.Pass.Rewriting

/-! # Passes that come to their ends

Whatever the sources of a project hold, a pass comes to its end and skips those that cannot be read, as long as the
files are legible that passes read or write without a guard: the ignore file, the outputs and, for a build, the signature
(`passes_return`). An illegible one of these interrupts the pass. -/

namespace ResponseShapes

open Syntax

variable {s : Settings} {root : Path} {path : String} {d d' : Disk} {modules made : List String → Prop}

/-! ### Legible projects -/

namespace Settings

/-- The files that generating and wiring read or write without a guard are legible, and generating makes no directory in
    the place of a missing ignore file. -/
structure Legible (s : Settings) (root : Path) (d : Disk) : Prop where
  rules : ∃ rules, rulesAt d (d.resolve root) s.excludePaths = .ok rules
  kept : s.declarationsDir.OnTheWay ((d.resolve root).parts ++ [ignoreFile]) →
    d.has ((d.resolve root).child ignoreFile) = true
  modules : d.Legible s.declarationsDir.HoldsModule
  wiring : (d.tree.standing (s.outputRoot.home ++ [wiringFile])).fault? = none

/-- Nothing is in the way of leaving a signature either. -/
structure Signable (s : Settings) (root : Path) (d : Disk) : Prop extends Legible s root d where
  way : ∀ place, s.declarationsDir.OnTheWay place → ¬s.Built place ∧ place ≠ s.root.home ++ [lockFile] ∧
    ∀ content, d.tree.standing place ≠ .file content
  signature : d.tree.standing (Signature.place s.declarationsDir) ≠ .directory

/-- The signature that is there is legible too, and there is no directory in the place of the file of the lock. -/
structure Buildable (s : Settings) (root : Path) (d : Disk) : Prop extends Signable s root d where
  found : ∃ v, Signature.found d s.declarationsDir = .ok v
  lock : d.stands (s.root.child lockFile) ≠ .directory

namespace Legible

variable {k : Progress}

/-- A legible project stays legible while other files than the ignore file are written. -/
theorem regenerated (h : s.Legible root d) (hdir : d.tree.standing (d.resolve root).parts = .directory)
    (hregen : Disk.Regenerated modules made d d') (hother : ¬modules ((d.resolve root).parts ++ [ignoreFile]))
    (hmade : ∀ place, made place → s.declarationsDir.OnTheWay place)
    (hmodules : d'.Legible s.declarationsDir.HoldsModule)
    (hwiring : (d'.tree.standing (s.outputRoot.home ++ [wiringFile])).fault? = none) : s.Legible root d' := by
  have hresolve : d'.resolve root = d.resolve root := by rw [Disk.resolve, Disk.resolve, hregen.here]
  have hignore : d'.has ((d.resolve root).child ignoreFile) = d.has ((d.resolve root).child ignoreFile) := by
    by_contra hignore
    obtain ⟨hnew, hstanding, hold⟩ := stands_ignoreFile_of_made hregen hother hdir hignore
    have hhas := h.kept (hmade _ ((hregen.new _ hstanding).resolve_left hold))
    exact hignore (by rw [Disk.has_of_directory hnew, hhas])
  refine ⟨?_, ?_, hmodules, hwiring⟩
  · rw [hresolve, rulesAt_regenerates (d.isAbsolute_resolve root) hregen (d.home_resolve root ▸ hother) hignore]
    exact h.rules
  · rw [hresolve, hignore]
    exact h.kept

/-- Generating comes to the units of the sources that can be read, and leaves a legible project. -/
theorem generateIn [Recovery] (h : s.Legible root d) (habs : s.root.isAbsolute) (hd : d.tree.Proper)
    (hdir : d.tree.standing (d.resolve root).parts = .directory) (k : Progress) :
    ∃ ps units d', (listSources root s.servicePattern s.excludePaths).Does d (.ok ps) d ∧
      (generateIn s root).Reaches d k (.ok units.length) d' (k.withScanned (.ok units)) ∧
      Disk.Regenerates s.declarationsDir d d' ∧ s.Legible root d' ∧
      (scanListed s s.declarationsDir (ps.filter d.reads)).Does d (.ok units) d' ∧
      ∀ p ∈ ps, ∀ e, d.readText p = .error e →
        (ResponseShapes.generateIn s root).Tells d k (skippedRow .units "Skipping unit: " p e) := by
  obtain ⟨rules, hrules⟩ := h.rules
  have hlist := Pass.Does.listSources hdir s.servicePattern s.excludePaths
  rw [hrules, Except.map] at hlist
  have hfiles : ∀ p ∈ listedSources d (d.resolve root) s.servicePattern rules, ∃ content, d.stands p = .file content :=
    fun p hp =>
      let ⟨_, content, _, _, hfile, _⟩ := exists_of_mem_listed (d.isAbsolute_resolve root) hd hp
      ⟨content, hfile⟩
  obtain ⟨units, d', hscan, hregen, hlegible, hfilter, htells⟩ :=
    scanUnits_legible s (s.isAbsolute_declarationsDir habs) hlist hfiles h.modules
  have hwiring : ¬s.declarationsDir.HoldsModule (s.outputRoot.home ++ [wiringFile]) := by
    rintro ⟨name, hname, heq⟩
    obtain rfl : wiringFile = name := by simpa using congrArg List.getLast? heq
    exact absurd hname (by decide)
  refine ⟨_, units, d', hlist, .generateDeclarations hscan k, hregen, ?_, hfilter, fun p hp e he => ?_⟩
  · exact h.regenerated hdir hregen (not_holdsModule_ignoreFile _ _) (fun _ => id) hlegible
      (hregen.fault?_eq_none hwiring h.wiring)
  · refine (htells p hp e he k).bind (hscan.reaches k) fun units' _ => ?_
    exact ⟨_, _, _, Pass.Reaches.learn_bind ((Pass.Does.say_bind _ _ _ (.pure units'.length d')).reaches _)⟩

/-- Wiring comes to the table of the sources that can be read, and leaves a legible project. -/
theorem wireIn [Recovery] (h : s.Legible root d) (habs : s.root.isAbsolute)
    (hdir : d.tree.standing (d.resolve root).parts = .directory) (k : Progress) :
    ∃ n d' k', (wireIn s root).Reaches d k (.ok n) d' k' ∧
      Disk.Regenerated (· = s.outputRoot.home ++ [wiringFile]) s.outputRoot.OnTheWay d d' ∧ s.Legible root d' := by
  obtain ⟨rules, hrules⟩ := h.rules
  have hlist := Pass.Does.listSources hdir s.controllerPattern s.excludePaths
  rw [hrules, Except.map] at hlist
  obtain ⟨n, d', k', hreaches, hregen, hkept, -⟩ := wireIn_legible habs hlist
    (Disk.fault?_stands (s.isAbsolute_outputRoot habs) (show wiringFile ≠ ".." by decide) h.wiring) k
  refine ⟨n, d', k', hreaches, hregen, h.regenerated hdir hregen (fun heq => ?_)
    (fun _ => s.onTheWay_declarationsDir) (fun place hplace => hkept place (h.modules place hplace)) (hkept _ h.wiring)⟩
  exact absurd (show ignoreFile = wiringFile by simpa using congrArg List.getLast? heq) (by decide)

end Legible

/-- What is done under the lock comes to an end, and the signature is left. -/
theorem Signable.regenerate [Recovery] (h : s.Signable root d) (habs : s.root.isAbsolute) (hd : d.tree.Proper)
    (hroot : d.tree.standing [] = .directory) (hdir : d.tree.standing (d.resolve root).parts = .directory)
    (sources : List Path) (k : Progress) :
    ∃ n m d' k', (regenerate s root sources).Reaches d k (.ok (.generated n m)) d' k' := by
  obtain ⟨ps, units, d₁, -, hgenerate, hregen₁, hlegible₁, -⟩ := h.toLegible.generateIn habs hd hdir k
  have hdir₁ : d₁.tree.standing (d₁.resolve root).parts = .directory := by
    rw [Disk.resolve, hregen₁.here]
    exact hregen₁.directories _ hdir
  obtain ⟨m, d₂, k₂, hwire, hregen₂, -⟩ := hlegible₁.wireIn habs hdir₁ (k.withScanned (.ok units))
  have hregen : Disk.Regenerated s.Wired s.declarationsDir.OnTheWay d d₂ :=
    (hregen₁.mono (fun _ => .inl) fun _ => id).trans (hregen₂.mono (fun _ => .inr) fun _ => s.onTheWay_declarationsDir)
  obtain ⟨d₃, hrecord⟩ := Signature.record_of_open (s.isAbsolute_declarationsDir habs) sources (d := d₂)
    (hregen.directories _ hroot)
    (fun q hq => ⟨fun heq => (h.way q hq).1 (.inr heq), fun content hfile =>
      (h.way q hq).2.2 content ((hregen.others q (fun hwired => (h.way q hq).1 (.inl hwired)) content).mp hfile)⟩)
    (fun hnew => (hregen.new _ hnew).elim h.signature fun hmade => (h.way _ hmade).1 (.inr rfl))
  exact ⟨_, m, d₃, k₂, hgenerate.bind (hwire.bind ((hrecord.reaches k₂).bind ((Pass.Does.pure _ d₃).reaches k₂)))⟩

/-- Once the lock has made its file, all is as legible as before. -/
theorem Signable.takes {l : Lock} {place : List String} (h : s.Signable root d) (habs : s.root.isAbsolute)
    (hdir : d.tree.standing (d.resolve root).parts = .directory) (hpath : l.path = s.root.child lockFile)
    (htakes : l.Takes place d d') : s.Signable root d' := by
  have hregen := htakes.regenerated
  have hplace : place = s.root.home ++ [lockFile] :=
    (Disk.place_eq (p := s.root.child lockFile) habs (hpath ▸ htakes.leads)).trans
      (Path.withoutDots_append_singleton _ (by decide))
  have hbuilt : ∀ q, s.Built q → q ≠ place := by
    rintro q hq rfl
    exact s.not_built_lock habs (hpath ▸ htakes.leads) hq
  refine { toLegible := h.toLegible.regenerated hdir hregen ?_ nofun ?_ ?_, way := ?_, signature := ?_ }
  · rw [hplace]
    exact fun heq => absurd (show ignoreFile = lockFile by simpa using congrArg List.getLast? heq) (by decide)
  · exact fun q hq => hregen.fault?_eq_none (hbuilt q (.inl (.inl hq))) (h.modules q hq)
  · exact hregen.fault?_eq_none (hbuilt _ (.inl (.inr rfl))) h.wiring
  · refine fun q hq => ⟨(h.way q hq).1, (h.way q hq).2.1, fun content hfile => ?_⟩
    exact (h.way q hq).2.2 content ((hregen.others q (hplace ▸ (h.way q hq).2.1) content).mp hfile)
  · exact fun hnew => (hregen.new _ hnew).elim h.signature id

end Settings

/-! ### Builds -/

/-- The survey of a project whose rules and signature are legible comes to an end. -/
theorem survey_ok (hs : (projectSettings path).Does d (.ok s) d) (force : Bool)
    (hrules : ∃ rules, rulesAt d (d.resolve (searchedRoot s d)) s.excludePaths = .ok rules)
    (hfound : ∃ v, Signature.found d s.declarationsDir = .ok v) :
    ∃ v, (survey path force).Does d (.ok v) d ∧ v.settings = s ∧ v.root = searchedRoot s d ∧
      (Signature.found d s.declarationsDir = .ok none → v.stale = true) := by
  obtain ⟨habs, hroot⟩ := projectSettings_root hs
  have hdir := standing_searchedRoot habs hroot
  obtain ⟨rules, hrules⟩ := hrules
  have hsearch := Pass.Does.searchRoot s d
  generalize searchedRoot s d = root at hsearch hdir hrules ⊢
  have hservices := Pass.Does.listSources hdir s.servicePattern s.excludePaths
  have hcontrollers := Pass.Does.listSources hdir s.controllerPattern s.excludePaths
  rw [hrules, Except.map] at hservices hcontrollers
  generalize listedSources d (d.resolve root) s.servicePattern rules = services at hservices
  generalize listedSources d (d.resolve root) s.controllerPattern rules = controllers at hcontrollers
  obtain ⟨stale, hneeded, hstale⟩ : ∃ stale, (needed force s.declarationsDir (services ++ controllers)).Does d (.ok stale) d ∧
      (Signature.found d s.declarationsDir = .ok none → stale = true) := by
    cases force with
    | true => exact ⟨true, .pure true d, fun _ => rfl⟩
    | false =>
      obtain ⟨v, hv⟩ := hfound
      have hisStale := Signature.isStale_does s.declarationsDir (services ++ controllers) d
      rw [hv, Except.map] at hisStale
      rw [needed, if_neg Bool.false_ne_true]
      refine ⟨_, hisStale, fun hnone => ?_⟩
      rw [Except.ok.inj (hv.symm.trans hnone)]
      exact Option.all_none
  exact ⟨{ settings := s, root, sources := services ++ controllers, stale },
    hs.bind (hsearch.bind (hservices.bind (hcontrollers.bind (hneeded.bind (.pure _ d))))),
    rfl, rfl, hstale⟩

/-- A build comes to its end, and not without building if there is no signature that counts. -/
theorem build_ok [Recovery] (hs : (projectSettings path).Does d (.ok s) d) (hd : d.tree.Proper)
    (h : s.Buildable (searchedRoot s d) d) (now : Binary64) (owner : Nat) (force : Bool) (k : Progress) :
    ∃ o d' k', (build now owner path force).Reaches d k (.ok o) d' k' ∧
      (Signature.found d s.declarationsDir = .ok none → o ≠ .upToDate) := by
  obtain ⟨habs, hroot⟩ := projectSettings_root hs
  have hdir := standing_searchedRoot habs hroot
  obtain ⟨v, hsurvey, rfl, hsearched, hstale⟩ := survey_ok hs force h.rules h.found
  rw [← Stages.build_standard]
  by_cases hv : v.stale = true
  case neg =>
    refine ⟨.upToDate, d, k, (hsurvey.reaches k).bind ?_, fun hnone => absurd (hstale hnone) hv⟩
    rw [Stages.proceed, if_neg hv]
    exact (Pass.Does.say_bind _ _ _ (.pure BuildOutcome.upToDate d)).reaches k
  have hproceed : ∀ {r d' k'}, (buildLocked now (Lock.ofSettings owner v.settings)
      (regenerate v.settings v.root v.sources)).Reaches d k r d' k' →
      (Stages.standard.build now owner path force).Reaches d k r d' k' := fun h =>
    (hsurvey.reaches k).bind (by rw [Stages.proceed, if_pos hv]; exact h)
  have hmake : d.makeDirectories (Lock.ofSettings owner v.settings).path.parent = (d, none) := by
    rw [Lock.ofSettings, Path.parent_child]
    exact Disk.makeDirectoriesFrom_of_directory v.settings.root.parts.length hroot
  obtain ⟨place, d₁, hacquire, htakes, -⟩ | ⟨place, t, -, -, -, hacquire⟩ | ⟨i, hfailed | hdirectory, -⟩ :=
    Lock.acquire_cases (l := Lock.ofSettings owner v.settings) rfl hmake now
  · -- The lock has made its file, and all is as legible as before.
    have hsignable := h.toSignable.takes habs hdir rfl htakes
    have hregen := htakes.regenerated
    have hdir₁ : d₁.tree.standing (d₁.resolve (searchedRoot v.settings d)).parts = .directory := by
      rw [Disk.resolve, hregen.here]
      exact hregen.directories _ hdir
    obtain ⟨n, m, d₂, k₂, hregenerate⟩ := hsignable.regenerate habs (hregen.proper hd)
      (Disk.standing_nil (hregen.stands_directory hroot)) hdir₁ v.sources k
    rw [← hsearched] at hregenerate
    obtain ⟨r, d₃, k₃, hreaches, hspares, -⟩ := Stages.regenerate_spares Stages.standard_bounded habs v.root v.sources d₁ k
      htakes.leads
    obtain ⟨-, rfl, -⟩ := hregenerate.unique hreaches
    obtain ⟨r, d₄, hrelease, -, hgone⟩ :=
      Lock.release_of_held (l := { Lock.ofSettings owner v.settings with held := true }) rfl d₂
    obtain ⟨rfl, -⟩ := hgone place _ _ htakes.inside (hspares.place_eq htakes.leads)
      ((hspares.files place (not_not.mpr rfl)).trans htakes.file)
    exact ⟨_, _, _, hproceed ((hacquire.reaches k).bind (hregenerate.andFinally hrelease)),
      fun _ => BuildOutcome.noConfusion⟩
  · exact ⟨_, _, _, hproceed ((hacquire.reaches k).bind ((Pass.Does.say_bind _ _ _ (.pure BuildOutcome.locked d)).reaches k)),
      fun _ => BuildOutcome.noConfusion⟩
  · exact absurd rfl hfailed
  · exact absurd hdirectory h.lock

/-! ### All passes -/

section Passes

variable {σ : PassState} [Recovery]

/-- Generating comes to its end with the units of the sources that can be read, and reports the others. -/
def Generates (s : Settings) (path : String) (σ : PassState) : Prop :=
  ∃ ps units, (listSources (searchedRoot s σ.disk) s.servicePattern s.excludePaths).Does σ.disk (.ok ps) σ.disk ∧
    ((generate path).run σ).1 = .ok units.length ∧
    (scanListed s s.declarationsDir (ps.filter σ.disk.reads)).Does σ.disk (.ok units) ((generate path).run σ).2.disk ∧
    ∀ p ∈ ps, ∀ e, σ.disk.readText p = .error e →
      skippedRow .units "Skipping unit: " p e ∈ ((generate path).run σ).2.rows

/-- Wiring comes to its end with the table of the sources that can be read, and reports the others. -/
def Wires (s : Settings) (path : String) (σ : PassState) : Prop :=
  ∃ ps n, (listSources (searchedRoot s σ.disk) s.controllerPattern s.excludePaths).Does σ.disk (.ok ps) σ.disk ∧
    ((wire path).run σ).1 = .ok n ∧
    ((wire path).run σ).2.progress.table =
      wiringTable s σ.disk (unitsFor s σ.disk s.declarationsDir σ.progress) (ps.filter σ.disk.reads) ∧
    ∀ p ∈ ps, ∀ e, σ.disk.readText p = .error e →
      skippedRow .endpoints "Skipping endpoint unit: " p e ∈ ((wire path).run σ).2.rows

/-- The state in which a pass over markers begins to rewrite sources. -/
def wiredState (s : Settings) (σ : PassState) : PassState :=
  ((wireIn s (searchedRoot s σ.disk)).run ((generateIn s (searchedRoot s σ.disk)).run σ).2).2

/-- Where the tree of each source that it reads is laid over it, rewriting comes to its end with the changes of the
    sources that can be read, and reports the others. -/
def Rewrites (s : Settings) (path : String) (trial : Bool) (σ : PassState) : Prop :=
  ∃ ps, (listSources (searchedRoot s σ.disk) s.controllerPattern s.excludePaths).Does (wiredState s σ).disk (.ok ps)
      (wiredState s σ).disk ∧
    ((∀ p ∈ ps, ∀ cs, (wiredState s σ).disk.readText p = .ok cs →
      ∀ src, Source.ofText? (String.ofList cs) = some src → src.Laid) →
    ∃ o, ((rewrite path trial).run σ).1 = .ok o ∧
      ((ps.filter (wiredState s σ).disk.reads).foldlM (addRewritten s (wiredState s σ).progress.table trial) []).Does
        (wiredState s σ).disk (.ok o.changed) ((rewrite path trial).run σ).2.disk ∧
      ∀ p ∈ ps, ∀ e, (wiredState s σ).disk.readText p = .error e →
        skippedRow .rewriting "Skipping endpoint unit: " p e ∈ ((rewrite path trial).run σ).2.rows)

/-- Generating a legible project. -/
theorem generates_of_legible (hs : (projectSettings path).Does σ.disk (.ok s) σ.disk) (hd : σ.disk.tree.Proper)
    (h : s.Legible (searchedRoot s σ.disk) σ.disk) : Generates s path σ := by
  obtain ⟨habs, hroot⟩ := projectSettings_root hs
  obtain ⟨ps, units, d', hlist, hgenerate, -, -, hfilter, htells⟩ :=
    h.generateIn habs hd (standing_searchedRoot habs hroot) σ.progress
  have hsearch := Pass.Does.searchRoot s σ.disk
  have hreaches : (generate path).Reaches σ.disk σ.progress _ d' _ :=
    (hs.reaches _).bind ((hsearch.reaches _).bind hgenerate)
  obtain ⟨hresult, hdisk, -⟩ := hreaches.run
  refine ⟨ps, units, hlist, hresult, ?_, fun p hp e he => ?_⟩
  · rw [hdisk]
    exact hfilter
  · exact Pass.Tells.run (.behind (hs.reaches _) (.behind (hsearch.reaches _) (htells p hp e he)))

/-- Wiring a project whose rules and wiring are legible. -/
theorem wires_of_legible (hs : (projectSettings path).Does σ.disk (.ok s) σ.disk)
    (hrules : ∃ rules, rulesAt σ.disk (σ.disk.resolve (searchedRoot s σ.disk)) s.excludePaths = .ok rules)
    (hfault : (σ.disk.stands (s.outputRoot.child wiringFile)).fault? = none) : Wires s path σ := by
  obtain ⟨habs, hroot⟩ := projectSettings_root hs
  obtain ⟨rules, hrules⟩ := hrules
  have hlist := Pass.Does.listSources (standing_searchedRoot habs hroot) s.controllerPattern s.excludePaths
  rw [hrules, Except.map] at hlist
  obtain ⟨n, d', k', hwire, -, -, htable, htells⟩ := wireIn_legible habs hlist hfault σ.progress
  have hsearch := Pass.Does.searchRoot s σ.disk
  have hreaches : (wire path).Reaches σ.disk σ.progress _ d' k' := (hs.reaches _).bind ((hsearch.reaches _).bind hwire)
  obtain ⟨hresult, -, hprogress⟩ := hreaches.run
  refine ⟨_, n, hlist, hresult, ?_, fun p hp e he => ?_⟩
  · rw [hprogress]
    exact htable
  · exact Pass.Tells.run (.behind (hs.reaches _) (.behind (hsearch.reaches _) (htells p hp e he)))

/-- Rewriting the sources of a legible project. -/
theorem rewrites_of_legible (hs : (projectSettings path).Does σ.disk (.ok s) σ.disk) (hd : σ.disk.tree.Proper)
    (h : s.Legible (searchedRoot s σ.disk) σ.disk) (trial : Bool) : Rewrites s path trial σ := by
  obtain ⟨habs, hroot⟩ := projectSettings_root hs
  have hdir := standing_searchedRoot habs hroot
  have hsearch := Pass.Does.searchRoot s σ.disk
  obtain ⟨-, units, d₁, -, hgenerate, hregen₁, h₁, -⟩ := h.generateIn habs hd hdir σ.progress
  have hstate : wiredState s σ = ((wireIn s (searchedRoot s σ.disk)).run
    ((generateIn s (searchedRoot s σ.disk)).run σ).2).2 := rfl
  unfold Rewrites
  generalize searchedRoot s σ.disk = root at *
  have hdir₁ : d₁.tree.standing (d₁.resolve root).parts = .directory := by
    rw [Disk.resolve, hregen₁.here]
    exact hregen₁.directories _ hdir
  obtain ⟨m, d₂, k₂, hwire, hregen₂, h₂⟩ := h₁.wireIn habs hdir₁ (σ.progress.withScanned (.ok units))
  have hwired : (wiredState s σ).disk = d₂ ∧ (wiredState s σ).progress = k₂ := by
    obtain ⟨-, rfl, hk⟩ := hgenerate.run
    rw [← hk] at hwire
    rw [hstate]
    exact hwire.run.2
  have hresolve : d₂.resolve root = σ.disk.resolve root := by
    rw [Disk.resolve, hregen₂.here, hregen₁.here]
    rfl
  have hdir₂ : d₂.tree.standing (d₂.resolve root).parts = .directory := by
    rw [hresolve]
    exact hregen₂.directories _ (hregen₁.directories _ hdir)
  obtain ⟨rules, hrules⟩ := h₂.rules
  have hlist := Pass.Does.listSources hdir₂ s.controllerPattern s.excludePaths
  rw [hrules, Except.map] at hlist
  have hproper := hregen₂.proper (hregen₁.proper hd)
  rw [hwired.1, hwired.2]
  refine ⟨_, hlist, fun hlaid => ?_⟩
  obtain ⟨changed, d₃, hrewrite, hfilter, htells⟩ := rewriteSources_legible s k₂.table trial hlist
    (fun p hp => plainFile_of_mem_listed (d₂.isAbsolute_resolve root) hproper hdir₂ hp)
    (nodup_listedSources hproper _ _ rules) hlaid
  have hsaid : (rewriteEndpoints s k₂.table trial root s.controllerPattern).Does d₂ (.ok changed) d₃ :=
    hrewrite.bind (.say_bind _ _ _ (.pure changed d₃))
  have hreaches : (rewrite path trial).Reaches σ.disk σ.progress
      (.ok { declarations := units.length, endpoints := m, changed, trial }) d₃ k₂ :=
    (hs.reaches _).bind ((hsearch.reaches _).bind (hgenerate.bind (hwire.bind (.progress_bind
      ((hsaid.reaches k₂).bind ((Pass.Does.pure _ d₃).reaches k₂))))))
  obtain ⟨hresult, hdisk, -⟩ := hreaches.run
  refine ⟨_, hresult, ?_, fun p hp e he => ?_⟩
  · rw [hdisk]
    exact hfilter
  · have hrow : (rewriteEndpoints s k₂.table trial root s.controllerPattern).Tells d₂ k₂
        (skippedRow .rewriting "Skipping endpoint unit: " p e) :=
      (htells p hp e he k₂).bind (hrewrite.reaches k₂) fun changed' _ =>
        ⟨_, _, _, (Pass.Does.say_bind _ _ _ (.pure changed' d₃)).reaches k₂⟩
    exact Pass.Tells.run (.behind (hs.reaches _) (.behind (hsearch.reaches _) (.behind hgenerate (.behind hwire
      (.behind (Pass.Reaches.progress_bind ((Pass.Does.pure k₂ d₂).reaches k₂)) (hrow.bind (hsaid.reaches k₂)
        fun changed' _ => ⟨_, _, _, (Pass.Does.pure _ d₃).reaches k₂⟩))))))

/-- An illegible ignore file interrupts every pass. -/
theorem interrupted_of_rules {i : Interruption} (hs : (projectSettings path).Does σ.disk (.ok s) σ.disk)
    (hrules : rulesAt σ.disk (σ.disk.resolve (searchedRoot s σ.disk)) s.excludePaths = .error i) :
    ((generate path).run σ).1 = .error i ∧ ((wire path).run σ).1 = .error i ∧
      (∀ trial, ((rewrite path trial).run σ).1 = .error i) ∧
      ∀ now owner force, ((build now owner path force).run σ).1 = .error i := by
  obtain ⟨habs, hroot⟩ := projectSettings_root hs
  have hlist := fun pattern => Pass.Does.listSources (standing_searchedRoot habs hroot) pattern s.excludePaths
  simp only [hrules, Except.map] at hlist
  have hsearch := Pass.Does.searchRoot s σ.disk
  have hgenerate : (generateIn s (searchedRoot s σ.disk)).Reaches σ.disk σ.progress (.error i) σ.disk σ.progress :=
    .generateDeclarations (scanUnits_unlisted (hlist s.servicePattern)) σ.progress
  have hwire := Pass.Reaches.generateWiring_error s.outputRoot s.declarationsDir (hlist s.controllerPattern) σ.progress
  have hsurvey : ∀ force, (survey path force).Does σ.disk (.error i) σ.disk := fun force =>
    hs.bind (hsearch.bind (hlist s.servicePattern).bind_error)
  refine ⟨?_, ?_, fun trial => ?_, fun now owner force => ?_⟩
  · have hreaches : (generate path).Reaches σ.disk σ.progress (.error i) σ.disk σ.progress :=
      (hs.reaches _).bind ((hsearch.reaches _).bind hgenerate)
    exact hreaches.run.1
  · have hreaches : (wire path).Reaches σ.disk σ.progress (.error i) σ.disk _ :=
      (hs.reaches _).bind ((hsearch.reaches _).bind hwire)
    exact hreaches.run.1
  · have hreaches : (rewrite path trial).Reaches σ.disk σ.progress (.error i) σ.disk σ.progress :=
      (hs.reaches _).bind ((hsearch.reaches _).bind hgenerate.bind_error)
    exact hreaches.run.1
  · have hreaches : (Stages.standard.build now owner path force).Reaches σ.disk σ.progress (.error i) σ.disk σ.progress :=
      ((hsurvey force).reaches σ.progress).bind_error
    rw [← Stages.build_standard]
    exact hreaches.run.1

/-- An illegible signature interrupts a build that looks at it. -/
theorem interrupted_of_signature {i : Interruption} (hs : (projectSettings path).Does σ.disk (.ok s) σ.disk)
    (hfound : Signature.found σ.disk s.declarationsDir = .error i) (now : Binary64) (owner : Nat) :
    ∃ i, ((build now owner path false).run σ).1 = .error i := by
  cases hrules : rulesAt σ.disk (σ.disk.resolve (searchedRoot s σ.disk)) s.excludePaths with
  | error i => exact ⟨i, (interrupted_of_rules hs hrules).2.2.2 now owner false⟩
  | ok rules =>
    obtain ⟨habs, hroot⟩ := projectSettings_root hs
    have hlist := fun pattern => Pass.Does.listSources (standing_searchedRoot habs hroot) pattern s.excludePaths
    simp only [hrules, Except.map] at hlist
    have hneeded : ∀ sources, (needed false s.declarationsDir sources).Does σ.disk (.error i) σ.disk := fun sources => by
      have hisStale := Signature.isStale_does s.declarationsDir sources σ.disk
      rw [hfound, Except.map] at hisStale
      rw [needed, if_neg Bool.false_ne_true]
      exact hisStale
    have hsurvey : (survey path false).Does σ.disk (.error i) σ.disk :=
      hs.bind ((Pass.Does.searchRoot s σ.disk).bind ((hlist _).bind ((hlist _).bind (hneeded _).bind_error)))
    have hreaches : (Stages.standard.build now owner path false).Reaches σ.disk σ.progress (.error i) σ.disk σ.progress :=
      (hsurvey.reaches σ.progress).bind_error
    obtain ⟨hresult, -⟩ := hreaches.run
    rw [Stages.build_standard] at hresult
    exact ⟨i, hresult⟩

end Passes

/-! ### A project with files that cannot be read -/

namespace Unreadable

/-- A project with a unit, with a source that is no text, and with a signature that is cut off. -/
def state : PassState :=
  { disk :=
      { tree := .directory 0 [("project", .directory 0 [("src", .directory 0 [("generated", .directory 0 [("responses",
          .directory 0 [(signatureFile, .file (Text.encode ['\x7b']) 0)])]),
          ("orders.service.ts", .file [0xFF] 0), ("users.service.ts", .file (Text.encode
            "export class UsersService \x7b find() \x7b return \x7b id: 1 \x7d \x7d \x7d".toList) 0)])])]
        here := { root := "/", parts := [] }, clock := 1 }
    rows := [], progress := Progress.empty }

def settings : Settings :=
  Settings.standard { root := "/", parts := ["project"] }

theorem proper : state.disk.tree.Proper := by
  unfold state
  simp [Tree.Proper, Tree.properChildren_iff, Entries.Keyed, Entries.keys, signatureFile]

theorem found : Signature.found state.disk settings.declarationsDir = .ok none := by
  have htext : state.disk.readText (settings.declarationsDir.child signatureFile) = .ok ['\x7b'] := by decide +kernel
  have hjson : Json.ofText ['\x7b'] = .error .malformed := rfl
  rw [Signature.found, htext]
  simp only [hjson]

theorem onTheWay {place : List String} (h : settings.declarationsDir.OnTheWay place) :
    place ∈ [[], ["project"], ["project", "src"], ["project", "src", "generated"],
      ["project", "src", "generated", "responses"]] := by
  obtain ⟨k, rfl⟩ := h
  match k with
  | 0 | 1 | 2 | 3 => decide
  | k + 4 =>
    rw [List.take_of_length_le (Nat.le_add_left 4 k)]
    decide

theorem buildable : settings.Buildable (searchedRoot settings state.disk) state.disk where
  rules := ⟨[], by decide +kernel⟩
  kept h := absurd (onTheWay h) (by decide +kernel)
  modules := by
    rintro _ ⟨name, hname, rfl⟩
    have hfind : state.disk.tree.find? (settings.declarationsDir.home ++ [name]) =
        Entries.get? name [(signatureFile, .file (Text.encode ['\x7b']) 0)] := by
      have hhome : settings.declarationsDir.home = ["project", "src", "generated", "responses"] := by decide +kernel
      have hdirectory : state.disk.tree.find? ["project", "src", "generated", "responses"] =
          some (.directory 0 [(signatureFile, .file (Text.encode ['\x7b']) 0)]) := rfl
      rw [hhome, Tree.find?_append, hdirectory, Option.bind_some, Tree.find?_directory_cons]
      cases Entries.get? name [(signatureFile, Tree.file (Text.encode ['\x7b']) 0)] <;> simp
    rw [Tree.standing, hfind, Entries.get?_cons]
    split
    · rename_i heq
      subst heq
      exact absurd hname (by decide)
    · rfl
  wiring := by decide +kernel
  way place h := by
    have hway : ∀ place ∈ [[], ["project"], ["project", "src"], ["project", "src", "generated"],
        ["project", "src", "generated", "responses"]], (∀ name ∈ place.getLast?, Text.endsWith name moduleSuffix = false ∧
          name ≠ wiringFile ∧ name ≠ signatureFile) ∧ place ≠ settings.root.home ++ [lockFile] ∧
          state.disk.tree.standing place = .directory := by decide +kernel
    obtain ⟨hname, hlock, hdir⟩ := hway place (onTheWay h)
    refine ⟨fun hbuilt => ?_, hlock, fun content hfile => Standing.noConfusion (hdir.symm.trans hfile)⟩
    obtain ⟨around, name, rfl⟩ := Settings.exists_of_built hbuilt
    obtain ⟨hmodule, hwiring, hsignature⟩ := hname name (by simp)
    rcases Settings.name_of_built hbuilt with h | h | h
    · exact Bool.noConfusion (h.symm.trans hmodule)
    · exact hwiring h
    · exact hsignature h
  signature := by decide +kernel
  found := ⟨none, found⟩
  lock := by decide +kernel

end Unreadable

end ResponseShapes
