import ResponseShapes.Proofs.Build.Lock
import ResponseShapes.Proofs.Build.Signature
import ResponseShapes.Proofs.Pass.Writes

/-! # What a build leaves behind

A build first surveys the project, which changes nothing (`survey_does`), and then may ask for the lock. If it gets the
lock, the file of the lock is gone in the end, whatever interrupts the build, and the signature is left only behind a
generation and a wiring that came to their ends. If it does not get the lock, nothing is changed (`build_exits`). -/

namespace ResponseShapes

variable {path : String} {force : Bool} {now : Binary64} {owner : Nat} {s : Settings} {d : Disk} {k : Progress}

/-! ### Before the lock -/

/-- What a build knows before it asks for the lock: the settings, the directory that is searched, the sources, and
    whether there is anything to do. -/
structure Survey where
  settings : Settings
  root : Path
  sources : List Path
  stale : Bool
  deriving DecidableEq

/-- Whether there is anything to do. -/
def needed (force : Bool) (directory : Path) (sources : List Path) : Pass Bool :=
  if force then pure true else Signature.isStale directory sources

/-- What a build does before it asks for the lock. -/
def survey (path : String) (force : Bool) : Pass Survey := do
  let s ← projectSettings path
  let root ← searchRoot s
  let services ← listSources root s.servicePattern s.excludePaths
  let controllers ← listSources root s.controllerPattern s.excludePaths
  let sources := services ++ controllers
  let stale ← needed force s.declarationsDir sources
  return { settings := s, root, sources, stale }

/-- The stages of a build: generating, wiring and signing. -/
structure Stages where
  generate : Settings → Path → Pass Nat
  wire : Settings → Path → Pass Nat
  record : Path → List Path → Pass Unit

namespace Stages

/-- The stages as they are. -/
def standard [Recovery] : Stages where
  generate := generateIn
  wire := wireIn
  record := Signature.record

/-- What is done under the lock. -/
def regenerate (stages : Stages) (s : Settings) (root : Path) (sources : List Path) : Pass BuildOutcome := do
  let declarations ← stages.generate s root
  let endpoints ← stages.wire s root
  stages.record s.declarationsDir sources
  return .generated declarations endpoints

/-- What a build does after its survey. -/
def proceed (stages : Stages) (now : Binary64) (owner : Nat) (v : Survey) : Pass BuildOutcome :=
  if v.stale then buildLocked now (Lock.ofSettings owner v.settings) (stages.regenerate v.settings v.root v.sources)
  else do
    Pass.say .info .pipeline "Generated responses are up to date; skipping"
    return .upToDate

/-- A build with other stages. -/
def build (stages : Stages) (now : Binary64) (owner : Nat) (path : String) (force : Bool) : Pass BuildOutcome :=
  survey path force >>= stages.proceed now owner

theorem build_standard [Recovery] (now : Binary64) (owner : Nat) (path : String) (force : Bool) :
    standard.build now owner path force = ResponseShapes.build now owner path force := by
  cases force <;>
    simp only [build, ResponseShapes.build, survey, needed, proceed, bind_assoc, pure_bind, if_true, Bool.false_eq_true,
      if_false] <;> rfl

end Stages

theorem needed_does (force : Bool) (directory : Path) (sources : List Path) (d : Disk) :
    ∃ r, (needed force directory sources).Does d r d := by
  unfold needed
  split
  · exact ⟨_, .pure true d⟩
  · exact ⟨_, Signature.isStale_does directory sources d⟩

/-- A survey says what the settings of a project are, which directory is searched, which sources are listed, and whether
    there is anything to do. -/
structure Survey.Of (v : Survey) (path : String) (force : Bool) (d : Disk) (services controllers : List Path) : Prop where
  settings : (projectSettings path).Does d (.ok v.settings) d
  root : v.root = searchedRoot v.settings d
  listsServices : (listSources v.root v.settings.servicePattern v.settings.excludePaths).Does d (.ok services) d
  listsControllers : (listSources v.root v.settings.controllerPattern v.settings.excludePaths).Does d (.ok controllers) d
  sources : v.sources = services ++ controllers
  needed : (ResponseShapes.needed force v.settings.declarationsDir v.sources).Does d (.ok v.stale) d

/-- A survey writes nothing and is about a project that is there. -/
theorem survey_does (path : String) (force : Bool) (d : Disk) : ∃ r, (survey path force).Does d r d ∧
    ∀ v, r = .ok v → ∃ services controllers, v.Of path force d services controllers := by
  obtain ⟨r, hsettings, -⟩ := projectSettings_does d path
  cases r with
  | error i => exact ⟨_, hsettings.bind_error, nofun⟩
  | ok s =>
    have hroot := Pass.Does.searchRoot s d
    generalize hsearched : searchedRoot s d = root at hroot
    obtain ⟨r, hservices⟩ := listSources_does root s.servicePattern s.excludePaths d
    obtain ⟨r', hcontrollers⟩ := listSources_does root s.controllerPattern s.excludePaths d
    cases r with
    | error i => exact ⟨_, hsettings.bind (hroot.bind hservices.bind_error), nofun⟩
    | ok services =>
      cases r' with
      | error i => exact ⟨_, hsettings.bind (hroot.bind (hservices.bind hcontrollers.bind_error)), nofun⟩
      | ok controllers =>
        obtain ⟨r, hneeded⟩ := needed_does force s.declarationsDir (services ++ controllers) d
        cases r with
        | error i =>
          exact ⟨_, hsettings.bind (hroot.bind (hservices.bind (hcontrollers.bind hneeded.bind_error))), nofun⟩
        | ok stale =>
          refine ⟨_, hsettings.bind (hroot.bind (hservices.bind (hcontrollers.bind (hneeded.bind (.pure _ d))))), ?_⟩
          rintro v ⟨⟩
          exact ⟨services, controllers, hsettings, hsearched.symm, hservices, hcontrollers, rfl, hneeded⟩

/-! ### Under the lock -/

/-- Whatever a step comes to that leaves the file of the lock alone, the file is gone in the end; without the lock the
    step is not taken and nothing is changed. -/
theorem buildLocked_cases {lock : Lock} (hheld : lock.held = false) (hparent : d.stands lock.path.parent = .directory)
    {step : Pass BuildOutcome}
    (hstep : ∀ place d₁, d₁.place lock.path = .ok place → ∃ r d' k', step.Reaches d₁ k r d' k' ∧
      Disk.Regenerated (· ≠ place) (fun _ => True) d₁ d') (now : Binary64) :
    (∃ place d₁ r d₂ d' k', (lock.acquire now).Does d (.ok { lock with held := true }) d₁ ∧ lock.Takes place d d₁ ∧
      step.Reaches d₁ k r d₂ k' ∧ (buildLocked now lock step).Reaches d k r d' k' ∧ d'.stands lock.path = .nothing ∧
      Disk.Regenerated (· = place) (fun _ => False) d₂ d') ∨
    (∃ r, (lock.acquire now).Does d r d ∧ (∀ l, r = .ok l → l.held = false) ∧
      (buildLocked now lock step).Reaches d k (r.bind fun _ => .ok .locked) d k) := by
  have hmake := Disk.makeDirectoriesFrom_of_directory lock.path.parent.parts.length hparent
  obtain ⟨place, d₁, hdoes, htakes, -⟩ | ⟨place, t, -, -, -, hdoes⟩ | ⟨i, -, hdoes⟩ := Lock.acquire_cases hheld hmake now
  · obtain ⟨r, d₂, k', hstep, hregen⟩ := hstep place d₁ htakes.leads
    obtain ⟨r', d', hrelease, hregen', hgone⟩ :=
      Lock.release_of_held (l := { lock with held := true }) rfl d₂
    have hplace := hregen.place_eq htakes.leads
    obtain ⟨rfl, hnothing⟩ := hgone place _ _ htakes.inside hplace
      ((hregen.files place (not_not.mpr rfl)).trans htakes.file)
    refine .inl ⟨place, d₁, r, d₂, d', k', hdoes, htakes, hstep, (hdoes.reaches k).bind ?_, ?_, ?_⟩
    · exact hstep.andFinally hrelease
    · rw [Disk.stands_of_place (hregen'.place_eq hplace), hnothing]
    · exact hregen'.mono (fun q hq => Except.ok.inj (hq.symm.trans hplace)) fun _ => id
  · refine .inr ⟨_, hdoes, fun l hl => Except.ok.inj hl ▸ hheld, (hdoes.reaches k).bind ?_⟩
    rw [hheld]
    exact (Pass.Does.say_bind _ _ _ (.pure _ d)).reaches k
  · exact .inr ⟨_, hdoes, nofun, (hdoes.reaches k).bind_error⟩

/-! ### Generating, wiring and signing -/

namespace Settings

/-- The places that generating and wiring write to. -/
def Wired (s : Settings) (place : List String) : Prop :=
  s.declarationsDir.HoldsModule place ∨ place = s.outputRoot.home ++ [wiringFile]

/-- The places that a build writes to. -/
def Built (s : Settings) (place : List String) : Prop :=
  s.Wired place ∨ place = Signature.place s.declarationsDir

theorem name_of_wired {around : List String} {name : String} (h : s.Wired (around ++ [name])) :
    Text.endsWith name moduleSuffix = true ∨ name = wiringFile := by
  rcases h with ⟨name', hname, heq⟩ | heq
  · obtain rfl : name = name' := by simpa using congrArg List.getLast? heq
    exact .inl hname
  · exact .inr (by simpa using congrArg List.getLast? heq)

theorem name_of_built {around : List String} {name : String} (h : s.Built (around ++ [name])) :
    Text.endsWith name moduleSuffix = true ∨ name = wiringFile ∨ name = signatureFile := by
  rcases h with h | heq
  · exact (name_of_wired h).imp_right .inl
  · exact .inr (.inr (by simpa [Signature.place] using congrArg List.getLast? heq))

theorem exists_of_built {place : List String} (h : s.Built place) : ∃ around name, place = around ++ [name] := by
  obtain (⟨name, -, heq⟩ | heq) | heq := h
  · exact ⟨_, name, heq⟩
  · exact ⟨_, wiringFile, heq⟩
  · exact ⟨_, signatureFile, heq⟩

theorem not_wired_signature (s : Settings) : ¬s.Wired (Signature.place s.declarationsDir) := fun h =>
  absurd (name_of_wired h) (by decide)

/-- The file of the lock is not one that a build writes. -/
theorem not_built_lock (s : Settings) (habs : s.root.isAbsolute) {place : List String}
    (hplace : d.place (s.root.child lockFile) = .ok place) : ¬s.Built place := by
  have hlock : place = s.root.home ++ [lockFile] :=
    (Disk.place_eq (p := s.root.child lockFile) habs hplace).trans (Path.withoutDots_append_singleton _ (by decide))
  rw [hlock]
  exact fun h => absurd (name_of_built h) (by decide)

/-- The directories on the way to the wiring are on the way to the declarations. -/
theorem onTheWay_declarationsDir {place : List String} (h : s.outputRoot.OnTheWay place) : s.declarationsDir.OnTheWay place :=
  Path.OnTheWay.of_parent (by rwa [declarationsDir, Path.parent_child])

end Settings

/-- Wherever a stage comes to its end, by itself or by an interruption, it has written to its own places only. -/
structure Stages.Bounded (stages : Stages) : Prop where
  generate : ∀ s root d k, s.root.isAbsolute → ∃ r d' k', (stages.generate s root).Reaches d k r d' k' ∧
    Disk.Regenerated s.declarationsDir.HoldsModule s.declarationsDir.OnTheWay d d'
  wire : ∀ s root d k, s.root.isAbsolute → ∃ r d' k', (stages.wire s root).Reaches d k r d' k' ∧
    Disk.Regenerated (· = s.outputRoot.home ++ [wiringFile]) s.outputRoot.OnTheWay d d'
  record : ∀ directory sources d k, directory.isAbsolute → ∃ r d' k', (stages.record directory sources).Reaches d k r d' k' ∧
    Disk.Regenerated (· = Signature.place directory) directory.OnTheWay d d'

namespace Stages

variable {stages : Stages}

theorem standard_bounded [Recovery] : standard.Bounded where
  generate := fun _ root d k habs => generateIn_regenerated habs root d k
  wire := fun _ root d k habs => wireIn_regenerated habs root d k
  record := fun _ sources d k habs =>
    let ⟨r, d', hdoes, hregen, _⟩ := Signature.record_spec habs sources d
    ⟨r, d', k, hdoes.reaches k, hregen⟩

/-- Generating and wiring come to their ends, and then the signature is left; or one of them is interrupted, and the
    signature stays as it was. -/
theorem regenerate_cases (hstages : stages.Bounded) (habs : s.root.isAbsolute) (root : Path) (sources : List Path)
    (d : Disk) (k : Progress) :
    (∃ i d' k', (stages.regenerate s root sources).Reaches d k (.error i) d' k' ∧
      Disk.Regenerated s.Wired s.declarationsDir.OnTheWay d d') ∨
    ∃ n m d₁ d₂ k₁ k₂ r d' k', (stages.generate s root).Reaches d k (.ok n) d₁ k₁ ∧
      (stages.wire s root).Reaches d₁ k₁ (.ok m) d₂ k₂ ∧
      Disk.Regenerated s.Wired s.declarationsDir.OnTheWay d d₂ ∧
      (stages.record s.declarationsDir sources).Reaches d₂ k₂ r d' k' ∧
      Disk.Regenerated (· = Signature.place s.declarationsDir) s.declarationsDir.OnTheWay d₂ d' ∧
      (stages.regenerate s root sources).Reaches d k (r.map fun _ => .generated n m) d' k' := by
  obtain ⟨r₁, d₁, k₁, hgenerate, hregen₁⟩ := hstages.generate s root d k habs
  replace hregen₁ : Disk.Regenerated s.Wired s.declarationsDir.OnTheWay d d₁ :=
    hregen₁.mono (fun _ => .inl) fun _ => id
  cases r₁ with
  | error i => exact .inl ⟨i, d₁, k₁, hgenerate.bind_error, hregen₁⟩
  | ok n =>
    obtain ⟨r₂, d₂, k₂, hwire, hregen₂⟩ := hstages.wire s root d₁ k₁ habs
    replace hregen₂ : Disk.Regenerated s.Wired s.declarationsDir.OnTheWay d d₂ :=
      hregen₁.trans (hregen₂.mono (fun _ => .inr) fun _ => s.onTheWay_declarationsDir)
    cases r₂ with
    | error i => exact .inl ⟨i, d₂, k₂, hgenerate.bind hwire.bind_error, hregen₂⟩
    | ok m =>
      obtain ⟨r, d', k', hrecord, hregen⟩ :=
        hstages.record s.declarationsDir sources d₂ k₂ (s.isAbsolute_declarationsDir habs)
      refine .inr ⟨n, m, d₁, d₂, k₁, k₂, r, d', k', hgenerate, hwire, hregen₂, hrecord, hregen,
        hgenerate.bind (hwire.bind ?_)⟩
      cases r with
      | error i => exact hrecord.bind_error
      | ok _ => exact hrecord.bind ((Pass.Does.pure _ d').reaches k')

/-- What is done under the lock leaves the file of the lock alone. -/
theorem regenerate_spares (hstages : stages.Bounded) (habs : s.root.isAbsolute) (root : Path) (sources : List Path)
    (d : Disk) (k : Progress) {place : List String} (hplace : d.place (s.root.child lockFile) = .ok place) :
    ∃ r d' k', (stages.regenerate s root sources).Reaches d k r d' k' ∧
      Disk.Regenerated (· ≠ place) (fun _ => True) d d' ∧ r ≠ .ok .upToDate ∧ r ≠ .ok .locked := by
  have hother : ∀ q, s.Built q → q ≠ place := by
    rintro q hq rfl
    exact s.not_built_lock habs hplace hq
  have hspared : ∀ {d'}, Disk.Regenerated s.Built s.declarationsDir.OnTheWay d d' →
      Disk.Regenerated (· ≠ place) (fun _ => True) d d' := fun h => h.mono hother fun _ _ => trivial
  obtain ⟨i, d', k', hreaches, hregen⟩ | ⟨n, m, d₁, d₂, k₁, k₂, r, d', k', -, -, hregen₂, -, hregen, hreaches⟩ :=
    regenerate_cases hstages habs root sources d k
  · exact ⟨_, d', k', hreaches, hspared (hregen.mono (fun _ => .inl) fun _ => id), nofun, nofun⟩
  · refine ⟨_, d', k', hreaches, hspared ((hregen₂.mono (fun _ => .inl) fun _ => id).trans
      (hregen.mono (fun _ => .inr) fun _ => id)), ?_, ?_⟩ <;> cases r <;> exact nofun

/-- The signature is another one only if generating and wiring came to their ends. -/
theorem regenerate_signature (hstages : stages.Bounded) (habs : s.root.isAbsolute) {root : Path} {sources : List Path}
    {d d' : Disk} {k k' : Progress} {r : Except Interruption BuildOutcome}
    (hreaches : (stages.regenerate s root sources).Reaches d k r d' k')
    (hother : d'.tree.file? (Signature.place s.declarationsDir) ≠ d.tree.file? (Signature.place s.declarationsDir)) :
    ∃ n m d₁ d₂ k₁ k₂, (stages.generate s root).Reaches d k (.ok n) d₁ k₁ ∧
      (stages.wire s root).Reaches d₁ k₁ (.ok m) d₂ k₂ := by
  obtain ⟨i, d'', k'', hreaches', hregen⟩ | ⟨n, m, d₁, d₂, k₁, k₂, _, _, _, hgenerate, hwire, -⟩ :=
    regenerate_cases hstages habs root sources d k
  · obtain ⟨-, rfl, -⟩ := hreaches.unique hreaches'
    exact absurd (hregen.files _ s.not_wired_signature) hother
  · exact ⟨n, m, d₁, d₂, k₁, k₂, hgenerate, hwire⟩

end Stages

/-! ### The whole build -/

/-- A build gets the lock, generates, wires and signs under it, and releases it. -/
structure Stages.Locked (stages : Stages) (now : Binary64) (owner : Nat) (v : Survey) (d d₁ d₂ d' : Disk) (k k' : Progress)
    (place : List String) (r : Except Interruption BuildOutcome) : Prop where
  acquired : ((Lock.ofSettings owner v.settings).acquire now).Does d
    (.ok { Lock.ofSettings owner v.settings with held := true }) d₁
  takes : (Lock.ofSettings owner v.settings).Takes place d d₁
  reaches : (stages.regenerate v.settings v.root v.sources).Reaches d₁ k r d₂ k'
  released : Disk.Regenerated (· = place) (fun _ => False) d₂ d'
  gone : d'.stands (v.settings.root.child lockFile) = .nothing
  outcome : r ≠ .ok .upToDate ∧ r ≠ .ok .locked

/-- A build ends with its survey if that is interrupted or finds nothing to do, it ends without the lock, or it gets the
    lock; only then the files are other ones in the end. -/
theorem Stages.build_cases {stages : Stages} (hstages : stages.Bounded) (now : Binary64) (owner : Nat) (path : String)
    (force : Bool) (d : Disk) (k : Progress) :
    (∃ r, (survey path force).Does d r d ∧ (∀ v, r = .ok v → v.stale = false) ∧
      (stages.build now owner path force).Reaches d k (r.map fun _ => .upToDate) d k) ∨
    ∃ v services controllers, (survey path force).Does d (.ok v) d ∧ v.Of path force d services controllers ∧
      v.stale = true ∧ ((∃ r, ((Lock.ofSettings owner v.settings).acquire now).Does d r d ∧ (∀ l, r = .ok l → l.held = false) ∧
        (stages.build now owner path force).Reaches d k (r.map fun _ => .locked) d k) ∨
      ∃ d₁ d₂ d' k' place r, stages.Locked now owner v d d₁ d₂ d' k k' place r ∧
        (stages.build now owner path force).Reaches d k r d' k') := by
  obtain ⟨r, hsurvey, hof⟩ := survey_does path force d
  cases r with
  | error i => exact .inl ⟨_, hsurvey, nofun, (hsurvey.reaches k).bind_error⟩
  | ok v =>
    by_cases hstale : v.stale = true
    case neg =>
      refine .inl ⟨_, hsurvey, fun v' hv => Bool.eq_false_iff.mpr (Except.ok.inj hv ▸ hstale), (hsurvey.reaches k).bind ?_⟩
      rw [Stages.proceed, if_neg hstale]
      exact (Pass.Does.say_bind _ _ _ (.pure BuildOutcome.upToDate d)).reaches k
    case pos =>
    obtain ⟨services, controllers, hv⟩ := hof v rfl
    obtain ⟨habs, hroot⟩ := projectSettings_root hv.settings
    have hproceed : ∀ {r d' k'}, (buildLocked now (Lock.ofSettings owner v.settings)
        (stages.regenerate v.settings v.root v.sources)).Reaches d k r d' k' →
        (stages.build now owner path force).Reaches d k r d' k' := fun h =>
      (hsurvey.reaches k).bind (by rwa [Stages.proceed, if_pos hstale])
    refine .inr ⟨v, services, controllers, hsurvey, hv, hstale, ?_⟩
    obtain ⟨place, d₁, r, d₂, d', k', hacquire, htakes, hstep, hbuild, hgone, hregen⟩ | ⟨r, hacquire, hfree, hbuild⟩ :=
      buildLocked_cases (rfl : (Lock.ofSettings owner v.settings).held = false)
        (by rw [Lock.ofSettings, Path.parent_child, hroot])
        (fun place d₁ hplace =>
          let ⟨r, d', k', hreaches, hregen, _⟩ := regenerate_spares hstages habs v.root v.sources d₁ k hplace
          ⟨r, d', k', hreaches, hregen⟩) now
    · obtain ⟨r', d₂', k₂', hreaches, -, hnot⟩ := regenerate_spares hstages habs v.root v.sources d₁ k htakes.leads
      obtain ⟨rfl, -, -⟩ := hstep.unique hreaches
      exact .inr ⟨d₁, d₂, d', k', place, r, ⟨hacquire, htakes, hstep, hregen, hgone, hnot⟩, hproceed hbuild⟩
    · refine .inl ⟨r, hacquire, hfree, ?_⟩
      cases r <;> exact hproceed hbuild

/-- A build gets the lock of the project that it surveyed, which leads to another state. -/
structure GetsLock (now : Binary64) (owner : Nat) (path : String) (force : Bool) (σ : PassState) (v : Survey)
    (σ₁ : PassState) : Prop where
  surveyed : ((survey path force).run σ).1 = .ok v
  stale : v.stale = true
  acquired : ∃ l, ((Lock.ofSettings owner v.settings).acquire now).run ((survey path force).run σ).2 = (.ok l, σ₁) ∧
    l.held = true

namespace GetsLock

variable {σ σ₁ : PassState} {v v' : Survey} {r : Except Interruption Lock} {d₁ : Disk}

/-- The survey and the attempt to get the lock, as they are run one after the other. -/
theorem run_acquire (hsurvey : (survey path force).Does σ.disk (.ok v) σ.disk)
    (hacquire : ((Lock.ofSettings owner v.settings).acquire now).Does σ.disk r d₁) :
    ((survey path force).run σ).1 = .ok v ∧
      ∃ σ₁, ((Lock.ofSettings owner v.settings).acquire now).run ((survey path force).run σ).2 = (r, σ₁) ∧
        σ₁.disk = d₁ ∧ σ₁.progress = σ.progress := by
  obtain ⟨rows, hsurvey⟩ := hsurvey σ.rows σ.progress
  obtain ⟨more, hacquire⟩ := hacquire (σ.rows ++ rows) σ.progress
  rw [show (survey path force).run σ = _ from hsurvey]
  exact ⟨rfl, _, hacquire, rfl, rfl⟩

theorem eq_of_does (h : GetsLock now owner path force σ v' σ₁) (hsurvey : (survey path force).Does σ.disk (.ok v) σ.disk)
    (hacquire : ((Lock.ofSettings owner v.settings).acquire now).Does σ.disk r d₁) :
    v' = v ∧ (∃ l, r = .ok l ∧ l.held = true) ∧ σ₁.disk = d₁ ∧ σ₁.progress = σ.progress := by
  obtain ⟨hresult, σ', hrun, hdisk, hprogress⟩ := run_acquire hsurvey hacquire
  obtain rfl : v' = v := Except.ok.inj (h.surveyed.symm.trans hresult)
  obtain ⟨l, hrun', hheld⟩ := h.acquired
  obtain ⟨rfl, rfl⟩ := Prod.mk.inj (hrun'.symm.trans hrun)
  exact ⟨rfl, ⟨l, rfl, hheld⟩, hdisk, hprogress⟩

end GetsLock

/-- How a build with given stages leaves the files wherever it comes to its end: if it gets the lock, the file of the
    lock is gone, and the signature is another one only if generating and wiring came to their ends; if it does not get
    the lock, and so in particular if it finds everything up to date or another build under way, all files are as they
    were. -/
structure Exits (stages : Stages) (x : Pass BuildOutcome) (now : Binary64) (owner : Nat) (path : String) (force : Bool)
    (σ : PassState) : Prop where
  released : ∀ v σ₁, GetsLock now owner path force σ v σ₁ →
    (x.run σ).2.disk.stands (v.settings.root.child lockFile) = .nothing
  signed : ∀ v σ₁, GetsLock now owner path force σ v σ₁ →
    (x.run σ).2.disk.tree.file? (Signature.place v.settings.declarationsDir) ≠
      σ.disk.tree.file? (Signature.place v.settings.declarationsDir) →
    ∃ n m, ((stages.generate v.settings v.root).run σ₁).1 = .ok n ∧
      ((stages.wire v.settings v.root).run ((stages.generate v.settings v.root).run σ₁).2).1 = .ok m
  spared : (¬∃ v σ₁, GetsLock now owner path force σ v σ₁) → (x.run σ).2.disk = σ.disk
  idle : (x.run σ).1 = .ok .upToDate ∨ (x.run σ).1 = .ok .locked → (x.run σ).2.disk = σ.disk

theorem Exits.of_spared {stages : Stages} {x : Pass BuildOutcome} {σ : PassState}
    (hnot : ∀ v σ₁, ¬GetsLock now owner path force σ v σ₁) (h : (x.run σ).2.disk = σ.disk) :
    Exits stages x now owner path force σ :=
  ⟨fun v σ₁ hgets => absurd hgets (hnot v σ₁), fun v σ₁ hgets => absurd hgets (hnot v σ₁), fun _ => h, fun _ => h⟩

theorem Stages.exits {stages : Stages} (hstages : stages.Bounded) (now : Binary64) (owner : Nat) (path : String)
    (force : Bool) (σ : PassState) : Exits stages (stages.build now owner path force) now owner path force σ := by
  obtain ⟨r, hsurvey, hstale, hbuild⟩ | ⟨v, services, controllers, hsurvey, hv, hstale,
      ⟨r, hacquire, hfree, hbuild⟩ | ⟨d₁, d₂, d', k', place, r, hlocked, hbuild⟩⟩ :=
    build_cases hstages now owner path force σ.disk σ.progress
  · refine .of_spared (fun v σ₁ hgets => ?_) hbuild.run.2.1
    obtain rfl : r = .ok v := (hsurvey.reaches σ.progress).run.1.symm.trans hgets.surveyed
    exact Bool.false_ne_true ((hstale v rfl).symm.trans hgets.stale)
  · refine .of_spared (fun v' σ₁ hgets => ?_) hbuild.run.2.1
    obtain ⟨rfl, ⟨l, rfl, hheld⟩, -⟩ := hgets.eq_of_does hsurvey hacquire
    rw [hfree l rfl] at hheld
    cases hheld
  · obtain ⟨hresult, hdisk, -⟩ := hbuild.run
    refine ⟨fun v' σ₁ hgets => ?_, fun v' σ₁ hgets hsignature => ?_, fun hnone => ?_, fun hresult' => ?_⟩
    · obtain ⟨rfl, -⟩ := hgets.eq_of_does hsurvey hlocked.acquired
      exact hdisk ▸ hlocked.gone
    · obtain ⟨rfl, -, rfl, hprogress⟩ := hgets.eq_of_does hsurvey hlocked.acquired
      have hsigned : Signature.place v'.settings.declarationsDir ≠ place := fun h =>
        v'.settings.not_built_lock (projectSettings_root hv.settings).1 hlocked.takes.leads (h ▸ .inr rfl)
      rw [hdisk, hlocked.released.files _ hsigned, ← hlocked.takes.regenerated.files _ hsigned] at hsignature
      obtain ⟨n, m, d₃, d₄, k₁, k₂, hgenerate, hwire⟩ := regenerate_signature hstages
        (projectSettings_root hv.settings).1 hlocked.reaches hsignature
      obtain ⟨hn, rfl, rfl⟩ := (hprogress ▸ hgenerate).run
      exact ⟨n, m, hn, hwire.run.1⟩
    · obtain ⟨hsurveyed, σ₁, hrun, -⟩ := GetsLock.run_acquire hsurvey hlocked.acquired
      exact absurd ⟨v, σ₁, hsurveyed, hstale, _, hrun, rfl⟩ hnone
    · rw [hresult] at hresult'
      exact absurd hresult' (not_or.mpr hlocked.outcome)

/-- A build leaves the files so, and it would with any stages that write to their own places, whatever they come to. -/
theorem build_exits [Recovery] (now : Binary64) (owner : Nat) (path : String) (force : Bool) (σ : PassState) :
    Exits .standard (build now owner path force) now owner path force σ ∧
      ∀ stages : Stages, stages.Bounded → Exits stages (stages.build now owner path force) now owner path force σ :=
  ⟨Stages.build_standard now owner path force ▸ Stages.exits Stages.standard_bounded now owner path force σ,
    fun _ hstages => Stages.exits hstages now owner path force σ⟩

/-! ### An empty project -/

namespace EmptyProject

def state : PassState :=
  { disk :=
      { tree := .directory 0 [("project", .directory 0 [])], here := { root := "/", parts := [] }, clock := 0 }
    rows := [], progress := Progress.empty }

def surveyed : Survey :=
  { settings := Settings.standard { root := "/", parts := ["project"] }, root := { root := "/", parts := ["project"] }
    sources := [], stale := true }

/-- Generating as it is, while wiring is interrupted. -/
def interrupted : Stages :=
  { Stages.standard with wire := fun _ _ => Pass.interrupt (.digits 5000) }

theorem interrupted_bounded : interrupted.Bounded :=
  { Stages.standard_bounded with
    wire := fun _ _ d k _ => ⟨_, d, k, (Pass.Does.interrupt _ d).reaches k, .refl _ _ d⟩ }

end EmptyProject

/-- A build gets the lock of an empty project, but wiring is interrupted: the file of the lock is gone and no signature
    is left. -/
theorem build_exits_interrupted :
    ((EmptyProject.interrupted.build (.finite false 0 0) 1 "/project" true).run EmptyProject.state).2.disk.stands
        (EmptyProject.surveyed.settings.root.child lockFile) = .nothing ∧
      ((EmptyProject.interrupted.build (.finite false 0 0) 1 "/project" true).run EmptyProject.state).2.disk.tree.file?
        (Signature.place EmptyProject.surveyed.settings.declarationsDir) = none := by
  have hexits := (build_exits (.finite false 0 0) 1 "/project" true EmptyProject.state).2 _ EmptyProject.interrupted_bounded
  have hgets : GetsLock (.finite false 0 0) 1 "/project" true EmptyProject.state EmptyProject.surveyed
      (((Lock.ofSettings 1 EmptyProject.surveyed.settings).acquire (.finite false 0 0)).run
        ((survey "/project" true).run EmptyProject.state).2).2 :=
    ⟨by decide +kernel, rfl, _, Prod.ext (by decide +kernel) rfl, rfl⟩
  refine ⟨hexits.released _ _ hgets, not_not.mp fun hsigned => ?_⟩
  obtain ⟨n, m, -, hwire⟩ := hexits.signed _ _ hgets hsigned
  cases hwire

end ResponseShapes
