import ResponseShapes.Proofs.Build.Rewired
import ResponseShapes.Proofs.Pass.Again

/-! # Builds that are skipped

A build that finds everything up to date may be skipped: building would leave what stands in the places of the modules
and of the wiring (`build_upToDate_sound`). This is so in the course of a project in which a source whose text changes
gets another size or another time, and in which no two of the texts that are hashed have one fingerprint. A signature
does not stand for the outputs, though, so a wiring that is removed by hand stays away (`build_upToDate_removed`). -/

namespace ResponseShapes

variable {path : String} {s : Settings} {now : Binary64} {owner : Nat} {d : Disk} {past : List Disk} {q : List String}

/-! ### A project with one service -/

theorem Tree.exists_of_file?_singleton {name : String} {t : Tree} {time : Int} {x : List UInt8 × Int}
    (h : (Tree.directory time [(name, t)]).file? q = some x) : ∃ rest, q = name :: rest ∧ t.file? rest = some x := by
  rw [Tree.file?_eq] at h
  cases q with
  | nil => cases h
  | cons first rest =>
    rw [Tree.find?_directory_cons] at h
    by_cases hname : name = first
    · subst hname
      refine ⟨rest, rfl, ?_⟩
      rw [Tree.file?_eq]
      simpa [Entries.get?] using h
    · simp [Entries.get?, hname, Tree.asFile?] at h

namespace SingleUnit

/-- The project before it is built. -/
def unbuilt : Disk := (project ["project", "src"]).disk

/-- The files that a build leaves. -/
def leftBy (now : Binary64) (owner : Nat) (path : String) (force : Bool) (d : Disk) : Disk :=
  ((build now owner path force).run (.fresh d)).2.disk

theorem disk_build (now : Binary64) (owner : Nat) (path : String) (force : Bool) (d : Disk) :
    ((build now owner path force).run (.fresh d)).2.disk = leftBy now owner path force d := rfl

/-- The project once it is built. -/
def built : Disk := ((build (.finite false 0 0) 1 "/project" false).run (.fresh unbuilt)).2.disk

-- Between two definitions, since the build would be computed to compare its files with one of them.
theorem leftBy_unbuilt : leftBy (.finite false 0 0) 1 "/project" false unbuilt = built := rfl

/-- The project once its wiring is removed. -/
def removed : Disk := built.put (settings.outputRoot.home ++ [wiringFile]) none

/-- The one source. -/
def source : Path := { root := "/", parts := ["project", "src", "users.service.ts"] }

theorem build_unbuilt : ((build (.finite false 0 0) 1 "/project" false).run (.fresh unbuilt)).1 = .ok (.generated 1 0) ∧
    built.tree.standing (settings.outputRoot.home ++ [wiringFile]) ≠ .nothing ∧
    built.tree.standing (settings.outputRoot.home ++ [wiringFile]) ≠ .directory ∧
    (built.tree.file? (Signature.place settings.declarationsDir)).map (·.2) = some 1 ∧
    built.tree.standing ["project", "src", ignoreFile] = .nothing ∧
    built.tree.standing (settings.root.home ++ [lockFile]) = .nothing ∧
    built.place (settings.outputRoot.child wiringFile) = .ok (settings.outputRoot.home ++ [wiringFile]) := by
  decide +kernel

theorem lists_unbuilt : ((listSources settings.sourceRoot settings.servicePattern settings.excludePaths).run (.fresh unbuilt)).1 =
      .ok [source] ∧
    ((listSources settings.sourceRoot settings.controllerPattern settings.excludePaths).run (.fresh unbuilt)).1 = .ok [] := by
  decide +kernel

theorem apart : settings.Apart :=
  Settings.apart_standard (by decide)

theorem exists_of_file {content : List UInt8} {time : Int} (h : unbuilt.tree.file? q = some (content, time)) :
    q = source.parts ∧ time = 0 := by
  obtain ⟨inside, rfl, hinside⟩ := Tree.exists_of_file?_singleton h
  obtain ⟨deeper, rfl, hdeeper⟩ := Tree.exists_of_file?_singleton hinside
  obtain ⟨rest, rfl, hrest⟩ := Tree.exists_of_file?_singleton hdeeper
  cases rest with
  | nil => exact ⟨rfl, (Prod.mk.inj (Option.some.inj hrest)).2.symm⟩
  | cons name rest => cases hrest

theorem hold_unbuilt : settings.Hold "/project" unbuilt where
  settings := projectSettings_of_run (σ := .fresh unbuilt) rfl
  proper := proper_project ["project", "src"] (by decide)
  names := fun place content time _ hfile => by
    obtain ⟨rfl, -⟩ := exists_of_file hfile
    decide

/-- The sources of the project as they are listed in it, whatever builds write. -/
theorem lists_of_regenerated (hregen : Disk.Regenerated settings.Touched settings.declarationsDir.OnTheWay unbuilt d)
    (hignore : d.tree.standing ["project", "src", ignoreFile] = .nothing) :
    (listSources (searchedRoot settings d) settings.servicePattern settings.excludePaths).Does d (.ok [source]) d ∧
      (listSources (searchedRoot settings d) settings.controllerPattern settings.excludePaths).Does d (.ok []) d := by
  have hdir : unbuilt.hasDirectory settings.sourceRoot = true := by decide
  have hsearched : searchedRoot settings unbuilt = settings.sourceRoot := if_pos hdir
  have hsearched' : searchedRoot settings d = settings.sourceRoot :=
    if_pos (Disk.hasDirectory_iff.mpr (hregen.stands_directory (Disk.hasDirectory_iff.mp hdir)))
  have hlist : ∀ {pattern ps}, ((listSources settings.sourceRoot pattern settings.excludePaths).run (.fresh unbuilt)).1 = .ok ps →
      (listSources (searchedRoot settings unbuilt) pattern settings.excludePaths).Does unbuilt (.ok ps) unbuilt := fun {pattern ps} h => by
    rw [hsearched]
    exact listSources_of_run h
  have hplace : (unbuilt.resolve settings.sourceRoot).parts ++ [ignoreFile] = ["project", "src", ignoreFile] := by decide
  rw [hsearched', ← hsearched]
  refine ⟨apart.lists_again hold_unbuilt List.mem_cons_self (hlist lists_unbuilt.1) hregen fun h => ?_,
    apart.lists_again hold_unbuilt (List.mem_cons_of_mem _ List.mem_cons_self) (hlist lists_unbuilt.2) hregen fun h => ?_⟩ <;>
  · rw [hsearched, hplace, hignore] at h
    cases h

/-- What builds write does not change the source. -/
theorem holds_source (hregen : Disk.Regenerated settings.Touched settings.declarationsDir.OnTheWay unbuilt d) :
    ∃ content, unbuilt.Holds source content 0 ∧ d.Holds source content 0 := by
  have hsource : ¬settings.Touched source.parts := fun h =>
    absurd (@Settings.name_of_touched _ ["project", "src"] _ h) (by decide)
  have hholds : unbuilt.Holds source _ 0 := ⟨by decide, rfl⟩
  exact ⟨_, hholds, hholds.regenerated hregen hsource⟩

/-- What the build of the project leaves. -/
theorem exists_left : Disk.Regenerated settings.Touched settings.declarationsDir.OnTheWay unbuilt built ∧
    ∃ v d₁ d₂ d₃, Left "/project" settings v [source] [] unbuilt d₁ d₂ d₃ built := by
  obtain ⟨hservices, hcontrollers⟩ := lists_of_regenerated (.refl _ _ unbuilt) (by decide)
  have hbuild := exists_left_of_build apart hold_unbuilt build_unbuilt.1
  rw [disk_build, leftBy_unbuilt] at hbuild
  obtain heq | ⟨hregen, v, services, controllers, d₁, d₂, d₃, hleft⟩ := hbuild
  · have hnone : built.tree.standing (settings.outputRoot.home ++ [wiringFile]) = .nothing := by
      rw [heq]
      decide
    exact absurd hnone build_unbuilt.2.1
  · obtain ⟨force, hv⟩ := hleft.surveyed
    have hservices' := hv.listsServices
    have hcontrollers' := hv.listsControllers
    rw [hv.root, hleft.settings] at hservices' hcontrollers'
    obtain rfl := Except.ok.inj (hservices'.unique hservices).1
    obtain rfl := Except.ok.inj (hcontrollers'.unique hcontrollers).1
    exact ⟨hregen, v, d₁, d₂, d₃, hleft⟩

/-- The text that is hashed is about the one source. -/
theorem fingerprintText_of_regenerated
    (hregen : Disk.Regenerated settings.Touched settings.declarationsDir.OnTheWay unbuilt d)
    (hignore : d.tree.standing ["project", "src", ignoreFile] = .nothing) :
    fingerprintText "/project" d = Signature.stats unbuilt [source] := by
  obtain ⟨hservices, hcontrollers⟩ := lists_of_regenerated hregen hignore
  obtain ⟨content, hold, hnow⟩ := holds_source hregen
  rw [fingerprintText, surveyedSources_of_lists (hold_unbuilt.touched hregen).settings hservices hcontrollers,
    List.append_nil]
  exact Signature.stats_congr (List.forall_mem_singleton.mpr ⟨content, 0, hold, hnow⟩)

/-- As long as the signature is there, everything is up to date. -/
theorem upToDate_of_regenerated (hregen : Disk.Regenerated settings.Touched settings.declarationsDir.OnTheWay unbuilt d)
    (hignore : d.tree.standing ["project", "src", ignoreFile] = .nothing)
    (hsigned : d.tree.file? (Signature.place settings.declarationsDir) =
      built.tree.file? (Signature.place settings.declarationsDir)) (now : Binary64) (owner : Nat) :
    ((build now owner "/project" false).run (.fresh d)).1 = .ok .upToDate := by
  obtain ⟨-, v, d₁, d₂, d₃, hleft⟩ := exists_left
  obtain ⟨hservices, hcontrollers⟩ := lists_of_regenerated hregen hignore
  obtain ⟨content, hold, hnow⟩ := holds_source hregen
  obtain ⟨force, hv⟩ := hleft.surveyed
  obtain ⟨time, hfile⟩ := Tree.standing_eq_file.mp hleft.signed
  have hstats := hleft.stats_eq apart hold_unbuilt
  have htime := build_unbuilt.2.2.2.1
  rw [hfile, Option.map_some] at htime
  obtain rfl : time = 1 := Option.some.inj htime
  rw [hv.sources] at hfile hstats
  rw [← hsigned] at hfile
  refine upToDate_of_signed apart (hold_unbuilt.touched hregen) hservices hcontrollers hfile ?_ ?_ (by decide) now owner
  · rw [hstats]
    exact Signature.stats_congr (List.forall_mem_singleton.mpr ⟨content, 0, hold, hnow⟩)
  · rw [Signature.newer, List.append_nil, List.any_cons, hnow.entry]
    rfl

/-- Only the wiring is missing once it is removed. -/
theorem regenerated_removed : Disk.Regenerated (· = settings.outputRoot.home ++ [wiringFile]) (fun _ => False) built removed ∧
    removed.tree.standing (settings.outputRoot.home ++ [wiringFile]) = .nothing := by
  obtain ⟨-, -, hfile, -, -, -, hplace⟩ := build_unbuilt
  obtain ⟨hregen, hgone, -⟩ := Disk.Regenerated.put_place hplace Tree.bare_none hfile Standing.noConfusion
  exact ⟨hregen, hgone⟩

end SingleUnit

/-! ### Building what is up to date -/

/-- If a build finds everything up to date, then building leaves what stands in the places of the modules and of the
    wiring, in the course of a project in which no file that is none of these was replaced by another one of the same size
    and the same time, and no other text was hashed to the fingerprint of the sources. -/
theorem build_upToDate_sound [Recovery] (h : Course path s past d) (hs : s.Apart)
    (hsame : ∀ d₀ ∈ past, SameContents s d₀ d)
    (hhash : ∀ d₀ ∈ past,
      Sha256.digest (Text.encode (fingerprintText path d₀)) = Sha256.digest (Text.encode (fingerprintText path d)) →
        fingerprintText path d₀ = fingerprintText path d)
    (hskipped : ((build now owner path false).run (.fresh d)).1 = .ok .upToDate) (now' : Binary64) (owner' : Nat) :
    ∀ q, s.Wired q → ((build now' owner' path true).run (.fresh d)).2.disk.tree.standing q = d.tree.standing q := by
  have hd := h.hold hs d List.mem_cons_self
  obtain ⟨habs, -⟩ := projectSettings_root hd.settings
  obtain ⟨v', services', controllers', hv', hfresh⟩ := exists_survey_of_upToDate hskipped
  obtain ⟨j, hfound, -⟩ := hv'.exists_found hfresh
  rw [Except.ok.inj (hv'.settings.unique hd.settings).1] at hfound
  obtain hnone | ⟨d₀, hd₀, v, services, controllers, d₁, d₂, d₃, hleft⟩ := h.signed hs
  · rw [hfound] at hnone
    cases hnone
  have hhold := h.hold hs d₀ (List.mem_cons_of_mem _ hd₀)
  obtain ⟨⟨rfl, rfl⟩, hkept⟩ := hleft.sources_eq hs hhold hd hv' hfresh (hsame d₀ hd₀) (hhash d₀ hd₀)
  intro q hq
  rw [← Stages.build_standard]
  obtain ⟨r, -, -, hbuild⟩ | ⟨w, _, _, -, hw, -, ⟨r, -, -, hbuild⟩ | ⟨d₄, d₅, d', k', place, r, hlocked, hbuild⟩⟩ :=
    Stages.build_cases Stages.standard_bounded now' owner' path true d Progress.empty
  · rw [(hbuild.run (σ := .fresh d)).2.1]
  · rw [(hbuild.run (σ := .fresh d)).2.1]
  rw [(hbuild.run (σ := .fresh d)).2.1]
  obtain rfl := Except.ok.inj (hw.settings.unique hd.settings).1
  have htakes := hlocked.takes_lock habs
  have hroot : v'.root = w.root := by
    rw [hw.root, hv'.root, Except.ok.inj (hv'.settings.unique hd.settings).1]
  have hdir := hs.stands_declarationsDir habs (by rw [hleft.signed]; exact Standing.noConfusion)
  have hunlocked : ∀ q, w.settings.Wired q → d₄.tree.standing q = d.tree.standing q := fun q hq =>
    htakes.standing_eq False.elim fun hlock => absurd (Settings.name_of_wired (hlock ▸ hq)) (by decide)
  obtain ⟨text, ⟨hfault, hheld⟩, hrewires⟩ :=
    hleft.rewires hs hhold hd hv' hkept (fun q hq => hleft.wired q (.inl hq)) hdir htakes
  rw [← hleft.wired _ (.inr rfl), ← hunlocked _ (.inr rfl)] at hfault hheld
  obtain ⟨d₁', d₂', hran, hset⟩ := hrewires hfault
  rw [standing_of_locked hs habs rfl hlocked (hroot ▸ hran) hq, hset, ← hunlocked q hq]
  split
  · rename_i heq
    rw [heq, hheld]
  · rfl

/-- The project with one service is up to date once it is built, and building it leaves its module and its wiring. -/
theorem build_upToDate_sound_users : SingleUnit.settings.Apart ∧
    ((build (.finite false 0 0) 1 "/project" false).run (.fresh SingleUnit.built)).1 = .ok .upToDate ∧
    ∀ q, SingleUnit.settings.Wired q →
      ((build (.finite false 0 0) 1 "/project" true).run (.fresh SingleUnit.built)).2.disk.tree.standing q =
        SingleUnit.built.tree.standing q := by
  obtain ⟨hregen, -⟩ := SingleUnit.exists_left
  obtain ⟨hbuild, -, -, -, hignore, -⟩ := SingleUnit.build_unbuilt
  have hcourse := Course.build (.start SingleUnit.hold_unbuilt rfl) _ _ _ hbuild
  rw [SingleUnit.disk_build, SingleUnit.leftBy_unbuilt] at hcourse
  have hskipped := SingleUnit.upToDate_of_regenerated hregen hignore rfl (.finite false 0 0) 1
  refine ⟨SingleUnit.apart, hskipped, build_upToDate_sound hcourse SingleUnit.apart (List.forall_mem_singleton.mpr ?_)
    (List.forall_mem_singleton.mpr fun _ => ?_) hskipped (.finite false 0 0) 1⟩
  · intro place content content' time huntouched hfile hfile' _
    rw [hregen.files place huntouched, hfile] at hfile'
    exact (Prod.mk.inj (Option.some.inj hfile')).1
  · rw [SingleUnit.fingerprintText_of_regenerated (.refl _ _ _) (by decide),
      SingleUnit.fingerprintText_of_regenerated hregen hignore]

/-- Once the wiring of the project with one service is removed, a build finds everything up to date, although building
    would write the wiring. -/
theorem build_upToDate_removed :
    ((build (.finite false 0 0) 1 "/project" false).run (.fresh SingleUnit.removed)).1 = .ok .upToDate ∧
      ((build (.finite false 0 0) 1 "/project" true).run (.fresh SingleUnit.removed)).2.disk.tree.standing
          (SingleUnit.settings.outputRoot.home ++ [wiringFile]) ≠
        SingleUnit.removed.tree.standing (SingleUnit.settings.outputRoot.home ++ [wiringFile]) := by
  obtain ⟨hregen, v, d₁, d₂, d₃, hleft⟩ := SingleUnit.exists_left
  obtain ⟨-, -, -, -, hignore, hfree, -⟩ := SingleUnit.build_unbuilt
  obtain ⟨hremoves, hgone⟩ := SingleUnit.regenerated_removed
  have hregen' : Disk.Regenerated SingleUnit.settings.Touched SingleUnit.settings.declarationsDir.OnTheWay
      SingleUnit.unbuilt SingleUnit.removed :=
    hregen.trans (hremoves.mono (fun _ hq => .inl (.inl (.inr hq))) fun _ => False.elim)
  have hstays : ∀ q, q ≠ SingleUnit.settings.outputRoot.home ++ [wiringFile] →
      SingleUnit.removed.tree.standing q = SingleUnit.built.tree.standing q := fun q hq =>
    hremoves.standing_eq False.elim hq
  have hignore' := (hstays _ (by decide)).trans hignore
  obtain ⟨hservices, hcontrollers⟩ := SingleUnit.lists_of_regenerated hregen' hignore'
  obtain ⟨content, hold, hnow⟩ := SingleUnit.holds_source hregen'
  obtain ⟨force, hv⟩ := hleft.surveyed
  refine ⟨SingleUnit.upToDate_of_regenerated hregen' hignore' (hremoves.files _ (by decide)) _ _, ?_⟩
  rw [hgone]
  refine standing_wiring_of_removed hleft.toEnded SingleUnit.apart SingleUnit.hold_unbuilt
    (SingleUnit.hold_unbuilt.touched hregen') hservices hcontrollers (fun p hp => ?_) (fun q hq => ?_) ?_
    ((hstays _ (by decide)).trans hfree) hgone _ _
  · rw [hv.sources, List.append_nil, List.mem_singleton] at hp
    exact hp ▸ ⟨content, 0, hold, hnow⟩
  · refine (hstays q ?_).trans (hleft.wired q (.inl hq))
    rintro rfl
    obtain ⟨name, hname, heq⟩ := hq
    obtain rfl : wiringFile = name := by simpa using congrArg List.getLast? heq
    exact absurd hname (by decide)
  · refine SingleUnit.apart.stands_declarationsDir (by decide) ?_
    rw [hstays _ (by decide), hleft.signed]
    exact Standing.noConfusion

end ResponseShapes
