import ResponseShapes.Proofs.Build.Course

/-! # What an earlier build has left

A signature tells whether the sources are those of the build that left it (`Left.sources_eq`). If they are, then a build
reads what that build read, and writes the same wiring where the modules stand as they were left (`Ended.rewires`). If
they are and the signature is not older than any of them, a build finds everything up to date, whatever became of the
outputs (`upToDate_of_signed`). -/

namespace ResponseShapes

variable {path : String} {s : Settings} {now : Binary64} {owner : Nat} {force : Bool} {d d' d₀ d₁ d₂ d₃ : Disk}
  {p : Path} {services controllers services' controllers' : List Path} {v v' : Survey} {q : List String}

/-! ### What fingerprints are about -/

/-- The sources that are found in a survey of a project. -/
def surveyedSources (path : String) (d : Disk) : List Path :=
  match ((survey path true).run (.fresh d)).1 with
  | .ok v => v.sources
  | .error _ => []

/-- The text whose hash is the fingerprint of the sources. -/
def fingerprintText (path : String) (d : Disk) : List Char :=
  Signature.stats d (surveyedSources path d)

/-- The sources that are found are those that are listed. -/
theorem surveyedSources_of_lists (hsettings : (projectSettings path).Does d (.ok s) d)
    (hservices : (listSources (searchedRoot s d) s.servicePattern s.excludePaths).Does d (.ok services) d)
    (hcontrollers : (listSources (searchedRoot s d) s.controllerPattern s.excludePaths).Does d (.ok controllers) d) :
    surveyedSources path d = services ++ controllers := by
  have hsurvey : (survey path true).Does d
      (.ok { settings := s, root := searchedRoot s d, sources := services ++ controllers, stale := true }) d :=
    hsettings.bind ((Pass.Does.searchRoot s d).bind (hservices.bind (hcontrollers.bind
      ((Pass.Does.pure true d).bind (.pure _ d)))))
  have hrun := ((hsurvey.reaches Progress.empty).run (σ := .fresh d)).1
  delta surveyedSources
  rw [hrun]

namespace Survey.Of

theorem surveyedSources_eq (h : v.Of path force d services controllers) : surveyedSources path d = v.sources := by
  have hservices := h.listsServices
  have hcontrollers := h.listsControllers
  rw [h.root] at hservices hcontrollers
  rw [h.sources, surveyedSources_of_lists h.settings hservices hcontrollers]

/-- What is up to date has a signature with its fingerprint. -/
theorem exists_found (h : v.Of path false d services controllers) (hfresh : v.stale = false) : ∃ j,
    Signature.found d v.settings.declarationsDir = .ok (some j) ∧
      j.get? "fingerprint" = some (.text (Signature.fingerprint d v.sources)) := by
  have hneeded : (ResponseShapes.needed false v.settings.declarationsDir v.sources).Does d (.ok v.stale) d := h.needed
  rw [hfresh, ResponseShapes.needed, if_neg Bool.false_ne_true] at hneeded
  obtain ⟨hstale, -⟩ := hneeded.unique (Signature.isStale_does v.settings.declarationsDir v.sources d)
  cases hfound : Signature.found d v.settings.declarationsDir with
  | error i =>
    rw [hfound] at hstale
    cases hstale
  | ok found =>
    rw [hfound] at hstale
    cases found with
    | none => cases hstale
    | some j =>
      refine ⟨j, rfl, ?_⟩
      rw [Except.map, Option.all_some, Except.ok.injEq, eq_comm, Signature.outdated] at hstale
      split at hstale
      · cases hstale
      · rw [Bool.or_eq_false_iff, Bool.not_eq_false', Option.any_eq_true] at hstale
        obtain ⟨-, x, hx, htext⟩ := hstale
        rw [hx]
        cases x with
        | text t => rw [of_decide_eq_true htext]
        | _ => cases htext

/-- The sources of a survey are files with the names of files that no build writes. -/
theorem source_cases (h : v.Of path force d services controllers) (hs : s.Apart) (hd : s.Hold path d) (hp : p ∈ v.sources) :
    p.Named ∧ ¬s.Touched p.parts ∧ ∃ content time, d.Holds p content time := by
  obtain rfl := Except.ok.inj (h.settings.unique hd.settings).1
  obtain ⟨habs, hroot⟩ := projectSettings_root h.settings
  obtain ⟨rules, -, hservices, hcontrollers⟩ := h.exists_rules
  rw [h.root] at hservices hcontrollers
  rw [h.sources, hservices, hcontrollers, List.mem_append] at hp
  obtain ⟨htop, huntouched, content, time, hholds⟩ : p.root = "/" ∧ ¬v.settings.Touched p.parts ∧
      ∃ content time, d.Holds p content time := by
    obtain hp | hp := hp
    · exact hs.listed_cases habs List.mem_cons_self hd.proper hp
    · exact hs.listed_cases habs (List.mem_cons_of_mem _ List.mem_cons_self) hd.proper hp
  refine ⟨⟨htop, fun hnil => ?_, fun name hname => ?_, fun name hname => ?_⟩, huntouched, content, time, hholds⟩
  · have hfind := hholds.find?
    have hdir := Disk.standing_nil hroot
    rw [hnil] at hfind
    rw [Tree.standing, hfind] at hdir
    cases hdir
  · exact (hd.names p.parts content time huntouched hholds.file name hname).1
  · exact (hd.names p.parts content time huntouched hholds.file name hname).2

end Survey.Of

/-- A build that finds everything up to date has surveyed the project. -/
theorem exists_survey_of_upToDate [Recovery] (h : ((build now owner path false).run (.fresh d)).1 = .ok .upToDate) :
    ∃ (v : Survey) (services controllers : List Path), v.Of path false d services controllers ∧ v.stale = false := by
  rw [← Stages.build_standard] at h
  obtain ⟨r, hsurvey, hstale, hbuild⟩ | ⟨v, services, controllers, -, -, -, ⟨r, -, -, hbuild⟩ | ⟨d₁, d₂, d', k', place, r, hlocked, hbuild⟩⟩ :=
    Stages.build_cases Stages.standard_bounded now owner path false d Progress.empty
  · have hresult := (hbuild.run (σ := .fresh d)).1.symm.trans h
    cases r with
    | error i => cases hresult
    | ok v =>
      obtain ⟨r, hsurvey', hof⟩ := survey_does path false d
      obtain ⟨services, controllers, hv⟩ := hof v (hsurvey'.unique hsurvey).1
      exact ⟨v, services, controllers, hv, hstale v rfl⟩
  · have hresult := (hbuild.run (σ := .fresh d)).1.symm.trans h
    cases r <;> cases hresult
  · exact absurd ((hbuild.run (σ := .fresh d)).1.symm.trans h) hlocked.outcome.1

/-! ### Sources then and now -/

theorem Disk.Holds.readText_eq {content : List UInt8} {time time' : Int} (h : d.Holds p content time)
    (h' : d'.Holds p content time') : d'.readText p = d.readText p := by
  rw [Disk.readText_of_file h.stands, Disk.readText_of_file h'.stands]

theorem Disk.Holds.steady {output : Path} {content : List UInt8} {time : Int} (h : d.Holds p content time)
    (hp : ¬output.HoldsModule p.parts) : d.Steady output p :=
  ⟨⟨content, h.stands⟩, fun _ hplace => Except.ok.inj (h.place.symm.trans hplace) ▸ hp⟩

/-- Files that kept their sizes and their times have kept what they held, apart from those that builds write. -/
def SameContents (s : Settings) (d d' : Disk) : Prop :=
  ∀ place content content' time, ¬s.Touched place → d.tree.file? place = some (content, time) →
    d'.tree.file? place = some (content', time) → content.length = content'.length → content = content'

/-- Where the sources hold what they held, the same text is hashed. -/
theorem Signature.stats_congr {ps : List Path}
    (h : ∀ p ∈ ps, ∃ content time, d.Holds p content time ∧ d'.Holds p content time) : stats d' ps = stats d ps := by
  refine List.flatMap_congr fun p hp => ?_
  obtain ⟨content, time, hold, hnow⟩ := h p ((Path.perm_sort ps).mem_iff.mp hp)
  rw [hold.entry, hnow.entry]

/-- The text that a build hashes is that of the sources before it. -/
theorem Ended.stats_eq [Recovery] (h : Ended path s v services controllers d₀ d₁ d₂ d₃) (hs : s.Apart)
    (hd : s.Hold path d₀) :
    Signature.stats d₃ v.sources = Signature.stats d₀ v.sources := by
  obtain ⟨force, hv⟩ := h.surveyed
  obtain ⟨habs, -⟩ := projectSettings_root hd.settings
  have hlocked : Disk.Regenerated s.Touched s.declarationsDir.OnTheWay d₀ d₁ :=
    h.locked.mono (fun _ => .inr) fun _ => False.elim
  have hregen := hlocked.trans ((h.ran.regenerated habs).2.mono (fun _ hq => .inl (.inl hq)) fun _ => id)
  refine Signature.stats_congr fun p hp => ?_
  obtain ⟨-, huntouched, content, time, hholds⟩ := hv.source_cases hs hd hp
  exact ⟨content, time, hholds, hholds.regenerated hregen huntouched⟩

/-- The fingerprint that was left is that of the sources before the build. -/
theorem Ended.fingerprint_eq [Recovery] (h : Ended path s v services controllers d₀ d₁ d₂ d₃) (hs : s.Apart)
    (hd : s.Hold path d₀) :
    Signature.fingerprint d₃ v.sources = Sha256.digest (Text.encode (fingerprintText path d₀)) := by
  obtain ⟨force, hv⟩ := h.surveyed
  rw [Signature.fingerprint_eq, h.stats_eq hs hd, fingerprintText, hv.surveyedSources_eq]

/-- What is up to date are the sources that were surveyed, which hold what they held. -/
theorem Left.sources_eq [Recovery] (h : Left path s v services controllers d₀ d₁ d₂ d₃ d) (hs : s.Apart)
    (hd₀ : s.Hold path d₀)
    (hd : s.Hold path d) (hv' : v'.Of path false d services' controllers') (hfresh : v'.stale = false)
    (hsame : SameContents s d₀ d)
    (hhash : Sha256.digest (Text.encode (fingerprintText path d₀)) = Sha256.digest (Text.encode (fingerprintText path d)) →
      fingerprintText path d₀ = fingerprintText path d) :
    (services' = services ∧ controllers' = controllers) ∧
      ∀ p ∈ v.sources, ∃ content time, d₀.Holds p content time ∧ d.Holds p content time := by
  obtain ⟨force, hv⟩ := h.surveyed
  obtain ⟨habs, -⟩ := projectSettings_root hd.settings
  have hsettings : v'.settings = s := Except.ok.inj (hv'.settings.unique hd.settings).1
  obtain ⟨j, hfound, hcurrent⟩ := hv'.exists_found hfresh
  rw [hsettings] at hfound
  have hleft := Signature.fingerprint_of_found ((hs.stands_signature habs d).trans h.signed) hfound
  have hfingerprint : Signature.fingerprint d₃ v.sources = Signature.fingerprint d v'.sources :=
    Json.text.inj (Option.some.inj (hleft.symm.trans hcurrent))
  have htext : Signature.stats d₀ v.sources = Signature.stats d v'.sources := by
    rw [h.fingerprint_eq hs hd₀, Signature.fingerprint_eq, ← hv'.surveyedSources_eq, ← fingerprintText] at hfingerprint
    rw [← hv.surveyedSources_eq, ← hv'.surveyedSources_eq]
    exact hhash hfingerprint
  have hthere : ∀ {v : Survey} {d force services controllers}, v.Of path force d services controllers → s.Hold path d →
      ∀ p ∈ v.sources, p.Named ∧ ∃ t, d.entry p = .ok t := fun hv hd p hp =>
    let ⟨hnamed, _, _, _, hholds⟩ := hv.source_cases hs hd hp
    ⟨hnamed, _, hholds.entry⟩
  obtain ⟨hperm, hstats⟩ := Signature.eq_of_stats (hthere hv hd₀) (hthere hv' hd) htext
  refine ⟨hv.eq_of_perm hv' (hsettings.trans h.settings.symm) (h.settings ▸ hs.source) hd₀.proper hd.proper hperm,
    fun p hp => ?_⟩
  obtain ⟨-, huntouched, content, time, hholds⟩ := hv.source_cases hs hd₀ hp
  obtain ⟨-, -, content', time', hholds'⟩ := hv'.source_cases hs hd (hperm.mem_iff.mp hp)
  have hstat := hstats p hp
  rw [Signature.sizeAndTime, Signature.sizeAndTime, hholds.entry, hholds'.entry] at hstat
  obtain ⟨hsize, rfl⟩ := Prod.mk.inj hstat
  obtain rfl := hsame p.parts content content' time huntouched hholds.file hholds'.file hsize
  exact ⟨content, time, hholds, hholds'⟩

/-- Where the signature is, the directory around it is there. -/
theorem Settings.Apart.stands_declarationsDir (hs : s.Apart) (habs : s.root.isAbsolute)
    (h : d.tree.standing (Signature.place s.declarationsDir) ≠ .nothing) : d.stands s.declarationsDir = .directory := by
  rw [Disk.stands_of_no_dots (s.isAbsolute_declarationsDir habs) hs.dots, ← Path.withoutDots_of_no_dots hs.dots]
  exact @Tree.standing_of_append_cons _ _ [] signatureFile h

/-- Where the sources hold what they held and the modules stand as they were left, what was written under the lock is
    written again. -/
theorem Ended.rewires [Recovery] (h : Ended path s v services controllers d₀ d₁ d₂ d₃) (hs : s.Apart)
    (hd₀ : s.Hold path d₀)
    (hd : s.Hold path d) (hv' : v'.Of path force d services controllers)
    (hkept : ∀ p ∈ v.sources, ∃ content time, d₀.Holds p content time ∧ d.Holds p content time)
    (hmodules : ∀ q, s.declarationsDir.HoldsModule q → d.tree.standing q = d₃.tree.standing q)
    (hdir : d.stands s.declarationsDir = .directory)
    (hlocked : Disk.Regenerated (· = s.root.home ++ [lockFile]) (fun _ => False) d d') :
    ∃ text : String, ((d₃.tree.standing (s.outputRoot.home ++ [wiringFile])).fault? = none ∧
        (d₃.tree.standing (s.outputRoot.home ++ [wiringFile])).holding text.toList =
          d₃.tree.standing (s.outputRoot.home ++ [wiringFile])) ∧
      ((d'.tree.standing (s.outputRoot.home ++ [wiringFile])).fault? = none →
        ∃ d₁' d₂', s.Ran v'.root services controllers d' d₁' d₂' Progress.empty ∧ ∀ q, d₂'.tree.standing q =
          if q = s.outputRoot.home ++ [wiringFile] then (d'.tree.standing q).holding text.toList
          else d'.tree.standing q) := by
  obtain ⟨force₀, hv⟩ := h.surveyed
  obtain ⟨habs, hroot⟩ := projectSettings_root hd₀.settings
  have hsettings : v'.settings = s := Except.ok.inj (hv'.settings.unique hd.settings).1
  have hservices := hv'.listsServices
  have hcontrollers := hv'.listsControllers
  rw [hv'.root, hsettings] at hservices hcontrollers
  rw [hv'.root, hsettings]
  have hlock : ∀ q, s.declarationsDir.HoldsModule q → q ≠ s.root.home ++ [lockFile] := by
    rintro q hq rfl
    exact absurd (Settings.name_of_wired (.inl hq)) (by decide)
  have hregen₁ : Disk.Regenerated s.Touched s.declarationsDir.OnTheWay d₀ d₁ :=
    h.locked.mono (fun _ => .inr) fun _ => False.elim
  have hregen₂ := hregen₁.trans ((h.ran.regenerated habs).1.mono (fun _ hq => .inl (.inl hq)) fun _ => id)
  have hregen' : Disk.Regenerated s.Touched s.declarationsDir.OnTheWay d d' :=
    hlocked.mono (fun _ => .inr) fun _ => False.elim
  have hnew : ∀ q, d'.tree.standing q = .directory → d.tree.standing q = .directory := fun q hq =>
    (hlocked.new q hq).resolve_right id
  -- Each source holds in all these files what it held before the first build.
  have hsource : ∀ p ∈ v.sources, ∃ content time, ¬s.Touched p.parts ∧ d₁.Holds p content time ∧ d₂.Holds p content time ∧
      d'.Holds p content time := fun p hp => by
    obtain ⟨-, huntouched, -⟩ := hv.source_cases hs hd₀ hp
    obtain ⟨content, time, hold, hnow⟩ := hkept p hp
    exact ⟨content, time, huntouched, hold.regenerated hregen₁ huntouched, hold.regenerated hregen₂ huntouched,
      hnow.regenerated hregen' huntouched⟩
  have hno : ∀ {p : Path}, ¬s.Touched p.parts → ¬s.declarationsDir.HoldsModule p.parts := fun huntouched hmodule =>
    huntouched (.inl (.inl (.inl hmodule)))
  have hservice : ∀ p ∈ services, p ∈ v.sources := fun p hp => hv.sources ▸ List.mem_append_left _ hp
  have hcontroller : ∀ p ∈ controllers, p ∈ v.sources := fun p hp => hv.sources ▸ List.mem_append_right _ hp
  refine h.ran.rewires habs hs.output (hregen₁.proper hd₀.proper) (hregen'.proper hd.proper)
    (hregen₁.directories _ (Disk.standing_nil hroot)) h.opened (hlocked.stands_directory hdir)
    (fun q hq => (hlocked.standing_eq False.elim (hlock q hq)).trans (hmodules q hq))
    (fun p hp => ?_) (fun p hp => ?_) (fun p hp => ?_)
    (hs.lists_again hd List.mem_cons_self hservices hregen' (hnew _)) fun d'' hregen hstay => ?_
  · obtain ⟨content, time, huntouched, hold₁, -⟩ := hsource p (hservice p hp)
    exact hold₁.steady (hno huntouched)
  · obtain ⟨content, time, huntouched, hold₁, -, hnow⟩ := hsource p (hservice p hp)
    exact ⟨hnow.steady (hno huntouched), hold₁.readText_eq hnow⟩
  · obtain ⟨content, time, -, -, hold₂, hnow⟩ := hsource p (hcontroller p hp)
    exact ⟨⟨content, hnow.stands⟩, hold₂.readText_eq hnow⟩
  · refine hs.lists_again hd (List.mem_cons_of_mem _ List.mem_cons_self) hcontrollers
      (hregen'.trans (hregen.mono (fun _ hq => .inl (.inl (.inl hq))) fun _ => id)) fun hq => hnew _ ?_
    rw [← hstay]
    exact hq

/-! ### What is up to date -/

theorem Settings.Apart.holds_signature {content : List UInt8} {time : Int} (hs : s.Apart) (habs : s.root.isAbsolute)
    (h : d.tree.file? (Signature.place s.declarationsDir) = some (content, time)) :
    d.Holds (s.declarationsDir.child signatureFile) content time := by
  have hstands := (hs.stands_signature habs d).trans (Tree.standing_eq_file.mpr ⟨time, h⟩)
  have hplace := Disk.place_of_no_dots (Signature.isAbsolute_child (s.isAbsolute_declarationsDir habs))
    (Signature.dots_notMem_child hs.dots) (by rw [hstands]; exact Standing.noConfusion)
  rw [Signature.place_of_no_dots hs.dots] at h
  exact ⟨hplace.1, h⟩

/-- A build finds everything up to date if the signature stands for the sources as they are and is not older than any of
    them, whatever became of the outputs. -/
theorem upToDate_of_signed [Recovery] {time : Int} (hs : s.Apart) (hd : s.Hold path d)
    (hservices : (listSources (searchedRoot s d) s.servicePattern s.excludePaths).Does d (.ok services) d)
    (hcontrollers : (listSources (searchedRoot s d) s.controllerPattern s.excludePaths).Does d (.ok controllers) d)
    (hsigned : d.tree.file? (Signature.place s.declarationsDir) = some (Signature.bytes d₃ (services ++ controllers), time))
    (hstats : Signature.stats d (services ++ controllers) = Signature.stats d₃ (services ++ controllers))
    (hnewer : Signature.newer d time (services ++ controllers) = false)
    (hcount : (services ++ controllers).length.repr.toList.length ≤ Json.mostDigits) (now : Binary64) (owner : Nat) :
    ((build now owner path false).run (.fresh d)).1 = .ok .upToDate := by
  obtain ⟨habs, -⟩ := projectSettings_root hd.settings
  have hstands := (hs.stands_signature habs d).trans (Tree.standing_eq_file.mpr ⟨time, hsigned⟩)
  have hholds : d.Holds (s.declarationsDir.child signatureFile) _ time :=
    hs.holds_signature habs hsigned
  obtain ⟨count, hnumber⟩ : ∃ count, Json.numberOf false (services ++ controllers).length.repr.toList [] [] = .ok count :=
    ⟨_, by
      rw [Json.numberOf, List.isEmpty_nil, Bool.and_self, if_pos rfl, if_neg (Nat.not_lt.mpr hcount)]⟩
  have hplain := Signature.plain_fingerprint d₃ (services ++ controllers)
  have hfound : ∃ j, Signature.found d s.declarationsDir = .ok (some j) ∧
      j.get? "fingerprint" = some (.text (Signature.fingerprint d₃ (services ++ controllers))) := by
    rw [Signature.found, Disk.readText_of_file hstands, Signature.bytes, Text.decode_encode]
    dsimp only
    rw [Text.normalizeLineEnds_eq (Signature.return_notMem_text _ _ hplain), Signature.ofText_text _ _ hplain, hnumber]
    exact ⟨_, rfl, rfl⟩
  have hisStale := Signature.isStale_does s.declarationsDir (services ++ controllers) d
  obtain ⟨j, hj, hcurrent⟩ := hfound
  have hfresh : Signature.outdated d s.declarationsDir (services ++ controllers) j = false := by
    rw [Signature.outdated, hholds.entry]
    dsimp only [Tree.time]
    rw [hnewer, hcurrent, Signature.fingerprint_eq, Signature.fingerprint_eq, hstats, Option.any_some, Json.isText,
      decide_eq_true rfl]
    rfl
  rw [hj, Except.map, Option.all_some, hfresh] at hisStale
  have hsurvey : (survey path false).Does d (.ok
      { settings := s, root := searchedRoot s d, sources := services ++ controllers, stale := false }) d :=
    hd.settings.bind ((Pass.Does.searchRoot s d).bind (hservices.bind (hcontrollers.bind (hisStale.bind (.pure _ d)))))
  have hbuild : (Stages.standard.build now owner path false).Reaches d Progress.empty (.ok .upToDate) d Progress.empty :=
    (hsurvey.reaches _).bind ((Pass.Does.say_bind _ _ _ (.pure BuildOutcome.upToDate d)).reaches _)
  rw [← Stages.build_standard]
  exact (hbuild.run (σ := .fresh d)).1

/-! ### What is written again -/

/-- A build leaves in the places of the modules and of the wiring what generating and wiring leave there. -/
theorem standing_of_locked [Recovery] {r : Except Interruption BuildOutcome} {k' : Progress} {place : List String}
    {d₄ d₅ : Disk} (hs : s.Apart) (habs : s.root.isAbsolute) (hsettings : v.settings = s)
    (hlocked : Stages.standard.Locked now owner v d₀ d₁ d₂ d₃ Progress.empty k' place r)
    (hran : s.Ran v.root services controllers d₁ d₄ d₅ Progress.empty) (hq : s.Wired q) :
    d₃.tree.standing q = d₅.tree.standing q := by
  subst hsettings
  obtain ⟨n, m, k₁, k₂, hgenerate, hwire⟩ := hran.reaches
  obtain ⟨r', d, hrecord, hregen, -⟩ :=
    Signature.record_spec (v.settings.isAbsolute_declarationsDir habs) v.sources d₅
  have hend : ∃ r, (Stages.standard.regenerate v.settings v.root v.sources).Reaches d₁ Progress.empty r d k₂ := by
    cases r' with
    | error i => exact ⟨_, hgenerate.bind (hwire.bind (hrecord.reaches k₂).bind_error)⟩
    | ok _ => exact ⟨_, hgenerate.bind (hwire.bind ((hrecord.reaches k₂).bind ((Pass.Does.pure _ d).reaches k₂)))⟩
  obtain ⟨r, hend⟩ := hend
  obtain ⟨-, rfl, -⟩ := hlocked.reaches.unique hend
  have hlock : q ≠ place := by
    rintro rfl
    exact v.settings.not_built_lock habs hlocked.takes.leads (.inl hq)
  rw [hlocked.released.standing_eq False.elim hlock, hregen.standing_eq fun hway => absurd hway (hs.not_onTheWay hq)]
  rintro rfl
  exact v.settings.not_wired_signature hq

/-- The lock is taken at its place. -/
theorem Stages.Locked.takes_lock {stages : Stages} {r : Except Interruption BuildOutcome} {k k' : Progress}
    {place : List String} (h : stages.Locked now owner v d₀ d₁ d₂ d₃ k k' place r) (habs : v.settings.root.isAbsolute) :
    Disk.Regenerated (· = v.settings.root.home ++ [lockFile]) (fun _ => False) d₀ d₁ := by
  have hplace : place = v.settings.root.home ++ [lockFile] :=
    (Disk.place_eq (p := v.settings.root.child lockFile) habs h.takes.leads).trans
      (Path.withoutDots_append_singleton _ (by decide))
  exact hplace ▸ h.takes.regenerated

/-- A build writes the wiring again if it is gone and all else is as a build left it. -/
theorem standing_wiring_of_removed [Recovery] (h : Ended path s v services controllers d₀ d₁ d₂ d₃) (hs : s.Apart)
    (hd₀ : s.Hold path d₀) (hd : s.Hold path d)
    (hservices : (listSources (searchedRoot s d) s.servicePattern s.excludePaths).Does d (.ok services) d)
    (hcontrollers : (listSources (searchedRoot s d) s.controllerPattern s.excludePaths).Does d (.ok controllers) d)
    (hkept : ∀ p ∈ v.sources, ∃ content time, d₀.Holds p content time ∧ d.Holds p content time)
    (hmodules : ∀ q, s.declarationsDir.HoldsModule q → d.tree.standing q = d₃.tree.standing q)
    (hdir : d.stands s.declarationsDir = .directory)
    (hfree : d.tree.standing (s.root.home ++ [lockFile]) = .nothing)
    (hgone : d.tree.standing (s.outputRoot.home ++ [wiringFile]) = .nothing) (now : Binary64) (owner : Nat) :
    ((build now owner path true).run (.fresh d)).2.disk.tree.standing (s.outputRoot.home ++ [wiringFile]) ≠ .nothing := by
  obtain ⟨habs, hroot⟩ := projectSettings_root hd.settings
  have hsurvey : (survey path true).Does d (.ok
      { settings := s, root := searchedRoot s d, sources := services ++ controllers, stale := true }) d :=
    hd.settings.bind ((Pass.Does.searchRoot s d).bind (hservices.bind (hcontrollers.bind
      ((Pass.Does.pure true d).bind (.pure _ d)))))
  have hplace : ∀ {place : List String}, d.place (s.root.child lockFile) = .ok place →
      place = s.root.home ++ [lockFile] := fun h =>
    (Disk.place_eq (p := s.root.child lockFile) habs h).trans (Path.withoutDots_append_singleton _ (by decide))
  rw [← Stages.build_standard]
  obtain ⟨r, hsurvey', hstale, -⟩ | ⟨w, ws, wc, hsurvey', hw, -, ⟨r, hacquire, hheld, -⟩ | ⟨d₄, d₅, d', k', place, r, hlocked, hbuild⟩⟩ :=
    Stages.build_cases Stages.standard_bounded now owner path true d Progress.empty
  · cases hstale _ (hsurvey'.unique hsurvey).1
  · -- The lock is free, so it is taken.
    obtain rfl := Except.ok.inj (hw.settings.unique hd.settings).1
    have hmake : d.makeDirectories (Lock.ofSettings owner w.settings).path.parent = (d, none) := by
      rw [Lock.ofSettings, Path.parent_child]
      exact Disk.makeDirectoriesFrom_of_directory w.settings.root.parts.length hroot
    obtain ⟨_, _, hacquired, -⟩ | ⟨place, t, hleads, hsome, -⟩ | ⟨i, hfailed | hdirectory, -⟩ :=
      Lock.acquire_cases (l := Lock.ofSettings owner w.settings) rfl hmake now
    · cases hheld _ (hacquire.unique hacquired).1
    · rw [hplace hleads] at hsome
      rw [Tree.standing, hsome] at hfree
      exact absurd (Standing.of_eq_nothing.mp hfree) (Option.some_ne_none t)
    · exact absurd rfl hfailed
    · obtain ⟨place, hleads, hstanding⟩ := Disk.exists_place_of_stands (d := d)
        (p := (Lock.ofSettings owner w.settings).path) (by rw [hdirectory]; exact Standing.noConfusion)
      rw [hplace hleads, hfree, hdirectory] at hstanding
      cases hstanding
  · rw [(hbuild.run (σ := .fresh d)).2.1]
    obtain rfl := Except.ok.inj (hw.settings.unique hd.settings).1
    have htakes := hlocked.takes_lock habs
    have hlists := hw.listsServices
    have hlists' := hw.listsControllers
    rw [hw.root] at hlists hlists'
    obtain rfl := Except.ok.inj (hlists.unique hservices).1
    obtain rfl := Except.ok.inj (hlists'.unique hcontrollers).1
    have hunlocked : d₄.tree.standing (w.settings.outputRoot.home ++ [wiringFile]) = .nothing := by
      refine (htakes.standing_eq False.elim fun hlock => ?_).trans hgone
      exact absurd (show wiringFile = lockFile by simpa using congrArg List.getLast? hlock) (by decide)
    obtain ⟨text, -, hrewires⟩ := h.rewires hs hd₀ hd hw hkept hmodules hdir htakes
    obtain ⟨d₁', d₂', hran, hset⟩ := hrewires (by rw [hunlocked]; rfl)
    rw [standing_of_locked hs habs rfl hlocked hran (.inr rfl), hset, if_pos rfl, hunlocked]
    exact Standing.noConfusion

end ResponseShapes
