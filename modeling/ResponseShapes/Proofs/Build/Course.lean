import ResponseShapes.Proofs.Build.Fingerprint
import ResponseShapes.Proofs.Build.Resurvey
import ResponseShapes.Proofs.Pass.Repeat

/-! # The course of a project

In the course of a project (`Course`) builds come to their ends and files are edited: any files as long as no signature
is left, and else those that no build writes. The signature that is there then stands for the files of an earlier
build, whose outputs are still there (`Course.signed`). -/

namespace ResponseShapes

variable {path : String} {s : Settings} {now : Binary64} {owner : Nat} {force : Bool} {d d' d₀ d₁ d₂ d₃ : Disk}
  {ds : List Disk} {k : Progress} {root p : Path} {ps services controllers : List Path} {v v' : Survey}
  {q : List String} {modules made : List String → Prop}

/-! ### What builds write -/

namespace Settings

/-- The places that a build writes to, and that of the lock. -/
def Touched (s : Settings) (place : List String) : Prop :=
  s.Built place ∨ place = s.root.home ++ [lockFile]

/-- The directories are where their names say, and no source is a file that builds write. -/
structure Apart (s : Settings) : Prop where
  source : ".." ∉ s.sourceRoot.parts
  output : ".." ∉ s.outputRoot.parts
  globs : ∀ root ∈ [s.sourceRoot, s.root], ∀ pattern ∈ [s.servicePattern, s.controllerPattern], ∀ place,
    s.Touched (root.home ++ place) → (Glob.ofString pattern).describes (placePath place) = false

theorem name_of_touched {around : List String} {name : String} (h : s.Touched (around ++ [name])) :
    Text.endsWith name moduleSuffix = true ∨ name = wiringFile ∨ name = signatureFile ∨ name = lockFile := by
  rcases h with h | heq
  · exact (name_of_built h).imp_right (Or.imp_right .inl)
  · exact .inr (.inr (.inr (by simpa using congrArg List.getLast? heq)))

theorem Apart.dots (hs : s.Apart) : ".." ∉ s.declarationsDir.parts := by
  rw [declarationsDir, Path.child, List.mem_append, not_or]
  exact ⟨hs.output, by decide⟩

/-- No directory is made in the place of a module or of the wiring. -/
theorem Apart.not_onTheWay (hs : s.Apart) (hq : s.Wired q) : ¬s.declarationsDir.OnTheWay q := by
  rintro ⟨n, hway⟩
  rw [Path.withoutDots_of_no_dots fun h => hs.dots (List.mem_of_mem_take h)] at hway
  have hfront : q <+: s.outputRoot.parts ++ ["responses"] := hway ▸ List.take_prefix n _
  obtain ⟨name, -, hplace⟩ | hplace := hq
  · have hlength := hfront.length_le
    rw [hplace, Path.home, Path.withoutDots_of_no_dots hs.dots, declarationsDir, Path.child] at hlength
    simp only [List.length_append, List.length_singleton] at hlength
    omega
  · rw [hplace, Path.home, Path.withoutDots_of_no_dots hs.output, List.prefix_append_right_inj] at hfront
    exact absurd hfront (by decide)

/-- A glob describes nothing that builds write if it ends otherwise. -/
theorem describes_touched (pattern : String) (ts : List GlobToken) (ending : List Char)
    (htokens : (Glob.ofString pattern).tokens = ts ++ ending.map GlobToken.literal)
    (hending : ∀ tail ∈ [moduleSuffix, wiringFile, signatureFile, lockFile], ∀ e ∈ [ending, ending ++ ['\n']],
      ¬e <:+ tail.toList ∧ ¬tail.toList <:+ e)
    (hnil : (Glob.ofString pattern).describes "" = false) {around place : List String} (h : s.Touched (around ++ place)) :
    (Glob.ofString pattern).describes (placePath place) = false := by
  obtain rfl | ⟨place, last, rfl⟩ := List.eq_nil_or_concat' place
  · exact hnil
  obtain ⟨tail, htail, hlast⟩ : ∃ tail ∈ [moduleSuffix, wiringFile, signatureFile, lockFile], tail.toList <:+ last.toList := by
    rw [← List.append_assoc] at h
    obtain hmodule | rfl | rfl | rfl := name_of_touched h
    · exact ⟨moduleSuffix, by simp, List.isSuffixOf_iff_suffix.mp hmodule⟩
    · exact ⟨wiringFile, by simp, List.suffix_refl _⟩
    · exact ⟨signatureFile, by simp, List.suffix_refl _⟩
    · exact ⟨lockFile, by simp, List.suffix_refl _⟩
  exact describes_eq_false_of_ending pattern ts htokens (hending tail htail) hlast place

theorem dots_notMem_join (h : ".." ∉ root.parts) (hrel : p.isAbsolute = false) (hp : ".." ∉ p.parts) :
    ".." ∉ (root.join p).parts := by
  rw [Path.join, hrel, if_neg Bool.false_ne_true, List.mem_append, not_or]
  exact ⟨h, hp⟩

/-- The standard settings keep sources and outputs apart. -/
theorem apart_standard {root : Path} (hdots : ".." ∉ root.parts) : (standard root).Apart where
  source := dots_notMem_join (p := Path.ofString "src") hdots (by decide) (by decide)
  output := dots_notMem_join (p := Path.ofString "src/generated") hdots (by decide) (by decide)
  globs := fun root' _ pattern hpattern place htouched => by
    obtain rfl | rfl := List.mem_pair.mp hpattern
    · exact describes_touched "**/*.service.ts" [.directories, .withinName] ".service.ts".toList (by decide) (by decide)
        (by decide) htouched
    · exact describes_touched "**/*.controller.ts" [.directories, .withinName] ".controller.ts".toList (by decide) (by decide)
        (by decide) htouched

/-- The project at a path has the settings, and its sources have the names of files. -/
structure Hold (s : Settings) (path : String) (d : Disk) : Prop where
  settings : (projectSettings path).Does d (.ok s) d
  proper : d.tree.Proper
  names : ∀ place content time, ¬s.Touched place → d.tree.file? place = some (content, time) →
    ∀ name ∈ place, '/' ∉ name.toList ∧ '\x00' ∉ name.toList

/-- What a build writes changes nothing of the settings and of the sources. -/
theorem Hold.touched (h : s.Hold path d) (hregen : Disk.Regenerated s.Touched s.declarationsDir.OnTheWay d d') :
    s.Hold path d' where
  settings := projectSettings_regenerated h.settings hregen fun around hmodule =>
    absurd (name_of_touched hmodule) (by decide)
  proper := hregen.proper h.proper
  names := fun place content time hplace hfile =>
    h.names place content time hplace ((hregen.files place hplace).symm.trans hfile)

end Settings

/-! ### Sources -/

namespace Settings.Apart

variable {pattern : String} {rules : List IgnoreRule}

theorem isAbsolute_searched (habs : s.root.isAbsolute) (d : Disk) : (searchedRoot s d).isAbsolute = true := by
  unfold searchedRoot
  split
  · exact s.isAbsolute_sourceRoot habs
  · exact habs

theorem searched_mem (s : Settings) (d : Disk) : searchedRoot s d ∈ [s.sourceRoot, s.root] := by
  unfold searchedRoot
  split <;> simp

/-- The globs describe nothing that builds write, wherever they are applied. -/
theorem describes_eq (hs : s.Apart) (habs : s.root.isAbsolute) (hpattern : pattern ∈ [s.servicePattern, s.controllerPattern])
    (d d' : Disk) (place : List String) (hplace : s.Touched ((d'.resolve (searchedRoot s d)).parts ++ place)) :
    (Glob.ofString pattern).describes (placePath place) = false := by
  rw [Disk.resolve_parts (isAbsolute_searched habs d), ← Path.home] at hplace
  exact hs.globs _ (searched_mem s d) pattern hpattern place hplace

/-- The sources that are listed are files that no build writes. -/
theorem listed_cases (hs : s.Apart) (habs : s.root.isAbsolute) (hpattern : pattern ∈ [s.servicePattern, s.controllerPattern])
    (hd : d.tree.Proper) (h : p ∈ listedSources d (d.resolve (searchedRoot s d)) pattern rules) :
    p.root = "/" ∧ ¬s.Touched p.parts ∧ ∃ content time, d.Holds p content time := by
  obtain ⟨rel, content, time, rfl, hholds, hdescribes⟩ := exists_holds_of_mem_listed (d.isAbsolute_resolve _) hd h
  refine ⟨rfl, fun htouched => ?_, content, time, hholds⟩
  rw [hs.describes_eq habs hpattern d d rel htouched] at hdescribes
  cases hdescribes

theorem not_ignored (s : Settings) (d : Disk) (root : Path) : ¬s.Touched ((d.resolve root).parts ++ [ignoreFile]) := fun h =>
  absurd (name_of_touched h) (by decide)

/-- The sources that are listed are the same while builds write their files. -/
theorem lists_kept (hs : s.Apart) (hd : s.Hold path d) (hpattern : pattern ∈ [s.servicePattern, s.controllerPattern])
    (h : (listSources (searchedRoot s d) pattern s.excludePaths).Does d (.ok services) d)
    (h' : (listSources (searchedRoot s d) pattern s.excludePaths).Does d' (.ok ps) d')
    (hregen : Disk.Regenerated s.Touched made d d') : ps = services := by
  obtain ⟨habs, hroot⟩ := projectSettings_root hd.settings
  exact listSources_kept h h' hregen hd.proper (standing_searchedRoot habs hroot)
    (fun place => hs.describes_eq habs hpattern d d place) (not_ignored s d _)

/-- They are listed again if no directory is made in the place of the ignore file. -/
theorem lists_again (hs : s.Apart) (hd : s.Hold path d) (hpattern : pattern ∈ [s.servicePattern, s.controllerPattern])
    (h : (listSources (searchedRoot s d) pattern s.excludePaths).Does d (.ok services) d)
    (hregen : Disk.Regenerated s.Touched made d d')
    (hnew : d'.tree.standing ((d.resolve (searchedRoot s d)).parts ++ [ignoreFile]) = .directory →
      d.tree.standing ((d.resolve (searchedRoot s d)).parts ++ [ignoreFile]) = .directory) :
    (listSources (searchedRoot s d) pattern s.excludePaths).Does d' (.ok services) d' := by
  obtain ⟨habs, hroot⟩ := projectSettings_root hd.settings
  have hdir := standing_searchedRoot habs hroot
  obtain ⟨hlist, -⟩ := h.unique (.listSources hdir pattern s.excludePaths)
  rw [hlist]
  refine listSources_regenerates s.excludePaths hregen hd.proper hdir
    (fun place => hs.describes_eq habs hpattern d d place) (not_ignored s d _) ?_
  by_contra hignore
  obtain ⟨-, hmade, hold⟩ := stands_ignoreFile_of_made hregen (not_ignored s d _) hdir hignore
  exact hold (hnew hmade)

end Settings.Apart

/-! ### Looking at the signature -/

/-- A path without two dots leads to what stands in the place of its names. -/
theorem Disk.stands_of_no_dots (habs : p.isAbsolute) (hdots : ".." ∉ p.parts) (d : Disk) :
    d.stands p = d.tree.standing p.parts := by
  by_cases h : d.stands p = .nothing
  · by_contra hother
    exact hother (Disk.stands_of_standing habs hdots fun hnone => hother (h.trans hnone.symm)).2
  · exact (Disk.place_of_no_dots habs hdots h).2.symm

theorem Disk.readText_of_nothing (h : d.stands p = .nothing) : ∃ e, d.readText p = .error (.disk e) := by
  have hentry := d.entry_cases p
  rw [h] at hentry
  obtain ⟨e, hentry⟩ := hentry
  exact ⟨e, by rw [readText, readBytes, hentry]; rfl⟩

namespace Signature

/-! The signature is below a directory without two dots, at its place. -/

theorem isAbsolute_child (habs : p.isAbsolute) : (p.child signatureFile).isAbsolute :=
  habs

theorem dots_notMem_child (hdots : ".." ∉ p.parts) : ".." ∉ (p.child signatureFile).parts := by
  rw [Path.child, List.mem_append, not_or]
  exact ⟨hdots, by decide⟩

theorem place_of_no_dots (hdots : ".." ∉ p.parts) : place p = (p.child signatureFile).parts := by
  rw [place, Path.home, Path.withoutDots_of_no_dots hdots, Path.child]

/-- The signature that is found is told by what stands in its place. -/
theorem found_congr {directory : Path}
    (h : d'.stands (directory.child signatureFile) = d.stands (directory.child signatureFile)) :
    found d' directory = found d directory := by
  cases hstands : d.stands (directory.child signatureFile) with
  | nothing =>
    obtain ⟨e, hread⟩ := Disk.readText_of_nothing hstands
    obtain ⟨e', hread'⟩ := Disk.readText_of_nothing (h.trans hstands)
    rw [found, found, hread, hread']
  | directory => rw [found, found, Disk.readText_eq_of_stands h (by rw [hstands]; exact Standing.noConfusion)]
  | file content => rw [found, found, Disk.readText_eq_of_stands h (by rw [hstands]; exact Standing.noConfusion)]

theorem return_notMem_text (time : Int) (n : Nat) {fingerprint : String} (hplain : ∀ c ∈ fingerprint.toList, Json.Plain c) :
    '\r' ∉ (text time n fingerprint).toList := by
  have hnot : ∀ {cs : List Char}, (∀ c ∈ cs, Json.Plain c) → '\r' ∉ cs := fun h hmem => absurd (h _ hmem) (by decide)
  have hentry : ∀ {key rest : List Char}, '\r' ∉ key → '\r' ∉ rest → '\r' ∉ entryText key rest := fun hkey hrest => by
    simp [entryText, hkey, hrest]
  have hvalue : ∀ {body rest : List Char}, (∀ c ∈ body, Json.Plain c) → '\r' ∉ rest →
      '\r' ∉ '\x22' :: (body ++ '\x22' :: ',' :: rest) := fun hbody hrest => by simp [hnot hbody, hrest]
  rw [toList_text time n hplain, List.mem_cons, not_or]
  refine ⟨by decide, hentry (by decide) (hvalue hplain (hentry (by decide) (hvalue (plain_instantText time)
    (hentry (by decide) ?_))))⟩
  rw [List.mem_append, List.mem_cons, not_or, not_or]
  exact ⟨notMem_repr (by decide) n, by decide, hentry (by decide) (by decide)⟩

/-- A signature that was left and is found has the fingerprint that was left. -/
theorem fingerprint_of_found {directory : Path} {v : Json}
    (hsigned : d.stands (directory.child signatureFile) = .file (bytes d' ps)) (hfound : found d directory = .ok (some v)) :
    v.get? "fingerprint" = some (.text (fingerprint d' ps)) := by
  rw [found, Disk.readText_of_file hsigned, bytes, Text.decode_encode] at hfound
  dsimp only at hfound
  rw [Text.normalizeLineEnds_eq (return_notMem_text _ _ (plain_fingerprint d' ps))] at hfound
  split at hfound
  · rename_i v' hv
    split at hfound
    · obtain rfl := Option.some.inj (Except.ok.inj hfound)
      exact fingerprint_of_text (plain_fingerprint d' ps) hv
    · cases hfound
  · cases hfound
  · cases hfound

end Signature

/-- The signature is in its place. -/
theorem Settings.Apart.stands_signature (hs : s.Apart) (habs : s.root.isAbsolute) (d : Disk) :
    d.stands (s.declarationsDir.child signatureFile) = d.tree.standing (Signature.place s.declarationsDir) := by
  rw [Signature.place_of_no_dots hs.dots]
  exact Disk.stands_of_no_dots (Signature.isAbsolute_child (s.isAbsolute_declarationsDir habs)) (Signature.dots_notMem_child hs.dots) d

/-! ### What a build leaves -/

/-- A build of the files `d₀` came to its end: it took the lock, which led to `d₁`, generated, which led to `d₂`, and
    wired, which led to `d₃`; and then a signature could be left. -/
structure Ended [Recovery] (path : String) (s : Settings) (v : Survey) (services controllers : List Path)
    (d₀ d₁ d₂ d₃ : Disk) :
    Prop where
  surveyed : ∃ force, v.Of path force d₀ services controllers
  settings : v.settings = s
  locked : Disk.Regenerated (· = s.root.home ++ [lockFile]) (fun _ => False) d₀ d₁
  ran : s.Ran v.root services controllers d₁ d₂ d₃ Progress.empty
  opened : (d₃.makeDirectories s.declarationsDir).2 = none

/-- What a build wrote when it came to its end is what `d` holds. -/
structure Left [Recovery] (path : String) (s : Settings) (v : Survey) (services controllers : List Path)
    (d₀ d₁ d₂ d₃ d : Disk) : Prop
    extends Ended path s v services controllers d₀ d₁ d₂ d₃ where
  wired : ∀ q, s.Wired q → d.tree.standing q = d₃.tree.standing q
  signed : d.tree.standing (Signature.place s.declarationsDir) = .file (Signature.bytes d₃ v.sources)

/-- Generating and wiring write what they write. -/
theorem Settings.Ran.regenerated [Recovery] (h : s.Ran root services controllers d d₁ d₂ k) (habs : s.root.isAbsolute) :
    Disk.Regenerated s.Wired s.declarationsDir.OnTheWay d d₁ ∧ Disk.Regenerated s.Wired s.declarationsDir.OnTheWay d d₂ := by
  obtain ⟨n, m, k₁, k₂, hgenerate, hwire⟩ := h.reaches
  obtain ⟨_, _, _, hgenerates, hregen⟩ := generateIn_regenerated habs root d k
  obtain ⟨-, rfl, -⟩ := hgenerate.unique hgenerates
  obtain ⟨_, _, _, hwires, hregen'⟩ := wireIn_regenerated habs root d₁ k₁
  obtain ⟨-, rfl, -⟩ := hwire.unique hwires
  replace hregen : Disk.Regenerated s.Wired s.declarationsDir.OnTheWay d d₁ := hregen.mono (fun _ => .inl) fun _ => id
  exact ⟨hregen, hregen.trans (hregen'.mono (fun _ => .inr) fun _ => s.onTheWay_declarationsDir)⟩

/-- Generating and wiring under the lock go through the sources that were surveyed. -/
theorem ran_of_surveyed [Recovery] {n m : Nat} {k₁ k₂ : Progress} (hs : s.Apart) (hd : s.Hold path d₀)
    (hv : v.Of path force d₀ services controllers) (hsettings : v.settings = s)
    (hlocked : Disk.Regenerated (· = s.root.home ++ [lockFile]) (fun _ => False) d₀ d₁)
    (hgenerate : (generateIn s v.root).Reaches d₁ k (.ok n) d₂ k₁) (hwire : (wireIn s v.root).Reaches d₂ k₁ (.ok m) d₃ k₂) :
    s.Ran v.root services controllers d₁ d₂ d₃ k := by
  subst hsettings
  obtain ⟨habs, -⟩ := projectSettings_root hd.settings
  obtain ⟨_, _, _, hgenerates, hregen⟩ := generateIn_regenerated habs v.root d₁ k
  obtain ⟨-, rfl, -⟩ := hgenerate.unique hgenerates
  have hregen₁ : Disk.Regenerated v.settings.Touched v.settings.declarationsDir.OnTheWay d₀ d₁ :=
    hlocked.mono (fun _ => .inr) fun _ => False.elim
  have hregen₂ := hregen₁.trans (hregen.mono (fun _ h => .inl (.inl (.inl h))) fun _ => id)
  have hservices := hv.listsServices
  have hcontrollers := hv.listsControllers
  rw [hv.root] at hgenerate hwire hservices hcontrollers ⊢
  obtain ⟨_ | ps, hlist⟩ := listSources_does (searchedRoot v.settings d₀) v.settings.servicePattern v.settings.excludePaths d₁
  · exact nomatch (hgenerate.unique (.generateDeclarations hlist.bind_error k)).1
  obtain ⟨_ | ps', hlist'⟩ :=
    listSources_does (searchedRoot v.settings d₀) v.settings.controllerPattern v.settings.excludePaths d₂
  · exact nomatch (hwire.unique (.generateWiring_error _ _ hlist' _)).1
  obtain rfl := hs.lists_kept hd (by simp) hservices hlist hregen₁
  obtain rfl := hs.lists_kept hd (by simp) hcontrollers hlist' hregen₂
  exact ⟨hlist, hlist', n, m, k₁, k₂, hgenerate, hwire⟩

/-- The directory of a signature that was left can be made. -/
theorem Signature.makeDirectories_of_record {directory : Path} (h : (record directory ps).Does d (.ok ()) d') :
    (d.makeDirectories directory).2 = none := by
  cases hmake : d.makeDirectories directory with
  | mk d₁ failure =>
    obtain ⟨rfl, -⟩ | ⟨e, rfl, hdoes⟩ := Pass.Does.makeDirectories hmake
    · rfl
    · exact nomatch (h.unique (.disk_bind hdoes.bind_error)).1

/-- Files when a pass starts: nothing is reported and nothing is known yet. -/
def PassState.fresh (d : Disk) : PassState :=
  { disk := d, rows := [], progress := Progress.empty }

/-- A build that comes to its end leaves what it wrote, unless it changes nothing at all. -/
theorem exists_left_of_build [Recovery] {o : BuildOutcome} (hs : s.Apart) (hd : s.Hold path d)
    (h : ((build now owner path force).run (.fresh d)).1 = .ok o) :
    ((build now owner path force).run (.fresh d)).2.disk = d ∨
      Disk.Regenerated s.Touched s.declarationsDir.OnTheWay d ((build now owner path force).run (.fresh d)).2.disk ∧
      ∃ v services controllers d₁ d₂ d₃,
        Left path s v services controllers d d₁ d₂ d₃ ((build now owner path force).run (.fresh d)).2.disk := by
  rw [← Stages.build_standard] at h ⊢
  obtain ⟨r, -, -, hbuild⟩ | ⟨v, services, controllers, -, hv, -, ⟨r, -, -, hbuild⟩ | ⟨d₁, d₄, d₅, k₅, place, r, hlocked, hbuild⟩⟩ :=
    Stages.build_cases Stages.standard_bounded now owner path force d Progress.empty
  · exact .inl (hbuild.run (σ := .fresh d)).2.1
  · exact .inl (hbuild.run (σ := .fresh d)).2.1
  obtain ⟨hresult, hdisk, -⟩ := hbuild.run (σ := .fresh d)
  obtain rfl := hresult.symm.trans h
  rw [hdisk]
  obtain ⟨hsettings, -⟩ := hv.settings.unique hd.settings
  obtain rfl := Except.ok.inj hsettings
  obtain ⟨habs, -⟩ := projectSettings_root hd.settings
  have hplace : place = v.settings.root.home ++ [lockFile] :=
    (Disk.place_eq (p := v.settings.root.child lockFile) habs hlocked.takes.leads).trans
      (Path.withoutDots_append_singleton _ (by decide))
  obtain ⟨_, _, _, hreaches, -⟩ | ⟨n, m, d₂, d₃, k₂, k₃, r, _, _, hgenerate, hwire, hregen, hrecord, hrecorded, hreaches⟩ :=
    Stages.regenerate_cases Stages.standard_bounded habs v.root v.sources d₁ Progress.empty
  · exact nomatch (hlocked.reaches.unique hreaches).1
  obtain ⟨hr, rfl, -⟩ := hlocked.reaches.unique hreaches
  obtain _ | ⟨⟩ := r
  · cases hr
  have htakes := hlocked.takes.regenerated
  have hreleased := hlocked.released
  obtain ⟨r, _, hdoes, -, -, -, hsigned⟩ := Signature.record_spec (v.settings.isAbsolute_declarationsDir habs) v.sources d₃
  obtain ⟨rfl, rfl, -⟩ := hrecord.unique (hdoes.reaches k₃)
  rw [hplace] at htakes hreleased
  have hlock : ∀ q, v.settings.Built q → q ≠ v.settings.root.home ++ [lockFile] := by
    intro q hq heq
    rw [heq] at hq
    exact v.settings.not_built_lock habs (hplace ▸ hlocked.takes.leads) hq
  refine .inr ⟨?_, v, services, controllers, d₁, d₂, d₃, ⟨⟨force, hv⟩, rfl, htakes,
    ran_of_surveyed hs hd hv rfl htakes hgenerate hwire, Signature.makeDirectories_of_record hdoes⟩, fun q hq => ?_, ?_⟩
  · exact (((htakes.mono (fun _ => .inr) fun _ => False.elim).trans (hregen.mono (fun _ h => .inl (.inl h)) fun _ => id)).trans
      (hrecorded.mono (fun _ h => .inl (.inr h)) fun _ => id)).trans (hreleased.mono (fun _ => .inr) fun _ => False.elim)
  · rw [hreleased.standing_eq False.elim (hlock q (.inl hq)), hrecorded.standing_eq fun hway => absurd hway (hs.not_onTheWay hq)]
    rintro rfl
    exact v.settings.not_wired_signature hq
  · rw [hreleased.standing_eq False.elim (hlock _ (.inr rfl)), Tree.standing_eq_file]
    exact ⟨_, hsigned rfl⟩

/-! ### The course of a project -/

variable [Recovery]

/-- What a project comes to hold: builds come to their ends, and files are edited, those that builds write only if no
    signature is left. The files that were there before come first, the latest at the head. -/
inductive Course (path : String) (s : Settings) : List Disk → Disk → Prop
  | start {d : Disk} (hd : s.Hold path d) (hunsigned : Signature.found d s.declarationsDir = .ok none) : Course path s [] d
  | build {past : List Disk} {d : Disk} (h : Course path s past d) (now : Binary64) (owner : Nat) (force : Bool)
      {o : BuildOutcome} (hbuild : ((ResponseShapes.build now owner path force).run (.fresh d)).1 = .ok o) :
      Course path s (d :: past) ((ResponseShapes.build now owner path force).run (.fresh d)).2.disk
  | edit {past : List Disk} {d d' : Disk} (h : Course path s past d) (hd' : s.Hold path d')
      (hleft : Signature.found d' s.declarationsDir = .ok none ∨ ∀ q, s.Built q → d'.tree.standing q = d.tree.standing q) :
      Course path s (d :: past) d'

namespace Course

variable {past : List Disk}

/-- The settings stay. -/
theorem hold (hs : s.Apart) (h : Course path s past d) : ∀ d' ∈ d :: past, s.Hold path d' := by
  induction h with
  | start hd => exact List.forall_mem_singleton.mpr hd
  | @build past d _ now owner force _ hbuild ih =>
    have hd : s.Hold path d := ih d List.mem_cons_self
    refine List.forall_mem_cons.mpr ⟨?_, ih⟩
    obtain heq | ⟨hregen, -⟩ := exists_left_of_build hs hd hbuild
    · rw [heq]
      exact hd
    · exact hd.touched hregen
  | edit _ hd' _ ih => exact List.forall_mem_cons.mpr ⟨hd', ih⟩

/-- A signature that is there was left by an earlier build, and so was what that build wrote. -/
theorem signed (hs : s.Apart) (h : Course path s past d) : Signature.found d s.declarationsDir = .ok none ∨
    ∃ d₀ ∈ past, ∃ v services controllers d₁ d₂ d₃, Left path s v services controllers d₀ d₁ d₂ d₃ d := by
  induction h with
  | start _ hunsigned => exact .inl hunsigned
  | @build past d h now owner force _ hbuild ih =>
    obtain heq | ⟨-, hleft⟩ := exists_left_of_build hs (h.hold hs d List.mem_cons_self) hbuild
    · rw [heq]
      exact ih.imp_right fun ⟨d₀, hd₀, hleft⟩ => ⟨d₀, List.mem_cons_of_mem _ hd₀, hleft⟩
    · exact .inr ⟨d, List.mem_cons_self, hleft⟩
  | edit h hd' hleft ih =>
    obtain hnone | hkept := hleft
    · exact .inl hnone
    obtain hnone | ⟨d₀, hd₀, v, services, controllers, d₁, d₂, d₃, hleft⟩ := ih
    · obtain ⟨habs, -⟩ := projectSettings_root hd'.settings
      refine .inl ((Signature.found_congr ?_).trans hnone)
      rw [hs.stands_signature habs, hs.stands_signature habs, hkept _ (.inr rfl)]
    · exact .inr ⟨d₀, List.mem_cons_of_mem _ hd₀, v, services, controllers, d₁, d₂, d₃, { hleft with
        wired := fun q hq => (hkept q (.inl hq)).trans (hleft.wired q hq)
        signed := (hkept _ (.inr rfl)).trans hleft.signed }⟩

end Course

end ResponseShapes
