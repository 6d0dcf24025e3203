import ResponseShapes.Proofs.Build.Lock
import ResponseShapes.Proofs.Pass.Loading

/-! # What settings are good for

No accepted settings have an empty name, and all have verbs (`Settings.Usable`). Their lock timeout is greater than zero
unless the settings file gives what is no number: that is not at most zero, and so it is not refused. A file that a
vanished holder has left is taken over if and only if the timeout is finite and the file is older
(`loadSettings_usable`); what is no number is less than no age, and the file stays for ever. -/

namespace ResponseShapes

open Yaml

/-! ### Numbers that are not at most zero -/

namespace Binary64

variable {x y : Binary64}

/-- What is not at most zero is greater than zero or no number. -/
theorem exceeds_zero_iff (h : x.isAtMostZero = false) : x.Exceeds 0 ↔ x ≠ .nan := by
  cases x with
  | nan => simp [Exceeds]
  | infinite negative => simpa [Exceeds, isAtMostZero] using h
  | finite negative significand exponent =>
    refine iff_of_true (not_not.mp fun hzero => ?_) Binary64.noConfusion
    rw [(isAtMostZero_finite_iff negative significand exponent).mpr hzero] at h
    cases h

/-- Only a finite number is less than any other one. -/
theorem isLess_iff (h : x.isAtMostZero = false) : x.isLess y = true ↔
    ∃ negative significand exponent, x = .finite negative significand exponent ∧
      y.Exceeds (value negative significand exponent) := by
  cases x with
  | nan => cases y <;> simp [isLess, isBelow]
  | infinite negative =>
    obtain rfl : negative = false := h
    cases y <;> simp [isLess, isBelow]
  | finite negative significand exponent => simp [isLess_finite]

end Binary64

/-! ### Names -/

/-- The suffixes, the verb of creation and the markers. -/
def Conventions.names (c : Conventions) : List String :=
  [c.unitSuffix, c.endpointSuffix, c.responseSuffix, c.createVerb] ++ c.markers

/-- The module and the decorators. -/
def Documentation.names (d : Documentation) : List String :=
  [d.module, d.propertyDecorator, d.okDecorator, d.createdDecorator]

/-- A value that is read as what is no number. -/
inductive Yaml.Value.NotNumber : Value → Prop
  | float : NotNumber (.scalar (.float .nan))
  | text {s : String} (h : Binary64.ofText? s = some .nan) : NotNumber (.scalar (.text s))

namespace Settings

/-- The directories, the patterns and the names. -/
def names (s : Settings) : List String :=
  [s.sourceDir, s.outputDir, s.servicePattern, s.controllerPattern] ++ s.conventions.names ++ s.documentation.names

/-- No name is empty, there are verbs, and the lock timeout is not at most zero. -/
structure Usable (s : Settings) : Prop where
  names : ∀ t ∈ s.names, t ≠ ""
  verbs : s.conventions.verbs ≠ []
  timeout : s.lockTimeout.isAtMostZero = false

variable {root : Path} {m : ValueMap} {s : Settings} {key old t : String} {v : Value} {x y : Binary64}

/-- No empty text is read, as long as the one that holds otherwise is not empty. -/
theorem textOr_ne_empty (hold : old ≠ "") (h : textOr key m old = .ok t) : t ≠ "" := by
  unfold textOr at h
  split at h
  · exact Except.ok.inj h ▸ hold
  · obtain ⟨t?, -, h⟩ := Except.exists_of_bind h
    cases t? with
    | none => exact Except.ok.inj h ▸ hold
    | some given =>
      obtain rfl := Except.ok.inj h
      split
      · exact hold
      · rename_i hgiven
        exact fun hempty => hgiven (String.isEmpty_iff.mpr hempty)

theorem readConventions_usable {c c' : Conventions} (hnames : ∀ t ∈ c.names, t ≠ "") (hverbs : c.verbs ≠ [])
    (h : readConventions m c = .ok c') : (∀ t ∈ c'.names, t ≠ "") ∧ c'.verbs ≠ [] := by
  simp only [Conventions.names, Conventions.markers, List.cons_append, List.nil_append, List.forall_mem_cons] at hnames
  obtain ⟨hunit, hendpoint, hresponse, hcreate, hmarker, harray, hcreated, -⟩ := hnames
  unfold readConventions at h
  obtain ⟨unitSuffix, hunit', h⟩ := Except.exists_of_bind h
  obtain ⟨endpointSuffix, hendpoint', h⟩ := Except.exists_of_bind h
  obtain ⟨responseSuffix, hresponse', h⟩ := Except.exists_of_bind h
  obtain ⟨createVerb, hcreate', h⟩ := Except.exists_of_bind h
  obtain ⟨verbs, -, h⟩ := Except.exists_of_bind h
  obtain ⟨marker, hmarker', h⟩ := Except.exists_of_bind h
  obtain ⟨arrayMarker, harray', h⟩ := Except.exists_of_bind h
  obtain ⟨createdMarker, hcreated', h⟩ := Except.exists_of_bind h
  obtain rfl := Except.ok.inj h
  constructor
  · simp only [Conventions.names, Conventions.markers, List.cons_append, List.nil_append, List.forall_mem_cons]
    exact ⟨textOr_ne_empty hunit hunit', textOr_ne_empty hendpoint hendpoint', textOr_ne_empty hresponse hresponse',
      textOr_ne_empty hcreate hcreate', textOr_ne_empty hmarker hmarker', textOr_ne_empty harray harray',
      textOr_ne_empty hcreated hcreated', List.forall_mem_nil _⟩
  · dsimp only
    split
    · exact hverbs
    · rename_i hgiven
      exact fun hempty => hgiven (List.isEmpty_iff.mpr hempty)

theorem readDocumentation_usable {d d' : Documentation} (hnames : ∀ t ∈ d.names, t ≠ "")
    (h : readDocumentation m d = .ok d') : ∀ t ∈ d'.names, t ≠ "" := by
  simp only [Documentation.names, List.forall_mem_cons] at hnames ⊢
  obtain ⟨hmodule, hproperty, hok, hcreated, hrest⟩ := hnames
  unfold readDocumentation at h
  obtain ⟨module, hmodule', h⟩ := Except.exists_of_bind h
  obtain ⟨propertyDecorator, hproperty', h⟩ := Except.exists_of_bind h
  obtain ⟨okDecorator, hok', h⟩ := Except.exists_of_bind h
  obtain ⟨createdDecorator, hcreated', h⟩ := Except.exists_of_bind h
  obtain rfl := Except.ok.inj h
  exact ⟨textOr_ne_empty hmodule hmodule', textOr_ne_empty hproperty hproperty', textOr_ne_empty hok hok',
    textOr_ne_empty hcreated hcreated', hrest⟩

/-! ### The lock timeout -/

theorem number?_eq_nan : number? v = .ok (some .nan) ↔ v.NotNumber := by
  constructor
  · intro h
    cases v with
    | scalar s =>
      cases s with
      | int i =>
        rw [number?] at h
        cases hx : Binary64.ofInt? i with
        | none => rw [hx] at h; cases h
        | some x =>
          rw [hx] at h
          obtain rfl := Option.some.inj (Except.ok.inj h)
          unfold Binary64.ofInt? at hx
          split at hx <;> cases hx
      | float x =>
        obtain rfl := Option.some.inj (Except.ok.inj h)
        exact .float
      | text t => exact .text (Except.ok.inj h)
      | _ => cases h
    | _ => cases h
  · rintro (_ | h)
    · rfl
    · rw [number?, h]

/-- A timeout that is accepted is not at most zero, and it is no number only if a value that is none is given. -/
theorem readTimeout_spec (hold : y.isAtMostZero = false) (hnan : y ≠ .nan) (h : readTimeout m y = .ok x) :
    x.isAtMostZero = false ∧ (x = .nan ↔ ∃ v, Value.get? "lock_timeout" m = some v ∧ v.NotNumber) := by
  unfold readTimeout at h
  cases hget : Value.get? "lock_timeout" m with
  | none =>
    rw [hget] at h
    obtain rfl := Except.ok.inj h
    exact ⟨hold, iff_of_false hnan (by simp)⟩
  | some v =>
    rw [hget] at h
    obtain ⟨x?, hx?, h⟩ := Except.exists_of_bind h
    simp only [Option.some.injEq, exists_eq_left']
    rw [← number?_eq_nan, hx?]
    cases x? with
    | none =>
      obtain rfl := Except.ok.inj h
      exact ⟨hold, iff_of_false hnan (by simp)⟩
    | some given =>
      dsimp only at h
      split at h
      · cases h
      · rename_i hpositive
        obtain rfl := Except.ok.inj h
        exact ⟨Bool.eq_false_iff.mpr hpositive, by simp⟩

/-! ### Settings that are accepted -/

theorem usable_standard (root : Path) : (standard root).Usable where
  names := by simp [names, Conventions.names, Conventions.markers, Documentation.names, standard, Conventions.standard,
    Documentation.standard]
  verbs := List.cons_ne_nil _ _
  timeout := by
    change (Binary64.ofQuotient false 30 1).isAtMostZero = false
    decide

theorem standard_lockTimeout_ne_nan (root : Path) : (standard root).lockTimeout ≠ .nan :=
  Binary64.ofQuotient_ne_nan false 30 1

/-- Settings that the entries of a mapping give are usable, and their lock timeout is no number if the entries give one
    that is none. -/
theorem ofMapping_usable (h : ofMapping root m = .ok s) :
    s.Usable ∧ (s.lockTimeout = .nan ↔ ∃ v, timeout? m = some v ∧ v.NotNumber) := by
  obtain ⟨hnames, hverbs, htimeout⟩ := usable_standard root
  simp only [names, List.cons_append, List.nil_append, List.forall_mem_cons, List.forall_mem_append] at hnames
  obtain ⟨hsource, houtput, hservice, hcontroller, hconventions, hdocumentation⟩ := hnames
  have hread := readOf_of_ofMapping h
  obtain ⟨hconventions, hverbs⟩ := readConventions_usable hconventions hverbs hread.conventions
  obtain ⟨htimeout, hnan⟩ := readTimeout_spec htimeout (standard_lockTimeout_ne_nan root) hread.lockTimeout
  refine ⟨⟨?_, hverbs, htimeout⟩, hnan⟩
  simp only [names, List.cons_append, List.nil_append, List.forall_mem_cons, List.forall_mem_append]
  exact ⟨textOr_ne_empty hsource hread.sourceDir, textOr_ne_empty houtput hread.outputDir,
    textOr_ne_empty hservice hread.servicePattern, textOr_ne_empty hcontroller hread.controllerPattern, hconventions,
    readDocumentation_usable hdocumentation hread.documentation⟩

/-- The text gives what is no number as the lock timeout. -/
def Untimed (text : List Char) : Prop :=
  ∃ m v, Holds text (.map m) ∧ timeout? m = some v ∧ v.NotNumber

/-- Where there are no entries, the lock timeout is a number. -/
theorem ofMapping_nil_usable {P : Prop} (h : ofMapping root [] = .ok s) (hP : ¬P) :
    s.Usable ∧ (s.lockTimeout = .nan ↔ P) := by
  obtain ⟨husable, hnan⟩ := ofMapping_usable h
  refine ⟨husable, hnan.trans (iff_of_false ?_ hP)⟩
  rintro ⟨v, hget, -⟩
  cases hget

theorem ofText_usable {text : List Char} (h : ofText root text = .ok s) :
    s.Usable ∧ (s.lockTimeout = .nan ↔ Untimed text) := by
  unfold ofText at h
  split at h
  · rename_i hblank
    refine ofMapping_nil_usable h ?_
    rintro ⟨m, v, ⟨hnot, -⟩, -, -⟩
    exact hnot hblank
  rename_i hblank
  cases hread : Value.ofText valueDepth text with
  | error f =>
    rw [hread] at h
    cases h
  | ok v =>
    have hholds : ∀ v', Holds text v' ↔ v = v' := fun v' => by
      rw [Holds, hread, Except.ok.injEq, and_iff_right (show ¬Blank text from hblank)]
    rw [hread] at h
    dsimp only at h
    unfold ofValue at h
    split at h
    · rename_i m
      obtain ⟨husable, hnan⟩ := ofMapping_usable h
      refine ⟨husable, hnan.trans ?_⟩
      simp [Untimed, hholds]
    · refine ofMapping_nil_usable h ?_
      rintro ⟨m, v, hm, -, -⟩
      cases (hholds _).mp hm
    · cases h

end Settings

variable {s : Settings} {d : Disk} {file : Path}

theorem settingsIn_usable (h : settingsIn d file = .ok s) : s.Usable ∧ (s.lockTimeout = .nan ↔
    ∃ content cs, d.stands file = .file content ∧ Text.decode content = .ok cs ∧
      Settings.Untimed (Text.normalizeLineEnds cs)) := by
  cases hstands : d.stands file with
  | nothing =>
    unfold settingsIn at h
    rw [if_neg fun hhas => Disk.has_iff.mp hhas hstands] at h
    obtain rfl := Except.ok.inj h
    exact ⟨Settings.usable_standard _, iff_of_false (Settings.standard_lockTimeout_ne_nan _) (by simp)⟩
  | directory =>
    unfold settingsIn at h
    rw [if_pos (Disk.has_of_directory hstands), Disk.readText_of_directory hstands] at h
    cases h
  | file content =>
    cases hdecode : Text.decode content with
    | error e =>
      rw [settingsIn_of_encoding hstands hdecode] at h
      cases h
    | ok cs =>
      cases hread : Settings.ofText file.parent (Text.normalizeLineEnds cs) with
      | error e =>
        rw [settingsIn_of_error hstands hdecode hread] at h
        cases h
      | ok s' =>
        rw [settingsIn_of_ok hstands hdecode hread] at h
        obtain rfl := Except.ok.inj h
        obtain ⟨husable, hnan⟩ := Settings.ofText_usable hread
        exact ⟨husable, by simp [hnan, hdecode]⟩

/-! ### Locks that were left -/

namespace Lock

variable {l : Lock} {place : List String} {content : List UInt8} {time : Int}

/-- The lock becomes the holder, and a file of its own stands at the place. -/
def TakesOver (l : Lock) (now : Binary64) (d : Disk) (place : List String) : Prop :=
  ∃ d', (l.acquire now).Does d (.ok { l with held := true }) d' ∧ l.Takes place d d'

/-- A file that was left is taken over if and only if it is older than the lock allows. -/
theorem takesOver_iff (hheld : l.held = false) (hparent : d.stands l.path.parent = .directory)
    (hplace : d.place l.path = .ok place) (hfile : d.tree.find? place = some (.file content time)) (now : Binary64) :
    l.TakesOver now d place ↔ l.staleAfter.isLess (age now time) = true := by
  have hmake := Disk.makeDirectoriesFrom_of_directory l.path.parent.parts.length hparent
  obtain ⟨place', d', hdoes, htakes, hstale⟩ | ⟨place', t, hplace', hsome, hless, hdoes⟩ | ⟨i, hblocked, -⟩ :=
    acquire_cases hheld hmake now
  · obtain rfl := Except.ok.inj ((htakes.regenerated.place_eq hplace).symm.trans htakes.leads)
    exact iff_of_true ⟨d', hdoes, htakes⟩ (hstale content time (by rw [Tree.file?_eq, hfile]; rfl))
  · obtain rfl := Except.ok.inj (hplace.symm.trans hplace')
    obtain rfl := Option.some.inj (hfile.symm.trans hsome)
    refine iff_of_false ?_ (Bool.eq_false_iff.mp hless)
    rintro ⟨d', hdoes', -⟩
    have hsame := congrArg held (Except.ok.inj (hdoes'.unique hdoes).1)
    rw [hheld] at hsame
    cases hsame
  · obtain hfailure | hdir := hblocked
    · exact absurd rfl hfailure
    · rw [Disk.stands_of_place hplace, Tree.standing, hfile] at hdir
      cases hdir

end Lock

/-- Accepted settings have no empty name and have verbs, and their lock timeout is greater than zero, unless the
    settings file gives what is no number. A file that a vanished holder has left is taken over if and only if the
    timeout is finite and the age of the file exceeds it: never, if the timeout is no number. -/
theorem loadSettings_usable {σ : PassState} {p : Path} (h : ((loadSettings p).run σ).1 = .ok s) :
    ((∀ t ∈ s.names, t ≠ "") ∧ s.conventions.verbs ≠ []) ∧
    (s.lockTimeout.Exceeds 0 ↔ s.lockTimeout ≠ .nan) ∧
    (s.lockTimeout = .nan ↔ ∃ content cs, σ.disk.stands (settingsPath σ.disk p) = .file content ∧
      Text.decode content = .ok cs ∧ Settings.Untimed (Text.normalizeLineEnds cs)) ∧
    ∀ owner now d place content time, d.place (Lock.ofSettings owner s).path = .ok place →
      d.tree.find? place = some (.file content time) →
        ((Lock.ofSettings owner s).TakesOver now d place ↔
          ∃ negative significand exponent, s.lockTimeout = .finite negative significand exponent ∧
            (Lock.age now time).Exceeds (Binary64.value negative significand exponent)) := by
  obtain ⟨rows, hrun⟩ := Pass.Does.loadSettingsAt p σ.disk σ.rows σ.progress
  have hin : settingsIn σ.disk (settingsPath σ.disk p) = .ok s := (congrArg Prod.fst hrun).symm.trans h
  obtain ⟨⟨hnames, hverbs, htimeout⟩, hnan⟩ := settingsIn_usable hin
  refine ⟨⟨hnames, hverbs⟩, Binary64.exceeds_zero_iff htimeout, hnan, ?_⟩
  intro owner now d place content time hplace hfile
  have hparent : d.stands (Lock.ofSettings owner s).path.parent = .directory := by
    rw [Lock.ofSettings, Path.parent_child]
    exact Disk.stands_of_place_child hplace
  rw [Lock.takesOver_iff rfl hparent hplace hfile now]
  exact Binary64.isLess_iff htimeout

/-! A project whose lock timeout is no number, and a lock that was left in it. -/

namespace Timeless

def text : String :=
  "build:\n  lock_timeout: .nan\n"

def settings : Settings :=
  { Settings.standard ⟨"/", ["project"]⟩ with lockTimeout := .nan }

def left : Disk where
  tree := .directory 0 [("project", .directory 0 [(lockFile, .file [] 0)])]
  here := ⟨"/", ["project"]⟩
  clock := 0

end Timeless

/-- The lock is never taken over if the timeout is no number, and after 31 seconds if it is the standard one. -/
theorem loadSettings_usable_timeless :
    (((loadSettings ⟨"/", ["project"]⟩).run (settingsOnly (Text.encode Timeless.text.toList))).1 =
        .ok Timeless.settings ∧
      ¬Timeless.settings.lockTimeout.Exceeds 0 ∧
      ∀ now, ¬(Lock.ofSettings 7 Timeless.settings).TakesOver now Timeless.left ["project", lockFile]) ∧
    ((loadSettings ⟨"/", ["project"]⟩).run (settingsOnly [])).1 = .ok (Settings.standard ⟨"/", ["project"]⟩) ∧
      (Lock.ofSettings 7 (Settings.standard ⟨"/", ["project"]⟩)).TakesOver (Lock.seconds 31000000000) Timeless.left
        ["project", lockFile] := by
  have htimeless : ((loadSettings ⟨"/", ["project"]⟩).run (settingsOnly (Text.encode Timeless.text.toList))).1 =
      .ok Timeless.settings := by decide +kernel
  have hstandard : ((loadSettings ⟨"/", ["project"]⟩).run (settingsOnly [])).1 =
      .ok (Settings.standard ⟨"/", ["project"]⟩) := rfl
  obtain ⟨-, hpositive, -, hnever⟩ := loadSettings_usable htimeless
  obtain ⟨-, -, -, htaken⟩ := loadSettings_usable hstandard
  refine ⟨⟨htimeless, fun h => hpositive.mp h rfl, fun now h => ?_⟩, hstandard, ?_⟩
  · obtain ⟨_, _, _, hfinite, -⟩ := (hnever 7 now Timeless.left ["project", lockFile] [] 0 rfl rfl).mp h
    cases hfinite
  · have hless : (Settings.standard ⟨"/", ["project"]⟩).lockTimeout.isLess (Lock.age (Lock.seconds 31000000000) 0) =
        true := by decide +kernel
    have hexceeds := (Binary64.isLess_iff (Settings.usable_standard ⟨"/", ["project"]⟩).timeout).mp hless
    exact (htaken 7 _ Timeless.left ["project", lockFile] [] 0 rfl rfl).mpr hexceeds

end ResponseShapes
