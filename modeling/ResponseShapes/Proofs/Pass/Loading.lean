import ResponseShapes.CommandLine.Reply
import ResponseShapes.Proofs.Number.Rounding
import ResponseShapes.Proofs.Pass.Settings

/-! # What becomes of a settings file

The bytes of a settings file alone decide whether it gives settings (`loadSettings_outcome`). It is refused (`Refused`)
if it is no document, if its root is something else than a mapping or nothing, or if the lock timeout is at most zero.
Some files are not refused and yet give no settings: those that are no text, and those with a scalar that cannot be
built or converted (`Breaks`). -/

namespace ResponseShapes

open Yaml

/-! ### Steps that fail with one error -/

section Steps

variable {ε α β γ : Type} {x : Except ε α} {e : ε} {P Q : Prop} {y : Except ε γ}

/-- The step fails with the error if something holds, and otherwise makes a result out of that of `y`. -/
structure LeadsTo (x : Except ε α) (e : ε) (P : Prop) (y : Except ε γ) : Prop where
  error : P → x = .error e
  otherwise : ¬P → ∃ f : γ → α, x = f <$> y

/-- The step fails with the error if something holds, and has a result otherwise. -/
abbrev FailsIff (x : Except ε α) (e : ε) (P : Prop) : Prop :=
  LeadsTo x e P (.ok ())

theorem FailsIff.ok (a : α) : FailsIff (.ok a) e False :=
  ⟨False.elim, fun _ => ⟨fun _ => a, rfl⟩⟩

theorem LeadsTo.congr (h : LeadsTo x e P y) (hPQ : P ↔ Q) : LeadsTo x e Q y :=
  ⟨fun hQ => h.error (hPQ.mpr hQ), fun hQ => h.otherwise (mt hPQ.mp hQ)⟩

theorem FailsIff.bind {f : α → Except ε β} (hx : FailsIff x e P) (hf : ∀ a, LeadsTo (f a) e Q y) :
    LeadsTo (x >>= f) e (P ∨ Q) y := by
  constructor
  · intro h
    by_cases hP : P
    · rw [hx.error hP]
      rfl
    · obtain ⟨g, hg⟩ := hx.otherwise hP
      rw [hg]
      exact (hf (g ())).error (h.resolve_left hP)
  · intro h
    obtain ⟨hP, hQ⟩ := not_or.mp h
    obtain ⟨g, hg⟩ := hx.otherwise hP
    obtain ⟨g', hg'⟩ := (hf (g ())).otherwise hQ
    exact ⟨g', by rw [hg, ← hg']; rfl⟩

theorem FailsIff.mapM {f : α → Except ε β} {R : α → Prop} (hf : ∀ a, FailsIff (f a) e (R a)) (as : List α) :
    FailsIff (as.mapM f) e (∃ a ∈ as, R a) := by
  induction as with
  | nil => exact (FailsIff.ok []).congr (by simp)
  | cons a as ih =>
    rw [List.mapM_cons]
    exact ((hf a).bind fun b => ih.bind fun bs => FailsIff.ok (b :: bs)).congr (by simp)

end Steps

/-! ### Numbers that make trouble -/

namespace Yaml.Value

/-- A whole number with too many digits to be written. -/
inductive TooLong : Value → Prop
  | int {i : Int} (h : Nat.pow 10 Fault.mostDigits ≤ i.natAbs) : TooLong (.scalar (.int i))

/-- A whole number beyond all finite numbers with a point. -/
inductive TooLarge : Value → Prop
  | int {i : Int} (h : Binary64.ofInt? i = none) : TooLarge (.scalar (.int i))

/-- A number that is at most zero, or the text of one. What is no number is not among them. -/
inductive AtMostZero : Value → Prop
  | int {i : Int} (h : i ≤ 0) : AtMostZero (.scalar (.int i))
  | float {x : Binary64} (h : x.isAtMostZero = true) : AtMostZero (.scalar (.float x))
  | text {s : String} {x : Binary64} (hs : Binary64.ofText? s = some x) (h : x.isAtMostZero = true) :
    AtMostZero (.scalar (.text s))

end Yaml.Value

namespace Settings

variable {m : ValueMap} {root : Path} {text : List Char}

/-- The keys that give one text each. -/
def textKeys : List String :=
  ["src_dir", "output_dir", "service_pattern", "controller_pattern"]

/-- The keys of the conventions that give one text each. -/
def conventionKeys : List String :=
  ["unit_suffix", "endpoint_suffix", "response_suffix", "create_verb", "marker", "array_marker", "created_marker"]

/-- The keys of the documentation framework. -/
def documentationKeys : List String :=
  ["module", "property_decorator", "ok_decorator", "created_decorator"]

/-- A number that is too long stands under the key. -/
def LongAt (m : ValueMap) (key : String) : Prop :=
  ∃ v, Value.get? key m = some v ∧ v.TooLong

/-- A number that is too long stands in the list under the key. -/
def LongIn (m : ValueMap) (key : String) : Prop :=
  ∃ items, Value.get? key m = some (.list items) ∧ ∃ v ∈ items, v.TooLong

/-- A number that is too long stands where texts are asked for. -/
def Long (m : ValueMap) : Prop :=
  (∃ key ∈ textKeys, LongAt m key) ∨ LongIn m "exclude_paths" ∨
    ((∃ key ∈ conventionKeys, LongAt (section? "conventions" m) key) ∨ LongIn (section? "conventions" m) "http_verbs") ∨
    ∃ key ∈ documentationKeys, LongAt (section? "documentation" m) key

/-- The lock timeout of the entries. -/
def timeout? (m : ValueMap) : Option Value :=
  Value.get? "lock_timeout" (section? "build" m)

theorem text?_failsIff (v : Value) : FailsIff (text? v) (.fault .tooLongToWrite) v.TooLong := by
  have hother : ∀ {t : Option String}, text? v = .ok t → ¬v.TooLong → FailsIff (text? v) (.fault .tooLongToWrite) v.TooLong :=
    fun ht hv => ht ▸ (FailsIff.ok _).congr (iff_of_false id hv)
  cases v with
  | scalar s =>
    cases s with
    | int i =>
      by_cases hlong : Nat.pow 10 Fault.mostDigits ≤ i.natAbs
      · refine ⟨fun _ => ?_, fun h => absurd (.int hlong) h⟩
        rw [text?, scalarText?, intText, if_pos hlong]
        rfl
      · have hv : ¬(Value.scalar (.int i)).TooLong := by
          rintro ⟨h⟩
          exact hlong h
        refine hother (t := some (toString i)) ?_ hv
        rw [text?, scalarText?, intText, if_neg hlong]
        rfl
    | _ => exact hother rfl (by rintro ⟨⟩)
  | _ => exact hother rfl (by rintro ⟨⟩)

theorem textOr_failsIff (key : String) (m : ValueMap) (old : String) :
    FailsIff (textOr key m old) (.fault .tooLongToWrite) (LongAt m key) := by
  unfold textOr LongAt
  cases hget : Value.get? key m with
  | none => exact (FailsIff.ok old).congr (by simp)
  | some v =>
    refine (FailsIff.bind (Q := False) (text?_failsIff v) fun t => ?_).congr (by simp)
    cases t with
    | none => exact FailsIff.ok old
    | some t => exact FailsIff.ok _

theorem itemText?_failsIff (v : Value) : FailsIff (itemText? v) (.fault .tooLongToWrite) v.TooLong := by
  unfold itemText?
  split
  · exact (FailsIff.ok _).congr (iff_of_false id (by rintro ⟨⟩))
  · exact text?_failsIff v

theorem texts_failsIff (v : Value) :
    FailsIff (texts v) (.fault .tooLongToWrite) (∃ items, v = .list items ∧ ∃ v ∈ items, v.TooLong) := by
  unfold texts
  split
  · exact (FailsIff.ok _).congr (by simp)
  · exact (FailsIff.ok _).congr (by simp)
  · exact ((FailsIff.mapM itemText?_failsIff _).bind fun ts => FailsIff.ok _).congr (by simp)
  · rename_i hlist
    refine (FailsIff.ok _).congr (iff_of_false id ?_)
    rintro ⟨items, rfl, -⟩
    exact hlist items rfl

theorem textsAt_failsIff (key : String) (m : ValueMap) :
    FailsIff (textsAt key m) (.fault .tooLongToWrite) (LongIn m key) := by
  unfold textsAt LongIn
  cases Value.get? key m with
  | none => exact (FailsIff.ok _).congr (by simp)
  | some v => exact (texts_failsIff v).congr (by simp)

theorem readConventions_failsIff (m : ValueMap) (c : Conventions) :
    FailsIff (readConventions m c) (.fault .tooLongToWrite)
      ((∃ key ∈ conventionKeys, LongAt m key) ∨ LongIn m "http_verbs") := by
  refine ((textOr_failsIff "unit_suffix" m _).bind fun _ => (textOr_failsIff "endpoint_suffix" m _).bind fun _ =>
    (textOr_failsIff "response_suffix" m _).bind fun _ => (textOr_failsIff "create_verb" m _).bind fun _ =>
    (textsAt_failsIff "http_verbs" m).bind fun _ => (textOr_failsIff "marker" m _).bind fun _ =>
    (textOr_failsIff "array_marker" m _).bind fun _ => (textOr_failsIff "created_marker" m _).bind fun _ =>
    FailsIff.ok _).congr ?_
  simp only [conventionKeys, List.mem_cons, List.not_mem_nil, or_false, exists_eq_or_imp, exists_eq_left]
  tauto

theorem readDocumentation_failsIff (m : ValueMap) (d : Documentation) :
    FailsIff (readDocumentation m d) (.fault .tooLongToWrite) (∃ key ∈ documentationKeys, LongAt m key) := by
  refine ((textOr_failsIff "module" m _).bind fun _ => (textOr_failsIff "property_decorator" m _).bind fun _ =>
    (textOr_failsIff "ok_decorator" m _).bind fun _ => (textOr_failsIff "created_decorator" m _).bind fun _ =>
    FailsIff.ok _).congr ?_
  simp only [documentationKeys, List.mem_cons, List.not_mem_nil, or_false, exists_eq_or_imp, exists_eq_left]

/-- The entries fail with a number that is too long, or give settings if they give a lock timeout. -/
theorem ofMapping_leadsTo (root : Path) (m : ValueMap) :
    LeadsTo (ofMapping root m) (.fault .tooLongToWrite) (Long m)
      (readTimeout (section? "build" m) (standard root).lockTimeout) := by
  refine ((textOr_failsIff "src_dir" m _).bind fun _ => (textOr_failsIff "output_dir" m _).bind fun _ =>
    (textOr_failsIff "service_pattern" m _).bind fun _ => (textOr_failsIff "controller_pattern" m _).bind fun _ =>
    (textsAt_failsIff "exclude_paths" m).bind fun _ => (readConventions_failsIff (section? "conventions" m) _).bind fun _ =>
    (readDocumentation_failsIff (section? "documentation" m) _).bind fun _ =>
    (⟨False.elim, fun _ => ⟨_, rfl⟩⟩ : LeadsTo _ _ False _)).congr ?_
  simp only [Long, textKeys, List.mem_cons, List.not_mem_nil, or_false, exists_eq_or_imp, exists_eq_left, or_assoc]

/-! ### The lock timeout -/

theorem number?_of_tooLarge {v : Value} (h : v.TooLarge) : number? v = .error (.fault .tooLarge) := by
  cases h with
  | int h => rw [number?, h]

theorem number?_of_not_tooLarge {v : Value} (h : ¬v.TooLarge) :
    ∃ x?, number? v = .ok x? ∧ ((∃ x, x? = some x ∧ x.isAtMostZero = true) ↔ v.AtMostZero) := by
  have hother : number? v = .ok none → ¬v.AtMostZero →
      ∃ x?, number? v = .ok x? ∧ ((∃ x, x? = some x ∧ x.isAtMostZero = true) ↔ v.AtMostZero) :=
    fun hnone hzero => ⟨none, hnone, iff_of_false (by simp) hzero⟩
  cases v with
  | scalar s =>
    cases s with
    | int i =>
      rw [number?]
      cases hx : Binary64.ofInt? i with
      | none => exact absurd (.int hx) h
      | some x =>
        refine ⟨some x, rfl, ?_⟩
        simp only [Option.some.injEq, exists_eq_left', Binary64.isAtMostZero_ofInt? hx]
        exact ⟨.int, fun h => by cases h; assumption⟩
    | float x =>
      refine ⟨some x, rfl, ?_⟩
      simp only [Option.some.injEq, exists_eq_left']
      exact ⟨.float, fun h => by cases h; assumption⟩
    | text t =>
      refine ⟨Binary64.ofText? t, rfl, ?_, fun h => ?_⟩
      · rintro ⟨x, hx, h⟩
        exact .text hx h
      · cases h with
        | text hx h => exact ⟨_, hx, h⟩
    | _ => exact hother rfl (by rintro ⟨⟩)
  | _ => exact hother rfl (by rintro ⟨⟩)

variable {old : Binary64} {v : Value}

theorem readTimeout_of_tooLarge (hget : Value.get? "lock_timeout" m = some v) (hlarge : v.TooLarge) :
    readTimeout m old = .error (.fault .tooLarge) := by
  rw [readTimeout, hget]
  dsimp only
  rw [number?_of_tooLarge hlarge]
  rfl

theorem readTimeout_of_atMostZero (hget : Value.get? "lock_timeout" m = some v) (hlarge : ¬v.TooLarge)
    (hzero : v.AtMostZero) : readTimeout m old = .error .timeout := by
  obtain ⟨x?, hx?, hspec⟩ := number?_of_not_tooLarge hlarge
  obtain ⟨x, rfl, hx⟩ := hspec.mpr hzero
  rw [readTimeout, hget]
  dsimp only
  rw [hx?]
  exact if_pos hx

theorem readTimeout_ok (m : ValueMap) (old : Binary64) (h : ∀ v, Value.get? "lock_timeout" m = some v → ¬v.TooLarge ∧ ¬v.AtMostZero) :
    ∃ x, readTimeout m old = .ok x := by
  unfold readTimeout
  cases hget : Value.get? "lock_timeout" m with
  | none => exact ⟨old, rfl⟩
  | some v =>
    obtain ⟨hlarge, hzero⟩ := h v hget
    obtain ⟨x?, hx?, hspec⟩ := number?_of_not_tooLarge hlarge
    dsimp only
    rw [hx?]
    cases x? with
    | none => exact ⟨old, rfl⟩
    | some x => exact ⟨x, if_neg fun hx => hzero (hspec.mp ⟨x, rfl, hx⟩)⟩

/-! ### Texts of settings -/

/-- Nothing stands in the text but blanks. -/
def Blank (text : List Char) : Prop :=
  (Text.trimChars text).isEmpty = true

instance : DecidablePred Blank := fun _ =>
  inferInstanceAs (Decidable (_ = true))

/-- The text holds a document that stands for the value. -/
def Holds (text : List Char) (v : Value) : Prop :=
  ¬Blank text ∧ Value.ofText valueDepth text = .ok v

/-- The text is refused. -/
inductive Refused (text : List Char) : Prop
  | malformed (hblank : ¬Blank text) (h : Value.ofText valueDepth text = .error .malformed)
  | root {v : Value} (h : Holds text v) (hmap : ∀ m, v ≠ .map m) (hnull : v ≠ .null)
  | timeout {m : ValueMap} {v : Value} (h : Holds text (.map m)) (hlong : ¬Long m) (hget : timeout? m = some v)
    (hlarge : ¬v.TooLarge) (hzero : v.AtMostZero)

/-- A scalar in the text cannot be built or converted. -/
inductive Breaks (text : List Char) : Prop
  | fault {f : Fault} (hblank : ¬Blank text) (h : Value.ofText valueDepth text = .error f) (hf : f ≠ .malformed)
  | long {m : ValueMap} (h : Holds text (.map m)) (hlong : Long m)
  | large {m : ValueMap} {v : Value} (h : Holds text (.map m)) (hlong : ¬Long m) (hget : timeout? m = some v)
    (hlarge : v.TooLarge)

theorem ofText_of_holds (h : Holds text v) : ofText root text = ofValue root v := by
  rw [ofText, if_neg (show ¬(Text.trimChars text).isEmpty = true from h.1), h.2]

theorem ofText_of_fault {f : Fault} (hblank : ¬Blank text) (h : Value.ofText valueDepth text = .error f) :
    ofText root text = .error (.fault f) := by
  rw [ofText, if_neg (show ¬(Text.trimChars text).isEmpty = true from hblank), h]

theorem ofMapping_error {e : SettingsError} (hlong : ¬Long m)
    (h : readTimeout (section? "build" m) (standard root).lockTimeout = .error e) : ofMapping root m = .error e := by
  obtain ⟨f, hf⟩ := (ofMapping_leadsTo root m).otherwise hlong
  rw [hf, h]
  rfl

theorem ofText_of_refused (root : Path) (h : Refused text) : ∃ e, ofText root text = .error e ∧ e.isRefusal = true := by
  cases h with
  | malformed hblank h => exact ⟨_, ofText_of_fault hblank h, rfl⟩
  | root h hmap hnull =>
    refine ⟨.notMapping, (ofText_of_holds h).trans ?_, rfl⟩
    unfold ofValue
    split
    · exact absurd rfl (hmap _)
    · exact absurd rfl hnull
    · rfl
  | timeout h hlong hget hlarge hzero =>
    exact ⟨.timeout, (ofText_of_holds h).trans (ofMapping_error hlong (readTimeout_of_atMostZero hget hlarge hzero)), rfl⟩

theorem isRefusal_of_ne_malformed {f : Fault} (h : f ≠ .malformed) : (SettingsError.fault f).isRefusal = false := by
  cases f with
  | malformed => exact absurd rfl h
  | _ => rfl

theorem ofText_of_breaks (root : Path) (h : Breaks text) : ∃ e, ofText root text = .error e ∧ e.isRefusal = false := by
  cases h with
  | fault hblank h hf =>
    exact ⟨_, ofText_of_fault hblank h, isRefusal_of_ne_malformed hf⟩
  | long h hlong => exact ⟨_, (ofText_of_holds h).trans ((ofMapping_leadsTo root _).error hlong), rfl⟩
  | large h hlong hget hlarge =>
    exact ⟨_, (ofText_of_holds h).trans (ofMapping_error hlong (readTimeout_of_tooLarge hget hlarge)), rfl⟩

theorem ofText_ok (root : Path) (hrefused : ¬Refused text) (hbreaks : ¬Breaks text) : ∃ s, ofText root text = .ok s := by
  by_cases hblank : Blank text
  · exact ⟨_, if_pos hblank⟩
  cases hread : Value.ofText valueDepth text with
  | error f =>
    by_cases hf : f = .malformed
    · exact absurd (.malformed hblank (hf ▸ hread)) hrefused
    · exact absurd (.fault hblank hread hf) hbreaks
  | ok v =>
    have h : Holds text v := ⟨hblank, hread⟩
    rw [ofText_of_holds h]
    unfold ofValue
    split
    · rename_i m
      have hlong : ¬Long m := fun hlong => hbreaks (.long h hlong)
      obtain ⟨f, hf⟩ := (ofMapping_leadsTo root m).otherwise hlong
      obtain ⟨x, hx⟩ := readTimeout_ok (section? "build" m) (standard root).lockTimeout fun v hget => by
        have hlarge : ¬v.TooLarge := fun hlarge => hbreaks (.large h hlong hget hlarge)
        exact ⟨hlarge, fun hzero => hrefused (.timeout h hlong hget hlarge hzero)⟩
      exact ⟨f x, by rw [hf, hx]; rfl⟩
    · exact ⟨_, rfl⟩
    · rename_i hmap hnull
      exact absurd (.root h hmap hnull) hrefused

end Settings

/-! ### Settings files -/

section Files

variable {d : Disk} {file : Path} {content : List UInt8} {cs : List Char}

theorem settingsIn_of_encoding {e : Text.EncodingError} (hfile : d.stands file = .file content)
    (hdecode : Text.decode content = .error e) : settingsIn d file = .error (.encoding e) := by
  rw [settingsIn, if_pos (Disk.has_of_file hfile), Disk.readText_of_file hfile, hdecode]
  rfl

theorem settingsIn_of_ok {s : Settings} (hfile : d.stands file = .file content) (hdecode : Text.decode content = .ok cs)
    (h : Settings.ofText file.parent (Text.normalizeLineEnds cs) = .ok s) : settingsIn d file = .ok s := by
  rw [settingsIn, if_pos (Disk.has_of_file hfile), Disk.readText_of_file hfile, hdecode]
  dsimp only
  rw [h]

theorem settingsIn_of_error {e : SettingsError} (hfile : d.stands file = .file content)
    (hdecode : Text.decode content = .ok cs)
    (h : Settings.ofText file.parent (Text.normalizeLineEnds cs) = .error e) : settingsIn d file = .error (.settings e) := by
  rw [settingsIn, if_pos (Disk.has_of_file hfile), Disk.readText_of_file hfile, hdecode]
  dsimp only
  rw [h]

/-- What a settings file can give. -/
theorem settingsIn_cases (hfile : d.stands file = .file content) :
    (∃ e, Text.decode content = .error e ∧ settingsIn d file = .error (.encoding e)) ∨
    ∃ cs, Text.decode content = .ok cs ∧
      ((Settings.Refused (Text.normalizeLineEnds cs) ∧ ∃ e, settingsIn d file = .error (.settings e) ∧ e.isRefusal = true) ∨
      (Settings.Breaks (Text.normalizeLineEnds cs) ∧ ∃ e, settingsIn d file = .error (.settings e) ∧ e.isRefusal = false) ∨
      (¬Settings.Refused (Text.normalizeLineEnds cs) ∧ ¬Settings.Breaks (Text.normalizeLineEnds cs) ∧
        ∃ s, settingsIn d file = .ok s)) := by
  cases hdecode : Text.decode content with
  | error e => exact .inl ⟨e, rfl, settingsIn_of_encoding hfile hdecode⟩
  | ok cs =>
    refine .inr ⟨cs, rfl, ?_⟩
    by_cases hrefused : Settings.Refused (Text.normalizeLineEnds cs)
    · obtain ⟨e, he, hrefusal⟩ := Settings.ofText_of_refused file.parent hrefused
      exact .inl ⟨hrefused, e, settingsIn_of_error hfile hdecode he, hrefusal⟩
    by_cases hbreaks : Settings.Breaks (Text.normalizeLineEnds cs)
    · obtain ⟨e, he, hrefusal⟩ := Settings.ofText_of_breaks file.parent hbreaks
      exact .inr (.inl ⟨hbreaks, e, settingsIn_of_error hfile hdecode he, hrefusal⟩)
    · obtain ⟨s, hs⟩ := Settings.ofText_ok file.parent hrefused hbreaks
      exact .inr (.inr ⟨hrefused, hbreaks, s, settingsIn_of_ok hfile hdecode hs⟩)

end Files

/-- No text is refused and breaks the reading as well. -/
theorem Settings.Breaks.not_refused {text : List Char} (h : Settings.Breaks text) : ¬Settings.Refused text := by
  intro hrefused
  obtain ⟨e, he, hyes⟩ := Settings.ofText_of_refused (Path.ofString "/") hrefused
  obtain ⟨e', he', hno⟩ := Settings.ofText_of_breaks (Path.ofString "/") h
  obtain rfl := Except.error.inj (he.symm.trans he')
  rw [hyes] at hno
  cases hno

/-- A settings file gives settings, is refused, or breaks the reading, and its bytes alone decide which. -/
theorem loadSettings_outcome {σ : PassState} {p : Path} {content : List UInt8}
    (hfile : σ.disk.stands (settingsPath σ.disk p) = .file content) :
    ((∃ s, ((loadSettings p).run σ).1 = .ok s) ↔ ∃ cs, Text.decode content = .ok cs ∧
        ¬Settings.Refused (Text.normalizeLineEnds cs) ∧ ¬Settings.Breaks (Text.normalizeLineEnds cs)) ∧
      ((∃ e, ((loadSettings p).run σ).1 = .error (.settings e) ∧ e.isRefusal = true) ↔
        ∃ cs, Text.decode content = .ok cs ∧ Settings.Refused (Text.normalizeLineEnds cs)) ∧
      ((∃ i, ((loadSettings p).run σ).1 = .error i ∧ ∀ e, i = .settings e → e.isRefusal = false) ↔
        (∃ e, Text.decode content = .error e) ∨
          ∃ cs, Text.decode content = .ok cs ∧ Settings.Breaks (Text.normalizeLineEnds cs)) := by
  obtain ⟨rows, hrun⟩ := Pass.Does.loadSettingsAt p σ.disk σ.rows σ.progress
  have hresult : ((loadSettings p).run σ).1 = settingsIn σ.disk (settingsPath σ.disk p) := congrArg Prod.fst hrun
  rw [hresult]
  obtain ⟨e, hdecode, hin⟩ | ⟨cs, hdecode, ⟨hrefused, e, hin, hrefusal⟩ | ⟨hbreaks, e, hin, hrefusal⟩ |
    ⟨hrefused, hbreaks, s, hin⟩⟩ := settingsIn_cases hfile
  · rw [hin, hdecode]
    simp
  · have hbreaks : ¬Settings.Breaks (Text.normalizeLineEnds cs) := fun h => h.not_refused hrefused
    rw [hin, hdecode]
    simp [hrefused, hbreaks, hrefusal]
  · have hrefused := hbreaks.not_refused
    rw [hin, hdecode]
    simp [hrefused, hbreaks, hrefusal]
  · rw [hin, hdecode]
    simp [hrefused, hbreaks]

/-- The state of a project that has a settings file and nothing else. -/
def settingsOnly (content : List UInt8) : PassState where
  disk := {
    tree := .directory 0 [("project", .directory 0 [(settingsFile, .file content 0)])]
    here := ⟨"/", ["project"]⟩
    clock := 0 }
  rows := []
  progress := .empty

/-- The fault of a reading that fails. -/
def faultOf? (r : Except Fault Value) : Option Fault :=
  match r with
  | .error f => some f
  | .ok _ => none

theorem eq_error_of_faultOf? {r : Except Fault Value} {f : Fault} (h : faultOf? r = some f) : r = .error f := by
  cases r with
  | error f' => exact congrArg Except.error (Option.some.inj h)
  | ok v => cases h

/-- Settings with a date in a thirteenth month. -/
def impossibleDate : String :=
  "src_dir: 2024-13-01\n"

/-- A file that is no text and one with an impossible date break the reading, and an empty one gives settings. -/
theorem loadSettings_outcome_files :
    (∀ content ∈ [[], [0xFF], Text.encode impossibleDate.toList],
      (settingsOnly content).disk.stands (settingsPath (settingsOnly content).disk ⟨"/", ["project"]⟩) = .file content) ∧
    (∃ s, ((loadSettings ⟨"/", ["project"]⟩).run (settingsOnly [])).1 = .ok s) ∧
    ∀ content ∈ [[0xFF], Text.encode impossibleDate.toList],
      ∃ i, ((loadSettings ⟨"/", ["project"]⟩).run (settingsOnly content)).1 = .error i ∧
        ∀ e, i = .settings e → e.isRefusal = false := by
  have hfile : ∀ content, (settingsOnly content).disk.stands
      (settingsPath (settingsOnly content).disk ⟨"/", ["project"]⟩) = .file content := fun _ => rfl
  have hnothing : ∀ v, ¬Settings.Holds [] v := fun v h => h.1 rfl
  have hdate : Settings.Breaks impossibleDate.toList := by
    refine .fault (f := .outOfRange .month) ?_ (eq_error_of_faultOf? ?_) ?_ <;> decide +kernel
  refine ⟨fun content _ => hfile content, (loadSettings_outcome (hfile [])).1.mpr ⟨[], rfl, ?_, ?_⟩, ?_⟩
  · rintro (⟨hblank, -⟩ | ⟨h, -, -⟩ | ⟨h, -, -, -, -⟩)
    · exact hblank rfl
    · exact hnothing _ h
    · exact hnothing _ h
  · rintro (⟨hblank, -, -⟩ | ⟨h, -⟩ | ⟨h, -, -, -⟩)
    · exact hblank rfl
    · exact hnothing _ h
    · exact hnothing _ h
  · refine List.forall_mem_cons.mpr ⟨(loadSettings_outcome (hfile _)).2.2.mpr (.inl ⟨_, rfl⟩), ?_⟩
    refine List.forall_mem_singleton.mpr ((loadSettings_outcome (hfile _)).2.2.mpr (.inr ⟨impossibleDate.toList, ?_, hdate⟩))
    rfl

end ResponseShapes
