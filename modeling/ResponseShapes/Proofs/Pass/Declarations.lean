import ResponseShapes.Pass.Declarations
import ResponseShapes.Proofs.Pass.Output

/-! # Writing the modules of units

Which modules are written for sources depends on the texts of the sources alone (`plannedModules`), and the sources are
none of the modules, so what is planned stays the same while modules are written. What comes of writing the planned
modules depends on what stands at their places before (`deliveries`). Writing them once more comes to the same and
changes nothing (`foldlM_addUnit_again`). -/

namespace ResponseShapes

open Syntax

/-- The disks differ in modules of a directory and in the directories on the way to it. -/
abbrev Disk.Regenerates (output : Path) (d d' : Disk) : Prop :=
  Disk.Regenerated output.HoldsModule output.OnTheWay d d'

/-- A source that is there and is none of the modules in a directory. -/
structure Disk.Steady (output : Path) (d : Disk) (p : Path) : Prop where
  file : ∃ content, d.stands p = .file content
  apart : ∀ place, d.place p = .ok place → ¬output.HoldsModule place

variable {s : Settings} {output p : Path} {ps : List Path} {d d' d₁ d₂ : Disk} {a : UnitAnalysis} {m : DeclarationModule}
  {found : FoundUnits} {seen : Entries Path}

namespace Disk

theorem Steady.place_eq (hp : d.Steady output p) (h : Regenerates output d d') : d'.place p = d.place p := by
  obtain ⟨content, hfile⟩ := hp.file
  obtain ⟨place, hplace, -⟩ := exists_place_of_stands (p := p) (by rw [hfile]; exact Standing.noConfusion)
  rw [hplace, h.place_eq hplace]

theorem Steady.stands_eq (hp : d.Steady output p) (h : Regenerates output d d') : d'.stands p = d.stands p := by
  obtain ⟨content, hfile⟩ := hp.file
  rw [hfile, h.stands_file hfile hp.apart]

theorem Steady.regenerates (hp : d.Steady output p) (h : Regenerates output d d') : d'.Steady output p where
  file := by
    rw [hp.stands_eq h]
    exact hp.file
  apart := by
    rw [hp.place_eq h]
    exact hp.apart

theorem Steady.readText_eq (hp : d.Steady output p) (h : Regenerates output d d') : d'.readText p = d.readText p := by
  obtain ⟨content, hfile⟩ := hp.file
  rw [readText_of_file hfile, readText_of_file ((hp.stands_eq h).trans hfile)]

end Disk

/-! ### Which modules are planned -/

/-- The unit in the source at a path. -/
def unitAt? [Recovery] (s : Settings) (d : Disk) (p : Path) : Option UnitAnalysis :=
  match d.readText p with
  | .ok cs => (UnitAnalysis.ofSource? s.conventions (Source.ofText (String.ofList cs)) p).map (·.1)
  | .error _ => none

/-- The module of a unit. -/
def moduleOf? (s : Settings) (a : UnitAnalysis) : Option DeclarationModule :=
  DeclarationModule.of? { responseSuffix := s.conventions.responseSuffix } s.documentation a.unit a.members

/-- The modules to be written for sources, each with its unit, after some units were seen. -/
def plannedModules [Recovery] (s : Settings) (d : Disk) :
    Entries Path → List Path → List (UnitAnalysis × DeclarationModule)
  | _, [] => []
  | seen, p :: ps =>
    match unitAt? s d p with
    | none => plannedModules s d seen ps
    | some a =>
      if seen.has a.unit then plannedModules s d seen ps
      else ((moduleOf? s a).map fun m => (a, m)).toList ++ plannedModules s d (seen.put a.unit p) ps

theorem unitAt?_congr [Recovery] (h : d'.readText p = d.readText p) : unitAt? s d' p = unitAt? s d p := by
  rw [unitAt?, unitAt?, h]

theorem plannedModules_congr [Recovery] (hread : ∀ p ∈ ps, d'.readText p = d.readText p) (seen : Entries Path) :
    plannedModules s d' seen ps = plannedModules s d seen ps := by
  induction ps generalizing seen with
  | nil => rfl
  | cons p ps ih =>
    have hunit : unitAt? s d' p = unitAt? s d p := unitAt?_congr (hread p List.mem_cons_self)
    have hrest := fun seen => ih (fun q hq => hread q (List.mem_cons_of_mem _ hq)) seen
    rw [plannedModules, plannedModules, hunit]
    cases unitAt? s d p with
    | none => exact hrest seen
    | some a => simp only [hrest]

theorem fileName_of_moduleOf? (h : moduleOf? s a = some m) : Text.endsWith m.fileName moduleSuffix = true := by
  unfold moduleOf? DeclarationModule.of? at h
  split at h
  · cases h
  · obtain rfl := Option.some.inj h
    rw [Naming.fileName, Text.endsWith, String.toList_append]
    exact List.isSuffixOf_iff_suffix.mpr (List.suffix_append _ _)

theorem moduleOf?_of_mem_planned [Recovery] {w : UnitAnalysis × DeclarationModule}
    (h : w ∈ plannedModules s d seen ps) :
    moduleOf? s w.1 = some w.2 := by
  induction ps generalizing seen with
  | nil => cases h
  | cons p ps ih =>
    unfold plannedModules at h
    split at h
    · exact ih h
    split at h
    · exact ih h
    rcases List.mem_append.mp h with h | h
    · obtain ⟨m, hm, rfl⟩ := Option.map_eq_some_iff.mp (Option.mem_toList.mp h)
      exact hm
    · exact ih h

/-! ### One source -/

namespace Pass.Does

/-- A source without a unit, or with one that was seen, changes nothing. -/
theorem addUnit_skips [Recovery] (h : ∀ a, unitAt? s d p = some a → found.seen.has a.unit = true) :
    Does (addUnit s output found p) d (.ok found) d := by
  refine (readSource p d).bind ?_
  unfold unitAt? at h
  cases hread : d.readText p with
  | error e => exact say_bind _ _ _ (pure found d)
  | ok cs =>
    dsimp only
    rw [hread] at h
    cases hunit : UnitAnalysis.ofSource? s.conventions (Source.ofText (String.ofList cs)) p with
    | none => exact say_bind _ _ _ (pure found d)
    | some a =>
      have hseen := h a.1 (by simp [hunit])
      rw [Entries.has_eq_isSome] at hseen
      obtain ⟨first, hfirst⟩ := Option.isSome_iff_exists.mp hseen
      refine report_bind _ ?_
      rw [hfirst]
      exact say_bind _ _ _ (pure found d)

/-- A source with a new unit adds it and, if its module is written, its declarations. -/
theorem addUnit_writes [Recovery] {r : Except Interruption (Option DeclaredUnit)} (hunit : unitAt? s d p = some a)
    (hseen : found.seen.has a.unit = false) (h : Does (writeModule s output a) d r d') :
    Does (addUnit s output found p) d (r.map fun written =>
      { seen := found.seen.put a.unit p, declared := found.declared ++ written.toList }) d' := by
  refine (readSource p d).bind ?_
  unfold unitAt? at hunit
  cases hread : d.readText p with
  | error e => simp [hread] at hunit
  | ok cs =>
    rw [hread] at hunit
    obtain ⟨⟨a', rows⟩, hsource, rfl⟩ := Option.map_eq_some_iff.mp hunit
    rw [Entries.has_eq_isSome] at hseen
    dsimp only
    rw [hsource]
    refine report_bind _ ?_
    rw [Option.isSome_eq_false_iff.mp hseen |> Option.isNone_iff_eq_none.mp]
    cases r with
    | error i => exact h.bind_error
    | ok written => exact h.bind (pure _ d')

theorem writeModule_none (output : Path) (h : moduleOf? s a = none) : Does (writeModule s output a) d (.ok none) d := by
  unfold moduleOf? at h
  unfold writeModule
  rw [h]
  exact say_bind _ _ _ (pure none d)

theorem writeModule_ok {x : Except Failure Bool} (hm : moduleOf? s a = some m)
    (h : Does (Pass.writeOutput (output.child m.fileName) m.text) d (.ok x) d') :
    Does (writeModule s output a) d
      (.ok (if x.isOk then some (DeclaredUnit.ofModule a m (output.child m.fileName)) else none)) d' := by
  unfold moduleOf? at hm
  unfold writeModule
  rw [hm]
  refine report_bind _ (h.bind ?_)
  cases x with
  | error f => exact say_bind _ _ _ (pure none d')
  | ok changed => exact say_bind _ _ _ (pure _ d')

theorem writeModule_error {i : Interruption} (hm : moduleOf? s a = some m)
    (h : Does (Pass.writeOutput (output.child m.fileName) m.text) d (.error i) d') :
    Does (writeModule s output a) d (.error i) d' := by
  unfold moduleOf? at hm
  unfold writeModule
  rw [hm]
  exact report_bind _ h.bind_error

/-- A source with a new unit without members adds it. -/
theorem addUnit_none [Recovery] (output : Path) (hunit : unitAt? s d p = some a) (hseen : found.seen.has a.unit = false)
    (hnone : moduleOf? s a = none) :
    Does (addUnit s output found p) d (.ok { found with seen := found.seen.put a.unit p }) d := by
  simpa [Except.map] using addUnit_writes hunit hseen (writeModule_none output hnone)

/-- A source whose module cannot be written adds its unit. -/
theorem addUnit_failed [Recovery] {x : Except Failure Bool} (hunit : unitAt? s d p = some a)
    (hseen : found.seen.has a.unit = false) (hm : moduleOf? s a = some m) (hx : x.isOk = false)
    (h : Does (Pass.writeOutput (output.child m.fileName) m.text) d (.ok x) d') :
    Does (addUnit s output found p) d (.ok { found with seen := found.seen.put a.unit p }) d' := by
  simpa [Except.map, hx] using addUnit_writes hunit hseen (writeModule_ok hm h)

end Pass.Does

/-! ### What comes of planned modules -/

/-- The place of a planned module. -/
def placeOf (output : Path) (w : UnitAnalysis × DeclarationModule) : List String :=
  output.home ++ [w.2.fileName]

/-- The unit of a planned module once the module is written. -/
def declaredBy (output : Path) (w : UnitAnalysis × DeclarationModule) : DeclaredUnit :=
  DeclaredUnit.ofModule w.1 w.2 (output.child w.2.fileName)

/-- The units of the planned modules that get written, by what stands at their places before: a directory keeps a
    module from being written, and a file that is no text interrupts the pass. -/
def deliveries (output : Path) (d : Disk) :
    List (UnitAnalysis × DeclarationModule) → Except Interruption (List DeclaredUnit)
  | [] => .ok []
  | w :: ws =>
    match (d.tree.standing (placeOf output w)).fault? with
    | some e => .error (.encoding e)
    | none => (deliveries output d ws).map fun units =>
      if d.tree.standing (placeOf output w) = .directory then units else declaredBy output w :: units

/-- The texts that are written to a place. -/
def textsFor (output : Path) (d : Disk) (place : List String) :
    List (UnitAnalysis × DeclarationModule) → List (List Char)
  | [] => []
  | w :: ws =>
    match (d.tree.standing (placeOf output w)).fault? with
    | some _ => []
    | none => if place = placeOf output w then w.2.text.toList :: textsFor output d place ws else textsFor output d place ws

variable {w : UnitAnalysis × DeclarationModule} {ws : List (UnitAnalysis × DeclarationModule)} {place : List String}

theorem deliveries_congr (place : List String) (h : ∀ w ∈ ws, (d'.tree.standing (placeOf output w)).fault? =
      (d.tree.standing (placeOf output w)).fault? ∧
    (d'.tree.standing (placeOf output w) = .directory ↔ d.tree.standing (placeOf output w) = .directory)) :
    deliveries output d' ws = deliveries output d ws ∧ textsFor output d' place ws = textsFor output d place ws := by
  induction ws with
  | nil => exact ⟨rfl, rfl⟩
  | cons w ws ih =>
    obtain ⟨hfault, hdir⟩ := h w List.mem_cons_self
    obtain ⟨ihd, iht⟩ := ih fun w hw => h w (List.mem_cons_of_mem _ hw)
    rw [deliveries, deliveries, textsFor, textsFor, hfault, ihd, iht]
    simp only [hdir, and_self]

/-- Nothing is written over a file that is no text. -/
theorem textsFor_of_fault (h : (d.tree.standing place).fault? ≠ none) : textsFor output d place ws = [] := by
  induction ws with
  | nil => rfl
  | cons w ws ih =>
    unfold textsFor
    split
    · rfl
    · rename_i hnone
      rw [if_neg, ih]
      rintro rfl
      exact h hnone

theorem mem_of_textsFor (h : textsFor output d place ws ≠ []) : ∃ w ∈ ws, place = placeOf output w := by
  induction ws with
  | nil => exact absurd rfl h
  | cons w ws ih =>
    unfold textsFor at h
    split at h
    · exact absurd rfl h
    · split at h
      · rename_i hplace
        exact ⟨w, List.mem_cons_self, hplace⟩
      · obtain ⟨w', hw', hplace⟩ := ih h
        exact ⟨w', List.mem_cons_of_mem _ hw', hplace⟩

namespace Standing

theorem foldl_holding_eq_directory {texts : List (List Char)} {st : Standing} :
    texts.foldl (fun st text => st.holding text) st = .directory ↔ st = .directory := by
  induction texts generalizing st with
  | nil => exact Iff.rfl
  | cons text texts ih => rw [List.foldl_cons, ih, holding_eq_directory]

theorem fault?_foldl_holding {texts : List (List Char)} {st : Standing} (h : st.fault? = none) :
    (texts.foldl (fun st text => st.holding text) st).fault? = none := by
  induction texts generalizing st with
  | nil => exact h
  | cons text texts ih => exact ih (fault?_holding h)

end Standing

/-- The files after the planned modules were written. -/
def Disk.Delivered (output : Path) (d : Disk) (ws : List (UnitAnalysis × DeclarationModule)) (d' : Disk) : Prop :=
  ∀ place, d'.tree.standing place =
    (textsFor output d place ws).foldl (fun st text => st.holding text) (d.tree.standing place)

namespace Disk.Delivered

theorem directory_iff (h : Delivered output d ws d') (place : List String) :
    d'.tree.standing place = .directory ↔ d.tree.standing place = .directory := by
  rw [h, Standing.foldl_holding_eq_directory]

theorem fault?_eq (h : Delivered output d ws d') (place : List String) :
    (d'.tree.standing place).fault? = (d.tree.standing place).fault? := by
  rw [h]
  by_cases hfault : (d.tree.standing place).fault? = none
  · rw [hfault, Standing.fault?_foldl_holding hfault]
  · rw [textsFor_of_fault hfault]
    rfl

/-- A module is written before the others. -/
theorem cons {units : List DeclaredUnit} {r : Except Interruption FoundUnits} {x : Except Failure Bool}
    (hfault : (d.tree.standing (placeOf output w)).fault? = none)
    (hset : ∀ q, d₁.tree.standing q =
      if q = placeOf output w then (d.tree.standing q).holding w.2.text.toList else d.tree.standing q)
    (hok : x.isOk = true ↔ d.tree.standing (placeOf output w) ≠ .directory)
    (hresult : r.map (·.declared) = (deliveries output d₁ ws).map
      (units ++ (if x.isOk then some (declaredBy output w) else none).toList ++ ·))
    (h : Delivered output d₁ ws d') :
    r.map (·.declared) = (deliveries output d (w :: ws)).map (units ++ ·) ∧ Delivered output d (w :: ws) d' := by
  have hsame : ∀ q, (d₁.tree.standing q).fault? = (d.tree.standing q).fault? ∧
      (d₁.tree.standing q = .directory ↔ d.tree.standing q = .directory) := by
    intro q
    rw [hset]
    split
    · rename_i hq
      rw [hq]
      exact ⟨(Standing.fault?_holding hfault).trans hfault.symm, Standing.holding_eq_directory⟩
    · exact ⟨rfl, Iff.rfl⟩
  refine ⟨?_, fun place => ?_⟩
  · rw [hresult, (deliveries_congr [] fun w _ => hsame _).1, deliveries, hfault]
    cases deliveries output d ws with
    | error i => rfl
    | ok units =>
      by_cases hold : d.tree.standing (placeOf output w) = .directory
      · have hx : x.isOk = false := Bool.eq_false_iff.mpr fun htrue => hok.mp htrue hold
        simp [Except.map, hold, hx]
      · simp [Except.map, hold, hok.mpr hold]
  · rw [h place, (deliveries_congr place fun w _ => hsame _).2, textsFor, hfault, hset]
    dsimp only
    by_cases hq : place = placeOf output w
    · rw [if_pos hq, if_pos hq]
      rfl
    · rw [if_neg hq, if_neg hq]

/-- Written modules can be written once more, without any change. -/
theorem again (h : Delivered output d ws d') (d₁ : Disk) (hagree : ∀ w ∈ ws, d₁.tree.standing (placeOf output w) =
      d'.tree.standing (placeOf output w)) :
    deliveries output d₁ ws = deliveries output d ws ∧
      ∀ d₂, Delivered output d₁ ws d₂ → ∀ place, d₂.tree.standing place = d₁.tree.standing place := by
  have hsame : ∀ w ∈ ws, (d₁.tree.standing (placeOf output w)).fault? = (d.tree.standing (placeOf output w)).fault? ∧
      (d₁.tree.standing (placeOf output w) = .directory ↔ d.tree.standing (placeOf output w) = .directory) := by
    intro w hw
    rw [hagree w hw]
    exact ⟨h.fault?_eq _, h.directory_iff _⟩
  refine ⟨(deliveries_congr [] hsame).1, fun d₂ h₂ place => ?_⟩
  rw [h₂ place, (deliveries_congr place hsame).2]
  cases htexts : textsFor output d place ws with
  | nil => rfl
  | cons text texts =>
    obtain ⟨w, hw, rfl⟩ := mem_of_textsFor (h := by rw [htexts]; exact List.cons_ne_nil _ _)
    rw [hagree w hw, h, htexts]
    exact Standing.foldl_holding_again (Standing.holding_holding _ _) texts

end Disk.Delivered

/-! ### Several sources -/

variable [Recovery]

theorem plannedModules_skip (h : ∀ a, unitAt? s d p = some a → seen.has a.unit = true) :
    plannedModules s d seen (p :: ps) = plannedModules s d seen ps := by
  rw [plannedModules]
  cases hunit : unitAt? s d p with
  | none => rfl
  | some a => exact if_pos (h a hunit)

theorem plannedModules_new (hunit : unitAt? s d p = some a) (hseen : seen.has a.unit = false) :
    plannedModules s d seen (p :: ps) =
      ((moduleOf? s a).map fun m => (a, m)).toList ++ plannedModules s d (seen.put a.unit p) ps := by
  rw [plannedModules, hunit]
  exact if_neg (by rw [hseen]; exact Bool.false_ne_true)

/-- What a source does for what was found: nothing, add a unit without members, or call for a module. -/
theorem source_cases (s : Settings) (d : Disk) (seen : Entries Path) (p : Path) :
    (∀ a, unitAt? s d p = some a → seen.has a.unit = true) ∨
      ∃ a, unitAt? s d p = some a ∧ seen.has a.unit = false ∧
        (moduleOf? s a = none ∨ ∃ m, moduleOf? s a = some m) := by
  cases hunit : unitAt? s d p with
  | none => exact Or.inl nofun
  | some a =>
    cases hseen : seen.has a.unit with
    | true => exact Or.inl fun a' ha' => Option.some.inj ha' ▸ hseen
    | false => exact Or.inr ⟨a, rfl, hseen, Option.eq_none_or_eq_some _⟩

/-- Writing the modules of sources into a directory that is there comes to what is planned. -/
theorem foldlM_addUnit_open (habs : output.isAbsolute) (hdir : d.stands output = .directory)
    (hsteady : ∀ p ∈ ps, d.Steady output p) (found : FoundUnits) :
    ∃ r d', (ps.foldlM (addUnit s output) found).Does d r d' ∧ Disk.Regenerates output d d' ∧
      r.map (·.declared) = (deliveries output d (plannedModules s d found.seen ps)).map (found.declared ++ ·) ∧
      Disk.Delivered output d (plannedModules s d found.seen ps) d' := by
  induction ps generalizing d found with
  | nil => exact ⟨.ok found, d, .pure found d, .refl _ _ d, by simp [plannedModules, deliveries, Except.map], fun _ => rfl⟩
  | cons p ps ih =>
    obtain ⟨hp, hps⟩ := List.forall_mem_cons.mp hsteady
    obtain hskip | ⟨a, hunit, hseen, hnone | ⟨m, hm⟩⟩ := source_cases s d found.seen p
    · obtain ⟨r, d', hdoes, hspec⟩ := ih hdir hps found
      rw [plannedModules_skip hskip]
      exact ⟨r, d', (Pass.Does.addUnit_skips hskip).bind hdoes, hspec⟩
    · obtain ⟨r, d', hdoes, hspec⟩ := ih hdir hps { found with seen := found.seen.put a.unit p }
      rw [plannedModules_new hunit hseen, hnone]
      exact ⟨r, d', (Pass.Does.addUnit_none output hunit hseen hnone).bind hdoes, hspec⟩
    · have hname := fileName_of_moduleOf? hm
      rw [plannedModules_new hunit hseen, hm, Option.map_some, Option.toList_some, List.singleton_append]
      cases hfault : (d.tree.standing (placeOf output (a, m))).fault? with
      | some e =>
        have hwrite := Pass.writeOutput_fault habs hdir (ne_dots_of_endsWith hname) m.text hfault
        have hhead := Pass.Does.addUnit_writes hunit hseen (Pass.Does.writeModule_error hm hwrite)
        refine ⟨_, d, hhead.bind_error, .refl _ _ d, ?_, fun place => ?_⟩
        · rw [deliveries, hfault]
          rfl
        · rw [textsFor, hfault]
          rfl
      | none =>
        obtain ⟨x, d₁, hwrite, hregen, hok, hset⟩ := Pass.writeOutput_open output.HoldsModule habs hdir
          (ne_dots_of_endsWith hname) ⟨m.fileName, hname, rfl⟩ m.text hfault
        have hhead := Pass.Does.addUnit_writes hunit hseen (Pass.Does.writeModule_ok hm hwrite)
        obtain ⟨r, d', hdoes, hregen', hresult, hdelivered⟩ := ih (hregen.stands_directory hdir)
          (fun q hq => (hps q hq).regenerates hregen)
          { seen := found.seen.put a.unit p, declared := found.declared ++
              (if x.isOk then some (DeclaredUnit.ofModule a m (output.child m.fileName)) else none).toList }
        rw [plannedModules_congr fun q hq => (hps q hq).readText_eq hregen] at hresult hdelivered
        exact ⟨r, d', hhead.bind hdoes, hregen.trans hregen', hdelivered.cons hfault hset hok hresult⟩

/-- Where the directory cannot be made, nothing is written. -/
theorem foldlM_addUnit_stuck (s : Settings) (ps : List Path) (habs : output.isAbsolute) {e : DiskError}
    (hmake : Disk.MakesDirectories output.HoldsModule output.parts.length output d d (some e)) (found : FoundUnits) :
    ∃ found', (ps.foldlM (addUnit s output) found).Does d (.ok found') d ∧ found'.declared = found.declared := by
  induction ps generalizing found with
  | nil => exact ⟨found, .pure found d, rfl⟩
  | cons p ps ih =>
    obtain hskip | ⟨a, hunit, hseen, hnone | ⟨m, hm⟩⟩ := source_cases s d found.seen p
    · obtain ⟨found', hdoes, hdeclared⟩ := ih found
      exact ⟨found', (Pass.Does.addUnit_skips hskip).bind hdoes, hdeclared⟩
    · obtain ⟨found', hdoes, hdeclared⟩ := ih { found with seen := found.seen.put a.unit p }
      exact ⟨found', (Pass.Does.addUnit_none output hunit hseen hnone).bind hdoes, hdeclared⟩
    · have hdir : d.stands output ≠ .directory := fun h => nomatch hmake.success.mpr h
      obtain ⟨x, d₁, hwrite, hfailed, -⟩ := Pass.writeOutput_closed output.OnTheWay habs hdir
        (ne_dots_of_endsWith (fileName_of_moduleOf? hm)) ⟨m.fileName, fileName_of_moduleOf? hm, rfl⟩ m.text hmake
      obtain ⟨rfl, hx⟩ := hfailed (Option.some_ne_none _)
      obtain ⟨found', hdoes, hdeclared⟩ := ih { found with seen := found.seen.put a.unit p }
      exact ⟨found', (Pass.Does.addUnit_failed hunit hseen hm hx hwrite).bind hdoes, hdeclared⟩

/-- What writing the modules of sources comes to, and leaves. Either there is no directory for them in the end, as none
    was planned or the directory cannot be made, and none was written; or there is, and what was written is what would
    have been planned had it been there. -/
theorem foldlM_addUnit (habs : output.isAbsolute) (hsteady : ∀ p ∈ ps, d.Steady output p) (found : FoundUnits) :
    ∃ r d', (ps.foldlM (addUnit s output) found).Does d r d' ∧ Disk.Regenerates output d d' ∧
      ((d'.stands output ≠ .directory ∧ r.map (·.declared) = .ok found.declared ∧
          (plannedModules s d found.seen ps = [] ∨ (d'.makeDirectories output).2 ≠ none) ∧
          ∀ clock, ∃ r', (ps.foldlM (addUnit s output) found).Does (d'.later clock) r' (d'.later clock) ∧
            r'.map (·.declared) = .ok found.declared) ∨
        (d'.stands output = .directory ∧ ∃ d₁,
          r.map (·.declared) = (deliveries output d₁ (plannedModules s d found.seen ps)).map (found.declared ++ ·) ∧
          Disk.Delivered output d₁ (plannedModules s d found.seen ps) d')) := by
  by_cases hdir : d.stands output = .directory
  · obtain ⟨r, d', hdoes, hregen, hresult, hdelivered⟩ := foldlM_addUnit_open (s := s) habs hdir hsteady found
    exact ⟨r, d', hdoes, hregen, Or.inr ⟨hregen.stands_directory hdir, d, hresult, hdelivered⟩⟩
  induction ps generalizing found with
  | nil =>
    have hpure : ∀ d, (List.foldlM (addUnit s output) found []).Does d (.ok found) d := .pure found
    exact ⟨.ok found, d, hpure d, .refl _ _ d, Or.inl ⟨hdir, rfl, .inl rfl, fun clock => ⟨.ok found, hpure _, rfl⟩⟩⟩
  | cons p ps ih =>
    obtain ⟨hp, hps⟩ := List.forall_mem_cons.mp hsteady
    obtain hskip | ⟨a, hunit, hseen, hnone | ⟨m, hm⟩⟩ := source_cases s d found.seen p
    · obtain ⟨r, d', hdoes, hregen, hspec⟩ := ih hps found
      have hunit' : unitAt? s d' p = unitAt? s d p := unitAt?_congr (hp.readText_eq hregen)
      rw [plannedModules_skip hskip]
      refine ⟨r, d', (Pass.Does.addUnit_skips hskip).bind hdoes, hregen, hspec.imp_left ?_⟩
      rintro ⟨hdir', hr, hplanned, hagain⟩
      refine ⟨hdir', hr, hplanned, fun clock => ?_⟩
      obtain ⟨r', hagain, hr'⟩ := hagain clock
      have hskip' : ∀ a, unitAt? s (d'.later clock) p = some a → found.seen.has a.unit = true := hunit' ▸ hskip
      exact ⟨r', (Pass.Does.addUnit_skips hskip').bind hagain, hr'⟩
    · obtain ⟨r, d', hdoes, hregen, hspec⟩ := ih hps { found with seen := found.seen.put a.unit p }
      have hunit' : unitAt? s d' p = some a := (unitAt?_congr (hp.readText_eq hregen)).trans hunit
      rw [plannedModules_new hunit hseen, hnone]
      refine ⟨r, d', (Pass.Does.addUnit_none output hunit hseen hnone).bind hdoes, hregen, hspec.imp_left ?_⟩
      rintro ⟨hdir', hr, hplanned, hagain⟩
      refine ⟨hdir', hr, hplanned, fun clock => ?_⟩
      obtain ⟨r', hagain, hr'⟩ := hagain clock
      exact ⟨r', (Pass.Does.addUnit_none (d := d'.later clock) output hunit' hseen hnone).bind hagain, hr'⟩
    · rw [plannedModules_new hunit hseen, hm, Option.map_some, Option.toList_some, List.singleton_append]
      obtain ⟨d₁, failure, hmake⟩ := d.makeDirectories_spec output.HoldsModule habs
      obtain ⟨x, d₂, hwrite, hfailed, hmade⟩ := Pass.writeOutput_closed output.OnTheWay habs hdir
        (ne_dots_of_endsWith (fileName_of_moduleOf? hm)) ⟨m.fileName, fileName_of_moduleOf? hm, rfl⟩ m.text hmake
      cases failure with
      | some e =>
        obtain ⟨rfl, hx⟩ := hfailed (Option.some_ne_none _)
        obtain ⟨e₂, hstuck⟩ := hmake.stuck habs d₂.clock
        obtain ⟨found₁, hrest, hdeclared₁⟩ := foldlM_addUnit_stuck s ps habs hstuck
          { found with seen := found.seen.put a.unit p }
        refine ⟨.ok found₁, d₂, (Pass.Does.addUnit_failed hunit hseen hm hx hwrite).bind hrest, hmake.regenerated,
          Or.inl ⟨fun h => (nomatch hmake.success.mpr h), ?_, .inr ?_, fun clock => ?_⟩⟩
        · rw [Except.map, hdeclared₁]
        · have hresult : d₂.makeDirectories output = (d₂, some e₂) := hstuck.result
          rw [hresult]
          exact Option.some_ne_none e₂
        · obtain ⟨e', hstuck⟩ := hmake.stuck habs clock
          obtain ⟨found₂, hagain, hdeclared₂⟩ := foldlM_addUnit_stuck s (p :: ps) habs hstuck found
          exact ⟨.ok found₂, hagain, by rw [Except.map, hdeclared₂]⟩
      | none =>
        obtain ⟨hregen₂, hok, hset⟩ := hmade rfl
        have hregen : Disk.Regenerates output d d₂ := hmake.regenerated.trans hregen₂
        have hdir₂ := hregen₂.stands_directory (hmake.success.mp rfl)
        have hhead := Pass.Does.addUnit_writes hunit hseen (Pass.Does.writeModule_ok hm hwrite)
        obtain ⟨r, d', hdoes, hregen', hresult, hdelivered⟩ := foldlM_addUnit_open (s := s) habs hdir₂
          (fun q hq => (hps q hq).regenerates hregen)
          { seen := found.seen.put a.unit p, declared := found.declared ++
              (if x.isOk then some (DeclaredUnit.ofModule a m (output.child m.fileName)) else none).toList }
        rw [plannedModules_congr fun q hq => (hps q hq).readText_eq hregen] at hresult hdelivered
        have hplace : d₂.tree.standing (placeOf output (a, m)) =
            (d₁.tree.standing (placeOf output (a, m))).replaced m.text.toList := (hset _).trans (if_pos rfl)
        -- What was written regardless is as if it had been there already.
        refine ⟨r, d', hhead.bind hdoes, hregen.trans hregen',
          Or.inr ⟨hregen'.stands_directory hdir₂, d₂, hdelivered.cons ?_ (fun q => ?_) ?_ hresult⟩⟩
        · rw [hplace, Standing.fault?_replaced]
        · split
          · rename_i hq
            rw [hq, hplace, Standing.holding_replaced]
          · rfl
        · rw [hok, hplace, ne_eq, ne_eq, Standing.replaced_eq_directory]
          rfl

end ResponseShapes
