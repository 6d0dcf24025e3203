import ResponseShapes.Pass.Project
import ResponseShapes.Proofs.Pass.Scan
import ResponseShapes.Proofs.Pass.Settings
import ResponseShapes.Proofs.Pass.Wiring

/-! # What passes write

`Pass.Writes modules made x`: whatever the step `x` comes to, only files at the places of `modules` are written or
removed on its way, and only directories at the places of `made` are made. Generating writes modules of declarations
(`generateIn_regenerated`), and wiring writes the index (`wireIn_regenerated`). -/

namespace ResponseShapes

/-- Whatever the step comes to, it writes and removes only modules and makes only some directories. -/
def Pass.Writes {α : Type} (modules made : List String → Prop) (x : Pass α) : Prop :=
  ∀ d, ∃ r d', Does x d r d' ∧ Disk.Regenerated modules made d d'

namespace Pass.Writes

variable {α β : Type} {modules made : List String → Prop} {x : Pass α} {f : α → Pass β}

theorem of_reads (h : ∀ d, ∃ r, Does x d r d) : Writes modules made x := fun d =>
  let ⟨r, hdoes⟩ := h d
  ⟨r, d, hdoes, .refl _ _ d⟩

theorem pure (a : α) : Writes modules made (pure a : Pass α) :=
  of_reads fun d => ⟨_, .pure a d⟩

theorem say (level : LogLevel) (reporter : Reporter) (text : String) : Writes modules made (Pass.say level reporter text) :=
  of_reads fun d => ⟨_, .say level reporter text d⟩

theorem report (rows : List LogRow) : Writes modules made (Pass.report rows) :=
  of_reads fun d => ⟨_, .report rows d⟩

theorem bind (hx : Writes modules made x) (hf : ∀ a, Writes modules made (f a)) : Writes modules made (x >>= f) := by
  intro d
  obtain ⟨_ | a, d₁, hx, hregen⟩ := hx d
  · exact ⟨_, d₁, hx.bind_error, hregen⟩
  · obtain ⟨r, d₂, hf, hregen'⟩ := hf a d₁
    exact ⟨r, d₂, hx.bind hf, hregen.trans hregen'⟩

theorem foldlM {γ : Type} {f : β → γ → Pass β} {as : List γ} (h : ∀ b, ∀ a ∈ as, Writes modules made (f b a)) (b : β) :
    Writes modules made (as.foldlM f b) := by
  induction as generalizing b with
  | nil => exact pure b
  | cons a as ih =>
    exact (h b a List.mem_cons_self).bind fun b => ih (fun b a ha => h b a (List.mem_cons_of_mem _ ha)) b

end Pass.Writes

variable {s : Settings} {root output p : Path} {pattern name : String} {modules : List String → Prop} {d : Disk}

/-! ### Reading -/

theorem readSource_writes (made : List String → Prop) (p : Path) : (Pass.readSource p).Writes modules made :=
  .of_reads fun d => ⟨_, .readSource p d⟩

/-- Listing sources writes nothing. -/
theorem listSources_does (root : Path) (pattern : String) (exclude : List String) (d : Disk) :
    ∃ r, (listSources root pattern exclude).Does d r d := by
  by_cases hdir : d.stands (d.resolve root) = .directory
  · exact ⟨_, .listSources (standing_resolve hdir) pattern exclude⟩
  · obtain ⟨i, hlist⟩ := Pass.Does.listSources_refused hdir pattern exclude
    exact ⟨_, hlist⟩

/-- What a run lists is listed on its disk. -/
theorem listSources_of_run {σ : PassState} {exclude : List String} {ps : List Path}
    (h : ((listSources root pattern exclude).run σ).1 = .ok ps) :
    (listSources root pattern exclude).Does σ.disk (.ok ps) σ.disk := by
  obtain ⟨r, hdoes⟩ := listSources_does root pattern exclude σ.disk
  obtain rfl := ((hdoes.reaches σ.progress).run (σ := σ)).1.symm.trans h
  exact hdoes

/-! ### Outputs -/

/-- Writing an output changes nothing but its file and the directories on the way to it. -/
theorem Pass.writeOutput_writes (modules : List String → Prop) (habs : output.isAbsolute) (hname : name ≠ "..")
    (hmodule : modules (output.home ++ [name])) (text : String) : (writeOutput (output.child name) text).Writes modules output.OnTheWay := by
  intro d
  by_cases hdir : d.stands output = .directory
  · cases hfault : (d.tree.standing (output.home ++ [name])).fault? with
    | some e => exact ⟨_, d, writeOutput_fault habs hdir hname text hfault, .refl _ _ d⟩
    | none =>
      obtain ⟨x, d', hdoes, hregen, -⟩ := writeOutput_open modules habs hdir hname hmodule text hfault
      exact ⟨_, d', hdoes, hregen⟩
  · obtain ⟨d₁, failure, hmake⟩ := d.makeDirectories_spec modules habs
    obtain ⟨x, d', hdoes, hfailed, hmade⟩ := writeOutput_closed output.OnTheWay habs hdir hname hmodule text hmake
    refine ⟨_, d', hdoes, ?_⟩
    by_cases hfailure : failure = none
    · exact hmake.regenerated.trans (hmade hfailure).1
    · exact (hfailed hfailure).1 ▸ hmake.regenerated

/-! ### Generating -/

theorem writeModule_writes (s : Settings) (habs : output.isAbsolute) (a : UnitAnalysis) :
    (writeModule s output a).Writes output.HoldsModule output.OnTheWay := by
  cases hm : moduleOf? s a with
  | none => exact .of_reads fun d => ⟨_, .writeModule_none output hm⟩
  | some m =>
    intro d
    obtain ⟨x, d', hwrite, hregen⟩ := Pass.writeOutput_writes output.HoldsModule habs
      (ne_dots_of_endsWith (fileName_of_moduleOf? hm)) ⟨_, fileName_of_moduleOf? hm, rfl⟩ m.text d
    cases x with
    | error i => exact ⟨_, d', .writeModule_error hm hwrite, hregen⟩
    | ok x => exact ⟨_, d', .writeModule_ok hm hwrite, hregen⟩

theorem addUnit_writes [Recovery] (s : Settings) (habs : output.isAbsolute) (found : FoundUnits) (p : Path) :
    (addUnit s output found p).Writes output.HoldsModule output.OnTheWay := by
  refine (readSource_writes _ p).bind fun text => ?_
  split
  · exact (Pass.Writes.say _ _ _).bind fun _ => .pure _
  split
  · exact (Pass.Writes.say _ _ _).bind fun _ => .pure _
  refine (Pass.Writes.report _).bind fun _ => ?_
  split
  · exact (Pass.Writes.say _ _ _).bind fun _ => .pure _
  · exact (writeModule_writes s habs _).bind fun _ => .pure _

theorem removeStaleModules_writes (habs : output.isAbsolute) (keep : List String) :
    (removeStaleModules output keep).Writes output.HoldsModule output.OnTheWay := by
  intro d
  by_cases hdir : d.stands output = .directory
  · obtain ⟨d', hdoes, hregen, -⟩ := Pass.Does.removeStaleModules habs hdir keep
    exact ⟨_, d', hdoes, hregen⟩
  · exact ⟨_, d, .removeStaleModules_closed hdir keep, .refl _ _ d⟩

theorem scanListed_writes [Recovery] (s : Settings) (habs : output.isAbsolute) (ps : List Path) :
    (scanListed s output ps).Writes output.HoldsModule output.OnTheWay := by
  refine (Pass.Writes.foldlM (fun found p _ => addUnit_writes s habs found p) _).bind fun found => ?_
  split
  · exact (removeStaleModules_writes habs _).bind fun _ => .pure _
  · exact .pure _

/-- Scanning units writes and removes modules only. -/
theorem scanUnits_writes [Recovery] (s : Settings) (root : Path) (pattern : String) (habs : output.isAbsolute) :
    (scanUnits s root pattern output).Writes output.HoldsModule output.OnTheWay :=
  (Pass.Writes.of_reads (listSources_does root pattern s.excludePaths)).bind (scanListed_writes s habs)

/-- Generating writes and removes modules only. -/
theorem generateIn_regenerated [Recovery] (habs : s.root.isAbsolute) (root : Path) (d : Disk) (k : Progress) :
    ∃ r d' k', (generateIn s root).Reaches d k r d' k' ∧
      Disk.Regenerated s.declarationsDir.HoldsModule s.declarationsDir.OnTheWay d d' := by
  obtain ⟨r, d', hscan, hregen⟩ := scanUnits_writes s root s.servicePattern (s.isAbsolute_declarationsDir habs) d
  exact ⟨_, d', _, .generateDeclarations hscan k, hregen⟩

/-! ### Wiring -/

/-- Wiring writes the wiring only. -/
theorem wireIn_regenerated [Recovery] (habs : s.root.isAbsolute) (root : Path) (d : Disk) (k : Progress) :
    ∃ r d' k', (wireIn s root).Reaches d k r d' k' ∧
      Disk.Regenerated (· = s.outputRoot.home ++ [wiringFile]) s.outputRoot.OnTheWay d d' := by
  obtain ⟨_ | ps, hlist⟩ := listSources_does root s.controllerPattern s.excludePaths d
  · exact ⟨_, d, _, .generateWiring_error s.outputRoot s.declarationsDir hlist k, .refl _ _ d⟩
  · obtain ⟨x, d', hwrite, hregen⟩ := Pass.writeOutput_writes (· = s.outputRoot.home ++ [wiringFile])
      (s.isAbsolute_outputRoot habs) (show wiringFile ≠ ".." by decide) rfl
      (wiringText s s.outputRoot s.declarationsDir (wiringTable s d (unitsFor s d s.declarationsDir k) ps)) d
    obtain ⟨written, hreaches⟩ := Pass.Reaches.generateWiring_ok hlist rfl hwrite
    exact ⟨_, d', _, hreaches, hregen⟩

end ResponseShapes
