import ResponseShapes.Proofs.Pass.Mirrored
import ResponseShapes.Proofs.Pass.Rewriting

/-! # Sources that are no texts

A pass does the same with and without the sources that are no texts. -/

namespace ResponseShapes

variable {s : Settings} {root output p around : Path} {name pattern : String} {bad : List (List String)}
  {modules : List String → Prop} {d₀ d d' : Disk} {sure : Prop} {ps : List Path}

/-! ### Sources -/

namespace Disk.Lacks

/-- None of the files that are taken away is on the way to a directory. -/
theorem past_directory (h : Lacks d₀ bad modules d d') (habs : p.isAbsolute) (hdir : d₀.stands p = .directory) :
    ∀ q ∈ bad, ¬(d₀.here.join p).OnTheWay q := fun q hq hon => by
  rw [join_of_isAbsolute _ habs] at hon
  obtain ⟨e, he⟩ := h.faulty q hq
  rw [standing_onTheWay habs hdir hon] at he
  cases he

/-- A source lies in a directory, and none of the files that are taken away is on the way to it. -/
theorem exists_around (h : Lacks d₀ bad modules d d') (hp : d₀.PlainFile p) : ∃ (around : Path) (name : String),
    p = around.child name ∧ name ≠ ".." ∧ (d₀.here.join around).home ++ [name] = p.parts ∧
      ∀ q ∈ bad, ¬(d₀.here.join around).OnTheWay q := by
  have hplace := hp.place_eq
  obtain ⟨around, name, rfl, hname, habs, hhome⟩ := hp.exists_child
  rw [← hhome] at hplace
  have hdir := stands_parent_of_place hp.absolute hplace
  rw [Path.parent_child] at hdir
  exact ⟨around, name, rfl, hname, by rw [join_of_isAbsolute _ habs, hhome], h.past_directory habs hdir⟩

theorem leads_source (h : Lacks d₀ bad modules d d') (hp : d₀.PlainFile p) (hkeep : p.parts ∉ bad) :
    LeadsAlike bad d d' p := by
  obtain ⟨around, name, rfl, hname, hhome, hway⟩ := h.exists_around hp
  exact h.leads_into hway hname (hhome ▸ hkeep)

/-- A source that is taken away from one side is still on the other side what it was. -/
theorem readText_taken (h : Lacks d₀ bad modules d d') (hp : d₀.PlainFile p) (htaken : p.parts ∈ bad) :
    d.readText p = d₀.readText p := by
  refine hp.readText_eq ?_
  obtain ⟨content, hfile⟩ := hp.file
  have hstanding : d.tree.standing p.parts = .file content := by
    rw [h.standing_eq htaken, ← stands_of_place hp.place_eq, hfile]
  rw [(stands_of_standing hp.absolute hp.dots (by rw [hstanding]; exact Standing.noConfusion)).2, hstanding, hfile]

theorem exists_readText_taken (h : Lacks d₀ bad modules d d') (hp : d₀.PlainFile p) (htaken : p.parts ∈ bad) :
    ∃ e, d₀.readText p = .error e := by
  obtain ⟨e, he⟩ := h.faulty _ htaken
  rw [← stands_of_place hp.place_eq] at he
  exact ⟨_, readText_eq_encoding_iff.mpr he⟩

end Disk.Lacks

/-- A source that stays is read on both sides. -/
theorem mirrors_readSource (h : Disk.Lacks d₀ bad modules d d') (hp : d₀.PlainFile p) (hkeep : p.parts ∉ bad) :
    Pass.Mirrors sure (Disk.Lacks d₀ bad modules) [] (Pass.readSource p) (Pass.readSource p) d d' := by
  have hsame := (h.leads_source hp hkeep).readText_eq h
  cases hread : d.readText p with
  | error e => exact .of_runs (.readSource_error hread) (.readSource_error (hsame.trans hread)) h fun _ => ⟨_, rfl⟩
  | ok cs => exact .of_runs (.readSource_ok hread) (.readSource_ok (hsame.trans hread)) h fun _ => ⟨_, rfl⟩

/-! ### Outputs -/

/-- Putting down the files after an output was written, or could not be. -/
def Pass.putWritten (p : Path) (outcome : Disk × Option DiskError) : Pass (Except Failure Bool) := do
  modify fun s => { s with disk := outcome.1 }
  match outcome.2 with
  | none => return .ok true
  | some e => return .error (.output p e.message)

/-- Writing an output, on both sides, over anything but a file that is no text. -/
theorem Pass.Mirrors.writeOutput (h : Disk.Lacks d₀ bad modules d d') (hway : ∀ q ∈ bad, ¬(d₀.here.join around).OnTheWay q)
    (hname : name ≠ "..") (hspared : (d₀.here.join around).home ++ [name] ∉ bad) (text : String)
    (hread : ∀ e, d.readText (around.child name) ≠ .error (.encoding e)) :
    Mirrors sure (Disk.Lacks d₀ bad modules) [] (Pass.writeOutput (around.child name) text)
      (Pass.writeOutput (around.child name) text) d d' := by
  have hp := h.leads_into hway hname hspared
  have hwritten : Mirrors sure (Disk.Lacks d₀ bad modules) [] (putWritten (around.child name) (written (around.child name) text d))
      (putWritten (around.child name) (written (around.child name) text d')) d d' := by
    obtain ⟨hlacks, hfailure⟩ := h.written hway hname hspared text
    unfold putWritten
    rw [hfailure]
    refine behind (.setDisk _ d) (.setDisk _ d') ?_
    cases (written (around.child name) text d).2 with
    | none => exact pure _ hlacks
    | some e => exact pure _ hlacks
  refine disk_bind ?_
  rw [hp.has_eq h, hp.readText_eq h]
  by_cases hhas : d.has (around.child name) = true
  case neg =>
    rw [if_neg hhas]
    exact hwritten
  rw [if_pos hhas]
  cases hcs : d.readText (around.child name) with
  | error e =>
    cases e with
    | disk e => exact pure _ h
    | encoding e => exact absurd hcs (hread e)
  | ok cs =>
    dsimp only
    split
    · exact pure _ h
    · exact hwritten

namespace Disk.Lacks

variable (h : Lacks d₀ bad (d₀.here.join output).HoldsModule d d') (hname : Text.endsWith name moduleSuffix = true)
include h hname

/-- A module is none of the files that are taken away, since it is a text. -/
theorem spares_module : (d₀.here.join output).home ++ [name] ∉ bad :=
  h.notMem_of_fault (h.legible _ ⟨name, hname, rfl⟩)

theorem readText_module (e : Text.EncodingError) : d.readText (output.child name) ≠ .error (.encoding e) := fun he => by
  have hfault := readText_eq_encoding_iff.mp he
  cases hplace : d.place (output.child name) with
  | error cause =>
    rw [stands, hplace] at hfault
    cases hfault
  | ok q =>
    have hq := hplace
    rw [Disk.place, join_child, h.here] at hq
    obtain rfl : q = (d₀.here.join output).home ++ [name] :=
      (follow_eq hq).trans (Path.withoutDots_append_singleton _ (ne_dots_of_endsWith hname))
    rw [stands_of_place hplace, h.legible _ ⟨name, hname, rfl⟩] at hfault
    cases hfault

end Disk.Lacks

/-- Steps over sources mirror those over the sources that stay, if those for the others do no more than report. -/
theorem mirrors_foldlM {α : Type} {f : α → Path → Pass α} {row : Path → LogRow} {P : Disk → Disk → Prop}
    (hkept : ∀ p ∈ ps, p.parts ∉ bad → ∀ a d d', P d d' → Pass.Mirrors sure P [] (f a p) (f a p) d d')
    (htaken : ∀ p ∈ ps, p.parts ∈ bad → ∀ a d d', P d d' → (f a p).Runs d (.ok a) d [row p]) (a : α) (h : P d d') :
    Pass.Mirrors sure P ((ps.filter (·.parts ∈ bad)).map row) (ps.foldlM f a) ((ps.filter (·.parts ∉ bad)).foldlM f a) d d' := by
  have hfold : Pass.Mirrors sure P ((ps.filter fun p => !decide (p.parts ∉ bad)).map row) (ps.foldlM f a)
      ((ps.filter (·.parts ∉ bad)).foldlM f a) d d' :=
    .foldlM (fun p hp hkeep => hkept p hp (of_decide_eq_true hkeep))
      (fun p hp hkeep => htaken p hp (not_not.mp (of_decide_eq_false hkeep))) a h
  simpa only [decide_not, Bool.not_not] using hfold

/-! ### Generating -/

section Units

variable (h : Disk.Lacks d₀ bad (d₀.here.join output).HoldsModule d d')
  (hway : ∀ q ∈ bad, ¬(d₀.here.join output).OnTheWay q)
include h hway

theorem mirrors_writeModule (s : Settings) (a : UnitAnalysis) :
    Pass.Mirrors sure (Disk.Lacks d₀ bad (d₀.here.join output).HoldsModule) [] (writeModule s output a)
      (writeModule s output a) d d' := by
  unfold writeModule
  cases hm : DeclarationModule.of? { responseSuffix := s.conventions.responseSuffix } s.documentation a.unit a.members with
  | none => exact .say_bind _ _ _ (.pure none h)
  | some m =>
    have hname : Text.endsWith m.fileName moduleSuffix = true := fileName_of_moduleOf? (s := s) (a := a) hm
    refine .report_bind _ ((Pass.Mirrors.writeOutput h hway (ne_dots_of_endsWith hname) (h.spares_module hname) m.text
      (h.readText_module hname)).bind ?_)
    rintro (f | changed) e e' he
    · exact .say_bind _ _ _ (.pure none he)
    · exact .say_bind _ _ _ (.pure _ he)

/-- A source that stays. -/
theorem mirrors_addUnit [Recovery] (s : Settings) (hp : d₀.PlainFile p) (hkeep : p.parts ∉ bad) (found : FoundUnits) :
    Pass.Mirrors sure (Disk.Lacks d₀ bad (d₀.here.join output).HoldsModule) [] (addUnit s output found p)
      (addUnit s output found p) d d' := by
  refine (mirrors_readSource h hp hkeep).bind ?_
  rintro (f | text) e e' he
  · exact .say_bind _ _ _ (.pure found he)
  dsimp only
  cases UnitAnalysis.ofSource? s.conventions (Syntax.Source.ofText text) p with
  | none => exact .say_bind _ _ _ (.pure found he)
  | some analysed =>
    refine .report_bind _ ?_
    cases Entries.get? analysed.1.unit found.seen with
    | some first => exact .say_bind _ _ _ (.pure found he)
    | none => exact (mirrors_writeModule he hway s analysed.1).bind fun written e e' he => .pure _ he

omit hway in
/-- A source that is taken away is skipped where it is left. -/
theorem runs_addUnit_taken [Recovery] (s : Settings) (hp : d₀.PlainFile p) (htaken : p.parts ∈ bad)
    (found : FoundUnits) {row : LogRow}
    (hrow : d₀.SkippedAs .units "Skipping unit: " p row) : (addUnit s output found p).Runs d (.ok found) d [row] := by
  obtain ⟨e, he, rfl⟩ := hrow
  have hread := (h.readText_taken hp htaken).trans he
  exact (Pass.Runs.readSource_error hread).bind ((Pass.Runs.report _ d).bind (.pure found d))

theorem mirrors_removeModule (hname : Text.endsWith name moduleSuffix = true) :
    Pass.Mirrors sure (Disk.Lacks d₀ bad (d₀.here.join output).HoldsModule) [] (removeModule (output.child name))
      (removeModule (output.child name)) d d' := by
  have hremove := (h.leads_into hway (ne_dots_of_endsWith hname) (h.spares_module hname)).remove h
  refine .disk_bind ?_
  generalize d.remove (output.child name) = r at hremove ⊢
  generalize d'.remove (output.child name) = r' at hremove ⊢
  cases hremove with
  | error e => exact .report _ h
  | ok hremoved =>
    rename_i d₁ d₁'
    exact .behind (.disk_bind (.setDisk d₁ d)) (.disk_bind (.setDisk d₁' d')) (.report _ hremoved)

theorem mirrors_removeStaleModules (keep : List String) :
    Pass.Mirrors sure (Disk.Lacks d₀ bad (d₀.here.join output).HoldsModule) [] (removeStaleModules output keep)
      (removeStaleModules output keep) d d' := by
  refine .disk_bind ?_
  rw [(h.leads_past hway).hasDirectory_eq h, h.moduleEntries_eq hway fun name hname => h.spares_module hname]
  split
  · refine .forM (fun p hp e e' he => ?_) h
    obtain ⟨name, -, hname, rfl⟩ := (mem_moduleEntries d output).mp (List.mem_of_mem_filter hp)
    exact mirrors_removeModule he hway hname
  · exact .pure () h

/-- What scanning does with the sources on one side it does with those on the other. -/
theorem mirrors_scanListed [Recovery] (s : Settings) (hps : ∀ p ∈ ps, d₀.PlainFile p) {row : Path → LogRow}
    (hrow : ∀ p ∈ ps, p.parts ∈ bad → d₀.SkippedAs .units "Skipping unit: " p (row p)) :
    Pass.Mirrors sure (Disk.Lacks d₀ bad (d₀.here.join output).HoldsModule) ((ps.filter (·.parts ∈ bad)).map row)
      (scanListed s output ps) (scanListed s output (ps.filter (·.parts ∉ bad))) d d' := by
  have hclean : ∀ (found : FoundUnits) (e e' : Disk), Disk.Lacks d₀ bad (d₀.here.join output).HoldsModule e e' →
      Pass.Mirrors sure (Disk.Lacks d₀ bad (d₀.here.join output).HoldsModule) [] (do
        if s.clean then removeStaleModules output (found.declared.map (·.module.name))
        return found.declared) (do
        if s.clean then removeStaleModules output (found.declared.map (·.module.name))
        return found.declared) e e' := fun found e e' he => by
    by_cases hclean : s.clean = true
    · rw [if_pos hclean]
      exact (mirrors_removeStaleModules he hway _).bind fun _ e e' he => .pure _ he
    · rw [if_neg hclean]
      exact .pure _ he
  have hscan := (mirrors_foldlM (fun p hp htaken found e e' he => mirrors_addUnit he hway s (hps p hp) htaken found)
    (fun p hp htaken found e e' he => runs_addUnit_taken he s (hps p hp) htaken found (hrow p hp htaken))
    { seen := [], declared := [] } h).bind hclean
  rwa [List.append_nil] at hscan

end Units

/-! ### Wiring -/

theorem mirrors_addEndpoints [Recovery] (h : Disk.Lacks d₀ bad modules d d') (s : Settings) (hp : d₀.PlainFile p)
    (hkeep : p.parts ∉ bad)
    (t : LookupTable) :
    Pass.Mirrors sure (Disk.Lacks d₀ bad modules) [] (addEndpoints s t p) (addEndpoints s t p) d d' := by
  refine (mirrors_readSource h hp hkeep).bind ?_
  rintro (f | text) e e' he
  · exact .say_bind _ _ _ (.pure t he)
  · exact .report_bind _ (.pure _ he)

theorem runs_addEndpoints_taken [Recovery] (h : Disk.Lacks d₀ bad modules d d') (s : Settings) (hp : d₀.PlainFile p)
    (htaken : p.parts ∈ bad) (t : LookupTable) {row : LogRow}
    (hrow : d₀.SkippedAs .endpoints "Skipping endpoint unit: " p row) : (addEndpoints s t p).Runs d (.ok t) d [row] := by
  obtain ⟨e, he, rfl⟩ := hrow
  have hread := (h.readText_taken hp htaken).trans he
  exact (Pass.Runs.readSource_error hread).bind ((Pass.Runs.report _ d).bind (.pure t d))

/-! ### Rewriting -/

theorem mirrors_rewriteSource (h : Disk.Lacks d₀ bad modules d d') (s : Settings) (t : LookupTable) (trial : Bool)
    (hp : d₀.PlainFile p) (hkeep : p.parts ∉ bad) :
    Pass.Mirrors False (Disk.Lacks d₀ bad modules) [] (rewriteSource s t trial p) (rewriteSource s t trial p) d d' := by
  have hsame := (h.leads_source hp hkeep).readText_eq h
  cases hread : d.readText p with
  | error e => exact .behind (.readSource_error hread) (.readSource_error (hsame.trans hread)) (.pure _ h)
  | ok cs =>
    refine .behind (.readSource_ok hread) (.readSource_ok (hsame.trans hread)) ?_
    have hread' : ∀ e, d.readText p ≠ .error (.encoding e) := fun e he => by
      rw [hread] at he
      cases he
    cases hrewritten : Rewritten.ofText s t (some p) (String.ofList cs) with
    | error e =>
      have htext : ∀ d, (rewriteText s t p (String.ofList cs)).Runs d (.error (.edits e)) d [] := fun d => by
        rw [rewriteText, hrewritten]
        exact .interrupt _ d
      exact .of_runs (htext d).bind_error (htext d').bind_error h False.elim
    | ok o =>
      have htext : ∀ d, (rewriteText s t p (String.ofList cs)).Runs d (.ok o.1) d (o.2 ++ []) := fun d => by
        rw [rewriteText, hrewritten]
        exact (Pass.Runs.report o.2 d).bind (.pure o.1 d)
      refine .behind (htext d) (htext d') ?_
      dsimp only
      split
      · exact .pure _ h
      split
      · exact .say_bind _ _ _ (.pure _ h)
      obtain ⟨around, name, rfl, hname, hhome, hway⟩ := h.exists_around hp
      refine (Pass.Mirrors.writeOutput h hway hname (hhome ▸ hkeep) o.1.text hread').bind ?_
      rintro (f | changed) e e' he
      · exact .pure _ he
      · exact .say_bind _ _ _ (.pure _ he)

theorem mirrors_addRewritten (h : Disk.Lacks d₀ bad modules d d') (s : Settings) (t : LookupTable) (trial : Bool)
    (hp : d₀.PlainFile p) (hkeep : p.parts ∉ bad) (changed : List Path) :
    Pass.Mirrors False (Disk.Lacks d₀ bad modules) [] (addRewritten s t trial changed p) (addRewritten s t trial changed p)
      d d' := by
  refine (mirrors_rewriteSource h s t trial hp hkeep).bind ?_
  rintro (f | _ | _) e e' he
  · exact .say_bind _ _ _ (.pure _ he)
  · exact .pure _ he
  · exact .pure _ he

theorem runs_addRewritten_taken (h : Disk.Lacks d₀ bad modules d d') (s : Settings) (t : LookupTable) (trial : Bool)
    (hp : d₀.PlainFile p) (htaken : p.parts ∈ bad) (changed : List Path) {row : LogRow}
    (hrow : d₀.SkippedAs .rewriting "Skipping endpoint unit: " p row) :
    (addRewritten s t trial changed p).Runs d (.ok changed) d [row] := by
  obtain ⟨e, he, rfl⟩ := hrow
  have hread := (h.readText_taken hp htaken).trans he
  have hsource : (rewriteSource s t trial p).Runs d (.ok (.error (.source p ("unreadable source: " ++ e.message)))) d
      ([] ++ []) := (Pass.Runs.readSource_error hread).bind (.pure _ d)
  exact hsource.bind ((Pass.Runs.report _ d).bind (.pure changed d))

end ResponseShapes
