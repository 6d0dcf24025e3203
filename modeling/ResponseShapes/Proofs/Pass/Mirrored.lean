import ResponseShapes.Proofs.Pass.Without

/-! # Two runs side by side

`Pass.Mirrors sure P told x x' d d'`: run on the files `d` and on the files `d'`, the steps `x` and `x'` come to the same
and leave files that `P` relates; if they come to a value, then `x` reports the rows of `x'` and those of `told` besides.
Steps behind each other mirror each other if each of them does (`Mirrors.bind`), and steps over a list mirror those over
a part of it if the ones that are left out do no more than report (`Mirrors.foldlM`). -/

namespace ResponseShapes

/-! ### Rows -/

/-- The rows are those of `rows'`, in their order, and those of `told` among them. -/
def Besides (told rows' rows : List LogRow) : Prop :=
  rows'.Sublist rows ∧ rows.Perm (rows' ++ told)

namespace Besides

variable {told told' rows rows' more more' : List LogRow}

theorem refl (rows : List LogRow) : Besides [] rows rows :=
  ⟨List.Sublist.refl rows, by rw [List.append_nil]⟩

theorem append (h : Besides told rows' rows) (h' : Besides told' more' more) :
    Besides (told ++ told') (rows' ++ more') (rows ++ more) := by
  refine ⟨h.1.append h'.1, (h.2.append h'.2).trans ?_⟩
  rw [List.append_assoc, List.append_assoc]
  refine List.Perm.append_left rows' ?_
  rw [← List.append_assoc, ← List.append_assoc]
  exact List.perm_append_comm.append_right told'

theorem singleton (row : LogRow) : Besides [row] [] [row] :=
  ⟨List.nil_sublist _, List.Perm.refl _⟩

end Besides

/-! ### One run -/

/-- On the files `d` the step comes to `r`, leaves `d'` and reports `more`. -/
def Pass.Runs {α : Type} (x : Pass α) (d : Disk) (r : Except Interruption α) (d' : Disk) (more : List LogRow) : Prop :=
  ∀ rows progress, x.run { disk := d, rows, progress } = (r, { disk := d', rows := rows ++ more, progress })

namespace Pass.Runs

variable {α β : Type} {x : Pass α} {f : α → Pass β} {d d₁ d₂ : Disk} {a : α} {i : Interruption} {p : Path}
  {r : Except Interruption β} {more more' : List LogRow}

theorem does {r : Except Interruption α} (h : Runs x d r d₁ more) : Does x d r d₁ :=
  fun rows progress => ⟨more, h rows progress⟩

theorem bind (hx : Runs x d (.ok a) d₁ more) (hf : Runs (f a) d₁ r d₂ more') : Runs (x >>= f) d r d₂ (more ++ more') := by
  intro rows progress
  change ExceptT.bindCont f (x.run { disk := d, rows, progress }).1 (x.run { disk := d, rows, progress }).2 = _
  rw [hx rows progress, ← List.append_assoc]
  exact hf (rows ++ more) progress

theorem bind_error (hx : Runs x d (.error i) d₁ more) : Runs (x >>= f) d (.error i) d₁ more := by
  intro rows progress
  change ExceptT.bindCont f (x.run { disk := d, rows, progress }).1 (x.run { disk := d, rows, progress }).2 = _
  rw [hx rows progress]
  rfl

theorem of_quiet {r : Except Interruption α}
    (h : ∀ rows progress, x.run { disk := d, rows, progress } = (r, { disk := d₁, rows, progress })) : Runs x d r d₁ [] :=
  fun rows progress => (h rows progress).trans (by rw [List.append_nil])

theorem pure (a : α) (d : Disk) : Runs (pure a) d (.ok a) d [] :=
  of_quiet fun _ _ => rfl

theorem interrupt (i : Interruption) (d : Disk) : Runs (Pass.interrupt i : Pass α) d (.error i) d [] :=
  of_quiet fun _ _ => rfl

theorem disk (d : Disk) : Runs Pass.disk d (.ok d) d [] :=
  of_quiet fun _ _ => rfl

theorem setDisk (d' d : Disk) : Runs (modify fun s => { s with disk := d' } : Pass Unit) d (.ok ()) d' [] :=
  of_quiet fun _ _ => rfl

theorem report (more : List LogRow) (d : Disk) : Runs (Pass.report more) d (.ok ()) d more :=
  fun _ _ => rfl

theorem disk_bind {f : Disk → Pass β} (hf : Runs (f d) d r d₂ more) : Runs (Pass.disk >>= f) d r d₂ more :=
  (disk d).bind hf

theorem readSource_ok {cs : List Char} (h : d.readText p = .ok cs) :
    Runs (readSource p) d (.ok (.ok (String.ofList cs))) d [] := by
  refine disk_bind ?_
  rw [h]
  exact pure _ d

theorem readSource_error {e : TextError} (h : d.readText p = .error e) :
    Runs (readSource p) d (.ok (.error (.source p ("unreadable source: " ++ e.message)))) d [] := by
  refine disk_bind ?_
  rw [h]
  exact pure _ d

end Pass.Runs

/-! ### Two runs -/

/-- Run on `d` and on `d'`, the steps come to the same, for `sure` to a value, and leave files with the property. With a
    value, the first step reports what the second one does and `told` besides. -/
def Pass.Mirrors {α : Type} (sure : Prop) (P : Disk → Disk → Prop) (told : List LogRow) (x x' : Pass α) (d d' : Disk) : Prop :=
  ∃ r e e' more more', x.Runs d r e more ∧ x'.Runs d' r e' more' ∧ P e e' ∧ (sure → ∃ a, r = .ok a) ∧
    ∀ a, r = .ok a → Besides told more' more

namespace Pass.Mirrors

variable {α β : Type} {sure : Prop} {P : Disk → Disk → Prop} {told told' : List LogRow} {x x' : Pass α} {f f' : α → Pass β}
  {d d' e e' : Disk}

theorem of_runs {r : Except Interruption α} {more : List LogRow} (hx : x.Runs d r e more) (hx' : x'.Runs d' r e' more)
    (hP : P e e') (hsure : sure → ∃ a, r = .ok a) : Mirrors sure P [] x x' d d' :=
  ⟨r, e, e', more, more, hx, hx', hP, hsure, fun _ _ => .refl more⟩

theorem pure (a : α) (hP : P d d') : Mirrors sure P [] (pure a) (pure a) d d' :=
  of_runs (.pure a d) (.pure a d') hP fun _ => ⟨a, rfl⟩

theorem report (rows : List LogRow) (hP : P d d') : Mirrors sure P [] (Pass.report rows) (Pass.report rows) d d' :=
  of_runs (.report rows d) (.report rows d') hP fun _ => ⟨(), rfl⟩

/-- Steps behind others that mirror each other. -/
theorem bind (hx : Mirrors sure P told x x' d d') (hf : ∀ a e e', P e e' → Mirrors sure P told' (f a) (f' a) e e') :
    Mirrors sure P (told ++ told') (x >>= f) (x' >>= f') d d' := by
  obtain ⟨r, e, e', more, more', hx, hx', hP, hsure, hmore⟩ := hx
  cases r with
  | error i =>
    refine ⟨.error i, e, e', more, more', hx.bind_error, hx'.bind_error, hP, fun h => ?_, nofun⟩
    obtain ⟨a, ha⟩ := hsure h
    cases ha
  | ok a =>
    obtain ⟨r, e₂, e₂', more₂, more₂', hf, hf', hP₂, hsure₂, hmore₂⟩ := hf a e e' hP
    exact ⟨r, e₂, e₂', _, _, hx.bind hf, hx'.bind hf', hP₂, hsure₂, fun b hb => (hmore a rfl).append (hmore₂ b hb)⟩

/-- Steps behind others that come to a value each and report as much. -/
theorem behind {a a' : α} {more : List LogRow} (hx : x.Runs d (.ok a) e more) (hx' : x'.Runs d' (.ok a') e' more)
    (hf : Mirrors sure P told (f a) (f' a') e e') : Mirrors sure P told (x >>= f) (x' >>= f') d d' := by
  obtain ⟨r, e₂, e₂', more₂, more₂', hf, hf', hP, hsure, hmore⟩ := hf
  exact ⟨r, e₂, e₂', _, _, hx.bind hf, hx'.bind hf', hP, hsure, fun b hb => (Besides.refl more).append (hmore b hb)⟩

theorem disk_bind {f f' : Disk → Pass β} (hf : Mirrors sure P told (f d) (f' d') d d') :
    Mirrors sure P told (Pass.disk >>= f) (Pass.disk >>= f') d d' :=
  behind (.disk d) (.disk d') hf

theorem report_bind {y y' : Pass β} (rows : List LogRow) (hy : Mirrors sure P told y y' d d') :
    Mirrors sure P told (Pass.report rows >>= fun _ => y) (Pass.report rows >>= fun _ => y') d d' :=
  behind (.report rows d) (.report rows d') hy

theorem say_bind {y y' : Pass β} (level : LogLevel) (reporter : Reporter) (text : String)
    (hy : Mirrors sure P told y y' d d') : Mirrors sure P told (Pass.say level reporter text >>= fun _ => y)
      (Pass.say level reporter text >>= fun _ => y') d d' :=
  report_bind _ hy

/-- A step of the first run alone. -/
theorem beside {y : Pass β} {a : α} {row : LogRow} (hx : x.Runs d (.ok a) d [row])
    (hy : Mirrors sure P told (f a) y d d') : Mirrors sure P (row :: told) (x >>= f) y d d' := by
  obtain ⟨r, e, e', more, more', hf, hy, hP, hsure, hmore⟩ := hy
  exact ⟨r, e, e', _, _, hx.bind hf, hy, hP, hsure, fun b hb => (Besides.singleton row).append (hmore b hb)⟩

/-- Steps over a list mirror those over some of its members, if those for the others do no more than report. -/
theorem foldlM {f : β → α → Pass β} {keep : α → Bool} {row : α → LogRow} {as : List α}
    (hkept : ∀ a ∈ as, keep a = true → ∀ b d d', P d d' → Mirrors sure P [] (f b a) (f b a) d d')
    (hskipped : ∀ a ∈ as, keep a = false → ∀ b d d', P d d' → Runs (f b a) d (.ok b) d [row a]) (b : β) (hP : P d d') :
    Mirrors sure P ((as.filter fun a => !keep a).map row) (as.foldlM f b) ((as.filter keep).foldlM f b) d d' := by
  induction as generalizing b d d' with
  | nil => exact pure b hP
  | cons a as ih =>
    have hrest := fun b {e e'} (hP : P e e') => ih (fun a' ha' => hkept a' (List.mem_cons_of_mem a ha'))
      (fun a' ha' => hskipped a' (List.mem_cons_of_mem a ha')) b hP
    cases hkeep : keep a with
    | true =>
      rw [List.filter_cons_of_neg (by simp [hkeep]), List.filter_cons_of_pos hkeep]
      exact (hkept a List.mem_cons_self hkeep b d d' hP).bind fun b e e' hP => hrest b hP
    | false =>
      rw [List.filter_cons_of_pos (by simp [hkeep]), List.filter_cons_of_neg (by simp [hkeep]), List.map_cons]
      exact beside (hskipped a List.mem_cons_self hkeep b d d' hP) (hrest b hP)

theorem forM {f : α → Pass PUnit} {as : List α} (h : ∀ a ∈ as, ∀ d d', P d d' → Mirrors sure P [] (f a) (f a) d d') (hP : P d d') :
    Mirrors sure P [] (as.forM f) (as.forM f) d d' := by
  induction as generalizing d d' with
  | nil => exact pure _ hP
  | cons a as ih =>
    exact (h a List.mem_cons_self d d' hP).bind fun _ e e' hP => ih (fun a' ha' => h a' (List.mem_cons_of_mem a ha')) hP

end Pass.Mirrors

/-! ### Steps that report nothing -/

/-- The step reports nothing. -/
def Pass.Quiet {α : Type} (x : Pass α) : Prop :=
  ∀ σ, (x.run σ).2.rows = σ.rows

namespace Pass.Quiet

variable {α β : Type} {x : Pass α} {f : α → Pass β}

theorem pure (a : α) : Quiet (pure a) := fun _ => rfl

theorem interrupt (i : Interruption) : Quiet (Pass.interrupt i : Pass α) := fun _ => rfl

theorem disk : Quiet Pass.disk := fun _ => rfl

theorem bind (hx : Quiet x) (hf : ∀ a, Quiet (f a)) : Quiet (x >>= f) := by
  intro σ
  have hrows := hx σ
  change (ExceptT.bindCont f (x.run σ).1 (x.run σ).2).2.rows = σ.rows
  generalize (x.run σ).2 = τ at hrows ⊢
  cases (x.run σ).1 with
  | error i => exact hrows
  | ok a => exact (hf a τ).trans hrows

theorem runs {d d' : Disk} {r : Except Interruption α} (hx : Quiet x) (h : Does x d r d') : Runs x d r d' [] := by
  refine Runs.of_quiet fun rows progress => ?_
  obtain ⟨more, hrun⟩ := h rows progress
  have hrows := hx { disk := d, rows, progress }
  rw [hrun] at hrows ⊢
  rw [show rows ++ more = rows from hrows]

theorem readText (p : Path) : Quiet (readText p) := by
  refine disk.bind fun d => ?_
  split
  · exact pure _
  · exact interrupt _

theorem ignoreRules (top : Path) (exclude : List String) : Quiet (ignoreRules top exclude) := by
  have hread : Quiet (readRules (top.child ignoreFile)) := disk.bind fun d => by
    split
    · exact (readText _).bind fun _ => pure _
    · exact pure _
  exact hread.bind fun _ => pure _

theorem listSources (root : Path) (pattern : String) (exclude : List String) : Quiet (listSources root pattern exclude) := by
  refine disk.bind fun d => ?_
  dsimp only
  split
  · exact interrupt _
  · exact interrupt _
  · exact (ignoreRules _ _).bind fun _ => pure _

end Pass.Quiet

end ResponseShapes
