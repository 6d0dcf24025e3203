import ResponseShapes.Pass.Basic

/-! # What a step does

`Pass.Does x d r d'`: run on the files `d`, the step `x` comes to `r` and leaves the files `d'`, whatever was reported
before; what is known stays, and so does what was reported. A step does one thing at most (`Does.unique`), and what
steps behind each other do is composed from what each of them does. A row that one of them reports (`Pass.Tells`) is
there in the end. -/

namespace ResponseShapes

/-- On the files `d` the step comes to `r` and leaves `d'`. -/
def Pass.Does {α : Type} (x : Pass α) (d : Disk) (r : Except Interruption α) (d' : Disk) : Prop :=
  ∀ rows progress, ∃ more, x.run { disk := d, rows, progress } = (r, { disk := d', rows := rows ++ more, progress })

namespace Pass.Does

variable {α β : Type} {x : Pass α} {f : α → Pass β} {d d₁ d₂ : Disk} {a : α} {i : Interruption} {r : Except Interruption β}
  {r₁ r₂ : Except Interruption α}

theorem unique (h₁ : Does x d r₁ d₁) (h₂ : Does x d r₂ d₂) : r₁ = r₂ ∧ d₁ = d₂ := by
  obtain ⟨rows₁, h₁⟩ := h₁ [] Progress.empty
  obtain ⟨rows₂, h₂⟩ := h₂ [] Progress.empty
  have h := h₁.symm.trans h₂
  exact ⟨congrArg Prod.fst h, congrArg (fun o => o.2.disk) h⟩

/-- A step behind one that comes to a value starts from what that one leaves. -/
theorem run_bind (hx : Does x d (.ok a) d₁) (rows : List LogRow) (progress : Progress) : ∃ more, ∀ {β} (f : α → Pass β),
    (x >>= f).run { disk := d, rows, progress } = (f a).run { disk := d₁, rows := rows ++ more, progress } := by
  obtain ⟨more, hx⟩ := hx rows progress
  refine ⟨more, fun f => ?_⟩
  change ExceptT.bindCont f (x.run { disk := d, rows, progress }).1 (x.run { disk := d, rows, progress }).2 = _
  rw [hx]
  rfl

/-- Nothing is done behind a step that ends the pass. -/
theorem run_bind_error (hx : Does x d (.error i) d₁) (rows : List LogRow) (progress : Progress) :
    ∃ more, ∀ {β} (f : α → Pass β),
      (x >>= f).run { disk := d, rows, progress } = (.error i, { disk := d₁, rows := rows ++ more, progress }) := by
  obtain ⟨more, hx⟩ := hx rows progress
  refine ⟨more, fun f => ?_⟩
  change ExceptT.bindCont f (x.run { disk := d, rows, progress }).1 (x.run { disk := d, rows, progress }).2 = _
  rw [hx]
  rfl

theorem bind (hx : Does x d (.ok a) d₁) (hf : Does (f a) d₁ r d₂) : Does (x >>= f) d r d₂ := by
  intro rows progress
  obtain ⟨more, hx⟩ := hx.run_bind rows progress
  obtain ⟨more', hf⟩ := hf (rows ++ more) progress
  exact ⟨more ++ more', (hx f).trans (List.append_assoc .. ▸ hf)⟩

theorem bind_error (hx : Does x d (.error i) d₁) : Does (x >>= f) d (.error i) d₁ := by
  intro rows progress
  obtain ⟨more, hx⟩ := hx.run_bind_error rows progress
  exact ⟨more, hx f⟩

/-- A step that reports nothing. -/
theorem of_quiet (h : ∀ rows progress, x.run { disk := d, rows, progress } = (r₁, { disk := d₁, rows, progress })) :
    Does x d r₁ d₁ :=
  fun rows progress => ⟨[], (h rows progress).trans (by rw [List.append_nil])⟩

theorem pure (a : α) (d : Disk) : Does (pure a) d (.ok a) d :=
  of_quiet fun _ _ => rfl

theorem interrupt (i : Interruption) (d : Disk) : Does (Pass.interrupt i : Pass α) d (.error i) d :=
  of_quiet fun _ _ => rfl

theorem disk (d : Disk) : Does Pass.disk d (.ok d) d :=
  of_quiet fun _ _ => rfl

theorem report (more : List LogRow) (d : Disk) : Does (Pass.report more) d (.ok ()) d :=
  fun _ _ => ⟨more, rfl⟩

theorem say (level : LogLevel) (reporter : Reporter) (text : String) (d : Disk) :
    Does (Pass.say level reporter text) d (.ok ()) d :=
  report _ d

theorem setDisk (d' d : Disk) : Does (modify fun s => { s with disk := d' } : Pass Unit) d (.ok ()) d' :=
  of_quiet fun _ _ => rfl

theorem change_ok {f : Disk → Except DiskError Disk} (h : f d = .ok d₁) : Does (Pass.change f) d (.ok ()) d₁ := by
  refine (disk d).bind ?_
  rw [h]
  exact setDisk d₁ d

theorem change_error {f : Disk → Except DiskError Disk} {e : DiskError} (h : f d = .error e) :
    Does (Pass.change f) d (.error (.disk e)) d := by
  refine (disk d).bind ?_
  rw [h]
  exact interrupt _ d

/-- Whatever is done behind a row is done without it. -/
theorem say_bind {y : Pass β} (level : LogLevel) (reporter : Reporter) (text : String) (hy : Does y d r d₂) :
    Does (Pass.say level reporter text >>= fun _ => y) d r d₂ :=
  (say level reporter text d).bind hy

theorem report_bind {y : Pass β} (rows : List LogRow) (hy : Does y d r d₂) :
    Does (Pass.report rows >>= fun _ => y) d r d₂ :=
  (report rows d).bind hy

theorem disk_bind {f : Disk → Pass β} (hf : Does (f d) d r d₂) : Does (Pass.disk >>= f) d r d₂ :=
  (disk d).bind hf

/-- Making directories comes to an end or ends the pass. -/
theorem makeDirectories {p : Path} {failure : Option DiskError} (h : d.makeDirectories p = (d₁, failure)) :
    (failure = none ∧ Does (Pass.makeDirectories p) d (.ok ()) d₁) ∨
      ∃ e, failure = some e ∧ Does (Pass.makeDirectories p) d (.error (.disk e)) d₁ := by
  cases failure with
  | none =>
    refine .inl ⟨rfl, disk_bind ?_⟩
    rw [h]
    exact (setDisk d₁ d).bind (pure () d₁)
  | some e =>
    refine .inr ⟨e, rfl, disk_bind ?_⟩
    rw [h]
    exact (setDisk d₁ d).bind (interrupt _ d₁)

/-! ### Reading -/

theorem readText_ok {p : Path} {cs : List Char} (h : d.readText p = .ok cs) : Does (Pass.readText p) d (.ok cs) d := by
  refine disk_bind ?_
  rw [h]
  exact pure cs d

theorem readText_error {p : Path} {e : TextError} (h : d.readText p = .error e) :
    Does (Pass.readText p) d (.error (Interruption.ofText e)) d := by
  refine disk_bind ?_
  rw [h]
  exact interrupt _ d

/-- Reading a source comes to what is in the file. -/
theorem readSource (p : Path) (d : Disk) : Does (Pass.readSource p) d (.ok (match d.readText p with
    | .ok cs => .ok (String.ofList cs)
    | .error e => .error (.source p ("unreadable source: " ++ e.message)))) d := by
  refine disk_bind ?_
  cases d.readText p <;> exact pure _ d

/-- Steps that leave the files as they are, one after the other. -/
theorem foldlM_ok {f : β → α → Pass β} {g : β → α → β} {as : List α}
    (h : ∀ b, ∀ a ∈ as, Does (f b a) d (.ok (g b a)) d) (b : β) : Does (as.foldlM f b) d (.ok (as.foldl g b)) d := by
  induction as generalizing b with
  | nil => exact pure b d
  | cons a as ih =>
    exact (h b a List.mem_cons_self).bind (ih (fun b a ha => h b a (List.mem_cons_of_mem _ ha)) (g b a))

end Pass.Does

/-! ### What is known

A step may also make something known to those behind it. -/

/-- On the files `d`, with `k` known, the step comes to `r`, leaves `d'` and makes `k'` known. -/
def Pass.Reaches {α : Type} (x : Pass α) (d : Disk) (k : Progress) (r : Except Interruption α) (d' : Disk)
    (k' : Progress) : Prop :=
  ∀ rows, ∃ more, x.run { disk := d, rows, progress := k } = (r, { disk := d', rows := rows ++ more, progress := k' })

theorem Pass.Does.reaches {α : Type} {x : Pass α} {d d' : Disk} {r : Except Interruption α} (h : Does x d r d')
    (k : Progress) : Reaches x d k r d' k :=
  fun rows => h rows k

namespace Pass.Reaches

variable {α β : Type} {x : Pass α} {f : α → Pass β} {d d₁ d₂ : Disk} {k k₁ k₂ : Progress} {a : α} {i : Interruption}
  {r : Except Interruption α} {r' : Except Interruption β}

theorem run {σ : PassState} (h : Reaches x σ.disk σ.progress r d₁ k₁) :
    (x.run σ).1 = r ∧ (x.run σ).2.disk = d₁ ∧ (x.run σ).2.progress = k₁ := by
  obtain ⟨rows, h⟩ := h σ.rows
  rw [h]
  exact ⟨rfl, rfl, rfl⟩

theorem unique {r₁ r₂ : Except Interruption α} (h₁ : Reaches x d k r₁ d₁ k₁) (h₂ : Reaches x d k r₂ d₂ k₂) :
    r₁ = r₂ ∧ d₁ = d₂ ∧ k₁ = k₂ := by
  obtain ⟨hr, hd, hk⟩ := run (σ := { disk := d, rows := [], progress := k }) h₁
  obtain ⟨hr', hd', hk'⟩ := run (σ := { disk := d, rows := [], progress := k }) h₂
  exact ⟨hr.symm.trans hr', hd.symm.trans hd', hk.symm.trans hk'⟩

theorem bind (hx : Reaches x d k (.ok a) d₁ k₁) (hf : Reaches (f a) d₁ k₁ r' d₂ k₂) : Reaches (x >>= f) d k r' d₂ k₂ := by
  intro rows
  obtain ⟨more, hx⟩ := hx rows
  obtain ⟨more', hf⟩ := hf (rows ++ more)
  refine ⟨more ++ more', ?_⟩
  change ExceptT.bindCont f (x.run { disk := d, rows, progress := k }).1 (x.run { disk := d, rows, progress := k }).2 = _
  rw [hx, ← List.append_assoc]
  exact hf

theorem bind_error (hx : Reaches x d k (.error i) d₁ k₁) : Reaches (x >>= f) d k (.error i) d₁ k₁ := by
  intro rows
  obtain ⟨more, hx⟩ := hx rows
  refine ⟨more, ?_⟩
  change ExceptT.bindCont f (x.run { disk := d, rows, progress := k }).1 (x.run { disk := d, rows, progress := k }).2 = _
  rw [hx]
  rfl

theorem of_quiet (h : ∀ rows, x.run { disk := d, rows, progress := k } = (r, { disk := d₁, rows, progress := k₁ })) :
    Reaches x d k r d₁ k₁ :=
  fun rows => ⟨[], (h rows).trans (by rw [List.append_nil])⟩

theorem learn_bind {g : Progress → Progress} {y : Pass β} (hy : Reaches y d (g k) r' d₂ k₂) :
    Reaches (Pass.learn g >>= fun _ => y) d k r' d₂ k₂ :=
  have hlearn : Reaches (Pass.learn g) d k (.ok ()) d (g k) := of_quiet fun _ => rfl
  hlearn.bind hy

theorem progress_bind {f : Progress → Pass β} (hf : Reaches (f k) d k r' d₂ k₂) :
    Reaches (Pass.progress >>= f) d k r' d₂ k₂ :=
  have hprogress : Reaches Pass.progress d k (.ok k) d k := of_quiet fun _ => rfl
  hprogress.bind hf

/-- Once an interruption is caught, the pass goes on from what the step left. -/
theorem tried (hx : Reaches x d k r d₁ k₁) :
    Reaches (tryCatch (Except.ok <$> x) fun i => pure (Except.error i)) d k (.ok r) d₁ k₁ := by
  intro rows
  obtain ⟨more, hx⟩ := hx rows
  have hmap : (Except.ok <$> x : Pass (Except Interruption α)).run { disk := d, rows, progress := k } =
      (r.map Except.ok, { disk := d₁, rows := rows ++ more, progress := k₁ }) := by
    rw [ExceptT.run_map]
    change ((x.run { disk := d, rows, progress := k }).1.map Except.ok, (x.run { disk := d, rows, progress := k }).2) = _
    rw [hx]
  have hbind : ∀ {γ δ : Type} {m : StateM PassState γ} {σ : PassState} {o : γ × PassState} (f : γ → StateM PassState δ),
      m σ = o → (m >>= f) σ = f o.1 o.2 := by
    rintro γ δ m σ o f rfl
    rfl
  refine ⟨more, ?_⟩
  change ExceptT.run (ExceptT.tryCatch (Except.ok <$> x) fun i => pure (Except.error i)) _ = _
  unfold ExceptT.tryCatch ExceptT.mk
  refine (hbind _ hmap).trans ?_
  cases r <;> rfl

/-- What is done behind a step is done whatever the step comes to. -/
theorem andFinally {last : Pass Unit} (hx : Reaches x d k r d₁ k₁) (hlast : Does last d₁ (.ok ()) d₂) :
    Reaches (Pass.andFinally x last) d k r d₂ k₁ := by
  refine hx.tried.bind ((hlast.reaches k₁).bind ?_)
  cases r with
  | ok a => exact (Does.pure a d₂).reaches k₁
  | error i => exact (Does.interrupt i d₂).reaches k₁

end Pass.Reaches

/-! ### What is reported -/

/-- On the files `d`, with `k` known, the step reports the row, whatever it comes to. -/
def Pass.Tells {α : Type} (x : Pass α) (d : Disk) (k : Progress) (row : LogRow) : Prop :=
  ∀ rows, row ∈ (x.run { disk := d, rows, progress := k }).2.rows

namespace Pass.Tells

variable {α β : Type} {x : Pass α} {f : α → Pass β} {d d₁ : Disk} {k k₁ : Progress} {a : α} {row : LogRow}

theorem run {σ : PassState} (h : Tells x σ.disk σ.progress row) : row ∈ (x.run σ).2.rows :=
  h σ.rows

theorem report {rows : List LogRow} (h : row ∈ rows) (d : Disk) (k : Progress) : Tells (Pass.report rows) d k row :=
  fun _ => List.mem_append_right _ h

/-- A row that is reported stays, whatever is done behind it. -/
theorem bind {r : Except Interruption α} (h : Tells x d k row) (hx : Reaches x d k r d₁ k₁)
    (hf : ∀ a, r = .ok a → ∃ r' d₂ k₂, Reaches (f a) d₁ k₁ r' d₂ k₂) : Tells (x >>= f) d k row := by
  intro rows
  obtain ⟨more, hx⟩ := hx rows
  have hrow := h rows
  change row ∈ (ExceptT.bindCont f (x.run { disk := d, rows, progress := k }).1
    (x.run { disk := d, rows, progress := k }).2).2.rows
  rw [hx] at hrow ⊢
  cases r with
  | error i => exact hrow
  | ok a =>
    obtain ⟨r', d₂, k₂, hf⟩ := hf a rfl
    obtain ⟨more', hf⟩ := hf (rows ++ more)
    change row ∈ ((f a).run { disk := d₁, rows := rows ++ more, progress := k₁ }).2.rows
    rw [hf]
    exact List.mem_append_left _ hrow

/-- What a step reports that another one comes before. -/
theorem behind (hx : Reaches x d k (.ok a) d₁ k₁) (h : Tells (f a) d₁ k₁ row) : Tells (x >>= f) d k row := by
  intro rows
  obtain ⟨more, hx⟩ := hx rows
  change row ∈ (ExceptT.bindCont f (x.run { disk := d, rows, progress := k }).1
    (x.run { disk := d, rows, progress := k }).2).2.rows
  rw [hx]
  exact h (rows ++ more)

/-- A step that reports the row first. -/
theorem say_bind {y : Pass β} {r : Except Interruption β} (level : LogLevel) (reporter : Reporter) (text : String)
    (hy : Does y d r d₁) : Tells (Pass.say level reporter text >>= fun _ => y) d k { level, reporter, text } :=
  bind (report (List.mem_singleton_self _) d k) ((Does.say level reporter text d).reaches k) fun _ _ =>
    ⟨r, d₁, k, hy.reaches k⟩

end Pass.Tells

/-! ### What is skipped

Steps over a list, of which those for some elements change nothing but report. -/

namespace Pass

variable {α β : Type} {f : β → α → Pass β} {keep : α → Bool} {tells : α → LogRow → Prop} {P : List α → Disk → Prop}
  {as : List α} {d : Disk}

/-- The step for an element that is not to be kept only reports, and the step for another one comes to a value, on files
    with a property that tells of the element and of those behind it; of these it then holds again. -/
structure Skips (f : β → α → Pass β) (keep : α → Bool) (tells : α → LogRow → Prop) (P : List α → Disk → Prop) (a : α)
    (as : List α) : Prop where
  skipped : keep a = false → ∀ b d, P (a :: as) d →
    Does (f b a) d (.ok b) d ∧ P as d ∧ ∀ k row, tells a row → Tells (f b a) d k row
  kept : keep a = true → ∀ b d, P (a :: as) d → ∃ b' d', Does (f b a) d (.ok b') d' ∧ P as d'

namespace Skips

theorem exists_does {a : α} (h : Skips f keep tells P a as) (b : β) (hd : P (a :: as) d) :
    ∃ b' d', Does (f b a) d (.ok b') d' ∧ P as d' := by
  cases hkeep : keep a with
  | true => exact h.kept hkeep b d hd
  | false =>
    obtain ⟨hdoes, hd', -⟩ := h.skipped hkeep b d hd
    exact ⟨b, d, hdoes, hd'⟩

/-- The steps come to what the steps for the others alone come to. -/
theorem foldlM (h : ∀ a as', a :: as' <:+ as → Skips f keep tells P a as') (b : β) (hd : P as d) :
    ∃ b' d', Does (as.foldlM f b) d (.ok b') d' ∧ P [] d' ∧ Does ((as.filter keep).foldlM f b) d (.ok b') d' := by
  induction as generalizing b d with
  | nil => exact ⟨b, d, .pure b d, hd, .pure b d⟩
  | cons a as ih =>
    have ha := h a as (List.suffix_refl _)
    have has := fun a' as' (h' : a' :: as' <:+ as) => h a' as' (h'.trans (List.suffix_cons a as))
    cases hkeep : keep a with
    | true =>
      obtain ⟨b₁, d₁, hhead, hd₁⟩ := ha.kept hkeep b d hd
      obtain ⟨b', d', hdoes, hd', hfilter⟩ := ih has b₁ hd₁
      rw [List.filter_cons_of_pos hkeep]
      exact ⟨b', d', hhead.bind hdoes, hd', hhead.bind hfilter⟩
    | false =>
      obtain ⟨hhead, hd₁, -⟩ := ha.skipped hkeep b d hd
      obtain ⟨b', d', hdoes, hd', hfilter⟩ := ih has b hd₁
      rw [List.filter_cons_of_neg (by rw [hkeep]; exact Bool.false_ne_true)]
      exact ⟨b', d', hhead.bind hdoes, hd', hfilter⟩

/-- What is skipped is reported. -/
theorem tells_foldlM (h : ∀ a as', a :: as' <:+ as → Skips f keep tells P a as') (b : β) (hd : P as d) (k : Progress)
    {a : α} (ha : a ∈ as) (hkeep : keep a = false) {row : LogRow} (hrow : tells a row) :
    Tells (as.foldlM f b) d k row := by
  induction as generalizing b d with
  | nil => cases ha
  | cons a' as ih =>
    have hhead := h a' as (List.suffix_refl _)
    have has := fun a'' as' (h' : a'' :: as' <:+ as) => h a'' as' (h'.trans (List.suffix_cons a' as))
    rcases List.mem_cons.mp ha with rfl | ha
    · obtain ⟨hdoes, hd₁, htells⟩ := hhead.skipped hkeep b d hd
      refine (htells k row hrow).bind (hdoes.reaches k) fun b' hb' => ?_
      obtain ⟨b'', d', hrest, -⟩ := foldlM has b' hd₁
      exact ⟨_, d', k, hrest.reaches k⟩
    · obtain ⟨b₁, d₁, hdoes, hd₁⟩ := hhead.exists_does b hd
      exact .behind (hdoes.reaches k) (ih has b₁ hd₁ ha)

end Skips

end Pass

end ResponseShapes
