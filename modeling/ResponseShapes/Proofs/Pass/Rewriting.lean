import ResponseShapes.Pass.Markers
import ResponseShapes.Proofs.Marker.Apart
import ResponseShapes.Proofs.Pass.Legible

/-! # Rewriting sources

A source that is read is rewritten, unless its tree is not laid over it, and then no other file changes
(`rewriteSource_legible`). So a pass over sources comes to what it comes to for those that can be read, each as it was in
the beginning (`rewriteSources_legible`). -/

namespace ResponseShapes

open Syntax

variable {s : Settings} {t : LookupTable} {trial : Bool} {root top p : Path} {ps : List Path} {pattern : String} {d d' : Disk}
  {cs : List Char}

/-! ### Files with a path of their own -/

/-- A path without two dots leads to a file in a directory. -/
structure Disk.PlainFile (d : Disk) (p : Path) : Prop where
  absolute : p.isAbsolute = true
  inside : p.parts ≠ []
  dots : ".." ∉ p.parts
  file : ∃ content, d.stands p = .file content

namespace Disk.PlainFile

theorem exists_child (h : d.PlainFile p) : ∃ (around : Path) (name : String), p = around.child name ∧ name ≠ ".." ∧
    around.isAbsolute = true ∧ around.home ++ [name] = p.parts := by
  obtain ⟨name, hname⟩ := Path.exists_child h.inside
  have hparts : p.parent.parts ++ [name] = p.parts := (congrArg Path.parts hname).symm
  have hdots := h.dots
  rw [← hparts, List.mem_append, List.mem_singleton, not_or] at hdots
  refine ⟨p.parent, name, hname, Ne.symm hdots.2, h.absolute, ?_⟩
  rw [Path.home, Path.withoutDots_of_no_dots hdots.1, hparts]

theorem place_eq (h : d.PlainFile p) : d.place p = .ok p.parts := by
  obtain ⟨content, hfile⟩ := h.file
  exact (place_of_no_dots h.absolute h.dots (by rw [hfile]; exact Standing.noConfusion)).1

theorem congr (h : d.PlainFile p) (hsame : d'.stands p = d.stands p) : d'.PlainFile p :=
  ⟨h.absolute, h.inside, h.dots, by rw [hsame]; exact h.file⟩

theorem readText_eq (h : d.PlainFile p) (hsame : d'.stands p = d.stands p) : d'.readText p = d.readText p := by
  obtain ⟨content, hfile⟩ := h.file
  rw [readText_of_file hfile, readText_of_file (hsame.trans hfile)]

/-- A file stays as it is if nothing is written to its place. -/
theorem stands_eq {modules made : List String → Prop} (h : d.PlainFile p) (hregen : Regenerated modules made d d')
    (hother : ¬modules p.parts) : d'.stands p = d.stands p := by
  obtain ⟨content, hfile⟩ := h.file
  rw [hfile]
  refine hregen.stands_file hfile fun place hplace => ?_
  rwa [Except.ok.inj (hplace.symm.trans h.place_eq)]

end Disk.PlainFile

theorem plainFile_of_mem_listed {rules : List IgnoreRule} (habs : top.isAbsolute) (hd : d.tree.Proper)
    (hdir : d.tree.standing top.parts = .directory) (h : p ∈ listedSources d top pattern rules) :
    d.PlainFile p ∧ p.root = top.root := by
  obtain ⟨rel, content, rfl, hplace, hfile, hdots, -⟩ := exists_of_mem_listed habs hd h
  refine ⟨⟨habs, fun hnil => ?_, hdots, content, hfile⟩, rfl⟩
  obtain ⟨htop, rfl⟩ := List.append_eq_nil_iff.mp hnil
  rw [Disk.stands_of_place hplace, List.append_nil, hdir] at hfile
  cases hfile

/-! ### One source -/

/-- A text is rewritten if its tree is laid over it or there is none. -/
theorem Rewritten.exists_ofText_of_laid (s : Settings) (t : LookupTable) (path : Option Path) {text : String}
    (hlaid : ∀ src, Source.ofText? text = some src → src.Laid) : ∃ o, Rewritten.ofText s t path text = .ok o := by
  cases hs : Source.ofText? text with
  | some src =>
    obtain ⟨r, hr⟩ : ∃ r, Rewritten.ofText s t path text = .ok (r, Rewritten.rows r.unresolved) :=
      Rewritten.exists_ofText (hlaid src hs) hs
    exact ⟨_, hr⟩
  | none =>
    unfold Rewritten.ofText
    split
    · exact ⟨_, rfl⟩
    · rw [hs]
      exact ⟨_, rfl⟩

/-- Once a source is read and its text is rewritten, what is left is to write the text if it changed. -/
theorem rewriteSource_of_read (trial : Bool) (hread : d.readText p = .ok cs) {r : Rewritten} {rows : List LogRow}
    (hr : Rewritten.ofText s t (some p) (String.ofList cs) = .ok (r, rows)) {x : Except Interruption (Except Failure Bool)}
    (h : (do
      let decorators := s!" ({r.count} decorators)"
      if !r.changed (String.ofList cs) then return .ok false
      else if trial then
        Pass.say .info .rewriting ("Would rewrite " ++ p.toString ++ decorators)
        return .ok true
      else
        match ← Pass.writeOutput p r.text with
        | .error f => return .error f
        | .ok _ =>
          Pass.say .info .rewriting ("Rewrote " ++ p.toString ++ decorators)
          return .ok true : Pass (Except Failure Bool)).Does d x d') :
    (rewriteSource s t trial p).Does d x d' := by
  have hsource := Pass.Does.readSource p d
  rw [hread] at hsource
  refine hsource.bind (Pass.Does.bind ?_ h)
  unfold rewriteText
  rw [hr]
  exact .report_bind rows (.pure r d)

/-- A source that is read is rewritten, and then nothing else was written. -/
theorem rewriteSource_legible (s : Settings) (t : LookupTable) (trial : Bool) (hp : d.PlainFile p)
    (hread : d.readText p = .ok cs) (hlaid : ∀ src, Source.ofText? (String.ofList cs) = some src → src.Laid) :
    ∃ x d', (rewriteSource s t trial p).Does d (.ok x) d' ∧
      Disk.Regenerated (· = p.parts) (fun _ => True) d d' := by
  obtain ⟨⟨r, rows⟩, hr⟩ := Rewritten.exists_ofText_of_laid s t (some p) hlaid
  have hdoes := fun {x d'} => @rewriteSource_of_read s t p d d' cs trial hread r rows hr x
  by_cases hchanged : r.changed (String.ofList cs) = true
  case neg =>
    refine ⟨.ok false, d, hdoes ?_, .refl _ _ d⟩
    rw [Bool.eq_false_iff.mpr hchanged]
    exact .pure _ d
  rw [hchanged] at hdoes
  by_cases htrial : trial = true
  · refine ⟨.ok true, d, hdoes ?_, .refl _ _ d⟩
    rw [htrial]
    exact .say_bind _ _ _ (.pure _ d)
  obtain ⟨around, name, rfl, hname, habs, hplace⟩ := hp.exists_child
  -- The source was read, so it is a text.
  have hfault : (d.stands (around.child name)).fault? = none := by
    obtain ⟨content, hfile⟩ := hp.file
    rw [Disk.readText_of_file hfile] at hread
    rw [hfile, Standing.fault?]
    cases hdecode : Text.decode content with
    | ok cs => rfl
    | error e => rw [hdecode] at hread; cases hread
  obtain ⟨x, d', hwrite, hregen, -⟩ := Pass.Does.writeOutput_legible (· = around.home ++ [name]) habs hname rfl r.text hfault
  rw [hplace] at hregen
  obtain rfl : trial = false := Bool.eq_false_iff.mpr htrial
  cases x with
  | error f => exact ⟨.error f, d', hdoes (hwrite.bind (.pure _ d')), hregen.mono (fun _ => id) fun _ _ => trivial⟩
  | ok b =>
    exact ⟨.ok true, d', hdoes (hwrite.bind (.say_bind _ _ _ (.pure _ d'))), hregen.mono (fun _ => id) fun _ _ => trivial⟩

theorem rewriteSource_unreadable (s : Settings) (t : LookupTable) (trial : Bool) {e : TextError}
    (hread : d.readText p = .error e) :
    (rewriteSource s t trial p).Does d (.ok (.error (.source p ("unreadable source: " ++ e.message)))) d := by
  have hsource := Pass.Does.readSource p d
  rw [hread] at hsource
  exact hsource.bind (.pure _ d)

/-! ### Several sources -/

/-- Sources with a path each are rewritten one after the other, and each of them is as it was in the beginning when its
    turn comes. -/
theorem addRewritten_skips (s : Settings) (t : LookupTable) (trial : Bool) (hp : d.PlainFile p)
    (hps : ∀ q ∈ ps, d.PlainFile q ∧ q.parts ≠ p.parts)
    (hlaid : ∀ cs, d.readText p = .ok cs → ∀ src, Source.ofText? (String.ofList cs) = some src → src.Laid) :
    Pass.Skips (addRewritten s t trial) d.reads (d.SkippedAs .rewriting "Skipping endpoint unit: ")
      (fun as d' => ∀ q ∈ as, d'.stands q = d.stands q) p ps where
  skipped := by
    intro hreads changed d' hsame
    obtain ⟨e, he⟩ := Disk.exists_of_not_reads hreads
    have hread : d'.readText p = .error e := (hp.readText_eq (hsame p List.mem_cons_self)).trans he
    have hsource := rewriteSource_unreadable s t trial hread
    refine ⟨hsource.bind (Pass.Does.say_bind _ _ _ (.pure changed d')), fun q hq => hsame q (List.mem_cons_of_mem _ hq), ?_⟩
    rintro k row ⟨e', he', rfl⟩
    obtain rfl : e = e' := Except.error.inj (he.symm.trans he')
    exact .behind (hsource.reaches k) (.say_bind _ _ _ (.pure changed d'))
  kept := by
    intro hreads changed d' hsame
    obtain ⟨cs, hcs⟩ : ∃ cs, d.readText p = .ok cs := by
      unfold Disk.reads at hreads
      cases hread : d.readText p with
      | ok cs => exact ⟨cs, rfl⟩
      | error e => rw [hread] at hreads; cases hreads
    have hsame' := hsame p List.mem_cons_self
    obtain ⟨x, d'', hsource, hregen⟩ := rewriteSource_legible s t trial (hp.congr hsame')
      ((hp.readText_eq hsame').trans hcs) (hlaid cs hcs)
    have hothers : ∀ q ∈ ps, d''.stands q = d.stands q := fun q hq =>
      have hq' := hsame q (List.mem_cons_of_mem _ hq)
      (((hps q hq).1.congr hq').stands_eq hregen (hps q hq).2).trans hq'
    rcases x with f | _ | _
    · exact ⟨_, d'', hsource.bind (.say_bind _ _ _ (.pure _ d'')), hothers⟩
    · exact ⟨_, d'', hsource.bind (.pure _ d''), hothers⟩
    · exact ⟨_, d'', hsource.bind (.pure _ d''), hothers⟩

/-- Rewriting comes to the changes of the sources that can be read, and reports the others. -/
theorem rewriteSources_legible (s : Settings) (t : LookupTable) (trial : Bool)
    (hlist : (listSources root pattern s.excludePaths).Does d (.ok ps) d) (hps : ∀ p ∈ ps, d.PlainFile p ∧ p.root = top.root)
    (hnodup : ps.Nodup) (hlaid : ∀ p ∈ ps, ∀ cs, d.readText p = .ok cs →
      ∀ src, Source.ofText? (String.ofList cs) = some src → src.Laid) :
    ∃ changed d', (rewriteSources s t trial root pattern).Does d (.ok changed) d' ∧
      ((ps.filter d.reads).foldlM (addRewritten s t trial) []).Does d (.ok changed) d' ∧
      ∀ p ∈ ps, ∀ e, d.readText p = .error e → ∀ k,
        (rewriteSources s t trial root pattern).Tells d k (skippedRow .rewriting "Skipping endpoint unit: " p e) := by
  have hskips : ∀ p ps', p :: ps' <:+ ps → Pass.Skips (addRewritten s t trial) d.reads
      (d.SkippedAs .rewriting "Skipping endpoint unit: ") (fun as d' => ∀ q ∈ as, d'.stands q = d.stands q) p ps' := by
    intro p ps' hsuffix
    have hp := hsuffix.mem List.mem_cons_self
    refine addRewritten_skips s t trial (hps p hp).1 (fun q hq => ?_) (hlaid p hp)
    have hq' := hps q (hsuffix.mem (List.mem_cons_of_mem _ hq))
    refine ⟨hq'.1, fun hparts => ?_⟩
    have hroot := hq'.2.trans (hps p hp).2.symm
    obtain rfl : q = p := by
      cases q
      cases p
      exact congrArg₂ Path.mk hroot hparts
    exact (List.nodup_cons.mp (hnodup.sublist hsuffix.sublist)).1 hq
  obtain ⟨changed, d', hfold, -, hfilter⟩ := Pass.Skips.foldlM hskips [] (fun _ _ => rfl)
  refine ⟨changed, d', hlist.bind hfold, hfilter, fun p hp e he k => ?_⟩
  have hreads : d.reads p = false := by rw [Disk.reads, he]; rfl
  exact .behind (hlist.reaches k) (Pass.Skips.tells_foldlM hskips [] (fun _ _ => rfl) k hp hreads ⟨e, he, rfl⟩)

end ResponseShapes
