import ResponseShapes.Build.Lock
import ResponseShapes.Proofs.Number.Rounding
import ResponseShapes.Proofs.Pass.Basic
import ResponseShapes.Proofs.Project.Directories

/-! # What a lock does

A lock that is not held takes its file if there is none or the file is older than the lock allows, and does nothing
otherwise, apart from making the directories around the file (`Lock.acquire_cases`). A lock that is held takes its
file away on release (`Lock.release_cases`). A file that is too old stays too old (`Lock.isLess_age_later`). -/

namespace ResponseShapes

/-! ### Files that are made and removed -/

namespace Disk

variable {d : Disk} {p : Path} {place : List String} {name : String} {text : List Char} {new : Option Tree}

theorem createText_of_none (hplace : d.place p = .ok place) (hnone : d.tree.find? place = none) :
    d.createText p text = .ok (d.put place (some (.file (Text.encode text) d.clock))) := by
  simp [createText, about, hplace, hnone, bind, Except.bind, pure, Except.pure]

theorem createText_of_some {t : Tree} (hplace : d.place p = .ok place) (hsome : d.tree.find? place = some t) :
    d.createText p text = .error { cause := .taken, path := p } := by
  simp [createText, about, hplace, hsome, bind, Except.bind]

theorem removeIfThere_of_file {content : List UInt8} {time : Int} (hplace : d.place p = .ok place)
    (hfile : d.tree.find? place = some (.file content time)) : d.removeIfThere p = .ok (d.put place none) := by
  simp [removeIfThere, remove, about, hplace, hfile, bind, Except.bind, pure, Except.pure]

theorem removeIfThere_of_directory {time : Int} {children : Entries Tree} (hplace : d.place p = .ok place)
    (hdir : d.tree.find? place = some (.directory time children)) :
    d.removeIfThere p = .error { cause := .isDirectory, path := p } := by
  simp [removeIfThere, remove, about, hplace, hdir, bind, Except.bind]

/-- Removing changes at most the place that the path leads to. -/
theorem removeIfThere_cases (d : Disk) (p : Path) :
    ((d.removeIfThere p = .ok d ∨ ∃ e, d.removeIfThere p = .error e) ∧
      ∀ place, d.place p = .ok place → d.tree.file? place = none) ∨
      ∃ place content time, d.place p = .ok place ∧ d.tree.find? place = some (.file content time) ∧
        d.removeIfThere p = .ok (d.put place none) := by
  cases hplace : d.place p with
  | error cause =>
    by_cases hcause : cause = .missing <;>
      simp [removeIfThere, remove, about, hplace, hcause, bind, Except.bind]
  | ok place =>
    cases hfind : d.tree.find? place with
    | none =>
      refine .inl ⟨.inl ?_, fun place' h => ?_⟩
      · simp [removeIfThere, remove, about, hplace, hfind, bind, Except.bind]
      · rw [← Except.ok.inj h, Tree.file?_eq, hfind]
        rfl
    | some t =>
      cases t with
      | directory time children =>
        refine .inl ⟨.inr ⟨_, removeIfThere_of_directory hplace hfind⟩, fun place' h => ?_⟩
        rw [← Except.ok.inj h, Tree.file?_eq, hfind]
        rfl
      | file content time => exact .inr ⟨place, content, time, rfl, hfind, removeIfThere_of_file hplace hfind⟩

/-- A path leads somewhere if the directory around is there. -/
theorem exists_place_of_parent (h : d.stands p.parent = .directory) : ∃ place, d.place p = .ok place := by
  by_cases hnil : p.parts = []
  · rw [Path.parent_eq_self hnil] at h
    obtain ⟨place, hplace, -⟩ := exists_place_of_stands (p := p) (by rw [h]; exact Standing.noConfusion)
    exact ⟨place, hplace⟩
  · obtain ⟨name, hname⟩ := Path.exists_child hnil
    rw [hname]
    exact exists_place_child h name

/-- It leads to a name in that directory, or to a directory. -/
theorem exists_concat_of_parent (h : d.stands p.parent = .directory) (hplace : d.place p = .ok place)
    (hne : d.tree.standing place ≠ .directory) : ∃ around name, place = around ++ [name] := by
  obtain ⟨q, -, hq⟩ := exists_place_of_stands (p := p.parent) (by rw [h]; exact Standing.noConfusion)
  refine (List.eq_nil_or_concat' place).resolve_left ?_
  rintro rfl
  rcases q with _ | ⟨name, q⟩
  · exact hne (hq.trans h)
  · exact hne (Tree.standing_of_append_cons (by rw [List.nil_append, hq, h]; exact Standing.noConfusion))

/-- A file that is written or removed where a path leads is the only change. -/
theorem Regenerated.put_place (hplace : d.place p = .ok (place ++ [name])) (hnew : Tree.Bare new)
    (hold : d.tree.standing (place ++ [name]) ≠ .directory) (hdir : Standing.of new ≠ .directory) :
    Regenerated (· = place ++ [name]) (fun _ => False) d (d.put (place ++ [name]) new) ∧
      (d.put (place ++ [name]) new).tree.standing (place ++ [name]) = Standing.of new ∧
      (d.put (place ++ [name]) new).tree.file? (place ++ [name]) = Tree.asFile? new := by
  have haround := standing_of_follow (fun h => absurd rfl h) hplace
  have hbare : Tree.Bare (d.tree.find? (place ++ [name])) := Tree.bare_of_standing hold
  refine ⟨.put haround (dots_notMem_follow List.not_mem_nil hplace) hnew hold (fun h => absurd h hdir) fun _ => rfl,
    (Tree.standing_set haround hnew hbare _).trans (if_pos rfl), (Tree.file?_set haround hnew hbare _).trans (if_pos rfl)⟩

end Disk

namespace Lock

variable {l : Lock} {d d₁ : Disk} {failure : Option DiskError} {place : List String}

/-! ### Time -/

/-- The part of a time beyond whole seconds is a finite number. -/
theorem exists_finite_rest {rest : Nat} (h : rest ≤ 1000000000) :
    ∃ m e, (Binary64.ofQuotient false 1 1000000000).mul (.ofQuotient false rest 1) = .finite false m e := by
  have hnano : Binary64.ofQuotient false 1 1000000000 = .finite false 4835703278458517 (-82) := by decide
  have hbound : Binary64.rounded 1000000000 1 = ((1000000000 : ℚ) : WithTop ℚ) := by
    have hbillion : Binary64.ofQuotient false 1000000000 1 = .finite false 8388608000000000 (-23) := by decide
    rw [Binary64.rounded, hbillion]
    norm_num
  obtain ⟨m, e, hrest, hle⟩ := Binary64.ofQuotient_of_le one_pos hbound (by omega : rest ≤ 1000000000 * 1)
  have hquotient : Binary64.quotient false 4835703278458517 (-82) = (4835703278458517, 4835703278458516698824704) := by
    decide
  rw [hnano, hrest, Binary64.mul_finite, hquotient, bne_self_eq_false]
  obtain ⟨hden, hvalue⟩ := Binary64.quotient_spec false m e
  generalize Binary64.quotient false m e = b at hden hvalue
  rw [div_eq_iff (by exact_mod_cast hden.ne'), Binary64.value, if_neg Bool.false_ne_true] at hvalue
  have hpos : 0 ≤ b.1 := by
    have hpos : (0 : ℚ) ≤ b.1 := by rw [hvalue]; positivity
    exact_mod_cast hpos
  have hnum : b.1 ≤ 1000000000 * b.2 := by
    have hnum : (b.1 : ℚ) ≤ 1000000000 * b.2 := hvalue ▸ mul_le_mul_of_nonneg_right hle (Nat.cast_nonneg _)
    exact_mod_cast hnum
  have hproduct : (4835703278458517 * b.1).natAbs ≤ 1000000000 * (4835703278458516698824704 * b.2) := by omega
  obtain ⟨m', e', hproduct, -⟩ := Binary64.ofQuotient_of_le (Nat.mul_pos (by decide) hden) hbound hproduct
  exact ⟨m', e', hproduct⟩

theorem seconds_ne_nan (time : Int) : seconds time ≠ .nan := by
  have hrest : (time.fmod 1000000000).toNat ≤ 1000000000 := by
    have := Int.fmod_lt_of_pos time (show (0 : Int) < 1000000000 by decide)
    omega
  obtain ⟨m, e, hproduct⟩ := exists_finite_rest hrest
  unfold seconds
  dsimp only
  rw [hproduct]
  generalize hwhole : Binary64.ofQuotient _ _ 1 = whole
  cases whole with
  | nan => exact absurd hwhole (Binary64.ofQuotient_ne_nan _ _ _)
  | infinite s => exact nofun
  | finite s n f =>
    unfold Binary64.add
    dsimp only
    split
    · exact nofun
    · exact Binary64.ofQuotient_ne_nan _ _ _

/-- What is too old stays too old. -/
theorem isLess_age_later {limit : Binary64} {earlier later time : Int}
    (hclock : (seconds later).isLess (seconds earlier) = false) (h : limit.isLess (age (seconds earlier) time) = true) :
    limit.isLess (age (seconds later) time) = true :=
  ((Binary64.atMost_of_isLess_eq_false (seconds_ne_nan earlier) (seconds_ne_nan later) hclock).add _).isLess h

/-! ### Taking and releasing -/

/-- What the file of a lock holds. -/
def mark (l : Lock) : List UInt8 :=
  Text.encode (toString l.owner).toList

/-- The lock has made its file at a place, and nothing else has changed. -/
structure Takes (l : Lock) (place : List String) (d d' : Disk) : Prop where
  inside : place ≠ []
  leads : d'.place l.path = .ok place
  regenerated : Disk.Regenerated (· = place) (fun _ => False) d d'
  file : d'.tree.file? place = some (l.mark, d.clock)

/-- Making the file succeeds if nothing stands in its place. -/
theorem create_cases (l : Lock) (hmake : d.makeDirectories l.path.parent = (d₁, failure)) :
    (∃ e, failure = some e ∧ l.create.Does d (.error (.disk e)) d₁) ∨
    failure = none ∧ ∃ place, d₁.place l.path = .ok place ∧
      ((∃ t, d₁.tree.find? place = some t ∧ l.create.Does d (.ok false) d₁) ∨
        d₁.tree.find? place = none ∧ ∃ d', l.create.Does d (.ok true) d' ∧ l.Takes place d₁ d') := by
  obtain ⟨rfl, hdoes⟩ | ⟨e, rfl, hdoes⟩ := Pass.Does.makeDirectories hmake
  · have hparent := Disk.stands_of_makeDirectories hmake
    obtain ⟨place, hplace⟩ := Disk.exists_place_of_parent hparent
    refine .inr ⟨rfl, place, hplace, ?_⟩
    cases hfind : d₁.tree.find? place with
    | some t =>
      refine .inl ⟨t, rfl, hdoes.bind (.disk_bind ?_)⟩
      rw [Disk.createText_of_some hplace hfind]
      exact .pure false d₁
    | none =>
      have hnot : d₁.tree.standing place ≠ .directory := by rw [Tree.standing, hfind]; exact Standing.noConfusion
      obtain ⟨around, name, rfl⟩ := Disk.exists_concat_of_parent hparent hplace hnot
      obtain ⟨hregen, -, hfile⟩ := Disk.Regenerated.put_place hplace (Tree.bare_file l.mark d₁.clock) hnot
        Standing.noConfusion
      refine .inr ⟨rfl, _, hdoes.bind (.disk_bind ?_), by simp, hregen.place_eq hplace, hregen, hfile⟩
      rw [Disk.createText_of_none hplace hfind]
      exact (Pass.Does.change_ok rfl).bind (.pure true _)
  · exact .inl ⟨e, rfl, hdoes.bind_error⟩

/-- What stands at the path is stale if it is too old. -/
theorem isStale_of_some {t : Tree} (hplace : d.place l.path = .ok place) (hsome : d.tree.find? place = some t)
    (now : Binary64) : (l.isStale now).Does d (.ok (l.staleAfter.isLess (age now t.time))) d := by
  have hentry : d.entry l.path = .ok t := by
    simp [Disk.entry, Disk.about, hplace, hsome, bind, Except.bind, pure, Except.pure]
  refine .disk_bind ?_
  rw [hentry]
  exact .pure _ d

/-- A file that is taken away is made anew. -/
theorem create_removed {content : List UInt8} {time : Int} {around : List String} {name : String}
    (hparent : d.stands l.path.parent = .directory) (hplace : d.place l.path = .ok (around ++ [name]))
    (hfile : d.tree.find? (around ++ [name]) = some (.file content time)) :
    ∃ d', l.create.Does (d.put (around ++ [name]) none) (.ok true) d' ∧ l.Takes (around ++ [name]) d d' := by
  obtain ⟨hregen, hnothing, -⟩ := Disk.Regenerated.put_place hplace Tree.bare_none
    (by rw [Tree.standing, hfile]; exact Standing.noConfusion) Standing.noConfusion
  have hmake := Disk.makeDirectoriesFrom_of_directory l.path.parent.parts.length (hregen.stands_directory hparent)
  obtain ⟨e, hfailure, -⟩ | ⟨-, place, hplace', hmade⟩ := l.create_cases hmake
  · cases hfailure
  obtain rfl : around ++ [name] = place := Except.ok.inj ((hregen.place_eq hplace).symm.trans hplace')
  obtain ⟨t, hsome, -⟩ | ⟨-, d', hdoes, htakes⟩ := hmade
  · rw [Tree.standing, hsome] at hnothing
    exact absurd (Standing.of_eq_nothing.mp hnothing) (Option.some_ne_none t)
  · exact ⟨d', hdoes, htakes.inside, htakes.leads, hregen.trans htakes.regenerated, htakes.file⟩

/-- A lock that is not held takes its file if there is none or if that is too old; else it stays as it was, and so do
    the files. The pass ends if the directory around the file cannot be made or if a directory stands in its place. -/
theorem acquire_cases (hheld : l.held = false) (hmake : d.makeDirectories l.path.parent = (d₁, failure))
    (now : Binary64) :
    (∃ place d', (l.acquire now).Does d (.ok { l with held := true }) d' ∧ l.Takes place d₁ d' ∧
      ∀ content time, d₁.tree.file? place = some (content, time) → l.staleAfter.isLess (age now time) = true) ∨
    (∃ place t, d₁.place l.path = .ok place ∧ d₁.tree.find? place = some t ∧
      l.staleAfter.isLess (age now t.time) = false ∧ (l.acquire now).Does d (.ok l) d₁) ∨
    ∃ i, (failure ≠ none ∨ d₁.stands l.path = .directory) ∧ (l.acquire now).Does d (.error i) d₁ := by
  unfold acquire
  rw [hheld, if_neg Bool.false_ne_true]
  obtain ⟨e, rfl, hdoes⟩ | ⟨rfl, place, hplace, ⟨t, hsome, hdoes⟩ | ⟨hnone, d', hdoes, htakes⟩⟩ := l.create_cases hmake
  · exact .inr (.inr ⟨_, .inl nofun, hdoes.bind_error⟩)
  · have hisStale := isStale_of_some hplace hsome now
    cases hstale : l.staleAfter.isLess (age now t.time) with
    | false =>
      rw [hstale] at hisStale
      exact .inr (.inl ⟨place, t, hplace, hsome, hstale, hdoes.bind (hisStale.bind (.pure l d₁))⟩)
    | true =>
      rw [hstale] at hisStale
      -- The file is too old, so it is removed and made anew; a directory cannot be removed.
      cases t with
      | directory time children =>
        refine .inr (.inr ⟨_, .inr ?_, hdoes.bind (hisStale.bind (.say_bind _ _ _ (Pass.Does.bind_error
          (.change_error (Disk.removeIfThere_of_directory hplace hsome)))))⟩)
        rw [Disk.stands_of_place hplace, Tree.standing, hsome]
        rfl
      | file content time =>
        have hparent := Disk.stands_of_makeDirectories hmake
        obtain ⟨around, name, rfl⟩ := Disk.exists_concat_of_parent hparent hplace
          (by rw [Tree.standing, hsome]; exact Standing.noConfusion)
        obtain ⟨d', hcreate, htakes⟩ := create_removed hparent hplace hsome
        refine .inl ⟨_, d', hdoes.bind (hisStale.bind (.say_bind _ _ _ (Pass.Does.bind
          (.change_ok (Disk.removeIfThere_of_file hplace hsome)) (hcreate.bind (.pure _ d'))))), htakes, ?_⟩
        intro content' time' hfile
        rw [Tree.file?_eq, hsome] at hfile
        cases hfile
        exact hstale
  · refine .inl ⟨place, d', hdoes.bind (.pure _ d'), htakes, fun content time hfile => ?_⟩
    rw [Tree.file?_eq, hnone] at hfile
    cases hfile

/-- A lock that is held stays held, and nothing is done. -/
theorem acquire_of_held (hheld : l.held = true) (now : Binary64) (d : Disk) : (l.acquire now).Does d (.ok l) d := by
  unfold acquire
  rw [if_pos hheld]
  exact .pure l d

/-- A lock that is held takes away the file at its path, and changes nothing else. -/
theorem release_of_held (hheld : l.held = true) (d : Disk) : ∃ r d', l.release.Does d r d' ∧
    Disk.Regenerated (fun q => d.place l.path = .ok q) (fun _ => False) d d' ∧
    ∀ place content time, place ≠ [] → d.place l.path = .ok place → d.tree.file? place = some (content, time) →
      r = .ok () ∧ d'.tree.standing place = .nothing := by
  unfold release
  rw [if_pos hheld]
  obtain ⟨hkept, hnone⟩ | ⟨place, content, time, hplace, hfile, hremove⟩ := d.removeIfThere_cases l.path
  · have hdoes : ∃ r, Pass.Does (Pass.change (·.removeIfThere l.path)) d r d :=
      hkept.elim (fun h => ⟨_, .change_ok h⟩) fun ⟨_, h⟩ => ⟨_, .change_error h⟩
    obtain ⟨r, hdoes⟩ := hdoes
    refine ⟨r, d, hdoes, .refl _ _ d, fun place content time _ hplace hfile => ?_⟩
    rw [hnone _ hplace] at hfile
    cases hfile
  · have hnot : d.tree.standing place ≠ .directory := by rw [Tree.standing, hfile]; exact Standing.noConfusion
    obtain rfl | ⟨around, name, rfl⟩ := List.eq_nil_or_concat' place
    · -- The whole tree is a file, which stays.
      have hput : d.put [] none = d := by rw [Disk.put, Tree.set_nil]
      refine ⟨_, d, .change_ok (hput ▸ hremove), .refl _ _ d, fun place content time hne hplace' _ => ?_⟩
      exact absurd (Except.ok.inj (hplace.symm.trans hplace')).symm hne
    obtain ⟨hregen, hnothing, -⟩ := Disk.Regenerated.put_place hplace Tree.bare_none hnot Standing.noConfusion
    refine ⟨_, _, .change_ok hremove, hregen.mono (by rintro q rfl; exact hplace) fun _ => id, ?_⟩
    intro place _ _ _ hplace' _
    rw [← Except.ok.inj (hplace.symm.trans hplace')]
    exact ⟨rfl, hnothing⟩

/-- A lock that is not held releases nothing. -/
theorem release_of_not_held (hheld : l.held = false) (d : Disk) : l.release.Does d (.ok ()) d := by
  unfold release
  rw [hheld]
  exact .pure () d

end Lock

end ResponseShapes
