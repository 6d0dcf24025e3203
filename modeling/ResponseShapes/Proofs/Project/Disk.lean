import ResponseShapes.Project.Disk
import ResponseShapes.Proofs.Project.Tree

/-! # Following paths

Where a path leads depends only on which directories there are: following it stays the same when more directories are
there (`follow_mono`), and a path without two dots leads to the place of its names (`place_of_standing`). -/

namespace ResponseShapes

namespace Disk

variable {d : Disk} {t u : Tree} {back names place q : List String} {p : Path} {name : String}

/-! ### Following names -/

theorem follow_cons (t : Tree) (back : List String) (name : String) (names : List String) :
    follow t back (name :: names) = match t.standing back.reverse with
      | .nothing => .error .missing
      | .file _ => .error .notDirectory
      | .directory => if name = ".." then follow t back.tail names else follow t (name :: back) names := by
  rw [follow, Tree.standing]
  rcases t.find? back.reverse with _ | ⟨_ | _⟩ <;> rfl

theorem follow_cons_ok (h : follow t back (name :: names) = .ok place) : t.standing back.reverse = .directory ∧
    (if name = ".." then follow t back.tail names else follow t (name :: back) names) = .ok place := by
  rw [follow_cons] at h
  split at h
  · cases h
  · cases h
  · rename_i hdir
    exact ⟨hdir, h⟩

/-- The names that are left when two dots take back the name before them. -/
theorem follow_eq (h : follow t back names = .ok place) :
    place = (names.foldl (fun back part => if part = ".." then back.tail else part :: back) back).reverse := by
  induction names generalizing back with
  | nil => exact (Except.ok.inj h).symm
  | cons name names ih =>
    obtain ⟨-, h⟩ := follow_cons_ok h
    rw [List.foldl_cons]
    split at h
    · rename_i hdots
      rw [if_pos hdots, ih h]
    · rename_i hdots
      rw [if_neg hdots, ih h]

theorem follow_mono (hdir : ∀ q, t.standing q = .directory → u.standing q = .directory)
    (h : follow t back names = .ok place) : follow u back names = .ok place := by
  induction names generalizing back with
  | nil => exact h
  | cons name names ih =>
    obtain ⟨hback, h⟩ := follow_cons_ok h
    rw [follow_cons, hdir _ hback]
    dsimp only
    split at h
    · rename_i hdots
      rw [if_pos hdots, ih h]
    · rename_i hdots
      rw [if_neg hdots, ih h]

/-- Names that lead nowhere lead into nothing, unless there is a file on the way. -/
theorem follow_error {cause : DiskCause} (h : follow t back names = .error cause) : cause = .missing ∨
    ∃ k content, t.standing ((names.take k).foldl (fun back part => if part = ".." then back.tail else part :: back)
      back).reverse = .file content := by
  induction names generalizing back with
  | nil => cases h
  | cons name names ih =>
    rw [follow_cons] at h
    cases hstanding : t.standing back.reverse with
    | nothing =>
      rw [hstanding] at h
      exact .inl (Except.error.inj h).symm
    | file content => exact .inr ⟨0, content, hstanding⟩
    | directory =>
      rw [hstanding, ← apply_ite (fun back => follow t back names)] at h
      exact (ih h).imp_right fun ⟨k, content, hfile⟩ => ⟨k + 1, content, hfile⟩

theorem follow_append (names more : List String) : follow t back (names ++ more) = match follow t back names with
    | .ok place => follow t place.reverse more
    | .error cause => .error cause := by
  induction names generalizing back with
  | nil => simp [follow]
  | cons name names ih =>
    rw [List.cons_append, follow_cons, follow_cons]
    split
    · rfl
    · rfl
    · split <;> exact ih

/-- Two dots do not stay. -/
theorem dots_notMem_follow (hback : ".." ∉ back) (h : follow t back names = .ok place) : ".." ∉ place := by
  induction names generalizing back with
  | nil =>
    rw [← Except.ok.inj h, List.mem_reverse]
    exact hback
  | cons name names ih =>
    obtain ⟨-, h⟩ := follow_cons_ok h
    split at h
    · exact ih (fun hmem => hback (List.mem_of_mem_tail hmem)) h
    · rename_i hdots
      exact ih (fun hmem => (List.mem_cons.mp hmem).elim (fun heq => hdots heq.symm) hback) h

/-- The directory around a followed place is there. -/
theorem standing_of_follow (hback : back ≠ [] → t.standing back.tail.reverse = .directory)
    (h : follow t back names = .ok (place ++ [name])) : t.standing place = .directory := by
  induction names generalizing back with
  | nil =>
    have heq : back = name :: place.reverse := by
      rw [← List.reverse_reverse back, Except.ok.inj h, List.reverse_append]
      rfl
    simpa [heq] using hback
  | cons name' names ih =>
    obtain ⟨hdir, h⟩ := follow_cons_ok h
    split at h
    · refine ih (fun hne => ?_) h
      rcases back with _ | ⟨first, _ | ⟨last, back⟩⟩
      · exact absurd rfl hne
      · exact absurd rfl hne
      · have hsplit : t.standing (back.reverse ++ last :: [first]) ≠ .nothing := by
          have hreverse : (first :: last :: back).reverse = back.reverse ++ last :: [first] := by simp
          rw [← hreverse, hdir]
          exact Standing.noConfusion
        simpa using Tree.standing_of_append_cons hsplit
    · refine ih ?_ h
      exact fun _ => hdir

theorem follow_of_standing (back : List String) (hdots : ".." ∉ names) (h : t.standing (back.reverse ++ names) ≠ .nothing) :
    follow t back names = .ok (back.reverse ++ names) := by
  induction names generalizing back with
  | nil => rw [follow, List.append_nil]
  | cons name names ih =>
    rw [List.mem_cons, not_or] at hdots
    rw [follow_cons, Tree.standing_of_append_cons h]
    dsimp only
    rw [if_neg (Ne.symm hdots.1), ih _ hdots.2]
    · simp
    · simpa using h

/-! ### Where paths lead -/

theorem join_of_isAbsolute (base : Path) (h : p.isAbsolute) : base.join p = p := by
  rw [Path.join, if_pos h]

theorem resolve_parts (h : p.isAbsolute) : (d.resolve p).parts = Path.withoutDots p.parts := by
  rw [resolve, Path.resolve, join_of_isAbsolute _ h]

theorem place_of_isAbsolute (h : p.isAbsolute) : d.place p = follow d.tree [] p.parts := by
  rw [place, join_of_isAbsolute _ h]

theorem place_eq (h : p.isAbsolute) (hplace : d.place p = .ok place) : place = Path.withoutDots p.parts := by
  rw [place_of_isAbsolute h] at hplace
  exact follow_eq hplace

/-- What stands where a path leads. -/
def stands (d : Disk) (p : Path) : Standing :=
  match d.place p with
  | .ok place => d.tree.standing place
  | .error _ => .nothing

theorem stands_of_place (h : d.place p = .ok place) : d.stands p = d.tree.standing place := by
  rw [stands, h]

theorem exists_place_of_stands (h : d.stands p ≠ .nothing) :
    ∃ place, d.place p = .ok place ∧ d.tree.standing place = d.stands p := by
  unfold stands at h ⊢
  cases hplace : d.place p with
  | error _ => simp [hplace] at h
  | ok place => exact ⟨place, rfl, rfl⟩

/-- Where there is a directory, there is one at the top. -/
theorem standing_nil (h : d.stands p = .directory) : d.tree.standing [] = .directory := by
  obtain ⟨place, -, hstanding⟩ := exists_place_of_stands (p := p) (by rw [h]; exact Standing.noConfusion)
  rw [h] at hstanding
  cases place with
  | nil => exact hstanding
  | cons name place => exact Tree.standing_of_append_cons (by
      rw [List.nil_append, hstanding]
      exact Standing.noConfusion)

/-- A path with no two dots leads to the place of its names if something stands there. -/
theorem stands_of_standing (habs : p.isAbsolute) (hdots : ".." ∉ p.parts) (h : d.tree.standing p.parts ≠ .nothing) :
    d.place p = .ok p.parts ∧ d.stands p = d.tree.standing p.parts := by
  have hplace : d.place p = .ok p.parts := by
    rw [place_of_isAbsolute habs]
    exact follow_of_standing [] hdots h
  exact ⟨hplace, stands_of_place hplace⟩

/-- What a path leads to, by what stands there. -/
theorem entry_cases (d : Disk) (p : Path) : match d.stands p with
    | .nothing => ∃ e, d.entry p = .error e
    | .directory => ∃ time children, d.entry p = .ok (.directory time children) ∧
        ∀ place, d.place p = .ok place → d.tree.find? place = some (.directory time children)
    | .file content => ∃ time, d.entry p = .ok (.file content time) := by
  unfold stands entry
  cases hplace : d.place p with
  | error cause => exact ⟨_, rfl⟩
  | ok place =>
    dsimp only
    unfold Tree.standing
    cases htree : d.tree.find? place with
    | none => exact ⟨{ cause := .missing, path := p }, by simp [about, bind, Except.bind, htree]⟩
    | some t =>
      cases t with
      | file content time => exact ⟨time, by simp [about, bind, Except.bind, htree, pure, Except.pure]⟩
      | directory time children =>
        refine ⟨time, children, by simp [about, bind, Except.bind, htree, pure, Except.pure], fun place' h => ?_⟩
        rw [← Except.ok.inj h, htree]

theorem has_iff : d.has p = true ↔ d.stands p ≠ .nothing := by
  have h := entry_cases d p
  unfold has
  split at h <;> rename_i hstands <;> rw [hstands]
  · obtain ⟨e, h⟩ := h
    simp [h, Except.isOk, Except.toBool]
  · obtain ⟨time, children, h, -⟩ := h
    simp [h, Except.isOk, Except.toBool]
  · obtain ⟨time, h⟩ := h
    simp [h, Except.isOk, Except.toBool]

theorem has_of_directory (h : d.stands p = .directory) : d.has p = true := by
  rw [has_iff, h]
  exact Standing.noConfusion

theorem has_of_file {content : List UInt8} (h : d.stands p = .file content) : d.has p = true := by
  rw [has_iff, h]
  exact Standing.noConfusion

theorem hasDirectory_iff : d.hasDirectory p = true ↔ d.stands p = .directory := by
  have h := entry_cases d p
  unfold hasDirectory
  split at h <;> rename_i hstands <;> rw [hstands]
  · obtain ⟨e, h⟩ := h
    simp [h]
  · obtain ⟨time, children, h, -⟩ := h
    simp [h, Tree.isDirectory]
  · obtain ⟨time, h⟩ := h
    simp [h, Tree.isDirectory]

/-- The text of a file that stands where a path leads. -/
theorem readText_of_file {content : List UInt8} (h : d.stands p = .file content) :
    d.readText p = match Text.decode content with
      | .ok cs => .ok (Text.normalizeLineEnds cs)
      | .error e => .error (.encoding e) := by
  have hentry := entry_cases d p
  rw [h] at hentry
  obtain ⟨time, hentry⟩ := hentry
  rw [readText, readBytes, hentry]
  rfl

theorem readText_of_directory (h : d.stands p = .directory) :
    d.readText p = .error (.disk { cause := .isDirectory, path := p }) := by
  have hentry := entry_cases d p
  rw [h] at hentry
  obtain ⟨time, children, hentry, -⟩ := hentry
  rw [readText, readBytes, hentry]
  rfl

/-- A name is among those in a directory if something stands under it. -/
theorem mem_names_iff (h : d.place p = .ok place) : name ∈ d.names p ↔ d.tree.standing (place ++ [name]) ≠ .nothing := by
  have hentry := entry_cases d p
  rw [stands_of_place h] at hentry
  unfold names
  have hbelow : d.tree.standing place ≠ .directory → d.tree.standing (place ++ [name]) = .nothing := fun hne => by
    by_contra hsome
    exact hne (Tree.standing_of_append_cons (q := []) hsome)
  split at hentry <;> rename_i hstanding
  · obtain ⟨e, hentry⟩ := hentry
    rw [hentry, hbelow (by simp [hstanding])]
    simp
  · obtain ⟨time, children, hentry, hfind⟩ := hentry
    rw [hentry, Tree.standing_append (hfind place h), Tree.standing_directory_cons]
    change name ∈ Entries.keys children ↔ _
    cases hget : Entries.get? name children with
    | none => simp [Entries.get?_eq_none_iff.mp hget]
    | some child =>
      have hmem : name ∈ Entries.keys children := by
        by_contra hnot
        simp [Entries.get?_eq_none_iff.mpr hnot] at hget
      cases child <;> simp [hmem, Tree.standing]
  · obtain ⟨time, hentry⟩ := hentry
    rw [hentry, hbelow (by simp [hstanding])]
    simp [Tree.names]

end Disk

end ResponseShapes
