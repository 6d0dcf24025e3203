import ResponseShapes.Proofs.Project.Disk

/-! # What outputs leave as it is

`Regenerated modules made d d'`: from `d` to `d'` only files at the places of `modules` were written or removed, and only
directories at the places of `made` were made. The relation composes; it keeps every other file and every directory,
hence what paths lead to, and it keeps what a walk takes below a directory, as long as the walk admits no module
(`Regenerated.walk`). -/

namespace ResponseShapes

/-- The files at another time. -/
def Disk.later (d : Disk) (clock : Int) : Disk :=
  { d with clock }

/-- Between the disks only modules were written or removed and only some directories made. -/
structure Disk.Regenerated (modules made : List String → Prop) (d d' : Disk) : Prop where
  here : d'.here = d.here
  proper : d.tree.Proper → d'.tree.Proper
  directories : ∀ q, d.tree.standing q = .directory → d'.tree.standing q = .directory
  new : ∀ q, d'.tree.standing q = .directory → d.tree.standing q = .directory ∨ made q
  files : ∀ q, ¬modules q → d'.tree.file? q = d.tree.file? q
  /-- A walk below a directory that was there takes the same places, apart from modules. -/
  walks : d.tree.Proper → ∀ top time children, d.tree.find? top = some (.directory time children) →
    ∃ t, d'.tree.find? top = some t ∧ t.isDirectory = true ∧ ∀ enters takes admits,
      (∀ rel, modules (top ++ rel) → ¬admits rel) →
      (t.walk enters takes []).filter admits = ((Tree.directory time children).walk enters takes []).filter admits

namespace Disk.Regenerated

variable {modules made : List String → Prop} {d d' d'' : Disk} {place q : List String} {p : Path} {name : String}
  {new : Option Tree}

theorem refl (modules made : List String → Prop) (d : Disk) : Regenerated modules made d d where
  here := rfl
  proper := id
  directories := fun _ => id
  new := fun _ => Or.inl
  files := fun _ _ => rfl
  walks := fun _ _ _ _ h => ⟨_, h, rfl, fun _ _ _ _ => rfl⟩

theorem later (h : Regenerated modules made d d') (clock : Int) : Regenerated modules made d (d'.later clock) :=
  ⟨h.here, h.proper, h.directories, h.new, h.files, h.walks⟩

theorem trans (h : Regenerated modules made d d') (h' : Regenerated modules made d' d'') :
    Regenerated modules made d d'' where
  here := h'.here.trans h.here
  proper := fun hd => h'.proper (h.proper hd)
  directories := fun q hq => h'.directories q (h.directories q hq)
  new := fun q hq => (h'.new q hq).elim (h.new q) Or.inr
  files := fun q hq => (h'.files q hq).trans (h.files q hq)
  walks := fun hd top time children hfind => by
    obtain ⟨t, ht, hdir, hwalk⟩ := h.walks hd top time children hfind
    cases t with
    | file _ _ => cases hdir
    | directory time' children' =>
      obtain ⟨t', ht', hdir', hwalk'⟩ := h'.walks (h.proper hd) top time' children' ht
      exact ⟨t', ht', hdir', fun enters takes admits hadmits =>
        (hwalk' enters takes admits hadmits).trans (hwalk enters takes admits hadmits)⟩

theorem mono {modules' made' : List String → Prop} (hmodules : ∀ q, modules q → modules' q)
    (hmade : ∀ q, made q → made' q) (h : Regenerated modules made d d') : Regenerated modules' made' d d' where
  here := h.here
  proper := h.proper
  directories := h.directories
  new := fun q hq => (h.new q hq).imp_right (hmade q)
  files := fun q hq => h.files q fun hmod => hq (hmodules q hmod)
  walks := fun hd top time children hfind => by
    obtain ⟨t, ht, hdir, hwalk⟩ := h.walks hd top time children hfind
    exact ⟨t, ht, hdir, fun enters takes admits hadmits =>
      hwalk enters takes admits fun rel hrel => hadmits rel (hmodules _ hrel)⟩

theorem others (h : Regenerated modules made d d') (q : List String) (hq : ¬modules q) (content : List UInt8) :
    d'.tree.standing q = .file content ↔ d.tree.standing q = .file content := by
  rw [Tree.standing_eq_file, Tree.standing_eq_file, h.files q hq]

/-- One change: a module is written or removed, or a directory is made, in a directory that is there. -/
theorem put (hplace : d.tree.standing place = .directory) (hdots : ".." ∉ place ++ [name])
    (hnew : Tree.Bare new) (hold : d.tree.standing (place ++ [name]) ≠ .directory)
    (hmade : Standing.of new = .directory → made (place ++ [name]) ∧ d.tree.standing (place ++ [name]) = .nothing)
    (hmodule : Standing.of new ≠ .directory → modules (place ++ [name])) :
    Regenerated modules made d (d.put (place ++ [name]) new) := by
  have hbare := Tree.bare_of_standing hold
  have hproper : ∀ u, new = some u → u.Proper := by
    rintro u rfl
    cases u with
    | file _ _ => exact trivial
    | directory time children =>
      obtain rfl : children = [] := List.map_eq_nil_iff.mp (hnew _ rfl)
      exact Tree.proper_directory.mpr ⟨List.nodup_nil, List.forall_mem_nil _⟩
  have hstanding : ∀ q, (d.put (place ++ [name]) new).tree.standing q =
      if q = place ++ [name] then Standing.of new else d.tree.standing q := Tree.standing_set hplace hnew hbare
  refine ⟨rfl, fun hd => hd.set hdots hproper, fun q hq => ?_, fun q hq => ?_, fun q hq => ?_, ?_⟩
  · rw [hstanding, if_neg, hq]
    rintro rfl
    exact hold hq
  · rw [hstanding] at hq
    split at hq
    · rename_i heq
      exact Or.inr (heq ▸ (hmade hq).1)
    · exact Or.inl hq
  · refine (Tree.file?_set hplace hnew hbare q).trans ?_
    split
    · rename_i heq
      subst heq
      by_cases hdir : Standing.of new = .directory
      · obtain ⟨time, children, rfl⟩ := Standing.of_eq_directory.mp hdir
        rw [Tree.file?_eq, Standing.of_eq_nothing.mp (hmade hdir).2]
        rfl
      · exact absurd (hmodule hdir) hq
    · rfl
  · intro hd top time children hfind
    by_cases hunder : top <+: place ++ [name]
    · obtain ⟨rel, hrel⟩ := hunder
      have hne : rel ≠ [] := by
        rintro rfl
        rw [List.append_nil] at hrel
        exact hold (by simp [Tree.standing, ← hrel, hfind])
      obtain ⟨rel, name', rfl⟩ : ∃ rel' name', rel = rel' ++ [name'] := (List.eq_nil_or_concat' rel).resolve_left hne
      obtain ⟨children', hset⟩ := Tree.exists_set_directory new time children (rel ++ [name'])
      refine ⟨(Tree.directory time children).set new (rel ++ [name']), ?_, ?_, fun enters takes admits hadmits => ?_⟩
      · change (d.tree.set new (place ++ [name])).find? top = _
        rw [← hrel, Tree.find?_set_append hne, hfind]
        rfl
      · rw [hset]
        rfl
      · refine Tree.filter_walk_set [] (hd.find? hfind).1 hnew ?_ fun hfile => ?_
        · rw [← hrel, Tree.find?_append, hfind] at hbare
          exact hbare
        · refine hadmits _ ?_
          rw [List.nil_append, hrel]
          refine hmodule fun hdir => ?_
          obtain ⟨content, hfile | hfile⟩ := hfile
          · rw [hdir] at hfile
            cases hfile
          · have hnone := (hmade hdir).2
            rw [← hrel, Tree.standing_append hfind, hfile] at hnone
            cases hnone
    · have hother : ¬place ++ [name] <+: top := by
        rintro ⟨rel, rfl⟩
        cases rel with
        | nil => exact hunder (by simp)
        | cons name' rel =>
          have hsome : d.tree.standing (place ++ [name] ++ name' :: rel) ≠ .nothing := by
            rw [Tree.standing, hfind]
            exact Standing.noConfusion
          exact hold (Tree.standing_of_append_cons hsome)
      refine ⟨.directory time children, ?_, rfl, fun _ _ _ _ => rfl⟩
      change (d.tree.set new (place ++ [name])).find? top = _
      rw [Tree.find?_set_of_not_prefix hother hunder, hfind]

/-! ### Paths -/

theorem place_eq (h : Regenerated modules made d d') (hplace : d.place p = .ok place) : d'.place p = .ok place := by
  unfold Disk.place at hplace ⊢
  rw [h.here]
  exact follow_mono h.directories hplace

theorem stands_directory (h : Regenerated modules made d d') (hp : d.stands p = .directory) : d'.stands p = .directory := by
  obtain ⟨place, hplace, hstanding⟩ := exists_place_of_stands (p := p) (by rw [hp]; exact Standing.noConfusion)
  rw [stands_of_place (h.place_eq hplace), h.directories place (hstanding.trans hp)]

/-- A file that is no module is where it was. -/
theorem stands_file {content : List UInt8} (h : Regenerated modules made d d')
    (hp : d.stands p = .file content) (hplace : ∀ place, d.place p = .ok place → ¬modules place) :
    d'.stands p = .file content := by
  obtain ⟨place, hfollow, hstanding⟩ := exists_place_of_stands (p := p) (by rw [hp]; exact Standing.noConfusion)
  rw [stands_of_place (h.place_eq hfollow)]
  exact (h.others place (hplace place hfollow) content).mpr (hstanding.trans hp)

end Disk.Regenerated

end ResponseShapes
