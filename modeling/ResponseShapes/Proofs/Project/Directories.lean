import Mathlib.Data.List.Induction
import ResponseShapes.Proofs.Project.Regenerated

/-! # Making directories

Making a directory with those around it makes some of the directories on its path, and nothing
else. It succeeds exactly if the directory is there afterwards, and trying again changes nothing, also if it failed
halfway (`makeDirectories_spec`). -/

namespace ResponseShapes

namespace Path

/-- The places of the directories on a path. -/
def OnTheWay (p : Path) (place : List String) : Prop :=
  ∃ k, place = withoutDots (p.parts.take k)

theorem OnTheWay.of_parent {p : Path} {place : List String} (h : p.parent.OnTheWay place) : p.OnTheWay place := by
  obtain ⟨k, rfl⟩ := h
  refine ⟨min k (p.parts.length - 1), ?_⟩
  rw [parent, List.dropLast_eq_take, List.take_take]

theorem onTheWay_self (p : Path) : p.OnTheWay (withoutDots p.parts) :=
  ⟨p.parts.length, by rw [List.take_length]⟩

theorem parent_child (p : Path) (name : String) : (p.child name).parent = p := by
  simp [child, parent]

theorem name_child (p : Path) (name : String) : (p.child name).name = name := by
  simp [child, Path.name]

theorem exists_child {p : Path} (h : p.parts ≠ []) : ∃ name, p = p.parent.child name := by
  refine ⟨p.parts.getLast h, ?_⟩
  rw [child, parent, List.dropLast_append_getLast]

theorem parent_eq_self {p : Path} (h : p.parts = []) : p.parent = p := by
  rw [parent, h, List.dropLast_nil, ← h]

end Path

namespace Disk

variable {d d' : Disk} {p : Path} {place : List String} {name : String} {modules : List String → Prop}

/-! ### The path of a name -/

theorem join_child (base p : Path) (name : String) : base.join (p.child name) = (base.join p).child name := by
  unfold Path.join
  by_cases habs : p.isAbsolute
  · rw [if_pos habs, if_pos (show (p.child name).isAbsolute = true from habs)]
  · rw [if_neg habs, if_neg (show ¬(p.child name).isAbsolute = true from habs)]
    simp [Path.child]

theorem place_child (d : Disk) (p : Path) (name : String) : d.place (p.child name) = match d.place p with
    | .ok place => match d.tree.standing place with
      | .nothing => .error .missing
      | .file _ => .error .notDirectory
      | .directory => .ok (if name = ".." then place.dropLast else place ++ [name])
    | .error cause => .error cause := by
  rw [place, place, join_child, Path.child, follow_append]
  cases follow d.tree [] (d.here.join p).parts with
  | error _ => rfl
  | ok place =>
    dsimp only
    rw [follow_cons, List.reverse_reverse]
    cases d.tree.standing place with
    | nothing => rfl
    | file _ => rfl
    | directory =>
      dsimp only
      split <;> simp [follow]

/-- A name of a directory leads into it. -/
theorem place_child_of_directory (hp : d.place p = .ok place) (hdir : d.tree.standing place = .directory)
    (hname : name ≠ "..") : d.place (p.child name) = .ok (place ++ [name]) := by
  rw [place_child, hp]
  dsimp only
  rw [hdir]
  dsimp only
  rw [if_neg hname]

theorem exists_place_child (h : d.stands p = .directory) (name : String) :
    ∃ place, d.place (p.child name) = .ok place := by
  obtain ⟨place, hplace, hstanding⟩ := exists_place_of_stands (p := p) (by rw [h]; exact Standing.noConfusion)
  rw [place_child, hplace]
  dsimp only
  rw [hstanding, h]
  exact ⟨_, rfl⟩

theorem stands_of_place_child (h : d.place (p.child name) = .ok place) : d.stands p = .directory := by
  rw [place_child] at h
  cases hplace : d.place p with
  | error cause =>
    rw [hplace] at h
    cases h
  | ok place' =>
    rw [hplace] at h
    rw [stands_of_place hplace]
    dsimp only at h
    split at h
    · cases h
    · cases h
    · assumption

theorem stands_parent_of_place (habs : p.isAbsolute) (h : d.place p = .ok (place ++ [name])) :
    d.stands p.parent = .directory := by
  have hnil : p.parts ≠ [] := fun hnil => by
    rw [place_of_isAbsolute habs, hnil] at h
    exact List.append_ne_nil_of_right_ne_nil _ (List.cons_ne_nil _ _) (Except.ok.inj h).symm
  obtain ⟨name', hname⟩ := Path.exists_child hnil
  rw [hname] at h
  exact stands_of_place_child h

/-- Whatever a path leads to stands in the directory that the path without its last name leads to. -/
theorem stands_parent (h : d.stands p = .directory) : d.stands p.parent = .directory := by
  by_cases hnil : p.parts = []
  · rw [Path.parent_eq_self hnil, h]
  · obtain ⟨name, hname⟩ := Path.exists_child hnil
    obtain ⟨place, hplace, -⟩ := exists_place_of_stands (p := p) (by rw [h]; exact Standing.noConfusion)
    rw [hname] at hplace
    exact stands_of_place_child hplace

/-! ### One directory -/

theorem ensureDirectory_of_directory (h : d.stands p = .directory) : d.ensureDirectory p = (d, none) := by
  obtain ⟨place, hplace, hstanding⟩ := exists_place_of_stands (p := p) (by rw [h]; exact Standing.noConfusion)
  obtain ⟨time, children, hfind⟩ := Standing.of_eq_directory.mp (hstanding.trans h)
  have hmake : d.makeDirectory p = .error { cause := .taken, path := p } := by
    simp [makeDirectory, about, hplace, hfind, bind, Except.bind]
  rw [ensureDirectory, hmake]
  simp [hasDirectory_iff.mpr h]

/-- Ensuring a directory finds it, makes it in a directory that is there, or fails. -/
theorem ensureDirectory_cases (d : Disk) (p : Path) :
    (d.ensureDirectory p = (d, none) ∧ d.stands p = .directory) ∨
    (∃ place name, d.place p = .ok (place ++ [name]) ∧ d.tree.standing place = .directory ∧
      d.tree.standing (place ++ [name]) = .nothing ∧
      d.ensureDirectory p = (d.put (place ++ [name]) (some (.directory d.clock [])), none)) ∨
    ∃ e, d.ensureDirectory p = (d, some e) ∧ d.stands p ≠ .directory ∧
      (e.cause = .missing → ∀ place, d.place p ≠ .ok place) := by
  cases hplace : d.place p with
  | error cause =>
    have hstands : d.stands p = .nothing := by rw [stands, hplace]
    have hmake : d.makeDirectory p = .error { cause, path := p } := by
      simp [makeDirectory, about, hplace, bind, Except.bind]
    have hno : d.hasDirectory p = false := by
      rw [Bool.eq_false_iff, ne_eq, hasDirectory_iff, hstands]
      exact Standing.noConfusion
    refine Or.inr (Or.inr ⟨{ cause, path := p }, ?_, ?_, fun _ _ h => by cases h⟩)
    · rw [ensureDirectory, hmake, hno]
      simp
    · rw [hstands]
      exact Standing.noConfusion
  | ok place =>
    cases hfind : d.tree.find? place with
    | some t =>
      cases t with
      | directory time children =>
        have hstands : d.stands p = .directory := by rw [stands_of_place hplace, Tree.standing, hfind]; rfl
        exact Or.inl ⟨ensureDirectory_of_directory hstands, hstands⟩
      | file content time =>
        have hstands : d.stands p ≠ .directory := by
          rw [stands_of_place hplace, Tree.standing, hfind]
          exact Standing.noConfusion
        have hmake : d.makeDirectory p = .error { cause := .taken, path := p } := by
          simp [makeDirectory, about, hplace, hfind, bind, Except.bind]
        have hno : d.hasDirectory p = false := by rw [Bool.eq_false_iff, ne_eq, hasDirectory_iff]; exact hstands
        refine Or.inr (Or.inr ⟨{ cause := .taken, path := p }, ?_, hstands, fun h => by cases h⟩)
        rw [ensureDirectory, hmake, hno]
        simp
    | none =>
      have hne : place ≠ [] := by
        rintro rfl
        simp at hfind
      obtain ⟨place, name, rfl⟩ := (List.eq_nil_or_concat' place).resolve_left hne
      have hmake : d.makeDirectory p = .ok (d.put (place ++ [name]) (some (.directory d.clock []))) := by
        simp [makeDirectory, about, hplace, hfind, bind, Except.bind, pure, Except.pure]
      refine Or.inr (Or.inl ⟨place, name, rfl, standing_of_follow (fun h => absurd rfl h) hplace, ?_, ?_⟩)
      · rw [Tree.standing, hfind]
        rfl
      · rw [ensureDirectory, hmake]

/-- A directory that is made is there, and nothing else was changed. -/
theorem ensureDirectory_made {made : List String → Prop} (modules : List String → Prop)
    (hplace : d.place p = .ok (place ++ [name])) (hdir : d.tree.standing place = .directory)
    (hnone : d.tree.standing (place ++ [name]) = .nothing) (hmade : made (place ++ [name])) (time : Int) :
    Regenerated modules made d (d.put (place ++ [name]) (some (.directory time []))) ∧
      (d.put (place ++ [name]) (some (.directory time []))).stands p = .directory := by
  have hregen : Regenerated modules made d (d.put (place ++ [name]) (some (.directory time []))) :=
    Regenerated.put hdir (dots_notMem_follow List.not_mem_nil hplace) (Tree.bare_directory time)
      (by rw [hnone]; exact Standing.noConfusion) (fun _ => ⟨hmade, hnone⟩) (fun h => absurd rfl h)
  refine ⟨hregen, ?_⟩
  have hbare : Tree.Bare (d.tree.find? (place ++ [name])) :=
    Tree.bare_of_standing (by rw [hnone]; exact Standing.noConfusion)
  rw [stands_of_place (hregen.place_eq hplace)]
  change (d.tree.set _ (place ++ [name])).standing (place ++ [name]) = _
  rw [Tree.standing_set hdir (Tree.bare_directory time) hbare, if_pos rfl]
  rfl

/-- Whatever path a directory has, ensuring it only makes it. -/
theorem ensureDirectory_regenerated (d : Disk) (p : Path) :
    Regenerated (fun _ => False) (fun _ => True) d (d.ensureDirectory p).1 ∧ (d.ensureDirectory p).1.clock = d.clock ∧
      ((d.ensureDirectory p).2 = none → (d.ensureDirectory p).1.stands p = .directory) := by
  obtain ⟨h, hdir⟩ | ⟨place, name, hplace, hdir, hnone, h⟩ | ⟨e, h, -, -⟩ := d.ensureDirectory_cases p <;> rw [h]
  · exact ⟨.refl _ _ d, rfl, fun _ => hdir⟩
  · obtain ⟨hregen, hstands⟩ : Regenerated (fun _ => False) (fun _ => True) d _ ∧ _ :=
      ensureDirectory_made _ hplace hdir hnone trivial d.clock
    exact ⟨hregen, rfl, fun _ => hstands⟩
  · exact ⟨.refl _ _ d, rfl, nofun⟩

/-! ### Directories around each other -/

theorem makeDirectoriesFrom_zero (d : Disk) (p : Path) : d.makeDirectoriesFrom 0 p = d.ensureDirectory p := rfl

theorem makeDirectoriesFrom_of_none {steps : Nat} (h : d.ensureDirectory p = (d', none)) :
    d.makeDirectoriesFrom (steps + 1) p = (d', none) := by
  rw [makeDirectoriesFrom, h]

theorem makeDirectoriesFrom_of_failed (steps : Nat) {e : DiskError} (h : d.ensureDirectory p = (d', some e))
    (hcause : e.cause ≠ .missing) : d.makeDirectoriesFrom (steps + 1) p = (d', some e) := by
  rw [makeDirectoriesFrom, h]
  exact if_neg hcause

theorem makeDirectoriesFrom_of_missing (steps : Nat) {e : DiskError} (h : d.ensureDirectory p = (d', some e))
    (hcause : e.cause = .missing) :
    d.makeDirectoriesFrom (steps + 1) p = match d'.makeDirectoriesFrom steps p.parent with
      | (d, none) => d.ensureDirectory p
      | (d, some e) => (d, some e) := by
  rw [makeDirectoriesFrom, h]
  exact if_pos hcause

/-- Whatever path a directory has, making it and those around it only makes directories. -/
theorem makeDirectoriesFrom_regenerated (d : Disk) (steps : Nat) (p : Path) :
    Regenerated (fun _ => False) (fun _ => True) d (d.makeDirectoriesFrom steps p).1 ∧
      (d.makeDirectoriesFrom steps p).1.clock = d.clock ∧
      ((d.makeDirectoriesFrom steps p).2 = none → (d.makeDirectoriesFrom steps p).1.stands p = .directory) := by
  induction steps generalizing d p with
  | zero => exact d.ensureDirectory_regenerated p
  | succ steps ih =>
    obtain ⟨hregen, hclock, hstands⟩ := d.ensureDirectory_regenerated p
    rcases hensure : d.ensureDirectory p with ⟨d', _ | e⟩ <;> rw [hensure] at hregen hclock hstands
    · rw [makeDirectoriesFrom_of_none hensure]
      exact ⟨hregen, hclock, hstands⟩
    by_cases hcause : e.cause = .missing
    case neg =>
      rw [makeDirectoriesFrom_of_failed steps hensure hcause]
      exact ⟨hregen, hclock, hstands⟩
    -- The directory around it is missing, so that one is made first.
    obtain ⟨hregen₁, hclock₁, -⟩ := ih d' p.parent
    rw [makeDirectoriesFrom_of_missing steps hensure hcause]
    rcases hparent : d'.makeDirectoriesFrom steps p.parent with ⟨d₁, _ | e₁⟩ <;> rw [hparent] at hregen₁ hclock₁
    · obtain ⟨hregen₂, hclock₂, hstands₂⟩ := d₁.ensureDirectory_regenerated p
      exact ⟨(hregen.trans hregen₁).trans hregen₂, hclock₂.trans (hclock₁.trans hclock), hstands₂⟩
    · exact ⟨hregen.trans hregen₁, hclock₁.trans hclock, nofun⟩

/-- A directory that could be made is there. -/
theorem stands_of_makeDirectories (h : d.makeDirectories p = (d', none)) : d'.stands p = .directory := by
  have hstands := (d.makeDirectoriesFrom_regenerated p.parts.length p).2.2
  rw [makeDirectories] at h
  rw [h] at hstands
  exact hstands rfl

/-- What making directories does, whether it succeeds or not. -/
structure MakesDirectories (modules : List String → Prop) (steps : Nat) (p : Path) (d d' : Disk)
    (failure : Option DiskError) : Prop where
  result : d.makeDirectoriesFrom steps p = (d', failure)
  regenerated : Regenerated modules p.OnTheWay d d'
  success : failure = none ↔ d'.stands p = .directory
  /-- Trying again changes nothing, at whatever time. -/
  again : ∀ clock, ∃ failure', (d'.later clock).makeDirectoriesFrom steps p = (d'.later clock, failure')

theorem makeDirectoriesFrom_of_directory (steps : Nat) (h : d.stands p = .directory) :
    d.makeDirectoriesFrom steps p = (d, none) := by
  cases steps with
  | zero => exact ensureDirectory_of_directory h
  | succ steps => exact makeDirectoriesFrom_of_none (ensureDirectory_of_directory h)

theorem MakesDirectories.of_found (modules : List String → Prop) (steps : Nat) (h : d.stands p = .directory) :
    MakesDirectories modules steps p d d none :=
  ⟨makeDirectoriesFrom_of_directory steps h, .refl _ _ d, iff_of_true rfl h, fun clock =>
    ⟨none, makeDirectoriesFrom_of_directory (d := d.later clock) steps h⟩⟩

/-- Making a directory whose surroundings are there comes to an end with it, or without any change. -/
theorem makesDirectories_ensure (modules : List String → Prop) (d : Disk) (habs : p.isAbsolute) :
    (d.stands p = .directory ∧ d.ensureDirectory p = (d, none)) ∨
    (∃ d', d.ensureDirectory p = (d', none) ∧ Regenerated modules p.OnTheWay d d' ∧ d'.stands p = .directory ∧
      d.stands p.parent = .directory) ∨
    ∃ e, d.ensureDirectory p = (d, some e) ∧ d.stands p ≠ .directory ∧
      (e.cause = .missing → d.stands p.parent ≠ .directory) := by
  obtain ⟨h, hdir⟩ | ⟨place, name, hplace, hdir, hnone, h⟩ | ⟨e, h, hdir, hmissing⟩ := d.ensureDirectory_cases p
  · exact Or.inl ⟨hdir, h⟩
  · have hmade : p.OnTheWay (place ++ [name]) := place_eq habs hplace ▸ p.onTheWay_self
    obtain ⟨hregen, hstands⟩ := ensureDirectory_made modules hplace hdir hnone hmade d.clock
    exact Or.inr (Or.inl ⟨_, h, hregen, hstands, stands_parent_of_place habs hplace⟩)
  · refine Or.inr (Or.inr ⟨e, h, hdir, fun hcause hparent => ?_⟩)
    by_cases hnil : p.parts = []
    · rw [Path.parent_eq_self hnil] at hparent
      exact hdir hparent
    · obtain ⟨name, hname⟩ := Path.exists_child hnil
      obtain ⟨place, hplace⟩ := exists_place_child hparent name
      exact hmissing hcause place (hname ▸ hplace)

theorem makeDirectory_later {e : DiskError} (h : d.makeDirectory p = .error e) (clock : Int) :
    (d.later clock).makeDirectory p = .error e := by
  have hplace : (d.later clock).place p = d.place p := rfl
  unfold makeDirectory at h ⊢
  rw [hplace]
  cases hp : d.place p with
  | error cause =>
    rw [hp] at h
    exact h
  | ok place =>
    cases hfind : d.tree.find? place with
    | none => simp [about, bind, Except.bind, hp, hfind, pure, Except.pure] at h
    | some t =>
      simp only [about, bind, Except.bind, hp, hfind] at h
      simpa [about, bind, Except.bind, later, hfind] using h

/-- A directory that cannot be made cannot be made at another time. -/
theorem ensureDirectory_later {e : DiskError} (h : d.ensureDirectory p = (d', some e)) (clock : Int) :
    (d.later clock).ensureDirectory p = (d.later clock, some e) := by
  have hdir : (d.later clock).hasDirectory p = d.hasDirectory p := rfl
  unfold ensureDirectory at h ⊢
  cases hmake : d.makeDirectory p with
  | ok d' => simp [hmake] at h
  | error e' =>
    rw [hmake] at h
    rw [makeDirectory_later hmake clock]
    dsimp only at h ⊢
    rw [hdir, (Prod.mk.inj h).2]

theorem makeDirectoriesFrom_spec (modules : List String → Prop) (steps : Nat) (p : Path) (d : Disk)
    (habs : p.isAbsolute) : ∃ d' failure, MakesDirectories modules steps p d d' failure := by
  induction steps generalizing p d with
  | zero =>
    obtain ⟨hdir, -⟩ | ⟨d', h, hregen, hstands, -⟩ | ⟨e, h, hdir, -⟩ := makesDirectories_ensure modules d habs
    · exact ⟨d, none, .of_found modules 0 hdir⟩
    · exact ⟨d', none, h, hregen, iff_of_true rfl hstands, fun clock =>
        ⟨none, ensureDirectory_of_directory (d := d'.later clock) hstands⟩⟩
    · exact ⟨d, some e, h, .refl _ _ d, iff_of_false (Option.some_ne_none _) hdir, fun clock =>
        ⟨some e, ensureDirectory_later h clock⟩⟩
  | succ steps ih =>
    obtain ⟨hdir, -⟩ | ⟨d', h, hregen, hstands, -⟩ | ⟨e, h, hdir, -⟩ := makesDirectories_ensure modules d habs
    · exact ⟨d, none, .of_found modules _ hdir⟩
    · exact ⟨d', none, makeDirectoriesFrom_of_none h, hregen, iff_of_true rfl hstands,
        (MakesDirectories.of_found modules _ hstands).again⟩
    by_cases hcause : e.cause = .missing
    case neg =>
      have hfailed := makeDirectoriesFrom_of_failed steps h hcause
      exact ⟨d, some e, hfailed, .refl _ _ d, iff_of_false (Option.some_ne_none _) hdir, fun clock =>
        ⟨some e, makeDirectoriesFrom_of_failed steps (ensureDirectory_later h clock) hcause⟩⟩
    -- The directory around it is missing, so that one is made first.
    obtain ⟨d₁, failure, hparent⟩ := ih p.parent d habs
    have hresult := makeDirectoriesFrom_of_missing steps h hcause
    rw [hparent.result] at hresult
    have hregen : Regenerated modules p.OnTheWay d d₁ := hparent.regenerated.mono (fun _ => id) fun _ => .of_parent
    cases failure with
    | some e₁ =>
      have hno : d₁.stands p.parent ≠ .directory := fun hyes => nomatch hparent.success.mpr hyes
      have hno' : d₁.stands p ≠ .directory := fun hyes => hno (stands_parent hyes)
      refine ⟨d₁, some e₁, hresult, hregen, iff_of_false (Option.some_ne_none _) hno', fun clock => ?_⟩
      obtain ⟨hdir₁, -⟩ | ⟨d₂, -, -, -, hdir₁⟩ | ⟨e₂, h₂, -, -⟩ := makesDirectories_ensure modules (d₁.later clock) habs
      · exact absurd hdir₁ hno'
      · exact absurd hdir₁ hno
      by_cases hcause₂ : e₂.cause = .missing
      case neg => exact ⟨some e₂, makeDirectoriesFrom_of_failed steps h₂ hcause₂⟩
      obtain ⟨failure, hagain⟩ := hparent.again clock
      obtain ⟨d₃, failure₃, hspec⟩ := ih p.parent (d₁.later clock) habs
      obtain ⟨rfl, rfl⟩ := Prod.mk.inj (hspec.result.symm.trans hagain)
      obtain ⟨e₃, rfl⟩ := Option.ne_none_iff_exists'.mp fun hnone => hno (hspec.success.mp hnone)
      refine ⟨some e₃, ?_⟩
      rw [makeDirectoriesFrom_of_missing steps h₂ hcause₂, hagain]
    | none =>
      have hyes : d₁.stands p.parent = .directory := hparent.success.mp rfl
      obtain ⟨hdir₁, h₁⟩ | ⟨d₂, h₁, hregen₂, hstands, -⟩ | ⟨e₁, h₁, hdir₁, hmissing⟩ :=
        makesDirectories_ensure modules d₁ habs
      · exact ⟨d₁, none, hresult.trans h₁, hregen, iff_of_true rfl hdir₁,
          (MakesDirectories.of_found modules _ hdir₁).again⟩
      · exact ⟨d₂, none, hresult.trans h₁, hregen.trans hregen₂, iff_of_true rfl hstands,
          (MakesDirectories.of_found modules _ hstands).again⟩
      · have hcause₁ : e₁.cause ≠ .missing := fun hcause₁ => hmissing hcause₁ hyes
        exact ⟨d₁, some e₁, hresult.trans h₁, hregen, iff_of_false (Option.some_ne_none _) hdir₁, fun clock =>
          ⟨some e₁, makeDirectoriesFrom_of_failed steps (ensureDirectory_later h₁ clock) hcause₁⟩⟩

/-- Making directories makes directories on the path; it succeeds exactly if the directory is there afterwards, and
    then, as after a failure, trying again changes nothing. -/
theorem makeDirectories_spec (modules : List String → Prop) (d : Disk) (habs : p.isAbsolute) :
    ∃ d' failure, MakesDirectories modules p.parts.length p d d' failure :=
  makeDirectoriesFrom_spec modules p.parts.length p d habs

/-- A directory in one that is there can be made if no file stands in its place. -/
theorem ensureDirectory_of_open (habs : p.isAbsolute) (hparent : d.stands p.parent = .directory)
    (hopen : ∀ content, d.tree.standing (Path.withoutDots p.parts) ≠ .file content) :
    (d.ensureDirectory p).2 = none := by
  by_cases hnil : p.parts = []
  · rw [Path.parent_eq_self hnil] at hparent
    rw [ensureDirectory_of_directory hparent]
  obtain ⟨name, hname⟩ := Path.exists_child hnil
  obtain ⟨place, hplace⟩ := exists_place_child hparent name
  rw [← hname] at hplace
  obtain rfl := place_eq habs hplace
  cases hfind : d.tree.find? (Path.withoutDots p.parts) with
  | none =>
    have hmake : d.makeDirectory p = .ok (d.put (Path.withoutDots p.parts) (some (.directory d.clock []))) := by
      simp [makeDirectory, about, hplace, hfind, bind, Except.bind, pure, Except.pure]
    rw [ensureDirectory, hmake]
  | some t =>
    have hstands := stands_of_place hplace
    rw [Tree.standing, hfind] at hstands
    cases t with
    | directory time children => rw [ensureDirectory_of_directory hstands]
    | file content time => exact absurd (by rw [Tree.standing, hfind]; rfl) (hopen content)

theorem stands_of_nil (habs : p.isAbsolute) (hroot : d.tree.standing [] = .directory) (hnil : p.parts = []) :
    d.stands p = .directory := by
  have hplace : d.place p = .ok [] := by
    rw [place_of_isAbsolute habs, hnil]
    rfl
  rw [stands_of_place hplace, hroot]

/-- A directory can be made if no file stands on the way to it. -/
theorem makeDirectoriesFrom_of_open {steps : Nat} (habs : p.isAbsolute) (hroot : d.tree.standing [] = .directory)
    (hopen : ∀ place, p.OnTheWay place → ∀ content, d.tree.standing place ≠ .file content)
    (hsteps : p.parts.length ≤ steps) : (d.makeDirectoriesFrom steps p).2 = none := by
  induction steps generalizing p with
  | zero =>
    have hstands := stands_of_nil habs hroot (List.length_eq_zero_iff.mp (Nat.le_zero.mp hsteps))
    rw [makeDirectoriesFrom_zero, ensureDirectory_of_directory hstands]
  | succ steps ih =>
    by_cases hparent : d.stands p.parent = .directory
    · obtain ⟨d', h⟩ : ∃ d', d.ensureDirectory p = (d', none) :=
        ⟨_, Prod.ext rfl (ensureDirectory_of_open habs hparent (hopen _ p.onTheWay_self))⟩
      rw [makeDirectoriesFrom_of_none h]
    -- The directory around it is not there, and as no file is in the way it is missing.
    have hmissing : d.place p = .error .missing := by
      cases hplace : d.place p with
      | ok place =>
        refine absurd ?_ hparent
        by_cases hnil : p.parts = []
        · rw [Path.parent_eq_self hnil, stands_of_nil habs hroot hnil]
        · obtain ⟨name, hname⟩ := Path.exists_child hnil
          rw [hname] at hplace
          exact stands_of_place_child hplace
      | error cause =>
        rw [place_of_isAbsolute habs] at hplace
        refine congrArg Except.error ((follow_error hplace).resolve_right ?_)
        rintro ⟨k, content, hfile⟩
        exact hopen _ ⟨k, rfl⟩ content hfile
    have hensure : d.ensureDirectory p = (d, some { cause := .missing, path := p }) := by
      have hmake : d.makeDirectory p = .error { cause := .missing, path := p } := by
        simp [makeDirectory, about, hmissing, bind, Except.bind]
      rw [ensureDirectory, hmake]
      simp
    have hless : p.parts.dropLast.length ≤ steps := by rw [List.length_dropLast]; omega
    have hmade := ih (p := p.parent) habs (fun place h => hopen place h.of_parent) hless
    obtain ⟨hregen, -, hstands⟩ := d.makeDirectoriesFrom_regenerated steps p.parent
    rw [makeDirectoriesFrom_of_missing steps hensure rfl]
    rcases hfrom : d.makeDirectoriesFrom steps p.parent with ⟨d₁, failure⟩
    rw [hfrom] at hmade hregen hstands
    obtain rfl : failure = none := hmade
    exact ensureDirectory_of_open habs (hstands rfl) fun content hfile =>
      hopen _ p.onTheWay_self content ((hregen.others _ not_false content).mp hfile)

theorem makeDirectories_of_open (habs : p.isAbsolute) (hroot : d.tree.standing [] = .directory)
    (hopen : ∀ place, p.OnTheWay place → ∀ content, d.tree.standing place ≠ .file content) :
    (d.makeDirectories p).2 = none :=
  makeDirectoriesFrom_of_open habs hroot hopen (Nat.le_refl _)

/-- All places on the way to a directory that is there are directories. -/
theorem standing_onTheWay (habs : p.isAbsolute) (h : d.stands p = .directory) (hplace : p.OnTheWay place) :
    d.tree.standing place = .directory := by
  obtain ⟨root, parts⟩ := p
  induction parts using List.reverseRecOn generalizing place with
  | nil =>
    obtain ⟨k, rfl⟩ := hplace
    obtain ⟨place, hfollow, hstanding⟩ := exists_place_of_stands (d := d) (by rw [h]; exact Standing.noConfusion)
    obtain rfl := place_eq habs hfollow
    rw [List.take_nil, hstanding, h]
  | append_singleton parts name ih =>
    obtain ⟨k, rfl⟩ := hplace
    by_cases hk : k ≤ parts.length
    · have hparent := stands_parent h
      rw [Path.parent, List.dropLast_concat] at hparent
      rw [List.take_append_of_le_length hk]
      exact ih habs hparent ⟨k, rfl⟩
    · obtain ⟨place, hfollow, hstanding⟩ := exists_place_of_stands (d := d) (by rw [h]; exact Standing.noConfusion)
      obtain rfl := place_eq habs hfollow
      rw [List.take_of_length_le (by rw [List.length_append, List.length_singleton]; omega), hstanding, h]

/-- A directory can be made exactly if no file stands on the way to it. -/
theorem makeDirectories_iff_open (habs : p.isAbsolute) (hroot : d.tree.standing [] = .directory) :
    (d.makeDirectories p).2 = none ↔ ∀ place, p.OnTheWay place → ∀ content, d.tree.standing place ≠ .file content := by
  refine ⟨fun h place hplace content hfile => ?_, makeDirectories_of_open habs hroot⟩
  obtain ⟨hregen, -, hstands⟩ := d.makeDirectoriesFrom_regenerated p.parts.length p
  have hdir := standing_onTheWay habs (hstands h) hplace
  rw [(hregen.others place not_false content).mpr hfile] at hdir
  cases hdir

/-- What cannot be made cannot be made once more, at whatever time, and nothing changes. -/
theorem MakesDirectories.stuck {steps : Nat} {e : DiskError} (habs : p.isAbsolute)
    (h : MakesDirectories modules steps p d d' (some e)) (clock : Int) :
    ∃ e', MakesDirectories modules steps p (d'.later clock) (d'.later clock) (some e') := by
  obtain ⟨failure, hagain⟩ := h.again clock
  obtain ⟨d₂, failure₂, hspec⟩ := makeDirectoriesFrom_spec modules steps p (d'.later clock) habs
  obtain ⟨rfl, rfl⟩ := Prod.mk.inj (hspec.result.symm.trans hagain)
  cases failure₂ with
  | some e' => exact ⟨e', hspec⟩
  | none => exact absurd (h.success.mpr (hspec.success.mp rfl)) (Option.some_ne_none _)

end Disk

end ResponseShapes
