import ResponseShapes.Proofs.Pass.Legible
import ResponseShapes.Proofs.Pass.Listing
import ResponseShapes.Proofs.Pass.Repeat

/-! # Files that are taken away

`Disk.without` takes files away. Between a disk and the same disk without some files that are no texts, an operation makes
no difference as long as its path leads past the places of these: it comes to the same on both sides, or to the same
error, and the sides still differ in nothing else (`Disk.Lacks`). -/

namespace ResponseShapes

variable {bad : List (List String)} {modules : List String → Prop} {d₀ d d' : Disk} {p around : Path} {name : String}
  {place q : List String} {new : Option Tree}

/-- What is put at a place is proper if nothing lies below it. -/
theorem Tree.proper_of_bare (h : Bare new) : ∀ u, new = some u → u.Proper := by
  rintro u rfl
  cases u with
  | file _ _ => exact trivial
  | directory time children =>
    obtain rfl : children = [] := List.map_eq_nil_iff.mp (h _ rfl)
    exact proper_directory.mpr ⟨List.nodup_nil, List.forall_mem_nil _⟩

/-- The same paths with one root have one order only. -/
theorem Path.eq_of_perm_of_root {ps qs : List Path} {root : String} (hroot : ∀ p ∈ ps, p.root = root) (h : ps.Perm qs)
    (hps : ps.Pairwise (le · · = true)) (hqs : qs.Pairwise (le · · = true)) : ps = qs := by
  refine h.eq_of_pairwise (fun p q hp hq hpq hqp => ?_) hps hqs
  have hsame : p.root = q.root := (hroot p hp).trans (hroot q (h.mem_iff.mpr hq)).symm
  by_contra hne
  exact lt_asymm (parts_lt_of_le hsame hpq hne) (parts_lt_of_le hsame.symm hqp (Ne.symm hne))

theorem Standing.fault?_eq_some_iff {st : Standing} {e : Text.EncodingError} :
    st.fault? = some e ↔ ∃ content, st = .file content ∧ Text.decode content = .error e := by
  constructor
  · intro h
    cases st with
    | nothing => cases h
    | directory => cases h
    | file content =>
      refine ⟨content, rfl, ?_⟩
      rw [fault?] at h
      cases hdecode : Text.decode content with
      | ok cs =>
        rw [hdecode] at h
        cases h
      | error e' =>
        rw [hdecode] at h
        rw [Option.some.inj h]
  · rintro ⟨content, rfl, hdecode⟩
    rw [fault?, hdecode]

/-- What is read and is no text stands there as such a file. -/
theorem Disk.readText_eq_encoding_iff {e : Text.EncodingError} :
    d.readText p = .error (.encoding e) ↔ (d.stands p).fault? = some e := by
  rw [Standing.fault?_eq_some_iff]
  constructor
  · intro h
    cases hstands : d.stands p with
    | nothing =>
      have hentry := entry_cases d p
      rw [hstands] at hentry
      obtain ⟨e', hentry⟩ := hentry
      rw [readText, readBytes, hentry] at h
      cases h
    | directory =>
      rw [readText_of_directory hstands] at h
      cases h
    | file content =>
      refine ⟨content, rfl, ?_⟩
      rw [readText_of_file hstands] at h
      cases hdecode : Text.decode content with
      | ok cs =>
        rw [hdecode] at h
        cases h
      | error e' =>
        rw [hdecode] at h
        cases h
        rfl
  · rintro ⟨content, hfile, hdecode⟩
    rw [readText_of_file hfile, hdecode]

/-- The files without those at some places. -/
def Disk.without (d : Disk) (places : List (List String)) : Disk :=
  places.foldl (fun d place => d.put place none) d

namespace Disk

/-! ### Taking files away -/

/-- What stands there lies in a directory, and is none. -/
structure Removable (d : Disk) (place : List String) : Prop where
  inside : ∃ around name, place = around ++ [name] ∧ d.tree.standing around = .directory
  dots : ".." ∉ place
  other : d.tree.standing place ≠ .directory

theorem removable_of_fault (hd : d.tree.Proper) (hroot : d.tree.standing [] = .directory) {e : Text.EncodingError}
    (h : (d.tree.standing place).fault? = some e) : d.Removable place := by
  obtain ⟨content, hfile, -⟩ := Standing.fault?_eq_some_iff.mp h
  refine ⟨?_, ?_, by rw [hfile]; exact Standing.noConfusion⟩
  · obtain rfl | ⟨around, name, rfl⟩ := List.eq_nil_or_concat' place
    · rw [hroot] at hfile
      cases hfile
    · have hsome : d.tree.standing (around ++ name :: []) ≠ .nothing := by
        rw [hfile]
        exact Standing.noConfusion
      exact ⟨around, name, rfl, Tree.standing_of_append_cons hsome⟩
  · obtain ⟨time, hfind⟩ := Standing.of_eq_file.mp hfile
    exact (hd.find? hfind).2

/-- What one removal leaves. -/
theorem Removable.put_none (h : d.Removable place) : (∀ q, (d.put place none).tree.standing q =
      if q = place then .nothing else d.tree.standing q) ∧
    (∀ q, (d.put place none).tree.file? q = if q = place then none else d.tree.file? q) ∧
    ∀ q, d.Removable q → (d.put place none).Removable q := by
  obtain ⟨around, name, rfl, hdir⟩ := h.inside
  have hold := Tree.bare_of_standing h.other
  have hset : ∀ q, (d.put (around ++ [name]) none).tree.standing q = _ := Tree.standing_set hdir Tree.bare_none hold
  refine ⟨hset, Tree.file?_set hdir Tree.bare_none hold, fun q hq => ⟨?_, hq.dots, ?_⟩⟩
  · obtain ⟨around', name', rfl, hdir'⟩ := hq.inside
    refine ⟨around', name', rfl, ?_⟩
    rw [hset, if_neg, hdir']
    rintro rfl
    exact h.other hdir'
  · rw [hset]
    split
    · exact Standing.noConfusion
    · exact hq.other

/-- What is left once the files are taken away. -/
theorem without_spec (h : ∀ q ∈ bad, d.Removable q) : (d.without bad).here = d.here ∧ (d.without bad).clock = d.clock ∧
    (d.tree.Proper → (d.without bad).tree.Proper) ∧
    (∀ q, (d.without bad).tree.standing q = if q ∈ bad then .nothing else d.tree.standing q) ∧
    ∀ q, (d.without bad).tree.file? q = if q ∈ bad then none else d.tree.file? q := by
  induction bad generalizing d with
  | nil => exact ⟨rfl, rfl, id, fun q => (if_neg List.not_mem_nil).symm, fun q => (if_neg List.not_mem_nil).symm⟩
  | cons place bad ih =>
    obtain ⟨hplace, hrest⟩ := List.forall_mem_cons.mp h
    obtain ⟨hset, hfile, hstill⟩ := hplace.put_none
    obtain ⟨hhere, hclock, hproper, hset', hfile'⟩ := ih fun q hq => hstill q (hrest q hq)
    refine ⟨hhere, hclock, fun hd => hproper (hd.set hplace.dots nofun), fun q => ?_, fun q => ?_⟩
    · refine (hset' q).trans ?_
      rw [hset]
      by_cases hq : q = place <;> simp [hq]
    · refine (hfile' q).trans ?_
      rw [hfile]
      by_cases hq : q = place <;> simp [hq]

/-! ### Two sides -/

/-- `d'` is `d` without the files at some places. These are no texts, and they are in `d` as they were in `d₀`; the modules
    are texts. -/
structure Lacks (d₀ : Disk) (bad : List (List String)) (modules : List String → Prop) (d d' : Disk) : Prop where
  here : d.here = d₀.here
  here' : d'.here = d₀.here
  clock : d'.clock = d.clock
  proper : d.tree.Proper
  proper' : d'.tree.Proper
  standing : ∀ q, q ∉ bad → d'.tree.standing q = d.tree.standing q
  files : ∀ q, q ∉ bad → d'.tree.file? q = d.tree.file? q
  gone : ∀ q ∈ bad, d'.tree.standing q = .nothing
  faulty : ∀ q ∈ bad, ∃ e, (d₀.tree.standing q).fault? = some e
  kept : ∀ q ∈ bad, d.tree.file? q = d₀.tree.file? q
  legible : d.Legible modules

theorem lacks_without (hd : d.tree.Proper) (hroot : d.tree.standing [] = .directory)
    (hbad : ∀ q ∈ bad, ∃ e, (d.tree.standing q).fault? = some e) (hlegible : d.Legible modules) :
    Lacks d bad modules d (d.without bad) := by
  obtain ⟨hhere, hclock, hproper, hset, hfile⟩ := without_spec fun q hq =>
    let ⟨_, he⟩ := hbad q hq
    removable_of_fault hd hroot he
  exact {
    here := rfl
    here' := hhere
    clock := hclock
    proper := hd
    proper' := hproper hd
    standing := fun q hq => (hset q).trans (if_neg hq)
    files := fun q hq => (hfile q).trans (if_neg hq)
    gone := fun q hq => (hset q).trans (if_pos hq)
    faulty := hbad
    kept := fun _ _ => rfl
    legible := hlegible }

namespace Lacks

/-- The files that are taken away from one side are on the other side. -/
theorem standing_eq (h : Lacks d₀ bad modules d d') (hq : q ∈ bad) : d.tree.standing q = d₀.tree.standing q := by
  obtain ⟨e, he⟩ := h.faulty q hq
  obtain ⟨content, hfile, -⟩ := Standing.fault?_eq_some_iff.mp he
  rw [hfile, Tree.standing_eq_file, h.kept q hq, ← Tree.standing_eq_file, hfile]

theorem notMem_of_fault (h : Lacks d₀ bad modules d d') (hq : (d.tree.standing q).fault? = none) : q ∉ bad := fun hmem => by
  obtain ⟨e, he⟩ := h.faulty q hmem
  rw [← h.standing_eq hmem, hq] at he
  cases he

/-- No directory is among the places. -/
theorem notMem_of_directory (h : Lacks d₀ bad modules d d') (hq : d.tree.standing q = .directory) : q ∉ bad :=
  h.notMem_of_fault (by rw [hq]; rfl)

/-- The same change on both sides, of a place that is on both sides. -/
theorem put (h : Lacks d₀ bad modules d d') {around : List String} (hdir : d.tree.standing around = .directory)
    (hdots : ".." ∉ around ++ [name]) (hmem : around ++ [name] ∉ bad) (hnew : Tree.Bare new)
    (hlegible : (Standing.of new).fault? = none) (hold : d.tree.standing (around ++ [name]) ≠ .directory) :
    Lacks d₀ bad modules (d.put (around ++ [name]) new) (d'.put (around ++ [name]) new) := by
  have hdir' : d'.tree.standing around = .directory := (h.standing _ (h.notMem_of_directory hdir)).trans hdir
  have hbare := Tree.bare_of_standing hold
  have hbare' : Tree.Bare (d'.tree.find? (around ++ [name])) :=
    Tree.bare_of_standing (by rw [h.standing _ hmem]; exact hold)
  have hset : ∀ q, (d.put (around ++ [name]) new).tree.standing q = _ := Tree.standing_set hdir hnew hbare
  have hset' : ∀ q, (d'.put (around ++ [name]) new).tree.standing q = _ := Tree.standing_set hdir' hnew hbare'
  have hfile : ∀ q, (d.put (around ++ [name]) new).tree.file? q = _ := Tree.file?_set hdir hnew hbare
  have hfile' : ∀ q, (d'.put (around ++ [name]) new).tree.file? q = _ := Tree.file?_set hdir' hnew hbare'
  have hother : ∀ q ∈ bad, q ≠ around ++ [name] := fun q hq heq => hmem (heq ▸ hq)
  exact {
    here := h.here
    here' := h.here'
    clock := h.clock
    proper := h.proper.set hdots (Tree.proper_of_bare hnew)
    proper' := h.proper'.set hdots (Tree.proper_of_bare hnew)
    standing := fun q hq => by rw [hset, hset', h.standing q hq]
    files := fun q hq => by rw [hfile, hfile', h.files q hq]
    gone := fun q hq => by rw [hset', if_neg (hother q hq), h.gone q hq]
    faulty := h.faulty
    kept := fun q hq => by rw [hfile, if_neg (hother q hq), h.kept q hq]
    legible := fun q hq => by
      rw [hset]
      split
      · exact hlegible
      · exact h.legible q hq }

end Lacks

/-! ### Where paths lead -/

/-- Following names depends on what stands at the places on the way. -/
theorem follow_congr {t u : Tree} {names back : List String} (h : ∀ k, u.standing ((names.take k).foldl
      (fun back part => if part = ".." then back.tail else part :: back) back).reverse =
    t.standing ((names.take k).foldl (fun back part => if part = ".." then back.tail else part :: back) back).reverse) :
    follow u back names = follow t back names := by
  induction names generalizing back with
  | nil => rfl
  | cons name names ih =>
    have hrest := fun k => h (k + 1)
    simp only [List.take_succ_cons, List.foldl_cons] at hrest
    have hhere : u.standing back.reverse = t.standing back.reverse := h 0
    rw [follow_cons, follow_cons, hhere, ← apply_ite (fun back => follow u back names),
      ← apply_ite (fun back => follow t back names), ih hrest]

/-- The path leads to the same place on both sides, and that is none of some places. -/
structure LeadsAlike (bad : List (List String)) (d d' : Disk) (p : Path) : Prop where
  place : d'.place p = d.place p
  spared : ∀ q, d.place p = .ok q → q ∉ bad

namespace Lacks

/-- A path on which none of the places lies. -/
theorem leads_past (h : Lacks d₀ bad modules d d') (hway : ∀ q ∈ bad, ¬(d₀.here.join p).OnTheWay q) :
    LeadsAlike bad d d' p where
  place := by
    rw [Disk.place, Disk.place, h.here, h.here']
    exact follow_congr fun k => h.standing _ fun hmem => hway _ hmem ⟨k, rfl⟩
  spared := fun q hq hmem => by
    rw [Disk.place, h.here] at hq
    exact hway q hmem ⟨_, (follow_eq hq).trans (by rw [List.take_length]; rfl)⟩

/-- A path of a name in such a directory. -/
theorem leads_into (h : Lacks d₀ bad modules d d') (hway : ∀ q ∈ bad, ¬(d₀.here.join around).OnTheWay q) (hname : name ≠ "..")
    (hspared : (d₀.here.join around).home ++ [name] ∉ bad) : LeadsAlike bad d d' (around.child name) where
  place := by
    have haround := h.leads_past hway
    rw [place_child, place_child, haround.place]
    cases hplace : d.place around with
    | error cause => rfl
    | ok place =>
      dsimp only
      rw [h.standing place (haround.spared place hplace)]
  spared := fun q hq => by
    rw [Disk.place, join_child, h.here] at hq
    obtain rfl : q = (d₀.here.join around).home ++ [name] :=
      (follow_eq hq).trans (Path.withoutDots_append_singleton _ hname)
    exact hspared

end Lacks

namespace LeadsAlike

variable (h : Lacks d₀ bad modules d d') (hp : LeadsAlike bad d d' p)
include h hp

theorem stands_eq : d'.stands p = d.stands p := by
  unfold stands
  rw [hp.place]
  cases hplace : d.place p with
  | error cause => rfl
  | ok q => exact h.standing q (hp.spared q hplace)

theorem has_eq : d'.has p = d.has p :=
  Bool.eq_iff_iff.mpr (by rw [has_iff, has_iff, hp.stands_eq h])

theorem hasDirectory_eq : d'.hasDirectory p = d.hasDirectory p :=
  Bool.eq_iff_iff.mpr (by rw [hasDirectory_iff, hasDirectory_iff, hp.stands_eq h])

/-- What stands where the path leads, on both sides. -/
theorem find?_cases (hplace : d.place p = .ok q) : (d.tree.find? q = none ∧ d'.tree.find? q = none) ∨
    (∃ content time time', d.tree.find? q = some (.file content time) ∧ d'.tree.find? q = some (.file content time')) ∨
    ∃ time children time' children', d.tree.find? q = some (.directory time children) ∧
      d'.tree.find? q = some (.directory time' children') := by
  have hsame := h.standing q (hp.spared q hplace)
  cases hstanding : d.tree.standing q with
  | nothing =>
    rw [hstanding] at hsame
    exact .inl ⟨Standing.of_eq_nothing.mp hstanding, Standing.of_eq_nothing.mp hsame⟩
  | file content =>
    rw [hstanding] at hsame
    obtain ⟨time, hfind⟩ := Standing.of_eq_file.mp hstanding
    obtain ⟨time', hfind'⟩ := Standing.of_eq_file.mp hsame
    exact .inr (.inl ⟨content, time, time', hfind, hfind'⟩)
  | directory =>
    rw [hstanding] at hsame
    obtain ⟨time, children, hfind⟩ := Standing.of_eq_directory.mp hstanding
    obtain ⟨time', children', hfind'⟩ := Standing.of_eq_directory.mp hsame
    exact .inr (.inr ⟨time, children, time', children', hfind, hfind'⟩)

theorem readText_eq : d'.readText p = d.readText p := by
  unfold readText readBytes entry
  rw [hp.place]
  cases hplace : d.place p with
  | error cause => rfl
  | ok q =>
    obtain ⟨hfind, hfind'⟩ | ⟨content, time, time', hfind, hfind'⟩ | ⟨time, children, time', children', hfind, hfind'⟩ :=
      hp.find?_cases h hplace <;>
    simp [about, bind, Except.bind, pure, Except.pure, hfind, hfind']

/-- Changing what stands where the path leads. -/
theorem put (hplace : d.place p = .ok q) (hnew : Tree.Bare new) (hlegible : (Standing.of new).fault? = none)
    (hold : d.tree.standing q ≠ .directory) : Lacks d₀ bad modules (d.put q new) (d'.put q new) := by
  obtain rfl | ⟨around, name, rfl⟩ := List.eq_nil_or_concat' q
  · have hput : ∀ d : Disk, d.put [] new = d := fun d => by rw [Disk.put, Tree.set_nil]
    rwa [hput, hput]
  · exact h.put (standing_of_follow (fun hne => absurd rfl hne) hplace) (dots_notMem_follow List.not_mem_nil hplace)
      (hp.spared _ hplace) hnew hlegible hold

end LeadsAlike

/-! ### Changing files -/

/-- Both came to disks with a property, or to the same error. -/
inductive Alike (P : Disk → Disk → Prop) : Except DiskError Disk → Except DiskError Disk → Prop
  | ok {d d' : Disk} (h : P d d') : Alike P (.ok d) (.ok d')
  | error (e : DiskError) : Alike P (.error e) (.error e)

namespace LeadsAlike

variable (h : Lacks d₀ bad modules d d') (hp : LeadsAlike bad d d' p)
include h hp

theorem writeText (text : List Char) : Alike (Lacks d₀ bad modules) (d.writeText p text) (d'.writeText p text) := by
  unfold Disk.writeText writeBytes
  rw [hp.place, h.clock]
  cases hplace : d.place p with
  | error cause => exact .error _
  | ok q =>
    have hput := @LeadsAlike.put bad modules d₀ d d' p q (some (.file (Text.encode text) d.clock)) h hp hplace
      (Tree.bare_file _ _) (Standing.fault?_encode text)
    rw [Tree.standing] at hput
    obtain ⟨hfind, hfind'⟩ | ⟨content, time, time', hfind, hfind'⟩ | ⟨time, children, time', children', hfind, hfind'⟩ :=
      hp.find?_cases h hplace
    all_goals simp only [about, bind, Except.bind, pure, Except.pure, hfind, hfind'] at hput ⊢
    · exact .ok (hput Standing.noConfusion)
    · exact .ok (hput Standing.noConfusion)
    · exact .error _

theorem makeDirectory : Alike (Lacks d₀ bad modules) (d.makeDirectory p) (d'.makeDirectory p) := by
  unfold Disk.makeDirectory
  rw [hp.place, h.clock]
  cases hplace : d.place p with
  | error cause => exact .error _
  | ok q =>
    have hput := @LeadsAlike.put bad modules d₀ d d' p q (some (.directory d.clock [])) h hp hplace
      (Tree.bare_directory _) rfl
    rw [Tree.standing] at hput
    obtain ⟨hfind, hfind'⟩ | ⟨content, time, time', hfind, hfind'⟩ | ⟨time, children, time', children', hfind, hfind'⟩ :=
      hp.find?_cases h hplace
    all_goals simp only [about, bind, Except.bind, pure, Except.pure, hfind, hfind'] at hput ⊢
    · exact .ok (hput Standing.noConfusion)
    · exact .error _
    · exact .error _

theorem remove : Alike (Lacks d₀ bad modules) (d.remove p) (d'.remove p) := by
  unfold Disk.remove
  rw [hp.place]
  cases hplace : d.place p with
  | error cause => exact .error _
  | ok q =>
    have hput := @LeadsAlike.put bad modules d₀ d d' p q none h hp hplace Tree.bare_none rfl
    rw [Tree.standing] at hput
    obtain ⟨hfind, hfind'⟩ | ⟨content, time, time', hfind, hfind'⟩ | ⟨time, children, time', children', hfind, hfind'⟩ :=
      hp.find?_cases h hplace
    all_goals simp only [about, bind, Except.bind, pure, Except.pure, hfind, hfind'] at hput ⊢
    · exact .error _
    · exact .ok (hput Standing.noConfusion)
    · exact .error _

theorem ensureDirectory : Lacks d₀ bad modules (d.ensureDirectory p).1 (d'.ensureDirectory p).1 ∧
    (d'.ensureDirectory p).2 = (d.ensureDirectory p).2 := by
  have hmake := hp.makeDirectory h
  unfold Disk.ensureDirectory
  rw [hp.hasDirectory_eq h]
  generalize d.makeDirectory p = r at hmake ⊢
  generalize d'.makeDirectory p = r' at hmake ⊢
  cases hmake with
  | ok hmade => exact ⟨hmade, rfl⟩
  | error e => exact ⟨h, rfl⟩

end LeadsAlike

theorem join_parent (here : Path) (hp : p.parts ≠ []) : here.join p.parent = (here.join p).parent := by
  unfold Path.join
  by_cases habs : p.isAbsolute
  · rw [if_pos habs, if_pos (show p.parent.isAbsolute = true from habs)]
  · rw [if_neg habs, if_neg (show ¬p.parent.isAbsolute = true from habs), Path.parent, Path.parent,
      List.dropLast_append_of_ne_nil hp]

/-- The places on the way to a directory are on the way to those in it. -/
theorem onTheWay_of_parent (here : Path) (h : (here.join p.parent).OnTheWay place) : (here.join p).OnTheWay place := by
  by_cases hp : p.parts = []
  · rwa [Path.parent_eq_self hp] at h
  · rw [join_parent here hp] at h
    exact h.of_parent

namespace Lacks

/-- Directories are made on both sides. -/
theorem makeDirectoriesFrom (h : Lacks d₀ bad modules d d') (steps : Nat) (hway : ∀ q ∈ bad, ¬(d₀.here.join p).OnTheWay q) :
    Lacks d₀ bad modules (d.makeDirectoriesFrom steps p).1 (d'.makeDirectoriesFrom steps p).1 ∧
      (d'.makeDirectoriesFrom steps p).2 = (d.makeDirectoriesFrom steps p).2 := by
  induction steps generalizing d d' p with
  | zero => exact (h.leads_past hway).ensureDirectory h
  | succ steps ih =>
    obtain ⟨hlacks, hfailure⟩ := (h.leads_past hway).ensureDirectory h
    rcases hensure : d.ensureDirectory p with ⟨d₁, failure⟩
    rcases hensure' : d'.ensureDirectory p with ⟨d₁', failure'⟩
    rw [hensure, hensure'] at hlacks hfailure
    obtain rfl : failure' = failure := hfailure
    cases failure' with
    | none =>
      rw [makeDirectoriesFrom_of_none hensure, makeDirectoriesFrom_of_none hensure']
      exact ⟨hlacks, rfl⟩
    | some e =>
      by_cases hcause : e.cause = .missing
      case neg =>
        rw [makeDirectoriesFrom_of_failed steps hensure hcause, makeDirectoriesFrom_of_failed steps hensure' hcause]
        exact ⟨hlacks, rfl⟩
      -- The directory around it is missing, so that one is made first.
      rw [makeDirectoriesFrom_of_missing steps hensure hcause, makeDirectoriesFrom_of_missing steps hensure' hcause]
      obtain ⟨hparent, hfailure₂⟩ := ih hlacks (p := p.parent) fun q hq hon => hway q hq (onTheWay_of_parent _ hon)
      rcases hmake : d₁.makeDirectoriesFrom steps p.parent with ⟨d₂, failure⟩
      rcases hmake' : d₁'.makeDirectoriesFrom steps p.parent with ⟨d₂', failure'⟩
      rw [hmake, hmake'] at hparent hfailure₂
      obtain rfl : failure' = failure := hfailure₂
      cases failure' with
      | none => exact (hparent.leads_past hway).ensureDirectory hparent
      | some e => exact ⟨hparent, rfl⟩

/-- A text is written, with the directories around it, on both sides. -/
theorem written (h : Lacks d₀ bad modules d d') (hway : ∀ q ∈ bad, ¬(d₀.here.join around).OnTheWay q) (hname : name ≠ "..")
    (hspared : (d₀.here.join around).home ++ [name] ∉ bad) (text : String) :
    Lacks d₀ bad modules (Pass.written (around.child name) text d).1 (Pass.written (around.child name) text d').1 ∧
      (Pass.written (around.child name) text d').2 = (Pass.written (around.child name) text d).2 := by
  obtain ⟨hmade, hfailure⟩ := h.makeDirectoriesFrom around.parts.length hway
  unfold Pass.written
  rw [Path.parent_child, makeDirectories, makeDirectories]
  rcases hmake : d.makeDirectoriesFrom around.parts.length around with ⟨d₁, failure⟩
  rcases hmake' : d'.makeDirectoriesFrom around.parts.length around with ⟨d₁', failure'⟩
  rw [hmake, hmake'] at hmade hfailure
  obtain rfl : failure' = failure := hfailure
  cases failure' with
  | some e => exact ⟨hmade, rfl⟩
  | none =>
    have hwrite := (hmade.leads_into hway hname hspared).writeText hmade text.toList
    dsimp only
    generalize d₁.writeText (around.child name) text.toList = r at hwrite ⊢
    generalize d₁'.writeText (around.child name) text.toList = r' at hwrite ⊢
    cases hwrite with
    | ok hwritten => exact ⟨hwritten, rfl⟩
    | error e => exact ⟨hmade, rfl⟩

/-! ### What is in a directory -/

/-- The same modules are in a directory, if none of them is taken away. -/
theorem moduleEntries_eq (h : Lacks d₀ bad modules d d') (hway : ∀ q ∈ bad, ¬(d₀.here.join p).OnTheWay q)
    (hspared : ∀ name, Text.endsWith name moduleSuffix = true → (d₀.here.join p).home ++ [name] ∉ bad) :
    moduleEntries d' p = moduleEntries d p := by
  have hp := h.leads_past hway
  have hnames : ∀ name, Text.endsWith name moduleSuffix = true → (name ∈ d'.names p ↔ name ∈ d.names p) := by
    intro name hname
    cases hplace : d.place p with
    | error cause =>
      have hnone : ∀ {d : Disk}, d.place p = .error cause → d.names p = [] := fun {d} hplace => by
        rw [names, entry, hplace]
        rfl
      rw [hnone hplace, hnone (hp.place.trans hplace)]
    | ok place =>
      have hhome : place = (d₀.here.join p).home := by
        rw [Disk.place, h.here] at hplace
        exact follow_eq hplace
      rw [mem_names_iff hplace, mem_names_iff (hp.place.trans hplace), hhome, h.standing _ (hspared name hname)]
  have hroot : ∀ q ∈ moduleEntries d' p, q.root = p.root := fun q hq => by
    obtain ⟨name, -, -, rfl⟩ := (mem_moduleEntries d' p).mp hq
    rfl
  have hmem : ∀ q, q ∈ moduleEntries d' p ↔ q ∈ moduleEntries d p := fun q => by
    rw [mem_moduleEntries, mem_moduleEntries]
    constructor
    · rintro ⟨name, hmem, hname, rfl⟩
      exact ⟨name, (hnames name hname).mp hmem, hname, rfl⟩
    · rintro ⟨name, hmem, hname, rfl⟩
      exact ⟨name, (hnames name hname).mpr hmem, hname, rfl⟩
  have hperm := (List.perm_ext_iff_of_nodup (nodup_moduleEntries h.proper' p) (nodup_moduleEntries h.proper p)).mpr hmem
  exact Path.eq_of_perm_of_root hroot hperm (Path.pairwise_sort _) (Path.pairwise_sort _)

end Lacks

end Disk

end ResponseShapes
