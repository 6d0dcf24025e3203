import ResponseShapes.Proofs.Project.Spelling

/-! # Specifiers of modules

The specifier by which a module in one directory imports a file leads from the directory to the file without the ending
of source files (`join_specifier`). It begins with `./` or `../`, so that it is a relative one, unless the way to the
file starts with a name below the directory that itself begins with a dot. -/

namespace ResponseShapes.Path

variable {p q start target : Path} {front back down : List String} {name : String} {last : List Char}

/-- The path is absolute, and each of its names leads one step down. -/
structure Normal (p : Path) : Prop where
  root : p.root = "/" ∨ p.root = "//"
  name : ∀ name ∈ p.parts, name ≠ "" ∧ name ≠ "." ∧ name ≠ ".."
  slash : ∀ name ∈ p.parts, '/' ∉ name.toList

/-- The path with two dots taken back. -/
def normalized (p : Path) : Path :=
  { p with parts := withoutDots p.parts }

theorem normalized_eq_of_parts (h : withoutDots p.parts = withoutDots q.parts) :
    p.normalized = { q.normalized with root := p.root } :=
  congrArg (Path.mk p.root) h

/-- The text of a path without the ending of source files. -/
def withoutEnding (text : String) : String :=
  if Text.endsWith text ".ts" then Text.dropEnd text 3 else text

/-- The specifier is looked up from the module that holds it, not among packages. -/
def IsRelative (specifier : String) : Prop :=
  "./".toList <+: specifier.toList ∨ "../".toList <+: specifier.toList

instance : Decidable p.Normal :=
  decidable_of_iff ((p.root = "/" ∨ p.root = "//") ∧
    ∀ name ∈ p.parts, (name ≠ "" ∧ name ≠ "." ∧ name ≠ "..") ∧ '/' ∉ name.toList)
    ⟨fun h => ⟨h.1, fun name hname => (h.2 name hname).1, fun name hname => (h.2 name hname).2⟩,
      fun h => ⟨h.root, fun name hname => ⟨h.name name hname, h.slash name hname⟩⟩⟩

theorem Normal.no_dots (h : p.Normal) : ".." ∉ p.parts :=
  fun hmem => (h.name _ hmem).2.2 rfl

/-! ### Names and the text they make -/

/-- The text of some names, each with the slash behind it. -/
def stretch (names : List String) : List Char :=
  names.flatMap fun name => name.toList ++ ['/']

/-- Whether a name counts when a path is read. -/
def counts (name : String) : Bool :=
  name != "" && name != "."

theorem stretch_cons (name : String) (names : List String) :
    stretch (name :: names) = name.toList ++ '/' :: stretch names := by
  rw [stretch, List.flatMap_cons, List.append_assoc]
  rfl

theorem stretch_append (names more : List String) : stretch (names ++ more) = stretch names ++ stretch more :=
  List.flatMap_append

theorem eq_slash_of_stretch {cs : List Char} {c : Char} (h : stretch front = cs ++ [c]) : c = '/' := by
  induction front using List.reverseRecOn with
  | nil => exact absurd h (List.append_ne_nil_of_right_ne_nil cs (List.cons_ne_nil c [])).symm
  | append_singleton front name =>
    rw [stretch_append, stretch_cons, show stretch [] = [] from rfl, ← List.append_assoc] at h
    exact (List.singleton_inj.mp (List.append_inj_right' h rfl)).symm

theorem intercalate_eq_stretch (front : List String) (name : String) :
    ['/'].intercalate ((front ++ [name]).map String.toList) = stretch front ++ name.toList := by
  induction front with
  | nil => simp [stretch]
  | cons first front ih =>
    obtain ⟨second, more, hmore⟩ := List.exists_cons_of_ne_nil (List.append_ne_nil_of_right_ne_nil front
      (List.cons_ne_nil name []))
    rw [hmore, List.map_cons] at ih
    rw [List.cons_append, hmore, List.map_cons, List.map_cons, List.intercalate_cons_cons, ih, stretch_cons,
      List.append_assoc, List.append_assoc]
    rfl

theorem toList_toString_of_parts (h : p.parts = front ++ [name]) :
    p.toString.toList = p.root.toList ++ (stretch front ++ name.toList) := by
  have hne : p.parts ≠ [] := h ▸ List.append_ne_nil_of_right_ne_nil front (List.cons_ne_nil name [])
  rw [toString_of_ne (.inr hne), h, intercalate_eq_stretch]

/-- The parts of the text of names are the names. -/
theorem splitOn_stretch (hfront : ∀ name ∈ front, '/' ∉ name.toList) (hlast : '/' ∉ last) :
    (stretch front ++ last).splitOn '/' = front.map String.toList ++ [last] := by
  induction front with
  | nil => exact List.splitOn_eq_singleton hlast
  | cons name front ih =>
    obtain ⟨hname, hfront⟩ := List.forall_mem_cons.mp hfront
    rw [stretch_cons, List.append_assoc, List.cons_append, List.splitOn_append_cons_self_of_not_mem hname, ih hfront]
    rfl

theorem parts_of_stretch (hfront : ∀ name ∈ front, '/' ∉ name.toList) (hlast : '/' ∉ last) :
    (ofString (String.ofList (stretch front ++ last))).parts = (front ++ [String.ofList last]).filter counts := by
  rw [ofString, Text.split_eq, String.toList_ofList, splitOn_stretch hfront hlast]
  refine congrArg (List.filter counts) ?_
  simp only [List.map_append, List.map_map, Function.comp_def, String.ofList_toList, List.map_id', List.map_singleton]

/-- A text of names starts with a name and a slash only if this is the first name. -/
theorem eq_cons_of_prefix_stretch (hfront : ∀ name ∈ front, '/' ∉ name.toList) (hlast : '/' ∉ last)
    (hname : '/' ∉ name.toList) (h : name.toList ++ ['/'] <+: stretch front ++ last) :
    ∃ more, front = name :: more := by
  obtain ⟨after, hafter⟩ := h
  have hsplit := congrArg (List.splitOn '/') hafter
  rw [splitOn_stretch hfront hlast, List.append_assoc, List.singleton_append,
    List.splitOn_append_cons_self_of_not_mem hname] at hsplit
  cases front with
  | nil => exact absurd (List.cons.inj hsplit).2 (List.splitOn_ne_nil '/' after)
  | cons first more => exact ⟨more, congrArg (· :: more) (String.toList_inj.mp (List.cons.inj hsplit).1).symm⟩

/-! ### Texts without the ending of source files -/

theorem endsWith_iff {text tail : String} : Text.endsWith text tail = true ↔ ∃ cs, text.toList = cs ++ tail.toList := by
  rw [Text.endsWith, List.isSuffixOf_iff_suffix]
  exact exists_congr fun cs => eq_comm

theorem withoutEnding_of_append {text : String} {cs : List Char} (h : text.toList = cs ++ ".ts".toList) :
    withoutEnding text = String.ofList cs := by
  rw [withoutEnding, if_pos (endsWith_iff.mpr ⟨cs, h⟩), Text.dropEnd, h]
  refine congrArg String.ofList ?_
  rw [List.length_append, show ".ts".toList.length = 3 from rfl, Nat.add_sub_cancel, List.take_left]

theorem prefix_withoutEnding (text : String) : (withoutEnding text).toList <+: text.toList := by
  by_cases h : Text.endsWith text ".ts" = true
  · obtain ⟨cs, hcs⟩ := endsWith_iff.mp h
    rw [withoutEnding_of_append hcs, String.toList_ofList, hcs]
    exact List.prefix_append cs _
  · have hkept : withoutEnding text = text := if_neg h
    exact hkept.symm ▸ List.prefix_refl text.toList

/-- The ending belongs to the last name. -/
theorem withoutEnding_stretch (front : List String) (last : List Char) :
    withoutEnding (String.ofList (stretch front ++ last)) =
      String.ofList (stretch front ++ (withoutEnding (String.ofList last)).toList) := by
  by_cases h : Text.endsWith (String.ofList last) ".ts" = true
  · obtain ⟨cs, hcs⟩ := endsWith_iff.mp h
    rw [withoutEnding_of_append hcs, String.toList_ofList]
    refine withoutEnding_of_append ?_
    rw [String.toList_ofList, List.append_assoc]
    rw [String.toList_ofList] at hcs
    rw [hcs]
  · rw [show withoutEnding (String.ofList last) = String.ofList last from if_neg h, String.toList_ofList]
    refine if_neg fun hends => h ?_
    obtain ⟨cs, hcs⟩ := endsWith_iff.mp hends
    rw [String.toList_ofList] at hcs
    refine endsWith_iff.mpr ?_
    rw [String.toList_ofList]
    rcases List.append_eq_append_iff.mp hcs with ⟨between, hcs, hlast⟩ | ⟨between, hstretch, hending⟩
    · exact ⟨between, hlast⟩
    · -- The ending would reach over a slash.
      cases between using List.reverseRecOn with
      | nil => exact ⟨[], hending.symm⟩
      | append_singleton between c =>
        rw [← List.append_assoc] at hstretch
        have hc : c ∈ ".ts".toList := hending ▸ List.mem_append_left last List.mem_concat_self
        rw [eq_slash_of_stretch hstretch] at hc
        exact absurd hc (by decide)

theorem head?_withoutEnding {name : String} (h : name ≠ ".ts") :
    (withoutEnding name).toList.head? = name.toList.head? := by
  by_cases hends : Text.endsWith name ".ts" = true
  · obtain ⟨cs, hcs⟩ := endsWith_iff.mp hends
    have hne : cs ≠ [] := fun hnil => h (String.toList_inj.mp (by rw [hcs, hnil]; rfl))
    rw [withoutEnding_of_append hcs, String.toList_ofList, hcs, List.head?_append_of_ne_nil cs hne]
  · rw [withoutEnding, if_neg hends]

/-! ### The way from a directory to a file -/

/-- The way goes up to the directory that both have above them, and down from there. -/
theorem exists_relativeParts (start target : List String) : ∃ top back below, start = top ++ back ∧
    target = top ++ below ∧ relativeParts start target = List.replicate back.length ".." ++ below ∧
    (start <+: target → back = []) := by
  induction start generalizing target with
  | nil => exact ⟨[], [], target, rfl, rfl, by rw [relativeParts]; simp, fun _ => rfl⟩
  | cons a start ih =>
    cases target with
    | nil => exact ⟨[], a :: start, [], rfl, rfl, by rw [relativeParts]; simp, fun h => absurd (List.prefix_nil.mp h) (List.cons_ne_nil a start)⟩
    | cons b target =>
      by_cases heq : a = b
      · subst heq
        obtain ⟨top, back, below, hstart, htarget, hparts, hback⟩ := ih target
        refine ⟨a :: top, back, below, congrArg (a :: ·) hstart, congrArg (a :: ·) htarget, ?_, fun h => ?_⟩
        · rw [relativeParts, if_pos rfl, hparts]
        · exact hback (List.cons_prefix_cons.mp h).2
      · refine ⟨[], a :: start, b :: target, rfl, rfl, ?_, fun h => absurd (List.cons_prefix_cons.mp h).1 heq⟩
        rw [relativeParts, if_neg heq]
        rfl

/-- The names that a specifier is made of: those of the way, behind a dot unless the way begins with one. -/
theorem exists_specifier {start target : Path} (h : (relative start target).parts = front ++ [name]) :
    ∃ lead, (specifier start target).toList = stretch lead ++ (stretch front ++ (withoutEnding name).toList) ∧
      (lead = [] ∧ (stretch front ++ (withoutEnding name).toList).head? = some '.' ∨
        lead = ["."] ∧ (stretch front ++ (withoutEnding name).toList).head? ≠ some '.') := by
  have hstem : withoutEnding (relative start target).toString =
      String.ofList (stretch front ++ (withoutEnding name).toList) := by
    have htext := toList_toString_of_parts h
    rw [show (relative start target).root = "" from rfl, show "".toList = [] from rfl, List.nil_append] at htext
    rw [← String.ofList_toList (s := (relative start target).toString), htext, withoutEnding_stretch, String.ofList_toList]
  have hspecifier : specifier start target =
      if (stretch front ++ (withoutEnding name).toList).head? = some '.' then
        String.ofList (stretch front ++ (withoutEnding name).toList)
      else "./" ++ String.ofList (stretch front ++ (withoutEnding name).toList) := by
    rw [← String.toList_ofList (l := stretch front ++ (withoutEnding name).toList), ← hstem, String.ofList_toList]
    rfl
  rw [hspecifier]
  split
  · rename_i hhead
    exact ⟨[], String.toList_ofList, .inl ⟨rfl, hhead⟩⟩
  · rename_i hhead
    refine ⟨["."], ?_, .inr ⟨rfl, hhead⟩⟩
    rw [String.toList_append]
    exact congrArg ("./".toList ++ ·) String.toList_ofList

/-- A name that stands between slashes and counts, up two dots included. -/
structure IsStep (name : String) : Prop where
  counts : name ≠ "" ∧ name ≠ "."
  slash : '/' ∉ name.toList

theorem Normal.isStep (h : p.Normal) (hname : name ∈ p.parts) : IsStep name :=
  ⟨⟨(h.name name hname).1, (h.name name hname).2.1⟩, h.slash name hname⟩

theorem slash_notMem_withoutEnding (h : '/' ∉ name.toList) : '/' ∉ (withoutEnding name).toList :=
  fun hmem => h ((prefix_withoutEnding name).subset hmem)

/-- Of names that are steps, all count, and of the last one what is left without the ending. -/
theorem parts_of_steps {lead : List String} (hlead : ∀ name ∈ lead, name = "" ∨ name = ".")
    (hsteps : ∀ name ∈ front, IsStep name) (hname : '/' ∉ name.toList) :
    (ofString (String.ofList (stretch (lead ++ front) ++ (withoutEnding name).toList))).parts =
      front ++ [withoutEnding name].filter counts := by
  have hslash : ∀ name ∈ lead ++ front, '/' ∉ name.toList := by
    refine List.forall_mem_append.mpr ⟨fun name hname => ?_, fun name hname => (hsteps name hname).slash⟩
    rcases hlead name hname with rfl | rfl <;> decide
  rw [parts_of_stretch hslash (slash_notMem_withoutEnding hname), String.ofList_toList, List.filter_append,
    List.filter_append]
  have hnone : lead.filter counts = [] := List.filter_eq_nil_iff.mpr fun name hname => by
    rcases hlead name hname with rfl | rfl <;> decide
  have hall : front.filter counts = front := List.filter_eq_self.mpr fun name hname => by
    simp [Path.counts, (hsteps name hname).counts]
  rw [hnone, hall, List.nil_append]

/-- The names of a file without the ending of source files. -/
theorem parts_withoutEnding (h : p.Normal) (hparts : p.parts = front ++ [name]) :
    (ofString (withoutEnding p.toString)).parts = front ++ [withoutEnding name].filter counts := by
  have hmem : ∀ {n}, n ∈ front ∨ n = name → n ∈ p.parts := fun hn => by simpa [hparts] using hn
  obtain ⟨lead, hlead, hroot⟩ : ∃ lead, (∀ name ∈ lead, name = "" ∨ name = ".") ∧ p.root.toList = stretch lead := by
    rcases h.root with hroot | hroot <;> rw [hroot]
    · exact ⟨[""], by simp, rfl⟩
    · exact ⟨["", ""], by simp, rfl⟩
  have htext := toList_toString_of_parts hparts
  rw [hroot, ← List.append_assoc, ← stretch_append] at htext
  rw [← String.ofList_toList (s := p.toString), htext, withoutEnding_stretch, String.ofList_toList]
  exact parts_of_steps hlead (fun n hn => h.isStep (hmem (.inl hn))) (h.slash name (hmem (.inr rfl)))

theorem root_of_head? {text : String} (h : text.toList.head? = some '.') : (ofString text).root = "" := by
  obtain ⟨cs, hcs⟩ := List.head?_eq_some_iff.mp h
  rw [ofString]
  dsimp only
  rw [hcs]
  rfl

/-- A specifier is read from the directory on, by the names of the way. -/
theorem join_specifier_eq {start target : Path} (h : (relative start target).parts = front ++ [name])
    (hsteps : ∀ name ∈ front, IsStep name) (hname : '/' ∉ name.toList) :
    start.join (ofString (specifier start target)) =
      { start with parts := start.parts ++ (front ++ [withoutEnding name].filter counts) } := by
  obtain ⟨lead, hspecifier, hlead⟩ := exists_specifier h
  have hdots : ∀ name ∈ lead, name = "" ∨ name = "." := by
    rcases hlead with ⟨rfl, -⟩ | ⟨rfl, -⟩ <;> simp
  have hhead : (specifier start target).toList.head? = some '.' := by
    rw [hspecifier]
    rcases hlead with ⟨rfl, hhead⟩ | ⟨rfl, -⟩
    · exact hhead
    · rfl
  have hparts := parts_of_steps hdots hsteps hname
  rw [stretch_append, List.append_assoc, ← hspecifier, String.ofList_toList] at hparts
  rw [join, isAbsolute, root_of_head? hhead, hparts]
  rfl

/-! ### Where a specifier leads, and how it begins -/

/-- A text of names is relative if its first name is a dot or two dots. -/
theorem isRelative_iff (hfront : ∀ name ∈ front, '/' ∉ name.toList) (hlast : '/' ∉ last) :
    IsRelative (String.ofList (stretch front ++ last)) ↔ ∃ more, front = "." :: more ∨ front = ".." :: more := by
  have hbegin : ∀ dots : String, '/' ∉ dots.toList →
      (dots.toList ++ ['/'] <+: stretch front ++ last ↔ ∃ more, front = dots :: more) := by
    refine fun dots hdots => ⟨eq_cons_of_prefix_stretch hfront hlast hdots, ?_⟩
    rintro ⟨more, rfl⟩
    exact ⟨stretch more ++ last, by rw [stretch_cons]; simp⟩
  rw [IsRelative, String.toList_ofList (l := stretch front ++ last), exists_or]
  exact or_congr (hbegin "." (by decide)) (hbegin ".." (by decide))

/-- What the names of a specifier lead to, from the directory that it is made for. -/
theorem withoutDots_way {top : List String} (htop : ".." ∉ top) (hback : ".." ∉ back) (below : List String) :
    withoutDots (top ++ back ++ (List.replicate back.length ".." ++ below)) = withoutDots (top ++ below) := by
  rw [← List.append_assoc, withoutDots_append, withoutDots_back htop hback]

/-- The text of a way begins as its first name does. -/
theorem head?_way {first : String} {more : List String} (hfront : ∀ name ∈ front, IsStep name) (hname : name ≠ ".ts")
    (h : front ++ [name] = first :: more) :
    (stretch front ++ (withoutEnding name).toList).head? = first.toList.head? := by
  cases front with
  | nil =>
    obtain rfl := (List.cons.inj h).1
    exact head?_withoutEnding hname
  | cons step front =>
    obtain rfl := (List.cons.inj h).1
    have hne : step.toList ≠ [] := fun hnil =>
      (hfront step List.mem_cons_self).counts.1 (String.toList_eq_nil_iff.mp hnil)
    rw [stretch_cons, List.append_assoc, List.head?_append_of_ne_nil _ hne]

theorem isRelative_specifier {start target : Path} (h : (relative start target).parts = front ++ [name])
    (hsteps : ∀ name ∈ front, IsStep name) (hname : '/' ∉ name.toList) :
    IsRelative (specifier start target) ↔
      (∃ more, front = ".." :: more) ∨ (stretch front ++ (withoutEnding name).toList).head? ≠ some '.' := by
  obtain ⟨lead, hspecifier, hlead⟩ := exists_specifier h
  have hslash := slash_notMem_withoutEnding hname
  have htext : specifier start target = String.ofList (stretch (lead ++ front) ++ (withoutEnding name).toList) := by
    rw [stretch_append, List.append_assoc, ← hspecifier, String.ofList_toList]
  rw [htext]
  rcases hlead with ⟨rfl, hhead⟩ | ⟨rfl, hhead⟩
  · rw [List.nil_append, isRelative_iff (fun n hn => (hsteps n hn).slash) hslash, or_iff_left (not_not.mpr hhead)]
    refine exists_congr fun more => or_iff_right fun hdot => ?_
    exact (hsteps "." (hdot ▸ List.mem_cons_self)).counts.2 rfl
  · refine iff_of_true ((isRelative_iff ?_ hslash).mpr ⟨front, .inl rfl⟩) (.inr hhead)
    exact List.forall_mem_append.mpr ⟨by decide, fun n hn => (hsteps n hn).slash⟩

/-! ### The way to a file -/

/-- The way from a directory to a file that is neither the directory nor above it ends with the name of the file. -/
theorem exists_way (hstart : start.Normal) (htarget : target.Normal) (habove : ¬target.parts <+: start.parts) :
    ∃ top back down name, start.parts = top ++ back ∧ target.parts = top ++ (down ++ [name]) ∧
      (relative start target).parts = List.replicate back.length ".." ++ down ++ [name] ∧
      (start.parts <+: target.parts → back = []) := by
  obtain ⟨top, back, below, hs, ht, hway, hback⟩ := exists_relativeParts start.parts target.parts
  have hbelow : below ≠ [] := fun hnil => habove ⟨back, by rw [ht, hnil, List.append_nil, hs]⟩
  obtain ⟨down, name, hdown⟩ := (List.eq_nil_or_concat below).resolve_left hbelow
  rw [List.concat_eq_append] at hdown
  subst hdown
  refine ⟨top, back, down, name, hs, ht, ?_, hback⟩
  rw [relative, withoutDots_of_no_dots hstart.no_dots, withoutDots_of_no_dots htarget.no_dots, hway, List.append_assoc]

theorem Normal.isStep_way {top : List String} (h : target.Normal) (hparts : target.parts = top ++ (down ++ [name]))
    (up : Nat) : (∀ step ∈ List.replicate up ".." ++ down, IsStep step) ∧ '/' ∉ name.toList := by
  have hdown : ∀ step ∈ down ++ [name], IsStep step := fun step hstep =>
    h.isStep (hparts ▸ List.mem_append_right top hstep)
  refine ⟨List.forall_mem_append.mpr ⟨fun step hstep => ?_, fun step hstep => ?_⟩, (hdown name List.mem_concat_self).slash⟩
  · rw [List.eq_of_mem_replicate hstep]
    exact ⟨by decide, by decide⟩
  · exact hdown step (List.mem_append_left _ hstep)

theorem normalized_join_specifier (hstart : start.Normal) (htarget : target.Normal)
    (habove : ¬target.parts <+: start.parts) :
    (start.join (ofString (specifier start target))).normalized =
      { (ofString (withoutEnding target.toString)).normalized with root := start.root } := by
  obtain ⟨top, back, down, name, hs, ht, hway, -⟩ := exists_way hstart htarget habove
  obtain ⟨hsteps, hname⟩ := htarget.isStep_way ht back.length
  have hnodots : ".." ∉ top ∧ ".." ∉ back := by simpa [hs, not_or] using hstart.no_dots
  rw [join_specifier_eq hway hsteps hname]
  refine normalized_eq_of_parts ?_
  calc withoutDots (start.parts ++ (List.replicate back.length ".." ++ down ++ [withoutEnding name].filter counts))
    _ = withoutDots (top ++ (down ++ [withoutEnding name].filter counts)) := by
      rw [hs, List.append_assoc _ down, withoutDots_way hnodots.1 hnodots.2]
    _ = withoutDots (ofString (withoutEnding target.toString)).parts := by
      rw [parts_withoutEnding htarget (ht.trans (List.append_assoc top down [name]).symm), List.append_assoc]

theorem isRelative_specifier_iff (hstart : start.Normal) (htarget : target.Normal)
    (habove : ¬target.parts <+: start.parts) (hname : target.name ≠ ".ts") :
    IsRelative (specifier start target) ↔
      ∀ first below, target.parts = start.parts ++ first :: below → first.toList.head? ≠ some '.' := by
  obtain ⟨top, back, down, name, hs, ht, hway, hback⟩ := exists_way hstart htarget habove
  obtain ⟨hsteps, hslash⟩ := htarget.isStep_way ht back.length
  rw [isRelative_specifier hway hsteps hslash]
  by_cases hup : back = []
  · -- The file is below the directory.
    subst hup
    obtain ⟨first, more, hfirst⟩ := List.exists_cons_of_ne_nil (List.append_ne_nil_of_right_ne_nil down
      (List.cons_ne_nil name []))
    have hlast : name ≠ ".ts" := fun hts => hname (by rw [Path.name, ht, hts]; simp)
    have hnodots : ¬∃ more, down = ".." :: more := by
      rintro ⟨more, rfl⟩
      exact htarget.no_dots (ht ▸ List.mem_append_right top List.mem_cons_self)
    rw [List.append_nil] at hs
    rw [List.length_nil, List.replicate_zero, List.nil_append] at hsteps ⊢
    rw [head?_way hsteps hlast hfirst, or_iff_right hnodots, ht, hs, hfirst]
    refine ⟨fun h first' below heq => ?_, fun h => h first more rfl⟩
    obtain ⟨rfl, -⟩ := List.cons.inj (List.append_cancel_left heq)
    exact h
  · -- The way begins with a step up.
    obtain ⟨n, rest, rfl⟩ := List.exists_cons_of_ne_nil hup
    refine iff_of_true (.inl ⟨List.replicate rest.length ".." ++ down, rfl⟩) fun first below heq => ?_
    exact absurd (hback ⟨first :: below, heq.symm⟩) hup

/-- A specifier leads from its directory to the file without the ending of source files, and it is a relative one
    unless the first name on the way down begins with a dot. -/
theorem join_specifier (hstart : start.Normal) (htarget : target.Normal) (habove : ¬target.parts <+: start.parts)
    (hname : target.name ≠ ".ts") :
    (start.join (ofString (specifier start target))).normalized =
        { (ofString (withoutEnding target.toString)).normalized with root := start.root } ∧
      (IsRelative (specifier start target) ↔
        ∀ first below, target.parts = start.parts ++ first :: below → first.toList.head? ≠ some '.') :=
  ⟨normalized_join_specifier hstart htarget habove, isRelative_specifier_iff hstart htarget habove hname⟩

/-- A directory of sources. -/
def usersDirectory : Path :=
  ⟨"/", ["project", "src", "users"]⟩

/-- A module beside the directory. -/
def siblingModule : Path :=
  ⟨"/", ["project", "src", "generated", "x.response.ts"]⟩

/-- A module below the directory, in one whose name begins with a dot. -/
def hiddenModule : Path :=
  ⟨"/", ["project", "src", "users", ".gen", "x.ts"]⟩

/-- A specifier that goes up is a relative one, and one into a directory whose name begins with a dot is not. -/
theorem join_specifier_modules :
    (usersDirectory.Normal ∧ siblingModule.Normal ∧ hiddenModule.Normal ∧
        ¬siblingModule.parts <+: usersDirectory.parts ∧ ¬hiddenModule.parts <+: usersDirectory.parts ∧
        siblingModule.name ≠ ".ts" ∧ hiddenModule.name ≠ ".ts") ∧
      ((usersDirectory.join (ofString (specifier usersDirectory siblingModule))).normalized =
          ⟨"/", ["project", "src", "generated", "x.response"]⟩ ∧
        (usersDirectory.join (ofString (specifier usersDirectory hiddenModule))).normalized =
          ⟨"/", ["project", "src", "users", ".gen", "x"]⟩) ∧
      IsRelative (specifier usersDirectory siblingModule) ∧ ¬IsRelative (specifier usersDirectory hiddenModule) := by
  have hyps : usersDirectory.Normal ∧ siblingModule.Normal ∧ hiddenModule.Normal ∧
      ¬siblingModule.parts <+: usersDirectory.parts ∧ ¬hiddenModule.parts <+: usersDirectory.parts ∧
      siblingModule.name ≠ ".ts" ∧ hiddenModule.name ≠ ".ts" := by decide +kernel
  refine ⟨hyps, ?_⟩
  obtain ⟨husers, hsibling, hhidden, hbeside, hbelow, hname, hname'⟩ := hyps
  obtain ⟨hjoin, hrelative⟩ := join_specifier husers hsibling hbeside hname
  obtain ⟨hjoin', hrelative'⟩ := join_specifier husers hhidden hbelow hname'
  refine ⟨⟨hjoin.trans (by decide +kernel), hjoin'.trans (by decide +kernel)⟩, hrelative.mpr ?_, fun h => ?_⟩
  · intro first below heq
    exact absurd (congrArg (List.take 3) heq) (by simp [usersDirectory, siblingModule])
  · exact hrelative'.mp h ".gen" ["x.ts"] rfl rfl

end ResponseShapes.Path
