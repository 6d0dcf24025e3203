import ResponseShapes.Proofs.Project.Path

/-! # Paths that are spelled by texts

The names of a path that is read from a text are not empty, none is a single dot, and none holds a slash (`Spelled`).
Such a path is read back from its own text (`ofString_toString`), hence each has a text of its own, and the order of
paths tells any two of them apart (`eq_of_le`). -/

namespace ResponseShapes

/-! ### Parts of a text -/

namespace Text

variable {separator : Char} {cs part : List Char}

theorem splitFrom_eq (separator : Char) (opened cs : List Char) :
    splitFrom separator opened cs = List.splitOnPPrepend (· == separator) cs opened := by
  induction cs generalizing opened with
  | nil => rfl
  | cons c cs ih =>
    rw [splitFrom, List.splitOnPPrepend_cons_eq_if, ih, ih, List.splitOnPPrepend_nil_right]
    simp only [beq_iff_eq]

theorem split_eq (separator : Char) (s : String) :
    split separator s = (s.toList.splitOn separator).map String.ofList := by
  rw [split, splitFrom_eq, List.splitOnPPrepend_nil_right]
  rfl

/-- A part between separators holds no separator, and nothing that is not in the text. -/
theorem of_mem_splitOn (h : part ∈ cs.splitOn separator) : separator ∉ part ∧ part ⊆ cs := by
  induction cs generalizing part with
  | nil =>
    rw [List.splitOn_nil, List.mem_singleton] at h
    rw [h]
    exact ⟨List.not_mem_nil, List.Subset.refl _⟩
  | cons c cs ih =>
    rw [List.splitOn_cons_eq_if_modifyHead] at h
    split at h
    · rcases List.mem_cons.mp h with rfl | h
      · exact ⟨List.not_mem_nil, List.nil_subset _⟩
      · exact ⟨(ih h).1, List.subset_cons_of_subset c (ih h).2⟩
    · rename_i hc
      obtain ⟨first, rest, hsplit⟩ := List.exists_cons_of_ne_nil (List.splitOn_ne_nil separator cs)
      rw [hsplit] at h ih
      rcases List.mem_cons.mp h with rfl | h
      · obtain ⟨hnot, hsub⟩ := ih List.mem_cons_self
        refine ⟨List.not_mem_cons_of_ne_of_not_mem (fun heq => hc (beq_iff_eq.mpr heq.symm)) hnot, ?_⟩
        exact List.cons_subset_cons c hsub
      · obtain ⟨hnot, hsub⟩ := ih (List.mem_cons_of_mem _ h)
        exact ⟨hnot, List.subset_cons_of_subset c hsub⟩

end Text

namespace Path

variable {p q : Path}

/-! ### What is read from a text -/

/-- The path can be read from a text without zero characters. -/
structure Spelled (p : Path) : Prop where
  root : p.root = "" ∨ p.root = "/" ∨ p.root = "//"
  name : ∀ name ∈ p.parts, name ≠ "" ∧ name ≠ "."
  slash : ∀ name ∈ p.parts, '/' ∉ name.toList
  zero : ∀ name ∈ p.parts, '\x00' ∉ name.toList

theorem spelled_ofString {s : String} (h : '\x00' ∉ s.toList) : (ofString s).Spelled := by
  have hpart : ∀ name ∈ (ofString s).parts, (name ≠ "" ∧ name ≠ ".") ∧ '/' ∉ name.toList ∧ '\x00' ∉ name.toList := by
    intro name hname
    obtain ⟨hname, hkept⟩ := List.mem_filter.mp hname
    rw [Text.split_eq] at hname
    obtain ⟨part, hpart, rfl⟩ := List.mem_map.mp hname
    obtain ⟨hslash, hsub⟩ := Text.of_mem_splitOn hpart
    rw [String.toList_ofList]
    exact ⟨by simpa using hkept, hslash, fun hzero => h (hsub hzero)⟩
  refine ⟨?_, fun name hname => (hpart name hname).1, fun name hname => (hpart name hname).2.1,
    fun name hname => (hpart name hname).2.2⟩
  unfold ofString
  dsimp only
  split
  · exact .inl rfl
  · split
    · exact .inr (.inr rfl)
    · exact .inr (.inl rfl)

/-! ### What is read from the text of a path -/

section Names

variable {ls : List (List Char)}

/-- Slashes in front of names are those at the start of the text. -/
theorem takeWhile_names (h : ∀ l ∈ ls, l ≠ [] ∧ '/' ∉ l) (slashes : Nat) :
    (List.replicate slashes '/' ++ ['/'].intercalate ls).takeWhile (· == '/') = List.replicate slashes '/' := by
  have hnames : (['/'].intercalate ls).takeWhile (· == '/') = [] := by
    rcases ls with _ | ⟨l, rest⟩
    · rfl
    · obtain ⟨hne, hslash⟩ := h l List.mem_cons_self
      obtain ⟨c, l, rfl⟩ := List.exists_cons_of_ne_nil hne
      have hc : (c == '/') = false := beq_eq_false_iff_ne.mpr (List.ne_of_not_mem_cons hslash).symm
      cases rest <;> simp [hc]
  rw [List.takeWhile_append_of_pos (fun c hc => beq_iff_eq.mpr (List.eq_of_mem_replicate hc)), hnames, List.append_nil]

/-- Slashes in front of names add empty parts only. -/
theorem filter_splitOn_names (h : ∀ l ∈ ls, l ≠ [] ∧ '/' ∉ l) (slashes : Nat) :
    ((List.replicate slashes '/' ++ ['/'].intercalate ls).splitOn '/').filter (· ≠ []) = ls := by
  induction slashes with
  | zero =>
    by_cases hls : ls = []
    · subst hls
      rfl
    · rw [List.replicate_zero, List.nil_append, List.splitOn_intercalate '/' (fun l hl => (h l hl).2) hls]
      exact List.filter_eq_self.mpr fun l hl => decide_eq_true (h l hl).1
  | succ slashes ih =>
    rw [List.replicate_succ, List.cons_append, List.splitOn_cons_eq_if_modifyHead, if_pos (beq_self_eq_true '/'),
      List.filter_cons_of_neg (by simp)]
    exact ih

end Names

theorem toString_of_ne (h : p.root ≠ "" ∨ p.parts ≠ []) :
    p.toString.toList = p.root.toList ++ ['/'].intercalate (p.parts.map String.toList) := by
  have hnot : (p.root.isEmpty && p.parts.isEmpty) = false := by
    rw [Bool.and_eq_false_iff]
    exact h.imp (fun hroot => by simpa using hroot) List.isEmpty_eq_false_iff.mpr
  rw [toString, hnot, if_neg Bool.false_ne_true, String.toList_append, String.toList_intercalate]
  rfl

/-- A path is read back from its text. -/
theorem ofString_toString (h : p.Spelled) : ofString p.toString = p := by
  obtain ⟨root, parts⟩ := p
  by_cases hdot : root = "" ∧ parts = []
  · obtain ⟨rfl, rfl⟩ := hdot
    decide
  have htext := toString_of_ne (p := ⟨root, parts⟩) (not_and_or.mp hdot)
  obtain ⟨slashes, hslashes, hroot⟩ : ∃ slashes, root.toList = List.replicate slashes '/' ∧
      (if slashes = 0 then "" else if slashes = 2 then "//" else "/") = root := by
    rcases h.root with h | h | h <;> rw [show root = _ from h]
    · exact ⟨0, rfl, rfl⟩
    · exact ⟨1, rfl, rfl⟩
    · exact ⟨2, rfl, rfl⟩
  have hnames : ∀ l ∈ parts.map String.toList, l ≠ [] ∧ '/' ∉ l := List.forall_mem_map.mpr fun name hname =>
    ⟨fun hnil => (h.name name hname).1 (String.toList_eq_nil_iff.mp hnil), h.slash name hname⟩
  have hparts : ((parts.map String.toList).map String.ofList).filter (fun n => n != "" && n != ".") = parts := by
    simp only [List.map_map, Function.comp_def, String.ofList_toList, List.map_id']
    refine List.filter_eq_self.mpr fun name hname => ?_
    obtain ⟨hempty, hdot⟩ := h.name name hname
    simp [hempty, hdot]
  unfold ofString
  rw [Text.split_eq, htext, hslashes]
  dsimp only
  rw [takeWhile_names hnames, List.length_replicate, hroot]
  refine congrArg (Path.mk root) (Eq.trans ?_ hparts)
  have hsplit := filter_splitOn_names hnames slashes
  generalize (List.replicate slashes '/' ++ ['/'].intercalate (parts.map String.toList)).splitOn '/' = texts at hsplit ⊢
  rw [← hsplit, List.filter_map, List.filter_map, List.filter_filter]
  refine congrArg _ (List.filter_congr fun l _ => ?_)
  cases l <;> simp

/-- Each path has its own text. -/
theorem eq_of_text (hp : p.Spelled) (hq : q.Spelled) (h : p.toString = q.toString) : p = q := by
  rw [← ofString_toString hp, h, ofString_toString hq]

theorem zero_notMem_text (h : p.Spelled) : '\x00' ∉ p.toString.toList := by
  by_cases hdot : p.root ≠ "" ∨ p.parts ≠ []
  · rw [toString_of_ne hdot, List.mem_append, not_or]
    refine ⟨?_, fun hmem => ?_⟩
    · rcases h.root with h | h | h <;> rw [h] <;> decide
    · obtain hslash | ⟨l, hl, hzero⟩ := eq_or_mem_of_intercalate hmem
      · exact absurd hslash (by decide)
      · obtain ⟨name, hname, rfl⟩ := List.mem_map.mp hl
        exact h.zero name hname hzero
  · obtain ⟨hroot, hparts⟩ := not_or.mp hdot
    rw [toString, not_not.mp hroot, not_not.mp hparts]
    decide

/-! ### The order -/

/-- Of two different paths one stands before the other. -/
theorem eq_of_le (hp : p.Spelled) (hq : q.Spelled) (h : le p q = true) (h' : le q p = true) : p = q := by
  -- A path with a root has a slash in its key, and no other path has one.
  have hslash : ∀ {p q : Path}, p.Spelled → q.Spelled → p.isAbsolute → ¬q.isAbsolute → p.key ≠ q.key := by
    intro p q hp hq habs hrel heq
    rw [isAbsolute, Bool.not_eq_true'] at habs
    rw [isAbsolute, Bool.not_eq_true', Bool.not_eq_false] at hrel
    rw [key, habs, if_neg Bool.false_ne_true, key, hrel, if_pos rfl] at heq
    have hmem : p.root ∈ q.parts := heq ▸ List.mem_cons_self
    rcases hp.root with hroot | hroot | hroot
    · rw [hroot] at habs
      exact absurd habs (by decide)
    · exact hq.slash _ hmem (by rw [hroot]; decide)
    · exact hq.slash _ hmem (by rw [hroot]; decide)
  have hkey : p.key = q.key := le_antisymm (le_iff.mp h) (le_iff.mp h')
  by_cases hpabs : p.isAbsolute <;> by_cases hqabs : q.isAbsolute
  · exact eq_of_key hpabs hqabs hkey
  · exact absurd hkey (hslash hp hq hpabs hqabs)
  · exact absurd hkey.symm (hslash hq hp hqabs hpabs)
  · rw [isAbsolute, Bool.not_eq_true', Bool.not_eq_false] at hpabs hqabs
    rw [key, if_pos hpabs, key, if_pos hqabs] at hkey
    cases p
    cases q
    exact congr (congrArg Path.mk ((String.isEmpty_iff.mp hpabs).trans (String.isEmpty_iff.mp hqabs).symm)) hkey

end Path

end ResponseShapes
