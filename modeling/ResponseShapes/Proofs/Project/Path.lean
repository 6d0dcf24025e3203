import Mathlib.Data.List.Induction
import Mathlib.Data.String.Basic
import ResponseShapes.Project.Path

/-! # The order and the texts of paths

Of absolute paths each set has one order only (`eq_of_perm`), and if no name holds a slash each of them has its own
text (`eq_of_toString`). Two dots take back the name before them and are gone (`withoutDots_append`,
`withoutDots_back`). -/

namespace ResponseShapes.Path

variable {p q r : Path} {ps qs : List Path}

/-! ### The order -/

/-- The names by which paths are compared. -/
def key (p : Path) : List String :=
  if p.root.isEmpty then p.parts else p.root :: p.parts

theorem le_iff : le p q = true ↔ p.key ≤ q.key := by
  rw [← not_lt]
  unfold le
  rw [Bool.not_eq_true', decide_eq_false_iff_not]
  rfl

theorem trans_le (p q r : Path) (h : le p q = true) (h' : le q r = true) : le p r = true :=
  le_iff.mpr ((le_iff.mp h).trans (le_iff.mp h'))

theorem total_le (p q : Path) : (le p q || le q p) = true := by
  rw [Bool.or_eq_true, le_iff, le_iff]
  exact le_total p.key q.key

theorem eq_of_key (hp : p.isAbsolute) (hq : q.isAbsolute) (h : p.key = q.key) : p = q := by
  rw [isAbsolute, Bool.not_eq_true'] at hp hq
  rw [key, hp, if_neg Bool.false_ne_true, key, hq, if_neg Bool.false_ne_true] at h
  obtain ⟨hroot, hparts⟩ := List.cons.inj h
  cases p
  cases q
  exact congr (congrArg Path.mk hroot) hparts

theorem perm_sort (ps : List Path) : (sort ps).Perm ps :=
  List.mergeSort_perm ps le

theorem pairwise_sort (ps : List Path) : (sort ps).Pairwise (le · · = true) :=
  List.pairwise_mergeSort trans_le total_le ps

/-- The same absolute paths have one order only. -/
theorem eq_of_perm (habs : ∀ p ∈ ps, p.isAbsolute) (h : ps.Perm qs) (hps : ps.Pairwise (le · · = true))
    (hqs : qs.Pairwise (le · · = true)) : ps = qs := by
  refine h.eq_of_pairwise (fun p q hp hq hpq hqp => ?_) hps hqs
  exact eq_of_key (habs p hp) (habs q (h.mem_iff.mpr hq)) (le_antisymm (le_iff.mp hpq) (le_iff.mp hqp))

/-! ### The texts -/

/-- The path is absolute and not the top, and its names could be those of files. -/
structure Named (p : Path) : Prop where
  root : p.root = "/"
  parts : p.parts ≠ []
  slash : ∀ name ∈ p.parts, '/' ∉ name.toList
  zero : ∀ name ∈ p.parts, '\x00' ∉ name.toList

theorem toList_toString (h : p.Named) : p.toString.toList = '/' :: ['/'].intercalate (p.parts.map String.toList) := by
  have hparts : p.parts.isEmpty = false := List.isEmpty_eq_false_iff.mpr h.parts
  rw [toString, hparts, Bool.and_false, if_neg Bool.false_ne_true, h.root, String.toList_append, String.toList_intercalate]
  rfl

theorem eq_or_mem_of_intercalate {c d : Char} {ls : List (List Char)} (h : c ∈ [d].intercalate ls) :
    c = d ∨ ∃ l ∈ ls, c ∈ l := by
  induction ls with
  | nil => cases h
  | cons l ls ih =>
    cases ls with
    | nil => exact .inr ⟨l, List.mem_cons_self, by simpa using h⟩
    | cons l' ls =>
      rw [List.intercalate_cons_cons, List.mem_append, List.mem_append, List.mem_singleton] at h
      obtain (h | h) | h := h
      · exact .inr ⟨l, List.mem_cons_self, h⟩
      · exact .inl h
      · exact (ih h).imp_right fun ⟨l'', hmem, hc⟩ => ⟨l'', List.mem_cons_of_mem _ hmem, hc⟩

theorem zero_notMem_toString (h : p.Named) : '\x00' ∉ p.toString.toList := by
  rw [toList_toString h, List.mem_cons, not_or]
  refine ⟨by decide, fun hmem => ?_⟩
  obtain hslash | ⟨l, hl, hzero⟩ := eq_or_mem_of_intercalate hmem
  · exact absurd hslash (by decide)
  · obtain ⟨name, hname, rfl⟩ := List.mem_map.mp hl
    exact h.zero name hname hzero

theorem eq_of_toString (hp : p.Named) (hq : q.Named) (h : p.toString = q.toString) : p = q := by
  have hlist := congrArg String.toList h
  rw [toList_toString hp, toList_toString hq] at hlist
  have hsplit := congrArg (List.splitOn '/') (List.cons.inj hlist).2
  have hslash : ∀ {p : Path}, p.Named → ∀ l ∈ p.parts.map String.toList, '/' ∉ l := fun h l hl => by
    obtain ⟨name, hname, rfl⟩ := List.mem_map.mp hl
    exact h.slash name hname
  rw [List.splitOn_intercalate '/' (hslash hp) (mt List.map_eq_nil_iff.mp hp.parts),
    List.splitOn_intercalate '/' (hslash hq) (mt List.map_eq_nil_iff.mp hq.parts)] at hsplit
  have hparts : p.parts = q.parts := List.map_injective_iff.mpr (fun _ _ => String.toList_inj.mp) hsplit
  cases p
  cases q
  exact congr (congrArg Path.mk (hp.root.trans hq.root.symm)) hparts

/-! ### Two dots taken back -/

theorem dots_notMem_foldl (parts : List String) : ∀ {back : List String}, ".." ∉ back →
    ".." ∉ parts.foldl (fun back part => if part = ".." then back.tail else part :: back) back := by
  induction parts with
  | nil => exact id
  | cons part parts ih =>
    intro back hback
    rw [List.foldl_cons]
    split
    · exact ih fun h => hback (List.mem_of_mem_tail h)
    · rename_i hpart
      exact ih fun h => (List.mem_cons.mp h).elim (fun heq => hpart heq.symm) hback

theorem foldl_of_no_dots {parts : List String} (h : ".." ∉ parts) (back : List String) :
    parts.foldl (fun back part => if part = ".." then back.tail else part :: back) back = parts.reverse ++ back := by
  induction parts generalizing back with
  | nil => rfl
  | cons part parts ih =>
    rw [List.mem_cons, not_or] at h
    rw [List.foldl_cons, if_neg (Ne.symm h.1), ih h.2, List.reverse_cons, List.append_assoc]
    rfl

theorem dots_notMem_withoutDots (parts : List String) : ".." ∉ withoutDots parts := by
  rw [withoutDots, List.mem_reverse]
  exact dots_notMem_foldl parts List.not_mem_nil

theorem withoutDots_of_no_dots {parts : List String} (h : ".." ∉ parts) : withoutDots parts = parts := by
  rw [withoutDots, foldl_of_no_dots h, List.append_nil, List.reverse_reverse]

theorem withoutDots_append_singleton (parts : List String) {name : String} (h : name ≠ "..") :
    withoutDots (parts ++ [name]) = withoutDots parts ++ [name] := by
  rw [withoutDots, List.foldl_append, List.foldl_cons, List.foldl_nil, if_neg h, List.reverse_cons]
  rfl

/-- Names may be taken back before others follow. -/
theorem withoutDots_append (parts below : List String) :
    withoutDots (parts ++ below) = withoutDots (withoutDots parts ++ below) := by
  rw [withoutDots, List.foldl_append, withoutDots, List.foldl_append, foldl_of_no_dots (dots_notMem_withoutDots parts),
    withoutDots, List.reverse_reverse, List.append_nil]

/-- As many steps up as there are names below a directory lead back to it. -/
theorem withoutDots_back {top back : List String} (htop : ".." ∉ top) (hback : ".." ∉ back) :
    withoutDots (top ++ back ++ List.replicate back.length "..") = top := by
  induction back using List.reverseRecOn with
  | nil => rw [List.append_nil, List.length_nil, List.replicate_zero, List.append_nil, withoutDots_of_no_dots htop]
  | append_singleton back name ih =>
    rw [List.mem_append, not_or] at hback
    have hup : withoutDots (top ++ (back ++ [name]) ++ [".."]) = top ++ back := by
      have hnames : ".." ∉ top ++ (back ++ [name]) := by simpa [htop, hback.1] using hback.2
      rw [withoutDots, List.foldl_append, foldl_of_no_dots hnames]
      simp
    rw [List.length_append, List.length_singleton, Nat.add_comm, List.replicate_add, List.replicate_one,
      ← List.append_assoc, withoutDots_append, hup]
    exact ih hback.1

end ResponseShapes.Path
