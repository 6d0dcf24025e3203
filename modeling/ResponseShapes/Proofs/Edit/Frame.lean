import Mathlib.Algebra.GroupWithZero.Nat
import Mathlib.Data.List.Basic
import ResponseShapes.Proofs.Edit.Apart

/-! # What edits leave as it is

An element that no edit replaces moves by what the edits before it insert and take away (`moved`). A stretch into
which no edit reaches stands in the result in one piece (`slice_apply`), and elements that are not replaced keep
their order (`moved_lt`). -/

namespace ResponseShapes.Edit

variable {α : Type}

/-- The edits that stop at `p` or before it. -/
def upTo (p : Nat) (es : List (Edit α)) : List (Edit α) :=
  es.filter fun e => e.stop ≤ p

/-- Where the element at `p` stands after the edits. -/
def moved (es : List (Edit α)) (p : Nat) : Nat :=
  p + ((upTo p es).map (·.replacement.length)).sum - ((upTo p es).map fun e => e.stop - e.start).sum

/-- No edit reaches into the stretch from `a` up to `b`. -/
def Untouched (es : List (Edit α)) (a b : Nat) : Prop :=
  ∀ e ∈ es, e.stop ≤ a ∨ b ≤ e.start

theorem mem_upTo {p : Nat} {es : List (Edit α)} {e : Edit α} : e ∈ upTo p es ↔ e ∈ es ∧ e.stop ≤ p := by
  simp [upTo]

theorem upTo_upTo {p q : Nat} (h : p ≤ q) (es : List (Edit α)) : upTo p (upTo q es) = upTo p es := by
  unfold upTo
  rw [List.filter_filter]
  apply List.filter_congr
  intro e _
  by_cases hp : e.stop ≤ p
  · simp [hp, Nat.le_trans hp h]
  · simp [hp]

theorem upTo_eq_self {p : Nat} {es : List (Edit α)} (h : ∀ e ∈ es, e.stop ≤ p) : upTo p es = es :=
  List.filter_eq_self.mpr fun e he => decide_eq_true (h e he)

theorem Untouched.mono {es : List (Edit α)} {a b c d : Nat} (h : Untouched es a b) (hac : a ≤ c) (hdb : d ≤ b) :
    Untouched es c d := fun e he => by
  rcases h e he with h | h <;> omega

/-! ### Lengths -/

theorem length_woven {xs : List α} {es : List (Edit α)} {stop : Nat} (h : Descends stop es)
    (hlen : stop ≤ xs.length) :
    (woven xs stop es).length + (es.map fun e => e.stop - e.start).sum =
      stop + (es.map (·.replacement.length)).sum := by
  induction es generalizing stop with
  | nil => simp [woven, hlen]
  | cons e es ih =>
    obtain ⟨hle, hn, hes⟩ := h
    have hrec := ih hes (by omega)
    have hgap : ((xs.take stop).drop e.stop).length = stop - e.stop := by
      rw [List.length_drop, List.length_take, Nat.min_eq_left hlen]
    simp only [woven, List.length_append, List.map_cons, List.sum_cons, hgap]
    omega

theorem moved_eq_length {xs : List α} {es : List (Edit α)} {p : Nat} (h : Descends p (upTo p es))
    (hlen : p ≤ xs.length) : moved es p = (woven xs p (upTo p es)).length := by
  have := length_woven h hlen
  unfold moved
  omega

theorem moved_perm {es fs : List (Edit α)} (h : es.Perm fs) (p : Nat) : moved es p = moved fs p := by
  have hu : (upTo p es).Perm (upTo p fs) := h.filter _
  unfold moved
  rw [(hu.map _).sum_nat, (hu.map fun e => e.stop - e.start).sum_nat]

/-! ### Stretches that are not touched -/

theorem descends_upTo {es : List (Edit α)} {stop p : Nat} (h : Descends stop es) : Descends p (upTo p es) := by
  induction es generalizing stop with
  | nil => trivial
  | cons e es ih =>
    obtain ⟨hle, hn, hes⟩ := h
    by_cases hp : e.stop ≤ p
    · have hall : upTo p (e :: es) = e :: es := by
        apply upTo_eq_self
        intro d hd
        rcases List.mem_cons.mp hd with rfl | hd
        · exact hp
        · have := (hes.stop_le d hd).2
          omega
      rw [hall]
      exact ⟨hle, hp, hes⟩
    · have hskip : upTo p (e :: es) = upTo p es := by simp [upTo, hp]
      rw [hskip]
      exact ih hes

/-- The result holds an untouched stretch in one piece, behind what the edits before it make. -/
theorem woven_split (xs : List α) {es : List (Edit α)} {stop a b : Nat} (h : Descends stop es) (hab : a ≤ b)
    (hb : b ≤ stop) (hfree : Untouched es a b) :
    ∃ rest, woven xs stop es = woven xs a (upTo a es) ++ (xs.take b).drop a ++ rest := by
  induction es generalizing stop with
  | nil =>
    refine ⟨(xs.take stop).drop b, ?_⟩
    have h₁ : xs.take a = (xs.take b).take a := by rw [List.take_take, Nat.min_eq_left hab]
    have h₂ : xs.take b = (xs.take stop).take b := by rw [List.take_take, Nat.min_eq_left hb]
    calc xs.take stop = (xs.take stop).take b ++ (xs.take stop).drop b := (List.take_append_drop _ _).symm
      _ = (xs.take b).take a ++ (xs.take b).drop a ++ (xs.take stop).drop b := by
        rw [← h₂, List.take_append_drop]
      _ = xs.take a ++ (xs.take b).drop a ++ (xs.take stop).drop b := by rw [← h₁]
  | cons e es ih =>
    obtain ⟨hle, hn, hes⟩ := h
    by_cases hstop : e.stop ≤ a
    · -- All edits end before the stretch, which lies in the gap behind the last of them.
      have hall : upTo a (e :: es) = e :: es := by
        apply upTo_eq_self
        intro d hd
        rcases List.mem_cons.mp hd with rfl | hd
        · exact hstop
        · have := (hes.stop_le d hd).2
          omega
      refine ⟨(xs.take stop).drop b, ?_⟩
      have hgap : (xs.take stop).drop e.stop =
          (xs.take a).drop e.stop ++ (xs.take b).drop a ++ (xs.take stop).drop b := by
        rw [drop_eq_drop_take_append (n := b) (by omega) (xs.take stop), List.take_take, Nat.min_eq_left hb,
          drop_eq_drop_take_append hstop (xs.take b), List.take_take, Nat.min_eq_left hab]
      rw [hall]
      simp only [woven, hgap, List.append_assoc]
    · have hstart : b ≤ e.start := (hfree e List.mem_cons_self).resolve_left hstop
      have hskip : upTo a (e :: es) = upTo a es := by simp [upTo, hstop]
      obtain ⟨rest, hrest⟩ := ih hes hstart fun d hd => hfree d (List.mem_cons_of_mem _ hd)
      refine ⟨rest ++ e.replacement ++ (xs.take stop).drop e.stop, ?_⟩
      rw [hskip]
      simp only [woven, hrest, List.append_assoc]

section Result
variable {xs ys : List α} {es : List (Edit α)} (hfit : ∀ e ∈ es, Fits xs.length e) (hapart : es.Pairwise Apart)
  (hys : apply xs es = .ok ys)
include hfit hapart hys

/-- An untouched stretch stands in the result where `moved` says. -/
theorem slice_apply {a b : Nat} (hab : a ≤ b) (hb : b ≤ xs.length) (hfree : Untouched es a b) :
    (ys.drop (moved es a)).take (b - a) = (xs.drop a).take (b - a) := by
  have hdesc := inOrder_descends hfit hapart
  have hfree' : Untouched (inOrder es) a b := fun e he => hfree e ((inOrder_perm es).mem_iff.mp he)
  obtain ⟨rest, hrest⟩ := woven_split xs hdesc hab hb hfree'
  have hout : ys = woven xs xs.length (inOrder es) := by
    have := (apply_eq_woven hfit hapart).symm.trans hys
    exact (Except.ok.inj this).symm
  have hpos : moved es a = (woven xs a (upTo a (inOrder es))).length := by
    rw [← moved_perm (inOrder_perm es) a]
    exact moved_eq_length (descends_upTo hdesc) (by omega)
  have hpiece : (xs.take b).drop a = (xs.drop a).take (b - a) := List.drop_take
  have hsize : ((xs.drop a).take (b - a)).length = b - a := by
    rw [List.length_take, List.length_drop]
    omega
  rw [hout, hrest, hpos, List.append_assoc, List.drop_left, hpiece, List.take_left' hsize]

theorem getElem?_apply {p : Nat} (hp : p < xs.length) (hfree : Untouched es p (p + 1)) :
    ys[moved es p]? = xs[p]? := by
  have h := slice_apply hfit hapart hys (Nat.le_succ p) hp hfree
  have hone : p + 1 - p = 1 := by omega
  rw [hone] at h
  have head : ∀ (zs : List α) (n : Nat), zs[n]? = ((zs.drop n).take 1)[0]? := fun zs n => by
    rw [List.getElem?_take_of_lt Nat.one_pos, List.getElem?_drop, Nat.add_zero]
  rw [head ys, h, ← head xs]

omit hys

theorem moved_lt {p q : Nat} (hpq : p < q) (hq : q ≤ xs.length) (hfree : Untouched es p (p + 1)) :
    moved es p < moved es q := by
  have hdesc := inOrder_descends hfit hapart
  have hfree' : Untouched (upTo q (inOrder es)) p (p + 1) := fun e he =>
    hfree e ((inOrder_perm es).mem_iff.mp (mem_upTo.mp he).1)
  obtain ⟨rest, hrest⟩ := woven_split xs (descends_upTo hdesc) (Nat.le_succ p) hpq hfree'
  have hp : moved es p = (woven xs p (upTo p (inOrder es))).length := by
    rw [← moved_perm (inOrder_perm es) p]
    exact moved_eq_length (descends_upTo hdesc) (by omega)
  have hq' : moved es q = (woven xs q (upTo q (inOrder es))).length := by
    rw [← moved_perm (inOrder_perm es) q]
    exact moved_eq_length (descends_upTo hdesc) hq
  have hone : ((xs.take (p + 1)).drop p).length = 1 := by
    rw [List.length_drop, List.length_take]
    omega
  rw [hp, hq', hrest, upTo_upTo (by omega), List.length_append, List.length_append, hone]
  omega

end Result

end ResponseShapes.Edit
