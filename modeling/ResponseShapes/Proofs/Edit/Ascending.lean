import Mathlib.Algebra.Ring.Int.Defs
import Mathlib.Data.List.Permutation
import ResponseShapes.Proofs.Edit.Frame

/-! # Edits from the first to the last

Edits are made from the last to the first, but what they make is told from the first to the last: the elements between
their stretches, with the replacements in the places of these (`laid`). Edits of one stretch come out with the one
given last in front (`Ascending`). The edits are refused exactly if one of them reaches behind the start of a later one,
and their order matters for nothing but edits of one stretch (`apply_ascending`). -/

namespace ResponseShapes.Edit

variable {α : Type} {xs : List α} {es fs sorted : List (Edit α)} {bound position : Nat}

/-! ### Order -/

/-- Whether the edit replaces the stretch from `start` up to `stop`. -/
def replaces (start stop : Nat) (e : Edit α) : Bool :=
  e.start = start && e.stop = stop

/-- The edits in the order of their starts and then of their stops; those of one stretch from the one given last to the
    one given first. -/
structure Ascending (es sorted : List (Edit α)) : Prop where
  perm : sorted.Perm es
  ordered : sorted.Pairwise fun a b => a.start < b.start ∨ a.start = b.start ∧ a.stop ≤ b.stop
  reversed : ∀ start stop, sorted.filter (replaces start stop) = (es.filter (replaces start stop)).reverse

theorem replaces_iff {start stop : Nat} {e : Edit α} : replaces start stop e = true ↔ e.start = start ∧ e.stop = stop := by
  simp [replaces]

theorem filter_inOrder (es : List (Edit α)) (start stop : Nat) :
    (inOrder es).filter (replaces start stop) = es.filter (replaces start stop) := by
  have hsame : (es.filter (replaces start stop)).Pairwise fun a b => notBefore a b = true := by
    refine List.pairwise_of_forall_mem_list fun a ha b hb => notBefore_iff.mpr ?_
    obtain ⟨hstart, hstop⟩ := replaces_iff.mp (List.mem_filter.mp ha).2
    obtain ⟨hstart', hstop'⟩ := replaces_iff.mp (List.mem_filter.mp hb).2
    omega
  -- The sort is stable, so edits of one stretch keep their order.
  have hstable : (es.filter (replaces start stop)).Sublist (inOrder es) :=
    List.sublist_mergeSort notBefore_trans notBefore_total hsame List.filter_sublist
  have hfiltered := hstable.filter (replaces start stop)
  rw [List.filter_filter, List.filter_congr (q := replaces start stop) (fun e _ => Bool.and_self _)] at hfiltered
  exact (hfiltered.eq_of_length ((inOrder_perm es).filter _).length_eq.symm).symm

theorem ascending_reverse_inOrder (es : List (Edit α)) : Ascending es (inOrder es).reverse where
  perm := (List.reverse_perm _).trans (inOrder_perm es)
  ordered := by
    refine List.pairwise_reverse.mpr ((inOrder_pairwise es).imp fun h => ?_)
    rw [notBefore_iff] at h
    omega
  reversed := fun start stop => by rw [List.filter_reverse, filter_inOrder]

theorem mem_iff_of_filter (h : ∀ start stop, es.filter (replaces start stop) = fs.filter (replaces start stop))
    (e : Edit α) : e ∈ es ↔ e ∈ fs := by
  have hself : replaces e.start e.stop e = true := replaces_iff.mpr ⟨rfl, rfl⟩
  have hfilter : e ∈ es.filter (replaces e.start e.stop) ↔ e ∈ fs.filter (replaces e.start e.stop) := by rw [h]
  rwa [List.mem_filter, List.mem_filter, and_iff_left hself, and_iff_left hself] at hfilter

/-- Edits in order are determined by those of each stretch. -/
theorem eq_of_ordered {es fs : List (Edit α)}
    (hes : es.Pairwise fun a b => a.start < b.start ∨ a.start = b.start ∧ a.stop ≤ b.stop)
    (hfs : fs.Pairwise fun a b => a.start < b.start ∨ a.start = b.start ∧ a.stop ≤ b.stop)
    (h : ∀ start stop, es.filter (replaces start stop) = fs.filter (replaces start stop)) : es = fs := by
  have hmem := mem_iff_of_filter h
  induction es generalizing fs with
  | nil => exact (List.eq_nil_iff_forall_not_mem.mpr fun e he => List.not_mem_nil ((hmem e).mpr he)).symm
  | cons a es ih =>
    cases fs with
    | nil => exact absurd ((hmem a).mp List.mem_cons_self) List.not_mem_nil
    | cons b fs =>
      rw [List.pairwise_cons] at hes hfs
      -- Each of the two first edits stands in the other list, so they have one stretch.
      have hstretch : b.start = a.start ∧ b.stop = a.stop := by
        rcases List.mem_cons.mp ((hmem a).mp List.mem_cons_self) with rfl | ha
        · exact ⟨rfl, rfl⟩
        rcases List.mem_cons.mp ((hmem b).mpr List.mem_cons_self) with rfl | hb
        · exact ⟨rfl, rfl⟩
        have hab := hes.1 b hb
        have hba := hfs.1 a ha
        omega
      have hfirst := h a.start a.stop
      rw [List.filter_cons_of_pos (replaces_iff.mpr ⟨rfl, rfl⟩), List.filter_cons_of_pos (replaces_iff.mpr hstretch)] at hfirst
      obtain ⟨rfl, -⟩ := List.cons.inj hfirst
      have hrest (start stop : Nat) : es.filter (replaces start stop) = fs.filter (replaces start stop) := by
        have hboth := h start stop
        rw [List.filter_cons, List.filter_cons] at hboth
        split at hboth
        · exact (List.cons.inj hboth).2
        · exact hboth
      rw [ih hes.2 hfs.2 hrest (mem_iff_of_filter hrest)]

theorem ascending_iff : Ascending es sorted ↔ sorted = (inOrder es).reverse := by
  constructor
  · intro h
    have h' := ascending_reverse_inOrder es
    exact eq_of_ordered h.ordered h'.ordered fun start stop => (h.reversed start stop).trans (h'.reversed start stop).symm
  · rintro rfl
    exact ascending_reverse_inOrder es

/-- The order in which edits of different stretches are given does not matter. -/
theorem inOrder_eq_of_perm (hstretches : (es.map fun e => (e.start, e.stop)).Nodup) (h : fs.Perm es) :
    inOrder fs = inOrder es := by
  have hperm : (inOrder fs).Perm (inOrder es) := (inOrder_perm fs).trans (h.trans (inOrder_perm es).symm)
  refine hperm.eq_of_pairwise (fun a b ha hb hab hba => ?_) (inOrder_pairwise fs) (inOrder_pairwise es)
  have ha' : a ∈ es := h.mem_iff.mp ((inOrder_perm fs).mem_iff.mp ha)
  have hb' : b ∈ es := (inOrder_perm es).mem_iff.mp hb
  rw [notBefore_iff] at hab hba
  refine List.inj_on_of_nodup_map hstretches ha' hb' (Prod.ext ?_ ?_)
  · simp only
    omega
  · simp only
    omega

/-! ### Overlaps -/

/-- No edit reaches behind the start of a later one. -/
def Clear (sorted : List (Edit α)) : Prop :=
  sorted.Pairwise fun a b => a.stop ≤ b.start

theorem Descends.pairwise (h : Descends bound es) : es.Pairwise fun a b => b.stop ≤ a.start := by
  induction es generalizing bound with
  | nil => exact .nil
  | cons e es ih =>
    obtain ⟨-, -, hes⟩ := h
    exact .cons (fun d hd => (hes.stop_le d hd).2) (ih hes)

theorem descends_reverse_iff (hfit : ∀ e ∈ sorted, Fits bound e) : Descends bound sorted.reverse ↔ Clear sorted := by
  have hfit' : ∀ e ∈ sorted.reverse, Fits bound e := fun e he => hfit e (List.mem_reverse.mp he)
  exact ⟨fun h => List.pairwise_reverse.mp h.pairwise, fun h => descends_of_pairwise hfit' (List.pairwise_reverse.mpr h)⟩

/-- In order, two edits of one stretch replace nothing unless one reaches behind the start of a later one. -/
theorem Clear.start_eq_stop (h : Clear sorted) (hfit : ∀ e ∈ sorted, Fits bound e) :
    sorted.Pairwise fun a b => (a.start, a.stop) = (b.start, b.stop) → a.start = a.stop := by
  refine h.imp_of_mem fun {a b} ha _ hab heq => ?_
  obtain ⟨hstart, -⟩ := Prod.mk.inj heq
  have hle := (hfit a ha).1
  omega

/-- Making edits fails at the first one that reaches behind the start of the one made before. -/
theorem applyFrom_eq_error_iff {ys : List α} {e : Edit α} (he : e.start ≤ e.stop) (hbound : e.stop ≤ bound)
    (hes : ∀ d ∈ es, d.start ≤ d.stop) : applyFrom bound ys (e :: es) = .error (.overlap position) ↔
      ∃ before next d after, e :: es = before ++ next :: d :: after ∧ Descends bound (before ++ [next]) ∧
        next.start < d.stop ∧ d.start = position := by
  induction es generalizing bound ys e with
  | nil =>
    rw [applyFrom, if_neg (by omega), applyFrom]
    refine iff_of_false (by simp) ?_
    rintro ⟨before, next, d, after, heq, -⟩
    have hlength := congrArg List.length heq
    simp only [List.length_append, List.length_cons, List.length_nil] at hlength
    omega
  | cons d es ih =>
    obtain ⟨hd, hes⟩ := List.forall_mem_cons.mp hes
    rw [applyFrom, if_neg (by omega)]
    constructor
    · intro h
      by_cases hover : e.start < d.stop
      · rw [applyFrom, if_pos hover] at h
        injection h with h
        injection h with h
        exact ⟨[], e, d, es, rfl, ⟨he, hbound, trivial⟩, hover, h⟩
      · obtain ⟨before, next, d', after, heq, hdesc, hnext, hstart⟩ := (ih hd (by omega) hes).mp h
        exact ⟨e :: before, next, d', after, congrArg (e :: ·) heq, ⟨he, hbound, hdesc⟩, hnext, hstart⟩
    · rintro ⟨before, next, d', after, heq, hdesc, hnext, hstart⟩
      cases before with
      | nil =>
        obtain ⟨rfl, htail⟩ := List.cons.inj heq
        obtain ⟨rfl, rfl⟩ := List.cons.inj htail
        rw [applyFrom, if_pos hnext, hstart]
      | cons e' before =>
        obtain ⟨rfl, htail⟩ := List.cons.inj heq
        have hfirst : d.stop ≤ e.start := by
          cases before with
          | nil =>
            obtain ⟨rfl, -⟩ := List.cons.inj htail
            exact hdesc.2.2.2.1
          | cons d'' before =>
            obtain ⟨rfl, -⟩ := List.cons.inj htail
            exact hdesc.2.2.2.1
        exact (ih hd hfirst hes).mpr ⟨before, next, d', after, htail, hdesc.2.2, hnext, hstart⟩

theorem descends_of_applyFrom {ys zs : List α} (hes : ∀ e ∈ es, e.start ≤ e.stop) (h : applyFrom bound ys es = .ok zs) :
    Descends bound es := by
  induction es generalizing bound ys with
  | nil => trivial
  | cons e es ih =>
    obtain ⟨he, hes⟩ := List.forall_mem_cons.mp hes
    rw [applyFrom] at h
    split at h
    · cases h
    · exact ⟨he, by omega, ih hes h⟩

theorem apply_eq_ok_iff (hfit : ∀ e ∈ es, Fits xs.length e) :
    (∃ ys, apply xs es = .ok ys) ↔ Clear (inOrder es).reverse := by
  have hfit' : ∀ e ∈ (inOrder es).reverse, Fits xs.length e := fun e he =>
    hfit e ((inOrder_perm es).mem_iff.mp (List.mem_reverse.mp he))
  rw [← descends_reverse_iff hfit', List.reverse_reverse]
  constructor
  · rintro ⟨ys, h⟩
    have hfits : ∀ e ∈ inOrder es, Fits xs.length e := fun e he => hfit e ((inOrder_perm es).mem_iff.mp he)
    exact descends_of_pairwise hfits (descends_of_applyFrom (fun e he => (hfits e he).1) h).pairwise
  · exact fun h => ⟨_, apply_of_descends h⟩

theorem apply_eq_error_iff (hfit : ∀ e ∈ es, Fits xs.length e) : apply xs es = .error (.overlap position) ↔
    ∃ before e next after, (inOrder es).reverse = before ++ e :: next :: after ∧ Clear (next :: after) ∧
      next.start < e.stop ∧ e.start = position := by
  have hfits : ∀ e ∈ inOrder es, Fits xs.length e := fun e he => hfit e ((inOrder_perm es).mem_iff.mp he)
  rw [apply]
  cases hlist : inOrder es with
  | nil => simp [applyFrom]
  | cons e rest =>
    rw [hlist] at hfits
    obtain ⟨he, hrest⟩ := List.forall_mem_cons.mp hfits
    rw [applyFrom_eq_error_iff he.1 (Nat.le_succ_of_le he.2) fun d hd => (hrest d hd).1]
    constructor
    · rintro ⟨before, next, d, after, heq, hdesc, hover, hstart⟩
      have hmade : (before ++ [next]).reverse = next :: before.reverse := List.reverse_concat
      exact ⟨after.reverse, d, next, before.reverse, by simp [heq], hmade ▸ List.pairwise_reverse.mpr hdesc.pairwise, hover,
        hstart⟩
    · rintro ⟨before, d, next, after, heq, hclear, hover, hstart⟩
      have heq' : e :: rest = after.reverse ++ next :: d :: before.reverse := by
        simpa using congrArg List.reverse heq
      refine ⟨after.reverse, next, d, before.reverse, heq', ?_, hover, hstart⟩
      have hmem : ∀ c ∈ after.reverse ++ [next], Fits (xs.length + 1) c := fun c hc => by
        have hc' : c ∈ e :: rest := by
          rw [heq', List.append_cons]
          exact List.mem_append_left _ hc
        exact ⟨(hfits c hc').1, Nat.le_succ_of_le (hfits c hc').2⟩
      have hmade : (after.reverse ++ [next]).reverse = next :: after := by simp
      exact descends_of_pairwise hmem (List.pairwise_reverse.mp (hmade ▸ hclear))

/-! ### What edits make -/

/-- The elements from `position` up to `stop`, with the replacements of the edits in the places of their stretches. -/
def laid (xs : List α) (position stop : Nat) : List (Edit α) → List α
  | [] => (xs.take stop).drop position
  | e :: es => (xs.take e.start).drop position ++ e.replacement ++ laid xs e.stop stop es

theorem laid_concat (e : Edit α) (position stop : Nat) :
    laid xs position stop (es ++ [e]) = laid xs position e.start es ++ e.replacement ++ (xs.take stop).drop e.stop := by
  induction es generalizing position with
  | nil => rfl
  | cons d es ih => simp only [List.cons_append, laid, ih, List.append_assoc]

theorem woven_eq_laid (stop : Nat) : woven xs stop es = laid xs 0 stop es.reverse := by
  induction es generalizing stop with
  | nil => rfl
  | cons e es ih => rw [woven, ih, List.reverse_cons, laid_concat]

/-- Edits that keep apart make what is told by going through them from the first to the last. -/
theorem apply_eq_laid (hfit : ∀ e ∈ es, Fits xs.length e) (hapart : es.Pairwise Apart) (hperm : sorted.Perm es)
    (hclear : Clear sorted) : apply xs es = .ok (laid xs 0 xs.length sorted) := by
  have hstretches : (es.map fun e => (e.start, e.stop)).Nodup := List.pairwise_map.mpr (hapart.imp And.right)
  have hordered : sorted.Pairwise fun a b => a.start < b.start ∨ a.start = b.start ∧ a.stop ≤ b.stop := by
    refine hclear.imp_of_mem fun {a b} ha hb hab => ?_
    have hfita := hfit a (hperm.mem_iff.mp ha)
    have hfitb := hfit b (hperm.mem_iff.mp hb)
    unfold Fits at hfita hfitb
    omega
  have hsame : (inOrder es).reverse = sorted := by
    have h := ascending_reverse_inOrder es
    refine (h.perm.trans hperm.symm).eq_of_pairwise (fun a b ha hb hab hba => ?_) h.ordered hordered
    refine List.inj_on_of_nodup_map hstretches (h.perm.mem_iff.mp ha) (hperm.mem_iff.mp hb) (Prod.ext ?_ ?_)
    · simp only
      omega
    · simp only
      omega
  rw [apply_eq_woven hfit hapart, woven_eq_laid, hsame]

theorem sum_growth (h : ∀ e ∈ es, e.start ≤ e.stop) :
    (es.map fun e => (e.replacement.length : Int) - (e.stop - e.start)).sum + (es.map fun e => e.stop - e.start).sum =
      (es.map (·.replacement.length)).sum := by
  induction es with
  | nil => rfl
  | cons e es ih =>
    obtain ⟨he, hes⟩ := List.forall_mem_cons.mp h
    have hrest := ih hes
    simp only [List.map_cons, List.sum_cons, Int.natCast_add] at hrest ⊢
    omega

/-- Edits that lie in a list are made in the one order by their stretches, among which those of one stretch go from the
    one given last to the one given first. They are refused exactly if one reaches behind the start of a later one, at
    the last one of these. Otherwise only empty stretches occur twice, the list is what lies between the stretches with
    the replacements in the places of these, and it has grown by what the replacements are longer than the stretches.
    Where no stretch occurs twice, the edits may be given in any order. -/
theorem apply_ascending (xs : List α) (es : List (Edit α)) (hfit : ∀ e ∈ es, Fits xs.length e) :
    ∃ sorted, (∀ other, Ascending es other ↔ other = sorted) ∧
      ((∃ position, apply xs es = .error (.overlap position)) ↔ ¬ Clear sorted) ∧
      (∀ position, apply xs es = .error (.overlap position) ↔
        ∃ before e next after, sorted = before ++ e :: next :: after ∧ Clear (next :: after) ∧ next.start < e.stop ∧
          e.start = position) ∧
      (Clear sorted →
        sorted.Pairwise (fun a b => (a.start, a.stop) = (b.start, b.stop) → a.start = a.stop) ∧
        ∃ ys, apply xs es = .ok ys ∧ ys = laid xs 0 xs.length sorted ∧
          (ys.length : Int) = xs.length + (es.map fun e => (e.replacement.length : Int) - (e.stop - e.start)).sum) ∧
      ((es.map fun e => (e.start, e.stop)).Nodup → ∀ fs : List (Edit α), fs.Perm es → apply xs fs = apply xs es) := by
  have hfit' : ∀ e ∈ (inOrder es).reverse, Fits xs.length e := fun e he =>
    hfit e ((inOrder_perm es).mem_iff.mp (List.mem_reverse.mp he))
  refine ⟨(inOrder es).reverse, fun other => ascending_iff, ?_, ?_, ?_, ?_⟩
  · rw [← apply_eq_ok_iff hfit]
    cases h : apply xs es with
    | ok ys => simp
    | error fault =>
      obtain ⟨position⟩ := fault
      simp
  · exact fun position => apply_eq_error_iff hfit
  · intro hclear
    have hdesc : Descends xs.length (inOrder es) := by
      rwa [← descends_reverse_iff hfit', List.reverse_reverse] at hclear
    refine ⟨hclear.start_eq_stop hfit', _, apply_of_descends hdesc, woven_eq_laid _, ?_⟩
    have hlength := length_woven hdesc (Nat.le_refl xs.length)
    rw [((inOrder_perm es).map fun e => e.stop - e.start).sum_nat,
      ((inOrder_perm es).map fun e => e.replacement.length).sum_nat] at hlength
    have hgrowth := sum_growth fun e he => (hfit e he).1
    omega
  · intro hstretches fs hperm
    rw [apply, apply, inOrder_eq_of_perm hstretches hperm]

/-! ### Two insertions in one place -/

namespace Insertions

/-- The bytes of six letters. -/
def letters : List UInt8 := [97, 98, 99, 100, 101, 102]

def given : List (Edit UInt8) :=
  [⟨4, 4, [120, 121]⟩, ⟨1, 2, [122]⟩, ⟨4, 4, [65]⟩]

def made : List (Edit UInt8) :=
  [⟨1, 2, [122]⟩, ⟨4, 4, [65]⟩, ⟨4, 4, [120, 121]⟩]

end Insertions

/-- The insertion given last comes out in front. -/
theorem apply_ascending_insertions : (∀ e ∈ Insertions.given, Fits Insertions.letters.length e) ∧
    Ascending Insertions.given Insertions.made ∧ Clear Insertions.made ∧
    apply Insertions.letters Insertions.given = .ok [97, 122, 99, 100, 65, 120, 121, 101, 102] := by
  have hfit : ∀ e ∈ Insertions.given, Fits Insertions.letters.length e := by decide
  have hsorted : Ascending Insertions.given Insertions.made := ascending_iff.mpr (by cbv)
  have hclear : Clear Insertions.made := by simp [Clear, Insertions.made]
  obtain ⟨sorted, hiff, -, -, hok, -⟩ := apply_ascending Insertions.letters Insertions.given hfit
  obtain rfl : Insertions.made = sorted := (hiff _).mp hsorted
  obtain ⟨-, ys, hys, rfl, -⟩ := hok hclear
  exact ⟨hfit, hsorted, hclear, hys⟩

end ResponseShapes.Edit
