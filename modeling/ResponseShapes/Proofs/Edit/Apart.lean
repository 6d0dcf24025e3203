import Mathlib.Data.List.Basic
import ResponseShapes.Edit

/-! # Edits that keep apart

Edits are made from the last to the first, and the only complaint is that one reaches behind the start of the one
made before. Edits of which no two overlap or have the same stretch never complain: put in order they descend, each
ending where the one made before begins or earlier, and the result is what lies between them with the replacements
in their places (`apply_eq_woven`). -/

namespace ResponseShapes.Edit

variable {α : Type}

/-- The stretch that the edit replaces lies in a list of `n` elements. -/
def Fits (n : Nat) (e : Edit α) : Prop :=
  e.start ≤ e.stop ∧ e.stop ≤ n

/-- The edits do not overlap, and their stretches are not the same. -/
def Apart (a b : Edit α) : Prop :=
  (a.stop ≤ b.start ∨ b.stop ≤ a.start) ∧ (a.start, a.stop) ≠ (b.start, b.stop)

theorem Apart.symm {a b : Edit α} (h : Apart a b) : Apart b a :=
  ⟨h.1.symm, h.2.symm⟩

instance (n : Nat) (e : Edit α) : Decidable (Fits n e) :=
  inferInstanceAs (Decidable (_ ∧ _))

instance (a b : Edit α) : Decidable (Apart a b) :=
  inferInstanceAs (Decidable (_ ∧ _))

/-! ### The order in which edits are made -/

/-- Each edit ends where the one before it begins or earlier, and the first one at `stop` or earlier. -/
def Descends : Nat → List (Edit α) → Prop
  | _, [] => True
  | stop, e :: es => e.start ≤ e.stop ∧ e.stop ≤ stop ∧ Descends e.start es

theorem Descends.stop_le {es : List (Edit α)} {n : Nat} (h : Descends n es) :
    ∀ e ∈ es, e.start ≤ e.stop ∧ e.stop ≤ n := by
  induction es generalizing n with
  | nil => intro e he; cases he
  | cons d es ih =>
    obtain ⟨hd, hn, hes⟩ := h
    intro e he
    rcases List.mem_cons.mp he with rfl | he
    · exact ⟨hd, hn⟩
    · obtain ⟨h₁, h₂⟩ := ih hes e he
      exact ⟨h₁, by omega⟩

theorem descends_of_pairwise {es : List (Edit α)} {n : Nat} (hfit : ∀ e ∈ es, Fits n e)
    (h : es.Pairwise fun a b => b.stop ≤ a.start) : Descends n es := by
  induction es generalizing n with
  | nil => trivial
  | cons e es ih =>
    rw [List.pairwise_cons] at h
    obtain ⟨hle, hn⟩ := hfit e List.mem_cons_self
    refine ⟨hle, hn, ih (fun d hd => ?_) h.2⟩
    exact ⟨(hfit d (List.mem_cons_of_mem _ hd)).1, h.1 d hd⟩

theorem notBefore_iff {a b : Edit α} :
    notBefore a b = true ↔ b.start < a.start ∨ a.start = b.start ∧ b.stop ≤ a.stop := by
  simp [notBefore]

theorem notBefore_trans (a b c : Edit α) (hab : notBefore a b = true) (hbc : notBefore b c = true) :
    notBefore a c = true := by
  rw [notBefore_iff] at hab hbc ⊢
  omega

theorem notBefore_total (a b : Edit α) : (notBefore a b || notBefore b a) = true := by
  rw [Bool.or_eq_true, notBefore_iff, notBefore_iff]
  omega

theorem inOrder_pairwise (es : List (Edit α)) : (inOrder es).Pairwise fun a b => notBefore a b = true :=
  List.pairwise_mergeSort notBefore_trans notBefore_total es

theorem inOrder_perm (es : List (Edit α)) : (inOrder es).Perm es :=
  List.mergeSort_perm es _

/-- Of two edits that keep apart, the one that is not made first ends where the other begins or earlier. -/
theorem Apart.stop_le_start {a b : Edit α} (h : Apart a b) (ha : a.start ≤ a.stop) (hb : b.start ≤ b.stop)
    (hab : notBefore a b = true) : b.stop ≤ a.start := by
  obtain ⟨hor, hne⟩ := h
  rw [notBefore_iff] at hab
  rcases hor with hor | hor
  · -- The edits would start and stop at one place.
    exact absurd (Prod.ext (by simp only; omega) (by simp only; omega)) hne
  · exact hor

theorem inOrder_descends {n : Nat} {es : List (Edit α)} (hfit : ∀ e ∈ es, Fits n e) (h : es.Pairwise Apart) :
    Descends n (inOrder es) := by
  have hfit' : ∀ e ∈ inOrder es, Fits n e := fun e he => hfit e ((inOrder_perm es).mem_iff.mp he)
  refine descends_of_pairwise hfit' ?_
  have hapart : (inOrder es).Pairwise Apart := h.perm (inOrder_perm es).symm Apart.symm
  refine (hapart.and (inOrder_pairwise es)).imp_of_mem fun {a b} ha hb hab => ?_
  exact hab.1.stop_le_start (hfit' a ha).1 (hfit' b hb).1 hab.2

/-! ### What edits make of a list -/

/-- What the edits, which descend from `stop`, make of the elements before `stop`. -/
def woven (xs : List α) : Nat → List (Edit α) → List α
  | stop, [] => xs.take stop
  | stop, e :: es => woven xs e.start es ++ e.replacement ++ (xs.take stop).drop e.stop

theorem drop_eq_drop_take_append {m n : Nat} (h : m ≤ n) (xs : List α) :
    xs.drop m = (xs.take n).drop m ++ xs.drop n := by
  rw [List.drop_take]
  calc xs.drop m = (xs.drop m).take (n - m) ++ (xs.drop m).drop (n - m) := (List.take_append_drop _ _).symm
    _ = (xs.drop m).take (n - m) ++ xs.drop n := by rw [List.drop_drop, Nat.add_sub_of_le h]

theorem applyFrom_eq_woven {xs : List α} {es : List (Edit α)} {bound stop : Nat} (h : Descends stop es)
    (hstop : stop ≤ bound) {ys : List α} (hys : ys.take stop = xs.take stop) (hlen : stop ≤ ys.length) :
    applyFrom bound ys es = .ok (woven xs stop es ++ ys.drop stop) := by
  induction es generalizing bound stop ys with
  | nil =>
    unfold applyFrom woven
    rw [← hys, List.take_append_drop]
  | cons e es ih =>
    obtain ⟨hle, hn, hes⟩ := h
    have hkeep : (splice ys e).take e.start = xs.take e.start := by
      have hlen' : (ys.take e.start).length = e.start := List.length_take_of_le (by omega)
      unfold splice
      rw [List.append_assoc, List.take_left' hlen']
      calc ys.take e.start = (ys.take stop).take e.start := by rw [List.take_take]; congr 1; omega
        _ = (xs.take stop).take e.start := by rw [hys]
        _ = xs.take e.start := by rw [List.take_take]; congr 1; omega
    have hrest : (splice ys e).drop e.start = e.replacement ++ (xs.take stop).drop e.stop ++ ys.drop stop := by
      have hlen' : (ys.take e.start).length = e.start := List.length_take_of_le (by omega)
      unfold splice
      rw [List.append_assoc, List.drop_left' hlen', drop_eq_drop_take_append hn ys, hys, List.append_assoc]
    have hlen'' : e.start ≤ (splice ys e).length := by
      unfold splice
      rw [List.length_append, List.length_append, List.length_take]
      omega
    unfold applyFrom woven
    rw [if_neg (by omega), ih hes (Nat.le_refl _) hkeep hlen'', hrest]
    simp only [List.append_assoc]

theorem apply_of_descends {xs : List α} {es : List (Edit α)} (h : Descends xs.length (inOrder es)) :
    apply xs es = .ok (woven xs xs.length (inOrder es)) := by
  unfold apply
  rw [applyFrom_eq_woven h (Nat.le_succ _) rfl (Nat.le_refl _), List.drop_length, List.append_nil]

theorem apply_eq_woven {xs : List α} {es : List (Edit α)} (hfit : ∀ e ∈ es, Fits xs.length e)
    (h : es.Pairwise Apart) : apply xs es = .ok (woven xs xs.length (inOrder es)) :=
  apply_of_descends (inOrder_descends hfit h)

end ResponseShapes.Edit
