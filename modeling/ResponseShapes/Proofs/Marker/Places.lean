import Mathlib.Data.List.Pairwise
import Mathlib.Data.List.TakeWhile
import ResponseShapes.Marker.Rewrite
import ResponseShapes.Proofs.Edit.Frame
import ResponseShapes.Proofs.Marker.Plan

/-! # Edits at nodes

Each edit of a source but one is made at a node: it replaces a decorator or an import, perhaps with white space behind
it, or it puts something in directly behind a decorator. Edits at nodes that are clear of each other are apart, since
no decorator and no import begins with white space (`At.apart`). The edits of a plan are made at the decorators of
classes and methods, at most one at each (`plan_seated`). -/

namespace ResponseShapes

open Syntax Syntax.Node

/-- The edit replaces the node and white space behind it, or puts something in behind the node. -/
inductive At (s : Source) (n : Node) (e : Edit Char) : Prop
  | across (start_eq : e.start = n.start) (le_stop : n.stop ≤ e.stop) (stop_le : e.stop ≤ s.text.length)
      (padding : ∀ i, n.stop ≤ i → i < e.stop → (s.text[i]?.any isPadding) = true)
  | behind (start_eq : e.start = n.stop) (stop_eq : e.stop = n.stop)

namespace At

variable {s : Source} {m n : Node} {e f : Edit Char}

theorem bounds (h : At s n e) (hn : n.Begins s.text) : n.start ≤ e.start ∧ n.start < e.stop := by
  have hlt := hn.1
  cases h with
  | across start_eq le_stop => omega
  | behind start_eq stop_eq => omega

theorem fits (h : At s n e) (hn : n.Begins s.text) (hlen : n.stop ≤ s.text.length) : e.Fits s.text.length := by
  have hlt := hn.1
  cases h with
  | across start_eq le_stop stop_le => exact ⟨by omega, stop_le⟩
  | behind start_eq stop_eq => exact ⟨by omega, by omega⟩

/-- An edit at a node does not reach into a node that stands behind it. -/
theorem stop_le_start (h : At s m e) (hn : n.Begins s.text) (hmn : m.stop ≤ n.start) : e.stop ≤ n.start := by
  cases h with
  | behind _ stop_eq => omega
  | across _ _ _ padding =>
    by_contra hlt
    have hpad := padding n.start hmn (by omega)
    have hbegins := hn.2
    cases hc : s.text[n.start]? with
    | none =>
      rw [hc] at hpad
      cases hpad
    | some c =>
      rw [hc] at hpad hbegins
      simp only [Option.any_some] at hpad hbegins
      rw [hpad] at hbegins
      cases hbegins

theorem before (h : At s m e) (hm : m.Begins s.text) (hn : n.Begins s.text) (hmn : m.stop < n.start) :
    e.start < n.start ∧ e.stop ≤ n.start := by
  have hlt := hm.1
  refine ⟨?_, h.stop_le_start hn (Nat.le_of_lt hmn)⟩
  cases h with
  | across start_eq => omega
  | behind start_eq => omega

theorem apart_of_le (he : At s m e) (hf : At s n f) (hn : n.Begins s.text) (hmn : m.stop ≤ n.start) :
    Edit.Apart e f := by
  have hstop := he.stop_le_start hn hmn
  obtain ⟨hf₁, hf₂⟩ := hf.bounds hn
  refine ⟨Or.inl (by omega), fun heq => ?_⟩
  rw [Prod.mk.injEq] at heq
  omega

theorem apart (he : At s m e) (hf : At s n f) (hm : m.Begins s.text) (hn : n.Begins s.text) (h : Clear m n) :
    Edit.Apart e f := by
  rcases h with h | h
  · exact he.apart_of_le hf hn h
  · exact (hf.apart_of_le he hm h).symm

/-- What is put in between is apart from an edit at a node that begins there or later, or that ends before. -/
theorem apart_of_point (hf : At s n f) (hn : n.Begins s.text) (hpoint : e.stop = e.start)
    (h : (f.start < e.start ∧ f.stop ≤ e.start) ∨ e.start ≤ n.start) : Edit.Apart f e := by
  obtain ⟨hf₁, hf₂⟩ := hf.bounds hn
  rcases h with ⟨h₁, h₂⟩ | h
  · refine ⟨Or.inl h₂, fun heq => ?_⟩
    rw [Prod.mk.injEq] at heq
    omega
  · refine ⟨Or.inr (by omega), fun heq => ?_⟩
    rw [Prod.mk.injEq] at heq
    omega

end At

/-! ### Edits at one node each -/

/-- The edits are made at the nodes, in their order and at most one at each. -/
inductive Seated (s : Source) : List Node → List (Edit Char) → Prop
  | nil : Seated s [] []
  | skip {n : Node} {ns : List Node} {es : List (Edit Char)} (h : Seated s ns es) : Seated s (n :: ns) es
  | take {n : Node} {e : Edit Char} {ns : List Node} {es : List (Edit Char)} (he : At s n e) (h : Seated s ns es) :
      Seated s (n :: ns) (e :: es)

namespace Seated

variable {s : Source} {ns ms : List Node} {es fs : List (Edit Char)}

theorem none (s : Source) (ns : List Node) : Seated s ns [] := by
  induction ns with
  | nil => exact .nil
  | cons n ns ih => exact .skip ih

theorem mem (h : Seated s ns es) {e : Edit Char} (he : e ∈ es) : ∃ n ∈ ns, At s n e := by
  induction h with
  | nil => cases he
  | skip _ ih =>
    obtain ⟨n, hn, hat⟩ := ih he
    exact ⟨n, List.mem_cons_of_mem _ hn, hat⟩
  | take hat _ ih =>
    rcases List.mem_cons.mp he with rfl | he
    · exact ⟨_, List.mem_cons_self, hat⟩
    · obtain ⟨n, hn, hat⟩ := ih he
      exact ⟨n, List.mem_cons_of_mem _ hn, hat⟩

theorem append (h : Seated s ns es) (h' : Seated s ms fs) : Seated s (ns ++ ms) (es ++ fs) := by
  induction h with
  | nil => exact h'
  | skip _ ih => exact .skip ih
  | take hat _ ih => exact .take hat ih

theorem sublist (h : Seated s ns es) (hsub : ns.Sublist ms) : Seated s ms es := by
  induction hsub generalizing es with
  | slnil => exact h
  | cons n _ ih => exact .skip (ih h)
  | cons_cons n _ ih =>
    cases h with
    | skip h => exact .skip (ih h)
    | take hat h => exact .take hat (ih h)

theorem flatMap {α : Type} {xs : List α} {f : α → List Node} {g : α → List (Edit Char)}
    (h : ∀ x ∈ xs, Seated s (f x) (g x)) : Seated s (xs.flatMap f) (xs.flatMap g) := by
  induction xs with
  | nil => exact .nil
  | cons x xs ih =>
    rw [List.flatMap_cons, List.flatMap_cons]
    exact (h x List.mem_cons_self).append (ih fun y hy => h y (List.mem_cons_of_mem _ hy))

theorem map {α : Type} {xs : List α} {f : α → Node} {g : α → Edit Char} (h : ∀ x ∈ xs, At s (f x) (g x)) :
    Seated s (xs.map f) (xs.map g) := by
  induction xs with
  | nil => exact .nil
  | cons x xs ih => exact .take (h x List.mem_cons_self) (ih fun y hy => h y (List.mem_cons_of_mem _ hy))

theorem filterMap {α : Type} {xs : List α} {f : α → Node} {g : α → Option (Edit Char)}
    (h : ∀ x ∈ xs, ∀ e, g x = some e → At s (f x) e) : Seated s (xs.map f) (xs.filterMap g) := by
  induction xs with
  | nil => exact .nil
  | cons x xs ih =>
    have hrest := ih fun y hy => h y (List.mem_cons_of_mem _ hy)
    rw [List.map_cons, List.filterMap_cons]
    split
    · exact .skip hrest
    · rename_i e he
      exact .take (h x List.mem_cons_self e he) hrest

/-- Edits at nodes that are clear of each other are apart. -/
theorem apart (h : Seated s ns es) (hbegins : ∀ n ∈ ns, n.Begins s.text) (hclear : ns.Pairwise Clear) :
    es.Pairwise Edit.Apart := by
  induction h with
  | nil => exact List.Pairwise.nil
  | skip _ ih =>
    exact ih (fun n hn => hbegins n (List.mem_cons_of_mem _ hn)) (List.pairwise_cons.mp hclear).2
  | take hat h ih =>
    obtain ⟨hhead, htail⟩ := List.pairwise_cons.mp hclear
    refine List.Pairwise.cons (fun f hf => ?_) (ih (fun n hn => hbegins n (List.mem_cons_of_mem _ hn)) htail)
    obtain ⟨n, hn, hat'⟩ := h.mem hf
    exact hat.apart hat' (hbegins _ List.mem_cons_self) (hbegins n (List.mem_cons_of_mem _ hn)) (hhead n hn)

end Seated

/-! ### Edits of decorators -/

theorem getElem?_of_takeWhile {α : Type} {p q : α → Bool} {xs : List α} {start i : Nat}
    (hpq : ∀ a, p a = true → q a = true) (h₁ : start ≤ i)
    (h₂ : i < start + ((xs.drop start).takeWhile p).length) : (xs[i]?.any q) = true := by
  have hlt : i - start < ((xs.drop start).takeWhile p).length := by omega
  have htake := List.takeWhile_prefix (l := xs.drop start) p
  have hlt' : i - start < (xs.drop start).length := Nat.lt_of_lt_of_le hlt htake.length_le
  have hget : xs[i]? = some ((xs.drop start).takeWhile p)[i - start] := by
    rw [htake.getElem hlt, ← List.getElem?_eq_getElem hlt', List.getElem?_drop]
    congr 1
    omega
  rw [hget, Option.any_some]
  exact hpq _ (List.mem_takeWhile_imp (List.getElem_mem hlt))

theorem length_takeWhile_drop_le {α : Type} (p : α → Bool) (xs : List α) {start : Nat} (h : start ≤ xs.length) :
    start + ((xs.drop start).takeWhile p).length ≤ xs.length := by
  have hle := (List.takeWhile_prefix (l := xs.drop start) p).length_le
  rw [List.length_drop] at hle
  omega

section Decorators
variable {c : Settings} {t : LookupTable} {s : Source} {n : Node}

theorem removal_at (hlen : n.stop ≤ s.text.length) : At s n (removal s n) :=
  .across rfl (Nat.le_add_right _ _) (length_takeWhile_drop_le _ _ hlen) fun _ h₁ h₂ =>
    getElem?_of_takeWhile (fun _ h => h) h₁ h₂

theorem replacement_at (hlen : n.stop ≤ s.text.length) (text : List Char) :
    At s n { start := n.start, stop := n.stop, replacement := text } :=
  .across rfl (Nat.le_refl _) hlen fun i h₁ h₂ => by
    have h₂ : i < n.stop := h₂
    omega

theorem lastDecorator?_mem {ds : List Decorator} {d : Decorator} (h : lastDecorator? ds = some d) : d ∈ ds := by
  have hfold : ∀ (es : List Decorator) (last : Decorator),
      es.foldl (fun last e => if last.node.stop < e.node.stop then e else last) last ∈ last :: es := by
    intro es
    induction es with
    | nil => exact fun last => List.mem_cons_self
    | cons e es ih =>
      intro last
      rw [List.foldl_cons]
      rcases List.mem_cons.mp (ih (if last.node.stop < e.node.stop then e else last)) with heq | hmem
      · rw [heq]
        split
        · exact List.mem_cons_of_mem _ List.mem_cons_self
        · exact List.mem_cons_self
      · exact List.mem_cons_of_mem _ (List.mem_cons_of_mem _ hmem)
  cases ds with
  | nil => cases h
  | cons e es =>
    obtain rfl := Option.some.inj h
    exact hfold es e

theorem insertion_seated (m : Method) (text : String) :
    Seated s (m.decorators.map (·.node)) (insertion s m text) := by
  unfold insertion
  cases h : lastDecorator? m.decorators with
  | none => exact .none s _
  | some d =>
    let e : Edit Char :=
      { start := d.node.stop, stop := d.node.stop, replacement := '\n' :: s.lineIndent d.node.start ++ text.toList }
    have hat : At s d.node e := .behind rfl rfl
    have hone : Seated s [d.node] [e] := .take hat .nil
    exact hone.sublist (List.singleton_sublist.mpr (List.mem_map_of_mem (lastDecorator?_mem h)))

theorem documentingEdits_seated (m : Method) (text : String)
    (hlen : ∀ d ∈ m.decorators, d.node.stop ≤ s.text.length) :
    Seated s (m.decorators.map (·.node)) (documentingEdits c.conventions s m text) := by
  unfold documentingEdits
  cases h : markersOf c.conventions m.decorators with
  | nil => exact insertion_seated m text
  | cons first others =>
    have hsub : (first :: others).Sublist m.decorators := h ▸ List.filter_sublist
    have hmem : ∀ d ∈ first :: others, d.node.stop ≤ s.text.length := fun d hd => hlen d (hsub.subset hd)
    have hothers : Seated s (others.map (·.node)) (others.map fun d => removal s d.node) :=
      .map fun d hd => removal_at (hmem d (List.mem_cons_of_mem _ hd))
    have hall : Seated s ((first :: others).map (·.node)) (_ :: others.map fun d => removal s d.node) :=
      .take (replacement_at (hmem first List.mem_cons_self) text.toList) hothers
    exact hall.sublist (hsub.map _)

theorem plan_seated (hlaid : s.Laid) : Seated s ((s.classes.flatMap (·.allDecorators)).map (·.node))
    (Plan.ofSource c t s).edits := by
  rw [Plan.ofSource_edits, List.map_flatMap]
  refine .flatMap fun cls hcls => ?_
  rw [Plan.ofClass_eq, ClassDeclaration.allDecorators, List.map_append, List.map_flatMap]
  refine .append (.flatMap fun m hm => ?_) ?_
  · have hlen : ∀ d ∈ m.decorators, d.node.stop ≤ s.text.length := fun d hd =>
      (hlaid.decorator_begins hcls (mem_allDecorators_of_method hm hd)).2
    cases cls.handling c t s m with
    | documented mapping o => exact documentingEdits_seated m _ hlen
    | unmarked => exact .none s _
    | unresolved => exact .none s _
  · split
    · exact .none s _
    · have hmarkers : Seated s ((cls.markers c).map (·.node)) ((cls.markers c).map fun d => removal s d.node) :=
        .map fun d hd => removal_at
          (hlaid.decorator_begins hcls (List.mem_append_right _ (mem_markersOf.mp hd).1)).2
      exact hmarkers.sublist (List.filter_sublist.map _)

end Decorators

end ResponseShapes
