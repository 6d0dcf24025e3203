import Mathlib.Data.List.Forall2
import ResponseShapes.Syntax.Class

/-! # Trees that read the same

Two nodes of different sources are alike when they stand for the same and cover the same characters, and so do their
children but for comments. Whatever is read from a node is read in the same way from a node that is alike, and a
decorator has the same name and arguments that are alike (`Alike.decorator`). -/

namespace ResponseShapes.Syntax

namespace Node

/-! ### Comments -/

/-- Whether the node is a comment, which reading passes over. -/
def isNote (n : Node) : Bool :=
  n.kind = .comment && n.role = none

def parts (n : Node) : List Node :=
  n.children.filter fun x => !x.isNote

theorem isNote_eq_true {n : Node} : n.isNote = true ↔ n.kind = .comment ∧ n.role = none := by
  simp [isNote]

theorem isNote_of_decorator {n : Node} (h : n.kind = .decorator) : n.isNote = false := by
  simp [isNote, h]

section Parts
variable {n : Node} {p : Node → Bool} (h : ∀ x : Node, x.isNote = true → p x = false)
include h

theorem filter_parts : n.parts.filter p = n.children.filter p := by
  unfold parts
  rw [List.filter_filter]
  refine List.filter_congr fun x _ => ?_
  cases hx : x.isNote with
  | true => simp [h x hx]
  | false => simp

theorem find?_parts : n.parts.find? p = n.children.find? p := by
  rw [← List.head?_filter, ← List.head?_filter, filter_parts h]

end Parts

theorem child?_eq (n : Node) (r : Role) : n.child? r = n.parts.find? (·.role == some r) :=
  (find?_parts fun x hx => by rw [(isNote_eq_true.mp hx).2]; rfl).symm

theorem childrenOf_eq (n : Node) {k : Kind} (hk : k ≠ .comment) : n.childrenOf k = n.parts.filter (·.kind == k) :=
  (filter_parts fun x hx => by
    rw [(isNote_eq_true.mp hx).1]
    exact beq_false_of_ne hk.symm).symm

theorem isConstruct_of_isNote {n : Node} (h : n.isNote = true) : n.isConstruct = false := by
  simp [isConstruct, (isNote_eq_true.mp h).1]

/-! ### Nodes that are alike -/

mutual

/-- The nodes stand for the same and cover the same characters, each in its source, and so do their children but for
    comments. -/
def Alike (s s' : Source) : Node → Node → Prop
  | mk k r a b cs, n' => n'.kind = k ∧ n'.role = r ∧ s'.charsOf n' = s.slice a b ∧ AlikeAll s s' cs n'.parts

/-- The nodes of the first list but for comments are alike to those of the second one, one by one. -/
def AlikeAll (s s' : Source) : List Node → List Node → Prop
  | [], ns' => ns' = []
  | n :: ns, ns' =>
    if n.isNote then AlikeAll s s' ns ns'
    else
      match ns' with
      | [] => False
      | n' :: rest => n.Alike s s' n' ∧ AlikeAll s s' ns rest

end

/-! ### Lists of related nodes -/

section Related
variable {α β : Type} {R : α → β → Prop} {p : α → Bool} {q : β → Bool}

theorem find?_related {xs : List α} {ys : List β} (h : List.Forall₂ R xs ys) (hpq : ∀ x y, R x y → p x = q y) :
    Option.Rel R (xs.find? p) (ys.find? q) := by
  induction h with
  | nil => exact .none
  | @cons x y xs ys hxy _ ih =>
    rw [List.find?_cons, List.find?_cons, ← hpq x y hxy]
    cases p x with
    | true => exact .some hxy
    | false => exact ih

theorem rel_cases {o : Option α} {o' : Option β} (h : Option.Rel R o o') :
    (o = none ∧ o' = none) ∨ ∃ a b, o = some a ∧ o' = some b ∧ R a b := by
  cases h with
  | none => exact Or.inl ⟨rfl, rfl⟩
  | some h => exact Or.inr ⟨_, _, rfl, rfl, h⟩

theorem filter_related {xs : List α} {ys : List β} (h : List.Forall₂ R xs ys) (hpq : ∀ x y, R x y → p x = q y) :
    List.Forall₂ R (xs.filter p) (ys.filter q) := by
  induction h with
  | nil => exact .nil
  | @cons x y xs ys hxy _ ih =>
    rw [List.filter_cons, List.filter_cons, ← hpq x y hxy]
    cases p x with
    | true => exact .cons hxy ih
    | false => exact ih

theorem related_left {xs : List α} {ys : List β} (h : List.Forall₂ R xs ys) {x : α} (hx : x ∈ xs) :
    ∃ y ∈ ys, R x y := by
  induction h with
  | nil => cases hx
  | cons hxy _ ih =>
    rcases List.mem_cons.mp hx with rfl | hx
    · exact ⟨_, List.mem_cons_self, hxy⟩
    · obtain ⟨y, hy, hxy⟩ := ih hx
      exact ⟨y, List.mem_cons_of_mem _ hy, hxy⟩

theorem related_right {xs : List α} {ys : List β} (h : List.Forall₂ R xs ys) {y : β} (hy : y ∈ ys) :
    ∃ x ∈ xs, R x y :=
  related_left h.flip hy

theorem map_related {γ : Type} {f : α → γ} {g : β → γ} {xs : List α} {ys : List β} (h : List.Forall₂ R xs ys)
    (hfg : ∀ x ∈ xs, ∀ y, R x y → f x = g y) : xs.map f = ys.map g := by
  induction h with
  | nil => rfl
  | @cons x y xs ys hxy _ ih =>
    rw [List.map_cons, List.map_cons, hfg x List.mem_cons_self y hxy,
      ih fun z hz => hfg z (List.mem_cons_of_mem _ hz)]

end Related

variable {s s' : Source} {n n' : Node}

theorem alikeAll_note {ns ns' : List Node} (h : n.isNote = true) :
    AlikeAll s s' (n :: ns) ns' ↔ AlikeAll s s' ns ns' := by
  rw [AlikeAll.eq_def]
  simp [h]

theorem alikeAll_cons {ns ns' : List Node} (h : n.isNote = false) :
    AlikeAll s s' (n :: ns) (n' :: ns') ↔ n.Alike s s' n' ∧ AlikeAll s s' ns ns' := by
  rw [AlikeAll]
  simp [h]

theorem alikeAll_iff {ns ns' : List Node} :
    AlikeAll s s' ns ns' ↔ List.Forall₂ (Alike s s') (ns.filter fun x => !x.isNote) ns' := by
  induction ns generalizing ns' with
  | nil => rw [AlikeAll, List.filter_nil, List.forall₂_nil_left_iff]
  | cons n ns ih =>
    cases hnote : n.isNote with
    | true =>
      rw [alikeAll_note hnote, List.filter_cons_of_neg (by simp [hnote])]
      exact ih
    | false =>
      rw [List.filter_cons_of_pos (by simp [hnote])]
      cases ns' with
      | nil => simp [AlikeAll, hnote]
      | cons n' ns' => rw [alikeAll_cons hnote, List.forall₂_cons, ih]

namespace Alike

theorem kind_eq (h : n.Alike s s' n') : n'.kind = n.kind := by
  cases n
  rw [Alike] at h
  exact h.1

theorem role_eq (h : n.Alike s s' n') : n'.role = n.role := by
  cases n
  rw [Alike] at h
  exact h.2.1

theorem charsOf_eq (h : n.Alike s s' n') : s'.charsOf n' = s.charsOf n := by
  cases n
  rw [Alike] at h
  exact h.2.2.1

theorem parts (h : n.Alike s s' n') : List.Forall₂ (Alike s s') n.parts n'.parts := by
  cases n
  rw [Alike] at h
  exact alikeAll_iff.mp h.2.2.2

theorem textOf_eq (h : n.Alike s s' n') : s'.textOf n' = s.textOf n := by
  unfold Source.textOf
  rw [h.charsOf_eq]

theorem stringValue_eq (h : n.Alike s s' n') : s'.stringValue n' = s.stringValue n := by
  unfold Source.stringValue
  rw [h.charsOf_eq]

theorem isConstruct_eq (h : n.Alike s s' n') : n.isConstruct = n'.isConstruct := by
  unfold isConstruct
  rw [h.kind_eq]

theorem child? (h : n.Alike s s' n') (r : Role) : Option.Rel (Alike s s') (n.child? r) (n'.child? r) := by
  rw [child?_eq, child?_eq]
  exact find?_related h.parts fun _ _ h => by rw [h.role_eq]

theorem childrenOf (h : n.Alike s s' n') {k : Kind} (hk : k ≠ .comment) :
    List.Forall₂ (Alike s s') (n.childrenOf k) (n'.childrenOf k) := by
  rw [childrenOf_eq n hk, childrenOf_eq n' hk]
  exact filter_related h.parts fun _ _ h => by rw [h.kind_eq]

theorem constructs (h : n.Alike s s' n') : List.Forall₂ (Alike s s') n.constructs n'.constructs := by
  unfold Node.constructs
  rw [← filter_parts fun _ => isConstruct_of_isNote, ← filter_parts fun _ => isConstruct_of_isNote]
  exact filter_related h.parts fun _ _ h => h.isConstruct_eq

theorem firstConstruct? (h : n.Alike s s' n') :
    Option.Rel (Alike s s') n.firstConstruct? n'.firstConstruct? := by
  unfold Node.firstConstruct?
  rw [← find?_parts fun _ => isConstruct_of_isNote, ← find?_parts fun _ => isConstruct_of_isNote]
  exact find?_related h.parts fun _ _ h => h.isConstruct_eq

end Alike

end Node

open Node

/-! ### Decorators -/

/-- The decorators have the same name and arguments that are alike. -/
structure Decorator.Alike (s s' : Source) (d d' : Decorator) : Prop where
  name : d'.name = d.name
  isCall : d'.isCall = d.isCall
  arguments : List.Forall₂ (Node.Alike s s') d.arguments d'.arguments

section Decorators
variable {s s' : Source} {n n' : Node}

theorem Node.Alike.decorator (h : n.Alike s s' n') : (s.decorator n).Alike s s' (s'.decorator n') := by
  unfold Source.decorator
  rcases rel_cases h.firstConstruct? with ⟨hfirst, hfirst'⟩ | ⟨target, target', hfirst, hfirst', htarget⟩
  · simp only [hfirst, hfirst']
    exact ⟨rfl, rfl, .nil⟩
  · simp only [hfirst, hfirst', htarget.kind_eq]
    split
    · have harguments : List.Forall₂ (Node.Alike s s') (((target.child? .arguments).map Node.constructs).getD [])
          (((target'.child? .arguments).map Node.constructs).getD []) := by
        rcases rel_cases (htarget.child? .arguments) with ⟨ha, ha'⟩ | ⟨a, a', ha, ha', hrel⟩
        · rw [ha, ha']
          exact .nil
        · rw [ha, ha']
          exact hrel.constructs
      rcases rel_cases (htarget.child? .function) with ⟨hf, hf'⟩ | ⟨f, f', hf, hf', hrel⟩
      · simp only [hf, hf']
        exact ⟨rfl, rfl, harguments⟩
      · simp only [hf, hf', hrel.kind_eq, hrel.textOf_eq]
        exact ⟨rfl, rfl, harguments⟩
    · simp only [htarget.textOf_eq]
      exact ⟨rfl, rfl, .nil⟩

end Decorators

end ResponseShapes.Syntax
