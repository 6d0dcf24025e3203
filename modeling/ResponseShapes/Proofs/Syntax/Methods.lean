import Mathlib.Data.List.Forall2
import ResponseShapes.Syntax.Class

/-! # Methods and the decorators in front of them

The members of a class are read one after the other, and the decorators since the last member that is neither a
decorator nor a comment are kept for the next one. What is kept in front of a place are the decorators in the longest
stretch of decorators and comments that ends there (`decoratorsBefore`), which each member changes in its own way
(`decoratorsBefore_succ`). So every method is read with the decorators in the stretch in front of it, and as the
stretches in front of two members have nothing in common, no other member gets one of them (`methods_decorated`). -/

namespace ResponseShapes.Syntax

/-- The members of a class. -/
def Node.members (classNode : Node) : List Node :=
  ((classNode.child? .body).map Node.children).getD []

namespace Source

/-- The node goes with the member behind it. -/
def isAttached (n : Node) : Bool :=
  n.kind = .decorator || n.kind = .comment

/-- Nothing but decorators and comments stands from one place up to another. -/
def LeadsTo (ns : List Node) (j i : Nat) : Prop :=
  ∀ k < i, j ≤ k → ns[k]?.any isAttached = true

instance (ns : List Node) (j i : Nat) : Decidable (LeadsTo ns j i) :=
  inferInstanceAs (Decidable (∀ k < i, j ≤ k → ns[k]?.any isAttached = true))

/-- The decorator at a place. -/
def decoratorAt? (s : Source) (ns : List Node) (j : Nat) : Option Decorator :=
  (ns[j]?.filter fun n => n.kind = .decorator).map s.decorator

/-- The decorators in the longest stretch of decorators and comments that ends in front of a place, in order. -/
def decoratorsBefore (s : Source) (ns : List Node) (i : Nat) : List Decorator :=
  ((List.range i).filter fun j => LeadsTo ns j i).filterMap (s.decoratorAt? ns)

/-- A method definition with a name stands at the place. -/
def isNamedMethod (ns : List Node) (i : Nat) : Bool :=
  ns[i]?.any fun n => n.kind = .methodDefinition && (n.child? .name).isSome

/-- The method is read of the member at the place: it has the name of that member, and the decorators in front of it
    before those in it. -/
structure ReadAt (s : Source) (ns : List Node) (i : Nat) (m : Method) : Prop where
  node : ns[i]? = some m.node
  name : ∃ name, m.node.child? .name = some name ∧ m.name = s.textOf name
  decorators : m.decorators = s.decoratorsBefore ns i ++ (m.node.childrenOf .decorator).map s.decorator

variable {s : Source} {ns before : List Node} {n : Node} {i j k : Nat} {m : Method}

/-! ### Stretches of decorators and comments -/

theorem leadsTo_self (ns : List Node) (i : Nat) : LeadsTo ns i i :=
  fun _ hk hik => absurd hik (Nat.not_le_of_lt hk)

theorem leadsTo_succ (h : ns[i]? = some n) (hj : j ≤ i) : LeadsTo ns j (i + 1) ↔ LeadsTo ns j i ∧ isAttached n = true := by
  constructor
  · intro hleads
    refine ⟨fun k hk => hleads k (Nat.lt_succ_of_lt hk), ?_⟩
    have hlast := hleads i (Nat.lt_succ_self i) hj
    rwa [h, Option.any_some] at hlast
  · rintro ⟨hleads, hlast⟩ k hk hjk
    obtain hk | rfl := Nat.lt_succ_iff_lt_or_eq.mp hk
    · exact hleads k hk hjk
    · rwa [h, Option.any_some]

/-- In front of the next place are the decorators before a decorator with that one, those before a comment, and none
    if any other member stands there. -/
theorem decoratorsBefore_succ (s : Source) (h : ns[i]? = some n) : s.decoratorsBefore ns (i + 1) =
    if isAttached n then s.decoratorsBefore ns i ++ (s.decoratorAt? ns i).toList else [] := by
  unfold decoratorsBefore
  cases hn : isAttached n with
  | true =>
    have hearlier : ((List.range i).filter fun j => LeadsTo ns j (i + 1)) =
        (List.range i).filter fun j => LeadsTo ns j i := by
      refine List.filter_congr fun j hj => decide_eq_decide.mpr ?_
      rw [leadsTo_succ h (Nat.le_of_lt (List.mem_range.mp hj)), and_iff_left hn]
    have hlast : LeadsTo ns i (i + 1) := (leadsTo_succ h (Nat.le_refl i)).mpr ⟨leadsTo_self ns i, hn⟩
    rw [if_pos rfl, List.range_succ, List.filter_append, hearlier, List.filter_singleton, decide_eq_true hlast,
      List.filterMap_append]
    cases hat : s.decoratorAt? ns i <;> simp [hat]
  | false =>
    have hnone : ((List.range (i + 1)).filter fun j => LeadsTo ns j (i + 1)) = [] := by
      refine List.filter_eq_nil_iff.mpr fun j hj hleads => ?_
      have hj := Nat.lt_succ_iff.mp (List.mem_range.mp hj)
      exact absurd ((leadsTo_succ h hj).mp (of_decide_eq_true hleads)).2 (Bool.eq_false_iff.mp hn)
    rw [hnone, if_neg Bool.false_ne_true]
    rfl

/-- The member that a decorator stands in front of is the next one that is neither a decorator nor a comment. -/
theorem LeadsTo.unique {i' : Nat} {n' : Node} (h : LeadsTo ns j i) (h' : LeadsTo ns j i') (hj : j < i) (hj' : j < i')
    (hn : ns[i]? = some n) (hn' : ns[i']? = some n') (hmember : isAttached n = false) (hmember' : isAttached n' = false) :
    i = i' := by
  obtain hlt | rfl | hlt := Nat.lt_trichotomy i i'
  · have := h' i hlt (Nat.le_of_lt hj)
    rw [hn, Option.any_some, hmember] at this
    cases this
  · rfl
  · have := h i' hlt (Nat.le_of_lt hj')
    rw [hn', Option.any_some, hmember'] at this
    cases this

/-! ### Reading members -/

theorem exists_of_isNamedMethod (h : isNamedMethod ns i = true) : ∃ n, ns[i]? = some n ∧ isAttached n = false := by
  unfold isNamedMethod at h
  cases hn : ns[i]? with
  | none =>
    rw [hn] at h
    cases h
  | some n =>
    rw [hn, Option.any_some, Bool.and_eq_true, decide_eq_true_eq] at h
    exact ⟨n, rfl, by simp [isAttached, h.1]⟩

/-- The members behind others are read with the decorators in front of the first one. -/
theorem forall₂_methodsFrom (s : Source) (before ns : List Node) :
    List.Forall₂ (s.ReadAt (before ++ ns)) ((List.range' before.length ns.length).filter (isNamedMethod (before ++ ns)))
      (s.methodsFrom (s.decoratorsBefore (before ++ ns) before.length) ns) := by
  induction ns generalizing before with
  | nil => exact .nil
  | cons n ns ih =>
    have hn : (before ++ n :: ns)[before.length]? = some n := by
      rw [List.getElem?_append_right (Nat.le_refl _), Nat.sub_self, List.getElem?_cons_zero]
    have hrest := ih (before ++ [n])
    rw [List.append_assoc, List.singleton_append, List.length_append, List.length_singleton,
      decoratorsBefore_succ s hn] at hrest
    have hnamed : isNamedMethod (before ++ n :: ns) before.length =
        (n.kind = .methodDefinition && (n.child? .name).isSome) := by rw [isNamedMethod, hn, Option.any_some]
    rw [List.length_cons, List.range'_succ, List.filter_cons, hnamed]
    unfold methodsFrom
    by_cases hdecorator : n.kind = .decorator
    · have hat : s.decoratorAt? (before ++ n :: ns) before.length = some (s.decorator n) := by
        simp [decoratorAt?, hdecorator]
      rw [if_pos (by simp [isAttached, hdecorator]), hat] at hrest
      rw [if_neg (by simp [hdecorator]), if_pos hdecorator]
      exact hrest
    rw [if_neg hdecorator]
    by_cases hcomment : n.kind = .comment
    · have hat : s.decoratorAt? (before ++ n :: ns) before.length = none := by
        simp [decoratorAt?, hdecorator]
      rw [if_pos (by simp [isAttached, hcomment]), hat, Option.toList_none, List.append_nil] at hrest
      rw [if_neg (by simp [hcomment]), if_pos hcomment]
      exact hrest
    rw [if_neg hcomment]
    rw [if_neg (by simp [isAttached, hdecorator, hcomment])] at hrest
    by_cases hmethod : n.kind = .methodDefinition
    · rw [if_pos hmethod, method?]
      cases hname : n.child? .name with
      | none =>
        rw [if_neg (by simp)]
        exact hrest
      | some name =>
        rw [if_pos (by simp [hmethod])]
        exact .cons ⟨hn, ⟨name, hname, rfl⟩, rfl⟩ hrest
    · rw [if_neg (by simp [hmethod]), if_neg hmethod]
      exact hrest

/-- The methods of a class are its method definitions that have a name, in order. Each has exactly the decorators in the
    longest stretch of decorators and comments in front of it, in order, and behind them its own. A decorator stands in
    front of one method at most, and in front of none if it is followed by any other member. -/
theorem methods_decorated (s : Source) (classNode : Node) :
    List.Forall₂ (s.ReadAt classNode.members)
      ((List.range classNode.members.length).filter (isNamedMethod classNode.members)) (s.methods classNode) ∧
    (∀ j i i', j < i → j < i' → LeadsTo classNode.members j i → LeadsTo classNode.members j i' →
      isNamedMethod classNode.members i = true → isNamedMethod classNode.members i' = true → i = i') ∧
    ∀ j k n, j < k → LeadsTo classNode.members j k → classNode.members[k]? = some n → isAttached n = false →
      isNamedMethod classNode.members k = false →
        ∀ i, j < i → isNamedMethod classNode.members i = true → ¬LeadsTo classNode.members j i := by
  refine ⟨?_, fun j i i' hj hj' h h' hi hi' => ?_, fun j k n hj h hn hmember hother i hj' hi h' => ?_⟩
  · unfold methods Node.members
    cases classNode.child? .body with
    | none => exact .nil
    | some body =>
      rw [Option.map_some, Option.getD_some, List.range_eq_range']
      exact forall₂_methodsFrom s [] body.children
  · obtain ⟨n, hn, hmember⟩ := exists_of_isNamedMethod hi
    obtain ⟨n', hn', hmember'⟩ := exists_of_isNamedMethod hi'
    exact h.unique h' hj hj' hn hn' hmember hmember'
  · obtain ⟨n', hn', hmember'⟩ := exists_of_isNamedMethod hi
    obtain rfl := h.unique h' hj hj' hn hn' hmember hmember'
    rw [hother] at hi
    cases hi

/-! A class whose first method has decorators around a comment, and whose field takes one from the second method. -/

namespace Decorated

def classNode : Node :=
  .mk .classDeclaration none 0 45 [.mk .typeIdentifier (some .name) 6 7 [], .mk .classBody (some .body) 8 45 [
    .mk .decorator none 10 12 [.mk .identifier none 11 12 []],
    .mk .comment none 13 20 [],
    .mk .decorator none 21 23 [.mk .identifier none 22 23 []],
    .mk .methodDefinition none 24 30 [.mk .propertyIdentifier (some .name) 24 25 [],
      .mk .formalParameters none 25 27 [], .mk .statementBlock (some .body) 28 30 []],
    .mk .decorator none 31 33 [.mk .identifier none 32 33 []],
    .mk .fieldDefinition none 34 35 [.mk .propertyIdentifier (some .name) 34 35 []],
    .mk .methodDefinition none 37 43 [.mk .propertyIdentifier (some .name) 37 38 [],
      .mk .formalParameters none 38 40 [], .mk .statementBlock (some .body) 41 43 []]]]

def source : Source where
  text := "class K \x7b @A /* a */ @B m() \x7b\x7d @C f; n() \x7b\x7d \x7d".toList
  root := .mk .program none 0 45 [classNode]

end Decorated

open Decorated in
theorem methods_decorated_around_field :
    (source.methods classNode).map Method.decoratorNames = [["A", "B"], []] ∧
    (source.decoratorsBefore classNode.members 3).filterMap (·.name) = ["A", "B"] ∧
    (∀ i, 4 < i → isNamedMethod classNode.members i = true → ¬LeadsTo classNode.members 4 i) ∧
    (∀ i, 0 < i → LeadsTo classNode.members 0 i → isNamedMethod classNode.members i = true → 3 = i) := by
  obtain ⟨-, honce, hother⟩ := methods_decorated source classNode
  refine ⟨by decide +kernel, by decide +kernel, ?_, fun i hi hleads hmethod => ?_⟩
  · exact hother 4 5 (.mk .fieldDefinition none 34 35 [.mk .propertyIdentifier (some .name) 34 35 []]) (by decide)
      (by decide) rfl (by decide) (by decide)
  · exact honce 0 3 i (by decide) hi (by decide) hleads (by decide) hmethod

end Source

end ResponseShapes.Syntax
