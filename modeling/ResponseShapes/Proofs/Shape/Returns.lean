import ResponseShapes.Proofs.Syntax.Addresses
import ResponseShapes.Shape.Inference
import ResponseShapes.Syntax.Parse

/-! # The return statements of a method

A walk keeps the nodes that are still to be visited on a stack. Its loop comes to an end on every tree, and it visits
what the recursive traversal does, in the same order (`Visits.eq_preorderAll`, `visits_walkFrom`): what was visited,
with the traversal of the stack behind it, is the same before and after each round. So a walk lists the nodes that are
reached without entering a scope, the root aside (`lists_walk`). The return statements of a body are those around which
no function, method or class stands in the body. The walk enters abstract classes, however, which are not among its
scopes: a statement in one of them, outside of methods, is listed as well (`returnStatements_listed`). -/

namespace ResponseShapes

open Syntax

variable {closed : Node → Bool} {stack visited : List Node} {steps : Nat}

/-! ### The loop over a stack -/

/-- The loop over a stack visits the nodes and comes to its end: each round takes the node at the top, visits it and,
    unless it is closed, puts its children at the top. -/
inductive Visits (closed : Node → Bool) : List Node → List Node → Prop
  | done : Visits closed [] []
  | enter {n : Node} {stack visited : List Node} (hopen : closed n = false)
    (h : Visits closed (n.children ++ stack) visited) : Visits closed (n :: stack) (n :: visited)
  | pass {n : Node} {stack visited : List Node} (hclosed : closed n = true) (h : Visits closed stack visited) :
    Visits closed (n :: stack) (n :: visited)

/-- What the loop visits is the traversal of the trees on the stack. -/
theorem Visits.eq_preorderAll (h : Visits closed stack visited) : visited = Node.preorderAll closed stack := by
  induction h with
  | done => rfl
  | enter hopen _ ih =>
    rw [Node.preorderAll, Node.preorder_eq, hopen, if_neg Bool.false_ne_true, ih, Node.preorderAll_append,
      List.cons_append]
  | pass hclosed _ ih =>
    rw [Node.preorderAll, Node.preorder_eq, hclosed, if_pos rfl, ih]
    rfl

namespace Syntax.Node

theorem sizeAll_append (ms ns : List Node) : sizeAll (ms ++ ns) = sizeAll ms + sizeAll ns := by
  induction ms with
  | nil => rw [List.nil_append, sizeAll, Nat.zero_add]
  | cons m ms ih => rw [List.cons_append, sizeAll, sizeAll, ih, Nat.add_assoc]

theorem size_eq (n : Node) : n.size = sizeAll n.children + 1 := by
  cases n
  rw [size]
  rfl

end Syntax.Node

/-- The loop comes to its end after as many rounds as there are nodes. -/
theorem visits_walkFrom (h : Node.sizeAll stack ≤ steps) : Visits closed stack (walkFrom closed steps stack) := by
  induction steps generalizing stack with
  | zero =>
    cases stack with
    | nil => exact .done
    | cons n stack =>
      rw [Node.sizeAll, Node.size_eq] at h
      omega
  | succ steps ih =>
    cases stack with
    | nil => exact .done
    | cons n stack =>
      rw [Node.sizeAll, Node.size_eq] at h
      rw [walkFrom]
      cases hclosed : closed n with
      | true => exact .pass hclosed (ih (by omega))
      | false => exact .enter hclosed (ih (by rw [Node.sizeAll_append]; omega))

/-! ### Walks -/

section Walk
variable (stop : Kind → Bool) (root : Node)

theorem visits_walk : ∃ visited, Visits (fun n => stop n.kind) root.children visited ∧ walk stop root = root :: visited :=
  ⟨_, visits_walkFrom (by rw [Node.size_eq]; exact Nat.le_succ _), rfl⟩

/-- A walk is the traversal by recursion, in which the root is never closed. -/
theorem walk_eq : walk stop root = root :: Node.preorderAll (fun n => stop n.kind) root.children := by
  obtain ⟨visited, hvisits, hwalk⟩ := visits_walk stop root
  rw [hwalk, hvisits.eq_preorderAll]

/-- The loop that begins below the root visits what the walk does, and nothing else. -/
theorem visits_iff : Visits (fun n => stop n.kind) root.children visited ↔ walk stop root = root :: visited := by
  obtain ⟨visited', hvisits, hwalk⟩ := visits_walk stop root
  constructor
  · intro h
    rw [hwalk, h.eq_preorderAll, hvisits.eq_preorderAll]
  · intro h
    rwa [← (List.cons.inj (hwalk.symm.trans h)).2]

/-- A walk lists the nodes with no scope around them but the root. -/
theorem lists_walk :
    root.Lists (fun address _ => ∀ y, root.Between address y → stop y.kind = false) (walk stop root) := by
  rw [walk_eq]
  refine (Node.lists_preorderAll _ root).cons_root fun y hy => ?_
  obtain ⟨way, hnil, -, hprefix, -⟩ := hy
  exact absurd (List.prefix_nil.mp hprefix) hnil

end Walk

/-! ### Return statements -/

/-- Functions, methods and classes, the abstract ones included. -/
def isFunctionOrClass (k : Kind) : Bool :=
  isScope k || k = .abstractClassDeclaration

/-- A return statement of the body, around which no function, method or class stands in it. -/
def Unenclosed (body : Node) (address : List Nat) (n : Node) : Prop :=
  n.kind = .returnStatement ∧ ∀ y, body.Between address y → isFunctionOrClass y.kind = false

/-- A return statement of the body, around which at most abstract classes stand in it. -/
def Returned (body : Node) (address : List Nat) (n : Node) : Prop :=
  n.kind = .returnStatement ∧ ∀ y, body.Between address y → isFunctionOrClass y.kind = true →
    y.kind = .abstractClassDeclaration

theorem Unenclosed.returned {body n : Node} {address : List Nat} (h : Unenclosed body address n) :
    Returned body address n :=
  ⟨h.1, fun y hy hkind => absurd hkind (Bool.eq_false_iff.mp (h.2 y hy))⟩

theorem isScope_eq_false_iff {k : Kind} :
    isScope k = false ↔ (isFunctionOrClass k = true → k = .abstractClassDeclaration) := by
  unfold isFunctionOrClass
  rw [Bool.or_eq_true, decide_eq_true_eq]
  constructor
  · intro h hk
    exact hk.resolve_left (Bool.eq_false_iff.mp h)
  · intro h
    by_contra hscope
    have habstract := h (.inl (Bool.not_eq_false _ ▸ hscope))
    exact hscope (habstract ▸ rfl)

theorem lists_returnStatements (body : Node) : body.Lists (Returned body) (returnStatements body) := by
  refine ((lists_walk isScope body).filter fun n => n.kind = .returnStatement).congr fun address n _ => ?_
  rw [decide_eq_true_eq]
  exact and_congr_right fun _ => forall₂_congr fun _ _ => isScope_eq_false_iff

/-- The return statements that are listed are those with nothing around them, unless one stands in an abstract class. -/
theorem lists_unenclosed_iff (body : Node) : body.Lists (Unenclosed body) (returnStatements body) ↔
    ∀ address n, body.at? address = some n → Returned body address n → Unenclosed body address n := by
  have hreturns := lists_returnStatements body
  constructor
  · exact fun h address n hat hreturned => hreturns.imp_of_imp h (fun _ _ _ => Unenclosed.returned) hat hreturned
  · exact fun h => hreturns.congr fun address n hat => ⟨h address n hat, Unenclosed.returned⟩

/-- The shape that the annotation of a method tells. -/
def Shape.annotated (s : Source) (m : Method) : Shape :=
  (m.returnType?.map fun t => Shape.ofType (TypeForm.ofNode s t)).getD .unknown

/-- The shape of what a return statement gives. -/
def Shape.ofReturn (s : Source) (statement : Node) : Shape :=
  (statement.firstConstruct?.map fun value => Shape.ofValue (ValueForm.ofNode s value)).getD .unknown

theorem Shape.ofMethod_eq (s : Source) (m : Method) : Shape.ofMethod s m =
    if (annotated s m).isUnknown then
      ((m.body?.bind fun body => (returnStatements body).head?).map (ofReturn s)).getD .unknown
    else annotated s m := by
  unfold ofMethod annotated
  cases m.body? with
  | none => cases m.returnType? <;> rfl
  | some body =>
    dsimp only [Option.bind_some]
    cases (returnStatements body).head? with
    | none => cases m.returnType? <;> rfl
    | some statement =>
      dsimp only [Option.bind_some, Option.map_some, Option.getD_some, ofReturn]
      cases statement.firstConstruct? <;> cases m.returnType? <;> rfl

/-- The loop of a walk ends on every tree and visits what the traversal by recursion does: the nodes with no scope
    around them but the root, each once. The return statements of a body are listed in the order of the text, and are
    those around which at most abstract classes stand in the body; hence they are those around which nothing stands that
    returns for itself, unless there are some in an abstract class and outside of its methods. The first one gives the
    shape of a method whose annotation tells none. -/
theorem returnStatements_listed (stop : Kind → Bool) (root body : Node) :
    ((∀ visited, Visits (fun n => stop n.kind) root.children visited ↔ walk stop root = root :: visited) ∧
      walk stop root = root :: Node.preorderAll (fun n => stop n.kind) root.children ∧
      root.Lists (fun address _ => ∀ y, root.Between address y → stop y.kind = false) (walk stop root)) ∧
    (body.Lists (Returned body) (returnStatements body) ∧
      (body.Lists (Unenclosed body) (returnStatements body) ↔
        ∀ address n, body.at? address = some n → Returned body address n → Unenclosed body address n) ∧
      ∀ text, body.Laid text → (returnStatements body).Pairwise fun x y => x.stop ≤ y.start ∨ Node.Below x y) ∧
    ∀ s m, m.body? = some body → (Shape.annotated s m).isUnknown = true →
      Shape.ofMethod s m = ((returnStatements body).head?.map (Shape.ofReturn s)).getD .unknown := by
  have hreturns := lists_returnStatements body
  refine ⟨⟨fun _ => visits_iff stop root, walk_eq stop root, lists_walk stop root⟩,
    ⟨hreturns, lists_unenclosed_iff body, ?_⟩, ?_⟩
  · exact fun text hlaid => hreturns.pairwise fun _ _ _ _ ha hb hlt => hlaid.behind_or_below ha hb hlt
  · intro s m hbody hunknown
    rw [Shape.ofMethod_eq, if_pos hunknown, hbody, Option.bind_some]

/-! ### A method with an abstract class in it -/

namespace Cached

def text : String :=
  "export class UsersService \x7b\n  find() \x7b\n    abstract class Cache \x7b static \x7b return false; \x7d \x7d\n" ++
    "    load(() => \x7b return 1; \x7d);\n    return \x7b id: 1 \x7d;\n  \x7d\n\x7d\n"

/-- The statement in the abstract class. -/
def early : Node :=
  .mk .returnStatement none 75 88 [.mk .false none 82 87 []]

/-- The statement that ends the method. -/
def last : Node :=
  .mk .returnStatement none 128 145 [.mk .object none 135 144 [.mk .pair none 137 142
    [.mk .propertyIdentifier (some .key) 137 139 [], .mk .number (some .value) 141 142 []]]]

/-- An abstract class, a call with a callback that returns a number, and a return statement. -/
def body : Node :=
  .mk .statementBlock (some .body) 37 149
    [.mk .abstractClassDeclaration none 43 92 [.mk .typeIdentifier (some .name) 58 63 [],
      .mk .classBody (some .body) 64 92
        [.mk .staticBlock none 66 90 [.mk .statementBlock (some .body) 73 90 [early]]]],
    .mk .expressionStatement none 97 123 [.mk .callExpression none 97 122
      [.mk .identifier (some .function) 97 101 [], .mk .arguments (some .arguments) 101 122
        [.mk .arrowFunction none 102 121 [.mk .formalParameters none 102 104 [],
          .mk .statementBlock (some .body) 108 121
            [.mk .returnStatement none 110 119 [.mk .number none 117 118 []]]]]]],
    last]

def method : Method :=
  { node := .mk .methodDefinition none 30 149
      [.mk .propertyIdentifier (some .name) 30 34 [], .mk .formalParameters none 34 36 [], body]
    name := "find", decorators := [], accessibility := none, isAccessor := false, hasPlainName := true }

def source : Source :=
  Source.ofText text

/-- The statement in the abstract class is listed, although the class stands around it. -/
theorem returned_early : body.at? [0, 1, 0, 0, 0] = some early ∧ Returned body [0, 1, 0, 0, 0] early ∧
    ¬Unenclosed body [0, 1, 0, 0, 0] early := by
  refine ⟨rfl, ⟨rfl, fun y hy => ?_⟩, fun h => ?_⟩
  · rw [Node.between_iff_mem] at hy
    revert y
    decide
  · have hclass := h.2 _ (Node.between_iff_mem.mpr List.mem_cons_self)
    exact absurd hclass (by decide)

end Cached

/-- What a static block of an abstract class returns is taken for what the method returns. -/
theorem returnStatements_listed_cached :
    (Cached.method.body? = some Cached.body ∧ (Shape.annotated Cached.source Cached.method).isUnknown = true ∧
      Cached.body.Laid Cached.text.toList) ∧
    returnStatements Cached.body = [Cached.early, Cached.last] ∧
    ¬Cached.body.Lists (Unenclosed Cached.body) (returnStatements Cached.body) ∧
    (returnStatements Cached.body).Pairwise (fun x y => x.stop ≤ y.start ∨ Node.Below x y) ∧
    Shape.ofMethod Cached.source Cached.method = .boolean ∧
    (Cached.source.classes.flatMap fun c => c.methods.flatMap fun m => m.body?.toList.flatMap fun body =>
      (returnStatements body).map Cached.source.textOf) = ["return false;", "return \x7b id: 1 \x7d;"] := by
  have hlaid : Cached.body.Laid Cached.text.toList := by decide +kernel
  have hunknown : (Shape.annotated Cached.source Cached.method).isUnknown = true := rfl
  obtain ⟨-, ⟨-, hiff, hordered⟩, hmethod⟩ := returnStatements_listed isScope Cached.body Cached.body
  obtain ⟨hat, hreturned, henclosed⟩ := Cached.returned_early
  refine ⟨⟨rfl, hunknown, hlaid⟩, rfl, fun h => henclosed (hiff.mp h _ _ hat hreturned), hordered _ hlaid, ?_, ?_⟩
  · rw [hmethod Cached.source Cached.method rfl hunknown]
    rfl
  · decide +kernel

end ResponseShapes
