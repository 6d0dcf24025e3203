import Mathlib.Data.List.Pairwise
import ResponseShapes.Syntax.Source

/-! # Trees laid over a text

A tree that was read from a text covers it in the way its rules say: the children of a node lie inside it, in the
order of the text and without an overlap; decorators, imports, names and modifiers begin with characters of their own;
and a decorator plays no part of its own in the construct it stands in, which goes on behind it. Two constructs of such
a tree are nested or stand clear of each other (`Laid.nested_or_clear`). -/

namespace ResponseShapes.Syntax

/-- The white space that a removal takes along with what stands before it. -/
def isPadding (c : Char) : Bool :=
  c == ' ' || c == '\t' || c == '\r' || c == '\n'

namespace Node

/-- The node covers something, and what it covers does not begin with white space. -/
def Begins (text : List Char) (n : Node) : Prop :=
  n.start < n.stop ∧ (text[n.start]?.any fun c => !isPadding c) = true

instance (text : List Char) (n : Node) : Decidable (n.Begins text) :=
  inferInstanceAs (Decidable (_ ∧ _))

/-- Whether the node is one by which classes and imports are read: a decorator, an import, a name or a modifier. -/
def isLead (n : Node) : Bool :=
  n.kind = .decorator || n.kind = .importStatement || n.kind = .accessibilityModifier || n.kind = .token ||
    n.role = some .name

theorem isLead_of_decorator {n : Node} (h : n.kind = .decorator) : n.isLead = true := by
  simp [isLead, h]

theorem isLead_of_import {n : Node} (h : n.kind = .importStatement) : n.isLead = true := by
  simp [isLead, h]

mutual

/-- The node and all below it are laid over the text. -/
def Laid (text : List Char) : Node → Prop
  | mk _ _ a b cs => a ≤ b ∧ b ≤ text.length ∧ LaidAll text a b cs

/-- The nodes are laid over the text behind each other between two places of the node they stand in. -/
def LaidAll (text : List Char) (lower upper : Nat) : List Node → Prop
  | [] => True
  | n :: ns =>
    (lower ≤ n.start ∧ n.stop ≤ upper ∧ (n.isLead = true → n.Begins text) ∧
      (n.kind = .decorator → n.role = none ∧ n.stop < upper)) ∧ n.Laid text ∧ LaidAll text n.stop upper ns

end

mutual

def decideLaid (text : List Char) : (n : Node) → Decidable (n.Laid text)
  | mk k r a b cs =>
    have := decideLaidAll text a b cs
    decidable_of_iff (a ≤ b ∧ b ≤ text.length ∧ LaidAll text a b cs) (by rw [Laid])

def decideLaidAll (text : List Char) (lower upper : Nat) : (ns : List Node) → Decidable (LaidAll text lower upper ns)
  | [] => .isTrue trivial
  | n :: ns =>
    have := decideLaid text n
    have := decideLaidAll text n.stop upper ns
    decidable_of_iff
      ((lower ≤ n.start ∧ n.stop ≤ upper ∧ (n.isLead = true → n.Begins text) ∧
        (n.kind = .decorator → n.role = none ∧ n.stop < upper)) ∧ n.Laid text ∧ LaidAll text n.stop upper ns)
      (by rw [LaidAll])

end

instance (text : List Char) (n : Node) : Decidable (n.Laid text) :=
  decideLaid text n

/-! ### Children -/

/-- What is known of a child of a node that is laid over a text. -/
structure Child (text : List Char) (p c : Node) : Prop where
  start_le : p.start ≤ c.start
  stop_le : c.stop ≤ p.stop
  begins : c.isLead = true → c.Begins text
  laid : c.Laid text
  role_eq : c.kind = .decorator → c.role = none
  stop_lt : c.kind = .decorator → c.stop < p.stop

/-- The nodes have no character in common. -/
def Clear (a b : Node) : Prop :=
  a.stop ≤ b.start ∨ b.stop ≤ a.start

theorem Clear.symm {a b : Node} (h : Clear a b) : Clear b a :=
  Or.symm h

instance : Std.Symm Clear :=
  ⟨fun _ _ => Clear.symm⟩

theorem Clear.ne {text : List Char} {a b : Node} (h : Clear a b) (hb : b.Begins text) : a ≠ b := by
  rintro rfl
  have := hb.1
  rcases h with h | h <;> omega

theorem Laid.span {text : List Char} {p : Node} (h : p.Laid text) : p.start ≤ p.stop ∧ p.stop ≤ text.length := by
  cases p
  rw [Laid] at h
  exact ⟨h.1, h.2.1⟩

theorem LaidAll.mem {text : List Char} {lower upper : Nat} {ns : List Node} (h : LaidAll text lower upper ns)
    {n : Node} (hn : n ∈ ns) : lower ≤ n.start ∧ n.stop ≤ upper ∧
      (n.isLead = true → n.Begins text) ∧ n.Laid text ∧
      (n.kind = .decorator → n.role = none ∧ n.stop < upper) := by
  induction ns generalizing lower with
  | nil => cases hn
  | cons m ns ih =>
    rw [LaidAll] at h
    obtain ⟨⟨hlow, hup, hbeg, hdec⟩, hlaid, hns⟩ := h
    rcases List.mem_cons.mp hn with rfl | hn
    · exact ⟨hlow, hup, hbeg, hlaid, hdec⟩
    · obtain ⟨h₁, h₂⟩ := ih hns hn
      have := hlaid.span.1
      exact ⟨by omega, h₂⟩

theorem LaidAll.ordered {text : List Char} {lower upper : Nat} {ns : List Node} (h : LaidAll text lower upper ns) :
    ns.Pairwise fun a b => a.stop ≤ b.start := by
  induction ns generalizing lower with
  | nil => exact List.Pairwise.nil
  | cons n ns ih =>
    rw [LaidAll] at h
    obtain ⟨-, -, hns⟩ := h
    exact List.Pairwise.cons (fun m hm => (hns.mem hm).1) (ih hns)

variable {text : List Char} {p : Node}

theorem Laid.children (h : p.Laid text) : LaidAll text p.start p.stop p.children := by
  cases p
  rw [Laid] at h
  exact h.2.2

theorem Laid.child (h : p.Laid text) {c : Node} (hc : c ∈ p.children) : Child text p c := by
  obtain ⟨h₁, h₂, h₃, h₄, h₅⟩ := h.children.mem hc
  exact ⟨h₁, h₂, h₃, h₄, fun hk => (h₅ hk).1, fun hk => (h₅ hk).2⟩

theorem Laid.ordered (h : p.Laid text) : p.children.Pairwise fun a b => a.stop ≤ b.start :=
  h.children.ordered

theorem Laid.siblings_clear (h : p.Laid text) {a b : Node} (ha : a ∈ p.children) (hb : b ∈ p.children)
    (hab : a ≠ b) : Clear a b := by
  have hclear : p.children.Pairwise Clear := h.ordered.imp fun h => Or.inl h
  exact hclear.forall ha hb hab

/-! ### Nodes further below -/

/-- The second node is the first or stands somewhere below it. -/
inductive Below : Node → Node → Prop
  | refl (n : Node) : Below n n
  | child {p c n : Node} (hc : c ∈ p.children) (h : Below c n) : Below p n

theorem Below.of_mem {p c : Node} (hc : c ∈ p.children) : Below p c :=
  .child hc (.refl c)

theorem Below.trans {a b c : Node} (h : Below a b) (h' : Below b c) : Below a c := by
  induction h with
  | refl => exact h'
  | child hc _ ih => exact .child hc (ih h')

theorem Laid.below (h : p.Laid text) {n : Node} (hn : Below p n) :
    n.Laid text ∧ p.start ≤ n.start ∧ n.stop ≤ p.stop := by
  induction hn with
  | refl => exact ⟨h, Nat.le_refl _, Nat.le_refl _⟩
  | child hc _ ih =>
    have hchild := h.child hc
    obtain ⟨hlaid, hstart, hstop⟩ := ih hchild.laid
    exact ⟨hlaid, Nat.le_trans hchild.start_le hstart, Nat.le_trans hstop hchild.stop_le⟩

theorem Laid.cousins_clear (h : p.Laid text) {a b x y : Node} (ha : a ∈ p.children) (hb : b ∈ p.children)
    (hab : a ≠ b) (hx : Below a x) (hy : Below b y) : Clear x y := by
  obtain ⟨-, ha₁, ha₂⟩ := (h.child ha).laid.below hx
  obtain ⟨-, hb₁, hb₂⟩ := (h.child hb).laid.below hy
  rcases h.siblings_clear ha hb hab with h | h
  · exact Or.inl (by omega)
  · exact Or.inr (by omega)

/-- Two nodes of a tree are nested or stand clear of each other. -/
theorem Laid.nested_or_clear (h : p.Laid text) {x y : Node} (hx : Below p x) (hy : Below p y) :
    Below x y ∨ Below y x ∨ Clear x y := by
  induction hx with
  | refl => exact Or.inl hy
  | @child p a x ha hx ih =>
    cases hy with
    | refl => exact Or.inr (Or.inl (.child ha hx))
    | @child _ b _ hb hy =>
      by_cases hab : a = b
      · subst hab
        exact ih (h.child ha).laid hy
      · exact Or.inr (Or.inr (h.cousins_clear ha hb hab hx hy))

end Node

/-- The tree of the source is laid over its text. -/
def Source.Laid (s : Source) : Prop :=
  s.root.Laid s.text

instance (s : Source) : Decidable s.Laid :=
  inferInstanceAs (Decidable (s.root.Laid s.text))

end ResponseShapes.Syntax
