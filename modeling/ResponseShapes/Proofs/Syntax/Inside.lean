import ResponseShapes.Proofs.Syntax.SplicedClass

/-! # What stands in a node

All nodes of a tree but its comments, and the names that they mention. When decorators of a tree are spliced, each
node of the new tree stands in a new decorator or is a node of the tree before, and each node of the tree before that
stands in nothing that was dropped or replaced is there still (`Spliced.origin`, `Spliced.exists_node`). -/

namespace ResponseShapes.Syntax

namespace Node

mutual

/-- The node and all that stands in it, comments aside, in source order. -/
def nodes : Node → List Node
  | mk k r a b cs => mk k r a b cs :: nodesAll cs

def nodesAll : List Node → List Node
  | [] => []
  | n :: ns => (if n.isNote then [] else n.nodes) ++ nodesAll ns

end

/-- Whether the node names a value or a type. -/
def isReference (n : Node) : Bool :=
  n.kind = .identifier || n.kind = .shorthandPropertyIdentifier || n.kind = .typeIdentifier

/-- Whether the name is referred to anywhere in the node. -/
def mentions (s : Source) (name : String) (n : Node) : Bool :=
  n.nodes.any fun x => x.isReference && s.textOf x = name

/-- The second node is the first or stands in it, and all nodes on the way to it satisfy `p`. -/
inductive Inside (p : Node → Prop) : Node → Node → Prop
  | refl (n : Node) : Inside p n n
  | part {n m x : Node} (hm : m ∈ n.parts) (hp : p m) (h : Inside p m x) : Inside p n x

/-- The node is neither dropped nor replaced. -/
def Remains (es : List (Edit Char)) (n : Node) : Prop :=
  pieceOf es n = .kept ∨ pieceOf es n = .followed

variable {p q : Node → Prop} {n m x g : Node} {text : List Char}

/-! ### Nodes and ways to them -/

theorem nodes_eq (n : Node) : n.nodes = n :: nodesAll n.children := by
  cases n
  rw [nodes]
  rfl

theorem mem_nodesAll {ns : List Node} : x ∈ nodesAll ns ↔ ∃ n ∈ ns, n.isNote = false ∧ x ∈ n.nodes := by
  induction ns with
  | nil => simp [nodesAll]
  | cons n ns ih =>
    rw [nodesAll, List.mem_append, ih]
    cases hnote : n.isNote <;> simp [hnote]

theorem mem_parts : m ∈ n.parts ↔ m ∈ n.children ∧ m.isNote = false := by
  simp [parts]

theorem mem_nodes : x ∈ n.nodes ↔ x = n ∨ ∃ m ∈ n.parts, x ∈ m.nodes := by
  rw [nodes_eq, List.mem_cons, mem_nodesAll]
  simp only [mem_parts, and_assoc]

namespace Inside

theorem to_below (h : Inside p n x) : Below n x := by
  induction h with
  | refl n => exact .refl n
  | part hm _ _ ih => exact .child (mem_parts.mp hm).1 ih

theorem imp_of_way (h : Inside p n x) (hpq : ∀ m, Inside p n m → Below m x → p m → q m) : Inside q n x := by
  induction h with
  | refl n => exact .refl n
  | part hm hp h ih =>
    exact .part hm (hpq _ (.part hm hp (.refl _)) h.to_below hp)
      (ih fun m hm' hmx hp' => hpq m (.part hm hp hm') hmx hp')

theorem trans (h : Inside p n m) (h' : Inside p m x) : Inside p n x := by
  induction h with
  | refl => exact h'
  | part hm hp _ ih => exact .part hm hp (ih h')

end Inside

theorem inside_of_mem_nodes : (n : Node) → x ∈ n.nodes → Inside (fun _ => True) n x
  | mk k r a b cs, h => by
    rw [nodes, List.mem_cons] at h
    rcases h with rfl | h
    · exact .refl _
    · obtain ⟨m, hm, hnote, hx⟩ := mem_nodesAll.mp h
      exact .part (mem_parts.mpr ⟨hm, hnote⟩) trivial (inside_of_mem_nodes m hx)
termination_by n => sizeOf n
decreasing_by
  have := List.sizeOf_lt_of_mem hm
  simp only [mk.sizeOf_spec]
  omega

theorem mem_nodes_iff : x ∈ n.nodes ↔ Inside (fun _ => True) n x := by
  refine ⟨inside_of_mem_nodes n, fun h => ?_⟩
  induction h with
  | refl n => exact mem_nodes.mpr (Or.inl rfl)
  | part hm _ _ ih => exact mem_nodes.mpr (Or.inr ⟨_, hm, ih⟩)

theorem mentions_of_mem {s : Source} {name : String} (h : m ∈ n.nodes) (hm : m.mentions s name = true) :
    n.mentions s name = true := by
  obtain ⟨x, hx, hname⟩ := List.any_eq_true.mp hm
  exact List.any_eq_true.mpr ⟨x, mem_nodes_iff.mpr ((mem_nodes_iff.mp h).trans (mem_nodes_iff.mp hx)), hname⟩

/-! ### Nodes around nodes -/

theorem size_lt_of_mem {c p : Node} (hc : c ∈ p.children) : c.size < p.size := by
  cases p with
  | mk k r a b cs =>
    have hle : ∀ ns : List Node, c ∈ ns → c.size ≤ sizeAll ns := by
      intro ns hns
      induction ns with
      | nil => cases hns
      | cons n ns ih =>
        rw [sizeAll]
        rcases List.mem_cons.mp hns with rfl | hns
        · omega
        · have := ih hns
          omega
    have := hle cs hc
    rw [size]
    omega

theorem Below.size_le (h : Below n x) : x.size ≤ n.size := by
  induction h with
  | refl => exact Nat.le_refl _
  | child hc _ ih =>
    have := size_lt_of_mem hc
    omega

theorem Below.antisymm (h : Below n x) (h' : Below x n) : n = x := by
  cases h with
  | refl => rfl
  | child hc h =>
    have := size_lt_of_mem hc
    have := h.size_le
    have := h'.size_le
    omega

/-- What stands around a node that is not empty is on the way to it. -/
theorem Inside.around (h : Inside p n x) (hlaid : n.Laid text) (hx : x.start < x.stop) (hg : Below n g)
    (hgx : Below g x) : g = n ∨ p g := by
  induction h with
  | refl n => exact Or.inl (hgx.antisymm hg)
  | @part n m x hm hp h ih =>
    cases hg with
    | refl => exact Or.inl rfl
    | @child _ c _ hc hg =>
      have hm := (mem_parts.mp hm).1
      have hsame : c = m := by
        by_contra hne
        rcases hlaid.cousins_clear hc hm hne (hg.trans hgx) h.to_below with h | h <;> omega
      subst hsame
      rcases ih (hlaid.child hm).laid hx hg hgx with rfl | hpg
      · exact Or.inr hp
      · exact Or.inr hpg

/-! ### Alike nodes -/

theorem Alike.inside {s s' : Source} {n n' : Node} (hn : n.Alike s s' n') {x : Node} (h : Inside (fun _ => True) n x) :
    ∃ x', Inside (fun _ => True) n' x' ∧ x.Alike s s' x' := by
  induction h generalizing n' with
  | refl => exact ⟨n', .refl n', hn⟩
  | part hm _ _ ih =>
    obtain ⟨m', hm', halike⟩ := related_left hn.parts hm
    obtain ⟨x', hx', hx⟩ := ih halike
    exact ⟨x', .part hm' trivial hx', hx⟩

theorem Alike.inside' {s s' : Source} {n n' : Node} (hn : n.Alike s s' n') {x' : Node}
    (h : Inside (fun _ => True) n' x') : ∃ x, Inside (fun _ => True) n x ∧ x.Alike s s' x' := by
  induction h generalizing n with
  | refl => exact ⟨n, .refl n, hn⟩
  | part hm _ _ ih =>
    obtain ⟨m, hm, halike⟩ := related_right hn.parts hm
    obtain ⟨x, hx, hrel⟩ := ih halike
    exact ⟨x, .part hm trivial hx, hrel⟩

theorem Alike.mentions_eq {s s' : Source} {n n' : Node} (hn : n.Alike s s' n') (name : String) :
    n'.mentions s' name = n.mentions s name := by
  have href : ∀ {x x' : Node}, x.Alike s s' x' → (x'.isReference && decide (s'.textOf x' = name)) =
      (x.isReference && decide (s.textOf x = name)) := fun h => by
    rw [isReference, isReference, h.kind_eq, h.textOf_eq]
  rw [Bool.eq_iff_iff, mentions, mentions, List.any_eq_true, List.any_eq_true]
  constructor
  · rintro ⟨x', hx', hname⟩
    obtain ⟨x, hx, hrel⟩ := hn.inside' (mem_nodes_iff.mp hx')
    exact ⟨x, mem_nodes_iff.mpr hx, href hrel ▸ hname⟩
  · rintro ⟨x, hx, hname⟩
    obtain ⟨x', hx', hrel⟩ := hn.inside (mem_nodes_iff.mp hx)
    exact ⟨x', mem_nodes_iff.mpr hx', (href hrel).trans hname⟩

/-! ### Spliced nodes -/

section Spliced
variable {es : List (Edit Char)} {names : List String} {s' : Source} {n n' x' : Node} {ns ns' : List Node}

/-- A node that is neither dropped nor replaced is there still. -/
theorem SplicedAll.exists_spliced (h : SplicedAll es names s' ns ns') (hn : n ∈ ns) (hnote : n.isNote = false)
    (hremains : n.Remains es) : ∃ n' ∈ ns', n.Spliced es names s' n' := by
  have hlater : ∀ {m : Node} {ms : List Node}, (∃ n' ∈ ms, n.Spliced es names s' n') →
      ∃ n' ∈ m :: ms, n.Spliced es names s' n' := fun ⟨n', hn', hrel⟩ => ⟨n', List.mem_cons_of_mem _ hn', hrel⟩
  induction h using SplicedAll.induction with
  | nil => cases hn
  | note m ns ns' hm _ ih =>
    rcases List.mem_cons.mp hn with rfl | hn
    · rw [hm] at hnote
      cases hnote
    · exact ih hn
  | kept m m' ns ns' _ _ hrel _ ih =>
    rcases List.mem_cons.mp hn with rfl | hn
    · exact ⟨m', List.mem_cons_self, hrel⟩
    · exact hlater (ih hn)
  | dropped m ns ns' hp _ ih =>
    rcases List.mem_cons.mp hn with rfl | hn
    · rcases hremains with h | h <;> rw [hp] at h <;> cases h
    · exact ih hn
  | replaced m d ns ns' hp _ _ ih =>
    rcases List.mem_cons.mp hn with rfl | hn
    · rcases hremains with h | h <;> rw [hp] at h <;> cases h
    · exact hlater (ih hn)
  | followed m m' d ns ns' _ hrel _ _ ih =>
    rcases List.mem_cons.mp hn with rfl | hn
    · exact ⟨m', List.mem_cons_self, hrel⟩
    · exact hlater (hlater (ih hn))

theorem Spliced.exists_node (hn : n.Spliced es names s' n') (h : Inside (Remains es) n x) :
    ∃ x' ∈ n'.nodes, x.Spliced es names s' x' := by
  induction h generalizing n' with
  | refl => exact ⟨n', mem_nodes.mpr (Or.inl rfl), hn⟩
  | part hm hremains _ ih =>
    obtain ⟨hm, hnote⟩ := mem_parts.mp hm
    obtain ⟨m', hm', hrel⟩ := hn.parts.exists_spliced hm hnote hremains
    obtain ⟨x', hx', hx⟩ := ih hrel
    exact ⟨x', mem_nodes.mpr (Or.inr ⟨m', hm', hx'⟩), hx⟩

/-- A node of the new tree stands in a new decorator, or it was there before. -/
theorem Spliced.origin (hn : n.Spliced es names s' n') (h : x' ∈ n'.nodes) :
    (∃ d ∈ n'.nodes, d.Fresh names s' ∧ x' ∈ d.nodes) ∨ ∃ x, Inside (Remains es) n x ∧ x.Spliced es names s' x' := by
  replace h := mem_nodes_iff.mp h
  induction h generalizing n with
  | refl n' => exact Or.inr ⟨n, .refl n, hn⟩
  | @part n' m' x' hm' _ h ih =>
    rcases hn.parts.mem hm' with hfresh | ⟨m, hm, hrel, hremains⟩
    · exact Or.inl ⟨m', mem_nodes.mpr (Or.inr ⟨m', hm', mem_nodes.mpr (Or.inl rfl)⟩), hfresh, mem_nodes_iff.mpr h⟩
    · have hnote : m.isNote = false := by
        rw [isNote, ← hrel.kind_eq, ← hrel.role_eq]
        exact (mem_parts.mp hm').2
      rcases ih hrel with ⟨d, hd, hfresh, hx⟩ | ⟨x, hx, hrel⟩
      · exact Or.inl ⟨d, mem_nodes.mpr (Or.inr ⟨m', hm', hd⟩), hfresh, hx⟩
      · exact Or.inr ⟨x, .part (mem_parts.mpr ⟨hm, hnote⟩) hremains hx, hrel⟩

end Spliced

end Node

/-- The decorators anywhere in the source; in an import there are none. -/
def Source.everyDecorator (s : Source) : List Node :=
  (s.statements.flatMap Node.nodes).filter (·.kind == .decorator)

theorem Source.mem_everyDecorator {s : Source} {n : Node} :
    n ∈ s.everyDecorator ↔ n.kind = .decorator ∧ ∃ statement ∈ s.statements, n ∈ statement.nodes := by
  simp [everyDecorator, and_comm]

end ResponseShapes.Syntax
